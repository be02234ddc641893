import Blockd.Engine.HeadCluster

/-!
# Single-writer fencing

Every version of the head with a fence lies in the tenure of that fence: the stretch of versions
that starts at the claim whose write created the fence and in which every version has the same
holder (`Tenured`).  A request that carries a fence expects a version of its tenure.  Whenever such
a request takes effect the tenure grows by one version, and a tenure is over as soon as another
host's claim takes effect, since no request of it expects that claim.  `Fenced` states this of the
object, `HeadSystem.Lawful` adds what one holder knows, `Cluster.Inv` what all of them and the
attempts know.
-/

set_option autoImplicit false

namespace Blockd

open Cas (Object)

/-! ## Tenures -/

/-- The versions from the claim `fence` of `host` on up to `version` all have that holder. -/
structure Tenured (o : Object UInt64 StoredHead) (fence : UInt64) (host : HostId)
    (version : UInt64) : Prop where
  claim : ∃ c, (fence, c) ∈ o.log ∧ c.head.fence = 0 ∧ c.head.holder = host
  span : o.Span (fun st => st.head.holder = host) fence version

variable {host : HostId}

theorem Tenured.grows {o o' : Object UInt64 StoredHead} {fence version : UInt64}
    (h : Tenured o fence host version) (hg : o.Grows o') : Tenured o' fence host version := by
  obtain ⟨c, hc, hzero, hholder⟩ := h.claim
  exact ⟨⟨c, hg.log _ hc, hzero, hholder⟩, h.span.grows hg⟩

/-- A claim starts a tenure. -/
theorem Tenured.start {o : Object UInt64 StoredHead} {version : UInt64} {c : StoredHead}
    (hc : (version, c) ∈ o.log) (hzero : c.head.fence = 0) :
    Tenured o version c.head.holder version :=
  ⟨⟨c, hc, hzero, rfl⟩, .single hc rfl⟩

/-- The version is one of the tenure that the head's fence names. -/
def Covers (o : Object UInt64 StoredHead) (head : HeadRecord) (version : UInt64) : Prop :=
  head.fence ≠ 0 → Tenured o head.fence head.holder version

/-- Every version lies in the tenure it names, and every request expects a version of its own. -/
structure Fenced (o : Object UInt64 StoredHead) : Prop where
  log : ∀ e ∈ o.log, Covers o e.2.head e.1
  requests : ∀ r ∈ o.requests, Covers o r.value.head r.expected

namespace Fenced

variable {o o' : Object UInt64 StoredHead}

theorem create (version : UInt64) {head : HeadRecord} (hzero : head.fence = 0) :
    Fenced (.create version ⟨head, .claim⟩) where
  log := by
    intro e he hne
    rw [List.mem_singleton.mp he] at hne
    exact absurd hzero hne
  requests := by
    intro r hr
    cases hr

theorem send (h : Fenced o) {expected : UInt64} {st : StoredHead}
    (hst : Covers o st.head expected) : Fenced (o.send expected st) where
  log := fun e he hne => (h.log e he hne).grows (.send o expected st)
  requests := by
    intro r hr hne
    rcases List.mem_append.mp hr with hr | hr
    · exact (h.requests r hr hne).grows (.send o expected st)
    · rw [List.mem_singleton.mp hr] at hne ⊢
      exact (hst hne).grows (.send o expected st)

/-- **A tenure grows by its own requests only.** -/
theorem land (h : Fenced o) {i : Nat} {version : UInt64} (ho : o.land i version = some o') :
    Fenced o' := by
  obtain ⟨r, hr, hexp, hlog, hreq⟩ := Object.land_eq_some ho
  have hg := Object.Grows.land ho
  have hr' := List.mem_of_getElem? hr
  refine ⟨fun e he hne => ?_, fun r' hmem hne => ?_⟩
  · rcases List.mem_cons.mp (hlog ▸ he) with rfl | he
    · have hten := h.requests r hr' hne
      exact ⟨(hten.grows hg).claim, Object.Span.land hr hten.span rfl ho⟩
    · exact (h.log e he hne).grows hg
  · rcases List.mem_or_eq_of_mem_set (hreq ▸ hmem) with hmem | rfl
    · exact (h.requests r' hmem hne).grows hg
    · exact (h.requests r hr' hne).grows hg

theorem singleWriter (h : Fenced o) : SingleWriter o.log := by
  intro version stored hm hne
  have hten := h.log _ hm hne
  refine ⟨hten.claim, fun later claim hclaim _ hafter hbefore => ?_⟩
  exact hten.span.all _ hclaim hafter.le hbefore.le

end Fenced

/-! ## One holder -/

/-- What a task remembers of the object, and that the head it has sent is its holder's. -/
def Phase.Own (host : HostId) (fence : UInt64) (o : Object UInt64 StoredHead) : Phase → Prop
  | writing round request =>
    round.head.holder = host ∧ round.head.fence = fence ∧
      ∃ writer, o.Sent request ⟨round.head, writer⟩
  | served _ version found => (version, found) ∈ o.log
  | reading _ | delayed | done _ => True

theorem Phase.Own.mono {fence : UInt64} {o o' : Object UInt64 StoredHead} (hext : o.Extends o') :
    ∀ {phase : Phase}, phase.Own host fence o → phase.Own host fence o'
  | writing _ _, ⟨hh, hf, w, hs⟩ => ⟨hh, hf, w, hext.sent _ _ hs⟩
  | served _ _ _, hm => hext.log _ hm
  | reading _, _ | delayed, _ | done _, _ => trivial

namespace HeadSystem

/-- The version that the holder expects next is one of its tenure. -/
structure Lawful (s : HeadSystem) : Prop where
  fenced : Fenced s.object
  version : ∃ v, s.cache.headVersion = some v ∧
    (s.cache.fence ≠ 0 → Tenured s.object s.cache.fence s.host v)
  phases : ∀ x ∈ s.tasks, x.phase.Own s.host s.cache.fence s.object

variable {s s' : HeadSystem}

namespace Lawful

theorem withObject (h : s.Lawful) {o : Object UInt64 StoredHead} (hg : s.object.Grows o)
    (hf : Fenced o) : Lawful { s with object := o } := by
  obtain ⟨v, hv, hten⟩ := h.version
  exact ⟨hf, ⟨v, hv, fun hne => (hten hne).grows hg⟩,
    fun x hx => (h.phases x hx).mono hg.toExtends⟩

theorem withCache (h : s.Lawful) {c : HeadCache} (hf : c.fence = s.cache.fence) {v : UInt64}
    (hv : c.headVersion = some v)
    (hten : s.cache.fence ≠ 0 → Tenured s.object s.cache.fence s.host v) :
    Lawful { s with cache := c } where
  fenced := h.fenced
  version := ⟨v, hv, fun hne => by
    show Tenured s.object c.fence s.host v
    rw [hf] at hne ⊢
    exact hten hne⟩
  phases := fun x hx => by
    show x.phase.Own s.host c.fence s.object
    rw [hf]
    exact h.phases x hx

theorem setPhase (h : s.Lawful) {i : Nat} {phase : Phase}
    (hp : phase.Own s.host s.cache.fence s.object) : Lawful (s.setPhase i phase) := by
  refine ⟨h.fenced, h.version, fun x hx => ?_⟩
  obtain hx | ⟨y, -, rfl⟩ := HeadSystem.mem_setPhase hx
  · exact h.phases x hx
  · exact hp

/-- What an event keeps: the holder is lawful after it, and the object has only grown. -/
def After (s s' : HeadSystem) : Prop :=
  s'.Lawful ∧ s.object.Grows s'.object ∧ s'.host = s.host

theorem startRound (h : s.Lawful) (task : HeadTask) :
    After s (s.startRound task).1 ∧ (s.startRound task).2.Own s.host s.cache.fence
      (s.startRound task).1.object ∧ (s.startRound task).1.cache = s.cache := by
  obtain ⟨v, hv, hten⟩ := h.version
  rcases HeadSystem.startRound_cases hv task with ⟨-, -, he⟩ | he <;> rw [he]
  · exact ⟨⟨h, .refl _, rfl⟩, trivial, rfl⟩
  · have hcovers : Covers s.object (task.head s.volume s.host s.cache) v := by
      rw [Covers, task.fence_head, task.holder_head]
      exact hten
    exact ⟨⟨h.withObject (.send _ _ _) (h.fenced.send hcovers), .send _ _ _, rfl⟩,
      ⟨task.holder_head .., task.fence_head .., _, Object.sent_send ..⟩, rfl⟩

theorem spawn (h : s.Lawful) (task : HeadTask) (base : HeadCache) :
    After s (s.spawn task base) := by
  obtain ⟨⟨hs, hg, hhost⟩, hp, hcache⟩ := h.startRound task
  refine ⟨⟨hs.fenced, hs.version, fun x hx => ?_⟩, hg, hhost⟩
  rcases List.mem_append.mp hx with hx | hx
  · exact hs.phases x hx
  · rw [List.mem_singleton.mp hx]
    show (s.startRound task).2.Own (s.startRound task).1.host (s.startRound task).1.cache.fence _
    rw [hhost, hcache]
    exact hp

theorem resume (h : s.Lawful) (i : Nat) (task : HeadTask) : After s (s.resume i task) := by
  obtain ⟨⟨hs, hg, hhost⟩, hp, hcache⟩ := h.startRound task
  refine ⟨hs.setPhase ?_, hg, hhost⟩
  rw [hhost, hcache]
  exact hp

/-- A head that passes the fence test is one of the holder's tenure. -/
theorem found (h : s.Lawful) {version : UInt64} {st : StoredHead}
    (hm : (version, st) ∈ s.object.log) (i : Nat) (task : HeadTask) (round : Round) :
    After s (s.found i task round version st.head) := by
  rw [HeadSystem.found]
  split
  · have hstop : Lawful { s with stopped := true } := ⟨h.fenced, h.version, h.phases⟩
    exact ⟨hstop.setPhase trivial, .refl _, rfl⟩
  · rename_i htest
    rw [not_or, not_not, not_not] at htest
    have hc := h.withCache (task.fence_onFound round s.cache version st.head)
      (task.headVersion_onFound round s.cache version st.head) (fun hne => by
        have hten := h.fenced.log _ hm (htest.2 ▸ hne)
        rwa [htest.1, htest.2] at hten)
    dsimp only
    split
    · exact ⟨hc.setPhase trivial, .refl _, rfl⟩
    · exact hc.resume i task
    · exact ⟨hc.setPhase trivial, .refl _, rfl⟩

/-- **Every event of a holder keeps it lawful**; what another claim does is not the holder's. -/
theorem event (h : s.Lawful) {a : HeadStep} (hs : s.Event a s')
    (hown : ∀ version head, a ≠ .other version head) : After s s' := by
  have hsnapshot {t : HeadSystem} (ht : After s t) (base : Option (Option ManifestPtr)) :
      After s { t with snapshot := base } :=
    ⟨⟨ht.1.fenced, ht.1.version, ht.1.phases⟩, ht.2⟩
  cases hs with
  | snapshot => exact hsnapshot ⟨h, .refl _, rfl⟩ _
  | publish => exact hsnapshot (h.spawn _ _) _
  | transition | activate | removeRetired => exact h.spawn _ _
  | land ho => exact ⟨h.withObject (.land ho) (h.fenced.land ho), .land ho, rfl⟩
  | other => exact absurd rfl (hown _ _)
  | @ok _ task _ round _ version ht hv =>
    obtain ⟨hholder, hfence, writer, hsent⟩ := h.phases _ (List.mem_of_getElem? ht)
    have hm := hsent.mem_log hv
    have hc := h.withCache (task.fence_onOk round s.cache version)
      (task.headVersion_onOk round s.cache version) (fun hne => by
        have hten := h.fenced.log _ hm (hfence ▸ hne)
        rwa [hholder, hfence] at hten)
    exact ⟨hc.setPhase trivial, .refl _, rfl⟩
  | failed | getUnavailable => exact ⟨h.setPhase trivial, .refl _, rfl⟩
  | serve => exact ⟨h.setPhase s.object.current_mem_log, .refl _, rfl⟩
  | found ht => exact h.found (h.phases _ (List.mem_of_getElem? ht)) _ _ _
  | retry => exact h.resume _ _

end Lawful

end HeadSystem

/-! ## The store and the attempts -/

/-- A claim of the host, written or about to be. -/
def HeadRecord.IsClaim (h : HeadRecord) (host : HostId) : Prop := h.fence = 0 ∧ h.holder = host

namespace HeadStore

/-- There is a head object, and it has the property. -/
def Has (s : HeadStore) (P : Object UInt64 StoredHead → Prop) : Prop :=
  ∃ o, s.object = some o ∧ P o

/-- The head has had this version. -/
def HasVersion (s : HeadStore) (version : UInt64) (head : HeadRecord) : Prop :=
  s.Has fun o => ∃ writer, (version, ⟨head, writer⟩) ∈ o.log

/-- The request was sent with this head. -/
def HasRequest (s : HeadStore) (request : Nat) (head : HeadRecord) : Prop :=
  s.Has fun o => ∃ writer, o.Sent request ⟨head, writer⟩

/-- The version is one of the host's tenure, which a fence other than zero names. -/
def HasTenure (s : HeadStore) (fence : UInt64) (host : HostId) (version : UInt64) : Prop :=
  s.Has fun o => fence ≠ 0 → Tenured o fence host version

structure Inv (s : HeadStore) : Prop where
  fenced : ∀ o, s.object = some o → Fenced o
  creations : ∀ c ∈ s.creations, c.1.fence = 0 ∧ ∀ v ∈ c.2, s.HasVersion v c.1

/-- The second state is the first with more in it. -/
structure Grows (s s' : HeadStore) : Prop where
  object : ∀ o, s.object = some o → s'.Has o.Grows
  creations : ∀ (i : Nat) c, s.creations[i]? = some c → ∃ c', s'.creations[i]? = some c' ∧ c'.1 = c.1

variable {s s' : HeadStore}

theorem Has.mono {P Q : Object UInt64 StoredHead → Prop} (h : s.Has P) (hg : s.Grows s')
    (hPQ : ∀ o o' : Object UInt64 StoredHead, o.Grows o' → P o → Q o') : s'.Has Q := by
  obtain ⟨o, ho, hP⟩ := h
  obtain ⟨o', ho', hgo⟩ := hg.object o ho
  exact ⟨o', ho', hPQ o o' hgo hP⟩

variable {head : HeadRecord} {version : UInt64} {o : Object UInt64 StoredHead}

theorem HasVersion.mono (h : s.HasVersion version head) (hg : s.Grows s') :
    s'.HasVersion version head :=
  Has.mono h hg fun _ _ hgo ⟨w, hm⟩ => ⟨w, hgo.log _ hm⟩

theorem HasRequest.mono {request : Nat} (h : s.HasRequest request head) (hg : s.Grows s') :
    s'.HasRequest request head :=
  Has.mono h hg fun _ _ hgo ⟨w, hs⟩ => ⟨w, hgo.sent _ _ hs⟩

theorem HasTenure.mono {fence : UInt64} {host : HostId} (h : s.HasTenure fence host version)
    (hg : s.Grows s') : s'.HasTenure fence host version :=
  Has.mono h hg fun _ _ hgo hten hne => (hten hne).grows hgo

theorem Grows.refl (s : HeadStore) : s.Grows s :=
  ⟨fun o ho => ⟨o, ho, .refl o⟩, fun _ c hc => ⟨c, hc, rfl⟩⟩

/-- The object grows, and nothing is sent to create it. -/
theorem Grows.of_object {o' : Object UInt64 StoredHead} (ho : s.object = some o) (hg : o.Grows o') :
    s.Grows { s with object := some o' } := by
  refine ⟨fun p hp => ?_, fun _ c hc => ⟨c, hc, rfl⟩⟩
  cases ho.symm.trans hp
  exact ⟨o', rfl, hg⟩

theorem Inv.of_object {o' : Object UInt64 StoredHead} (h : s.Inv) (ho : s.object = some o)
    (hg : o.Grows o') (hf : Fenced o') : Inv { s with object := some o' } := by
  refine ⟨fun p hp => ?_, fun c hc => ⟨(h.creations c hc).1, fun v hv => ?_⟩⟩
  · cases hp
    exact hf
  · exact ((h.creations c hc).2 v hv).mono (.of_object ho hg)

/-- A claim starts a tenure. -/
theorem HasVersion.tenure {host : HostId} (h : s.HasVersion version head)
    (hclaim : head.IsClaim host) : s.HasTenure version host version := by
  obtain ⟨o, ho, w, hm⟩ := h
  refine ⟨o, ho, fun _ => ?_⟩
  rw [← hclaim.2]
  exact Tenured.start hm hclaim.1

/-- Every version lies in the tenure it names. -/
theorem Inv.hasTenure (h : s.Inv) (hm : s.HasVersion version head) :
    s.HasTenure head.fence head.holder version := by
  obtain ⟨o, ho, w, hm⟩ := hm
  exact ⟨o, ho, (h.fenced o ho).log _ hm⟩

theorem Grows.create (s : HeadStore) (head : HeadRecord) : s.Grows (s.create head) := by
  refine ⟨fun o ho => ⟨o, ho, .refl o⟩, fun i c hc => ⟨c, ?_, rfl⟩⟩
  rw [HeadStore.create, List.getElem?_append_left (List.getElem?_eq_some_iff.mp hc).1, hc]

theorem Inv.create (h : s.Inv) (hzero : head.fence = 0) : (s.create head).Inv := by
  refine ⟨h.fenced, fun c hc => ?_⟩
  rcases List.mem_append.mp hc with hc | hc
  · exact ⟨(h.creations c hc).1, fun v hv => ((h.creations c hc).2 v hv).mono (.create s head)⟩
  · rw [List.mem_singleton.mp hc]
    exact ⟨hzero, fun v hv => by cases hv⟩

theorem landCreation_eq_some {i : Nat} (h : s.landCreation i version = some s') :
    ∃ head, s.object = none ∧ s.creations[i]? = some (head, none) ∧
      s' = ⟨some (.create version ⟨head, .claim⟩), s.creations.set i (head, some version)⟩ := by
  rw [HeadStore.landCreation] at h
  split at h
  · rename_i head hobject hcreation
    exact ⟨head, hobject, hcreation, (Option.some.inj h).symm⟩
  · cases h

theorem Grows.landCreation {i : Nat} (h : s.landCreation i version = some s') : s.Grows s' := by
  obtain ⟨head, hobject, hcreation, rfl⟩ := landCreation_eq_some h
  refine ⟨fun o ho => ?_, fun j c hc => ?_⟩
  · cases hobject.symm.trans ho
  · rw [List.getElem?_set]
    by_cases hij : i = j
    · subst hij
      cases hcreation.symm.trans hc
      rw [if_pos rfl, if_pos (List.getElem?_eq_some_iff.mp hcreation).1]
      exact ⟨_, rfl, rfl⟩
    · rw [if_neg hij]
      exact ⟨c, hc, rfl⟩

theorem Inv.landCreation (h : s.Inv) {i : Nat} (hl : s.landCreation i version = some s') :
    s'.Inv := by
  have hg := Grows.landCreation hl
  obtain ⟨head, hobject, hcreation, rfl⟩ := landCreation_eq_some hl
  have hzero := (h.creations _ (List.mem_of_getElem? hcreation)).1
  refine ⟨fun o ho => ?_, fun c hc => ?_⟩
  · cases ho
    exact Fenced.create version hzero
  · rcases List.mem_or_eq_of_mem_set hc with hc | rfl
    · exact ⟨(h.creations c hc).1, fun v hv => ((h.creations c hc).2 v hv).mono hg⟩
    · refine ⟨hzero, fun v hv => ?_⟩
      cases hv
      exact ⟨_, rfl, .claim, List.mem_cons_self⟩

/-- A conditional write is sent that expects a version of its tenure. -/
theorem Inv.put (h : s.Inv) (ho : s.object = some o) {expected : UInt64}
    (hc : Covers o head expected) : (s.put o expected head).Inv :=
  h.of_object ho (.send _ _ _) ((h.fenced o ho).send hc)

theorem Grows.put (ho : s.object = some o) (expected : UInt64) (head : HeadRecord) :
    s.Grows (s.put o expected head) :=
  .of_object ho (.send _ _ _)

theorem hasRequest_put (s : HeadStore) (o : Object UInt64 StoredHead) (expected : UInt64)
    (head : HeadRecord) : (s.put o expected head).HasRequest o.requests.length head :=
  ⟨_, rfl, .claim, Object.sent_send ..⟩

theorem hasVersion_current (s : HeadStore) {e : UInt64 × HeadRecord} (he : e ∈ s.current) :
    s.HasVersion e.1 e.2 := by
  obtain ⟨o, ho, rfl⟩ := Option.map_eq_some_iff.mp he
  exact ⟨o, ho, o.value.writer, o.current_mem_log⟩

/-- A write that was answered created a version with the head it was sent with. -/
theorem HasRequest.hasVersion {request : Nat} (h : s.HasRequest request head)
    (hv : (s.object.bind fun o => o.created request) = some version) :
    s.HasVersion version head := by
  obtain ⟨o, ho, w, hsent⟩ := h
  rw [ho, Option.bind_some] at hv
  exact ⟨o, ho, w, hsent.mem_log hv⟩

end HeadStore

theorem ClaimCall.isClaim_of_claim {call : ClaimCall} {volume : VolumeId} {version : UInt64}
    {head claim : HeadRecord} (h : call.claim volume host version head = some claim) :
    claim.IsClaim host := by
  cases call with
  | create stash => cases h
  | restore =>
    rw [ClaimCall.claim, restoreClaim, Option.ite_none_left_eq_some, Option.map_eq_some_iff] at h
    obtain ⟨-, pointer, -, rfl⟩ := h
    exact ⟨rfl, rfl⟩
  | migrate source offeredFence localStash =>
    simp only [ClaimCall.claim, migrationClaim, Option.ite_none_left_eq_some] at h
    obtain ⟨-, -, h⟩ := h
    split at h
    · rw [← Option.some.inj h]
      exact ⟨rfl, rfl⟩
    · rw [← Option.some.inj h]
      exact ⟨rfl, rfl⟩

/-- What an attempt knows of the store. -/
def ClaimPhase.Known (host : HostId) (s : HeadStore) : ClaimPhase → Prop
  | creating i => ∃ c, s.creations[i]? = some c ∧ c.1.IsClaim host
  | checked _ found | read found => ∀ e ∈ found, s.HasVersion e.1 e.2
  | claiming _ claim request => claim.IsClaim host ∧ s.HasRequest request claim
  | rereading claim fence => claim.IsClaim host ∧ s.HasVersion fence claim
  | reread claim fence found =>
    claim.IsClaim host ∧ s.HasVersion fence claim ∧ ∀ e ∈ found, s.HasVersion e.1 e.2
  | finalizing claim fence request =>
    claim.IsClaim host ∧ s.HasVersion fence claim ∧ s.HasRequest request { claim with fence }
  | claimed _ fence version => s.HasTenure fence host version
  | checking _ | reading | ended => True

theorem ClaimPhase.Known.mono {s s' : HeadStore} (hg : s.Grows s') :
    ∀ {phase : ClaimPhase}, phase.Known host s → phase.Known host s'
  | creating i, ⟨c, hc, hclaim⟩ => by
    obtain ⟨c', hc', heq⟩ := hg.creations i c hc
    exact ⟨c', hc', heq ▸ hclaim⟩
  | checked _ _, h | read _, h => fun e he => (h e he).mono hg
  | claiming _ _ _, ⟨hclaim, hr⟩ => ⟨hclaim, hr.mono hg⟩
  | rereading _ _, ⟨hclaim, hv⟩ => ⟨hclaim, hv.mono hg⟩
  | reread _ _ _, ⟨hclaim, hv, hf⟩ => ⟨hclaim, hv.mono hg, fun e he => (hf e he).mono hg⟩
  | finalizing _ _ _, ⟨hclaim, hv, hr⟩ => ⟨hclaim, hv.mono hg, hr.mono hg⟩
  | claimed _ _ _, h => HeadStore.HasTenure.mono h hg
  | checking _, _ | reading, _ | ended, _ => trivial

namespace Attempt

variable {s s' : HeadStore} {a : Attempt} {phase : ClaimPhase} {volume : VolumeId}

/-- What an event of an attempt keeps. -/
def After (host : HostId) (s s' : HeadStore) (phase : ClaimPhase) : Prop :=
  s'.Inv ∧ s.Grows s' ∧ phase.Known host s'

theorem After.same {host : HostId} (h : s.Inv) (hp : phase.Known host s) : After host s s phase :=
  ⟨h, .refl s, hp⟩

/-- **The finalization stays in its tenure**, if what it replaces is its own claim. -/
theorem act_after (h : s.Inv) (hb : a.phase.Known a.host s) {event : ClaimEvent}
    (hown : ∀ same claim fence version head, event = .found same →
      a.phase = .reread claim fence (some (version, head)) →
      a.call.finalizes a.host claim head = true → version = fence)
    (ha : a.act volume s event = some (s', phase)) : After a.host s s' phase := by
  have hacted := acted ha
  obtain ⟨host, call, before⟩ := a
  dsimp only at hacted hb hown ⊢
  cases hacted with
  | created c v hc hv =>
    obtain ⟨c', hc', hclaim⟩ := hb
    cases hc.symm.trans hc'
    exact .same h (((h.creations c (List.mem_of_getElem? hc)).2 v hv).tenure hclaim)
  | claimed fence hfence => exact .same h ⟨hb.1, hb.2.hasVersion hfence⟩
  | finalized version hversion =>
    obtain ⟨hclaim, -, hr⟩ := hb
    have hten := h.hasTenure (hr.hasVersion hversion)
    rw [show HeadRecord.holder _ = host from hclaim.2] at hten
    exact .same h hten
  | rereadAgain => exact .same h ⟨hb.1, hb.2.1⟩
  | checked | read => exact .same h fun e he => s.hasVersion_current he
  | reread => exact .same h ⟨hb.1, hb.2, fun e he => s.hasVersion_current he⟩
  | createAgain stash hcall hphase =>
    refine ⟨h.create rfl, .create _ _, (newHead volume host stash, none), ?_, rfl, rfl⟩
    rw [HeadStore.create, List.getElem?_concat_length]
  | wait hphase => exact .same h hb
  | own stash hholder hzero => exact .same h ((hb _ rfl).tenure ⟨hzero, hholder⟩)
  | claim claim o hclaim ho =>
    have hisClaim := ClaimCall.isClaim_of_claim hclaim
    exact ⟨h.put ho fun hne => absurd hisClaim.1 hne, .put ho _ _, hisClaim, s.hasRequest_put ..⟩
  | final =>
    obtain ⟨hclaim, -, hfound⟩ := hb
    have hten := h.hasTenure (hfound _ rfl)
    rw [show HeadRecord.holder _ = host from hclaim.2] at hten
    exact .same h hten
  | @finalize claim fence version head same o hfinalizes ho =>
    obtain ⟨hclaim, hversion, -⟩ := hb
    cases hown same claim fence version head rfl rfl hfinalizes
    have hcovers : Covers o { claim with fence } fence := by
      intro hne
      obtain ⟨p, hp, hten⟩ := hversion.tenure hclaim
      cases ho.symm.trans hp
      have hten' := hten hne
      rwa [← hclaim.2] at hten'
    exact ⟨h.put ho hcovers, .put ho _ _, hclaim, hversion.mono (.put ho _ _), s.hasRequest_put ..⟩
  | check | readAgain | ended => exact .same h trivial

end Attempt

/-! ## The cluster -/

namespace Cluster

/-- A holder takes part in every event of its system but the two that are the store's. -/
theorem holder_eq_some {c c' : Cluster} {i : Nat} {event : HeadStep}
    (h : c.step (.holder i event) = some c') :
    ∃ x o s, c.holders[i]? = some x ∧ c.store.object = some o ∧
      (x.system c.volume o).step event = some s ∧ (∀ version head, event ≠ .other version head) ∧
      { c with
        store := { c.store with object := some s.object }
        holders := c.holders.set i s.holder } = c' := by
  simp only [step] at h
  split at h
  · rename_i x o hx ho
    split at h
    · cases h
    · cases h
    · rename_i hother
      obtain ⟨s, hs, rfl⟩ := Option.map_eq_some_iff.mp h
      exact ⟨x, o, s, hx, ho, hs, hother, rfl⟩
  · cases h

structure Inv (c : Cluster) : Prop where
  store : c.store.Inv
  attempts : ∀ a ∈ c.attempts, a.phase.Known a.host c.store
  holders : ∀ x ∈ c.holders, c.store.Has fun o => (x.system c.volume o).Lawful

theorem inv_start (volume : VolumeId) : (start volume).Inv where
  store := ⟨by rintro o ⟨⟩, by rintro c ⟨⟩⟩
  attempts := by rintro a ⟨⟩
  holders := by rintro x ⟨⟩

namespace Inv

variable {c c' : Cluster}

/-- A holder stays lawful while the object grows. -/
theorem lawful (h : c.Inv) {s : HeadStore} (hs : s.Inv) (hg : c.store.Grows s) {x : Holder}
    (hx : x ∈ c.holders) : s.Has fun o => (x.system c.volume o).Lawful := by
  obtain ⟨o, ho, hlaw⟩ := h.holders x hx
  obtain ⟨o', ho', hgo⟩ := hg.object o ho
  exact ⟨o', ho', hlaw.withObject hgo (hs.fenced o' ho')⟩

theorem withStore (h : c.Inv) {s : HeadStore} (hs : s.Inv) (hg : c.store.Grows s) :
    Inv { c with store := s } :=
  ⟨hs, fun a ha => (h.attempts a ha).mono hg, fun _ hx => h.lawful hs hg hx⟩

theorem addAttempt (h : c.Inv) {a : Attempt} (ha : a.phase.Known a.host c.store) :
    Inv { c with attempts := c.attempts ++ [a] } := by
  refine ⟨h.store, fun b hb => ?_, h.holders⟩
  rcases List.mem_append.mp hb with hb | hb
  · exact h.attempts b hb
  · rw [List.mem_singleton.mp hb]
    exact ha

theorem setAttempt (h : c.Inv) {a : Attempt} (i : Nat) (ha : a.phase.Known a.host c.store) :
    Inv { c with attempts := c.attempts.set i a } := by
  refine ⟨h.store, fun b hb => ?_, h.holders⟩
  rcases List.mem_or_eq_of_mem_set hb with hb | rfl
  · exact h.attempts b hb
  · exact ha

/-- A complete claim makes a lawful holder. -/
theorem addHolder (h : c.Inv) {host : HostId} {claim : HeadRecord} {fence version : UInt64}
    (hten : c.store.HasTenure fence host version) :
    Inv { c with holders := c.holders ++ [.start host claim fence version] } := by
  refine ⟨h.store, h.attempts, fun x hx => ?_⟩
  rcases List.mem_append.mp hx with hx | hx
  · exact h.holders x hx
  · rw [List.mem_singleton.mp hx]
    obtain ⟨o, ho, hten⟩ := hten
    exact ⟨o, ho, h.store.fenced o ho, ⟨version, rfl, hten⟩, fun y hy => by cases hy⟩

theorem claim (h : c.Inv) {host : HostId} {call : ClaimCall}
    (hstep : c.step (.claim host call) = some c') : c'.Inv := by
  cases call with
  | create stash =>
    rw [step, Option.ite_none_left_eq_some] at hstep
    cases hstep.2
    refine (h.withStore (h.store.create rfl) (.create _ _)).addAttempt
      ⟨(newHead c.volume host stash, none), ?_, rfl, rfl⟩
    rw [HeadStore.create, List.getElem?_concat_length]
  | restore =>
    rw [step, Option.ite_none_left_eq_some] at hstep
    cases hstep.2
    exact h.addAttempt trivial
  | migrate =>
    cases hstep
    exact h.addAttempt trivial

theorem attempt (h : c.Inv) {i : Nat} {event : ClaimEvent}
    (hown : c.FinalizesOwnClaim (.attempt i event))
    (hstep : c.step (.attempt i event) = some c') : c'.Inv := by
  rw [step, Option.bind_eq_some_iff] at hstep
  obtain ⟨a, ha, hstep⟩ := hstep
  obtain ⟨⟨s, phase⟩, hact, rfl⟩ := Option.map_eq_some_iff.mp hstep
  have hb := h.attempts a (List.mem_of_getElem? ha)
  obtain ⟨hs, hg, hp⟩ := Attempt.act_after h.store hb (fun same claim fence version head he hph => by
    obtain ⟨host, call, phase⟩ := a
    cases he
    cases hph
    simpa only [FinalizesOwnClaim, ha] using hown) hact
  exact (h.withStore hs hg).setAttempt (a := ⟨a.host, a.call, phase⟩) i hp

theorem attach (h : c.Inv) {i : Nat} (hstep : c.step (.attach i) = some c') : c'.Inv := by
  simp only [step] at hstep
  split at hstep
  · rename_i host call claim fence version ha
    rw [Option.ite_none_left_eq_some] at hstep
    cases hstep.2
    exact (h.setAttempt (a := ⟨host, call, .ended⟩) i trivial).addHolder
      (h.attempts _ (List.mem_of_getElem? ha))
  · cases hstep

theorem land (h : c.Inv) {request : Nat} {version : UInt64}
    (hstep : c.step (.land request version) = some c') : c'.Inv := by
  rw [step, Option.bind_eq_some_iff] at hstep
  obtain ⟨o, ho, hstep⟩ := hstep
  obtain ⟨o', hland, rfl⟩ := Option.map_eq_some_iff.mp hstep
  have hg := Object.Grows.land hland
  exact h.withStore (h.store.of_object ho hg ((h.store.fenced o ho).land hland)) (.of_object ho hg)

theorem holder (h : c.Inv) {i : Nat} {event : HeadStep}
    (hstep : c.step (.holder i event) = some c') : c'.Inv := by
  obtain ⟨x, o, s, hx, ho, hs, hother, rfl⟩ := holder_eq_some hstep
  obtain ⟨o', ho', hlaw⟩ := h.holders x (List.mem_of_getElem? hx)
  cases ho.symm.trans ho'
  obtain ⟨hlaw', hg, hhost⟩ := hlaw.event (HeadSystem.event_of_step hs) hother
  have hinv := h.withStore (h.store.of_object ho hg hlaw'.fenced) (.of_object ho hg)
  refine ⟨hinv.store, hinv.attempts, fun y hy => ?_⟩
  rcases List.mem_or_eq_of_mem_set hy with hy | rfl
  · exact hinv.holders y hy
  · exact ⟨s.object, rfl, hlaw'.fenced, hlaw'.version, hlaw'.phases⟩

/-- **Every event of the cluster preserves the invariant.** -/
theorem step (h : c.Inv) {a : ClusterStep} (hown : c.FinalizesOwnClaim a)
    (hstep : c.step a = some c') : c'.Inv := by
  cases a with
  | claim host call => exact h.claim hstep
  | attempt i event => exact h.attempt hown hstep
  | attach i => exact h.attach hstep
  | landCreation i version =>
    obtain ⟨s, hs, rfl⟩ := Option.map_eq_some_iff.mp hstep
    exact h.withStore (h.store.landCreation hs) (.landCreation hs)
  | land request version => exact h.land hstep
  | holder i event => exact h.holder hstep
  | detach i =>
    cases hstep
    exact ⟨h.store, h.attempts, fun x hx => h.holders x (List.mem_of_mem_eraseIdx hx)⟩
  | crash host =>
    cases hstep
    exact ⟨h.store, fun a ha => h.attempts a (List.mem_of_mem_filter ha),
      fun x hx => h.holders x (List.mem_of_mem_filter hx)⟩

end Inv

end Cluster

/-- **Single-writer fencing.**  In a run where every attempt that finds its provisional claim again
finds it at the version it wrote it at, no write is made under a claim after another host's claim
has taken effect. -/
theorem single_writer (volume : VolumeId) {c : Cluster} {steps : List ClusterStep}
    (hok : Run.Along Cluster.step Cluster.FinalizesOwnClaim (.start volume) steps)
    (hrun : Run.run Cluster.step (.start volume) steps = some c) : SingleWriter c.log := by
  have hinv := Run.run_invariant (fun _ _ _ h => h.step) (Cluster.inv_start volume) hok hrun
  rw [Cluster.log]
  split
  · intro version stored hm
    cases hm
  · rename_i o ho
    exact (hinv.store.fenced o ho).singleWriter

/-! ## Two restores of one host

Host 1 creates volume 7 and publishes a manifest.  Hosts 1 and 2 keep each other's passives. -/

namespace TwoRestores

def ownStash : StashAssignment := initialStash 2 0

def peerStash : StashAssignment := initialStash 1 0

/-- A claim is written over the head at hand, as request `request` and version `fence`, and
finalized as the next request and version. -/
def claimSteps (attempt request : Nat) (fence version : UInt64) : List ClusterStep :=
  [.attempt attempt .serve, .attempt attempt (.found true), .land request fence,
    .attempt attempt .ok, .attempt attempt .serve, .attempt attempt (.found true),
    .land (request + 1) version, .attempt attempt .ok, .attach attempt]

/-- The head before host 1 has lost its volume state. -/
def published : List ClusterStep :=
  [.claim 1 (.create (some ownStash)), .landCreation 0 1, .attempt 0 .ok, .attach 0,
    .holder 0 .snapshot, .holder 0 (.publish firstManifest), .land 0 2, .holder 0 (.ok 0), .crash 1]

/-- One restore, and a migration to host 2. -/
def orderly : List ClusterStep :=
  published ++ .claim 1 .restore :: claimSteps 0 1 3 4 ++
    .claim 2 (.migrate 1 3 peerStash) :: claimSteps 1 3 5 6

theorem single_writer_orderly : ∃ c, Run.run Cluster.step (.start 7) orderly = some c ∧
    c.log.map (fun e => (e.1, e.2.head.holder, e.2.head.fence)) =
      [(6, 2, 5), (5, 2, 0), (4, 1, 3), (3, 1, 0), (2, 1, 1), (1, 1, 0)] ∧
    SingleWriter c.log := by
  have hok : Run.Along Cluster.step Cluster.FinalizesOwnClaim (.start 7) orderly := by
    -- only the two reads before a finalization have anything to show
    repeat refine Run.Along.cons (by first | exact trivial | exact fun _ => rfl) rfl ?_
    trivial
  exact ⟨_, rfl, rfl, single_writer 7 hok rfl⟩

/-- Two restores overlap: the first has claimed version 3 and is slow to finalize, the second
claims version 4 and is complete.  The volume goes to host 2 and comes back, and the claim with
which it comes back is written like the first restore's. -/
def overlapping : List ClusterStep :=
  published ++ [.claim 1 .restore, .claim 1 .restore, .attempt 0 .serve, .attempt 0 (.found true),
    .land 1 3, .attempt 0 .ok] ++ claimSteps 1 2 4 5 ++
    .claim 2 (.migrate 1 4 peerStash) :: claimSteps 2 4 6 7 ++
    [.detach 0, .claim 1 (.migrate 2 6 ownStash), .attempt 3 .serve, .attempt 3 (.found true),
      .land 6 8, .attempt 0 .serve, .attempt 0 (.found true), .land 7 9]

theorem exists_run_overlapping : ∃ c, Run.run Cluster.step (.start 7) overlapping = some c ∧
    (9, ⟨⟨7, 1, 3, some firstManifest, some ownStash, []⟩, .claim⟩) ∈ c.log ∧
    (6, ⟨⟨7, 2, 0, some firstManifest, some peerStash, []⟩, .claim⟩) ∈ c.log := by
  refine ⟨_, rfl, ?_, ?_⟩
  · decide
  · decide

end TwoRestores

/-- **A slow attempt can write after another host's claim.** -/
theorem not_single_writer : ¬ ∀ (volume : VolumeId) (c : Cluster) (steps : List ClusterStep),
    Run.run Cluster.step (.start volume) steps = some c → SingleWriter c.log := by
  intro h
  obtain ⟨c, hrun, hlate, hclaim⟩ := TwoRestores.exists_run_overlapping
  have hholder := (h 7 c _ hrun _ _ hlate (by decide)).2 _ _ hclaim rfl (by decide) (by decide)
  exact absurd hholder (by decide)

end Blockd
