import Blockd.Blx.Finish
import Blockd.Blx.Read
import Blockd.Engine.Fork
import Blockd.Engine.SingleWriter

/-!
# Forks are atomic, if the head is first

A fork presents the base's content when it is ready, in every run in which a host that finds the
fork's record on its disk has published the fork before (`fork_presents_base`).  The invariant says
that every head names a manifest of the fork or none, that a head that names one is followed by such
heads only, and what the volume state is at each point of the call and of a reconciliation.

A host that stops between the record and the head recovers a volume without a base: the record is
usable, the head is still the host's own claim, so the reconciliation finalizes it and attaches the
volume to an archive without objects.  All of the base reads as zeros (`not_fork_presents_base`).
-/

set_option autoImplicit false

open Codec
open Std (ExtTreeMap)

namespace Blockd

open Cas (Object)

section

variable [Platform]

/-! ## The archive of a fork -/

section

variable {g : ForkSetting} {manifests : ExtTreeMap (UInt64 ×ₗ UInt64) Bytes}

/-- The pointer is to a manifest of the fork that is in the store. -/
def NamesFork (g : ForkSetting) (manifests : ExtTreeMap (UInt64 ×ₗ UInt64) Bytes)
    (p : ManifestPtr) : Prop :=
  ∃ fence bytes, (g.base.childManifest g.volume fence).encode = some bytes ∧
    p = (g.base.childManifest g.volume fence).pointer bytes ∧
    manifests[(toLex (fence, 0) : UInt64 ×ₗ UInt64)]? = some bytes

/-- **A head that names a manifest of the fork leads to the base's objects.** -/
theorem loadArchiveClosure_of_namesFork {s : ForkState} {p : ManifestPtr}
    (h : NamesFork g s.manifests p) :
    loadArchiveClosure (s.metadata g) g.volume (some p) =
      some (g.base.manifest.objects, some g.base.root.asBaseRef) := by
  obtain ⟨fence, bytes, hbytes, rfl, hstored⟩ := h
  have hadded : ∀ f ∈ (g.base.childManifest g.volume fence).added, f.WellFormed := by
    simp [ForkBase.childManifest]
  have hload : loadArchiveMetadata (s.metadata g) g.volume
      ((g.base.childManifest g.volume fence).pointer bytes) =
        some ⟨g.base.childManifest g.volume fence, none, []⟩ :=
    loadArchiveMetadata_of_encode hstored hbytes g.base.pages hadded rfl
      (ForkBase.currentFiles_childManifest g.base g.volume fence)
  have hbase : (s.metadata g).bases g.base.root.asBaseRef = some g.base.manifest := if_pos rfl
  rw [loadArchiveClosure, hload, some_bind]
  simp only [ForkBase.childManifest, hbase, Option.map_some, Option.bind_some, List.append_nil,
    g.base.valid, ensure_true, Option.bind_eq_bind, Option.pure_def]

/-! ## Heads -/

/-- The head has a stash, and names a manifest of the fork or none. -/
def HeadOk (g : ForkSetting) (manifests : ExtTreeMap (UInt64 ×ₗ UInt64) Bytes)
    (head : HeadRecord) : Prop :=
  head.stash.isSome = true ∧ ∀ p ∈ head.manifest, NamesFork g manifests p

/-- A head that follows one with a manifest has a manifest. -/
def KeepsManifest (old new : StoredHead) : Prop :=
  old.head.manifest.isSome = true → new.head.manifest.isSome = true

structure HeadsOk (g : ForkSetting) (manifests : ExtTreeMap (UInt64 ×ₗ UInt64) Bytes)
    (s : HeadStore) : Prop where
  all : ∀ o, s.object = some o → o.All fun st => HeadOk g manifests st.head
  tracks : ∀ o, s.object = some o → o.Tracks KeepsManifest
  creations : ∀ c ∈ s.creations, HeadOk g manifests c.1 ∧ ∀ v ∈ c.2, s.HasVersion v c.1

/-- The head in the store names a manifest. -/
def HeadStore.Named (s : HeadStore) : Prop :=
  ∃ e, s.current = some e ∧ e.2.manifest.isSome = true

theorem HeadOk.mono {manifests' : ExtTreeMap (UInt64 ×ₗ UInt64) Bytes} {head : HeadRecord}
    (h : HeadOk g manifests head)
    (hm : ∀ (name : UInt64 ×ₗ UInt64) bytes, manifests[name]? = some bytes →
      manifests'[name]? = some bytes) : HeadOk g manifests' head := by
  refine ⟨h.1, fun p hp => ?_⟩
  obtain ⟨fence, bytes, hbytes, hpointer, hstored⟩ := h.2 p hp
  exact ⟨fence, bytes, hbytes, hpointer, hm _ _ hstored⟩

theorem headOk_newHead (stash : StashAssignment) :
    HeadOk g manifests (newHead g.volume g.host (some stash)) := ⟨rfl, nofun⟩

namespace HeadsOk

variable {s s' : HeadStore}

theorem mono {manifests' : ExtTreeMap (UInt64 ×ₗ UInt64) Bytes} (h : HeadsOk g manifests s)
    (hm : ∀ (name : UInt64 ×ₗ UInt64) bytes, manifests[name]? = some bytes →
      manifests'[name]? = some bytes) :
    HeadsOk g manifests' s := by
  refine ⟨fun o ho => ⟨?_, ?_⟩, h.tracks, fun c hc => ?_⟩
  · exact fun e he => ((h.all o ho).log e he).mono hm
  · exact fun r hr => ((h.all o ho).requests r hr).mono hm
  · exact ⟨(h.creations c hc).1.mono hm, (h.creations c hc).2⟩

variable {version : UInt64}

variable {head : HeadRecord} {o : Object UInt64 StoredHead} {i : Nat}

theorem headOk (h : HeadsOk g manifests s) (hv : s.HasVersion version head) :
    HeadOk g manifests head := by
  obtain ⟨o, ho, w, hm⟩ := hv
  exact (h.all o ho).log _ hm

theorem create (h : HeadsOk g manifests s) (hhead : HeadOk g manifests head) :
    HeadsOk g manifests (s.create head) := by
  refine ⟨h.all, h.tracks, fun c hc => ?_⟩
  rcases List.mem_append.mp hc with hc | hc
  · exact ⟨(h.creations c hc).1, fun v hv => ((h.creations c hc).2 v hv).mono (.create s head)⟩
  · rw [List.mem_singleton.mp hc]
    exact ⟨hhead, nofun⟩

/-- A write is sent that expects a version and keeps the manifest it names. -/
theorem put (h : HeadsOk g manifests s) (ho : s.object = some o) {expected : UInt64}
    {old : HeadRecord} (hold : s.HasVersion expected old)
    (hkeep : old.manifest.isSome = true → head.manifest.isSome = true)
    (hhead : HeadOk g manifests head) : HeadsOk g manifests (s.put o expected head) := by
  obtain ⟨o', ho', w, hm⟩ := hold
  cases ho.symm.trans ho'
  refine ⟨fun p hp => ?_, fun p hp => ?_, fun c hc => ⟨(h.creations c hc).1, fun v hv => ?_⟩⟩
  · cases hp
    exact (h.all o ho).send expected hhead
  · cases hp
    exact (h.tracks o ho).send hm hkeep
  · exact ((h.creations c hc).2 v hv).mono (.put ho expected head)

theorem landCreation (h : HeadsOk g manifests s) (hl : s.landCreation i version = some s') :
    HeadsOk g manifests s' := by
  have hg := HeadStore.Grows.landCreation hl
  obtain ⟨head, hobject, hcreation, rfl⟩ := HeadStore.landCreation_eq_some hl
  have hhead := (h.creations _ (List.mem_of_getElem? hcreation)).1
  refine ⟨fun o ho => ?_, fun o ho => ?_, fun c hc => ?_⟩
  · cases ho
    exact .create version hhead
  · cases ho
    exact .create version _
  · rcases List.mem_or_eq_of_mem_set hc with hc | rfl
    · exact ⟨(h.creations c hc).1, fun v hv => ((h.creations c hc).2 v hv).mono hg⟩
    · refine ⟨hhead, fun v hv => ?_⟩
      cases hv
      exact ⟨_, rfl, .claim, List.mem_cons_self⟩

theorem land (h : HeadsOk g manifests s) {o' : Object UInt64 StoredHead} (ho : s.object = some o)
    (hl : o.land i version = some o') : HeadsOk g manifests { s with object := some o' } := by
  refine ⟨fun p hp => ?_, fun p hp => ?_, fun c hc => ⟨(h.creations c hc).1, fun v hv => ?_⟩⟩
  · cases hp
    exact (h.all o ho).land hl
  · cases hp
    exact (h.tracks o ho).land hl
  · exact ((h.creations c hc).2 v hv).mono (.of_object ho (.land hl))

/-- **A manifest stays named.** -/
theorem named_land (h : HeadsOk g manifests s) {o' : Object UInt64 StoredHead}
    (ho : s.object = some o) (hl : o.land i version = some o') (hn : s.Named) :
    HeadStore.Named { s with object := some o' } := by
  obtain ⟨e, he, hsome⟩ := hn
  rw [HeadStore.current, ho, Option.map_some, Option.some.injEq] at he
  subst he
  obtain ⟨r, hr, hexp, hlog, -⟩ := Object.land_eq_some hl
  obtain ⟨old, hold, hkeep⟩ := (h.tracks o ho) r (List.mem_of_getElem? hr)
  rw [hexp] at hold
  rw [o.value_unique hold o.current_mem_log] at hkeep
  have hnew : o'.value = r.value := congrArg Prod.snd (List.cons.inj hlog).1
  exact ⟨(o'.version, o'.value.head), rfl, by rw [hnew]; exact hkeep hsome⟩

end HeadsOk

variable {s : HeadStore}

omit [Platform] in
/-- A write that was answered created a version. -/
theorem HeadStore.hasVersion_created {request : Nat} {version : UInt64}
    (h : (s.object.bind fun o => o.created request) = some version) :
    ∃ head, s.HasVersion version head := by
  obtain ⟨o, ho, h⟩ := bind_eq_some.mp h
  obtain ⟨r, hr, hv⟩ := bind_eq_some.mp h
  exact ⟨r.value.head, o, ho, r.value.writer, o.landed_mem r (List.mem_of_getElem? hr) version hv⟩

variable {s' : HeadStore} {v : ServedVolume}

omit [Platform] in
theorem HeadStore.Named.not_landCreation {i : Nat} {version : UInt64} (hn : s.Named) :
    s.landCreation i version ≠ some s' := by
  intro hl
  obtain ⟨head, hobject, -, -⟩ := HeadStore.landCreation_eq_some hl
  obtain ⟨e, he, -⟩ := hn
  rw [HeadStore.current, hobject] at he
  cases he

/-! ## The claim of a fork -/

/-- Where the claim of a new head can be, and what it then knows of the store. -/
def ClaimPhase.Seen (s : HeadStore) : ClaimPhase → Prop
  | creating _ | checking _ | ended => True
  | checked _ found => ∀ e ∈ found, s.HasVersion e.1 e.2
  | claimed _ fence _ => ∃ head, s.HasVersion fence head
  | reading | read _ | claiming .. | rereading .. | reread .. | finalizing .. => False

omit [Platform] in
theorem ClaimPhase.Seen.mono (hg : s.Grows s') {phase : ClaimPhase} (h : phase.Seen s) :
    phase.Seen s' := by
  cases phase with
  | creating | checking | ended => trivial
  | checked conflict found => exact fun e he => (h e he).mono hg
  | claimed claim fence version =>
    obtain ⟨head, hv⟩ := h
    exact ⟨head, hv.mono hg⟩
  | reading | read | claiming | rereading | reread | finalizing => exact h.elim

/-- **A claim creates the head or finds it.** -/
theorem Attempt.act_create {volume : VolumeId} {host : HostId} {stash : StashAssignment}
    {phase phase' : ClaimPhase} {event : ClaimEvent} (h : HeadsOk g manifests s) (hb : phase.Seen s)
    (ha : act volume s ⟨host, .create (some stash), phase⟩ event = some (s', phase')) :
    (s' = s ∨ s' = s.create (newHead volume host (some stash))) ∧ phase'.Seen s' := by
  cases acted ha with
  | created c v hc hv => exact ⟨.inl rfl, c.1, (h.creations c (List.mem_of_getElem? hc)).2 v hv⟩
  | check | ended => exact ⟨.inl rfl, trivial⟩
  | checked => exact ⟨.inl rfl, fun e he => s.hasVersion_current he⟩
  | createAgain stash hcall hphase =>
    cases hcall
    exact ⟨.inr rfl, trivial⟩
  | own => exact ⟨.inl rfl, _, hb _ rfl⟩
  | wait hphase => rcases hphase with rfl | ⟨claim, fence, rfl⟩ <;> exact hb.elim
  | claimed | finalized | readAgain | rereadAgain | read | reread | claim | final | finalize =>
    exact hb.elim

/-! ## Volume states over the base -/

/-- The volume has nothing of its own, and the base's shape. -/
structure OverBase (g : ForkSetting) (v : ServedVolume) : Prop where
  pageLocs : v.pageLocs = ∅
  resolved : v.archiveResolvedPages = ∅
  footers : v.archiveFooters = ∅
  config : v.config = g.base.manifest.config
  usable : v.archivedMemoryUsable = (g.base.verdict != .coldBoot)

/-- A volume state that `create_fork` has made. -/
structure Forked (g : ForkSetting) (v : ServedVolume) : Prop extends OverBase g v where
  objects : v.archiveObjects = g.base.manifest.objects
  ready : v.ready = false

/-- A volume state that recovery has made. -/
structure Recovered (g : ForkSetting) (v : ServedVolume) : Prop extends OverBase g v where
  recovery : v.recovery = some g.base.verdict
  ready : v.ready = false
  outbound : v.outbound = none

theorem forked_claimed (fence : UInt64) (stash : StashAssignment) :
    Forked g (g.base.claimed (.fresh g.base.manifest.config) fence stash) :=
  ⟨⟨rfl, rfl, rfl, rfl, rfl⟩, rfl, rfl⟩

theorem Forked.published (h : Forked g v) (fence version : UInt64) (pointer : ManifestPtr) :
    Forked g (g.base.published v fence version pointer) :=
  ⟨⟨h.pageLocs, h.resolved, h.footers, h.config, h.usable⟩, h.objects, h.ready⟩

/-! ## What recovery finds -/

/-- The disk has no BLX files, and no records but first records of the fork. -/
structure DiskOk (g : ForkSetting) (disk : Disk) : Prop where
  blx : disk.blx = ∅
  journals : ∀ (name : UInt64 ×ₗ JournalSeq) bytes, disk.journals[name]? = some bytes →
    ∃ fence, (g.base.record fence).encode g.volume = some bytes

omit [Platform] in
theorem Found.greatest_le {numbers : List UInt64} {bound : UInt64}
    (h : ∀ n ∈ numbers, n ≤ bound) : Found.greatest numbers ≤ bound := by
  have hfold : ∀ start : UInt64, start ≤ bound → numbers.foldl max start ≤ bound := by
    induction numbers with
    | nil => exact fun start hstart => hstart
    | cons n numbers ih =>
      intro start hstart
      exact ih (fun m hm => h m (List.mem_cons_of_mem _ hm)) _
        (max_le hstart (h n List.mem_cons_self))
  exact hfold 0 (UInt64.zero_le)

/-- A fork of a base with machine state is resumed, of another one cold-booted. -/
theorem recoveryVerdict_record {b : ForkBase} {fence watermark : UInt64}
    (hconfig : JournalRecord.configOk b.manifest.config (b.record fence).kind = true)
    (hwatermark : watermark ≤ b.manifest.captureSeq) :
    recoveryVerdict (b.record fence) watermark = b.verdict := by
  cases hkind : b.manifest.recoveryKind with
  | diskOnly => simp [recoveryVerdict, ForkBase.record, ForkBase.verdict, manifestVerdict, hkind]
  | whole =>
    have hmemory : b.manifest.config.isMemory = true := by
      simp [JournalRecord.configOk, ForkBase.record, manifestVerdict, hkind,
        RecordKind.isCheckpoint] at hconfig
      exact hconfig.2
    simp [recoveryVerdict, ForkBase.record, ForkBase.verdict, manifestVerdict, hkind, hmemory,
      hwatermark]

theorem journals_ne_of_recoverLocal {disk : Disk} {volume : VolumeId}
    (h : recoverLocal disk volume = some v) : disk.journals ≠ ∅ := by
  intro hempty
  simp only [recoverLocal, Disk.collect, Found.recover, Found.chosen, hempty, Maps.toList_empty,
    List.filterMap_nil, Option.bind_eq_bind, Option.bind_eq_some_iff, pure_eq_some] at h
  obtain ⟨found, ⟨maxSeq, -, maxObjectId, -, rfl⟩, chosen, hchosen, -⟩ := h
  cases hchosen

/-- **Recovery of a fork finds a volume without anything of its own.** -/
theorem recovered_of_recoverLocal {disk : Disk} (hd : DiskOk g disk)
    (h : recoverLocal disk g.volume = some v) : Recovered g v := by
  simp only [recoverLocal, Option.bind_eq_some_iff] at h
  obtain ⟨found, hfound, hv⟩ := h
  simp only [Disk.collect, bind_eq_some, pure_eq_some] at hfound
  obtain ⟨maxSeq, -, maxObjectId, -, hfound⟩ := hfound
  have hrecords : ∀ r ∈ found.records, ∃ fence, r = g.base.record fence ∧
      JournalRecord.configOk g.base.manifest.config (g.base.record fence).kind = true := by
    intro r hr
    rw [← hfound] at hr
    obtain ⟨⟨name, bytes⟩, hmem, hread⟩ := List.mem_filterMap.mp hr
    obtain ⟨fence, hbytes⟩ :=
      hd.journals name bytes (ExtTreeMap.mem_toList_iff_getElem?_eq_some.mp hmem)
    rw [Disk.readRecord, Option.filter_eq_some_iff,
      JournalRecord.decode_encode hbytes (by simp [ForkBase.record])] at hread
    have hvalid : validateJournalObjectRefs (g.base.record fence).files = true := rfl
    rw [if_pos hvalid] at hread
    exact ⟨fence, (Option.some.inj hread.1).symm, (JournalRecord.encode_eq_some.mp hbytes).1⟩
  simp only [Found.recover, bind_eq_some, ensure_eq_some, exists_const, pure_eq_some] at hv
  obtain ⟨chosen, hchosen, -, rfl⟩ := hv
  obtain ⟨hmem, -⟩ := Newest.pick_eq_some hchosen
  obtain ⟨fence, rfl, hconfig⟩ := hrecords chosen (List.mem_of_mem_filter hmem)
  have hsync : ∀ r ∈ found.records, r.syncCoveredThrough ≤ g.base.manifest.captureSeq := by
    intro r hr
    obtain ⟨fence, rfl, -⟩ := hrecords r hr
    exact g.base.sync_le
  have hwatermark : max (found.usableWatermark g.volume) found.durabilityWatermark ≤
      g.base.manifest.captureSeq := by
    refine max_le (Found.greatest_le ?_) (Found.greatest_le ?_)
    · intro n hn
      obtain ⟨r, hr, rfl⟩ := List.mem_map.mp hn
      exact hsync r (List.mem_of_mem_filter hr)
    · intro n hn
      obtain ⟨r, hr, rfl⟩ := List.mem_map.mp hn
      exact hsync r (List.mem_of_mem_filter hr)
  have hverdict := recoveryVerdict_record hconfig hwatermark
  have hlocs : found.materializeFiles g.volume g.base.manifest.config [] = ∅ := rfl
  refine ⟨⟨?_, rfl, rfl, rfl, ?_⟩, ?_, rfl, rfl⟩
  · simp [Found.recovered, ForkBase.record, hlocs]
  · simp only [Found.recovered, hverdict]
    rfl
  · simp only [Found.recovered, hverdict]

end

/-! ## The invariant -/

namespace ForkState

variable {g : ForkSetting} {s t : ForkState}

/-- There is a volume state, made by `create_fork`, and the head has had the version it expects. -/
def Held (g : ForkSetting) (s : ForkState) : Prop :=
  ∃ v, s.served = some v ∧ Forked g v ∧ ∀ version ∈ v.headVersion,
    ∃ head, s.store.HasVersion version head

/-- What is known at each point of the call. -/
def ForkOk (g : ForkSetting) (s : ForkState) : ForkPhase → Prop
  | .claiming _ phase =>
    phase.Seen s.store ∧ s.served = some (.fresh g.base.manifest.config)
  | .recording .. | .uploading .. | .protecting => s.Held g
  | .publishing head .. | .checking head .. =>
    s.Held g ∧ HeadOk g s.manifests head ∧ head.manifest.isSome = true

/-- What is known at each point of a reconciliation.  The head is there and has its stash, so neither
is made up. -/
def ReconcileOk (s : ForkState) : ReconcilePhase → Prop
  | .reading | .finalizing _ => True
  | .read found => ∃ version head, found = some (version, head) ∧
      s.store.HasVersion version head ∧ head.manifest.isSome = true
  | .upgrading .. | .creating .. => False

/-- The volume is served from the base's objects. -/
structure OnBase (g : ForkSetting) (v : ServedVolume) : Prop extends OverBase g v where
  objects : v.archiveObjects = g.base.manifest.objects

structure Inv (g : ForkSetting) (s : ForkState) : Prop where
  heads : HeadsOk g s.manifests s.store
  disk : DiskOk g s.disk
  fork : ∀ phase, s.fork = some phase → s.reconciling = none ∧ s.ForkOk g phase
  reconciling : ∀ phase, s.reconciling = some phase → s.store.Named ∧ s.ReconcileOk phase ∧
    ∃ v, s.served = some v ∧ Recovered g v
  ready : ∀ v, s.served = some v → v.ready = true →
    OnBase g v ∧ s.reported = some g.base.verdict

theorem inv_start : start.Inv g where
  heads := ⟨by simp [start], by simp [start], by simp [start]⟩
  disk := ⟨rfl, by simp [start]⟩
  fork := by simp [start]
  reconciling := by simp [start]
  ready := by simp [start]

namespace Inv

/-- The store has more in it, and the named manifest is still named. -/
theorem withStore (h : s.Inv g) {store : HeadStore} (hg : s.store.Grows store)
    (hh : HeadsOk g s.manifests store) (hn : s.store.Named → store.Named) :
    Inv g { s with store } where
  heads := hh
  disk := h.disk
  fork := by
    intro phase hp
    obtain ⟨hr, hok⟩ := h.fork phase hp
    refine ⟨hr, ?_⟩
    have hheld : s.Held g → Held g { s with store } := by
      rintro ⟨v, hv, hf, hversion⟩
      refine ⟨v, hv, hf, fun version hm => ?_⟩
      obtain ⟨head, hhead⟩ := hversion version hm
      exact ⟨head, hhead.mono hg⟩
    cases phase with
    | claiming stash phase => exact ⟨hok.1.mono hg, hok.2⟩
    | recording | uploading | protecting => exact hheld hok
    | publishing | checking => exact ⟨hheld hok.1, hok.2⟩
  reconciling := by
    intro phase hp
    obtain ⟨hnamed, hok, hv⟩ := h.reconciling phase hp
    refine ⟨hn hnamed, ?_, hv⟩
    cases phase with
    | reading | finalizing => trivial
    | read found =>
      obtain ⟨version, head, rfl, hversion, hsome⟩ := hok
      exact ⟨version, head, rfl, hversion.mono hg, hsome⟩
    | upgrading | creating => exact hok
  ready := h.ready

/-- The call fails. -/
theorem abandon (h : s.Inv g) (hr : s.reconciling = none) : s.abandon.Inv g where
  heads := h.heads
  disk := h.disk
  fork := by simp [ForkState.abandon]
  reconciling := by simp [ForkState.abandon, hr]
  ready := by simp [ForkState.abandon]

/-- The volume is given up. -/
theorem fence (h : s.Inv g) (hf : s.fork = none) : s.fence.Inv g where
  heads := h.heads
  disk := h.disk
  fork := by simp [ForkState.fence, hf]
  reconciling := by simp [ForkState.fence]
  ready := by simp [ForkState.fence]

/-- The call goes on with a volume state that is not ready. -/
theorem withFork (h : s.Inv g) (v : ServedVolume) (phase : ForkPhase)
    (hr : s.reconciling = none) (hready : v.ready = false)
    (hok : ForkOk g { s with served := some v, fork := some phase } phase) :
    Inv g { s with served := some v, fork := some phase } where
  heads := h.heads
  disk := h.disk
  fork := by
    intro phase' hp
    cases hp
    exact ⟨hr, hok⟩
  reconciling := by simp [hr]
  ready := by
    intro v' hv hready'
    cases hv
    rw [hready] at hready'
    cases hready'

theorem withDisk (h : s.Inv g) {disk : Disk} (hd : DiskOk g disk) : Inv g { s with disk } where
  heads := h.heads
  disk := hd
  fork := fun phase hp => by
    obtain ⟨hr, hok⟩ := h.fork phase hp
    refine ⟨hr, ?_⟩
    cases phase <;> exact hok
  reconciling := fun phase hp => by
    obtain ⟨hn, hok, hv⟩ := h.reconciling phase hp
    refine ⟨hn, ?_, hv⟩
    cases phase <;> exact hok
  ready := h.ready

/-- The manifests in the store stay. -/
theorem withManifests (h : s.Inv g) {manifests : ExtTreeMap (UInt64 ×ₗ UInt64) Bytes}
    (hm : ∀ (name : UInt64 ×ₗ UInt64) bytes, s.manifests[name]? = some bytes →
      manifests[name]? = some bytes) : Inv g { s with manifests } where
  heads := h.heads.mono hm
  disk := h.disk
  fork := fun phase hp => by
    obtain ⟨hr, hok⟩ := h.fork phase hp
    refine ⟨hr, ?_⟩
    cases phase with
    | publishing | checking => exact ⟨hok.1, hok.2.1.mono hm, hok.2.2⟩
    | claiming | recording | uploading | protecting => exact hok
  reconciling := fun phase hp => by
    obtain ⟨hn, hok, hv⟩ := h.reconciling phase hp
    refine ⟨hn, ?_, hv⟩
    cases phase <;> exact hok
  ready := h.ready

theorem begin (h : s.Inv g) {stash : StashAssignment}
    (ht : s.step g (.begin stash) = some t) : t.Inv g := by
  rw [step] at ht
  split at ht
  · cases ht
  · rename_i hserved
    cases ht
    have hr : s.reconciling = none := by
      cases hr : s.reconciling with
      | none => rfl
      | some phase =>
        obtain ⟨-, -, v, hv, -⟩ := h.reconciling phase hr
        simp [hv] at hserved
    have hstore := h.withStore (.create s.store (newHead g.volume g.host (some stash)))
      (h.heads.create (headOk_newHead stash)) id
    exact hstore.withFork (.fresh g.base.manifest.config) _ hr rfl ⟨trivial, rfl⟩

theorem claim (h : s.Inv g) {event : ClaimEvent} (ht : s.claim g event = some t) : t.Inv g := by
  rw [ForkState.claim] at ht
  split at ht
  · rename_i stash phase hfork
    obtain ⟨hr, hseen, hserved⟩ := h.fork _ hfork
    obtain ⟨⟨store, next⟩, hact, rfl⟩ := Option.map_eq_some_iff.mp ht
    obtain ⟨hstore, hnext⟩ := Attempt.act_create h.heads hseen hact
    have hinv : Inv g { s with store } := by
      rcases hstore with rfl | rfl
      · exact h
      · exact h.withStore (.create s.store _) (h.heads.create (headOk_newHead stash)) id
    cases next with
    | claimed claim fence version =>
      rw [hserved]
      refine hinv.withFork _ (.recording stash fence) hr rfl
        ⟨_, rfl, forked_claimed fence stash, fun v hv => ?_⟩
      cases hv
      exact hnext
    | ended => exact hinv.abandon hr
    | creating | checking | checked =>
      have hnew := hinv.withFork (.fresh g.base.manifest.config)
        (.claiming stash _) hr rfl ⟨hnext, rfl⟩
      rw [← hserved] at hnew
      exact hnew
    | reading | read | claiming | rereading | reread | finalizing => exact hnext.elim
  · cases ht

theorem record (h : s.Inv g) {written ok : Bool} (ht : s.record g written ok = some t) :
    t.Inv g := by
  rw [ForkState.record] at ht
  split at ht
  · rename_i stash fence hfork
    obtain ⟨hr, hheld⟩ := h.fork _ hfork
    simp only [bind_eq_some, ensure_eq_some, exists_const] at ht
    obtain ⟨-, bytes, hbytes, ht⟩ := ht
    have hdisk : DiskOk g (if written = true then
        { s.disk with journals := s.disk.journals.insert (toLex (fence, 0)) bytes }
        else s.disk) := by
      split
      · refine ⟨h.disk.blx, fun name bytes' hget => ?_⟩
        rw [Maps.getElem?_insert] at hget
        split at hget
        · cases hget
          exact ⟨fence, hbytes⟩
        · exact h.disk.journals name bytes' hget
      · exact h.disk
    have hinv := h.withDisk hdisk
    split at ht
    · cases ht
      obtain ⟨v, hv, hf, hversion⟩ := hheld
      have hnew := hinv.withFork v (.uploading stash fence) hr hf.ready
        ⟨v, rfl, hf, hversion⟩
      rw [← hv] at hnew
      exact hnew
    · cases ht
      exact hinv.abandon hr
  · cases ht

variable {head : HeadRecord} {version : UInt64} {phase : ReconcilePhase}

/-- The head that names a manifest of the fork is sent. -/
theorem sendHead (h : s.Inv g) {o : Object UInt64 StoredHead} {expected : UInt64} {fence : UInt64}
    {pointer : ManifestPtr} (hr : s.reconciling = none) (hheld : s.Held g)
    (ho : s.store.object = some o)
    (hexpected : s.served.bind ServedVolume.headVersion = some expected)
    (hhead : HeadOk g s.manifests head) (hsome : head.manifest.isSome = true) : Inv g { s with
      store := s.store.put o expected head
      fork := some (.publishing head fence pointer o.requests.length) } := by
  obtain ⟨v, hv, hf, hversion⟩ := hheld
  rw [hv, Option.bind_some] at hexpected
  obtain ⟨old, hold⟩ := hversion expected hexpected
  have hg : s.store.Grows (s.store.put o expected head) := .put ho expected head
  have hstore := h.withStore hg (h.heads.put ho hold (fun _ => hsome) hhead) (fun hn => by
    obtain ⟨e, he, hm⟩ := hn
    refine ⟨e, ?_, hm⟩
    rw [HeadStore.current, ho] at he
    exact he)
  have hnew := hstore.withFork v
    (.publishing head fence pointer o.requests.length) hr hf.ready
    ⟨⟨v, rfl, hf, fun version hm => (hversion version hm).imp fun _ hh => hh.mono hg⟩, hhead, hsome⟩
  rw [← hv] at hnew
  exact hnew

theorem upload (h : s.Inv g) {landed ok : Bool} (ht : s.upload g landed ok = some t) :
    t.Inv g := by
  rw [ForkState.upload] at ht
  split at ht
  · rename_i stash fence hfork
    obtain ⟨hr, hheld⟩ := h.fork _ hfork
    dsimp only at ht
    split at ht
    · cases ht
      exact h.abandon hr
    · rename_i bytes hbytes
      simp only [Option.bind_eq_bind, Option.bind_eq_some_iff, ensure_eq_some, exists_const] at ht
      obtain ⟨hlanded, ht⟩ := ht
      have hm : ∀ (name : UInt64 ×ₗ UInt64) bytes', s.manifests[name]? = some bytes' →
          (if landed = true then s.manifests.insert (toLex (fence, 0)) bytes
            else s.manifests)[name]? = some bytes' := by
        intro name bytes' hget
        split
        · rename_i hl
          have hfree := hlanded hl
          rw [Maps.getElem?_insert, if_neg, hget]
          rintro rfl
          rw [ExtTreeMap.contains_eq_isSome_getElem?, hget] at hfree
          cases hfree
        · exact hget
      have hinv := h.withManifests hm
      split at ht
      · simp only [Option.bind_eq_some_iff, ensure_eq_some, exists_const, pure_eq_some] at ht
        obtain ⟨hstored, o, ho, expected, hexpected, rfl⟩ := ht
        exact hinv.sendHead hr hheld ho (bind_eq_some.mpr hexpected)
          ⟨rfl, fun p hp => ⟨fence, bytes, hbytes, (Option.some.inj hp).symm, hstored⟩⟩ rfl
      · cases ht
        exact hinv.abandon hr
  · cases ht

theorem headPublished (h : s.Inv g) (hr : s.reconciling = none) (hheld : s.Held g) {fence : UInt64}
    {pointer : ManifestPtr} (hversion : s.store.HasVersion version head) :
    (s.headPublished g fence version pointer).Inv g := by
  obtain ⟨v, hv, hf, -⟩ := hheld
  rw [ForkState.headPublished, hv]
  refine h.withFork _ _ hr hf.ready ⟨_, rfl, hf.published fence version pointer, fun w hw => ?_⟩
  cases hw
  exact ⟨head, hversion⟩

theorem publish (h : s.Inv g) {event : PublishEvent} (ht : s.publish g event = some t) :
    t.Inv g := by
  cases hfork : s.fork with
  | none => simp [ForkState.publish, hfork] at ht
  | some phase =>
    obtain ⟨hr, hok⟩ := h.fork phase hfork
    cases phase with
    | claiming | recording | uploading | protecting => simp [ForkState.publish, hfork] at ht
    | publishing head fence pointer request =>
      obtain ⟨hheld, hhead⟩ := hok
      cases event with
      | ok =>
        simp only [ForkState.publish, hfork] at ht
        obtain ⟨version, hcreated, rfl⟩ := Option.map_eq_some_iff.mp ht
        obtain ⟨written, hversion⟩ := HeadStore.hasVersion_created hcreated
        exact h.headPublished hr hheld hversion
      | conflict =>
        simp only [ForkState.publish, hfork, Option.ite_none_right_eq_some] at ht
        cases ht.2
        exact h.abandon hr
      | unknown =>
        simp only [ForkState.publish, hfork] at ht
        cases ht
        obtain ⟨v, hv, hf, hversion⟩ := hheld
        have hnew := h.withFork v (.checking head fence pointer) hr hf.ready
          ⟨⟨v, rfl, hf, hversion⟩, hhead⟩
        rw [← hv] at hnew
        exact hnew
      | found | getUnavailable => simp [ForkState.publish, hfork] at ht
    | checking head fence pointer =>
      obtain ⟨hheld, hhead, hsome⟩ := hok
      cases event with
      | ok | conflict | unknown => simp [ForkState.publish, hfork] at ht
      | found =>
        simp only [ForkState.publish, hfork] at ht
        split at ht
        · rename_i version found hcurrent
          split at ht
          · cases ht
            exact h.headPublished hr hheld (s.store.hasVersion_current hcurrent)
          · cases ht
            exact h.abandon hr
        · cases ht
          exact h.abandon hr
      | getUnavailable =>
        simp only [ForkState.publish, hfork, Option.bind_eq_bind, Option.bind_eq_some_iff,
          pure_eq_some] at ht
        obtain ⟨o, ho, expected, hexpected, rfl⟩ := ht
        exact h.sendHead hr hheld ho (bind_eq_some.mpr hexpected) hhead hsome

theorem protect (h : s.Inv g) (ht : s.protect g = some t) : t.Inv g := by
  rw [ForkState.protect] at ht
  split at ht
  · rename_i hfork
    obtain ⟨hr, v, hv, hf, -⟩ := h.fork _ hfork
    cases ht
    rw [hv]
    exact {
      heads := h.heads
      disk := h.disk
      fork := by simp
      reconciling := by simp [hr]
      ready := by
        rintro w hw -
        cases hw
        exact ⟨⟨⟨hf.pageLocs, hf.resolved, hf.footers, hf.config, hf.usable⟩, hf.objects⟩, rfl⟩ }
  · cases ht

theorem landCreation (h : s.Inv g) {i : Nat} (ht : s.step g (.landCreation i version) = some t) :
    t.Inv g := by
  obtain ⟨store, hl, rfl⟩ := Option.map_eq_some_iff.mp ht
  exact h.withStore (.landCreation hl) (h.heads.landCreation hl)
    fun hn => absurd hl hn.not_landCreation

theorem land (h : s.Inv g) {i : Nat} (ht : s.step g (.land i version) = some t) : t.Inv g := by
  obtain ⟨o, ho, ht⟩ := bind_eq_some.mp ht
  obtain ⟨o', hl, rfl⟩ := Option.map_eq_some_iff.mp ht
  exact h.withStore (.of_object ho (.land hl)) (h.heads.land ho hl)
    fun hn => h.heads.named_land ho hl hn

theorem restart (h : s.Inv g) (hok : s.RecordImpliesHead .restart) : (s.restart g).Inv g := by
  refine ⟨h.heads, h.disk, by simp [ForkState.restart], fun phase hp => ?_, fun v hv hready => ?_⟩
  · cases hv : recoverLocal s.disk g.volume with
    | none => simp [ForkState.restart, hv] at hp
    | some v =>
      obtain ⟨version, head, hcurrent, hsome⟩ := hok (journals_ne_of_recoverLocal hv)
      simp only [ForkState.restart, hv, Option.isSome_some, if_true, Option.some.injEq] at hp
      subst hp
      exact ⟨⟨_, hcurrent, hsome⟩, trivial, v, hv, recovered_of_recoverLocal h.disk hv⟩
  · rw [(recovered_of_recoverLocal h.disk hv).ready] at hready
    cases hready

/-- The reconciliation goes on. -/
theorem withReconciling (h : s.Inv g) (phase' : ReconcilePhase) (hr : s.reconciling = some phase)
    (hok : s.ReconcileOk phase') : Inv g { s with reconciling := some phase' } := by
  obtain ⟨hn, -, v, hv, hrec⟩ := h.reconciling phase hr
  refine ⟨h.heads, h.disk, fun fork hf => ?_, fun next hnext => ?_, h.ready⟩
  · rw [(h.fork fork hf).1] at hr
    cases hr
  · cases hnext
    exact ⟨hn, by cases phase' <;> exact hok, v, hv, hrec⟩

theorem fork_none (h : s.Inv g) (hr : s.reconciling = some phase) : s.fork = none := by
  cases hf : s.fork with
  | none => rfl
  | some fork =>
    rw [(h.fork fork hf).1] at hr
    cases hr

/-- The head confirms the volume, which is then served from the base's objects. -/
theorem attached (h : s.Inv g) {v : ServedVolume} (hr : s.reconciling = some phase)
    (hv : s.served = some v) (hrec : Recovered g v) :
    (s.attached (v.attachHead g.volume version head
      (g.base.manifest.objects, some g.base.root.asBaseRef))).Inv g := by
  refine ⟨h.heads, h.disk, ?_, by simp [ForkState.attached], fun w hw hready => ?_⟩
  · intro fork hf
    rw [show (s.attached _).fork = s.fork from rfl, h.fork_none hr] at hf
    cases hf
  · cases hw
    refine ⟨⟨⟨hrec.pageLocs, rfl, rfl, hrec.config, hrec.usable⟩, rfl⟩, ?_⟩
    simp [ForkState.attached, hready, hv, hrec.recovery]

/-- The head is looked at: it names a manifest of the fork. -/
theorem look (h : s.Inv g) {v : ServedVolume} {membership : Option UInt64}
    {initial : Option StashAssignment} (hr : s.reconciling = some phase) (hv : s.served = some v)
    (hversion : s.store.HasVersion version head) (hsome : head.manifest.isSome = true)
    (ht : s.look g v membership initial (some (version, head)) = some t) : t.Inv g := by
  obtain ⟨hn, -, v', hv', hrec⟩ := h.reconciling phase hr
  cases hv.symm.trans hv'
  have hok := h.heads.headOk hversion
  obtain ⟨p, hp⟩ := Option.isSome_iff_exists.mp hsome
  have hclosure := loadArchiveClosure_of_namesFork (hok.2 p hp)
  have hspec := v.reconcile_spec g.volume g.host membership initial version head true
  simp only [ForkState.look, hp, hclosure, Option.isSome_some] at ht
  split at ht
  · cases ht
    exact h.fence (h.fork_none hr)
  · rename_i head' hdecision
    rw [hdecision] at hspec
    obtain ⟨rfl, -⟩ := hspec
    simp only [bind_eq_some, pure_eq_some] at ht
    obtain ⟨o, ho, rfl⟩ := ht
    have hstore := h.withStore (.put ho version { head with fence := version })
      (h.heads.put ho hversion id hok) (fun hn => by
        obtain ⟨e, he, hm⟩ := hn
        rw [HeadStore.current, ho] at he
        exact ⟨e, he, hm⟩)
    exact hstore.withReconciling (.finalizing o.requests.length) hr trivial
  · rename_i head' hdecision
    rw [hdecision] at hspec
    have hstash := hok.1
    rw [hspec.1] at hstash
    cases hstash
  · cases ht
    exact h.withReconciling .reading hr trivial
  · cases ht
    exact h.attached hr hv hrec

theorem reconcile (h : s.Inv g) {event : ReconcileEvent} (ht : s.reconcile g event = some t) :
    t.Inv g := by
  cases hr : s.reconciling with
  | none => simp [ForkState.reconcile, hr] at ht
  | some phase =>
    obtain ⟨hn, hok, v, hv, hrec⟩ := h.reconciling phase hr
    have hreading := h.withReconciling .reading hr trivial
    cases event with
    | giveUp =>
      simp only [ForkState.reconcile, hr, Option.some.injEq] at ht
      exact ht ▸ h.fence (h.fork_none hr)
    | serve =>
      cases phase with
      | reading =>
        simp only [ForkState.reconcile, hr, Option.some.injEq] at ht
        obtain ⟨e, he, hsome⟩ := hn
        exact ht ▸ h.withReconciling (.read s.store.current) hr
          ⟨e.1, e.2, he, s.store.hasVersion_current he, hsome⟩
      | read | finalizing | upgrading | creating => simp [ForkState.reconcile, hr] at ht
    | look membership initial =>
      cases phase with
      | read found =>
        obtain ⟨version, head, rfl, hversion, hsome⟩ := hok
        simp only [ForkState.reconcile, hr, hv] at ht
        exact h.look hr hv hversion hsome ht
      | reading | finalizing | upgrading | creating => simp [ForkState.reconcile, hr] at ht
    | ok | conflict =>
      cases phase with
      | finalizing request =>
        simp only [ForkState.reconcile, hr, Option.ite_none_right_eq_some, Option.some.injEq] at ht
        exact ht.2 ▸ hreading
      | upgrading | creating => exact hok.elim
      | reading | read => simp [ForkState.reconcile, hr] at ht
    | unknown =>
      cases phase with
      | finalizing request =>
        simp only [ForkState.reconcile, hr, Option.some.injEq] at ht
        exact ht ▸ hreading
      | upgrading | creating => exact hok.elim
      | reading | read => simp [ForkState.reconcile, hr] at ht

/-- **Every allowed step keeps the invariant.** -/
theorem step (h : s.Inv g) {a : ForkStep} (hok : s.RecordImpliesHead a)
    (ht : s.step g a = some t) : t.Inv g := by
  cases a with
  | begin stash => exact h.begin ht
  | claim event => exact h.claim ht
  | record written ok => exact h.record ht
  | upload landed ok => exact h.upload ht
  | publish event => exact h.publish ht
  | protect => exact h.protect ht
  | landCreation i version => exact h.landCreation ht
  | land i version => exact h.land ht
  | restart =>
    rw [ForkState.step, Option.some.injEq] at ht
    exact ht ▸ h.restart hok
  | reconcile event => exact h.reconcile ht

theorem presentsBase (h : s.Inv g) : s.PresentsBase g := by
  intro v hv hready
  obtain ⟨hbase, hreported⟩ := h.ready v hv hready
  refine ⟨g.base.verdict, hreported, fun husable store page => ?_, fun hcold => ?_, ?_⟩
  · rw [← hbase.config, ← hbase.objects]
    refine ServedVolume.readPage_of_unwritten hbase.pageLocs hbase.resolved hbase.footers ?_
      h.disk.blx
    refine husable.imp_left fun hverdict => ?_
    rw [hbase.usable, bne_iff_ne]
    exact hverdict
  · cases hkind : g.base.manifest.recoveryKind with
    | diskOnly => rfl
    | whole => simp [ForkBase.verdict, manifestVerdict, hkind] at hcold
  · intro epoch vmstate hresume store
    rw [hbase.objects]
    cases hkind : g.base.manifest.recoveryKind with
    | diskOnly => simp [ForkBase.verdict, manifestVerdict, hkind] at hresume
    | whole =>
      simp only [ForkBase.verdict, manifestVerdict, hkind, Verdict.resume.injEq] at hresume
      rw [hresume.2]

end Inv

/-- **Fork creation is atomic** as long as no host starts with the record of a fork it has not
published: in every state of every such run, a ready fork presents exactly the base. -/
theorem fork_presents_base {as : List ForkStep}
    (hok : Run.Along (step g) RecordImpliesHead start as)
    (hrun : Run.run (step g) start as = some s) : s.PresentsBase g := by
  have hinv : s.Inv g :=
    Run.run_invariant (fun _ _ _ h hok ht => Inv.step h hok ht) inv_start hok hrun
  exact hinv.presentsBase

end ForkState

/-! ## A fork that is interrupted, and one that is not -/

/-- The first manifest of a fork can be encoded. -/
theorem ForkBase.exists_encode_childManifest (b : ForkBase) (volume : VolumeId) (fence : UInt64) :
    ∃ bytes, (b.childManifest volume fence).encode = some bytes := by
  have hlen : (b.childManifest volume fence).payload.length ≤ 256 := by
    simp [Manifest.payload, Manifest.encodeManifestPrefix, ForkBase.childManifest, BaseRef.encode,
      FileListRef.encode, VolumeConfig.encode]
  obtain ⟨bytes, hbytes⟩ := exists_sealFrame magicManifest
    (b.childManifest volume fence).payload (by omega)
  have hshape : (b.childManifest volume fence).validateShape = true := by
    have hrefs : validateObjectRefs [] = true := rfl
    simp [Manifest.validateShape, ForkBase.childManifest, b.sync_le, hrefs]
  refine ⟨bytes, Manifest.encode_eq_some.mpr ⟨hshape, ?_, ?_, hbytes, ?_⟩⟩
  · simp [ForkBase.childManifest]
  · simp [ForkBase.childManifest]
  · rw [length_of_sealFrame hbytes, frameHeader, maxManifestBytes]
    omega

namespace ForkState

/-- The call of `create_fork` up to the record. -/
def recordSteps (stash : StashAssignment) : List ForkStep :=
  [.begin stash, .landCreation 0 1, .claim .ok, .record true true]

/-- The host stops and starts again; the volume it recovers finds its own claim in the head,
finalizes it and is attached. -/
def interruptedSteps (stash : StashAssignment) : List ForkStep :=
  [.restart, .reconcile .serve, .reconcile (.look (some stash.membershipEpoch) none), .land 0 2,
    .reconcile .ok, .reconcile .serve, .reconcile (.look (some stash.membershipEpoch) none)]

/-- The call goes on to its end, and the host then stops and starts again. -/
def publishedSteps (stash : StashAssignment) : List ForkStep :=
  [.upload true true, .land 0 2, .publish .ok, .protect, .restart, .reconcile .serve,
    .reconcile (.look (some stash.membershipEpoch) none)]

instance decidableRecordImpliesHead (s : ForkState) : ∀ a, Decidable (s.RecordImpliesHead a)
  | .restart => decidable_of_iff (s.disk.journals = ∅ ∨
      (s.store.current.any fun found => found.2.manifest.isSome) = true) <| by
    rw [RecordImpliesHead, Option.any_eq_true, or_iff_not_imp_left, Prod.exists]
  | .begin _ | .claim _ | .record _ _ | .upload _ _ | .publish _ | .protect | .landCreation _ _
  | .land _ _ | .reconcile _ => .isTrue trivial

end ForkState

end

namespace Interrupted

attribute [local instance] storedPlatform

/-- A base with one page that is not zero. -/
def batch : BatchMeta := ⟨.volume, 7, 1, 0, 1, 1, 0, 0, 5⟩

def page : PageId := ⟨2, 0⟩

def entry : BlxEntry :=
  .data (BlockKey.fromPage .data page) 0 (List.replicate 4096 1)

def object (layout : Layout) : ObjectRef :=
  .fromBlx (.single batch 0 0 1 entry layout)

theorem validateObjectRefs_object (layout : Layout) :
    validateObjectRefs [object layout] = true := by
  with_unfolding_all rfl

theorem named_root : (5 : UInt64) = (⟨7, 0, 0, 5⟩ : BaseRef).postStateChecksum := rfl

def base (layout : Layout) : ForkBase where
  root := ⟨7, 0, 0, 5⟩
  manifest := ⟨7, 0, 1, 0, .diskOnly, 0, ⟨.data, 1⟩, 0, 5, 0, [object layout]⟩
  named := named_root
  sync_le := by
    show (0 : UInt64) ≤ 1
    decide
  pages := by
    show (1 : UInt32) ≠ 0
    decide
  valid := validateObjectRefs_object layout

def fork (layout : Layout) : ForkSetting := ⟨2, 1, base layout⟩

def stash : StashAssignment := ⟨1, 2, 1, none, 1⟩

theorem exists_file : ∃ layout,
    BlxObject.SingleFile batch 0 entry layout := by
  have hfit : PagesFit := by
    show 4096 + 1024 ≤ 32 * 1024 * 1024
    decide
  have hvalid : entry.Valid := List.length_replicate
  exact BlxObject.exists_single hfit hvalid batch le_rfl 0

end Interrupted

open Interrupted in
set_option maxRecDepth 20000 in
/-- **A fork that is interrupted can lose its base.**  The host stops between the record and the
head that names the manifest, and the volume it recovers reads a page of the base as zeros. -/
theorem not_fork_presents_base : ¬ ∀ [Platform] (g : ForkSetting) (as : List ForkStep)
    (s : ForkState), Run.run (ForkState.step g) ForkState.start as = some s → s.PresentsBase g := by
  intro h
  let store : letI := storedPlatform; ObjectStore := fun identity =>
    if identity = ⟨.volume, 7, 1, 0⟩ then some exists_file.choose.bytes else none
  have hevaluated : letI := storedPlatform
      ((Run.run (ForkState.step (fork exists_file.choose)) ForkState.start
        (ForkState.recordSteps stash ++ ForkState.interruptedSteps stash)).any fun s =>
          s.served.any fun v => v.ready = true ∧ v.config.kind = .data ∧
            ((v.readPage s.disk store page).any fun bytes => bytes.head? = some 0) = true) = true := by
    decide +kernel
  let _ := storedPlatform
  obtain ⟨s, hrun, hserved⟩ := (Option.any_eq_true _ _).mp hevaluated
  obtain ⟨v, hv, hchecks⟩ := (Option.any_eq_true _ _).mp hserved
  obtain ⟨hready, hkind, hread⟩ := of_decide_eq_true hchecks
  obtain ⟨bytes, hbytes, hzero⟩ := (Option.any_eq_true _ _).mp hread
  obtain ⟨verdict, -, hpages, -⟩ := h _ _ _ hrun v hv hready
  have hbase : readArchive .data store [object exists_file.choose] page =
      some (List.replicate 4096 1) :=
    readArchive_single exists_file.choose_spec (if_pos rfl) (by decide)
  have hpage := (hbytes.symm.trans (hpages (.inr hkind) store page)).trans hbase
  rw [Option.some.inj hpage] at hzero
  exact absurd (of_decide_eq_true hzero) (by decide)

open Interrupted in
set_option maxRecDepth 20000 in
/-- A fork that is published, and then recovered, presents its base. -/
theorem fork_presents_base_published : ∃ (_ : Platform) (g : ForkSetting) (as : List ForkStep)
    (s : ForkState) (v : ServedVolume), Run.run (ForkState.step g) ForkState.start as = some s ∧
      s.served = some v ∧ v.ready = true ∧ s.PresentsBase g := by
  have hevaluated : letI := storedPlatform
      ((Run.run (ForkState.step (fork exists_file.choose)) ForkState.start
        (ForkState.recordSteps stash ++ ForkState.publishedSteps stash)).any fun s =>
          s.served.any ServedVolume.ready) = true := by
    decide +kernel
  have halong : letI := storedPlatform
      Run.Along (ForkState.step (fork exists_file.choose)) ForkState.RecordImpliesHead
        ForkState.start (ForkState.recordSteps stash ++ ForkState.publishedSteps stash) := by
    decide +kernel
  let _ := storedPlatform
  obtain ⟨s, hrun, hserved⟩ := (Option.any_eq_true _ _).mp hevaluated
  obtain ⟨v, hv, hready⟩ := (Option.any_eq_true _ _).mp hserved
  exact ⟨storedPlatform, _, _, s, v, hrun, hv, hready, ForkState.fork_presents_base halong hrun⟩

end Blockd
