import Blockd.Engine.HeadFencing

/-!
# Lost updates of the head

Every head task writes a whole head, so a task that works from an old copy can undo what another
task has just written.  `no_lost_update` says that every head a task writes is at least as new,
field by field, as the one it replaces (`AtLeastAsNew`), in the runs where a task that takes over a
version of the head has the rest of the cached head from that version too (`TakesOverWhole`).

The tasks do not see to that themselves.  `not_no_lost_update` is a publication that meets a
conflict, refreshes only the version, and so writes back an assignment that another task has just
replaced and not yet heard about.

The argument is the one of `Cas.Object.Chain.land`: a request replaces the version it expects, so it
is enough that the cached head mirrors the version it names whenever a head is built from it.
-/

set_option autoImplicit false

namespace Blockd

open Cas (Object)

/-! ## At least as new -/

/-- The two epochs of an assignment; both only go up. -/
def StashAssignment.epochs (s : StashAssignment) : UInt64 × UInt64 :=
  (s.assignmentEpoch, s.activeAssignmentEpoch)

def StashNotOlder (old new : Option StashAssignment) : Prop :=
  ∀ s ∈ old, ∃ t ∈ new, s = t ∨ s.epochs < t.epochs

def ManifestNotOlder (old new : Option ManifestPtr) : Prop :=
  ∀ m ∈ old, ∃ p ∈ new, m = p ∨ m.age < p.age

/-- The head `new`, written by `task`, against the head `old` it replaces and the ones before. -/
structure AtLeastAsNew (task : HeadTask) (earlier : List HeadRecord) (old new : HeadRecord) :
    Prop where
  stash : StashNotOlder old.stash new.stash
  manifest : ManifestNotOlder old.manifest new.manifest
  /-- A retired entry goes only when the task is there to remove it. -/
  kept : ∀ e ∈ old.retiredStashes, e ∈ new.retiredStashes ∨ task = .removeRetiredStash e
  /-- No entry comes back. -/
  fresh : ∀ e ∈ new.retiredStashes, e ∈ old.retiredStashes ∨
    ∀ h ∈ earlier, e ∉ h.retiredStashes

/-- Every head that a task of the tenure wrote is at least as new as the one it replaced. -/
def HeadSystem.NoLostUpdate (s : HeadSystem) : Prop :=
  ∀ newer new old older, s.object.log = newer ++ new :: old :: older →
    ∀ task, new.2.writer = .task task →
      AtLeastAsNew task (older.map fun e => e.2.head) old.2.head new.2.head

/-! ## What one write carries -/

/-- `AtLeastAsNew` without the history: a new entry is the peer that was active. -/
structure Carries (task : HeadTask) (old new : HeadRecord) : Prop where
  stash : StashNotOlder old.stash new.stash
  manifest : ManifestNotOlder old.manifest new.manifest
  kept : ∀ e ∈ old.retiredStashes, e ∈ new.retiredStashes ∨ task = .removeRetiredStash e
  gained : ∀ e ∈ new.retiredStashes, e ∈ old.retiredStashes ∨
    ∃ s ∈ old.stash, e.assignmentEpoch = s.activeAssignmentEpoch ∧
      ∃ t ∈ new.stash, s.activeAssignmentEpoch < t.activeAssignmentEpoch

theorem StashNotOlder.refl (s : Option StashAssignment) : StashNotOlder s s :=
  fun x hx => ⟨x, hx, .inl rfl⟩

theorem ManifestNotOlder.refl (m : Option ManifestPtr) : ManifestNotOlder m m :=
  fun x hx => ⟨x, hx, .inl rfl⟩

/-- The epoch of the active peer does not go back. -/
theorem StashNotOlder.active_le {old new : Option StashAssignment} (h : StashNotOlder old new) :
    ∀ s ∈ old, ∃ t ∈ new, s.activeAssignmentEpoch ≤ t.activeAssignmentEpoch := by
  intro s hs
  obtain ⟨t, ht, rfl | hlt⟩ := h s hs
  · exact ⟨s, ht, le_rfl⟩
  · exact ⟨t, ht, hlt.le.2⟩

/-- The cached head is the head `h`. -/
structure HeadCache.Mirrors (c : HeadCache) (h : HeadRecord) : Prop where
  backed : c.backed = h.manifest
  stash : c.stashAssignment = h.stash
  retired : c.retiredStashes = h.retiredStashes

/-- An assignment and a retired list that may follow the cached ones. -/
structure Proposes (c : HeadCache) (assignment : StashAssignment)
    (retired : List RetiredStash) : Prop where
  newer : ∃ s ∈ c.stashAssignment, s = assignment ∨ s.epochs < assignment.epochs
  active : assignment.activeAssignmentEpoch ≤ assignment.assignmentEpoch
  transition : assignment.transitionPeer.isSome →
    assignment.activeAssignmentEpoch < assignment.assignmentEpoch
  kept : ∀ e ∈ c.retiredStashes, e ∈ retired
  gained : ∀ e ∈ retired, e ∈ c.retiredStashes ∨
    ∃ s ∈ c.stashAssignment, e.assignmentEpoch = s.activeAssignmentEpoch ∧
      s.activeAssignmentEpoch < assignment.activeAssignmentEpoch

/-- The arguments of the task may follow the cached head. -/
def HeadTask.Ready (c : HeadCache) : HeadTask → Prop
  | publishHead pointer => ∀ m ∈ c.backed, m.age < pointer.age
  | casAssignment assignment retired => Proposes c assignment retired
  | removeRetiredStash _ => True

namespace HeadTask.Ready

variable {c : HeadCache} {h : HeadRecord} {task : HeadTask}

/-- A task that is ready for the head it mirrors writes one that carries it on. -/
protected theorem carries (hr : task.Ready c) (hm : c.Mirrors h) (volume : VolumeId) (host : HostId) :
    Carries task h (task.head volume host c) := by
  cases task with
  | publishHead pointer =>
    refine ⟨?_, fun m hmem => ⟨pointer, rfl, .inr (hr m (hm.backed ▸ hmem))⟩, ?_, ?_⟩
    · rw [← hm.stash]
      exact .refl _
    · rw [← hm.retired]
      exact fun e he => .inl he
    · rw [← hm.retired]
      exact fun e he => .inl he
  | casAssignment assignment retired =>
    refine ⟨fun s hs => ?_, ?_, fun e he => .inl (hr.kept e (hm.retired ▸ he)), fun e he => ?_⟩
    · obtain ⟨s', hs', hnew⟩ := hr.newer
      rw [hm.stash] at hs'
      cases (Option.mem_def.mp hs).symm.trans hs'
      exact ⟨assignment, rfl, hnew⟩
    · rw [← hm.backed]
      exact .refl _
    · rcases hr.gained e he with hold | ⟨s, hs, hepoch, hlt⟩
      · exact .inl (hm.retired ▸ hold)
      · exact .inr ⟨s, hm.stash ▸ hs, hepoch, assignment, rfl, hlt⟩
  | removeRetiredStash retired =>
    refine ⟨?_, ?_, fun e he => ?_, fun e he => ?_⟩
    · rw [← hm.stash]
      exact .refl _
    · rw [← hm.backed]
      exact .refl _
    · by_cases hne : e = retired
      · exact .inr (hne ▸ rfl)
      · exact .inl (List.mem_filter.mpr ⟨hm.retired ▸ he, decide_eq_true hne⟩)
    · exact .inl (hm.retired ▸ (List.mem_filter.mp he).1)

/-- Such a head fits together again. -/
protected theorem coherent (hr : task.Ready c) (hm : c.Mirrors h) (hc : h.Coherent) (volume : VolumeId)
    (host : HostId) : (task.head volume host c).Coherent := by
  have hcarries := hr.carries hm volume host
  have hretired : ∀ e ∈ (task.head volume host c).retiredStashes,
      ∃ s ∈ (task.head volume host c).stash, e.assignmentEpoch < s.activeAssignmentEpoch := by
    intro e he
    rcases hcarries.gained e he with hold | ⟨s, -, hepoch, t, ht, hlt⟩
    · obtain ⟨s, hs, hlt⟩ := hc.retired e hold
      obtain ⟨t, ht, hle⟩ := hcarries.stash.active_le s hs
      exact ⟨t, ht, lt_of_lt_of_le hlt hle⟩
    · exact ⟨t, ht, hepoch ▸ hlt⟩
  cases task with
  | publishHead pointer =>
    exact ⟨fun s hs => hc.active s (hm.stash ▸ hs), fun s hs => hc.transition s (hm.stash ▸ hs),
      hretired⟩
  | casAssignment assignment retired =>
    refine ⟨?_, ?_, hretired⟩
    · rintro s ⟨⟩
      exact hr.active
    · rintro s ⟨⟩
      exact hr.transition
  | removeRetiredStash retired =>
    exact ⟨fun s hs => hc.active s (hm.stash ▸ hs), fun s hs => hc.transition s (hm.stash ▸ hs),
      hretired⟩

end HeadTask.Ready

/-! ## The proposals -/

theorem lt_of_nextCandidate {candidates : List HostId} {current : StashAssignment} {fuel : Nat}
    {epoch : UInt64} {next : UInt64 × HostId}
    (h : nextCandidate candidates current fuel epoch = some next) : epoch < next.1 := by
  induction fuel generalizing epoch with
  | zero => cases h
  | succ fuel ih =>
    simp only [nextCandidate, Option.bind_eq_bind, Option.bind_eq_some_iff] at h
    obtain ⟨later, hadd, candidate, -, h⟩ := h
    have hlater : epoch < later := by
      rw [UInt64.lt_iff_toNat_lt, toNat_of_checkedAdd hadd]
      exact Nat.lt_succ_self _
    split at h
    · cases h
      exact hlater
    · exact lt_trans hlater (ih h)

section

variable {c : HeadCache} {h : HeadRecord}

theorem proposes_transition (hm : c.Mirrors h) (hc : h.Coherent) {candidates : List HostId}
    {assignment : StashAssignment} (hp : transitionProposal c candidates = some assignment) :
    Proposes c assignment c.retiredStashes := by
  rw [transitionProposal, Option.ite_none_left_eq_some] at hp
  obtain ⟨current, hcurrent, hp⟩ := Option.bind_eq_some_iff.mp hp.2
  have hactive := hc.active current (hm.stash ▸ hcurrent)
  split at hp
  · cases hp
    exact ⟨⟨assignment, hcurrent, .inl rfl⟩, hactive,
      hc.transition assignment (hm.stash ▸ hcurrent), fun _ he => he, fun _ he => .inl he⟩
  · obtain ⟨next, hnext, rfl⟩ := Option.map_eq_some_iff.mp hp
    have hlt := lt_of_nextCandidate hnext
    exact ⟨⟨current, hcurrent, .inr (Prod.mk_lt_mk.mpr (.inl ⟨hlt, le_rfl⟩))⟩,
      hactive.trans hlt.le, fun _ => lt_of_le_of_lt hactive hlt, fun _ he => he,
      fun _ he => .inl he⟩

theorem proposes_activation (hm : c.Mirrors h) (hc : h.Coherent) {target : HostId}
    {epoch : UInt64} {info : ReplicaCommitInfo} {assignment : StashAssignment}
    {retired : List RetiredStash}
    (hp : activationProposal c target epoch info = some (assignment, retired)) :
    Proposes c assignment retired := by
  obtain ⟨current, hcurrent, hp⟩ := Option.bind_eq_some_iff.mp hp
  rw [Option.ite_none_left_eq_some] at hp
  obtain ⟨hcond, hp⟩ := hp
  push Not at hcond
  obtain ⟨rfl, htarget⟩ := hcond
  have hlt := hc.transition current (hm.stash ▸ hcurrent) (by rw [htarget]; rfl)
  cases hp
  refine ⟨⟨current, hcurrent, .inr (Prod.mk_lt_mk.mpr (.inr ⟨le_rfl, hlt⟩))⟩, le_rfl, ?_,
    fun e he => ?_, fun e he => ?_⟩
  · rintro ⟨⟩
  · split
    · exact he
    · exact List.mem_append_left _ he
  · split at he
    · exact .inl he
    · rcases List.mem_append.mp he with he | he
      · exact .inl he
      · rw [List.mem_singleton.mp he]
        exact .inr ⟨current, hcurrent, rfl, hlt⟩

end

/-! ## Taking over a version -/

namespace HeadTask

/-- What a successful write leaves alone in the volume state is as in the head it wrote. -/
def KeepsOk (round : Round) (c : HeadCache) : HeadTask → Prop
  | publishHead _ =>
    c.stashAssignment = round.head.stash ∧ c.retiredStashes = round.head.retiredStashes
  | casAssignment _ _ => c.backed = round.head.manifest
  | removeRetiredStash _ =>
    c.backed = round.head.manifest ∧ c.stashAssignment = round.head.stash

/-- What a task that reads the head again leaves alone is as in the head it found. -/
def KeepsFound (round : Round) (c : HeadCache) (found : HeadRecord) : HeadTask → Prop
  | publishHead pointer =>
    c.stashAssignment = found.stash ∧ c.retiredStashes = found.retiredStashes ∧
      if found.manifest.any fun m => pointer.age ≤ m.age then found.manifest = some pointer
      else c.backed = found.manifest
  | casAssignment _ _ =>
    if found = round.head then c.backed = found.manifest
    else if found.stash = round.currentAssignment ∧
        found.retiredStashes = round.currentRetired then
      c.stashAssignment = found.stash ∧ c.retiredStashes = found.retiredStashes
    else True
  | removeRetiredStash _ => True

/-- What the task's arguments were computed from is still cached. -/
def Unmoved (base c : HeadCache) : HeadTask → Prop
  | publishHead _ => c.backed = base.backed
  | casAssignment _ _ =>
    c.stashAssignment = base.stashAssignment ∧ c.retiredStashes = base.retiredStashes
  | removeRetiredStash _ => True

variable {task : HeadTask} {round : Round} {c : HeadCache}

theorem mirrors_onOk (hb : task.Builds round.head) (hk : task.KeepsOk round c) (v : UInt64) :
    (task.onOk round c v).Mirrors round.head := by
  cases task with
  | publishHead pointer => exact ⟨hb.symm, hk.1, hk.2⟩
  | casAssignment assignment retired => exact ⟨hk, hb.1.symm, hb.2.symm⟩
  | removeRetiredStash retired => exact ⟨hk.1, hk.2, rfl⟩

theorem mirrors_onFound {found : HeadRecord} (hb : task.Builds round.head)
    (hk : task.KeepsFound round c found) (v : UInt64) :
    (task.onFound round c v found).1.Mirrors found := by
  cases task with
  | publishHead pointer =>
    obtain ⟨hstash, hretired, hbacked⟩ := hk
    rw [onFound]
    split at hbacked <;> rename_i hnew
    · rw [if_pos hnew]
      exact ⟨hbacked.symm, hstash, hretired⟩
    · rw [if_neg hnew]
      exact ⟨hbacked, hstash, hretired⟩
  | casAssignment assignment retired =>
    rw [onFound]
    rw [KeepsFound] at hk
    split at hk <;> rename_i hsame
    · subst hsame
      rw [if_pos rfl]
      exact ⟨hk, hb.1.symm, hb.2.symm⟩
    · rw [if_neg hsame]
      split at hk <;> rename_i hcurrent
      · rw [if_pos hcurrent]
        exact ⟨rfl, hk.1, hk.2⟩
      · rw [if_neg hcurrent]
        exact ⟨rfl, rfl, rfl⟩
  | removeRetiredStash retired => exact ⟨rfl, rfl, rfl⟩

/-- A task that starts over at once is ready for the head it found. -/
theorem ready_onFound {found : HeadRecord} (hb : task.Builds round.head)
    (hk : task.KeepsFound round c found) {v : UInt64}
    (hagain : (task.onFound round c v found).2 = .again) :
    task.Ready (task.onFound round c v found).1 := by
  have hm := mirrors_onFound hb hk v
  cases task with
  | publishHead pointer =>
    intro m hmem
    rw [hm.backed] at hmem
    rw [onFound] at hagain
    split at hagain <;> rename_i hold
    · cases hagain
    · by_contra hlt
      rw [Option.mem_def.mp hmem] at hold
      exact hold (decide_eq_true (not_lt.mp hlt))
  | casAssignment assignment retired =>
    rw [onFound] at hagain
    split at hagain
    · cases hagain
    · split at hagain <;> cases hagain
  | removeRetiredStash retired => trivial

theorem Ready.of_unmoved {base : HeadCache} (hr : task.Ready base) (hu : task.Unmoved base c) :
    task.Ready c := by
  cases task with
  | publishHead pointer =>
    rw [Ready, hu]
    exact hr
  | casAssignment assignment retired =>
    obtain ⟨hstash, hretired⟩ := hu
    exact ⟨hstash ▸ hr.newer, hr.active, hr.transition, hretired ▸ hr.kept,
      fun e he => by rw [hstash, hretired]; exact hr.gained e he⟩
  | removeRetiredStash retired => trivial

end HeadTask

/-- A task that takes over a version of the head has the whole cached head from it, and a task that
starts another round still has what its arguments were computed from. -/
def HeadSystem.TakesOverWhole (s : HeadSystem) : HeadStep → Prop
  | .publish _ => s.snapshot = some s.cache.backed
  | .ok i =>
    match s.tasks[i]? with
    | some ⟨task, _, .writing round _⟩ => task.KeepsOk round s.cache
    | _ => True
  | .found i =>
    match s.tasks[i]? with
    | some ⟨task, _, .served round _ found⟩ =>
      found.head.holder = s.host → found.head.fence = s.cache.fence →
        task.KeepsFound round s.cache found.head
    | _ => True
  | .retry i =>
    match s.tasks[i]? with
    | some ⟨task, base, .delayed⟩ => task.Unmoved base s.cache
    | _ => True
  | _ => True

/-! ## The invariant -/

/-- How a version of the head follows the one before. -/
def Follows (old new : StoredHead) : Prop :=
  match new.writer with
  | .claim => False
  | .task task => old.writer ≠ .other ∧ Carries task old.head new.head
  | .other => True

/-- The cached head mirrors the version it names, so that whatever is built from it follows that
version. -/
structure Tenure.UpdateInv (t : Tenure) (s : HeadSystem) : Prop where
  inv : t.Inv s
  mirrors : ∃ v st, s.cache.headVersion = some v ∧ (v, st) ∈ s.object.log ∧
    st.writer ≠ .other ∧ s.cache.Mirrors st.head
  coherent : s.object.All fun st => st.writer ≠ .other → st.head.Coherent
  chain : s.object.Chain Follows
  tracks : s.object.Tracks Follows
  ready : ∀ x ∈ s.tasks, x.task.Ready x.base

namespace Tenure

theorem updateInv_start (t : Tenure) : t.UpdateInv t.start where
  inv := t.inv_start
  mirrors := ⟨t.version, _, rfl, List.mem_singleton_self _, by rintro ⟨⟩, rfl, rfl, rfl⟩
  coherent := Object.All.create _ fun _ => t.coherent
  chain := Object.Chain.create _ _
  tracks := Object.Tracks.create _ _
  ready := by
    intro x hx
    cases hx

namespace UpdateInv

variable {t : Tenure} {s : HeadSystem}

/-- The object changes and the rest stays. -/
theorem withObject (h : t.UpdateInv s) {o : Object UInt64 StoredHead}
    (hinv : t.Inv { s with object := o }) (hext : s.object.Extends o)
    (hcoherent : o.All fun st => st.writer ≠ .other → st.head.Coherent)
    (hchain : o.Chain Follows) (htracks : o.Tracks Follows) :
    t.UpdateInv { s with object := o } := by
  obtain ⟨v, st, hv, hmem, hown, hm⟩ := h.mirrors
  exact ⟨hinv, ⟨v, st, hv, hext.log _ hmem, hown, hm⟩, hcoherent, hchain, htracks, h.ready⟩

/-- A new version is taken over whole. -/
theorem withCache (h : t.UpdateInv s) {c : HeadCache} {v : UInt64} {st : StoredHead}
    (hf : c.fence = s.cache.fence) (hv : c.headVersion = some v) (hmem : (v, st) ∈ s.object.log)
    (hown : st.writer ≠ .other) (hm : c.Mirrors st.head) : t.UpdateInv { s with cache := c } :=
  ⟨h.inv.withCache hf hv, ⟨v, st, hv, hmem, hown, hm⟩, h.coherent, h.chain, h.tracks, h.ready⟩

/-- What a task remembers changes. -/
theorem setPhase (h : t.UpdateInv s) {i : Nat} {phase : Phase}
    (hinv : t.Inv (s.setPhase i phase)) : t.UpdateInv (s.setPhase i phase) := by
  refine ⟨hinv, h.mirrors, h.coherent, h.chain, h.tracks, fun x hx => ?_⟩
  obtain hx | ⟨y, hy, rfl⟩ := HeadSystem.mem_setPhase hx
  · exact h.ready x hx
  · exact h.ready y (List.mem_of_getElem? hy)

theorem startRound (h : t.UpdateInv s) {task : HeadTask} (hr : task.Ready s.cache) :
    t.UpdateInv (s.startRound task).1 := by
  obtain ⟨v, st, hv, hmem, hown, hm⟩ := h.mirrors
  have hinv := (h.inv.startRound task).1
  rcases HeadSystem.startRound_cases hv task with ⟨-, -, he⟩ | he <;> rw [he] at hinv ⊢
  · exact h
  · exact h.withObject hinv (.send _ _ _)
      (h.coherent.send v fun _ => hr.coherent hm (h.coherent.log _ hmem hown) s.volume s.host)
      (h.chain.send v _) (h.tracks.send hmem ⟨hown, hr.carries hm s.volume s.host⟩)

theorem spawn (h : t.UpdateInv s) {task : HeadTask} {base : HeadCache}
    (hr : task.Ready s.cache) (hbase : task.Ready base) : t.UpdateInv (s.spawn task base) := by
  have hs := h.startRound hr
  refine ⟨h.inv.spawn task base, hs.mirrors, hs.coherent, hs.chain, hs.tracks, fun x hx => ?_⟩
  rcases List.mem_append.mp hx with hx | hx
  · exact hs.ready x hx
  · rw [List.mem_singleton.mp hx]
    exact hbase

theorem resume (h : t.UpdateInv s) {i : Nat} {task : HeadTask} (hr : task.Ready s.cache)
    (hinv : t.Inv (s.resume i task)) : t.UpdateInv (s.resume i task) :=
  (h.startRound hr).setPhase hinv

theorem found (h : t.UpdateInv s) {i : Nat} {task : HeadTask} {round : Round}
    {version : UInt64} {found : StoredHead} (hb : task.Builds round.head)
    (hmem : (version, found) ∈ s.object.log)
    (hk : found.head.holder = s.host → found.head.fence = s.cache.fence →
      task.KeepsFound round s.cache found.head)
    (hinv : t.Inv (s.found i task round version found.head)) :
    t.UpdateInv (s.found i task round version found.head) := by
  rw [HeadSystem.found] at hinv ⊢
  split at hinv <;> rename_i hfence
  · rw [if_pos hfence]
    have hstop : t.UpdateInv { s with stopped := true } :=
      ⟨⟨h.inv.host, h.inv.fence, h.inv.version, h.inv.owned, h.inv.requests, h.inv.claimed,
        h.inv.phases⟩, h.mirrors, h.coherent, h.chain, h.tracks, h.ready⟩
    exact hstop.setPhase hinv
  · rw [if_neg hfence]
    push Not at hfence
    have hkeeps := hk hfence.1 hfence.2
    have hown : found.writer ≠ .other := by
      intro hw
      rcases (h.inv.owned.log _ hmem).other hw with hne | hne
      · exact hne (hfence.1.trans h.inv.host)
      · exact hne (hfence.2.trans h.inv.fence)
    have hc := h.withCache (task.fence_onFound round s.cache version found.head)
      (task.headVersion_onFound ..) hmem hown (HeadTask.mirrors_onFound hb hkeeps version)
    dsimp only at hinv ⊢
    split at hinv <;> rename_i hnext
    · exact hc.setPhase hinv
    · exact hc.resume (HeadTask.ready_onFound hb hkeeps hnext) hinv
    · exact hc.setPhase hinv

/-- **Every event that takes over whole versions preserves the invariant.** -/
theorem event (h : t.UpdateInv s) {a : HeadStep} {s' : HeadSystem} (hok : s.TakesOverWhole a)
    (hs : s.Event a s') : t.UpdateInv s' := by
  have hinv := h.inv.event hs
  obtain ⟨v, st, -, hmem, hown, hm⟩ := h.mirrors
  have hcoherent := h.coherent.log _ hmem hown
  cases hs with
  | snapshot => exact ⟨hinv, h.mirrors, h.coherent, h.chain, h.tracks, h.ready⟩
  | @publish pointer base hbase hnew =>
    have hbacked : s.cache.backed = base := Option.some.inj (hok.symm.trans hbase)
    have hready : (HeadTask.publishHead pointer).Ready { s.cache with backed := base } := by
      rintro m ⟨⟩
      exact of_decide_eq_true hnew
    have hspawn := h.spawn (hready.of_unmoved hbacked) hready
    exact ⟨hinv, hspawn.mirrors, hspawn.coherent, hspawn.chain, hspawn.tracks, hspawn.ready⟩
  | transition hp =>
    have hready := proposes_transition hm hcoherent hp
    exact h.spawn hready hready
  | activate hp =>
    have hready := proposes_activation hm hcoherent hp
    exact h.spawn hready hready
  | removeRetired => exact h.spawn trivial trivial
  | land ho =>
    exact h.withObject hinv (.land ho) (h.coherent.land ho) (h.chain.land h.tracks ho)
      (h.tracks.land ho)
  | other _ ho =>
    exact h.withObject hinv (.replace ho) (h.coherent.replace (fun hne => absurd rfl hne) ho)
      (h.chain.replace (by exact trivial) ho) (h.tracks.replace ho)
  | ok ht hv =>
    obtain ⟨hb, hsent⟩ := h.inv.phases _ (List.mem_of_getElem? ht)
    simp only [HeadSystem.TakesOverWhole, ht] at hok
    refine (h.withCache (HeadTask.fence_onOk ..) (HeadTask.headVersion_onOk ..)
      (hsent.mem_log hv) ?_ (HeadTask.mirrors_onOk hb hok _)).setPhase hinv
    rintro ⟨⟩
  | failed | serve | getUnavailable => exact h.setPhase hinv
  | found ht =>
    obtain ⟨hb, hfound⟩ := h.inv.phases _ (List.mem_of_getElem? ht)
    simp only [HeadSystem.TakesOverWhole, ht] at hok
    exact h.found hb hfound hok hinv
  | retry ht =>
    simp only [HeadSystem.TakesOverWhole, ht] at hok
    exact h.resume ((h.ready _ (List.mem_of_getElem? ht)).of_unmoved hok) hinv

end UpdateInv

end Tenure

/-! ## From one write to the history -/

/-- Before a version of this tenure there are only such versions, none with a later active epoch. -/
theorem active_le_of_chain {new : UInt64 × StoredHead} {older : List (UInt64 × StoredHead)}
    (h : (new :: older).IsChain fun new old => Follows old.2 new.2) (hown : new.2.writer ≠ .other) :
    ∀ e ∈ older, e.2.writer ≠ .other ∧ ∀ s ∈ e.2.head.stash, ∃ t ∈ new.2.head.stash,
      s.activeAssignmentEpoch ≤ t.activeAssignmentEpoch := by
  induction older generalizing new with
  | nil =>
    intro e he
    cases he
  | cons old older ih =>
    obtain ⟨hfollows, hchain⟩ := List.isChain_cons_cons.mp h
    rw [Follows] at hfollows
    split at hfollows
    · cases hfollows
    · obtain ⟨hold, hcarries⟩ := hfollows
      intro e he
      rcases List.mem_cons.mp he with rfl | he
      · exact ⟨hold, hcarries.stash.active_le⟩
      · obtain ⟨howne, hle⟩ := ih hchain hold e he
        refine ⟨howne, fun s hs => ?_⟩
        obtain ⟨u, hu, hsu⟩ := hle s hs
        obtain ⟨w, hw, huw⟩ := hcarries.stash.active_le u hu
        exact ⟨w, hw, hsu.trans huw⟩
    · rename_i hw
      exact absurd hw hown

/-- The invariant rules out lost updates: an entry that a write adds is the peer active until then,
and every entry seen before has an earlier epoch. -/
theorem Tenure.UpdateInv.noLostUpdate {t : Tenure} {s : HeadSystem} (h : t.UpdateInv s) :
    s.NoLostUpdate := by
  intro newer new old older hlog task hw
  have hchain := h.chain
  rw [Object.Chain, hlog] at hchain
  obtain ⟨hfollows, hrest⟩ := List.isChain_cons_cons.mp (List.isChain_append.mp hchain).2.1
  simp only [Follows, hw] at hfollows
  obtain ⟨hold, hcarries⟩ := hfollows
  refine ⟨hcarries.stash, hcarries.manifest, hcarries.kept, fun e he => ?_⟩
  rcases hcarries.gained e he with hmem | ⟨u, hu, hepoch, -⟩
  · exact .inl hmem
  refine .inr fun r hr hretired => ?_
  obtain ⟨x, hx, rfl⟩ := List.mem_map.mp hr
  obtain ⟨hown, hle⟩ := active_le_of_chain hrest hold x hx
  have hxlog : x ∈ s.object.log := by
    rw [hlog]
    exact List.mem_append_right _ (List.mem_cons_of_mem _ (List.mem_cons_of_mem _ hx))
  obtain ⟨w, hw', hlt⟩ := (h.coherent.log x hxlog hown).retired e hretired
  obtain ⟨u', hu', hwu⟩ := hle w hw'
  cases (Option.mem_def.mp hu).symm.trans hu'
  exact absurd (lt_of_lt_of_le hlt hwu) (hepoch ▸ lt_irrefl _)

/-- **No update of the head is lost** in a run where a task that takes over a version of the head has
the whole cached head from it, and starts a round only from what its arguments were computed
from. -/
theorem no_lost_update (t : Tenure) {s : HeadSystem} {as : List HeadStep}
    (hok : Run.Along HeadSystem.step HeadSystem.TakesOverWhole t.start as)
    (hrun : Run.run HeadSystem.step t.start as = some s) : s.NoLostUpdate :=
  (Run.run_invariant (fun _ _ _ h hok hs => h.event hok (HeadSystem.event_of_step hs))
    t.updateInv_start hok hrun : t.UpdateInv s).noLostUpdate

/-- A publication and a transition start from the same version.  The transition is written first,
and is heard of before the publication reads the head again. -/
def heardRun : List HeadStep :=
  [.snapshot, .publish firstManifest, .transition [2, 3], .land 1 2, .ok 1, .conflict 0, .serve 0,
    .found 0, .land 2 3, .ok 0]

theorem no_lost_update_heard :
    ∃ s, Run.run HeadSystem.step createdVolume.start heardRun = some s ∧ s.NoLostUpdate := by
  have hok : Run.Along HeadSystem.step HeadSystem.TakesOverWhole createdVolume.start heardRun := by
    refine .cons trivial rfl (.cons rfl rfl (.cons trivial rfl (.cons trivial rfl ?_)))
    refine .cons rfl rfl (.cons trivial rfl (.cons trivial rfl ?_))
    exact .cons (fun _ _ => ⟨rfl, rfl, rfl⟩) rfl (.cons trivial rfl (.cons ⟨rfl, rfl⟩ rfl trivial))
  exact ⟨_, rfl, no_lost_update createdVolume hok rfl⟩

/-- **An update can be lost.**  Here the publication reads the head again before the transition has
heard of its success.  It refreshes the version alone, and writes the assignment back that
the transition had replaced. -/
theorem not_no_lost_update :
    ¬ ∀ (t : Tenure) (s : HeadSystem) (as : List HeadStep),
      Run.run HeadSystem.step t.start as = some s → s.NoLostUpdate := by
  intro h
  have hlost := h createdVolume _
    [.snapshot, .publish firstManifest, .transition [2, 3], .land 1 2, .conflict 0, .serve 0,
      .found 0, .land 2 3] rfl [] _ _ _ rfl (.publishHead firstManifest) rfl
  obtain ⟨u, hu, hnew⟩ := hlost.stash _ rfl
  cases hu
  have hepoch : ¬ (2 : UInt64) ≤ 1 := by decide
  rcases hnew with heq | hlt
  · exact hepoch (congrArg StashAssignment.assignmentEpoch heq).le
  · exact hepoch hlt.le.1

end Blockd
