import Blockd.Engine.Reconcile
import Blockd.Engine.RecoveryScan

/-!
# The reconciliation of a recovered volume

`reconcile_backed_recovery_event` (`backup.rs`) is a loop: it reads the head and decides about it
(`ServedVolume.reconcile`), and where it has to write first it does so by compare-and-swap and reads
again.  `Reconciling.step` is one answer of the store, to a read or to a write, whatever it is: a
head of any content or none, a conflict, an outcome that stays unknown.

The head decides whether the volume is served.  `Due` says when it is: the head names this host, its
fence is the one of the recovered record, and it has no newer state.  `reconcile_due` shows that the
loop serves a volume and writes its head only then, if every head that is read has a stash, and
none that is finalized has a newer state.  A head without a stash is upgraded whatever its fence is
(`not_reconcile_due`), and where there is no head one is written that the volume's fence is not in.

The loop is the only task of the volume: it is not served before, and nothing else starts on it.
-/

set_option autoImplicit false

open Codec
open Std (ExtTreeMap)

namespace Blockd

/-! ## The store and the host -/

/-- The answer to a read of the head. -/
inductive GetAnswer where
  /-- The head, if its bytes are one. -/
  | found (version : UInt64) (head : Option HeadRecord)
  | missing
  | unavailable
  /-- An error that no read should have. -/
  | failed
  deriving DecidableEq, Repr

/-- The answer to a conditional write of the head. -/
inductive PutAnswer where
  | ok (version : UInt64)
  | conflict
  /-- The write may have taken effect, or may not. -/
  | unavailable
  | tooLarge
  deriving DecidableEq, Repr

/-- The membership a host knows, and the peer it would choose as passive. -/
structure Placement where
  membershipEpoch : UInt64
  firstCandidate : Option HostId
  deriving DecidableEq, Repr

/-- `initial_stash`. -/
def Placement.initialStash (placement : Option Placement) : Option StashAssignment :=
  placement.bind fun p => p.firstCandidate.map fun peer => Blockd.initialStash peer p.membershipEpoch

variable [Platform]

/-! ## The loop -/

/-- Where the loop is. -/
inductive LoopPhase where
  | reading
  | finalizing (head : HeadRecord)
  /-- The archive of the head has been read already. -/
  | upgrading (head : HeadRecord) (closure : List ObjectRef × Option BaseRef)
  | creating (head : HeadRecord) (stash : StashAssignment)
  | finished

/-- The head a write puts into the store. -/
def LoopPhase.written : LoopPhase → Option HeadRecord
  | .finalizing head | .upgrading head _ | .creating head _ => some head
  | .reading | .finished => none

/-- The loop and the volume it is for, which is gone once it is fenced. -/
structure Reconciling where
  served : Option ServedVolume
  phase : LoopPhase
  /-- History: the head that was read or written last. -/
  known : Option (UInt64 × HeadRecord)

inductive ReconcileStep where
  | get (answer : GetAnswer) (placement : Option Placement)
      (closure : Option (List ObjectRef × Option BaseRef))
  | put (answer : PutAnswer)

namespace Reconciling

/-- A volume that was just recovered. -/
def start (v : ServedVolume) : Reconciling := ⟨some v, .reading, none⟩

/-- The volume is given up (`fence_volume`). -/
def fence (s : Reconciling) : Reconciling := { s with served := none, phase := .finished }

/-- What is done about a head that was read. -/
def decided (s : Reconciling) (v : ServedVolume) (volume : VolumeId) (version : UInt64)
    (head : HeadRecord) (closure : Option (List ObjectRef × Option BaseRef)) :
    Reconciliation → Reconciling
  | .fence => s.fence
  | .finalize head' => { s with phase := .finalizing head' }
  | .upgrade head' =>
    match closure with
    | none => s.fence
    | some closure => { s with phase := .upgrading head' closure }
  | .wait => s
  | .attach =>
    match closure with
    | none => s.fence
    | some closure =>
      { s with served := some (v.attachHead volume version head closure), phase := .finished }

/-- An answer to a read. -/
def got (s : Reconciling) (v : ServedVolume) (volume : VolumeId) (host : HostId)
    (placement : Option Placement) (closure : Option (List ObjectRef × Option BaseRef)) :
    GetAnswer → Reconciling
  | .found _ none => s.fence
  | .found version (some head) =>
    decided { s with known := some (version, head) } v volume version head closure
      (v.reconcile volume host (placement.map Placement.membershipEpoch) (Placement.initialStash placement)
        version head closure.isSome)
  | .missing =>
    match Placement.initialStash placement with
    | none => s.fence
    | some stash =>
      { s with
        phase := .creating ⟨volume, host, 0, none, some stash, []⟩ stash
        known := none }
  | .unavailable => s
  | .failed => s.fence

/-- The volume after a write that went through. -/
def wrote (s : Reconciling) (v : ServedVolume) (volume : VolumeId) (version : UInt64) :
    LoopPhase → Reconciling
  | .finalizing head => { s with phase := .reading, known := some (version, head) }
  | .upgrading head closure =>
    ⟨some (v.attachHead volume version head closure), .finished, some (version, head)⟩
  | .creating head stash => ⟨some (v.reclaimHead version stash), .finished, some (version, head)⟩
  | .reading | .finished => s

/-- One answer of the store. -/
def step (volume : VolumeId) (host : HostId) (s : Reconciling) (a : ReconcileStep) :
    Option Reconciling :=
  match s.served, s.phase, a with
  | some v, .reading, .get answer placement closure =>
    some (s.got v volume host placement closure answer)
  | some v, phase, .put answer =>
    if phase.written.isNone then none
    else
      match answer with
      | .ok version => some (s.wrote v volume version phase)
      | .conflict | .unavailable => some { s with phase := .reading }
      | .tooLarge => some s.fence
  | _, _, _ => none

/-! ## When it is due -/

/-- The head names this host at the fence of the recovered volume, or is its claim that was not
finalized yet, and it has no newer state. -/
structure Due (v : ServedVolume) (host : HostId) (version : UInt64) (head : HeadRecord) : Prop where
  holder : head.holder = host
  fence : head.fence = v.fence ∨ (head.fence = 0 ∧ version = v.fence)
  manifest : v.behind head = false

/-- The loop writes a head only over one that makes it due, and the volume is served only under a
head that does. -/
structure Authorized (v : ServedVolume) (host : HostId) (s : Reconciling) : Prop where
  writes : s.phase.written.isSome = true →
    ∃ version head, s.known = some (version, head) ∧ Due v host version head
  ready : ∀ w, s.served = some w → w.ready = true →
    ∃ version head, s.known = some (version, head) ∧ Due v host version head ∧ w.fence = head.fence

/-- The heads of which the loop takes the right view: they have a stash, and a claim of this host
that was not finalized yet has no newer state. -/
def HeadOk (v : ServedVolume) (host : HostId) : ReconcileStep → Prop
  | .get (.found version (some head)) _ _ =>
    head.stash.isSome = true ∧ (head.holder = host → head.fence = 0 → version = v.fence →
      v.behind head = false)
  | .get .missing _ _ => False
  | _ => True

/-- Until the loop is over the volume stays as it was recovered, and only claims are written. -/
structure Inv (v : ServedVolume) (host : HostId) (s : Reconciling) : Prop where
  authorized : s.Authorized v host
  phase : (s.served = some v ∧ (s.phase = .reading ∨ ∃ head, s.phase = .finalizing head)) ∨
    s.phase = .finished

variable {v : ServedVolume} {volume : VolumeId} {host : HostId} {s t : Reconciling}

theorem Inv.fence (s : Reconciling) : s.fence.Inv v host where
  authorized := ⟨by rintro ⟨⟩, by rintro _ ⟨⟩⟩
  phase := .inr rfl

/-- A volume as it was recovered is not served. -/
theorem Inv.reading (hready : v.ready = false) {s : Reconciling} (hserved : s.served = some v)
    (hphase : s.phase = .reading) : s.Inv v host where
  authorized := by
    refine ⟨fun h => ?_, fun w hw hw' => ?_⟩
    · rw [hphase] at h
      cases h
    · cases hserved.symm.trans hw
      rw [hready] at hw'
      cases hw'
  phase := .inl ⟨hserved, .inl hphase⟩

theorem Inv.decided (hready : v.ready = false) (hserved : s.served = some v)
    (hphase : s.phase = .reading) {version : UInt64} {head : HeadRecord}
    (hknown : s.known = some (version, head)) {closure : Option (List ObjectRef × Option BaseRef)}
    {decision : Reconciliation} (hspec : v.ReconcileSpec host version head decision)
    (hstash : head.stash.isSome = true)
    (hbehind : head.holder = host → head.fence = 0 → version = v.fence → v.behind head = false) :
    (s.decided v volume version head closure decision).Inv v host := by
  cases decision with
  | fence => exact .fence s
  | wait => exact .reading hready hserved hphase
  | finalize head' =>
    obtain ⟨-, hholder, hzero, hfence⟩ := hspec
    have hdue : Due v host version head :=
      ⟨hholder, .inr ⟨hzero, hfence.symm⟩, hbehind hholder hzero hfence.symm⟩
    refine ⟨⟨fun _ => ⟨version, head, hknown, hdue⟩, fun w hw hw' => ?_⟩,
      .inl ⟨hserved, .inr ⟨head', rfl⟩⟩⟩
    cases hserved.symm.trans hw
    rw [hready] at hw'
    cases hw'
  | upgrade head' =>
    -- only a head without a stash is upgraded
    rw [hspec.1] at hstash
    cases hstash
  | attach =>
    cases closure with
    | none => exact .fence s
    | some closure =>
      obtain ⟨-, hholder, hfence, hcurrent⟩ := hspec
      refine ⟨⟨fun h => ?_, fun w hw _ => ?_⟩, .inr rfl⟩
      · cases h
      · cases hw
        exact ⟨version, head, hknown, ⟨hholder, .inl hfence, hcurrent⟩, hfence.symm⟩

theorem Inv.got (hready : v.ready = false) (hserved : s.served = some v)
    (hphase : s.phase = .reading) {answer : GetAnswer} {placement : Option Placement}
    {closure : Option (List ObjectRef × Option BaseRef)}
    (hok : HeadOk v host (.get answer placement closure)) :
    (s.got v volume host placement closure answer).Inv v host := by
  cases answer with
  | found version head =>
    cases head with
    | none => exact .fence s
    | some head =>
      have hread : ({ s with known := some (version, head) } : Reconciling).served = some v := hserved
      exact .decided hready hread hphase rfl (ServedVolume.reconcile_spec ..) hok.1 hok.2
  | missing => exact hok.elim
  | unavailable => exact .reading hready hserved hphase
  | failed => exact .fence s

/-- **One answer of the store.** -/
theorem Inv.step (hready : v.ready = false) (h : s.Inv v host) {a : ReconcileStep}
    (hok : HeadOk v host a) (hs : s.step volume host a = some t) : t.Inv v host := by
  obtain ⟨served, phase, known⟩ := s
  rcases h.phase with ⟨hserved, hphase | ⟨head, hphase⟩⟩ | hphase
  · cases hserved
    cases hphase
    cases a with
    | get answer placement closure =>
      cases hs
      exact .got hready rfl rfl hok
    | put answer => cases hs
  · cases hserved
    cases hphase
    cases a with
    | get => cases hs
    | put answer =>
      cases answer with
      | ok version =>
        cases hs
        exact .reading hready rfl rfl
      | conflict =>
        cases hs
        exact .reading hready rfl rfl
      | unavailable =>
        cases hs
        exact .reading hready rfl rfl
      | tooLarge =>
        cases hs
        exact .fence _
  · cases hphase
    cases served <;> cases a <;> cases hs

end Reconciling

/-- The volume that recovery makes of its blobs. -/
def VolumeBlobs.Installs (blobs : VolumeBlobs) (mode : ScanMode) (volume : VolumeId)
    (v : ServedVolume) : Prop :=
  ∃ found, blobs.scan mode volume = some found ∧ found.recover volume = .installed v

/-- The volume, if recovery installs one. -/
def VolumeBlobs.install (blobs : VolumeBlobs) (mode : ScanMode) (volume : VolumeId) :
    Option ServedVolume :=
  (blobs.scan mode volume).bind fun found =>
    match found.recover volume with
    | .unrestorable => none
    | .installed v => some v

theorem VolumeBlobs.installs_of_install {blobs : VolumeBlobs} {mode : ScanMode} {volume : VolumeId}
    {v : ServedVolume} (h : blobs.install mode volume = some v) : blobs.Installs mode volume v := by
  obtain ⟨found, hscan, hv⟩ := bind_eq_some.mp h
  split at hv
  · cases hv
  · rename_i hrecover
    obtain rfl := Option.some.inj hv
    exact ⟨found, hscan, hrecover⟩

/-- A recovered volume is not served. -/
theorem VolumeBlobs.Installs.ready {blobs : VolumeBlobs} {mode : ScanMode} {volume : VolumeId}
    {v : ServedVolume} (h : blobs.Installs mode volume v) : v.ready = false := by
  obtain ⟨found, -, hrecover⟩ := h
  obtain ⟨chosen, -, -, rfl⟩ := ScanFound.recover_eq_installed hrecover
  rw [ScanFound.recovered]
  split <;> rfl

/-- **A volume is served, and its head written, only when that is due.** -/
theorem reconcile_due {blobs : VolumeBlobs} {mode : ScanMode} {volume : VolumeId}
    {v : ServedVolume} {host : HostId} {steps : List ReconcileStep} {t : Reconciling}
    (hinstalls : blobs.Installs mode volume v)
    (hok : Run.Along (Reconciling.step volume host) (fun _ => Reconciling.HeadOk v host)
      (.start v) steps)
    (hrun : Run.run (Reconciling.step volume host) (.start v) steps = some t) :
    t.Authorized v host :=
  (Run.run_invariant (fun _ _ _ h hok hs => h.step hinstalls.ready hok hs)
    (Reconciling.Inv.reading hinstalls.ready rfl rfl) hok hrun).authorized

/-- A head that confirms the volume. -/
theorem ServedVolume.reconcile_eq_attach {v : ServedVolume} {volume : VolumeId} {host : HostId}
    {current : UInt64} {initial : Option StashAssignment} {version : UInt64}
    {head : HeadRecord} {stash : StashAssignment} (hholder : head.holder = host)
    (hfence : head.fence = v.fence) (hfinal : head.fence ≠ 0) (hstash : head.stash = some stash)
    (hmembership : stash.membershipEpoch ≤ current) (hbehind : v.behind head = false) :
    v.reconcile volume host (some current) initial version head true = .attach := by
  unfold reconcile
  rw [if_neg fun h => hfinal h.2.1, hstash]
  simp [hholder, hfence, hbehind, not_lt.mpr hmembership]

/-- A host that knows its membership and a peer. -/
def examplePlacement : Placement := ⟨0, some 2⟩

/-- A new volume whose first record has lost one of its copies. -/
def rottenCopy (bytes : Bytes) : VolumeBlobs where
  journals := ((∅ : ExtTreeMap (UInt64 ×ₗ JournalSeq ×ₗ Bool) Bytes).insert
    (toLex (1, toLex (0, false))) []).insert (toLex (1, toLex (0, true))) bytes
  blx := ∅
  handoff := none

/-- The copy that can be read. -/
def rottenRecord : Bytes :=
  letI := storedPlatform
  ((initialRecord ⟨.data, 1⟩ 1).encode 7).getD []

/-- The head of volume 7 that host 1 holds under fence 1. -/
def confirming : HeadRecord := ⟨7, 1, 1, none, some (initialStash 2 0), []⟩

/-- A head that names host 1 under another fence, and has no stash. -/
def stashless : HeadRecord := ⟨7, 1, 7, none, none, []⟩

omit [Platform] in
set_option maxRecDepth 20000 in
/-- A read that fails, and one that finds the volume's head. -/
theorem reconcile_due_confirming :
    letI := storedPlatform
    ∃ (bytes : Bytes) (v : ServedVolume) (t : Reconciling),
      (rottenCopy bytes).Installs .bytes 7 v ∧
      Run.run (Reconciling.step 7 1) (.start v)
        [.get .unavailable (some examplePlacement) none,
          .get (.found 4 (some confirming)) (some examplePlacement) (some ([], none))] = some t ∧
      t.Authorized v 1 ∧ t.served.any ServedVolume.ready = true := by
  have hevaluated : letI := storedPlatform
      (((rottenCopy rottenRecord).install .bytes 7).any fun v =>
        (Run.run (Reconciling.step 7 1) (.start v)
          [.get .unavailable (some examplePlacement) none,
            .get (.found 4 (some confirming)) (some examplePlacement) (some ([], none))]).any
          fun t => t.served.any ServedVolume.ready) = true := by
    decide +kernel
  let _ := storedPlatform
  obtain ⟨v, hv, hrun⟩ := (Option.any_eq_true _ _).mp hevaluated
  obtain ⟨t, ht, hready⟩ := (Option.any_eq_true _ _).mp hrun
  have hinstalls := VolumeBlobs.installs_of_install hv
  refine ⟨rottenRecord, v, t, hinstalls, ht, reconcile_due hinstalls ?_ ht, hready⟩
  refine .of_forall (fun a ha s => ?_) _
  rcases List.mem_cons.mp ha with rfl | ha
  · trivial
  · cases List.mem_singleton.mp ha
    exact ⟨rfl, fun _ _ _ => rfl⟩

omit [Platform] in
set_option maxRecDepth 20000 in
/-- **A head without a stash is taken over whatever its fence is.**  It is written anew with the fence
of the recovered volume. -/
theorem not_reconcile_due : ¬ ∀ [Platform] (blobs : VolumeBlobs) (mode : ScanMode)
    (volume : VolumeId) (v : ServedVolume) (host : HostId) (steps : List ReconcileStep)
    (t : Reconciling), blobs.Installs mode volume v →
    Run.run (Reconciling.step volume host) (.start v) steps = some t → t.Authorized v host := by
  intro h
  have hevaluated : letI := storedPlatform
      (((rottenCopy rottenRecord).install .bytes 7).any fun v => v.fence = 1) = true := by
    decide +kernel
  let _ := storedPlatform
  obtain ⟨v, hv, hfence⟩ := (Option.any_eq_true _ _).mp hevaluated
  have hauthorized := h (rottenCopy rottenRecord) .bytes 7 v 1
    [.get (.found 9 (some stashless)) (some examplePlacement) (some ([], none))] _
    (VolumeBlobs.installs_of_install hv) rfl
  obtain ⟨version, head, hknown, hdue⟩ := hauthorized.writes rfl
  cases hknown
  rcases hdue.fence with heq | ⟨hzero, -⟩
  · rw [of_decide_eq_true hfence] at heq
    exact absurd heq (by decide)
  · exact absurd hzero (by decide)

end Blockd
