import Blockd.Engine.Failover
import Blockd.Engine.HeadCluster
import Blockd.ReplicaRecovery

/-!
# The operations on a head

Many operations replace a volume's head: it is created, claimed by a restore, a migration or the
recovery of a lost primary, finalized, upgraded, its passive is replaced in two steps, a retired
passive is released, a manifest is published.  None of them checks what `HeadRecord.decode` will
demand of the head it writes.

`HeadOp.step` applies one operation to the head.  What the operations keep is `HeadRecord.Sound`: the
head is valid, and while a transition is pending there is room for one more retired passive, because
the activation that ends it adds one.  `written_head_decodes` is what follows for every sequence of
operations.  From a valid head that is full while a transition is pending, which no operation writes,
an activation would make a head that cannot be encoded (`not_written_head_decodes`).
-/

set_option autoImplicit false

open Codec

namespace Blockd

/-! ## Operations -/

/-- An operation on a volume's head, with what it is given. -/
inductive HeadOp where
  /-- `claim_new_head_with_stash`, and recovery where there is no head. -/
  | create (host : HostId) (stash : Option (HostId × UInt64))
  | transitionStash (candidates : List HostId)
  | activateStash (target : HostId) (assignmentEpoch : UInt64) (info : ReplicaCommitInfo)
  /-- `remove_retired_stash`, after the release is acknowledged. -/
  | removeRetiredStash (retired : RetiredStash)
  | publishHead (pointer : ManifestPtr)
  | claimRestore (host : HostId)
  | claimMigratedHead (host source : HostId) (offeredFence : UInt64) (local' : HostId × UInt64)
  /-- The second write of a claim. -/
  | finalize (fence : UInt64)
  /-- Recovery of a holder whose head has no passive. -/
  | upgrade (host : HostId) (fence : UInt64) (local' : HostId × UInt64)
  | replicaRecoveryClaim (claimant : HostId) (exported : ReplicaExport)
  | replicaPublication (claimant : HostId) (writerFence : UInt64) (exported : ReplicaExport)
      (manifest : ManifestPtr)
  deriving Repr

namespace HeadRecord

/-- What the holder keeps of the head it has written. -/
def cache (head : HeadRecord) (version : UInt64) : HeadCache :=
  ⟨head.effectiveFence version, some version, head.manifest, head.stash, head.retiredStashes⟩

end HeadRecord

namespace HeadOp

/-- The head that an operation makes of the head at `version`. -/
def onHead (volume : VolumeId) (version : UInt64) (head : HeadRecord) : HeadOp → Option HeadRecord
  | create .. => none
  | transitionStash candidates =>
    (transitionProposal (head.cache version) candidates).map fun assignment =>
      (HeadTask.casAssignment assignment head.retiredStashes).head volume head.holder
        (head.cache version)
  | activateStash target assignmentEpoch info =>
    (activationProposal (head.cache version) target assignmentEpoch info).map fun proposal =>
      (HeadTask.casAssignment proposal.1 proposal.2).head volume head.holder (head.cache version)
  | removeRetiredStash retired =>
    if retired ∈ head.retiredStashes then
      some ((HeadTask.removeRetiredStash retired).head volume head.holder (head.cache version))
    else none
  | publishHead pointer =>
    some ((HeadTask.publishHead pointer).head volume head.holder (head.cache version))
  | claimRestore host => restoreClaim volume host head
  | claimMigratedHead host source offeredFence local' =>
    migrationClaim volume host source offeredFence (initialStash local'.1 local'.2) version head
  | finalize fence => some { head with fence }
  | upgrade host fence local' =>
    if head.stash.isNone && head.holder == host then
      some ⟨volume, host, fence, head.manifest, some (initialStash local'.1 local'.2),
        head.retiredStashes⟩
    else none
  | replicaRecoveryClaim claimant exported =>
    some (prepareReplicaRecoveryClaim head claimant exported)
  | replicaPublication claimant writerFence exported manifest =>
    some (replicaPublicationHead volume claimant writerFence head exported manifest)

/-- One operation, and the version that the store gives to its head. -/
def step (volume : VolumeId) (current : Option (UInt64 × HeadRecord)) (a : HeadOp × UInt64) :
    Option (Option (UInt64 × HeadRecord)) :=
  match current, a.1 with
  | none, create host stash =>
    some (some (a.2, newHead volume host (stash.map fun s => initialStash s.1 s.2)))
  | none, _ => none
  | some (version, head), op => (op.onHead volume version head).map fun head => some (a.2, head)

end HeadOp

/-! ## What the operations keep -/

namespace HeadRecord

/-- A valid head that has room for the passive that a pending transition will retire. -/
structure Sound (volume : VolumeId) (h : HeadRecord) : Prop where
  volume : h.volume = volume
  valid : h.Valid
  room : ∀ s ∈ h.stash, s.transitionPeer.isSome → h.retiredStashes.length < maxRetiredStashes

variable {volume : VolumeId} {h : HeadRecord}

/-- Without a transition a head is sound as soon as its passive and its history are valid. -/
theorem Sound.settled {host : HostId} {fence : UInt64} {manifest : Option ManifestPtr}
    {stash : Option StashAssignment} {retired : List RetiredStash}
    (hstash : ∀ s ∈ stash, s.transitionPeer = none ∧ s.activeAssignmentEpoch = s.assignmentEpoch)
    (hlen : retired.length ≤ maxRetiredStashes) :
    Sound volume ⟨volume, host, fence, manifest, stash, retired⟩ := by
  refine ⟨rfl, ⟨fun s hs => ⟨?_, fun _ => (hstash s hs).2⟩, hlen⟩, fun s hs hsome => ?_⟩
  · rw [(hstash s hs).1]
    exact Option.some_ne_none _ |>.symm
  · rw [(hstash s hs).1] at hsome
    nomatch hsome

/-- The same assignments under another holder, fence or manifest. -/
theorem Sound.withAssignments (hs : h.Sound volume) (host : HostId) (fence : UInt64)
    (manifest : Option ManifestPtr) :
    Sound volume ⟨volume, host, fence, manifest, h.stash, h.retiredStashes⟩ :=
  ⟨rfl, hs.valid, hs.room⟩

theorem Sound.initial {host : HostId} {fence : UInt64} {manifest : Option ManifestPtr}
    {retired : List RetiredStash} (passive : HostId × UInt64)
    (hlen : retired.length ≤ maxRetiredStashes) :
    Sound volume
      ⟨volume, host, fence, manifest, some (initialStash passive.1 passive.2), retired⟩ := by
  refine Sound.settled (fun s hs => ?_) hlen
  obtain rfl := Option.some.inj hs
  exact ⟨rfl, rfl⟩

/-- A transition is proposed to another peer, and only while there is room. -/
theorem Sound.transition (hs : h.Sound volume) {version : UInt64} {candidates : List HostId}
    {assignment : StashAssignment}
    (hp : transitionProposal (h.cache version) candidates = some assignment) :
    Sound volume
      ((HeadTask.casAssignment assignment h.retiredStashes).head volume h.holder
        (h.cache version)) := by
  rw [transitionProposal] at hp
  split at hp
  case isTrue => cases hp
  case isFalse hroom =>
    have hlt : h.retiredStashes.length < maxRetiredStashes := Nat.lt_of_not_le hroom
    obtain ⟨current, hcurrent, hp⟩ := bind_eq_some.mp hp
    have hvalid := hs.valid.1 current hcurrent
    have hassignment : assignment.Valid := by
      split at hp
      case isTrue => exact Option.some.inj hp ▸ hvalid
      case isFalse =>
        obtain ⟨next, hnext, rfl⟩ := Option.map_eq_some_iff.mp hp
        have hother := (nextCandidate_spec hnext).2.1
        exact ⟨fun heq => hother (Option.some.inj heq), by rintro ⟨⟩⟩
    refine ⟨rfl, ⟨fun s hmem => ?_, hlt.le⟩, fun _ _ _ => hlt⟩
    obtain rfl := Option.some.inj hmem
    exact hassignment

/-- An activation ends the transition, and the room it needs for the former peer was kept. -/
theorem Sound.activation (hs : h.Sound volume) {version assignmentEpoch : UInt64} {target : HostId}
    {info : ReplicaCommitInfo} {proposal : StashAssignment × List RetiredStash}
    (hp : activationProposal (h.cache version) target assignmentEpoch info = some proposal) :
    Sound volume
      ((HeadTask.casAssignment proposal.1 proposal.2).head volume h.holder (h.cache version)) := by
  obtain ⟨current, hcurrent, hp⟩ := bind_eq_some.mp hp
  split at hp
  case isTrue => nomatch hp
  case isFalse hok =>
    obtain ⟨-, htarget⟩ := not_or.mp hok
    have htarget : current.transitionPeer = some target := not_ne_iff.mp htarget
    have hroom := hs.room current hcurrent (by rw [htarget]; rfl)
    obtain rfl := Option.some.inj hp
    refine Sound.settled (fun s hmem => ?_) ?_
    · obtain rfl := Option.some.inj hmem
      exact ⟨rfl, rfl⟩
    · show (ite _ _ _ : List RetiredStash).length ≤ _
      split
      · exact hs.valid.2
      · rw [List.length_append]
        exact hroom

end HeadRecord

/-- **Every operation keeps a head sound.** -/
theorem HeadOp.sound_onHead {volume : VolumeId} {version : UInt64} {h h' : HeadRecord} {op : HeadOp}
    (hs : h.Sound volume) (hop : op.onHead volume version h = some h') : h'.Sound volume := by
  cases op with
  | create => nomatch hop
  | transitionStash candidates =>
    obtain ⟨assignment, hp, rfl⟩ := Option.map_eq_some_iff.mp hop
    exact hs.transition hp
  | activateStash target assignmentEpoch info =>
    obtain ⟨proposal, hp, rfl⟩ := Option.map_eq_some_iff.mp hop
    exact hs.activation hp
  | removeRetiredStash retired =>
    obtain ⟨-, hop⟩ := Option.ite_none_right_eq_some.mp hop
    obtain rfl := Option.some.inj hop
    have hle := List.length_filter_le (fun r => decide (r ≠ retired)) h.retiredStashes
    exact ⟨rfl, ⟨hs.valid.1, hle.trans hs.valid.2⟩,
      fun s hmem hsome => hle.trans_lt (hs.room s hmem hsome)⟩
  | publishHead pointer =>
    obtain rfl := Option.some.inj hop
    exact hs.withAssignments _ _ _
  | claimRestore host =>
    obtain ⟨-, hop⟩ := Option.ite_none_left_eq_some.mp hop
    obtain ⟨pointer, -, rfl⟩ := Option.map_eq_some_iff.mp hop
    exact hs.withAssignments _ _ _
  | claimMigratedHead host source offeredFence passive =>
    simp only [onHead, migrationClaim, Option.ite_none_left_eq_some] at hop
    obtain ⟨-, -, hop⟩ := hop
    split at hop
    case isTrue =>
      obtain rfl := Option.some.inj hop
      rcases hstash : h.stash with _ | s
      · exact HeadRecord.Sound.initial passive hs.valid.2
      · have hkept := hs.withAssignments host 0 h.manifest
        rwa [hstash] at hkept
    case isFalse =>
      obtain rfl := Option.some.inj hop
      exact HeadRecord.Sound.initial passive (Nat.zero_le _)
  | finalize fence =>
    obtain rfl := Option.some.inj hop
    exact ⟨hs.volume, hs.valid, hs.room⟩
  | upgrade host fence passive =>
    obtain ⟨-, hop⟩ := Option.ite_none_right_eq_some.mp hop
    obtain rfl := Option.some.inj hop
    exact HeadRecord.Sound.initial passive hs.valid.2
  | replicaRecoveryClaim claimant exported =>
    obtain rfl := Option.some.inj hop
    rw [prepareReplicaRecoveryClaim]
    split
    · obtain rfl := hs.volume
      refine HeadRecord.Sound.settled (fun s hmem => ?_) (Nat.zero_le _)
      obtain rfl := Option.some.inj hmem
      exact ⟨rfl, rfl⟩
    · exact ⟨hs.volume, hs.valid, hs.room⟩
  | replicaPublication claimant writerFence exported manifest =>
    obtain rfl := Option.some.inj hop
    exact HeadRecord.Sound.settled (fun s hmem => nomatch hmem) (Nat.le_add_left 1 7)

theorem HeadOp.sound_step {volume : VolumeId} {s t : Option (UInt64 × HeadRecord)}
    {a : HeadOp × UInt64} (hs : ∀ e ∈ s, e.2.Sound volume) (hstep : HeadOp.step volume s a = some t) :
    ∀ e ∈ t, e.2.Sound volume := by
  rcases s with _ | ⟨version, h⟩
  · rcases a with ⟨op, version⟩
    cases op with
    | create host stash =>
      obtain rfl := Option.some.inj hstep
      intro e he
      obtain rfl := Option.some.inj he
      refine HeadRecord.Sound.settled (fun s hmem => ?_) (Nat.zero_le _)
      obtain ⟨passive, -, rfl⟩ := Option.map_eq_some_iff.mp hmem
      exact ⟨rfl, rfl⟩
    | _ => nomatch hstep
  · obtain ⟨h', hop, rfl⟩ := Option.map_eq_some_iff.mp hstep
    intro e he
    obtain rfl := Option.some.inj he
    exact sound_onHead (hs _ rfl) hop

/-! ## What is written decodes -/

/-- **Every head that is written decodes to itself**, whatever operations came before it and
wherever they started, and no bytes but its own decode to a head. -/
theorem written_head_decodes (volume : VolumeId) (start : Option (UInt64 × HeadRecord))
    (hstart : ∀ e ∈ start, e.2.Sound volume) (steps : List (HeadOp × UInt64))
    {final : Option (UInt64 × HeadRecord)}
    (hrun : Run.run (HeadOp.step volume) start steps = some final) :
    (∀ e ∈ final, ∃ bytes, e.2.encode = some bytes ∧
      HeadRecord.decode volume bytes = some e.2) ∧
    ∀ bytes h, HeadRecord.decode volume bytes = some h → h.encode = some bytes := by
  have hinv : ∀ e ∈ final, e.2.Sound volume :=
    Run.run_invariant_of_step (fun _ _ _ hs hstep => HeadOp.sound_step hs hstep) hstart hrun
  refine ⟨fun e he => ?_, fun bytes h hd => (HeadRecord.decode_eq_some.mp hd).1⟩
  have hs := hinv e he
  obtain ⟨bytes, hbytes⟩ := HeadRecord.exists_encode hs.valid
  exact ⟨bytes, hbytes, HeadRecord.decode_eq_some.mpr ⟨hbytes, hs.volume, hs.valid⟩⟩

/-- Volume 7 from its creation on host 1: host 3 takes over from host 2 as its passive and host 2 is
released, a manifest is published, host 4 recovers the volume from host 3. -/
def replacedAndRecovered : List (HeadOp × UInt64) :=
  let info : ReplicaCommitInfo := ⟨1, 1, 1⟩
  [(.create 1 (some (2, 0)), 1), (.transitionStash [2, 3], 2), (.activateStash 3 2 info, 3),
    (.removeRetiredStash ⟨2, 1, info⟩, 4), (.publishHead ⟨1, 1, 1, 1, 9⟩, 5),
    (.replicaRecoveryClaim 4 ⟨3, 2, info, 1, []⟩, 6)]

theorem written_head_decodes_recovered : ∃ final,
    Run.run (HeadOp.step 7) none replacedAndRecovered = some (some final) ∧ final.2.holder = 4 ∧
    (∃ bytes, final.2.encode = some bytes ∧ HeadRecord.decode 7 bytes = some final.2) ∧
    ∀ bytes h, HeadRecord.decode 7 bytes = some h → h.encode = some bytes := by
  have hrun : Run.run (HeadOp.step 7) none replacedAndRecovered =
      some (some (6, ⟨7, 4, 0, some ⟨1, 1, 1, 1, 9⟩, some (⟨2, 3, 2, none, 0⟩), []⟩)) := by decide
  obtain ⟨hfinal, hcanonical⟩ :=
    written_head_decodes 7 none (fun e he => nomatch he) replacedAndRecovered hrun
  exact ⟨_, hrun, rfl, hfinal _ rfl, hcanonical⟩

/-- A head with a pending transition and eight retired passives. -/
def fullHead : HeadRecord :=
  ⟨7, 1, 1, none, some ⟨10, 2, 9, some 3, 0⟩,
    (List.range 8).map fun i => ⟨2, UInt64.ofNat i, ⟨1, 1, 1⟩⟩⟩

/-- **Not every valid head will do.**  The activation of a transition adds the former peer to a
history that is full already. -/
theorem not_written_head_decodes : ¬ ∀ (volume : VolumeId) (start : Option (UInt64 × HeadRecord)),
    (∀ e ∈ start, e.2.volume = volume ∧ e.2.Valid) → ∀ (steps : List (HeadOp × UInt64)) final,
      Run.run (HeadOp.step volume) start steps = some final →
      ∀ e ∈ final, ∃ bytes, e.2.encode = some bytes ∧
        HeadRecord.decode volume bytes = some e.2 := by
  intro hall
  have hvalid : ∀ e ∈ some ((1 : UInt64), fullHead), e.2.volume = 7 ∧ e.2.Valid := by
    intro e he
    obtain rfl := Option.some.inj he
    refine ⟨rfl, fun s hs => ?_, by decide⟩
    obtain rfl := Option.some.inj hs
    decide
  have hrun : Run.run (HeadOp.step 7) (some (1, fullHead)) [(.activateStash 3 10 ⟨1, 1, 1⟩, 2)] =
      some (some (2, { fullHead with
        stash := some ⟨10, 3, 10, none, 0⟩
        retiredStashes := fullHead.retiredStashes ++ [⟨2, 9, ⟨1, 1, 1⟩⟩] })) := by decide
  obtain ⟨bytes, hbytes, -⟩ := hall 7 _ hvalid _ _ hrun _ rfl
  nomatch hbytes

end Blockd
