import Blockd.Engine.HeadOperations
import Blockd.ReplicaExport

/-!
# Whose spool may be recovered from

An export accepts the residues that the head names, by peer and epoch, and beside them a residue of a
later epoch that the holder wrote in its current tenure: the trace of a replacement whose head could
not be written.  The tenure is the writer's fence, which every later head keeps.  The check compares
the fence of the residue's last commit with the *version* of the head, and every write of the head
changes that.  So the check is right for a head that is still as it was claimed, and for no other
(`export_authorization`): after the first publication or change of the passive such a residue is
refused.
-/

set_option autoImplicit false

open Codec Fallible
open Std (ExtTreeMap)

namespace Blockd

variable [Platform]

/-! ## What the check accepts -/

/-- The active, the pending or a retired passive of the head, with its epoch. -/
def NamedBy (head : HeadRecord) (assignment : StashAssignment) (peer : HostId) (epoch : UInt64) :
    Prop :=
  (peer = assignment.activePeer ∧ epoch = assignment.activeAssignmentEpoch) ∨
  (assignment.transitionPeer = some peer ∧ epoch = assignment.assignmentEpoch) ∨
  ∃ retired ∈ head.retiredStashes, retired.peer = peer ∧ retired.assignmentEpoch = epoch

/-- The spool of the residue can be read, and all of it is of this source and volume. -/
structure Intact (source : HostId) (volume : VolumeId) (residue : ReplicaResidue)
    (scan : ReplicaSpoolScan) : Prop where
  scans : scanReplicaSpool residue.bytes = some scan
  identity : verifyScanIdentity source volume residue scan = true

/-- The last commit of the spool was written at this fence. -/
def LastWrittenAt (scan : ReplicaSpoolScan) (fence : UInt64) : Prop :=
  ∃ commit, scan.commits.getLast? = some commit ∧ commit.info.writerFence = fence

section

variable {source : HostId} {volume : VolumeId} {headVersion : UInt64} {head : HeadRecord}
  {assignment : StashAssignment} {residue : ReplicaResidue} {scan : ReplicaSpoolScan}

omit [Platform] in
theorem mem_allowedReplicaEpochs {peer : HostId} {epoch : UInt64} :
    (peer, epoch) ∈ allowedReplicaEpochs head assignment ↔ NamedBy head assignment peer epoch := by
  simp only [allowedReplicaEpochs, List.mem_cons, Prod.mk.injEq, List.mem_append, List.mem_map,
    Option.mem_toList, NamedBy]
  refine or_congr_right (or_congr ?_ Iff.rfl)
  constructor
  · rintro ⟨peer, hpeer, rfl, hepoch⟩
    exact ⟨hpeer, hepoch.symm⟩
  · rintro ⟨hpeer, hepoch⟩
    exact ⟨_, hpeer, rfl, hepoch.symm⟩

omit [Platform] in
theorem residueNamed_iff : residueNamed head assignment residue = true ↔
    NamedBy head assignment residue.peer residue.assignmentEpoch := by
  rw [residueNamed, List.contains_eq_mem, decide_eq_true_eq, mem_allowedReplicaEpochs]

/-- A commit of a spool of the volume carries the record it announces. -/
theorem Intact.record_of_commit (h : Intact source volume residue scan)
    {commit : ReplicaCommitFrame} (hcommit : commit ∈ scan.commits) :
    ∃ record, JournalRecord.decode volume commit.record = some record ∧
      record.commitInfo = commit.info := by
  have hidentity := h.identity
  simp only [verifyScanIdentity, Bool.and_eq_true, List.all_eq_true, beq_iff_eq] at hidentity
  have hverify : verifyRecord commit.owner.volume commit.info commit.record = true :=
    commitsOk_of_scan h.scans _ hcommit
  rw [hidentity.2 commit hcommit, verifyRecord] at hverify
  cases hdecode : JournalRecord.decode volume commit.record with
  | none => simp [hdecode] at hverify
  | some record =>
    simp only [hdecode, beq_iff_eq] at hverify
    exact ⟨record, rfl, hverify⟩

/-- **What the check accepts**: what the head names, and what its holder wrote at this version. -/
theorem Intact.accepted_iff (h : Intact source volume residue scan) :
    (∃ found, checkResidue source volume headVersion head assignment residue = .ok found) ↔
      NamedBy head assignment residue.peer residue.assignmentEpoch ∨
        assignment.assignmentEpoch < residue.assignmentEpoch ∧ head.holder = source ∧
          LastWrittenAt scan headVersion := by
  simp only [← residueNamed_iff, checkResidue, bind_eq_ok, ensureOr_eq_ok, okOr_eq_ok, h.scans,
    Option.some.injEq, exists_const, exists_eq_left', h.identity, true_and]
  match hlast : scan.commits.getLast? with
  | none =>
    have hnone : ¬ LastWrittenAt scan headVersion := fun ⟨_, h, _⟩ => nomatch hlast.symm.trans h
    simp only [bind_eq_ok, ensureOr_eq_ok, exists_const, pure_eq_ok, exists_and_left,
      exists_eq', and_true, hnone, and_false, or_false]
    exact ⟨And.right, fun h => ⟨.inl h, h⟩⟩
  | some commit =>
    obtain ⟨record, hrecord, hinfo⟩ :=
      h.record_of_commit (List.mem_of_getLast? hlast)
    have hwritten : writtenAtVersion source headVersion head commit record = true ↔
        head.holder = source ∧ LastWrittenAt scan headVersion := by
      simp only [writtenAtVersion, ← hinfo, JournalRecord.commitInfo, Bool.and_eq_true, beq_iff_eq,
        and_true, LastWrittenAt, hlast, Option.some.injEq, exists_eq_left', and_assoc, and_self]
    simp only [hrecord, Option.some.injEq, bind_eq_ok, okOr_eq_ok, ensureOr_eq_ok, exists_const,
      exists_eq_left', pure_eq_ok, exists_and_left, exists_eq', and_true, hwritten]
    tauto

end

/-! ## What should be accepted -/

/-- What the head names, and what its holder wrote for a later epoch in its current tenure. -/
def Authorized (source : HostId) (version : UInt64) (head : HeadRecord)
    (assignment : StashAssignment) (residue : ReplicaResidue) (scan : ReplicaSpoolScan) : Prop :=
  NamedBy head assignment residue.peer residue.assignmentEpoch ∨
    assignment.assignmentEpoch < residue.assignmentEpoch ∧ head.holder = source ∧
      LastWrittenAt scan (head.effectiveFence version)

omit [Platform] in
/-- A head names too few peers to name all of them at an epoch. -/
theorem exists_unnamed {head : HeadRecord} (hlen : head.retiredStashes.length ≤ maxRetiredStashes)
    (assignment : StashAssignment) (epoch : UInt64) :
    ∃ peer, ¬ NamedBy head assignment peer epoch := by
  by_contra hall
  have hsub : (List.range 11).map UInt32.ofNat ⊆
      (allowedReplicaEpochs head assignment).map Prod.fst := fun peer _ =>
    List.mem_map_of_mem (mem_allowedReplicaEpochs.mpr (not_not.mp (not_exists.mp hall peer)))
  have hle := (List.subperm_of_subset (by decide) hsub).length_le
  have htransition : assignment.transitionPeer.toList.length ≤ 1 := by
    cases assignment.transitionPeer <;> simp
  simp only [List.length_map, List.length_range, allowedReplicaEpochs, List.length_cons,
    List.length_append, maxRetiredStashes] at hle hlen
  omega

variable {volume : VolumeId} {version : UInt64} {head : HeadRecord} {assignment : StashAssignment}

theorem intact_bareResidue (source peer : HostId) (volume : VolumeId) (epoch fence seq : UInt64) :
    Intact source volume (bareResidue source peer volume epoch fence seq)
      (BareCut.scan ⟨source, volume, epoch⟩ [⟨fence, seq, 0, 0⟩]) :=
  ⟨scan_cutResidue (List.pairwise_singleton _ _), verifyScanIdentity_cuts ..⟩

theorem lastWrittenAt_bare {key : ReplicaKey} {c : BareCut} {fence' : UInt64} :
    LastWrittenAt (BareCut.scan key [c]) fence' ↔ c.fence = fence' := by
  simp [LastWrittenAt, BareCut.scan, BareCut.toCommit, BareCut.info]

/-- A later epoch than the head's that the holder wrote at the fence `fence`, on a peer that the head
does not name: it is accepted where the fence is the version. -/
theorem exists_later_residue (volume : VolumeId) (version : UInt64)
    (hlen : head.retiredStashes.length ≤ maxRetiredStashes)
    {epoch : UInt64} (hepoch : assignment.assignmentEpoch < epoch) (fence : UInt64) :
    ∃ residue scan, Intact head.holder volume residue scan ∧
      (Authorized head.holder version head assignment residue scan ↔
        fence = head.effectiveFence version) ∧
      ((∃ found, checkResidue head.holder volume version head assignment residue = .ok found) ↔
        fence = version) := by
  obtain ⟨peer, hpeer⟩ := exists_unnamed hlen assignment epoch
  have hintact := intact_bareResidue head.holder peer volume epoch fence 1
  refine ⟨_, _, hintact, ?_, ?_⟩
  · simp only [Authorized, lastWrittenAt_bare, bareResidue, cutResidue, hpeer, hepoch, true_and, false_or]
  · rw [hintact.accepted_iff, lastWrittenAt_bare]
    simp only [bareResidue, cutResidue, hpeer, hepoch, true_and, false_or]

/-- **The check follows the fence exactly while the fence is the version.**  Whatever operations made
the head, the intact residues that are accepted under an assignment are the authorized ones if and
only if the head still has the version it was claimed at, or no epoch is later than the assignment's. -/
theorem export_authorization (steps : List (HeadOp × UInt64))
    (hrun : Run.run (HeadOp.step volume) none steps = some (some (version, head))) :
    (∀ source residue scan, Intact source volume residue scan →
      ((∃ found, checkResidue source volume version head assignment residue = .ok found) ↔
        Authorized source version head assignment residue scan)) ↔
    head.effectiveFence version = version ∨ ∀ epoch, epoch ≤ assignment.assignmentEpoch := by
  have hstart : ∀ e ∈ (none : Option (UInt64 × HeadRecord)), e.2.Sound volume :=
    fun e he => nomatch he
  have hsound : ∀ e ∈ some (version, head), e.2.Sound volume :=
    Run.run_invariant_of_step (fun _ _ _ hs hstep => HeadOp.sound_step hs hstep) hstart hrun
  have hlen := (hsound _ rfl).valid.2
  constructor
  · intro hall
    by_contra hnot
    obtain ⟨hfence, hepoch⟩ := not_or.mp hnot
    obtain ⟨epoch, hepoch⟩ := not_forall.mp hepoch
    obtain ⟨residue, scan, hintact, hauthorized, haccepted⟩ :=
      exists_later_residue volume version hlen
        (UInt64.not_le.mp hepoch) (head.effectiveFence version)
    exact hfence (haccepted.mp ((hall _ _ _ hintact).mpr (hauthorized.mpr rfl)))
  · intro hwhen source residue scan hintact
    rw [hintact.accepted_iff, Authorized]
    rcases hwhen with hfence | hepoch
    · rw [hfence]
    · have hnone : ¬ assignment.assignmentEpoch < residue.assignmentEpoch :=
        UInt64.not_lt.mpr (hepoch _)
      simp only [hnone, false_and, or_false]

omit [Platform]

/-- Volume 7 is created on host 1 with its passive on host 2. -/
def createdHead (fence : UInt64) (manifest : Option ManifestPtr) : HeadRecord :=
  ⟨7, 1, fence, manifest, some (initialStash 2 0), []⟩

/-- Volume 7 once host 3 has claimed it from host 1, after two publications. -/
def claimedAgain : HeadRecord := ⟨7, 3, 0, some ⟨1, 2, 2, 2, 9⟩, some (initialStash 4 0), []⟩

theorem export_authorization_claimed : letI := storedPlatform
    let steps := [(.create 1 (some (2, 0)), 1), (.publishHead ⟨1, 1, 1, 1, 8⟩, 2),
      (.publishHead ⟨1, 2, 2, 2, 9⟩, 3), (.claimMigratedHead 3 1 1 (4, 0), 4)]
    Run.run (HeadOp.step 7) none steps = some (some (4, claimedAgain)) ∧
    ∀ source residue scan, Intact source 7 residue scan →
      ((∃ found, checkResidue source 7 4 claimedAgain (initialStash 4 0) residue = .ok found) ↔
        Authorized source 4 claimedAgain (initialStash 4 0) residue scan) := by
  let _ := storedPlatform
  have hrun : Run.run (HeadOp.step 7) none [(.create 1 (some (2, 0)), 1),
      (.publishHead ⟨1, 1, 1, 1, 8⟩, 2), (.publishHead ⟨1, 2, 2, 2, 9⟩, 3),
      (.claimMigratedHead 3 1 1 (4, 0), 4)] = some (some (4, claimedAgain)) := by decide
  exact ⟨hrun, (export_authorization _ hrun).mpr (.inl rfl)⟩

/-- **After the first publication the holder's own later spool is refused.**  Host 3 has a commit of
the running tenure at a later epoch than the head names. -/
theorem not_export_authorization :
    ¬ ∀ [Platform] (volume : VolumeId) (steps : List (HeadOp × UInt64)) (version : UInt64)
      (head : HeadRecord) (assignment : StashAssignment),
      Run.run (HeadOp.step volume) none steps = some (some (version, head)) →
      head.stash = some assignment →
      ∀ source residue scan, Intact source volume residue scan →
        ((∃ found, checkResidue source volume version head assignment residue = .ok found) ↔
          Authorized source version head assignment residue scan) := by
  intro hall
  let _ := storedPlatform
  let head := createdHead 1 (some ⟨1, 1, 1, 1, 9⟩)
  have hrun : Run.run (HeadOp.step 7) none
      [(.create 1 (some (2, 0)), 1), (.publishHead ⟨1, 1, 1, 1, 9⟩, 2)] =
      some (some (2, head)) := by decide
  have hepoch : (initialStash 2 0).assignmentEpoch < 2 := by decide
  obtain ⟨residue, scan, hintact, hauthorized, haccepted⟩ :=
    exists_later_residue 7 2 (show head.retiredStashes.length ≤ _ from Nat.zero_le _) hepoch 1
  have hclaim := hall 7 _ 2 head _ hrun rfl _ _ _ hintact
  exact absurd (haccepted.mp (hclaim.mpr (hauthorized.mpr rfl))) (by decide)

end Blockd
