import Mathlib
import Blockd.Layout
import Blockd.Lib.Fallible
import Blockd.Lib.Newest
import Blockd.ReplicaSpool

/-!
# Recovery of a lost primary from its passives

`replica_recovery.rs`: the spools that the peers of a lost primary have left (its residues) are
checked against the volume's head, the newest committed cut among them is chosen and compared with
the archive, and its record and files are exported under the names of local blobs.  Claiming the
head for a new host and publishing the cut are separate operations; what they do to the head is here
too.
-/

set_option autoImplicit false

open Codec Fallible
open Std (ExtTreeMap)

namespace Blockd

/-! ## Data -/

/-- What a peer has kept for a lost primary: the bytes of a spool. -/
structure ReplicaResidue where
  source : HostId
  peer : HostId
  assignmentEpoch : UInt64
  bytes : Bytes
  deriving DecidableEq, Repr

structure ReplicaExport where
  sourcePeer : HostId
  assignmentEpoch : UInt64
  info : ReplicaCommitInfo
  syncCoveredThrough : UInt64
  /-- Local blobs for a recovery root. -/
  blobs : List (Name × Bytes)
  deriving DecidableEq, Repr

inductive ReplicaRecoveryError where
  | noAssignment
  | unnamedPeer (peer : HostId)
  | staleAssignment (peer : HostId) (assignmentEpoch : UInt64)
  | corruptSpool (peer : HostId)
  | noCommit
  | storeRecoveryPointNewer
  | missingObject (key : Name)
  | corruptObject (key : Name)
  deriving DecidableEq, Repr

/-- The objects of the store that the caller has fetched. -/
abbrev StoreObjects := Name → Option Bytes

/-! ## Choosing a residue -/

variable [Platform]

/-- The peers and epochs that a head names. -/
def allowedReplicaEpochs (head : HeadRecord) (assignment : StashAssignment) :
    List (HostId × UInt64) :=
  (assignment.activePeer, assignment.activeAssignmentEpoch) ::
    ((assignment.transitionPeer.toList.map fun peer => (peer, assignment.assignmentEpoch)) ++
      head.retiredStashes.map fun retired => (retired.peer, retired.assignmentEpoch))

/-- Every frame of the spool names the source, the volume and the epoch of the residue. -/
def verifyScanIdentity (source : HostId) (volume : VolumeId) (residue : ReplicaResidue)
    (scan : ReplicaSpoolScan) : Bool :=
  let owner : ReplicaKey := ⟨residue.source, volume, residue.assignmentEpoch⟩
  residue.source == source && (scan.artifacts.toList.all fun entry => entry.2.owner == owner) &&
    scan.commits.all fun commit => commit.owner == owner

/-- A residue with the commit it is considered for. -/
structure RecoveryCandidate where
  residue : ReplicaResidue
  scan : ReplicaSpoolScan
  commit : ReplicaCommitFrame
  record : JournalRecord

/-- How far a recovery point reaches: the syncs it covers, then the captured mutation, then a
sequence number. -/
def recoveryRank (syncCoveredThrough captureSeq seq : UInt64) : Nat ×ₗ Nat ×ₗ Nat :=
  toLex (syncCoveredThrough.toNat, toLex (captureSeq.toNat, seq.toNat))

namespace RecoveryCandidate

def rank (c : RecoveryCandidate) : Nat ×ₗ Nat ×ₗ Nat :=
  recoveryRank c.commit.info.syncCoveredThrough c.record.captureSeq c.commit.info.seq

end RecoveryCandidate

/-- The head names the residue's peer with its epoch. -/
def residueNamed (head : HeadRecord) (assignment : StashAssignment) (residue : ReplicaResidue) :
    Bool :=
  (allowedReplicaEpochs head assignment).contains (residue.peer, residue.assignmentEpoch)

/-- The commit was written by the holder, at this version of the head. -/
def writtenAtVersion (source : HostId) (headVersion : UInt64) (head : HeadRecord)
    (commit : ReplicaCommitFrame) (record : JournalRecord) : Bool :=
  head.holder == source && commit.info.writerFence == headVersion && record.fence == headVersion &&
    record.seq == commit.info.seq && record.syncCoveredThrough == commit.info.syncCoveredThrough

/-- One residue: refused, without a commit, or a candidate with the last commit of its spool.  A
residue that the head does not name has to be of a later epoch and to have been written by the
holder at this version of the head. -/
def checkResidue (source : HostId) (volume : VolumeId) (headVersion : UInt64) (head : HeadRecord)
    (assignment : StashAssignment) (residue : ReplicaResidue) :
    Except ReplicaRecoveryError (Option RecoveryCandidate) := do
  let named := residueNamed head assignment residue
  let stale := ReplicaRecoveryError.staleAssignment residue.peer residue.assignmentEpoch
  ensureOr (named ∨ assignment.assignmentEpoch < residue.assignmentEpoch)
    (if ((allowedReplicaEpochs head assignment).map Prod.fst).contains residue.peer then stale
      else .unnamedPeer residue.peer)
  let scan ← okOr (scanReplicaSpool residue.bytes) (.corruptSpool residue.peer)
  ensureOr (verifyScanIdentity source volume residue scan = true) (.corruptSpool residue.peer)
  match scan.commits.getLast? with
  | some commit =>
    let record ← okOr (JournalRecord.decode volume commit.record) (.corruptSpool residue.peer)
    ensureOr (named ∨ writtenAtVersion source headVersion head commit record) stale
    return some ⟨residue, scan, commit, record⟩
  | none =>
    ensureOr named stale
    return none

/-- The candidate of the greatest rank; candidates are sorted by it and the last one is taken. -/
def newestCandidate (source : HostId) (volume : VolumeId) (headVersion : UInt64)
    (head : HeadRecord) (residues : List ReplicaResidue) :
    Except ReplicaRecoveryError RecoveryCandidate := do
  let assignment ← okOr head.stash .noAssignment
  let found ← residues.mapM (checkResidue source volume headVersion head assignment)
  okOr (Newest.pick RecoveryCandidate.rank found.reduceOption) .noCommit

/-! ## The archive -/

/-- The manifest that a pointer names, checked against it. -/
def storeRecord (volume : VolumeId) (ptr : ManifestPtr) (storeObjects : StoreObjects) :
    Except ReplicaRecoveryError Manifest := do
  let key := ptr.manifestKey volume
  let bytes ← okOr (storeObjects key) (.missingObject key)
  ensureOr (checksum64 bytes = ptr.checksum) (.corruptObject key)
  let record ← okOr (Manifest.decode volume bytes) (.corruptObject key)
  ensureOr ((record.writerFence, record.archiveSeq, record.captureSeq) =
    (ptr.fence, ptr.seq, ptr.captureSeq)) (.corruptObject key)
  return record

/-- What a manifest is ranked by: the number of its publication in the last place. -/
def Manifest.storeRank (m : Manifest) : Nat ×ₗ Nat ×ₗ Nat :=
  recoveryRank m.syncCoveredThrough m.captureSeq m.archiveSeq

/-- The archive must not be ahead of what the peers have. -/
def compareWithStore (volume : VolumeId) (head : HeadRecord) (best : RecoveryCandidate)
    (storeObjects : StoreObjects) : Except ReplicaRecoveryError Unit := do
  match head.manifest with
  | none => return ()
  | some ptr =>
    let record ← storeRecord volume ptr storeObjects
    ensureOr (¬ best.rank < record.storeRank) .storeRecoveryPointNewer

/-! ## The export -/

/-- The files of a record that are the volume's own, in the order of their identities. -/
def neededBlxFiles (volume : VolumeId) (record : JournalRecord) : List ObjectIdentity :=
  ((record.files.filter fun file =>
    file.identity.namespaceKind == .volume && file.identity.namespaceId == volume).map
      ObjectRef.identity).toFinset.sort (· ≤ ·)

/-- The bytes of a file, from the spool or from the store. -/
def artifactBytes (scan : ReplicaSpoolScan) (artifact : ReplicaArtifact) (storeKey : Name)
    (storeObjects : StoreObjects) : Except ReplicaRecoveryError Bytes :=
  okOr ((scan.artifacts[artifact]?.map ReplicaArtifactFrame.bytes).or (storeObjects storeKey))
    (.missingObject storeKey)

/-- One file of the export, with its name. -/
def exportFile (volume : VolumeId) (scan : ReplicaSpoolScan) (storeObjects : StoreObjects)
    (identity : ObjectIdentity) : Except ReplicaRecoveryError (Name × Bytes) := do
  let key := blxKey volume identity.writerFence identity.objectId
  let bytes ← artifactBytes scan (.blx identity.writerFence identity.objectId) key storeObjects
  ensureOr (verifyArtifact volume (.blx identity.writerFence identity.objectId) bytes = true)
    (.corruptObject key)
  return (blxBlob volume identity.writerFence identity.objectId, bytes)

/-- Blobs in the order of their names. -/
abbrev BlobMap := ExtTreeMap Name Bytes (@compare Name LinearOrder.toOrd)

def exportCommit (volume : VolumeId) (best : RecoveryCandidate) (storeObjects : StoreObjects) :
    Except ReplicaRecoveryError ReplicaExport := do
  let record := best.record
  let files ← (neededBlxFiles volume record).mapM (exportFile volume best.scan storeObjects)
  let blobs := files.foldl (fun blobs file => blobs.insert file.1 file.2) (∅ : BlobMap)
  let blobs := blobs.insert (journalBlob volume record.fence record.seq) best.commit.record
  let blobs := blobs.insert (journalMirrorBlob volume record.fence record.seq) best.commit.record
  return ⟨best.residue.peer, best.residue.assignmentEpoch, best.commit.info,
    best.commit.info.syncCoveredThrough, blobs.toList⟩

/-- Verify and export the newest committed residue. -/
def exportReplicaRecovery (source : HostId) (volume : VolumeId) (headVersion : UInt64)
    (head : HeadRecord) (residues : List ReplicaResidue) (storeObjects : StoreObjects) :
    Except ReplicaRecoveryError ReplicaExport := do
  let best ← newestCandidate source volume headVersion head residues
  compareWithStore volume head best storeObjects
  exportCommit volume best storeObjects

/-! ## The head -/

omit [Platform]

/-- The head with which a host claims the volume of an export.  Its fence is the version that the
claim will create. -/
def prepareReplicaRecoveryClaim (observed : HeadRecord) (claimant : HostId)
    (export' : ReplicaExport) : HeadRecord :=
  match observed.stash with
  | some assignment =>
    { observed with
      holder := claimant
      fence := 0
      stash := some
        { assignmentEpoch := export'.assignmentEpoch
          activePeer := export'.sourcePeer
          activeAssignmentEpoch := export'.assignmentEpoch
          transitionPeer := none
          membershipEpoch := assignment.membershipEpoch }
      retiredStashes := [] }
  | none => { observed with holder := claimant, fence := 0 }

/-- The head that `prepare_replica_publication` makes of the claimed one, for the manifest it has
built from the export. -/
def replicaPublicationHead (volume : VolumeId) (claimant : HostId) (writerFence : UInt64)
    (claimed : HeadRecord) (export' : ReplicaExport) (manifest : ManifestPtr) : HeadRecord :=
  { claimed with
    volume
    holder := claimant
    fence := writerFence
    manifest := some manifest
    stash := none
    retiredStashes := [⟨export'.sourcePeer, export'.assignmentEpoch, export'.info⟩] }

end Blockd
