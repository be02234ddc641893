import Blockd.Engine.Fork
import Blockd.Engine.Restore

/-!
# A volume through its tenures

One volume over its whole life in the object store: the host that serves it captures and checkpoints
(`Primary.captureStep`), sends records to its passive, publishes to the archive, and at some point
another host takes over from what is published.

A publication waits for every one of its writes, and everything else goes on meanwhile; it may
also stop at any point.  The writes of an attempt are planned when it starts: what it reads from
the disk and the store it would read later as well, or it would fail and stop there.

A restore happens on a host with nothing of the volume on its disk.  Files an earlier tenure may
have left there have other fences and are not looked at by the steps here.
-/

set_option autoImplicit false

open Codec
open Std (ExtTreeMap)

namespace Blockd

def CaptureStep.isReserve : CaptureStep → Bool
  | .reserve .. => true
  | _ => false

/-- The steps that are no part of a capture: those of the guest, of a cleanup and of a reclaim. -/
def CaptureStep.isBeside : CaptureStep → Bool
  | .write _ | .resolve .. | .sync | .delete _ | .forget _ | .reclaim _ => true
  | _ => false

variable [Platform]

/-- A publication that is under way: the writes still to be made, and the manifest they lead to. -/
structure Publishing where
  snapshot : PublishSnapshot
  puts : List (StoreKey × Bytes)
  pointer : Option ManifestPtr

structure Lineage where
  primary : Primary
  archiveBase : Option BaseRef
  /-- The objects of the archive the volume was attached with, the base's among them. -/
  archiveObjects : List ObjectRef
  archivedNonDataReset : Bool
  /-- The manifest the head names, as far as the host knows. -/
  backed : Option ManifestPtr
  /-- Has the volume a passive? -/
  stash : Bool
  /-- The record on its way to the passive. -/
  sending : Option JournalRecord
  peerPublished : Option ReplicaCommitInfo
  publishing : Option Publishing
  remote : Remote
  /-- The manifest the head names. -/
  head : Option ManifestPtr
  /-- The version of the head object. -/
  version : UInt64
  /-- History: the vmstate of every checkpoint, by the fence and number of its record. -/
  vmstates : UInt64 × JournalSeq → Option Bytes
  /-- History: the bytes of every file the volume has written. -/
  written : ObjectIdentity → Option Bytes

inductive LineageStep where
  | capture (step : CaptureStep)
  /-- What a cold boot owes before its first capture. -/
  | reset
  /-- The volume gets a passive, or another one. -/
  | assign
  | send
  | finishCommit
  | publish
  /-- The next write of the publication. -/
  | put
  | publishHead (version : UInt64)
  | giveUp
  /-- Another host claims the head under a fence and finalizes the claim. -/
  | restore (fence version : UInt64)

namespace Lineage

/-- A fork, once its head names its manifest. -/
def forked (b : ForkBase) (volume : VolumeId) (stash : StashAssignment) (fence version : UInt64)
    (remote : Remote) : Option Lineage := do
  let recordBytes ← (b.record fence).encode volume
  let manifest := b.childManifest volume fence
  let bytes ← manifest.encode
  let pointer := manifest.pointer bytes
  let remote ← remote.put (.manifest fence 0) bytes
  let served := b.published (b.claimed (ServedVolume.fresh b.manifest.config) fence stash) fence
    version pointer
  ensure (fence < version)
  return {
    primary := {
      id := volume
      disk := ⟨(∅ : ExtTreeMap (UInt64 ×ₗ JournalSeq) Bytes).insert (toLex (fence, 0)) recordBytes,
        ∅⟩
      volume := served.toVolumeState
      cache := ∅
      captures := 0
      capture := none
      cleanups := [] }
    archiveBase := served.archiveBase
    archiveObjects := served.archiveObjects
    archivedNonDataReset := served.archivedNonDataReset
    backed := served.backed
    stash := served.stashAssignment.isSome
    sending := none
    peerPublished := none
    publishing := none
    remote := remote
    head := some pointer
    version := version
    vmstates := fun _ => none
    written := fun _ => none }

/-! ## Captures -/

/-- The checkpoint of a cut goes into the history. -/
def noteCut (s : Lineage) : CaptureStep → UInt64 × JournalSeq → Option Bytes
  | .reserve _ (some checkpoint) _ =>
    Function.update s.vmstates (s.primary.volume.fence, s.primary.volume.nextSeq)
      (some checkpoint.vmstateBytes)
  | _ => s.vmstates

/-- A file that is written goes into the history. -/
def noteFile (s : Lineage) : CaptureStep → ObjectIdentity → Option Bytes
  | .chunk =>
    match s.primary.capture with
    | some (_, .writing _ _ ((id, bytes, _) :: _)) =>
      Function.update s.written
        (ObjectIdentity.volume s.primary.id s.primary.volume.fence id) (some bytes)
    | _ => s.written
  | _ => s.written

/-- A capture starts only when the archived memory is out of the way. -/
def capture (s : Lineage) (a : CaptureStep) : Option Lineage := do
  ensure (s.archivedNonDataReset = true ∨ a.isReserve = false)
  let primary ← s.primary.captureStep a
  return { s with primary := primary, vmstates := s.noteCut a, written := s.noteFile a }

def reset (s : Lineage) : Option Lineage :=
  if s.archivedNonDataReset then some s
  else (resetArchivedNonData s.primary.volume s.primary.id s.remote.objects s.archiveObjects).map
    fun volume => { s with
      primary := { s.primary with volume := volume }
      archivedNonDataReset := true }

/-! ## The passive -/

/-- What the primary knows about the old passive is not true of the new one. -/
def assign (s : Lineage) : Lineage :=
  { s with
    stash := true
    sending := none
    primary := { s.primary with volume := { s.primary.volume with peerCommittedRecord := none } } }

/-- The newest record is sent to the passive. -/
def send (s : Lineage) : Option Lineage := do
  ensure (s.stash = true)
  let record ← s.primary.volume.bestRecord
  return { s with sending := some record }

/-- The passive has committed the record (`finish_primary_commit`). -/
def finishCommit (s : Lineage) : Option Lineage := do
  let record ← s.sending
  if s.primary.volume.peerCommittedRecord.all fun old =>
      decide (old.commitInfo ≤ record.commitInfo) then
    return { s with
      sending := none
      primary := { s.primary with volume :=
        { s.primary.volume with peerCommittedRecord := some record } } }
  else return { s with sending := none }

/-! ## Publication -/

/-- What a publication takes from the volume state. -/
def publishSnapshot (s : Lineage) : Option PublishSnapshot := do
  let record ← if s.stash then s.primary.volume.peerCommittedRecord else s.primary.volume.bestRecord
  return {
    record := record
    base := s.archiveBase
    baseObjects := s.archiveObjects.filter fun object => !object.identity.isOwn s.primary.id
    backed := s.backed }

/-- Is the record in the archive already? -/
def alreadyPublished (s : Lineage) (snapshot : PublishSnapshot) : Bool :=
  (s.peerPublished.any fun published =>
    decide ((toLex (snapshot.record.fence, snapshot.record.seq) : UInt64 ×ₗ UInt64) ≤
      toLex (published.writerFence, published.seq)) &&
    decide (snapshot.record.syncCoveredThrough ≤ published.syncCoveredThrough)) ||
  (s.peerPublished.isNone && snapshot.backed.any fun backed =>
    decide (snapshot.record.captureSeq ≤ backed.captureSeq))

def archiveNeedsCompaction (s : Lineage) (bases : BaseRef → Option BaseManifest) : Bool :=
  (s.backed.bind fun pointer =>
    loadArchiveMetadata (s.remote.metadata bases) s.primary.id pointer).any fun closure =>
      decide (maxOverlappingFiles ≤ maxObjectOverlap closure.files)

/-- A publication starts.  A record that is in the archive already is published again only to
merge the archive's files. -/
def publish (s : Lineage) (bases : BaseRef → Option BaseManifest) : Option Lineage := do
  ensure (s.publishing.isNone = true)
  let snapshot ← s.publishSnapshot
  let already := s.alreadyPublished snapshot
  let compactOnly := already && s.archiveNeedsCompaction bases
  ensure (already = true → compactOnly = true)
  let plan := prepareArchive s.primary.disk s.remote bases s.primary.id snapshot compactOnly
  return { s with
    publishing := some ⟨snapshot, plan.puts, plan.pointer⟩
    primary := { s.primary with volume := { s.primary.volume with
      publishingBlxFiles := ((snapshot.blxRefs s.primary.id).map ObjectRef.identity).toFinset } } }

/-- One object is written; it may be there already, if it is the same. -/
def put (s : Lineage) : Option Lineage :=
  match s.publishing with
  | some ⟨snapshot, (key, bytes) :: puts, pointer⟩ => (s.remote.put key bytes).map fun remote =>
      { s with remote := remote, publishing := some ⟨snapshot, puts, pointer⟩ }
  | _ => none

/-- Everything is written, and the head is replaced. -/
def publishHead (s : Lineage) (version : UInt64) : Option Lineage :=
  match s.publishing with
  | some ⟨snapshot, [], some pointer⟩ => do
    ensure (s.version < version)
    return { s with
      head := some pointer
      version := version
      backed := some pointer
      peerPublished := if s.stash then some snapshot.record.commitInfo else s.peerPublished
      publishing := none
      primary := { s.primary with volume := { s.primary.volume with
        backedBlxFiles := s.primary.volume.backedBlxFiles ∪
          ((snapshot.blxRefs s.primary.id).map ObjectRef.identity).toFinset
        publishingBlxFiles := ∅ } } }
  | _ => none

/-- The attempt ends, with or without a reason. -/
def giveUp (s : Lineage) : Lineage :=
  { s with
    publishing := none
    primary := { s.primary with volume := { s.primary.volume with publishingBlxFiles := ∅ } } }

/-! ## Restores -/

def restore (s : Lineage) (bases : BaseRef → Option BaseManifest) (fence version : UInt64) :
    Option Lineage := do
  ensure (s.version < fence ∧ fence < version)
  let pointer ← s.head
  let image ← loadRestoreImage (s.remote.metadata bases) s.remote.objects s.primary.id pointer
  let volume ← image.volume s.primary.id fence
  return { s with
    primary := {
      id := s.primary.id
      disk := ⟨∅, ∅⟩
      volume := volume
      cache := ∅
      captures := s.primary.captures
      capture := none
      cleanups := [] }
    archiveBase := image.archiveBase
    archiveObjects := image.archiveObjects
    archivedNonDataReset := recordVerdict image.record != .coldBoot
    backed := some pointer
    sending := none
    peerPublished := none
    publishing := none
    version := version }

def step (bases : BaseRef → Option BaseManifest) (s : Lineage) : LineageStep → Option Lineage
  | .capture a => s.capture a
  | .reset => s.reset
  | .assign => some s.assign
  | .send => s.send
  | .finishCommit => s.finishCommit
  | .publish => s.publish bases
  | .put => s.put
  | .publishHead version => s.publishHead version
  | .giveUp => some s.giveUp
  | .restore fence version => s.restore bases fence version

/-! ## Steps that go through -/

variable {bases : BaseRef → Option BaseManifest} {s : Lineage}

theorem step_capture_of {a : CaptureStep} {p : Primary} (hreset : s.archivedNonDataReset = true)
    (h : s.primary.captureStep a = some p) : s.step bases (.capture a) =
      some { s with primary := p, vmstates := s.noteCut a, written := s.noteFile a } := by
  have hensure : ensure (s.archivedNonDataReset = true ∨ a.isReserve = false) = some () :=
    if_pos (.inl hreset)
  simp only [step, capture, hensure, h, some_bind, Option.pure_def]

/-- A record that is on disk is committed and sent to the passive, which commits it. -/
theorem exists_run_protect {cut : Cut} {record : JournalRecord} {blobs : List BlxBlob}
    (hcapture : s.primary.capture = some (cut, .durable record blobs)) (hstash : s.stash = true)
    (hpeer : s.primary.volume.peerCommittedRecord = none) :
    ∃ primary, Run.run (step bases) s [.capture .commit, .send, .finishCommit] =
        some { s with primary := primary, sending := none } ∧
      primary.id = s.primary.id ∧ primary.disk = s.primary.disk ∧
      primary.volume.peerCommittedRecord = some record := by
  obtain ⟨p, hp, hid, hdisk, hbest, hnone⟩ : ∃ p, s.primary.captureStep .commit = some p ∧
      p.id = s.primary.id ∧ p.disk = s.primary.disk ∧ p.volume.bestRecord = some record ∧
      p.volume.peerCommittedRecord = none := by
    simp only [Primary.captureStep, Primary.commit, hcapture]
    exact ⟨_, rfl, rfl, rfl, rfl, hpeer⟩
  have hcommit : s.step bases (.capture .commit) = some { s with primary := p } := by
    simp only [step, capture, CaptureStep.isReserve, or_true, ensure_true, hp, some_bind,
      Option.pure_def]
    rfl
  have hsend : step bases { s with primary := p } .send =
      some { s with primary := p, sending := some record } := by
    simp only [step, send, hstash, ensure_true, hbest, some_bind, Option.pure_def]
  have hfinish : step bases { s with primary := p, sending := some record } .finishCommit =
      some { s with
        primary := { p with volume := { p.volume with peerCommittedRecord := some record } }
        sending := none } := by
    simp only [step, finishCommit, hnone, Option.all_none, if_true, some_bind, Option.pure_def]
  exact ⟨_, Run.run_cons_of hcommit (Run.run_cons_of hsend (Run.run_cons_of hfinish
    (Run.run_nil _ _))), hid, hdisk, rfl⟩

/-- A publication of a record that is not in the archive starts with its plan. -/
theorem exists_step_publish {snapshot : PublishSnapshot} {plan : PublishPlan} (hidle : s.publishing = none)
    (hsnapshot : s.publishSnapshot = some snapshot) (hnew : s.alreadyPublished snapshot = false)
    (hplan : prepareArchive s.primary.disk s.remote bases s.primary.id snapshot false = plan) :
    ∃ primary, s.step bases .publish = some { s with
        primary := primary
        publishing := some ⟨snapshot, plan.puts, plan.pointer⟩ } ∧ primary.id = s.primary.id := by
  simp only [step, publish, hidle, hsnapshot, hnew, hplan, Bool.false_and, Option.isNone_none,
    ensure_true, some_bind, Bool.false_eq_true, imp_self, Option.pure_def]
  exact ⟨_, rfl, rfl⟩

/-- The writes of a publication are made one by one. -/
theorem run_puts {snapshot : PublishSnapshot} {puts : List (StoreKey × Bytes)}
    {pointer : Option ManifestPtr}
    {remote : Remote} (hputs : s.remote.putAll puts = some remote)
    (hpublishing : s.publishing = some ⟨snapshot, puts, pointer⟩) :
    Run.run (step bases) s (List.replicate puts.length .put) =
      some { s with remote := remote, publishing := some ⟨snapshot, [], pointer⟩ } := by
  induction puts generalizing s with
  | nil =>
    cases hputs
    rw [← hpublishing]
    rfl
  | cons p puts ih =>
    rw [Remote.putAll, List.foldlM_cons, bind_eq_some] at hputs
    obtain ⟨stored, hput, hrest⟩ := hputs
    have hstep : s.step bases .put = some { s with
        remote := stored
        publishing := some ⟨snapshot, puts, pointer⟩ } := by
      simp only [step, put, hpublishing, hput, Option.map_some]
    exact Run.run_cons_of hstep (ih hrest rfl)

/-- Once all is written, the head is replaced. -/
theorem exists_step_publishHead {snapshot : PublishSnapshot} {pointer : ManifestPtr} {version : UInt64}
    (hversion : s.version < version)
    (hpublishing : s.publishing = some ⟨snapshot, [], some pointer⟩) :
    ∃ t, s.step bases (.publishHead version) = some t ∧ t.primary.id = s.primary.id ∧
      t.head = some pointer ∧ t.remote = s.remote ∧ t.vmstates = s.vmstates := by
  simp only [step, publishHead, hpublishing, ensure, hversion, if_true, some_bind, Option.pure_def]
  exact ⟨_, rfl, rfl, rfl, rfl, rfl⟩

end Lineage

end Blockd
