import Blockd.Blx.Compact
import Blockd.Engine.Reconcile

/-!
# Publication

`publish` (`backup.rs`) copies the newest record of a volume to the object store, so that the volume
can be restored anywhere.  `prepare_archive` starts from the archive the head names:

* the record's own files that the archive does not have yet are uploaded, unless the archive's
  frontier covers them (`uploadFiles`);
* files that are no valid archive together, or too many, are merged, one batch for each partition of
  the keys (`compactGroups`);
* the result is written down as changes to the last complete file list, or as a new list, and the
  manifest that names the list (`archiveManifest`).

Every object is written under a name that is never used again for other bytes, or so it should be:
`Remote.put` refuses to replace an object.  An attempt is the list of its writes in order; it may
stop after any of them, and the head is replaced only after the last (`PublishPlan`).

The pending copy of the manifest, which only tells the collector that a publication is under way, is
left out.
-/

set_option autoImplicit false

open Codec
open Std (ExtTreeMap)

namespace Blockd

/-! ## The object store -/

/-- The names of immutable objects of one volume; those of BLX objects are of any volume or base. -/
inductive StoreKey where
  | object (identity : ObjectIdentity)
  | fileList (writerFence listId : UInt64)
  | manifest (writerFence archiveSeq : UInt64)
  deriving DecidableEq

abbrev Remote := StoreKey → Option Bytes

namespace Remote

/-- `put_immutable`: an object that is there already has to be the same. -/
def put (r : Remote) (key : StoreKey) (bytes : Bytes) : Option Remote :=
  match r key with
  | none => some (Function.update r key (some bytes))
  | some found => if found = bytes then some r else none

def putAll (r : Remote) (puts : List (StoreKey × Bytes)) : Option Remote :=
  puts.foldlM (fun r p => r.put p.1 p.2) r

def objects (r : Remote) : ObjectStore := fun identity => r (.object identity)

def metadata (r : Remote) (bases : BaseRef → Option BaseManifest) : MetadataStore where
  manifests := fun fence seq => r (.manifest fence seq)
  lists := fun fence id => r (.fileList fence id)
  bases := bases

end Remote

variable [Platform]

/-! ## What a record is published as -/

def recordVerdict (record : JournalRecord) : Verdict :=
  match record.kind with
  | .commit => .coldBoot
  | .checkpoint epoch vmstate _ =>
    if record.config.kind = .memory ∧ record.syncCoveredThrough ≤ record.captureSeq then
      .resume epoch vmstate
    else .coldBoot

def recoveryMetadata (record : JournalRecord) : RecoveryKind × Epoch × UInt64 :=
  match record.kind with
  | .commit => (.diskOnly, 0, 0)
  | .checkpoint epoch _ logicalLength =>
    if record.config.kind = .memory ∧ record.syncCoveredThrough ≤ record.captureSeq then
      (.whole, epoch, logicalLength)
    else (.diskOnly, 0, 0)

structure PublishSnapshot where
  record : JournalRecord
  base : Option BaseRef
  baseObjects : List ObjectRef
  /-- The manifest the head names. -/
  backed : Option ManifestPtr

namespace PublishSnapshot

def blxRefs (s : PublishSnapshot) (volume : VolumeId) : List ObjectRef :=
  s.record.files.filter fun file => file.identity.isOwn volume

def baseChecksum (s : PublishSnapshot) : UInt64 := (s.base.map BaseRef.postStateChecksum).getD 0

/-- Are the files an archive of the snapshot's state, over the base? -/
def filesOk (s : PublishSnapshot) (files : List ObjectRef) : Bool :=
  validateObjectRefs (s.baseObjects ++ files) &&
    validateFileStateChain s.baseChecksum s.record.postStateChecksum files

end PublishSnapshot

/-! ## Files -/

/-- Everything its tenure had written up to the archive's frontier is in the archive. -/
def sourceObjectIsCovered (frontier : Option (UInt64 × UInt64)) (writerFence maxSeq : UInt64) :
    Bool :=
  frontier.any fun f => writerFence == f.1 && decide (maxSeq ≤ f.2)

/-- The bytes of a file, if it is the one the record names. -/
def readFile (disk : Disk) (volume : VolumeId) (reference : ObjectRef) : Option Bytes := do
  let blob ← disk.blx[ObjectIdentity.volume volume reference.identity.writerFence
    reference.identity.objectId]?
  let object ← BlxObject.open blob.bytes
  ensure (ObjectRef.fromBlx object = reference)
  return blob.bytes

/-- The uploads, and the files of the archive with them. -/
def uploadFiles (disk : Disk) (volume : VolumeId) (frontier : Option (UInt64 × UInt64)) :
    List ObjectRef → ExtTreeMap ObjectIdentity ObjectRef →
      List (StoreKey × Bytes) × Option (ExtTreeMap ObjectIdentity ObjectRef)
  | [], current => ([], some current)
  | reference :: references, current =>
    if current.contains reference.identity ||
        sourceObjectIsCovered frontier reference.identity.writerFence reference.maxSeq then
      uploadFiles disk volume frontier references current
    else
      match readFile disk volume reference with
      | none => ([], none)
      | some bytes =>
        let rest := uploadFiles disk volume frontier references
          (current.insert reference.identity reference)
        ((.object reference.identity, bytes) :: rest.1, rest.2)

/-- The largest number of files whose ranges meet in one key. -/
def maxObjectOverlap (objects : List ObjectRef) : Nat :=
  ((Sweep.events (objects.map fun o => (o.firstKey, o.lastKey))).toList.foldl
    (fun (overlapping, maximum) (_, starts, ends) =>
      (overlapping + starts - ends, max maximum (overlapping + starts))) (0, 0)).2

/-! ## Compaction -/

/-- The first object id of the range that is reserved for a record's compaction. -/
def compactionObjectIdStart (slot : UInt64) : Option UInt64 :=
  let stop := (slot.toNat + 1) * 2 ^ 32
  if slot.toNat + 1 < 2 ^ 64 ∧ stop < 2 ^ 64 then some (UInt64.ofNat (2 ^ 64 - stop)) else none

def groupByPartition (references : List ObjectRef) : Option (List (List ObjectRef)) := do
  let groups ← references.foldlM
    (fun groups reference =>
      if reference.lastKey.filePartition = reference.firstKey.filePartition then
        let part : Nat ×ₗ Nat := toLex reference.firstKey.filePartition
        some (groups.insert part ((groups[part]?).getD [] ++ [reference]))
      else none)
    (∅ : ExtTreeMap (Nat ×ₗ Nat) (List ObjectRef))
  return groups.toList.map Prod.snd

def compactionBatch (volume : VolumeId) (record : JournalRecord) (objectId : UInt64) : BatchMeta where
  namespaceKind := .volume
  namespaceId := volume
  writerFence := record.fence
  firstObjectId := objectId
  minSeq := record.seq
  maxSeq := record.seq
  batchId := objectId
  preStateChecksum := record.postStateChecksum
  postStateChecksum := record.postStateChecksum

/-- The files of a group, added up. -/
def mergeFiles (store : ObjectStore) (references : List ObjectRef) : Option BlxCompactor :=
  references.foldlM
    (fun compactor reference => do
      let bytes ← store reference.identity
      ensure (checksum64 bytes = reference.objectChecksum)
      compactor.addObject bytes)
    .default

/-- One batch for every group. -/
def compactGroups (store : ObjectStore) (volume : VolumeId) (record : JournalRecord) :
    UInt64 → List (List ObjectRef) → List (StoreKey × Bytes) × Option (List ObjectRef)
  | _, [] => ([], some [])
  | next, group :: groups =>
    match (mergeFiles store group).bind fun compactor =>
        compactor.finish (compactionBatch volume record next) true with
    | none => ([], none)
    | some objects =>
      match checkedAdd next (UInt64.ofNat objects.length) with
      | none => ([], none)
      | some next =>
        let rest := compactGroups store volume record next groups
        (objects.map (fun o => (.object (ObjectRef.fromBlx o).identity, o.bytes)) ++ rest.1,
          rest.2.map fun references => objects.map ObjectRef.fromBlx ++ references)

/-- All files as batches that stand for the record's state. -/
def compactFiles (store : ObjectStore) (volume : VolumeId) (record : JournalRecord)
    (files : List ObjectRef) : List (StoreKey × Bytes) × Option (List ObjectRef) :=
  match groupByPartition files, compactionObjectIdStart record.seq with
  | some groups, some first => compactGroups store volume record first groups
  | _, _ => ([], none)

/-! ## The manifest -/

/-- The archive number after the previous one, saturating. -/
def nextArchiveSeq (previous : Option ManifestClosure) : UInt64 :=
  match previous with
  | none => 0
  | some closure => nextGeneration closure.manifest.archiveSeq

/-- The complete list a manifest refers to, its changes, and the list if it is new. -/
structure FileChanges where
  completeList : Option FileListRef
  added : List ObjectRef
  removed : List ObjectIdentity
  newList : Option CompleteFileList

def fileMap (files : List ObjectRef) : ExtTreeMap ObjectIdentity ObjectRef :=
  files.foldl (fun m file => m.insert file.identity file) ∅

def fileChanges (volume : VolumeId) (record : JournalRecord) (previous : Option ManifestClosure)
    (files : List ObjectRef) : Option FileChanges :=
  match previous with
  | none => do
    let list : CompleteFileList := ⟨volume, record.fence, record.seq, files⟩
    let reference ← list.reference
    return ⟨some reference, [], [], some list⟩
  | some closure =>
    let baseline := fileMap ((closure.completeList.map CompleteFileList.objects).getD [])
    let current := fileMap files
    some ⟨closure.manifest.completeList,
      (current.toList.filter fun p => !baseline.contains p.1).map Prod.snd,
      (baseline.toList.map Prod.fst).filter fun identity => !current.contains identity, none⟩

/-- The manifest of the files, and the list that has to be written with it. -/
def archiveManifest (volume : VolumeId) (snapshot : PublishSnapshot)
    (previous : Option ManifestClosure) (files : List ObjectRef) :
    Option (Manifest × Option CompleteFileList) := do
  let record := snapshot.record
  let changes ← fileChanges volume record previous files
  let (recoveryKind, checkpointEpoch, vmstateLogicalLength) := recoveryMetadata record
  let recordBytes ← record.encode volume
  let manifest : Manifest := {
    volume := volume
    writerFence := record.fence
    journalSeq := record.seq
    archiveSeq := nextArchiveSeq previous
    captureSeq := record.captureSeq
    syncCoveredThrough := record.syncCoveredThrough
    recoveryKind := recoveryKind
    checkpointEpoch := checkpointEpoch
    config := record.config
    vmstateLogicalLength := vmstateLogicalLength
    base := snapshot.base
    completeList := changes.completeList
    postStateChecksum := record.postStateChecksum
    metadataChecksum := checksum64 recordBytes
    added := changes.added
    removed := changes.removed }
  let bounded ← boundManifest manifest (previous.bind ManifestClosure.completeList)
    (nextArchiveSeq previous)
  return (bounded.manifest, bounded.newCompleteList <|> changes.newList)

/-! ## An attempt -/

/-- The writes of an attempt in order, and the manifest it leads to if it gets through. -/
structure PublishPlan where
  puts : List (StoreKey × Bytes)
  pointer : Option ManifestPtr

/-- The writes of the list and the manifest. -/
def metadataPuts (volume : VolumeId) (snapshot : PublishSnapshot)
    (previous : Option ManifestClosure) (files : List ObjectRef) :
    Option (List (StoreKey × Bytes) × ManifestPtr) := do
  let (manifest, list) ← archiveManifest volume snapshot previous files
  let listPuts ←
    match list with
    | none => some []
    | some list => list.encode.map fun bytes => [(.fileList list.writerFence list.listId, bytes)]
  let bytes ← manifest.encode
  return (listPuts ++ [(.manifest manifest.writerFence manifest.archiveSeq, bytes)],
    manifest.pointer bytes)

/-- The files as they are, or merged if they are no archive or, where that is asked for, too many. -/
def archiveFiles (store : ObjectStore) (volume : VolumeId) (snapshot : PublishSnapshot)
    (forceCompaction : Bool) (files : List ObjectRef) :
    List (StoreKey × Bytes) × Option (List ObjectRef) :=
  if !snapshot.filesOk files ||
      (forceCompaction && decide (maxOverlappingFiles ≤ maxObjectOverlap files)) then
    let compacted := compactFiles store volume snapshot.record files
    (compacted.1, compacted.2.filter snapshot.filesOk)
  else ([], some files)

/-- The archive a publication starts from. -/
def previousArchive (remote : Remote) (bases : BaseRef → Option BaseManifest) (volume : VolumeId) :
    Option ManifestPtr → Option (Option ManifestClosure)
  | none => some none
  | some pointer => (loadArchiveMetadata (remote.metadata bases) volume pointer).map some

/-- The attempt over the previous archive.  Merging reads files that the attempt itself has
uploaded. -/
def prepareFrom (disk : Disk) (remote : Remote) (volume : VolumeId) (snapshot : PublishSnapshot)
    (forceCompaction : Bool) (previous : Option ManifestClosure) : PublishPlan :=
  let frontier := previous.map fun c => (c.manifest.writerFence, c.manifest.journalSeq)
  let uploads := uploadFiles disk volume frontier (snapshot.blxRefs volume)
    (fileMap ((previous.map ManifestClosure.files).getD []))
  match uploads.2, remote.putAll uploads.1 with
  | some current, some uploaded =>
    let files := archiveFiles uploaded.objects volume snapshot forceCompaction
      (current.toList.map Prod.snd)
    match files.2.bind (metadataPuts volume snapshot previous) with
    | none => ⟨uploads.1 ++ files.1, none⟩
    | some (puts, pointer) => ⟨uploads.1 ++ files.1 ++ puts, some pointer⟩
  | _, _ => ⟨uploads.1, none⟩

/-- `prepare_archive`. -/
def prepareArchive (disk : Disk) (remote : Remote) (bases : BaseRef → Option BaseManifest)
    (volume : VolumeId) (snapshot : PublishSnapshot) (forceCompaction : Bool) : PublishPlan :=
  match previousArchive remote bases volume snapshot.backed with
  | none => ⟨[], none⟩
  | some previous => prepareFrom disk remote volume snapshot forceCompaction previous

end Blockd
