import Blockd.Engine.Served

/-!
# Local recovery

`recover_local` (`recovery.rs`): after a restart every volume is rebuilt from the blobs its host
finds on the local disk.

* `Disk.collect` — what the scan finds of a volume: the records that decode, and the BLX files that
  open, with their references and footers;
* `Found.recordUsable` — every file the record names is there as the record names it;
* `Found.materializeFiles`, `Found.materializeChecksums` — page locations and checksums, rebuilt
  from the footers of a record's files: of all entries of a key the newest one counts;
* `Found.recover` — the volume state, from the newest usable record.

The names of the blobs sort by fence and number, which is the order of the maps of `Disk`.  The two
copies of a record are one blob here.  The sidecar that an inbound migration puts in front of its
record, and the handoff marker of an outbound one, belong to migrations and are not on this disk.
-/

set_option autoImplicit false

open Codec
open Std (ExtTreeMap ExtTreeSet)

namespace Blockd

variable [Platform]

/-! ## The scan -/

/-- What the scan has found of one volume. -/
structure Found where
  records : List JournalRecord
  journals : List (UInt64 × JournalSeq)
  blxFiles : List (ObjectIdentity × Nat)
  /-- The files of each capture, by the number in their headers. -/
  recordBlxFiles : ExtTreeMap JournalSeq (Finset ObjectIdentity)
  tombstoneBlxFiles : Finset ObjectIdentity
  blxRefs : ExtTreeMap ObjectIdentity ObjectRef
  blxFooters : ExtTreeMap ObjectIdentity BlxFooter
  maxSeq : JournalSeq
  maxObjectId : ObjectId

namespace Disk

/-- The record of a journal blob, if it is the one the blob is named after. -/
def readRecord (volume : VolumeId) (name : UInt64 × JournalSeq) (bytes : Bytes) :
    Option JournalRecord :=
  (JournalRecord.decode volume bytes).filter fun record =>
    decide (record.fence = name.1 ∧ record.seq = name.2)

/-- The capture that wrote a file, by its header. -/
def captureOf (identity : ObjectIdentity) (bytes : Bytes) : Option JournalSeq :=
  (BlxHeader.open bytes).bind fun (header, _) =>
    if (ObjectIdentity.mk header.namespaceKind header.namespaceId header.writerFence
        header.objectId) = identity ∧ header.minSeq = header.maxSeq then some header.maxSeq
    else none

def hasTombstone (bytes : Bytes) : Bool :=
  (BlxObject.scan bytes).any fun (_, footer) =>
    footer.entries.any fun entry => entry.kind == .tombstone

/-- One more than the greatest number, which panics on overflow. -/
def maxAfter (numbers : List UInt64) : Option UInt64 :=
  numbers.foldlM (fun greatest n => (checkedAdd n 1).map (max greatest)) 0

/-- The scan of the volume's blobs. -/
def collect (disk : Disk) (volume : VolumeId) : Option Found := do
  let maxSeq ← maxAfter (disk.journals.toList.map fun p => (ofLex p.1).2)
  let maxObjectId ← maxAfter (disk.blx.toList.map fun p => p.1.objectId)
  return {
    records := disk.journals.toList.filterMap fun (name, bytes) =>
      readRecord volume (ofLex name) bytes
    journals := disk.journals.toList.map fun p => ofLex p.1
    blxFiles := disk.blx.toList.map fun (identity, blob) => (identity, blob.bytes.length)
    recordBlxFiles := disk.blx.toList.foldl
      (fun files (identity, blob) =>
        match captureOf identity blob.bytes with
        | none => files
        | some seq => files.insert seq (insert identity (files[seq]?.getD ∅)))
      ∅
    tombstoneBlxFiles := ((disk.blx.toList.filter fun p => hasTombstone p.2.bytes).map
      Prod.fst).toFinset
    blxRefs := disk.blx.filterMap fun _ blob => (BlxObject.open blob.bytes).map ObjectRef.fromBlx
    blxFooters := disk.blx.filterMap fun _ blob => (BlxObject.open blob.bytes).map BlxObject.footer
    maxSeq := maxSeq
    maxObjectId := maxObjectId }

end Disk

/-! ## Which records can be used -/

namespace Found

/-- Every file of the record is there.  A record without files stands for an empty volume, or for
one whose state is elsewhere. -/
def recordUsable (found : Found) (volume : VolumeId) (record : JournalRecord) : Bool :=
  if record.files.isEmpty then
    record.captureSeq == 0 || record.migratedFrom.isSome || record.postStateChecksum != 0
  else
    record.files.all fun file =>
      file.identity.isOwn volume &&
        ((found.blxRefs[file.identity]?.any fun ref =>
            ref == file || (ref.objectChecksum == 0 && ref == file.unchecked)) ||
          (record.migratedFrom.isSome && decide (file.identity.writerFence < record.fence)))

/-- The newest record, by what it captured. -/
def recordRank (record : JournalRecord) : UInt64 ×ₗ JournalSeq :=
  toLex (record.captureSeq, record.seq)

def chosen (found : Found) (volume : VolumeId) : Option JournalRecord :=
  Newest.pick recordRank (found.records.filter (found.recordUsable volume))

def greatest (numbers : List UInt64) : UInt64 := numbers.foldl max 0

/-- The newest sync that a usable record covers. -/
def usableWatermark (found : Found) (volume : VolumeId) : UInt64 :=
  greatest ((found.records.filter (found.recordUsable volume)).map
    JournalRecord.syncCoveredThrough)

/-- The newest sync that any record covers that captured what it covers. -/
def durabilityWatermark (found : Found) : UInt64 :=
  greatest ((found.records.filter fun record =>
    decide (record.syncCoveredThrough ≤ record.captureSeq)).map JournalRecord.syncCoveredThrough)

/-! ## Rebuilding from footers -/

/-- For every key the newest of the entries, the last one among equals. -/
def newestEntries {κ ω : Type} [LinearOrder κ] (found : Found) (key : FooterEntry → Option κ)
    (value : ObjectRef → FooterEntry → ω) (files : List ObjectRef) : ExtTreeMap κ (Gen × ω) :=
  files.foldl
    (fun newest file =>
      match found.blxFooters[file.identity]? with
      | none => newest
      | some footer =>
        footer.entries.foldl
          (fun newest entry =>
            match key entry with
            | none => newest
            | some k =>
              if newest[k]?.all fun old => decide (old.1 ≤ entry.generation) then
                newest.insert k (entry.generation, value file entry)
              else newest)
          newest)
    ∅

/-- Where every page of the files is; a deletion marker takes a page away. -/
def materializeFiles (found : Found) (volume : VolumeId) (config : VolumeConfig)
    (files : List ObjectRef) : ExtTreeMap PageId (Gen × PageFileLoc) :=
  (found.newestEntries (fun entry => entry.key.toPage config.kind volume)
    (fun file entry =>
      if entry.kind = .data then
        some (⟨0, file.identity.writerFence, file.identity.objectId, entry.offset, entry.length⟩ :
          PageFileLoc)
      else none) files).filterMap fun _ entry => entry.2.map fun location => (entry.1, location)

def materializeChecksums (found : Found) (files : List ObjectRef) : BlockChecksums :=
  (found.newestEntries (fun entry => some entry.key)
    (fun _ entry => if entry.kind = .data then some entry.valueChecksum else none)
    files).filterMap fun _ entry => entry.2.map fun checksum => (entry.1, checksum)

/-- The files that hold VMM blocks. -/
def materializeVmmBlxFiles (found : Found) (files : List ObjectRef) : Finset ObjectIdentity :=
  ((files.filter fun file =>
    found.blxFooters[file.identity]?.any fun footer =>
      footer.entries.any fun entry => entry.key.space == .vmm).map ObjectRef.identity).toFinset

end Found

/-- The checksum of a state, put together from its blocks. -/
def assembleStateChecksum (blocks : BlockChecksums) : UInt64 :=
  blocks.toList.foldl (fun checksum (key, generation, value) =>
    checksum ^^^ stateContribution key generation value) 0

/-! ## The recovered volume -/

/-- A whole checkpoint is resumed, unless a newer sync was covered. -/
def recoveryVerdict (record : JournalRecord) (watermark : UInt64) : Verdict :=
  match record.kind with
  | .commit => .coldBoot
  | .checkpoint epoch vmstate _ =>
    if record.config.isMemory = true ∧ watermark ≤ record.captureSeq then .resume epoch vmstate
    else .coldBoot

namespace Found

/-- The generation after every one that the files and the checksums have. -/
def nextGen (found : Found) (blocks : BlockChecksums) : Gen :=
  greatest (((found.blxFooters.toList.flatMap fun p => p.2.entries).map fun entry =>
    nextGeneration entry.generation) ++ blocks.toList.map fun p => nextGeneration p.2.1)

/-- The state of a volume that starts with this record.  A cold boot drops the memory, and has to
write deletion markers for what the files still say about it. -/
def recovered (found : Found) (volume : VolumeId) (chosen : JournalRecord) (watermark : UInt64) :
    ServedVolume :=
  let verdict := recoveryVerdict chosen watermark
  let cold := verdict == .coldBoot
  let discards := cold && chosen.config.isMemory
  let all := found.materializeChecksums chosen.files
  let blocks := if discards then all.filter fun key _ => key.space == .data else all
  let locs :=
    if chosen.runtimePageIndex.isEmpty then
      found.materializeFiles volume chosen.config chosen.files
    else chosen.runtimePageIndex
  { ServedVolume.fresh chosen.config with
    fence := chosen.fence
    mutationSeq := chosen.captureSeq
    nextSeq := found.maxSeq
    nextObjectId := found.maxObjectId
    nextGen := found.nextGen blocks
    localCoveredThrough := max watermark chosen.syncCoveredThrough
    syncAckThrough := chosen.syncCoveredThrough
    pageLocs := if discards then ∅ else locs
    blockChecksums := blocks
    stateChecksum := if discards then assembleStateChecksum blocks else chosen.postStateChecksum
    archivedMemoryUsable := !cold
    archivedNonDataReset := true
    pendingTombstones :=
      if cold then .ofList ((all.toList.map Prod.fst).filter fun key => key.space != .data) else ∅
    vmmBlxFiles := if cold then ∅ else found.materializeVmmBlxFiles chosen.files
    epoch := match verdict with
      | .resume epoch _ => epoch
      | _ => 0
    pinned := if cold then none else some chosen
    bestRecord := some chosen
    recovery := some verdict
    recordWrites := found.journals.foldl
      (fun writes (fence, seq) =>
        writes.insert seq (fence, ((found.records.find? fun record =>
          record.fence == fence && record.seq == seq).map
            JournalRecord.syncCoveredThrough).getD 0))
      ∅
    recordBlxFiles := found.recordBlxFiles
    tombstoneBlxFiles := found.tombstoneBlxFiles
    blxRefs := found.blxRefs
    blxBlobs := found.blxFiles }

/-- The volume, if it can be restored: some record is usable, and none that was durable covers a
newer sync. -/
def recover (found : Found) (volume : VolumeId) : Option ServedVolume := do
  let chosen ← found.chosen volume
  ensure (found.durabilityWatermark ≤ chosen.captureSeq)
  return found.recovered volume chosen (max (found.usableWatermark volume)
    found.durabilityWatermark)

end Found

/-- `recover_local` for one volume. -/
def recoverLocal (disk : Disk) (volume : VolumeId) : Option ServedVolume :=
  (disk.collect volume).bind fun found => found.recover volume

end Blockd
