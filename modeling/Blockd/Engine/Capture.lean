import Blockd.Engine.State
import Blockd.Lib.Run

/-!
# Captures

`capture_record` (`capture.rs`), which turns the changed pages of a volume into a batch of BLX
files and a journal record that names all files its recovery needs.  The function waits in many
places and other tasks run there, so it is cut into the pieces between its waits:

* `reserve` — the cut: the pages to write, the numbers and generations they get;
* `drain` — the pages have been read, and the batch is built;
* `chunk` — one file of the batch is on disk and entered into the volume state;
* `refuse` — the space for the next file is refused and the capture is abandoned;
* `record` — the record is made;
* `writeRecord` — both copies of the record are on disk;
* `commit` — the record becomes the newest one, and `cleanup_local` selects what may go;
* `delete`, `forget` — the selected blobs are deleted one by one, then forgotten.

When the disk is full, `reclaim_backed_blx_files` (`reclaim.rs`) takes files that are in the archive
one by one, whether they are needed or not (`reclaim`); each is deleted and forgotten like those of a
cleanup.

The guest's writes and syncs come in between, and reads that look up a page in the archive the
volume was attached with.  What is read from the guest, the live entries `prepare_compaction` read
from sparse files and the entries found in archive footers come with the labels.

A blob write is atomic and durable.  The two copies of a record count as one blob: recovery takes
either of them, and a record is gone when both are.
-/

set_option autoImplicit false

open Codec
open Std (ExtTreeMap ExtTreeSet)

namespace Blockd

/-! ## What a capture takes and builds -/

inductive CaptureKind where
  | writeback
  | checkpoint
  | migration
  deriving DecidableEq, Repr

/-- The vmstate of a paused guest. -/
structure Checkpoint where
  vmstate : UInt64
  vmstateBytes : Bytes
  deriving DecidableEq, Repr

/-- The verified live entries of one sparse file. -/
structure CompactionRescue where
  victim : UInt64 × ObjectId
  entries : List (PageId × Gen × PageFileLoc × Bytes)
  deriving DecidableEq, Repr

/-- What a capture has fixed at its cut. -/
structure Cut where
  kind : CaptureKind
  epoch : Epoch
  checkpoint : Option Checkpoint
  completeMemorySnapshot : Bool
  seq : JournalSeq
  captureSeq : UInt64
  firstObject : ObjectId
  pages : List (PageId × Gen)
  rescues : List ((PageId × Bytes) × Gen)
  pendingTombstones : List (BlockKey × Gen)
  flushedPages : List PageId

/-- A file of a batch: its id, its bytes and the pages it holds. -/
abbrev BlxBlob := ObjectId × Bytes × PageFileEntries

/-- One entry a capture puts into its batch. -/
inductive BatchEntry where
  | page (page : PageId) (generation : Gen) (bytes : Bytes)
  | tombstone (page : PageId) (generation : Gen)
  | vmmTombstone (block : UInt32) (generation : Gen)
  | vmmBlock (block : UInt32) (generation : Gen) (bytes : Bytes)
  deriving DecidableEq, Repr

/-- The items with consecutive generations, and the generation after them. -/
def numberFrom {α : Type} : Gen → List α → Option (List (α × Gen) × Gen)
  | next, [] => some ([], next)
  | next, item :: items => do
    let following ← checkedAdd next 1
    let (numbered, last) ← numberFrom following items
    return ((item, next) :: numbered, last)

/-- Deletion markers take generations of their own, except those of VMM blocks, which take the
record's number. -/
def numberTombstones (seq : JournalSeq) : Gen → List BlockKey → Option (List (BlockKey × Gen) × Gen)
  | next, [] => some ([], next)
  | next, key :: keys =>
    if key.space = .vmm then do
      let (numbered, last) ← numberTombstones seq next keys
      return ((key, seq) :: numbered, last)
    else do
      let following ← checkedAdd next 1
      let (numbered, last) ← numberTombstones seq following keys
      return ((key, next) :: numbered, last)

namespace CompactionRescue

def pages (prepared : CompactionRescue) : ExtTreeMap PageId (Gen × PageFileLoc) :=
  prepared.entries.foldl
    (fun pages (page, generation, location, _) => pages.insert page (generation, location)) ∅

end CompactionRescue

section

variable [Platform]

namespace PageBatchBuilder

/-- Add one entry; a failed assertion of the builder is `none`. -/
def addEntry (b : PageBatchBuilder) : BatchEntry → Option PageBatchBuilder
  | .page page generation bytes => (b.tryAdd page generation bytes).toOption
  | .tombstone page generation => (b.tryAddTombstone page generation).toOption
  | .vmmTombstone block generation => some (b.addVmmTombstone block generation)
  | .vmmBlock block generation bytes => b.addVmmBlock block generation bytes

end PageBatchBuilder

namespace VolumeState

/-- Does the rescue still cover every live page of its file? -/
def allLiveCovered (v : VolumeState) (flushSet : List PageId) (prepared : CompactionRescue) :
    Bool :=
  v.pageLocs.toList.all fun (page, entry) =>
    decide (entry.2.base ≠ 0 ∨ (entry.2.fence, entry.2.object) ≠ prepared.victim) ||
      decide (page ∈ flushSet) || prepared.pages[page]? == some entry

/-- The rescues that are still valid at the cut. -/
def validRescues (v : VolumeState) (flushSet : List PageId) (prepared : List CompactionRescue) :
    List CompactionRescue :=
  prepared.filter (v.allLiveCovered flushSet)

/-- The pages those rescues move: the ones that are not written anyway. -/
def rescuedPages (v : VolumeState) (flushSet : List PageId) (prepared : List CompactionRescue) :
    List (PageId × Bytes) :=
  (v.validRescues flushSet prepared).flatMap fun rescue =>
    rescue.entries.filterMap fun (page, generation, location, bytes) =>
      if page ∉ flushSet ∧ v.pageLocs[page]? = some (generation, location) then some (page, bytes)
      else none

/-- Is there anything a new record would cover? -/
def needsCommit (v : VolumeState) (cache : Cache) (prepared : List CompactionRescue) : Bool :=
  cache.hasDirty || !(v.validRescues cache.unstablePages prepared).isEmpty ||
    !v.pendingTombstones.isEmpty ||
    v.pendingSyncs.any fun barrier => decide (v.localCoveredThrough < barrier)

/-- Every page of the volume, for the first checkpoint after a cold boot. -/
def allPages (v : VolumeState) (volume : VolumeId) : List PageId :=
  (List.range v.config.pages.toNat).map fun page => ⟨volume, UInt32.ofNat page⟩

/-- The cut of a capture.  Only a writeback needs a reason; the others were asked for. -/
def reserve (v : VolumeState) (volume : VolumeId) (cache : Cache) (kind : CaptureKind)
    (checkpoint : Option Checkpoint) (prepared : List CompactionRescue) :
    Option (VolumeState × Cut) := do
  ensure (kind ≠ .writeback ∨ v.needsCommit cache prepared = true)
  let complete := checkpoint.isSome && !v.archivedMemoryUsable
  let flushed := cache.unstablePages
  let pages :=
    if complete then (ExtTreeSet.ofList (flushed ++ v.allPages volume)).toList else flushed
  let rescues := v.rescuedPages flushed prepared
  let entries := pages.length + rescues.length + v.pendingTombstones.size
  ensure (entries < 2 ^ 64)
  let nextSeq ← checkedAdd v.nextSeq 1
  let nextObjectId ← checkedAdd v.nextObjectId (UInt64.ofNat entries)
  let (unread, gen) ← numberFrom v.nextGen pages
  let (rescues, gen) ← numberFrom gen rescues
  let (tombstones, gen) ← numberTombstones v.nextSeq gen v.pendingTombstones.toList
  return ({ v with nextSeq := nextSeq, nextObjectId := nextObjectId, nextGen := gen },
    { kind := kind
      epoch := v.epoch + 1
      checkpoint := checkpoint
      completeMemorySnapshot := complete
      seq := v.nextSeq
      captureSeq := v.mutationSeq
      firstObject := v.nextObjectId
      pages := unread
      rescues := rescues
      pendingTombstones := tombstones
      flushedPages := flushed })

/-- The pages of the batch with their bytes. -/
def batchPages (cut : Cut) (read : PageId → Bytes) : List (PageId × Gen × Bytes) :=
  (cut.pages.map fun (page, generation) => (page, generation, read page)) ++
    cut.rescues.map fun ((page, bytes), generation) => (page, generation, bytes)

def vmmBlocks (blocks : BlockChecksums) : List BlockKey :=
  (blocks.toList.map Prod.fst).filter fun key => key.space = .vmm

/-- The checksums after the batch. -/
def postState (v : VolumeState) (cut : Cut) (read : PageId → Bytes) :
    Option (UInt64 × BlockChecksums) := do
  let state := (batchPages cut read).foldl
    (fun state (page, generation, bytes) =>
      replaceStateBlock state (BlockKey.fromPage v.config.kind page)
        (some (generation, checksum64 bytes)))
    (v.stateChecksum, v.blockChecksums)
  match cut.checkpoint with
  | none => return state
  | some checkpoint =>
    let cleared := (vmmBlocks state.2).foldl (fun state key => replaceStateBlock state key none)
      state
    let snapshot ← vmmSnapshotBlocks checkpoint.vmstateBytes
    return snapshot.foldl
      (fun state (key, padded) => replaceStateBlock state key (some (cut.seq, checksum64 padded)))
      cleared

/-- The deletion marker of a discarded block, if the volume can have such a block. -/
def tombstoneEntry (v : VolumeState) (volume : VolumeId) (key : BlockKey) (generation : Gen) :
    Option BatchEntry :=
  if key.space = .vmm then some (.vmmTombstone key.block generation)
  else (key.toPage v.config.kind volume).map fun page => .tombstone page generation

/-- The entries of a vmstate snapshot: markers for the old blocks it no longer has, then its own. -/
def vmmEntries (v : VolumeState) (seq : JournalSeq) (bytes : Bytes) : Option (List BatchEntry) := do
  let snapshot ← vmmSnapshotBlocks bytes
  let gone := (vmmBlocks v.blockChecksums).filter fun key => snapshot.length ≤ key.block.toNat
  return gone.map (fun key => .vmmTombstone key.block seq) ++
    snapshot.map fun (key, padded) => .vmmBlock key.block seq padded

def batchEntries (v : VolumeState) (volume : VolumeId) (cut : Cut) (read : PageId → Bytes) :
    Option (List BatchEntry) := do
  let pages := (batchPages cut read).map fun (page, generation, bytes) =>
    BatchEntry.page page generation bytes
  let tombstones := cut.pendingTombstones.filterMap fun (key, generation) =>
    v.tombstoneEntry volume key generation
  match cut.checkpoint with
  | none => return pages ++ tombstones
  | some checkpoint =>
    let vmm ← v.vmmEntries cut.seq checkpoint.vmstateBytes
    return pages ++ tombstones ++ vmm

/-- The checksums after the batch, and its files. -/
def buildBatch (v : VolumeState) (volume : VolumeId) (cut : Cut) (read : PageId → Bytes) :
    Option ((UInt64 × BlockChecksums) × List BlxBlob) := do
  let post ← v.postState cut read
  let entries ← v.batchEntries volume cut read
  let builder ← entries.foldlM PageBatchBuilder.addEntry
    (PageBatchBuilder.newWithChecksums v.config.kind volume v.fence cut.firstObject cut.seq
      v.stateChecksum post.1)
  let blobs ← builder.finish
  return (post, blobs)

/-- A file of the batch is on disk: its pages are served from it, and it is in the table. -/
def noteChunk (v : VolumeState) (identity : ObjectIdentity) (object : BlxObject)
    (entries : PageFileEntries) (post : UInt64 × BlockChecksums) : VolumeState :=
  { v with
    pageLocs := entries.foldl (fun locs (page, entry) => locs.insert page entry) v.pageLocs
    blxBlobs := v.blxBlobs ++ [(identity, object.bytes.length)]
    blxRefs := v.blxRefs.insert identity (ObjectRef.fromBlx object)
    tombstoneBlxFiles :=
      if object.footer.entries.any fun entry => entry.kind = .tombstone then
        insert identity v.tombstoneBlxFiles
      else v.tombstoneBlxFiles
    stateChecksum := post.1
    blockChecksums := post.2 }

/-- The identities of a batch's files. -/
def blobIdentities (v : VolumeState) (volume : VolumeId) (blobs : List BlxBlob) :
    Finset ObjectIdentity :=
  (blobs.map fun blob => ObjectIdentity.volume volume v.fence blob.1).toFinset

/-- After the last file of a checkpoint its batch carries the VMM snapshot. -/
def noteBatch (v : VolumeState) (volume : VolumeId) (cut : Cut) (blobs : List BlxBlob) :
    VolumeState :=
  if cut.checkpoint.isSome then { v with vmmBlxFiles := v.blobIdentities volume blobs } else v

def recordKind (cut : Cut) : RecordKind :=
  match cut.checkpoint with
  | none => .commit
  | some checkpoint =>
    .checkpoint cut.epoch checkpoint.vmstate (UInt64.ofNat checkpoint.vmstateBytes.length)

/-- The record of a capture whose files are all on disk. -/
def captureRecord (v : VolumeState) (cut : Cut) (post : UInt64) : JournalRecord where
  config := v.config
  seq := cut.seq
  fence := v.fence
  kind := recordKind cut
  captureSeq := cut.captureSeq
  syncCoveredThrough :=
    (v.pendingSyncs.filter fun barrier => barrier ≤ cut.captureSeq).foldl max v.localCoveredThrough
  postStateChecksum := post
  files := v.recoveryFiles
  runtimePageIndex :=
    if cut.kind = .migration ∨ (v.pageLocs.toList.any fun p => p.2.2.base != 0) = true then
      v.pageLocs
    else ∅
  migratedFrom := none

/-- The record is durable: it becomes the newest one. -/
def commitRecord (v : VolumeState) (volume : VolumeId) (cut : Cut) (record : JournalRecord)
    (blobs : List BlxBlob) : VolumeState :=
  { v with
    bestRecord := some record
    archivedMemoryUsable := v.archivedMemoryUsable || cut.completeMemorySnapshot
    pendingTombstones := cut.pendingTombstones.foldl (fun keys (key, _) => keys.erase key)
      v.pendingTombstones
    -- the id after the last one, saturating
    nextObjectId := match blobs.getLast? with
      | none => v.nextObjectId
      | some blob => max v.nextObjectId (UInt64.ofNat (min (blob.1.toNat + 1) (2 ^ 64 - 1)))
    localCoveredThrough := record.syncCoveredThrough
    pendingSyncs := v.pendingSyncs.filter fun barrier => v.syncAckThrough < barrier
    recordWrites := v.recordWrites.insert record.seq (v.fence, record.syncCoveredThrough)
    recordBlxFiles := v.recordBlxFiles.insert record.seq (v.blobIdentities volume blobs)
    epoch := if cut.checkpoint.isSome then cut.epoch else v.epoch
    pinned := if cut.checkpoint.isSome then some record else v.pinned }

end VolumeState

end

/-- The record a new volume starts with. -/
def initialRecord (config : VolumeConfig) (fence : UInt64) : JournalRecord where
  config := config
  seq := 0
  fence := fence
  kind := .commit
  captureSeq := 0
  syncCoveredThrough := 0
  postStateChecksum := 0
  files := []
  runtimePageIndex := ∅
  migratedFrom := none

/-! ## Removing blobs -/

inductive BlobName where
  | journal (fence : UInt64) (seq : JournalSeq)
  | blx (identity : ObjectIdentity)
  deriving DecidableEq, Repr

/-- A cleanup that waits for its deletions: the blobs still to delete, in their order, and what is
then forgotten.  The checkpoint of a data volume pins its record only when the cleanup of its
capture is over. -/
structure Cleanup where
  names : List BlobName
  records : List (UInt64 × JournalSeq)
  blx : List ObjectIdentity
  pin : Option (Epoch × JournalRecord)

namespace VolumeState

variable [Platform]

/-- The files `cleanup_local` keeps. -/
def keepBlx (v : VolumeState) : Finset ObjectIdentity :=
  v.retentionClosure.2 ∪ (v.tombstoneBlxFiles \ v.backedBlxFiles) ∪ v.publishingBlxFiles ∪
    v.replicatingBlxFiles

/-- What `cleanup_local` selects: records first, then files. -/
def selectCleanup (v : VolumeState) (pin : Option (Epoch × JournalRecord)) : Cleanup :=
  let records := (v.recordWrites.toList.map fun (seq, fence, _) => (fence, seq)).filter
    fun record => record ∉ v.retentionClosure.1
  let blx := (v.blxBlobs.map Prod.fst).filter fun identity => identity ∉ v.keepBlx
  { names := records.map (fun (fence, seq) => .journal fence seq) ++ blx.map .blx
    records := records
    blx := blx
    pin := pin }

/-- The blobs of a cleanup are deleted. -/
def forget (v : VolumeState) (cleanup : Cleanup) : VolumeState :=
  { v with
    recordWrites := v.recordWrites.filter fun seq _ => seq ∉ cleanup.records.map Prod.snd
    recordBlxFiles := v.recordBlxFiles.filter fun seq _ => seq ∉ cleanup.records.map Prod.snd
    blxBlobs := v.blxBlobs.filter fun blob => blob.1 ∉ cleanup.blx
    tombstoneBlxFiles := v.tombstoneBlxFiles.filter fun blx => blx ∉ cleanup.blx
    vmmBlxFiles := v.vmmBlxFiles.filter fun blx => blx ∉ cleanup.blx
    blxRefs := v.blxRefs.filter fun blx _ => blx ∉ cleanup.blx
    epoch := match cleanup.pin with
      | none => v.epoch
      | some (epoch, _) => epoch
    pinned := match cleanup.pin with
      | none => v.pinned
      | some (_, record) => some record }

end VolumeState

/-! ## The volume on its host -/

/-- A BLX file on disk.  `capture` says which capture of the volume's history wrote it; the
daemon does not have it. -/
structure StoredBlx where
  capture : Nat
  bytes : Bytes
  deriving DecidableEq, Repr

/-- The volume's blobs on the local disk. -/
structure Disk where
  /-- Records, under the fence and number in the blob's name. -/
  journals : ExtTreeMap (UInt64 ×ₗ JournalSeq) Bytes
  blx : ExtTreeMap ObjectIdentity StoredBlx

def Disk.delete (disk : Disk) : BlobName → Disk
  | .journal fence seq => { disk with journals := disk.journals.erase (toLex (fence, seq)) }
  | .blx identity => { disk with blx := disk.blx.erase identity }

section

variable [Platform]

/-- Where a capture stands. -/
inductive CapturePhase where
  /-- The pages are being read. -/
  | draining
  /-- Some files of the batch are on disk, the others are still to be written. -/
  | writing (post : UInt64 × BlockChecksums) (written remaining : List BlxBlob)
  /-- The record is being written. -/
  | recorded (record : JournalRecord) (blobs : List BlxBlob)
  /-- The record is on disk. -/
  | durable (record : JournalRecord) (blobs : List BlxBlob)

/-- One volume on the host that serves it. -/
structure Primary where
  id : VolumeId
  disk : Disk
  volume : VolumeState
  cache : Cache
  /-- How many captures there were; only `StoredBlx.capture` uses it. -/
  captures : Nat
  capture : Option (Cut × CapturePhase)
  cleanups : List Cleanup

inductive CaptureStep where
  | write (page : PageId)
  | resolve (page : PageId) (generation : Gen) (location : PageFileLoc) (valueChecksum : UInt64)
  | sync
  | reserve (kind : CaptureKind) (checkpoint : Option Checkpoint)
      (prepared : List CompactionRescue)
  | drain (read : PageId → Bytes)
  | chunk
  | refuse
  | record
  | writeRecord
  | commit
  | delete (cleanup : Nat)
  | forget (cleanup : Nat)
  | reclaim (identity : ObjectIdentity)

namespace Primary

/-- A new volume, once its first record is on disk (`finish_creation`). -/
def created (id : VolumeId) (config : VolumeConfig) (fence : UInt64) : Option Primary := do
  let record := initialRecord config fence
  let bytes ← record.encode id
  return {
    id := id
    disk := ⟨(∅ : ExtTreeMap (UInt64 ×ₗ JournalSeq) Bytes).insert (toLex (fence, 0)) bytes, ∅⟩
    volume := { VolumeState.fresh config fence with
      nextSeq := 1
      bestRecord := some record
      recordWrites := (∅ : ExtTreeMap JournalSeq (UInt64 × UInt64)).insert 0 (fence, 0) }
    cache := ∅
    captures := 0
    capture := none
    cleanups := [] }

/-- The first write to a clean page faults and is counted. -/
def write (s : Primary) (page : PageId) : Option Primary := do
  ensure (page.volume = s.id ∧ s.volume.config.contains page = true ∧
    (s.cache[page]?.any CacheEntry.dirty) = false)
  let mutationSeq ← checkedAdd s.volume.mutationSeq 1
  return { s with
    volume := { s.volume with mutationSeq := mutationSeq }
    cache := s.cache.markDirty page }

/-- `resolve_archive_mapping` found the page in the archive, in an object of a base or of an earlier
tenure of the volume. -/
def resolve (s : Primary) (page : PageId) (generation : Gen) (location : PageFileLoc)
    (valueChecksum : UInt64) : Option Primary := do
  ensure (page.volume = s.id ∧ s.volume.pageLocs[page]? = none ∧
    (location.base ≠ 0 ∨ location.fence ≠ s.volume.fence))
  return { s with volume := { s.volume with
    nextGen := max s.volume.nextGen (UInt64.ofNat (min (generation.toNat + 1) (2 ^ 64 - 1)))
    blockChecksums := s.volume.blockChecksums.insert
      (BlockKey.fromPage s.volume.config.kind page) (generation, valueChecksum)
    pageLocs := s.volume.pageLocs.insert page (generation, location) } }

/-- `handle_sync`: answered at once if everything up to now is acknowledged already. -/
def sync (s : Primary) : Option Primary := do
  ensure (s.volume.config.kind = .data)
  if s.volume.syncAckThrough < s.volume.mutationSeq then
    return { s with volume := { s.volume with
      pendingSyncs := s.volume.pendingSyncs ++ [s.volume.mutationSeq] } }
  else return s

/-- A checkpoint or migration of a memory volume carries a vmstate, and only memory volumes have a
capture of their own for a migration. -/
def reserve (s : Primary) (kind : CaptureKind) (checkpoint : Option Checkpoint)
    (prepared : List CompactionRescue) : Option Primary := do
  ensure (s.capture.isNone = true)
  ensure (checkpoint.isSome = (s.volume.config.isMemory && decide (kind ≠ .writeback)))
  ensure (kind = .migration → s.volume.config.isMemory = true)
  let (volume, cut) ← s.volume.reserve s.id s.cache kind checkpoint prepared
  let cache ← cut.flushedPages.foldlM Cache.beginFlush s.cache
  return { s with
    volume := volume
    cache := cache
    captures := s.captures + 1
    capture := some (cut, .draining) }

def drain (s : Primary) (read : PageId → Bytes) : Option Primary :=
  match s.capture with
  | some (cut, .draining) => do
    let (post, blobs) ← s.volume.buildBatch s.id cut read
    return { s with capture := some (cut, .writing post [] blobs) }
  | _ => none

/-- The next file is written.  Opening the bytes that were just built cannot fail
(`BlxBatch.opens`). -/
def chunk (s : Primary) : Option Primary :=
  match s.capture with
  | some (cut, .writing post written ((id, bytes, entries) :: remaining)) => do
    let identity := ObjectIdentity.volume s.id s.volume.fence id
    let object ← BlxObject.open bytes
    let cache ← (entries.filterMap fun (page, _) =>
      if page ∈ cut.flushedPages then some page else none).foldlM Cache.endFlush s.cache
    return { s with
      disk := { s.disk with blx := s.disk.blx.insert identity ⟨s.captures, bytes⟩ }
      volume := s.volume.noteChunk identity object entries post
      cache := cache
      capture := some (cut, .writing post (written ++ [(id, bytes, entries)]) remaining) }
  | _ => none

/-- The capture is given up: the pages that no file of it holds become dirty again
(`CaptureLease::drop`). -/
def refuse (s : Primary) : Option Primary :=
  match s.capture with
  | some (cut, .writing _ written (_ :: _)) => do
    let held := written.flatMap fun blob => blob.2.2.map Prod.fst
    let armed := (cut.pages.map Prod.fst).filter fun page => page ∉ held
    let cache ← armed.foldlM Cache.endFlush s.cache
    return { s with cache := armed.foldl Cache.markDirty cache, capture := none }
  | _ => none

def record (s : Primary) : Option Primary :=
  match s.capture with
  | some (cut, .writing post blobs []) =>
    let volume := s.volume.noteBatch s.id cut blobs
    some { s with
      volume := volume
      capture := some (cut, .recorded (volume.captureRecord cut post.1) blobs) }
  | _ => none

def writeRecord (s : Primary) : Option Primary :=
  match s.capture with
  | some (cut, .recorded record blobs) => do
    let bytes ← record.encode s.id
    return { s with
      disk := { s.disk with
        journals := s.disk.journals.insert (toLex (record.fence, record.seq)) bytes }
      capture := some (cut, .durable record blobs) }
  | _ => none

def commit (s : Primary) : Option Primary :=
  match s.capture with
  | some (cut, .durable record blobs) =>
    let volume := s.volume.commitRecord s.id cut record blobs
    -- `checkpoint` pins the record of a data volume itself
    let pin := if cut.kind = .checkpoint ∧ cut.checkpoint = none then some (cut.epoch, record)
      else none
    some { s with
      volume := volume
      capture := none
      cleanups := s.cleanups ++ [volume.selectCleanup pin] }
  | _ => none

/-- The next blob of a cleanup is gone. -/
def delete (s : Primary) (n : Nat) : Option Primary :=
  match s.cleanups[n]? with
  | some ⟨name :: names, records, blx, pin⟩ =>
    some { s with
      disk := s.disk.delete name
      cleanups := s.cleanups.set n ⟨names, records, blx, pin⟩ }
  | _ => none

/-- All blobs of a cleanup are gone. -/
def forget (s : Primary) (n : Nat) : Option Primary :=
  match s.cleanups[n]? with
  | some ⟨[], records, blx, pin⟩ =>
    some { s with
      volume := s.volume.forget ⟨[], records, blx, pin⟩
      cleanups := s.cleanups.eraseIdx n }
  | _ => none

/-- The disk is full, and a file that is in the archive is to go. -/
def reclaim (s : Primary) (identity : ObjectIdentity) : Option Primary := do
  ensure (identity ∈ s.volume.blxBlobs.map Prod.fst ∧ identity ∈ s.volume.backedBlxFiles)
  return { s with cleanups := s.cleanups ++ [⟨[.blx identity], [], [identity], none⟩] }

/-- One step of the volume's captures and of what follows on them. -/
def captureStep (s : Primary) : CaptureStep → Option Primary
  | .write page => s.write page
  | .resolve page generation location checksum => s.resolve page generation location checksum
  | .sync => s.sync
  | .reserve kind checkpoint prepared => s.reserve kind checkpoint prepared
  | .drain read => s.drain read
  | .chunk => s.chunk
  | .refuse => s.refuse
  | .record => s.record
  | .writeRecord => s.writeRecord
  | .commit => s.commit
  | .delete n => s.delete n
  | .forget n => s.forget n
  | .reclaim identity => s.reclaim identity

/-- What a step does: the guards that later proofs need, and the state after it. -/
inductive Stepped (s : Primary) : CaptureStep → Primary → Prop
  | write {page} (mutationSeq) (hadd : checkedAdd s.volume.mutationSeq 1 = some mutationSeq) :
      Stepped s (.write page) { s with
        volume := { s.volume with mutationSeq := mutationSeq }
        cache := s.cache.markDirty page }
  | resolve {page generation location checksum} (nextGen blockChecksums)
      (hforeign : location.base ≠ 0 ∨ location.fence ≠ s.volume.fence) :
      Stepped s (.resolve page generation location checksum) { s with volume := { s.volume with
        nextGen := nextGen
        blockChecksums := blockChecksums
        pageLocs := s.volume.pageLocs.insert page (generation, location) } }
  | wait : Stepped s .sync { s with volume := { s.volume with
      pendingSyncs := s.volume.pendingSyncs ++ [s.volume.mutationSeq] } }
  | answer : Stepped s .sync s
  | reserve {kind checkpoint prepared} (volume cut cache) (hidle : s.capture = none)
      (hmemory : checkpoint.isSome = (s.volume.config.isMemory && decide (kind ≠ .writeback)))
      (hcut : s.volume.reserve s.id s.cache kind checkpoint prepared = some (volume, cut)) :
      Stepped s (.reserve kind checkpoint prepared) { s with
        volume := volume
        cache := cache
        captures := s.captures + 1
        capture := some (cut, .draining) }
  | drain {read} (cut post blobs) (hcapture : s.capture = some (cut, .draining))
      (hbuild : s.volume.buildBatch s.id cut read = some (post, blobs)) :
      Stepped s (.drain read) { s with capture := some (cut, .writing post [] blobs) }
  | chunk (cut post written remaining id bytes entries object cache)
      (hcapture : s.capture = some (cut, .writing post written ((id, bytes, entries) :: remaining)))
      (hopen : BlxObject.open bytes = some object) :
      Stepped s .chunk { s with
        disk := { s.disk with
          blx := s.disk.blx.insert (.volume s.id s.volume.fence id) ⟨s.captures, bytes⟩ }
        volume := s.volume.noteChunk (.volume s.id s.volume.fence id) object entries post
        cache := cache
        capture := some (cut, .writing post (written ++ [(id, bytes, entries)]) remaining) }
  | refuse (cut post written remaining cache)
      (hcapture : s.capture = some (cut, .writing post written remaining)) :
      Stepped s .refuse { s with cache := cache, capture := none }
  | record (cut post blobs) (hcapture : s.capture = some (cut, .writing post blobs [])) :
      Stepped s .record { s with
        volume := s.volume.noteBatch s.id cut blobs
        capture := some (cut, .recorded
          ((s.volume.noteBatch s.id cut blobs).captureRecord cut post.1) blobs) }
  | writeRecord (cut record blobs bytes) (hcapture : s.capture = some (cut, .recorded record blobs))
      (hbytes : record.encode s.id = some bytes) :
      Stepped s .writeRecord { s with
        disk := { s.disk with
          journals := s.disk.journals.insert (toLex (record.fence, record.seq)) bytes }
        capture := some (cut, .durable record blobs) }
  | commit (cut record blobs pin) (hcapture : s.capture = some (cut, .durable record blobs)) :
      Stepped s .commit { s with
        volume := s.volume.commitRecord s.id cut record blobs
        capture := none
        cleanups := s.cleanups ++
          [(s.volume.commitRecord s.id cut record blobs).selectCleanup pin] }
  | delete {n} (name names records blx pin)
      (hc : s.cleanups[n]? = some ⟨name :: names, records, blx, pin⟩) :
      Stepped s (.delete n) { s with
        disk := s.disk.delete name
        cleanups := s.cleanups.set n ⟨names, records, blx, pin⟩ }
  | forget {n} (c) (hc : s.cleanups[n]? = some c) :
      Stepped s (.forget n) { s with
        volume := s.volume.forget c
        cleanups := s.cleanups.eraseIdx n }
  | reclaim {identity} (hblob : identity ∈ s.volume.blxBlobs.map Prod.fst)
      (hbacked : identity ∈ s.volume.backedBlxFiles) :
      Stepped s (.reclaim identity) { s with
        cleanups := s.cleanups ++ [⟨[.blx identity], [], [identity], none⟩] }

theorem stepped {s t : Primary} {a : CaptureStep} (h : s.captureStep a = some t) :
    s.Stepped a t := by
  cases a with
  | write page =>
    simp only [captureStep, write, bind_eq_some, pure_eq_some] at h
    obtain ⟨_, -, mutationSeq, hadd, rfl⟩ := h
    exact .write mutationSeq hadd
  | resolve page generation location checksum =>
    simp only [captureStep, resolve, bind_eq_some, ensure_eq_some, pure_eq_some, exists_const] at h
    obtain ⟨⟨-, -, hforeign⟩, rfl⟩ := h
    exact .resolve _ _ hforeign
  | sync =>
    simp only [captureStep, sync, bind_eq_some] at h
    obtain ⟨_, -, h⟩ := h
    split at h <;> cases h
    · exact .wait
    · exact .answer
  | reserve kind checkpoint prepared =>
    simp only [captureStep, reserve, bind_eq_some, ensure_eq_some, pure_eq_some, exists_const,
      Prod.exists, Option.isNone_iff_eq_none] at h
    obtain ⟨hidle, hmemory, -, volume, cut, hcut, cache, -, rfl⟩ := h
    exact .reserve volume cut cache hidle hmemory hcut
  | drain read =>
    simp only [captureStep, drain] at h
    split at h <;> simp only [bind_eq_some, pure_eq_some, reduceCtorEq] at h
    obtain ⟨⟨post, blobs⟩, hbuild, rfl⟩ := h
    exact .drain _ post blobs ‹_› hbuild
  | chunk =>
    simp only [captureStep, chunk] at h
    split at h <;> simp only [bind_eq_some, pure_eq_some, reduceCtorEq] at h
    obtain ⟨object, hopen, cache, -, rfl⟩ := h
    exact .chunk _ _ _ _ _ _ _ object cache ‹_› hopen
  | refuse =>
    simp only [captureStep, refuse] at h
    split at h <;> simp only [bind_eq_some, pure_eq_some, reduceCtorEq] at h
    obtain ⟨cache, -, rfl⟩ := h
    exact .refuse _ _ _ _ _ ‹_›
  | record =>
    simp only [captureStep, record] at h
    split at h <;> cases h
    exact .record _ _ _ ‹_›
  | writeRecord =>
    simp only [captureStep, writeRecord] at h
    split at h <;> simp only [bind_eq_some, pure_eq_some, reduceCtorEq] at h
    obtain ⟨bytes, hbytes, rfl⟩ := h
    exact .writeRecord _ _ _ bytes ‹_› hbytes
  | commit =>
    simp only [captureStep, commit] at h
    split at h <;> cases h
    exact .commit _ _ _ _ ‹_›
  | delete n =>
    simp only [captureStep, delete] at h
    split at h <;> cases h
    exact .delete _ _ _ _ _ ‹_›
  | forget n =>
    simp only [captureStep, forget] at h
    split at h <;> cases h
    exact .forget _ ‹_›
  | reclaim identity =>
    simp only [captureStep, reclaim, bind_eq_some, ensure_eq_some, pure_eq_some, exists_const] at h
    obtain ⟨⟨hblob, hbacked⟩, rfl⟩ := h
    exact .reclaim hblob hbacked

theorem writeRecord_of_encode {s : Primary} {cut : Cut} {record : JournalRecord}
    {blobs : List BlxBlob} {bytes : Bytes} (hcapture : s.capture = some (cut, .recorded record blobs))
    (hbytes : record.encode s.id = some bytes) :
    s.captureStep .writeRecord = some { s with
      disk := { s.disk with
        journals := s.disk.journals.insert (toLex (record.fence, record.seq)) bytes }
      capture := some (cut, .durable record blobs) } := by
  simp only [captureStep, writeRecord, hcapture, hbytes, some_bind, Option.pure_def]

end Primary

end

end Blockd
