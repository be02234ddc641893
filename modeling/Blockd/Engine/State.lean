import Mathlib
import Blockd.Engine.FileTable
import Blockd.Journal

/-!
# The state of one volume

The part of `VolumeState` (`engine/state.rs`) that captures, publications, reclaim and recovery
read and write: the newest location of every page, the table of BLX files the volume has on its
local disk, the counters, and the records that keep files alive.

* `VolumeState.recoveryFiles` — the files a record has to name (`recovery_files`, `capture.rs`);
* `VolumeState.retentionClosure` — what the newest records keep on disk (`retention_closure`).

A `BTreeSet` is an `ExtTreeSet` where its order is used, and a `Finset` where it is not.
-/

set_option autoImplicit false

open Codec
open Std (ExtTreeMap ExtTreeSet)

namespace Blockd

/-! ## The page cache -/

/-- A resident page: whether the guest changed it since the last capture, and how many captures of
it are still being written. -/
structure CacheEntry where
  dirty : Bool
  flushing : Nat
  deriving DecidableEq, Repr

abbrev Cache := ExtTreeMap PageId CacheEntry

namespace Cache

def evictable (entry : CacheEntry) : Bool := !entry.dirty && entry.flushing == 0

/-- The fault of a guest write. -/
def markDirty (cache : Cache) (page : PageId) : Cache :=
  cache.insert page ⟨true, (cache[page]?.map CacheEntry.flushing).getD 0⟩

/-- A capture takes the page's current content. -/
def beginFlush (cache : Cache) (page : PageId) : Option Cache := do
  let entry ← cache[page]?
  return cache.insert page ⟨false, entry.flushing + 1⟩

/-- One capture of the page is durable, or given up. -/
def endFlush (cache : Cache) (page : PageId) : Option Cache := do
  let entry ← cache[page]?
  ensure (0 < entry.flushing)
  return cache.insert page { entry with flushing := entry.flushing - 1 }

/-- The pages whose current content is not durable: dirty, or still being written. -/
def unstablePages (cache : Cache) : List PageId :=
  (cache.toList.filter fun p => !evictable p.2).map Prod.fst

def hasDirty (cache : Cache) : Bool := cache.toList.any fun p => p.2.dirty

end Cache

variable [Platform]

/-! ## Checksums of the logical state -/

abbrev BlockChecksums := ExtTreeMap BlockKey (Gen × UInt64)

omit [Platform] in
def stateContribution (key : BlockKey) (generation : Gen) (valueChecksum : UInt64) : UInt64 :=
  checksum64 (key.encode ++ encU64 generation ++ encU64 valueChecksum)

/-- Take a block's contribution out of the checksum and put the new one in. -/
def replaceStateBlock (state : UInt64 × BlockChecksums) (key : BlockKey)
    (value : Option (Gen × UInt64)) : UInt64 × BlockChecksums :=
  let removed := match state.2[key]? with
    | none => state.1
    | some old => state.1 ^^^ stateContribution key old.1 old.2
  match value with
  | none => (removed, state.2.erase key)
  | some new => (removed ^^^ stateContribution key new.1 new.2, state.2.insert key new)

/-- The vmstate bytes as whole blocks, the last one padded with zeros. -/
def vmmSnapshotBlocks (bytes : Bytes) : Option (List (BlockKey × Bytes)) := do
  let count := (bytes.length + pageSize - 1) / pageSize
  ensure (count ≤ 2 ^ 32)
  return (List.range count).map fun block =>
    let chunk := (bytes.drop (block * pageSize)).take pageSize
    (⟨.vmm, UInt32.ofNat block⟩, chunk ++ List.replicate (pageSize - chunk.length) 0)

/-! ## Volumes -/

/-- What the daemon keeps in memory of one volume. -/
structure VolumeState where
  config : VolumeConfig
  fence : UInt64
  epoch : Epoch
  /-- One more with every write fault of the guest. -/
  mutationSeq : UInt64
  /-- The newest checksum of every block, and their exclusive or. -/
  blockChecksums : BlockChecksums
  stateChecksum : UInt64
  /-- Blocks a cold boot discarded, for which a deletion marker has to be written. -/
  pendingTombstones : ExtTreeSet BlockKey
  pageLocs : ExtTreeMap PageId (Gen × PageFileLoc)
  nextGen : Gen
  nextSeq : JournalSeq
  nextObjectId : ObjectId
  bestRecord : Option JournalRecord
  localCoveredThrough : UInt64
  syncAckThrough : UInt64
  /-- The barriers of the syncs that wait for an answer. -/
  pendingSyncs : List UInt64
  pinned : Option JournalRecord
  /-- The records on disk: number, fence and the sync they cover. -/
  recordWrites : ExtTreeMap JournalSeq (UInt64 × UInt64)
  /-- The files each record's own capture wrote. -/
  recordBlxFiles : ExtTreeMap JournalSeq (Finset ObjectIdentity)
  /-- The files on disk, in the order they were written, with their sizes. -/
  blxBlobs : List (ObjectIdentity × Nat)
  blxRefs : ExtTreeMap ObjectIdentity ObjectRef
  /-- The batch that carries the newest resumable VMM snapshot. -/
  vmmBlxFiles : Finset ObjectIdentity
  archivedMemoryUsable : Bool
  /-- The files that hold deletion markers. -/
  tombstoneBlxFiles : Finset ObjectIdentity
  /-- The files the archive has. -/
  backedBlxFiles : Finset ObjectIdentity
  replicatingBlxFiles : Finset ObjectIdentity
  publishingBlxFiles : Finset ObjectIdentity
  peerCommittedRecord : Option JournalRecord

namespace VolumeState

def fresh (config : VolumeConfig) (fence : UInt64) : VolumeState where
  config := config
  fence := fence
  epoch := 0
  mutationSeq := 0
  blockChecksums := ∅
  stateChecksum := 0
  pendingTombstones := ∅
  pageLocs := ∅
  nextGen := 0
  nextSeq := 0
  nextObjectId := 0
  bestRecord := none
  localCoveredThrough := 0
  syncAckThrough := 0
  pendingSyncs := []
  pinned := none
  recordWrites := ∅
  recordBlxFiles := ∅
  blxBlobs := []
  blxRefs := ∅
  vmmBlxFiles := ∅
  archivedMemoryUsable := true
  tombstoneBlxFiles := ∅
  backedBlxFiles := ∅
  replicatingBlxFiles := ∅
  publishingBlxFiles := ∅
  peerCommittedRecord := none

/-- The table of files as a partial map. -/
abbrev files (v : VolumeState) (i : ObjectIdentity) : Option ObjectRef := v.blxRefs[i]?

/-! ### The files a record names -/

/-- The files that hold the newest content of a page, a deletion marker or the VMM snapshot. -/
def neededBlx (v : VolumeState) : Finset ObjectIdentity :=
  (v.pageLocs.toList.filterMap fun (page, _, location) =>
    if location.base = 0 then some (location.identity page.volume) else none).toFinset ∪
  v.tombstoneBlxFiles ∪ v.vmmBlxFiles

/-- The batches of the needed files. -/
def neededBatches (v : VolumeState) : Finset (UInt64 × UInt64) :=
  ((v.blxRefs.toList.filter fun p => p.1 ∈ v.neededBlx).map fun p =>
    (p.2.identity.writerFence, p.2.batchId)).toFinset

def recoveryFiles (v : VolumeState) : List ObjectRef :=
  (v.blxRefs.toList.map Prod.snd).filter fun file =>
    (file.identity.writerFence, file.batchId) ∈ v.neededBatches

/-! ### What stays on disk -/

/-- The records that keep themselves and their files on disk. -/
def keptRecords (v : VolumeState) : List JournalRecord :=
  [v.bestRecord, v.pinned, v.peerCommittedRecord].reduceOption

/-- The files one kept record keeps. -/
def recordClosure (v : VolumeState) (record : JournalRecord) : Finset ObjectIdentity :=
  ((record.files.map ObjectRef.identity).filter fun i => i.namespaceKind = .volume).toFinset ∪
  (v.recordBlxFiles[record.seq]?).getD ∅ ∪
  (record.runtimePageIndex.toList.filterMap fun (page, _, location) =>
    if location.base = 0 then some (location.identity page.volume) else none).toFinset

def retentionClosure (v : VolumeState) : Finset (UInt64 × JournalSeq) × Finset ObjectIdentity :=
  ((v.keptRecords.map fun record => (record.fence, record.seq)).toFinset,
    v.keptRecords.foldr (fun record files => v.recordClosure record ∪ files) ∅)

end VolumeState

/-! ## Which files are needed -/

namespace VolumeState

variable {v : VolumeState} {i : ObjectIdentity} {r : ObjectRef}

theorem mem_neededBlx : i ∈ v.neededBlx ↔
    (∃ (page : PageId) (gen : Gen) (loc : PageFileLoc), v.pageLocs[page]? = some (gen, loc) ∧
      loc.base = 0 ∧ loc.identity page.volume = i) ∨
    i ∈ v.tombstoneBlxFiles ∨ i ∈ v.vmmBlxFiles := by
  simp only [neededBlx, Finset.mem_union, List.mem_toFinset, List.mem_filterMap, Prod.exists,
    ExtTreeMap.mem_toList_iff_getElem?_eq_some, or_assoc, Option.ite_none_right_eq_some,
    Option.some.injEq]

/-- The reference belongs to a batch the volume needs a file of. -/
def NeedsBatch (v : VolumeState) (r : ObjectRef) : Prop :=
  ∃ i q, v.files i = some q ∧ i ∈ v.neededBlx ∧ q.SameBatch r

theorem mem_recoveryFiles : r ∈ v.recoveryFiles ↔
    (∃ i, v.files i = some r) ∧ v.NeedsBatch r := by
  have hbatch : (r.identity.writerFence, r.batchId) ∈ v.neededBatches ↔ v.NeedsBatch r := by
    simp only [neededBatches, List.mem_toFinset, List.mem_map, List.mem_filter, Prod.exists,
      ExtTreeMap.mem_toList_iff_getElem?_eq_some, decide_eq_true_eq, Prod.mk.injEq, and_assoc]
    exact Iff.rfl
  rw [recoveryFiles, List.mem_filter, decide_eq_true_iff, hbatch]
  simp only [List.mem_map, Prod.exists, ExtTreeMap.mem_toList_iff_getElem?_eq_some,
    exists_eq_right]

theorem nodup_recoveryFiles (hid : ∀ i r, v.files i = some r → r.identity = i) :
    (v.recoveryFiles.map ObjectRef.identity).Nodup := by
  refine List.Nodup.sublist (List.filter_sublist.map _) ?_
  rw [List.map_map]
  refine List.pairwise_map.mpr ((Maps.pairwise_toList v.blxRefs).imp_of_mem
    fun {p q} hp hq hlt heq => hlt.ne ?_)
  rw [ExtTreeMap.mem_toList_iff_getElem?_eq_some] at hp hq
  exact (hid p.1 p.2 hp).symm.trans (heq.trans (hid q.1 q.2 hq))

/-- **The files of a record pass the validation** when every needed batch is complete. -/
theorem validBatches_recoveryFiles {volume : VolumeId}
    (htable : FileTable volume v.files)
    (hcomplete : ∀ i r, v.files i = some r → i ∈ v.neededBlx → Complete v.files r) :
    ValidBatches v.recoveryFiles := by
  refine htable.validBatches (nodup_recoveryFiles htable.identity) ?_ ?_ ?_
  · intro r hr
    obtain ⟨⟨i, hi⟩, -⟩ := mem_recoveryFiles.mp hr
    rw [htable.identity i r hi]
    exact hi
  · intro r hr i q hq hsame
    obtain ⟨-, j, p, hp, hneed, hpr⟩ := mem_recoveryFiles.mp hr
    exact mem_recoveryFiles.mpr ⟨⟨i, hq⟩, j, p, hp, hneed, hpr.trans hsame.symm⟩
  · intro r hr
    obtain ⟨⟨i, hi⟩, j, p, hp, hneed, hpr⟩ := mem_recoveryFiles.mp hr
    have hfields := (htable.siblings j p i r hp hi hpr).fields
    have hcount : r.chunkCount = p.chunkCount := (congrArg Prod.fst hfields).symm
    intro k hk
    rw [hcount] at hk
    obtain ⟨m, q, hq, hqp, hindex⟩ := hcomplete j p hp hneed k hk
    exact ⟨m, q, hq, hqp.trans hpr, hindex⟩

/-! ## Which files are kept -/

theorem mem_retentionClosure : i ∈ v.retentionClosure.2 ↔
    ∃ record ∈ v.keptRecords, i ∈ v.recordClosure record := by
  rw [retentionClosure]
  induction v.keptRecords with
  | nil => simp
  | cons record records ih =>
    rw [List.foldr_cons, Finset.mem_union, ih]
    simp

/-- The newest record keeps the files it names. -/
theorem mem_retentionClosure_of_best {record : JournalRecord} (hbest : v.bestRecord = some record)
    (hr : r ∈ record.files) (hkind : r.identity.namespaceKind = .volume) :
    r.identity ∈ v.retentionClosure.2 := by
  refine mem_retentionClosure.mpr ⟨record, ?_, ?_⟩
  · simp [keptRecords, hbest, List.reduceOption]
  · simp only [recordClosure, Finset.mem_union, List.mem_toFinset, List.mem_filter, List.mem_map,
      decide_eq_true_eq]
    exact .inl (.inl ⟨⟨r, hr, rfl⟩, hkind⟩)

end VolumeState

end Blockd
