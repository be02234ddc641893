import Blockd.Format
import Blockd.Lib.Maps

/-!
# BLX objects

`blx.rs`, the one page-data format used on local disk, on the passive and in the object store: a
header frame, one frame per block, a footer frame that indexes them, and a 16-byte trailer that
locates the footer.

* `BlockKey` and its order, which keeps every file partition an interval of keys.
* `BlxBatchBuilder`, which turns a map from keys to newest entries into consecutive objects.
* `BlxObject.scan` and `BlxObject.open`, which verify every byte of an object.

Where the source panics (an `assert!` or an `expect` that fails) a definition here answers `none`.
-/

set_option autoImplicit false

open Codec
open Std (ExtTreeMap)

namespace Blockd

/-! ## Constants -/

def magicHeader : UInt32 := magicOf 'B' 'L' 'X' 'H'
def magicEntry : UInt32 := magicOf 'B' 'L' 'X' 'E'
def magicFooter : UInt32 := magicOf 'B' 'L' 'X' 'F'
def magicTrailer : UInt32 := magicOf 'B' 'L' 'X' 'T'
def targetFileBytes : Nat := 32 * 1024 * 1024
def maxFileBytes : Nat := 64 * 1024 * 1024
def maxOverlappingFiles : Nat := 8
def trailerBytes : Nat := 16
def headerVersion : UInt16 := 1
def headerPayloadBytes : Nat := 2 + 4 + 1 + 8 * 6 + 4 * 3 + 8 * 2 + 8 * 2
def headerBytes : Nat := frameHeader + headerPayloadBytes
def footerPrefixBytes : Nat := 2 + 4
def footerEntryBytes : Nat := 8 + 4 + 4 + 8 + 1 + 7 + 8
def namespacesPerFilePartition : Nat := 8

/-! ## Namespaces, spaces and keys -/

inductive NamespaceKind where
  | volume
  | importedBase
  deriving DecidableEq, Repr

def NamespaceKind.toByte : NamespaceKind → UInt8
  | .volume => 0
  | .importedBase => 1

def NamespaceKind.decode (value : UInt8) : Option NamespaceKind :=
  if value = 0 then some .volume else if value = 1 then some .importedBase else none

theorem NamespaceKind.decode_toByte (k : NamespaceKind) : decode k.toByte = some k := by
  cases k <;> rfl

theorem NamespaceKind.decode_eq_some {value : UInt8} {k : NamespaceKind} :
    decode value = some k ↔ value = k.toByte := by
  refine ⟨fun h => ?_, fun h => h ▸ k.decode_toByte⟩
  rw [decode] at h
  split_ifs at h <;> obtain rfl := Option.some.inj h <;> assumption

inductive BlockSpace where
  | memory
  | data
  | vmm
  deriving DecidableEq, Repr

def BlockSpace.toByte : BlockSpace → UInt8
  | .memory => 0
  | .data => 1
  | .vmm => 2

def BlockSpace.decode (value : UInt8) : Option BlockSpace :=
  if value = 0 then some .memory
  else if value = 1 then some .data
  else if value = 2 then some .vmm
  else none

theorem BlockSpace.decode_toByte (s : BlockSpace) : decode s.toByte = some s := by
  cases s <;> rfl

theorem BlockSpace.decode_eq_some {value : UInt8} {s : BlockSpace} :
    decode value = some s ↔ value = s.toByte := by
  refine ⟨fun h => ?_, fun h => h ▸ s.decode_toByte⟩
  rw [decode] at h
  split_ifs at h <;> obtain rfl := Option.some.inj h <;> assumption

structure BlockKey where
  space : BlockSpace
  block : UInt32
  deriving DecidableEq, Repr

section

variable [Platform]

def blocksPerFilePartition : Nat :=
  max (targetFileBytes / pageSize / namespacesPerFilePartition) 1

namespace BlockKey

def namespaceRank (k : BlockKey) : Nat :=
  match k.space with
  | .memory => 0
  | .vmm => 1
  | .data => 2

def filePartition (k : BlockKey) : Nat × Nat :=
  (k.block.toNat / blocksPerFilePartition, k.namespaceRank / namespacesPerFilePartition)

/-- The tuple the source compares: partition, rank, then the block within the partition. -/
def code (k : BlockKey) : Nat ×ₗ Nat ×ₗ Nat ×ₗ Nat :=
  toLex (k.block.toNat / blocksPerFilePartition,
    toLex (k.namespaceRank / namespacesPerFilePartition,
      toLex (k.namespaceRank, k.block.toNat % blocksPerFilePartition)))

theorem code_injective : Function.Injective code := by
  rintro ⟨s, b⟩ ⟨t, c⟩ h
  simp only [code, EmbeddingLike.apply_eq_iff_eq, Prod.mk.injEq] at h
  obtain ⟨hdiv, -, hrank, hmod⟩ := h
  have hspace : s = t := by
    cases s <;> cases t <;> simp [namespaceRank] at hrank ⊢
  have hblock : b.toNat = c.toNat := by
    rw [← Nat.div_add_mod b.toNat blocksPerFilePartition, hdiv, hmod,
      Nat.div_add_mod]
  rw [hspace, UInt32.toNat_inj.mp hblock]

instance : LinearOrder BlockKey := LinearOrder.lift' code code_injective

instance : Std.TransOrd BlockKey := Maps.transOrd

end BlockKey

end

namespace BlockKey

def fromPage (kind : VolumeKind) (page : PageId) : BlockKey :=
  match kind with
  | .memory => ⟨.memory, page.page⟩
  | .data => ⟨.data, page.page⟩

def toPage (k : BlockKey) (kind : VolumeKind) (volume : VolumeId) : Option PageId :=
  match kind, k.space with
  | .memory, .memory => some ⟨volume, k.block⟩
  | .data, .data => some ⟨volume, k.block⟩
  | _, _ => none

/-- Convert a stored page key without needing the manifest's volume kind. -/
def toPageId (k : BlockKey) (volume : VolumeId) : Option PageId :=
  match k.space with
  | .memory => some ⟨volume, k.block⟩
  | .data => some ⟨volume, k.block⟩
  | .vmm => none

def encode (k : BlockKey) : Bytes :=
  encU8 k.space.toByte ++ encU8 0 ++ encU16 0 ++ encU32 k.block

def decode : Dec BlockKey := do
  let space ← Dec.ofOption (BlockSpace.decode (← Dec.u8))
  let pad ← Dec.u8
  Dec.require (pad == 0)
  let pad' ← Dec.u16
  Dec.require (pad' == 0)
  let block ← Dec.u32
  return ⟨space, block⟩

@[simp] theorem length_encode (k : BlockKey) : k.encode.length = 8 := by
  simp [encode]

theorem reads (k : BlockKey) : Reads decode k.encode k := by
  simp only [encode, List.append_assoc]
  refine Reads.bind (Reads.u8 _) (Reads.ofOption_bind k.space.decode_toByte ?_)
  refine Reads.bind (Reads.u8 0) (Reads.require_bind rfl ?_)
  refine Reads.bind (Reads.u16 0) (Reads.require_bind rfl ?_)
  exact Reads.bind_last (Reads.u32 _) (Reads.pure _)

theorem decode_exact : Exact decode encode fun _ => True := by
  refine Exact.of_reads (fun k _ => k.reads) (Accepts.bind Exact.u8 fun tag _ => ?_)
  refine Accepts.ofOption_bind fun space hspace => Accepts.expect_bind Exact.u8 ?_
  refine Accepts.expect_bind Exact.u16 (Accepts.bind Exact.u32 fun block _ => ?_)
  refine Accepts.pure fun _ => ⟨?_, trivial⟩
  rw [BlockSpace.decode_eq_some.mp hspace]
  simp only [encode, List.append_assoc, List.append_nil]

end BlockKey

/-! ## Headers -/

structure BlxHeader where
  blockSize : UInt32
  namespaceKind : NamespaceKind
  namespaceId : UInt64
  writerFence : UInt64
  objectId : UInt64
  minSeq : UInt64
  maxSeq : UInt64
  batchId : UInt64
  chunkIndex : UInt32
  chunkCount : UInt32
  entryCount : UInt32
  firstKey : BlockKey
  lastKey : BlockKey
  preStateChecksum : UInt64
  postStateChecksum : UInt64
  deriving DecidableEq, Repr

def BlxHeader.payload (h : BlxHeader) : Bytes :=
  encU16 headerVersion ++ encU32 h.blockSize ++ encU8 h.namespaceKind.toByte ++
  encU64 h.namespaceId ++ encU64 h.writerFence ++ encU64 h.objectId ++ encU64 h.minSeq ++
  encU64 h.maxSeq ++ encU64 h.batchId ++ encU32 h.chunkIndex ++ encU32 h.chunkCount ++
  encU32 h.entryCount ++ h.firstKey.encode ++ h.lastKey.encode ++
  encU64 h.preStateChecksum ++ encU64 h.postStateChecksum

def encodeHeader (h : BlxHeader) : Option Bytes := sealFrame magicHeader h.payload

/-! ## Entries and footers -/

inductive EntryKind where
  | data
  | tombstone
  deriving DecidableEq, Repr

def EntryKind.toByte : EntryKind → UInt8
  | .data => 0
  | .tombstone => 1

def EntryKind.decode (value : UInt8) : Option EntryKind :=
  if value = 0 then some .data else if value = 1 then some .tombstone else none

theorem EntryKind.decode_toByte (k : EntryKind) : decode k.toByte = some k := by
  cases k <;> rfl

structure FooterEntry where
  key : BlockKey
  offset : UInt32
  length : UInt32
  generation : Gen
  kind : EntryKind
  /-- Checksum of the uncompressed block.  Tombstones use zero. -/
  valueChecksum : UInt64
  deriving DecidableEq, Repr

def FooterEntry.encode (e : FooterEntry) : Bytes :=
  e.key.encode ++ encU32 e.offset ++ encU32 e.length ++ encU64 e.generation ++
  encU8 e.kind.toByte ++ List.replicate 7 0 ++ encU64 e.valueChecksum

def FooterEntry.digest (f : FooterEntry) : BlockKey × Gen × EntryKind × UInt64 :=
  (f.key, f.generation, f.kind, f.valueChecksum)

structure BlxFooter where
  entries : List FooterEntry
  deriving DecidableEq, Repr

/-- One block of a batch: its newest bytes, or the fact that it was discarded. -/
inductive BlxEntry where
  | data (key : BlockKey) (generation : Gen) (bytes : Bytes)
  | tombstone (key : BlockKey) (generation : Gen)
  deriving DecidableEq, Repr

namespace BlxEntry

def key : BlxEntry → BlockKey
  | .data key _ _ => key
  | .tombstone key _ => key

def generation : BlxEntry → Gen
  | .data _ generation _ => generation
  | .tombstone _ generation => generation

def kind : BlxEntry → EntryKind
  | .data .. => .data
  | .tombstone .. => .tombstone

/-- Checksum of the uncompressed block, zero for a tombstone. -/
def valueChecksum : BlxEntry → UInt64
  | .data _ _ bytes => checksum64 bytes
  | .tombstone .. => 0

/-- What the footer repeats of an entry. -/
def digest (e : BlxEntry) : BlockKey × Gen × EntryKind × UInt64 :=
  (e.key, e.generation, e.kind, e.valueChecksum)

end BlxEntry

def encodeFooter (footer : BlxFooter) : Option Bytes :=
  if footer.entries.length < 2 ^ 32 then
    sealFrame magicFooter (encU16 1 ++ encU32 (UInt32.ofNat footer.entries.length) ++
      footer.entries.flatMap FooterEntry.encode)
  else none

def encodeTrailer (footerOffset footerLength : UInt32) : Bytes :=
  let lead := encU32 magicTrailer ++ encU32 footerOffset ++ encU32 footerLength
  lead ++ encU32 (crc32c lead)

def openTrailer (bytes : Bytes) : Option (UInt32 × UInt32) :=
  if bytes.length ≠ trailerBytes then none
  else Dec.decode (do
    let magic ← Dec.u32
    Dec.require (magic == magicTrailer)
    let offset ← Dec.u32
    let length ← Dec.u32
    let checksum ← Dec.u32
    Dec.finish
    Dec.require (crc32c (bytes.take 12) == checksum)
    return (offset, length)) bytes

/-- The bytes from `start` up to `stop`. -/
def slice (bytes : Bytes) (start stop : Nat) : Bytes := (bytes.drop start).take (stop - start)

variable [Platform]

/-! ## Opening headers, entries and footers -/

def headerDec : Dec BlxHeader := do
  let version ← Dec.u16
  Dec.require (version == headerVersion)
  let blockSize ← Dec.u32
  let namespaceKind ← Dec.ofOption (NamespaceKind.decode (← Dec.u8))
  let namespaceId ← Dec.u64
  let writerFence ← Dec.u64
  let objectId ← Dec.u64
  let minSeq ← Dec.u64
  let maxSeq ← Dec.u64
  let batchId ← Dec.u64
  let chunkIndex ← Dec.u32
  let chunkCount ← Dec.u32
  let entryCount ← Dec.u32
  let firstKey ← BlockKey.decode
  let lastKey ← BlockKey.decode
  let preStateChecksum ← Dec.u64
  let postStateChecksum ← Dec.u64
  Dec.finish
  return ⟨blockSize, namespaceKind, namespaceId, writerFence, objectId, minSeq, maxSeq, batchId,
    chunkIndex, chunkCount, entryCount, firstKey, lastKey, preStateChecksum, postStateChecksum⟩

/-- What `BlxHeader::open` demands of the fields it decoded. -/
def BlxHeader.wellFormed (h : BlxHeader) : Bool :=
  h.blockSize == pageSizeField && decide (h.minSeq ≤ h.maxSeq) && h.chunkCount != 0 &&
  decide (h.chunkIndex < h.chunkCount) && h.entryCount != 0 && decide (h.firstKey ≤ h.lastKey)

def BlxHeader.open (bytes : Bytes) : Option (BlxHeader × Nat) :=
  if bytes.length < headerBytes then none
  else do
    let payload ← openFrame magicHeader (bytes.take headerBytes)
    let header ← headerDec.decode payload
    ensure (header.wellFormed = true)
    return (header, headerBytes)

def encodeEntry (entry : BlxEntry) : Option Bytes :=
  match entry with
  | .tombstone key generation =>
    sealFrame magicEntry (encU8 EntryKind.tombstone.toByte ++ key.encode ++ encU64 generation)
  | .data key generation bytes =>
    let compressed := Platform.compress bytes
    if bytes.length < 2 ^ 32 ∧ compressed.length < 2 ^ 32 then
      sealFrame magicEntry (encU8 EntryKind.data.toByte ++ key.encode ++ encU64 generation ++
        encU32 (UInt32.ofNat bytes.length) ++ encU32 (UInt32.ofNat compressed.length) ++
        compressed)
    else none

def entryDec : Dec BlxEntry := do
  let kind ← Dec.ofOption (EntryKind.decode (← Dec.u8))
  let key ← BlockKey.decode
  let generation ← Dec.u64
  match kind with
  | .data =>
    let rawLen ← Dec.u32
    let storedLen ← Dec.u32
    Dec.require (rawLen.toNat == pageSize)
    let compressed ← Dec.bytes storedLen.toNat
    let bytes ← Dec.ofOption (Platform.decompress compressed rawLen.toNat)
    Dec.finish
    return .data key generation bytes
  | .tombstone =>
    Dec.finish
    return .tombstone key generation

def BlxEntry.open (bytes : Bytes) : Option BlxEntry := do
  let payload ← openFrame magicEntry bytes
  entryDec.decode payload

def footerEntryDec : Dec FooterEntry := do
  let key ← BlockKey.decode
  let offset ← Dec.u32
  let length ← Dec.u32
  let generation ← Dec.u64
  let kind ← Dec.ofOption (EntryKind.decode (← Dec.u8))
  let reserved ← Dec.bytes 7
  Dec.require (reserved == List.replicate 7 0)
  let valueChecksum ← Dec.u64
  return ⟨key, offset, length, generation, kind, valueChecksum⟩

/-- The loop over the footer's entries: keys strictly increase, tombstones carry no checksum. -/
def footerEntriesDec : Nat → Option BlockKey → Dec (List FooterEntry)
  | 0, _ => pure []
  | n + 1, previous => do
    let entry ← footerEntryDec
    Dec.require (!(entry.kind == .tombstone && entry.valueChecksum != 0))
    Dec.require (!(previous.any fun key => decide (entry.key ≤ key)))
    let entries ← footerEntriesDec n (some entry.key)
    return entry :: entries

def BlxFooter.open (bytes : Bytes) : Option BlxFooter := do
  let payload ← openFrame magicFooter bytes
  Dec.decode (do
    let version ← Dec.u16
    Dec.require (version == 1)
    let count ← Dec.u32
    let remaining ← Dec.remaining
    Dec.require (remaining == count.toNat * footerEntryBytes)
    let entries ← footerEntriesDec count.toNat none
    Dec.finish
    return ⟨entries⟩) payload

/-! ## Objects -/

structure BlxObject where
  header : BlxHeader
  footer : BlxFooter
  footerOffset : UInt32
  footerLength : UInt32
  checksum : UInt64
  bytes : Bytes
  deriving DecidableEq, Repr

/-- The loop of `BlxObject::scan`: each footer entry starts where the previous one ended, stays in
front of the footer and describes the entry stored there.  Answers the end of the last entry. -/
def scanEntries (bytes : Bytes) (footerOffset : Nat) : List FooterEntry → Nat → Option Nat
  | [], expectedOffset => some expectedOffset
  | f :: fs, expectedOffset => do
    let offset := f.offset.toNat
    let stop := offset + f.length.toNat
    ensure (offset = expectedOffset ∧ stop ≤ footerOffset)
    let entry ← BlxEntry.open (slice bytes offset stop)
    ensure (entry.digest = f.digest)
    scanEntries bytes footerOffset fs stop

def BlxObject.scan (bytes : Bytes) : Option (BlxHeader × BlxFooter) := do
  let (header, headerEnd) ← BlxHeader.open bytes
  ensure (headerEnd + trailerBytes ≤ bytes.length)
  let (footerOffset, footerLength) ← openTrailer (bytes.drop (bytes.length - trailerBytes))
  let footerEnd := footerOffset.toNat + footerLength.toNat
  ensure (headerEnd ≤ footerOffset.toNat ∧ footerEnd + trailerBytes = bytes.length)
  let footer ← BlxFooter.open (slice bytes footerOffset.toNat footerEnd)
  ensure (footer.entries.length = header.entryCount.toNat ∧
    footer.entries.head?.map FooterEntry.key = some header.firstKey ∧
    footer.entries.getLast?.map FooterEntry.key = some header.lastKey)
  let last ← scanEntries bytes footerOffset.toNat footer.entries headerEnd
  ensure (last = footerOffset.toNat)
  return (header, footer)

/-- Open a complete object and retain the verified index and reference fields. -/
def BlxObject.open (bytes : Bytes) : Option BlxObject := do
  let (header, footer) ← BlxObject.scan bytes
  ensure (trailerBytes ≤ bytes.length)
  let (footerOffset, footerLength) ← openTrailer (bytes.drop (bytes.length - trailerBytes))
  return ⟨header, footer, footerOffset, footerLength, checksum64 bytes, bytes⟩

/-! ## Batches -/

structure BatchMeta where
  namespaceKind : NamespaceKind
  namespaceId : UInt64
  writerFence : UInt64
  firstObjectId : UInt64
  minSeq : UInt64
  maxSeq : UInt64
  batchId : UInt64
  preStateChecksum : UInt64
  postStateChecksum : UInt64
  deriving DecidableEq, Repr

/-- The header of one chunk of a batch. -/
def BatchMeta.header (batch : BatchMeta) (objectId : UInt64) (chunkIndex chunkCount : UInt32)
    (entryCount : Nat) (first last : BlockKey) : BlxHeader :=
  { blockSize := pageSizeField
    namespaceKind := batch.namespaceKind
    namespaceId := batch.namespaceId
    writerFence := batch.writerFence
    objectId := objectId
    minSeq := batch.minSeq
    maxSeq := batch.maxSeq
    batchId := batch.batchId
    chunkIndex := chunkIndex
    chunkCount := chunkCount
    entryCount := UInt32.ofNat entryCount
    firstKey := first
    lastKey := last
    preStateChecksum := batch.preStateChecksum
    postStateChecksum := batch.postStateChecksum }

/-- The frames of a chunk from `offset` on, with the footer entries that locate them. -/
def encodeEntries : List BlxEntry → Nat → Option (Bytes × List FooterEntry)
  | [], _ => some ([], [])
  | entry :: entries, offset => do
    let encoded ← encodeEntry entry
    ensure (offset < 2 ^ 32 ∧ encoded.length < 2 ^ 32)
    let (bytes, footer) ← encodeEntries entries (offset + encoded.length)
    return (encoded ++ bytes,
      ⟨entry.key, UInt32.ofNat offset, UInt32.ofNat encoded.length, entry.generation, entry.kind,
        entry.valueChecksum⟩ :: footer)

def encodeObject (batch : BatchMeta) (objectId : UInt64) (chunkIndex chunkCount : UInt32)
    (entries : List BlxEntry) : Option BlxObject := do
  let first ← entries.head?
  let last ← entries.getLast?
  ensure (entries.length < 2 ^ 32)
  let header := batch.header objectId chunkIndex chunkCount entries.length first.key last.key
  let head ← encodeHeader header
  let (body, footerEntries) ← encodeEntries entries head.length
  let footer : BlxFooter := ⟨footerEntries⟩
  let footerOffset := head.length + body.length
  let encodedFooter ← encodeFooter footer
  ensure (footerOffset < 2 ^ 32 ∧ encodedFooter.length < 2 ^ 32)
  let bytes := head ++ body ++ encodedFooter ++
    encodeTrailer (UInt32.ofNat footerOffset) (UInt32.ofNat encodedFooter.length)
  ensure (bytes.length ≤ maxFileBytes)
  return ⟨header, footer, UInt32.ofNat footerOffset, UInt32.ofNat encodedFooter.length,
    checksum64 bytes, bytes⟩

def encodedEntryUpperBound (entry : BlxEntry) : Nat :=
  match entry with
  | .data _ _ bytes =>
    frameHeader + 1 + 8 + 8 + 4 + 4 + Platform.maximumOutputSize bytes.length
  | .tombstone .. => frameHeader + 1 + 8 + 8

def shouldSplit (currentEmpty : Bool) (estimated : Nat) (partition : Option (Nat × Nat))
    (entry : BlxEntry) (splitAtFilePartitions : Bool) : Bool :=
  !currentEmpty &&
    ((splitAtFilePartitions && decide (partition ≠ some entry.key.filePartition)) ||
      decide (targetFileBytes < estimated + encodedEntryUpperBound entry + footerEntryBytes +
        frameHeader + footerPrefixBytes))

/-- The loop of `finish`: entries are appended to the current chunk until one has to start a new
chunk.  `chunks` are the finished chunks, oldest first. -/
def splitChunks (splitAtFilePartitions : Bool) :
    List BlxEntry → List (List BlxEntry) → List BlxEntry → Nat → Option (Nat × Nat) →
      List (List BlxEntry)
  | [], chunks, current, _, _ => if current.isEmpty then chunks else chunks ++ [current]
  | entry :: entries, chunks, current, estimated, partition =>
    let size := encodedEntryUpperBound entry + footerEntryBytes
    if shouldSplit current.isEmpty estimated partition entry splitAtFilePartitions then
      splitChunks splitAtFilePartitions entries (chunks ++ [current]) [entry]
        (headerBytes + trailerBytes + size) (some entry.key.filePartition)
    else
      splitChunks splitAtFilePartitions entries chunks (current ++ [entry]) (estimated + size)
        (some entry.key.filePartition)

/-- The loop of `object_ids_fit`, which counts the chunks without building them. -/
def countChunks (splitAtFilePartitions : Bool) :
    List BlxEntry → Nat → Bool → Nat → Option (Nat × Nat) → Nat
  | [], count, _, _, _ => count
  | entry :: entries, count, currentEmpty, estimated, partition =>
    let size := encodedEntryUpperBound entry + footerEntryBytes
    if shouldSplit currentEmpty estimated partition entry splitAtFilePartitions then
      countChunks splitAtFilePartitions entries (count + 1) false
        (headerBytes + trailerBytes + size) (some entry.key.filePartition)
    else
      countChunks splitAtFilePartitions entries count false (estimated + size)
        (some entry.key.filePartition)

/-- The chunks of a batch as objects, numbered from `index` on. -/
def encodeChunks (batch : BatchMeta) (chunkCount : UInt32) :
    List (List BlxEntry) → Nat → Option (List BlxObject)
  | [], _ => some []
  | entries :: chunks, index => do
    let objectId ← checkedAdd batch.firstObjectId (UInt64.ofNat index)
    let object ← encodeObject batch objectId (UInt32.ofNat index) chunkCount entries
    let objects ← encodeChunks batch chunkCount chunks (index + 1)
    return object :: objects

/-- What the builder accepts as an entry: a data block has exactly one page of bytes. -/
def BlxEntry.Valid : BlxEntry → Prop
  | .data _ _ bytes => bytes.length = pageSize
  | .tombstone .. => True

/-- A batch under construction: the newest entry of every key so far. -/
structure BlxBatchBuilder where
  batch : BatchMeta
  entries : ExtTreeMap BlockKey BlxEntry
  splitAtFilePartitions : Bool
  /-- `new` asserts the sequence interval. -/
  seq_le : batch.minSeq ≤ batch.maxSeq
  /-- Entries sit under their own key and are whole pages. -/
  keyed : ∀ (key : BlockKey) (entry : BlxEntry), entries[key]? = some entry →
    entry.key = key ∧ entry.Valid

namespace BlxBatchBuilder

theorem keyed_empty (key : BlockKey) (entry : BlxEntry)
    (h : (∅ : ExtTreeMap BlockKey BlxEntry)[key]? = some entry) :
    entry.key = key ∧ entry.Valid := by
  simp at h

def new (batch : BatchMeta) : Option BlxBatchBuilder :=
  if h : batch.minSeq ≤ batch.maxSeq then some ⟨batch, ∅, false, h, keyed_empty⟩ else none

/-- Build objects whose key ranges never cross a storage-file partition. -/
def newPartitioned (batch : BatchMeta) : Option BlxBatchBuilder :=
  (new batch).map fun builder => { builder with splitAtFilePartitions := true }

/-- The entry with the greatest generation wins, the later one among equals. -/
def insert (builder : BlxBatchBuilder) (entry : BlxEntry) (hv : entry.Valid) : BlxBatchBuilder :=
  if (builder.entries[entry.key]?).all fun old => decide (old.generation ≤ entry.generation) then
    { builder with
      entries := builder.entries.insert entry.key entry
      keyed := by
        intro key e h
        rw [Maps.getElem?_insert] at h
        split at h
        · rename_i heq
          cases h
          exact ⟨heq, hv⟩
        · exact builder.keyed key e h }
  else builder

def addData (builder : BlxBatchBuilder) (key : BlockKey) (generation : Gen) (bytes : Bytes) :
    Option BlxBatchBuilder :=
  if h : bytes.length = pageSize then some (builder.insert (.data key generation bytes) h) else none

def addTombstone (builder : BlxBatchBuilder) (key : BlockKey) (generation : Gen) :
    BlxBatchBuilder :=
  builder.insert (.tombstone key generation) trivial

/-- The chunks the entries are cut into, in key order. -/
def chunks (builder : BlxBatchBuilder) : List (List BlxEntry) :=
  splitChunks builder.splitAtFilePartitions (builder.entries.toList.map Prod.snd) [] []
    (headerBytes + trailerBytes) none

/-- Whether every chunk can be given an object id. -/
def objectIdsFit (builder : BlxBatchBuilder) : Bool :=
  let entries := builder.entries.toList.map Prod.snd
  let count := countChunks builder.splitAtFilePartitions entries (if entries.isEmpty then 0 else 1)
    true (headerBytes + trailerBytes) none
  count == 0 || (checkedAdd builder.batch.firstObjectId (UInt64.ofNat (count - 1))).isSome

def finish (builder : BlxBatchBuilder) : Option (List BlxObject) := do
  ensure (builder.chunks.length < 2 ^ 32)
  encodeChunks builder.batch (UInt32.ofNat builder.chunks.length) builder.chunks 0

end BlxBatchBuilder

end Blockd
