import Blockd.Manifest.ObjectRef

/-!
# Page locations and capture batches

`page_file.rs`: where a page's durable bytes live, the builder that turns the pages of one capture
into consecutive BLX objects, and the scan that reads the locations back from an object.

Recovery depends on the round trip: scanning the bytes of a finished object gives the locations the
builder announced for it.
-/

set_option autoImplicit false

open Codec

namespace Blockd

/-- A byte range of one BLX object that covers the whole framed entry of a page. -/
structure PageFileLoc where
  /-- Zero for the volume's own namespace, otherwise the base whose objects hold the page. -/
  base : UInt64
  /-- The writer fence that produced the object. -/
  fence : UInt64
  object : ObjectId
  offset : UInt32
  len : UInt32
  deriving DecidableEq, Repr

def PageFileLoc.identity (loc : PageFileLoc) (volume : VolumeId) : ObjectIdentity :=
  ObjectIdentity.volume volume loc.fence loc.object

/-- Every page an object holds: identity, generation and byte range. -/
abbrev PageFileEntries := List (PageId × Gen × PageFileLoc)

variable [Platform]

/-! ## Building the objects of a capture -/

@[simp] theorem BlxBatchBuilder.batch_insert (builder : BlxBatchBuilder) (entry : BlxEntry)
    (hv : entry.Valid) : (builder.insert entry hv).batch = builder.batch := by
  rw [insert]
  split <;> rfl

theorem BlxBatchBuilder.batch_of_addData {builder builder' : BlxBatchBuilder} {key : BlockKey}
    {generation : Gen} {bytes : Bytes} (h : builder.addData key generation bytes = some builder') :
    builder'.batch = builder.batch := by
  rw [addData] at h
  split at h
  · rw [← Option.some.inj h]
    exact batch_insert ..
  · cases h

/-- One capture's page entries.  The objects are the volume's own, under the capture's fence. -/
structure PageBatchBuilder where
  kind : VolumeKind
  volume : VolumeId
  fence : UInt64
  builder : BlxBatchBuilder
  own : builder.batch.namespaceKind = .volume ∧ builder.batch.namespaceId = volume ∧
    builder.batch.writerFence = fence

namespace PageBatchBuilder

/-- The batch of one capture: a single sequence number, which is also the batch number. -/
def batchMeta (volume : VolumeId) (fence : UInt64) (firstObject : ObjectId) (sequence : UInt64)
    (preStateChecksum postStateChecksum : UInt64) : BatchMeta :=
  { namespaceKind := .volume
    namespaceId := volume
    writerFence := fence
    firstObjectId := firstObject
    minSeq := sequence
    maxSeq := sequence
    batchId := sequence
    preStateChecksum := preStateChecksum
    postStateChecksum := postStateChecksum }

def newWithChecksums (kind : VolumeKind) (volume : VolumeId) (fence : UInt64)
    (firstObject : ObjectId) (sequence : UInt64) (preStateChecksum postStateChecksum : UInt64) :
    PageBatchBuilder :=
  { kind := kind
    volume := volume
    fence := fence
    builder :=
      { batch := batchMeta volume fence firstObject sequence preStateChecksum postStateChecksum
        entries := ∅
        splitAtFilePartitions := true
        seq_le := UInt64.le_refl sequence
        keyed := BlxBatchBuilder.keyed_empty }
    own := ⟨rfl, rfl, rfl⟩ }

/-- The same capture with another state of its batch. -/
def withBuilder (b : PageBatchBuilder) (builder : BlxBatchBuilder)
    (h : builder.batch = b.builder.batch) : PageBatchBuilder :=
  { b with
    builder := builder
    own := by
      rw [h]
      exact b.own }

/-- Why an entry could not be added: the bytes are not a page of the volume, which the source
asserts, or no object id is left for the chunks. -/
inductive AddError where
  | assertion
  | objectIdOverflow
  deriving DecidableEq, Repr

def tryAdd (b : PageBatchBuilder) (page : PageId) (generation : Gen) (pageBytes : Bytes) :
    Except AddError PageBatchBuilder :=
  if page.volume = b.volume then
    match h : b.builder.addData (BlockKey.fromPage b.kind page) generation pageBytes with
    | none => .error .assertion
    | some builder =>
      if builder.objectIdsFit then
        .ok (b.withBuilder builder (BlxBatchBuilder.batch_of_addData h))
      else .error .objectIdOverflow
  else .error .assertion

def tryAddTombstone (b : PageBatchBuilder) (page : PageId) (generation : Gen) :
    Except AddError PageBatchBuilder :=
  if page.volume = b.volume then
    let builder := b.builder.addTombstone (BlockKey.fromPage b.kind page) generation
    if builder.objectIdsFit then
      .ok (b.withBuilder builder (BlxBatchBuilder.batch_insert ..))
    else .error .objectIdOverflow
  else .error .assertion

def addVmmBlock (b : PageBatchBuilder) (block : UInt32) (generation : Gen) (bytes : Bytes) :
    Option PageBatchBuilder :=
  match h : b.builder.addData ⟨.vmm, block⟩ generation bytes with
  | none => none
  | some builder => some (b.withBuilder builder (BlxBatchBuilder.batch_of_addData h))

def addVmmTombstone (b : PageBatchBuilder) (block : UInt32) (generation : Gen) :
    PageBatchBuilder :=
  b.withBuilder (b.builder.addTombstone ⟨.vmm, block⟩ generation) (BlxBatchBuilder.batch_insert ..)

end PageBatchBuilder

/-- The pages among the entries of an object, with their locations. -/
def BlxFooter.pages (footer : BlxFooter) (volume : VolumeId) (fence : UInt64) (object : ObjectId) :
    PageFileEntries :=
  footer.entries.filterMap fun entry =>
    if entry.kind = .data then
      (entry.key.toPageId volume).map fun page =>
        (page, entry.generation, ⟨0, fence, object, entry.offset, entry.length⟩)
    else none

/-- Every object of the capture: its id, its bytes and the pages it holds. -/
def PageBatchBuilder.finish (b : PageBatchBuilder) :
    Option (List (ObjectId × Bytes × PageFileEntries)) := do
  let objects ← b.builder.finish
  return objects.map fun object =>
    (object.header.objectId, object.bytes,
      object.footer.pages b.volume b.fence object.header.objectId)

/-! ## Reading locations back -/

/-- Decode and verify one entry read by ranged read. -/
def openEntry (volume : VolumeId) (bytes : Bytes) : Option (PageId × Gen × Bytes) := do
  match ← BlxEntry.open bytes with
  | .data key generation bytes =>
    let page ← key.toPageId volume
    return (page, generation, bytes)
  | .tombstone .. => none

/-- Scan a whole object, checking its header and every stored entry. -/
def scanPageFile (bytes : Bytes) : Option (VolumeId × UInt64 × ObjectId × PageFileEntries) := do
  let (header, footer) ← BlxObject.scan bytes
  ensure (header.namespaceKind = .volume)
  return (header.namespaceId, header.writerFence, header.objectId,
    footer.pages header.namespaceId header.writerFence header.objectId)

/-- **Scanning a finished object gives the locations the builder announced.** -/
theorem scanPageFile_finish {b : PageBatchBuilder}
    {blobs : List (ObjectId × Bytes × PageFileEntries)} (h : b.finish = some blobs)
    {object : ObjectId} {bytes : Bytes} {entries : PageFileEntries}
    (hmem : (object, bytes, entries) ∈ blobs) :
    scanPageFile bytes = some (b.volume, b.fence, object, entries) := by
  rw [PageBatchBuilder.finish, bind_eq_some] at h
  obtain ⟨objects, hfinish, hblobs⟩ := h
  rw [← Option.some.inj hblobs] at hmem
  obtain ⟨o, ho, heq⟩ := List.mem_map.mp hmem
  obtain ⟨rfl, rfl, rfl⟩ : _ = object ∧ _ = bytes ∧ _ = entries := by simpa using heq
  have hbatch := BlxBatchBuilder.finish_batch hfinish
  obtain ⟨hkind, hid, hfence, -⟩ := hbatch.fields o ho
  have hopen := hbatch.opens o ho
  rw [BlxObject.open, bind_eq_some] at hopen
  obtain ⟨⟨header, footer⟩, hscan, hrest⟩ := hopen
  simp only [bind_eq_some, pure_eq_some] at hrest
  obtain ⟨-, -, trailer, -, heq⟩ := hrest
  have hheader : header = o.header := congrArg BlxObject.header heq
  have hfooter : footer = o.footer := congrArg BlxObject.footer heq
  rw [scanPageFile, hscan, hheader, hfooter]
  simp [hkind, hid, hfence, b.own]

omit [Platform] in
set_option maxRecDepth 20000 in
/-- A capture of a page in each of two partitions, and of a page that was deleted. -/
theorem scanPageFile_finish_pages : letI := storedPlatform
    ∃ (b : PageBatchBuilder) (blobs : _), b.finish = some blobs ∧ blobs.length = 2 ∧
      ∀ file ∈ blobs, file.2.2.length = 1 ∧
        scanPageFile file.2.1 = some (b.volume, b.fence, file.1, file.2.2) := by
  have hevaluated : letI := storedPlatform
      ∃ b ∈ (do
        let b ← (PageBatchBuilder.newWithChecksums .data 7 1 0 1 0 0).tryAdd ⟨7, 0⟩ 1
          (List.replicate 4096 0)
        let b ← b.tryAddTombstone ⟨7, 1⟩ 1
        b.tryAdd ⟨7, 4096⟩ 2 (List.replicate 4096 1)).toOption,
      ∃ blobs ∈ b.finish, blobs.length = 2 ∧ ∀ file ∈ blobs, file.2.2.length = 1 := by
    decide +kernel
  let _ := storedPlatform
  obtain ⟨b, -, blobs, hfinish, hlength, hpages⟩ := hevaluated
  exact ⟨b, blobs, hfinish, hlength, fun file hfile =>
    ⟨hpages file hfile, scanPageFile_finish hfinish hfile⟩⟩

end Blockd
