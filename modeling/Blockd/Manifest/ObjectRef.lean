import Blockd.Blx.RoundTrip

/-!
# References to BLX objects

`manifest.rs`: the identity of an object, the reference that names it in journal records, file
lists and manifests, and the byte form of both.  `ObjectRef.decodeFrom` checks the fields of a
single reference; what it checks is `ObjectRef.WellFormed`, and every reference taken from an
object of a finished batch meets it.
-/

set_option autoImplicit false

open Codec

namespace Blockd

/-! ## Identities -/

structure ObjectIdentity where
  namespaceKind : NamespaceKind
  namespaceId : UInt64
  writerFence : UInt64
  objectId : UInt64
  deriving DecidableEq, Repr

namespace ObjectIdentity

/-- The identity of an object in a volume's own namespace. -/
def volume (volume : VolumeId) (writerFence : UInt64) (objectId : UInt64) : ObjectIdentity :=
  ⟨.volume, volume, writerFence, objectId⟩

/-- The derived order of the source, field by field. -/
def code (i : ObjectIdentity) : Nat ×ₗ Nat ×ₗ Nat ×ₗ Nat :=
  toLex (i.namespaceKind.toByte.toNat, toLex (i.namespaceId.toNat,
    toLex (i.writerFence.toNat, i.objectId.toNat)))

theorem code_injective : Function.Injective code := by
  rintro ⟨k, n, f, o⟩ ⟨k', n', f', o'⟩ h
  simp only [code, EmbeddingLike.apply_eq_iff_eq, Prod.mk.injEq, UInt64.toNat_inj] at h
  obtain ⟨hk, rfl, rfl, rfl⟩ := h
  cases k <;> cases k' <;> first | rfl | exact absurd hk (by decide)

instance : LinearOrder ObjectIdentity := LinearOrder.lift' code code_injective

def encode (i : ObjectIdentity) : Bytes :=
  encU8 i.namespaceKind.toByte ++ encU64 i.namespaceId ++ encU64 i.writerFence ++
  encU64 i.objectId

def decode : Dec ObjectIdentity := do
  let namespaceKind ← Dec.ofOption (NamespaceKind.decode (← Dec.u8))
  let namespaceId ← Dec.u64
  let writerFence ← Dec.u64
  let objectId ← Dec.u64
  return ⟨namespaceKind, namespaceId, writerFence, objectId⟩

theorem reads (i : ObjectIdentity) : Reads decode i.encode i := by
  simp only [encode, List.append_assoc]
  refine Reads.bind (Reads.u8 _) (Reads.ofOption_bind i.namespaceKind.decode_toByte ?_)
  refine Reads.bind (Reads.u64 _) (Reads.bind (Reads.u64 _) ?_)
  exact Reads.bind_last (Reads.u64 _) (Reads.pure _)

theorem decode_exact : Exact decode encode fun _ => True := by
  refine Exact.of_reads (fun i _ => i.reads) (Accepts.bind Exact.u8 fun tag _ => ?_)
  refine Accepts.ofOption_bind fun kind hkind => Accepts.bind Exact.u64 fun id _ => ?_
  refine Accepts.bind Exact.u64 fun fence _ => Accepts.bind Exact.u64 fun object _ => ?_
  refine Accepts.pure fun _ => ⟨?_, trivial⟩
  rw [NamespaceKind.decode_eq_some.mp hkind]
  simp only [encode, List.append_assoc, List.append_nil]

end ObjectIdentity

/-! ## References -/

structure ObjectRef where
  identity : ObjectIdentity
  minSeq : UInt64
  maxSeq : UInt64
  batchId : UInt64
  chunkIndex : UInt32
  chunkCount : UInt32
  firstKey : BlockKey
  lastKey : BlockKey
  preStateChecksum : UInt64
  postStateChecksum : UInt64
  size : UInt32
  footerOffset : UInt32
  footerLength : UInt32
  objectChecksum : UInt64
  deriving DecidableEq, Repr

namespace ObjectRef

/-- The reference of an object; its size fits 32 bits because an object has at most 64 MiB. -/
def fromBlx (object : BlxObject) : ObjectRef :=
  { identity := ⟨object.header.namespaceKind, object.header.namespaceId,
      object.header.writerFence, object.header.objectId⟩
    minSeq := object.header.minSeq
    maxSeq := object.header.maxSeq
    batchId := object.header.batchId
    chunkIndex := object.header.chunkIndex
    chunkCount := object.header.chunkCount
    firstKey := object.header.firstKey
    lastKey := object.header.lastKey
    preStateChecksum := object.header.preStateChecksum
    postStateChecksum := object.header.postStateChecksum
    size := UInt32.ofNat object.bytes.length
    footerOffset := object.footerOffset
    footerLength := object.footerLength
    objectChecksum := object.checksum }

def encode (r : ObjectRef) : Bytes :=
  r.identity.encode ++ encU64 r.minSeq ++ encU64 r.maxSeq ++ encU64 r.batchId ++
  encU32 r.chunkIndex ++ encU32 r.chunkCount ++ r.firstKey.encode ++ r.lastKey.encode ++
  encU64 r.preStateChecksum ++ encU64 r.postStateChecksum ++ encU32 r.size ++
  encU32 r.footerOffset ++ encU32 r.footerLength ++ encU64 r.objectChecksum

@[simp] theorem length_encode (r : ObjectRef) : r.encode.length = 109 := by
  simp [encode, ObjectIdentity.encode]

variable [Platform]

/-- The checks `decode_from` makes on a single reference. -/
def WellFormed (r : ObjectRef) : Prop :=
  r.minSeq ≤ r.maxSeq ∧ r.chunkCount ≠ 0 ∧ r.chunkIndex < r.chunkCount ∧
  r.firstKey ≤ r.lastKey ∧ r.size ≠ 0 ∧ r.footerLength ≠ 0 ∧
  r.footerOffset.toNat + r.footerLength.toNat ≤ r.size.toNat

instance (r : ObjectRef) : Decidable r.WellFormed :=
  inferInstanceAs (Decidable (_ ∧ _))

def decodeFrom : Dec ObjectRef := do
  let identity ← ObjectIdentity.decode
  let minSeq ← Dec.u64
  let maxSeq ← Dec.u64
  let batchId ← Dec.u64
  let chunkIndex ← Dec.u32
  let chunkCount ← Dec.u32
  let firstKey ← BlockKey.decode
  let lastKey ← BlockKey.decode
  let preStateChecksum ← Dec.u64
  let postStateChecksum ← Dec.u64
  let size ← Dec.u32
  let footerOffset ← Dec.u32
  let footerLength ← Dec.u32
  let objectChecksum ← Dec.u64
  let object : ObjectRef := ⟨identity, minSeq, maxSeq, batchId, chunkIndex, chunkCount, firstKey,
    lastKey, preStateChecksum, postStateChecksum, size, footerOffset, footerLength, objectChecksum⟩
  Dec.require (decide object.WellFormed)
  return object

theorem reads {r : ObjectRef} (h : r.WellFormed) : Reads decodeFrom r.encode r := by
  simp only [encode, List.append_assoc]
  refine Reads.bind (ObjectIdentity.reads _) ?_
  refine Reads.bind (Reads.u64 _) (Reads.bind (Reads.u64 _) (Reads.bind (Reads.u64 _) ?_))
  refine Reads.bind (Reads.u32 _) (Reads.bind (Reads.u32 _) ?_)
  refine Reads.bind (BlockKey.reads _) (Reads.bind (BlockKey.reads _) ?_)
  refine Reads.bind (Reads.u64 _) (Reads.bind (Reads.u64 _) ?_)
  refine Reads.bind (Reads.u32 _) (Reads.bind (Reads.u32 _) (Reads.bind (Reads.u32 _) ?_))
  exact Reads.bind_last (Reads.u64 _) (Reads.require_bind (decide_eq_true h) (Reads.pure _))

/-- A reference has one form, and only well-formed references have it. -/
theorem decodeFrom_exact : Exact decodeFrom encode WellFormed := by
  refine Exact.of_reads (fun r hr => reads hr) (Accepts.bind ObjectIdentity.decode_exact ?_)
  refine fun _ _ => Accepts.bind Exact.u64 fun _ _ => Accepts.bind Exact.u64 fun _ _ => ?_
  refine Accepts.bind Exact.u64 fun _ _ => Accepts.bind Exact.u32 fun _ _ => ?_
  refine Accepts.bind Exact.u32 fun _ _ => Accepts.bind BlockKey.decode_exact fun _ _ => ?_
  refine Accepts.bind BlockKey.decode_exact fun _ _ => Accepts.bind Exact.u64 fun _ _ => ?_
  refine Accepts.bind Exact.u64 fun _ _ => Accepts.bind Exact.u32 fun _ _ => ?_
  refine Accepts.bind Exact.u32 fun _ _ => Accepts.bind Exact.u32 fun _ _ => ?_
  refine Accepts.bind Exact.u64 fun _ _ => Accepts.require_bind fun hwf => Accepts.pure fun _ => ?_
  exact ⟨by simp only [encode, List.append_assoc, List.append_nil], of_decide_eq_true hwf⟩

/-- The reference to an object with a sound header and footer passes its own decoder. -/
theorem wellFormed_fromBlx {object : BlxObject} (hseq : object.header.minSeq ≤ object.header.maxSeq)
    (hchunk : object.header.chunkIndex < object.header.chunkCount)
    (hrange : object.header.firstKey ≤ object.header.lastKey)
    (hfooter : object.bytes.length ≤ maxFileBytes ∧ 0 < object.footerLength.toNat ∧
      object.footerOffset.toNat + object.footerLength.toNat ≤ object.bytes.length) :
    (fromBlx object).WellFormed := by
  obtain ⟨hsize, hpos, hend⟩ := hfooter
  have hsize' : (UInt32.ofNat object.bytes.length).toNat = object.bytes.length :=
    toNat_ofNat32 (hsize.trans_lt (by decide))
  have hcc : object.header.chunkCount ≠ 0 := fun h0 => by
    rw [h0] at hchunk
    exact absurd hchunk UInt32.not_lt_zero
  have hnz : UInt32.ofNat object.bytes.length ≠ 0 := fun h0 => by
    have hzero : (UInt32.ofNat object.bytes.length).toNat = 0 := by rw [h0]; rfl
    omega
  have hfl : object.footerLength ≠ 0 := fun h0 => by
    rw [h0] at hpos
    exact absurd hpos (by decide)
  have hends : object.footerOffset.toNat + object.footerLength.toNat ≤
      (UInt32.ofNat object.bytes.length).toNat := by omega
  exact ⟨hseq, hcc, hchunk, hrange, hnz, hfl, hends⟩

/-- References to the objects of a batch pass their own decoder. -/
theorem wellFormed_of_batch {batch : BatchMeta} {objects : List BlxObject}
    (hb : BlxBatch batch objects) (hseq : batch.minSeq ≤ batch.maxSeq) {object : BlxObject}
    (ho : object ∈ objects) : (fromBlx object).WellFormed := by
  obtain ⟨i, hi⟩ := List.mem_iff_getElem?.mp ho
  have hlt : i < objects.length := (List.getElem?_eq_some_iff.mp hi).1
  obtain ⟨-, -, -, hmin, hmax, -⟩ := hb.fields object ho
  have hindex := hb.chunkIndex i object hi
  have hcount := hb.chunkCount object ho
  have hchunk : object.header.chunkIndex < object.header.chunkCount := by
    rw [UInt32.lt_iff_toNat_lt]
    omega
  exact wellFormed_fromBlx (by rw [hmin, hmax]; exact hseq) hchunk (hb.range object ho)
    (hb.footer object ho)

end ObjectRef

end Blockd
