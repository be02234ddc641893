import Blockd.Manifest.Validate
import Blockd.PageFile

/-!
# Journal records

`journal.rs`: one framed record per consistency point.  A record names the complete set of BLX
files its recovery needs and carries the checksum of the logical state it stands for.

Encoding checks only the configuration; decoding also validates the file list.  `decode_encode`
says what follows: reading back an encoded record gives the record if its files form complete
batches, and is refused otherwise.
-/

set_option autoImplicit false

open Codec
open Std (ExtTreeMap)

namespace Blockd

def magicJournal : UInt32 := magicOf 'B' 'J' 'R' '1'

def VolumeKind.toByte : VolumeKind → UInt8
  | .memory => 0
  | .data => 1

def VolumeKind.decode (value : UInt8) : Option VolumeKind :=
  if value = 0 then some .memory else if value = 1 then some .data else none

theorem VolumeKind.decode_toByte (k : VolumeKind) : decode k.toByte = some k := by
  cases k <;> rfl

theorem VolumeKind.decode_eq_some {value : UInt8} {k : VolumeKind} :
    decode value = some k ↔ value = k.toByte := by
  refine ⟨fun h => ?_, fun h => h ▸ k.decode_toByte⟩
  rw [decode] at h
  split_ifs at h <;> obtain rfl := Option.some.inj h <;> assumption

/-- What kind of consistency point a record is. -/
inductive RecordKind where
  /-- Background writeback or sync commit. -/
  | commit
  /-- A memory-volume checkpoint: memory and vmstate from one instant. -/
  | checkpoint (epoch : Epoch) (vmstate vmstateLogicalLength : UInt64)
  deriving DecidableEq, Repr

namespace RecordKind

def isCheckpoint : RecordKind → Bool
  | .commit => false
  | .checkpoint .. => true

def encode : RecordKind → Bytes
  | .commit => encU8 0 ++ encU64 0 ++ encU64 0 ++ encU64 0
  | .checkpoint epoch vmstate length => encU8 1 ++ encU64 epoch ++ encU64 vmstate ++ encU64 length

def ofFields (tag : UInt8) (epoch vmstate length : UInt64) : Option RecordKind :=
  if tag = 0 ∧ epoch = 0 ∧ vmstate = 0 ∧ length = 0 then some .commit
  else if tag = 1 then some (.checkpoint epoch vmstate length)
  else none

def decode : Dec RecordKind := do
  let tag ← Dec.u8
  let epoch ← Dec.u64
  let vmstate ← Dec.u64
  let length ← Dec.u64
  Dec.ofOption (ofFields tag epoch vmstate length)

theorem reads (k : RecordKind) : Reads decode k.encode k := by
  cases k with
  | commit =>
    simp only [encode, List.append_assoc]
    refine Reads.bind (Reads.u8 0) (Reads.bind (Reads.u64 0) (Reads.bind (Reads.u64 0) ?_))
    exact Reads.bind_last (Reads.u64 0) (Reads.ofOption rfl)
  | checkpoint epoch vmstate length =>
    simp only [encode, List.append_assoc]
    refine Reads.bind (Reads.u8 1) (Reads.bind (Reads.u64 _) (Reads.bind (Reads.u64 _) ?_))
    exact Reads.bind_last (Reads.u64 _) (Reads.ofOption rfl)

theorem ofFields_eq_some {tag : UInt8} {epoch vmstate length : UInt64} {k : RecordKind} :
    ofFields tag epoch vmstate length = some k ↔
      (k = .commit ∧ tag = 0 ∧ epoch = 0 ∧ vmstate = 0 ∧ length = 0) ∨
      (k = .checkpoint epoch vmstate length ∧ tag = 1) := by
  rw [ofFields]
  split_ifs <;> grind

theorem decode_exact : Exact decode encode fun _ => True := by
  refine Exact.of_reads (fun k _ => k.reads) (Accepts.bind Exact.u8 fun tag _ => ?_)
  refine Accepts.bind Exact.u64 fun epoch _ => Accepts.bind Exact.u64 fun vmstate _ => ?_
  refine Accepts.bind Exact.u64 fun length _ => Accepts.ofOption fun k hk _ => ⟨?_, trivial⟩
  obtain ⟨rfl, rfl, rfl, rfl, rfl⟩ | ⟨rfl, rfl⟩ := ofFields_eq_some.mp hk
  · simp only [encode, List.append_assoc, List.append_nil]
  · simp only [encode, List.append_assoc, List.append_nil]

end RecordKind

/-- The host an in-migrated volume still hydrates from, with the fence of the offer it installed. -/
structure MigrationSource where
  host : HostId
  offerFence : Option UInt64
  deriving DecidableEq, Repr

namespace MigrationSource

/-- The two optional fields of the record: the host, and the fence of its offer. -/
def encode (source : Option MigrationSource) : Bytes :=
  (match source with
    | none => encU8 0
    | some s => encU8 1 ++ encU32 s.host) ++
  (match source.bind MigrationSource.offerFence with
    | none => encU8 0 ++ encU64 0
    | some fence => encU8 1 ++ encU64 fence)

def hostDec : Dec (Option HostId) := do
  let tag ← Dec.u8
  if tag = 0 then return none
  Dec.require (tag == 1)
  let host ← Dec.u32
  return some host

def fenceOfFields (tag : UInt8) (fence : UInt64) : Option (Option UInt64) :=
  if tag = 0 ∧ fence = 0 then some none else if tag = 1 then some (some fence) else none

def decode : Dec (Option MigrationSource) := do
  let host ← hostDec
  let tag ← Dec.u8
  let fence ← Dec.u64
  let offerFence ← Dec.ofOption (fenceOfFields tag fence)
  Dec.require (!(host.isNone && offerFence.isSome))
  return host.map fun host => ⟨host, offerFence⟩

theorem reads (source : Option MigrationSource) : Reads decode (encode source) source := by
  cases source with
  | none =>
    simp only [encode, Option.bind_none]
    refine Reads.bind (a := none) (Reads.bind_last (Reads.u8 0) (Reads.pure none)) ?_
    refine Reads.bind (Reads.u8 0) (Reads.bind_last (Reads.u64 0) ?_)
    exact Reads.ofOption_bind (a := none) rfl (Reads.require_bind rfl (Reads.pure none))
  | some s =>
    obtain ⟨host, offerFence⟩ := s
    have hhost : Reads hostDec (encU8 1 ++ encU32 host) (some host) :=
      Reads.bind (Reads.u8 1) (Reads.require_bind rfl
        (Reads.bind_last (Reads.u32 host) (Reads.pure _)))
    simp only [encode, Option.bind_some]
    refine Reads.bind hhost ?_
    cases offerFence with
    | none =>
      refine Reads.bind (Reads.u8 0) (Reads.bind_last (Reads.u64 0) ?_)
      exact Reads.ofOption_bind (a := none) rfl (Reads.require_bind rfl (Reads.pure _))
    | some fence =>
      refine Reads.bind (Reads.u8 1) (Reads.bind_last (Reads.u64 fence) ?_)
      exact Reads.ofOption_bind (a := some fence) rfl (Reads.require_bind rfl (Reads.pure _))

theorem fenceOfFields_eq_some {tag : UInt8} {fence : UInt64} {o : Option UInt64} :
    fenceOfFields tag fence = some o ↔ (o = none ∧ tag = 0 ∧ fence = 0) ∨ (o = some fence ∧ tag = 1) := by
  rw [fenceOfFields]
  split_ifs <;> grind

theorem decode_exact : Exact decode encode fun _ => True := by
  refine Exact.of_reads (fun source _ => reads source) ?_
  refine Accepts.bind (Exact.option Exact.u32) fun host _ => Accepts.bind Exact.u8 fun tag _ => ?_
  refine Accepts.bind Exact.u64 fun fence _ => Accepts.ofOption_bind fun offerFence hfence => ?_
  refine Accepts.require_bind fun hhost => Accepts.pure fun _ => ⟨?_, trivial⟩
  -- a fence without a host is refused, so the host says which of the two forms it is
  obtain ⟨rfl, rfl, rfl⟩ | ⟨rfl, rfl⟩ := fenceOfFields_eq_some.mp hfence <;>
    rcases host with _ | host <;> first | rfl | nomatch hhost

end MigrationSource

/-- A full consistency point of one volume at one capture instant. -/
structure JournalRecord where
  config : VolumeConfig
  seq : JournalSeq
  /-- The writer fence: the version of the head at the claim. -/
  fence : UInt64
  kind : RecordKind
  /-- The volume's mutation counter at the capture instant. -/
  captureSeq : UInt64
  /-- The highest sync barrier this volume has acknowledged, or acknowledges by this record. -/
  syncCoveredThrough : UInt64
  /-- Checksum of the complete logical state the record stands for. -/
  postStateChecksum : UInt64
  /-- The BLX files this recovery point needs. -/
  files : List ObjectRef
  /-- Lookup state that only migration messages carry. -/
  runtimePageIndex : ExtTreeMap PageId (Gen × PageFileLoc)
  migratedFrom : Option MigrationSource

namespace JournalRecord

variable [Platform]

def payload (r : JournalRecord) (volume : VolumeId) : Bytes :=
  encU16 8 ++ encU32 pageSizeField ++ encU64 volume ++ encU64 r.seq ++ encU64 r.fence ++
  r.kind.encode ++ encU64 r.captureSeq ++ encU64 r.syncCoveredThrough ++
  encU64 r.postStateChecksum ++ MigrationSource.encode r.migratedFrom ++
  encU8 r.config.kind.toByte ++ encU32 r.config.pages ++ encU8 2 ++
  encU32 (UInt32.ofNat r.files.length) ++ r.files.flatMap ObjectRef.encode

/-- Only memory volumes carry checkpoint vmstate, and a volume has at least one page. -/
def configOk (config : VolumeConfig) (kind : RecordKind) : Bool :=
  config.valid && !(kind.isCheckpoint && !config.isMemory)

def encode (r : JournalRecord) (volume : VolumeId) : Option Bytes := do
  ensure (configOk r.config r.kind = true)
  ensure (r.files.length < 2 ^ 32)
  sealFrame magicJournal (r.payload volume)

def payloadDec (volume : VolumeId) : Dec JournalRecord := do
  let version ← Dec.u16
  Dec.require (version == 8)
  let size ← Dec.u32
  Dec.require (size == pageSizeField)
  let owner ← Dec.u64
  Dec.require (owner == volume)
  let seq ← Dec.u64
  let fence ← Dec.u64
  let kind ← RecordKind.decode
  let captureSeq ← Dec.u64
  let syncCoveredThrough ← Dec.u64
  let postStateChecksum ← Dec.u64
  let migratedFrom ← MigrationSource.decode
  let volumeKind ← Dec.ofOption (VolumeKind.decode (← Dec.u8))
  let pages ← Dec.u32
  let durabilityTag ← Dec.u8
  Dec.require (durabilityTag == 2)
  Dec.require (configOk ⟨volumeKind, pages⟩ kind)
  let fileCount ← Dec.u32
  let files ← Dec.repeatN ObjectRef.decodeFrom fileCount.toNat
  Dec.finish
  return ⟨⟨volumeKind, pages⟩, seq, fence, kind, captureSeq, syncCoveredThrough,
    postStateChecksum, files, ∅, migratedFrom⟩

/-- Verify and decode a record.  Any damage is one answer: corrupt. -/
def decode (volume : VolumeId) (bytes : Bytes) : Option JournalRecord := do
  let payload ← openFrame magicJournal bytes
  let record ← (payloadDec volume).decode payload
  ensure (validateJournalObjectRefs record.files = true)
  return record

/-- The record without the lookup state, which the durable form does not carry. -/
def durable (r : JournalRecord) : JournalRecord := { r with runtimePageIndex := ∅ }

variable {bytes : Bytes} {r : JournalRecord} {volume : VolumeId}

theorem encode_eq_some :
    r.encode volume = some bytes ↔ configOk r.config r.kind = true ∧ r.files.length < 2 ^ 32 ∧
      sealFrame magicJournal (r.payload volume) = some bytes := by
  simp only [encode, bind_eq_some, ensure_eq_some, exists_const]

/-- A record with few files can be encoded. -/
theorem exists_encode (volume : VolumeId) (hconfig : configOk r.config r.kind = true)
    (hfiles : r.files.length ≤ 2 ^ 24) : ∃ bytes, r.encode volume = some bytes := by
  have hkind : r.kind.encode.length = 25 := by
    cases r.kind <;> rfl
  have hsource : (MigrationSource.encode r.migratedFrom).length ≤ 14 := by
    simp only [MigrationSource.encode, List.length_append]
    split <;> split <;> simp
  have hrefs := length_flatMap_of_length ObjectRef.length_encode r.files
  have hlen : (r.payload volume).length < 2 ^ 32 := by
    simp only [payload, List.length_append, hrefs, length_encU16, length_encU32, length_encU64,
      length_encU8, hkind]
    omega
  obtain ⟨bytes, hbytes⟩ := exists_sealFrame magicJournal (r.payload volume) hlen
  exact ⟨bytes, encode_eq_some.mpr ⟨hconfig, by omega, hbytes⟩⟩

theorem decodes_payload (hconfig : configOk r.config r.kind = true)
    (hcount : r.files.length < 2 ^ 32) (hfiles : ∀ f ∈ r.files, f.WellFormed) :
    Decodes (payloadDec volume) (r.payload volume) r.durable := by
  have hlen : (UInt32.ofNat r.files.length).toNat = r.files.length := toNat_ofNat32 hcount
  simp only [payload, List.append_assoc]
  refine Decodes.bind (Reads.u16 8) (Decodes.require_bind rfl ?_)
  refine Decodes.bind (Reads.u32 _) (Decodes.require_bind (beq_self_eq_true _) ?_)
  refine Decodes.bind (Reads.u64 _) (Decodes.require_bind (beq_self_eq_true _) ?_)
  refine Decodes.bind (Reads.u64 _) (Decodes.bind (Reads.u64 _) ?_)
  refine Decodes.bind r.kind.reads ?_
  refine Decodes.bind (Reads.u64 _) (Decodes.bind (Reads.u64 _) (Decodes.bind (Reads.u64 _) ?_))
  refine Decodes.bind (MigrationSource.reads _) ?_
  refine Decodes.bind (Reads.u8 _) (Decodes.ofOption_bind r.config.kind.decode_toByte ?_)
  refine Decodes.bind (Reads.u32 _) (Decodes.bind (Reads.u8 2) (Decodes.require_bind rfl ?_))
  refine Decodes.require_bind hconfig (Decodes.bind (Reads.u32 _) ?_)
  rw [hlen]
  refine Decodes.bind_last (Reads.repeatN r.files fun f hf => ObjectRef.reads (hfiles f hf)) ?_
  exact Decodes.finish_bind (Decodes.pure _)

theorem payloadDec_exact (volume : VolumeId) :
    DecodesExactly (payloadDec volume) (fun r => r.payload volume) fun r =>
      r.runtimePageIndex = ∅ ∧ configOk r.config r.kind = true ∧ r.files.length < 2 ^ 32 ∧
      ∀ f ∈ r.files, f.WellFormed := by
  refine DecodesExactly.of_decodes ?_ ?_
  · rintro r ⟨hindex, hconfig, hcount, hfiles⟩
    have hdurable : r.durable = r := by rw [durable, ← hindex]
    exact hdurable ▸ decodes_payload hconfig hcount hfiles
  · refine Accepts.expect_bind Exact.u16 (Accepts.expect_bind Exact.u32 ?_)
    refine Accepts.expect_bind Exact.u64 ?_
    refine Accepts.bind Exact.u64 fun seq _ => Accepts.bind Exact.u64 fun fence _ => ?_
    refine Accepts.bind RecordKind.decode_exact fun kind _ => Accepts.bind Exact.u64 fun _ _ => ?_
    refine Accepts.bind Exact.u64 fun sync _ => Accepts.bind Exact.u64 fun post _ => ?_
    refine Accepts.bind MigrationSource.decode_exact fun source _ => ?_
    refine Accepts.bind Exact.u8 fun tag _ => Accepts.ofOption_bind fun volumeKind hkind => ?_
    refine Accepts.bind Exact.u32 fun pages _ => Accepts.expect_bind Exact.u8 ?_
    refine Accepts.require_bind fun hconfig => Accepts.bind Exact.u32 fun count _ => ?_
    refine Accepts.bind (ObjectRef.decodeFrom_exact.repeatN _) fun files hfiles => ?_
    refine Accepts.finish_bind (Accepts.pure fun rest hrest => ⟨hrest, ?_, rfl, hconfig, ?_, ?_⟩)
    · rw [VolumeKind.decode_eq_some.mp hkind]
      simp only [JournalRecord.payload, hfiles.1, UInt32.ofNat_toNat, List.append_assoc,
        List.append_nil]
    · exact hfiles.1 ▸ count.toNat_lt
    · exact hfiles.2

/-- **What decodes to a record is its encoding.**  No byte string but the record's own is read as
the record. -/
theorem decode_eq_some :
    decode volume bytes = some r ↔ r.encode volume = some bytes ∧ r.runtimePageIndex = ∅ ∧
      (∀ f ∈ r.files, f.WellFormed) ∧ validateJournalObjectRefs r.files = true := by
  simp only [decode, bind_eq_some, openFrame_eq_some, payloadDec_exact volume _ _, ensure_eq_some,
    pure_eq_some, encode_eq_some, exists_const]
  constructor
  · rintro ⟨payload, hseal, _, ⟨hpayload, hindex, hconfig, hcount, hfiles⟩, hvalid, rfl⟩
    rw [hpayload] at hseal
    exact ⟨⟨hconfig, hcount, hseal⟩, hindex, hfiles, hvalid⟩
  · rintro ⟨⟨hconfig, hcount, hseal⟩, hindex, hfiles, hvalid⟩
    exact ⟨r.payload volume, hseal, r, ⟨rfl, hindex, hconfig, hcount, hfiles⟩, hvalid, rfl⟩

/-- **An encoded record reads back exactly when its files pass the validation.** -/
theorem decode_encode (h : r.encode volume = some bytes) (hfiles : ∀ f ∈ r.files, f.WellFormed) :
    decode volume bytes =
      if validateJournalObjectRefs r.files = true then some r.durable else none := by
  obtain ⟨hconfig, hcount, hseal⟩ := encode_eq_some.mp h
  have hpayload : (payloadDec volume).decode (r.payload volume) = some r.durable :=
    (decodes_payload hconfig hcount hfiles).decode
  simp only [decode, openFrame_sealFrame hseal, hpayload, some_bind]
  show (ensure (validateJournalObjectRefs r.files = true)).bind (fun _ => some r.durable) = _
  rw [ensure]
  split <;> rfl

/-- **A record is accepted when its files form complete batches.** -/
theorem decode_encode_iff (h : r.encode volume = some bytes)
    (hfiles : ∀ f ∈ r.files, f.WellFormed) :
    decode volume bytes = some r.durable ↔ ValidBatches r.files := by
  rw [decode_encode h hfiles, ← validateObjects_none_iff hfiles, validateJournalObjectRefs]
  simp

end JournalRecord

end Blockd
