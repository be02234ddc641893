import Blockd.Engine.State
import Blockd.Manifest.Canonical

/-!
# The state a migration carries

A destination that still reads pages from its migration source keeps more than a record in its
journal (`encode_migration_state`, `journal.rs`): after the record comes a frame with the page
locations of the source, the checksums of its blocks and the archive it was attached to.  The same
bytes are the offer a source sends.

`decodeMigrationState_encode` is the round trip.  The handoff marker, which a source leaves on its
disk, is here too (`migration.rs`).
-/

set_option autoImplicit false

open Codec
open Std (ExtTreeMap)

/-! ## Maps in bytes -/

namespace Codec

variable {κ β : Type} [LinearOrder κ]

/-- Read `n` entries into a map; a key that comes twice is refused. -/
def Dec.mapN (d : Dec (κ × β)) : Nat → ExtTreeMap κ β → Dec (ExtTreeMap κ β)
  | 0, m => pure m
  | n + 1, m => do
    let entry ← d
    Dec.require (!m.contains entry.1)
    mapN d n (m.insert entry.1 entry.2)

variable {d : Dec (κ × β)} {enc : κ × β → Bytes}

/-- New entries in increasing order are read one by one. -/
theorem Reads.mapN_foldl (entries : List (κ × β)) (m : ExtTreeMap κ β)
    (h : ∀ e ∈ entries, Reads d (enc e) e) (hsorted : entries.Pairwise fun p q => p.1 < q.1)
    (hnew : ∀ e ∈ entries, m[e.1]? = none) :
    Reads (Dec.mapN d entries.length m) (entries.flatMap enc)
      (entries.foldl (fun m e => m.insert e.1 e.2) m) := by
  induction entries generalizing m with
  | nil => exact Reads.pure m
  | cons e entries ih =>
    have hfresh : (!m.contains e.1) = true := by
      rw [ExtTreeMap.contains_eq_isSome_getElem?, hnew e List.mem_cons_self]
      rfl
    obtain ⟨hlt, hrest⟩ := List.pairwise_cons.mp hsorted
    refine Reads.bind (h e List.mem_cons_self) (Reads.require_bind hfresh ?_)
    refine ih (m.insert e.1 e.2) (fun e' he' => h e' (List.mem_cons_of_mem e he')) hrest
      fun e' he' => ?_
    rw [Maps.getElem?_insert, if_neg (hlt e' he').ne]
    exact hnew e' (List.mem_cons_of_mem e he')

/-- **The entries of a map are read back as the map.** -/
theorem Reads.mapN (m : ExtTreeMap κ β) (h : ∀ e ∈ m.toList, Reads d (enc e) e) :
    Reads (Dec.mapN d m.toList.length ∅) (m.toList.flatMap enc) m := by
  have hread := Reads.mapN_foldl m.toList ∅ h (Maps.pairwise_toList m) (by simp)
  rwa [Maps.foldl_insert_toList] at hread

/-- The entries of a map that was read passed the checks of the entry's reader. -/
theorem Accepts.mapN {valid : κ × β → Prop} (hd : Exact d enc valid) (n : Nat) (m : ExtTreeMap κ β)
    (hm : ∀ e ∈ m.toList, valid e) :
    Accepts (Dec.mapN d n m) fun m' _ _ => ∀ e ∈ m'.toList, valid e := by
  induction n generalizing m with
  | zero => exact Accepts.pure fun _ => hm
  | succ n ih =>
    refine Accepts.bind hd fun e he => Accepts.require_bind fun _ => ?_
    refine ih (m.insert e.1 e.2) fun e' he' => ?_
    rw [ExtTreeMap.mem_toList_iff_getElem?_eq_some, Maps.getElem?_insert] at he'
    split at he'
    case isTrue hkey => rwa [Prod.ext hkey.symm (Option.some.inj he').symm]
    case isFalse => exact hm e' (ExtTreeMap.mem_toList_iff_getElem?_eq_some.mpr he')

end Codec

namespace Blockd

/-! ## Handoff markers -/

def magicHandoff : UInt32 := magicOf 'B' 'H' 'F' '1'

def handoffDec (volume : VolumeId) : Dec HostId := do
  let version ← Dec.u16
  Dec.require (version == 1)
  let owner ← Dec.u64
  Dec.require (owner == volume)
  let destination ← Dec.u32
  Dec.finish
  return destination

/-- The host a volume was handed to, by the marker on the disk. -/
def decodeHandoff (volume : VolumeId) (bytes : Bytes) : Option HostId := do
  let payload ← openFrame magicHandoff bytes
  (handoffDec volume).decode payload

/-! ## The sidecar of a record -/

def magicMigrationIndex : UInt32 := magicOf 'B' 'M' 'I' 'X'

/-- The archive a migrating volume is attached to. -/
structure MigrationArchiveClosure where
  objects : List ObjectRef
  base : Option BaseRef
  deriving DecidableEq, Repr

variable [Platform]

namespace MigrationArchiveClosure

def encode (a : MigrationArchiveClosure) : Bytes :=
  encU32 (UInt32.ofNat a.objects.length) ++ a.objects.flatMap ObjectRef.encode ++
    BaseRef.encode a.base

def decode : Dec MigrationArchiveClosure := do
  let count ← Dec.u32
  let objects ← Dec.repeatN ObjectRef.decodeFrom count.toNat
  Dec.require (validateObjectRefs objects)
  let base ← BaseRef.decode
  return ⟨objects, base⟩

/-- What `decode` demands of the objects. -/
structure Valid (a : MigrationArchiveClosure) : Prop where
  count : a.objects.length < 2 ^ 32
  wellFormed : ∀ o ∈ a.objects, o.WellFormed
  archive : validateObjectRefs a.objects = true

theorem reads {a : MigrationArchiveClosure} (h : a.Valid) : Reads decode a.encode a := by
  have hobjects := Reads.repeatN a.objects fun o ho => ObjectRef.reads (h.wellFormed o ho)
  rw [← toNat_ofNat32 h.count] at hobjects
  simp only [encode, List.append_assoc]
  refine Reads.bind (Reads.u32 _) (Reads.bind hobjects (Reads.require_bind h.archive ?_))
  exact Reads.bind_last (BaseRef.reads _) (Reads.pure _)

theorem decode_exact : Exact decode encode Valid := by
  refine Exact.of_reads (fun a ha => reads ha) (Accepts.bind Exact.u32 fun count _ => ?_)
  refine Accepts.bind (ObjectRef.decodeFrom_exact.repeatN _) fun objects hobjects => ?_
  refine Accepts.require_bind fun hvalid => Accepts.bind BaseRef.decode_exact fun base _ => ?_
  refine Accepts.pure fun _ => ⟨?_, hobjects.1 ▸ count.toNat_lt, hobjects.2, hvalid⟩
  simp only [encode, hobjects.1, UInt32.ofNat_toNat, List.append_assoc, List.append_nil]

end MigrationArchiveClosure

/-- One page location of the index. -/
def encodeIndexEntry (entry : PageId × Gen × PageFileLoc) : Bytes :=
  encU32 entry.1.page ++ encU64 entry.2.1 ++ encU64 entry.2.2.base ++ encU64 entry.2.2.fence ++
    encU64 entry.2.2.object ++ encU32 entry.2.2.offset ++ encU32 entry.2.2.len

def indexEntryDec (volume : VolumeId) (config : VolumeConfig) :
    Dec (PageId × Gen × PageFileLoc) := do
  let page ← Dec.u32
  let generation ← Dec.u64
  let base ← Dec.u64
  let fence ← Dec.u64
  let object ← Dec.u64
  let offset ← Dec.u32
  let len ← Dec.u32
  Dec.require (config.contains ⟨volume, page⟩)
  return (⟨volume, page⟩, generation, ⟨base, fence, object, offset, len⟩)

/-- One block checksum of the index. -/
def encodeChecksumEntry (entry : BlockKey × Gen × UInt64) : Bytes :=
  encU8 entry.1.space.toByte ++ encU32 entry.1.block ++ encU64 entry.2.1 ++ encU64 entry.2.2

/-- Can a volume of this kind and size have the block? -/
def VolumeConfig.hasBlock (config : VolumeConfig) (key : BlockKey) : Bool :=
  match key.space with
  | .memory => config.kind == .memory && decide (key.block < config.pages)
  | .vmm => config.kind == .memory
  | .data => config.kind == .data && decide (key.block < config.pages)

def checksumEntryDec (config : VolumeConfig) : Dec (BlockKey × Gen × UInt64) := do
  let space ← Dec.ofOption (BlockSpace.decode (← Dec.u8))
  let block ← Dec.u32
  let generation ← Dec.u64
  let checksum ← Dec.u64
  Dec.require (config.hasBlock ⟨space, block⟩)
  return (⟨space, block⟩, generation, checksum)

omit [Platform] in
theorem indexEntry_reads {volume : VolumeId} {config : VolumeConfig}
    {entry : PageId × Gen × PageFileLoc} (hvolume : entry.1.volume = volume)
    (hpage : config.contains entry.1 = true) :
    Reads (indexEntryDec volume config) (encodeIndexEntry entry) entry := by
  obtain ⟨⟨owner, page⟩, generation, location⟩ := entry
  cases hvolume
  simp only [encodeIndexEntry, List.append_assoc]
  refine Reads.bind (Reads.u32 _) (Reads.bind (Reads.u64 _) (Reads.bind (Reads.u64 _) ?_))
  refine Reads.bind (Reads.u64 _) (Reads.bind (Reads.u64 _) (Reads.bind (Reads.u32 _) ?_))
  exact Reads.bind_last (Reads.u32 _) (Reads.require_bind hpage (Reads.pure _))

omit [Platform] in
theorem checksumEntry_reads {config : VolumeConfig} {entry : BlockKey × Gen × UInt64}
    (hblock : config.hasBlock entry.1 = true) :
    Reads (checksumEntryDec config) (encodeChecksumEntry entry) entry := by
  obtain ⟨⟨space, block⟩, generation, checksum⟩ := entry
  simp only [encodeChecksumEntry, List.append_assoc]
  refine Reads.bind (Reads.u8 _) (Reads.ofOption_bind space.decode_toByte ?_)
  refine Reads.bind (Reads.u32 _) (Reads.bind (Reads.u64 _) ?_)
  exact Reads.bind_last (Reads.u64 _) (Reads.require_bind hblock (Reads.pure _))

omit [Platform] in
theorem indexEntryDec_exact (volume : VolumeId) (config : VolumeConfig) :
    Exact (indexEntryDec volume config) encodeIndexEntry fun entry =>
      entry.1.volume = volume ∧ config.contains entry.1 = true := by
  refine Exact.of_reads (fun e he => indexEntry_reads he.1 he.2) ?_
  refine Accepts.bind Exact.u32 fun page _ => Accepts.bind Exact.u64 fun generation _ => ?_
  refine Accepts.bind Exact.u64 fun base _ => Accepts.bind Exact.u64 fun fence _ => ?_
  refine Accepts.bind Exact.u64 fun object _ => Accepts.bind Exact.u32 fun offset _ => ?_
  refine Accepts.bind Exact.u32 fun len _ => Accepts.require_bind fun hpage => ?_
  refine Accepts.pure fun _ => ⟨?_, rfl, hpage⟩
  simp only [encodeIndexEntry, List.append_assoc, List.append_nil]

omit [Platform] in
theorem checksumEntryDec_exact (config : VolumeConfig) :
    Exact (checksumEntryDec config) encodeChecksumEntry fun entry =>
      config.hasBlock entry.1 = true := by
  refine Exact.of_reads (fun e he => checksumEntry_reads he) (Accepts.bind Exact.u8 fun tag _ => ?_)
  refine Accepts.ofOption_bind fun space hspace => Accepts.bind Exact.u32 fun block _ => ?_
  refine Accepts.bind Exact.u64 fun generation _ => Accepts.bind Exact.u64 fun checksum _ => ?_
  refine Accepts.require_bind fun hblock => Accepts.pure fun _ => ⟨?_, hblock⟩
  rw [BlockSpace.decode_eq_some.mp hspace]
  simp only [encodeChecksumEntry, List.append_assoc, List.append_nil]

namespace JournalRecord

def migrationPayload (r : JournalRecord) (checksums : BlockChecksums)
    (archive : MigrationArchiveClosure) : Bytes :=
  encU32 (UInt32.ofNat r.runtimePageIndex.toList.length) ++
    r.runtimePageIndex.toList.flatMap encodeIndexEntry ++
    encU32 (UInt32.ofNat checksums.toList.length) ++
    checksums.toList.flatMap encodeChecksumEntry ++ archive.encode

/-- The record, in front of it its length, and after it what a destination needs of its source. -/
def encodeMigrationState (r : JournalRecord) (volume : VolumeId) (checksums : BlockChecksums)
    (archive : MigrationArchiveClosure) : Option Bytes := do
  let durable ← r.encode volume
  ensure (r.runtimePageIndex.toList.length < 2 ^ 32 ∧ checksums.toList.length < 2 ^ 32 ∧
    archive.objects.length < 2 ^ 32)
  let index ← sealFrame magicMigrationIndex (r.migrationPayload checksums archive)
  return encU64 (UInt64.ofNat durable.length) ++ durable ++ index

def migrationDec (volume : VolumeId) (config : VolumeConfig) :
    Dec (ExtTreeMap PageId (Gen × PageFileLoc) × BlockChecksums × MigrationArchiveClosure) := do
  let count ← Dec.u32
  let index ← Dec.mapN (indexEntryDec volume config) count.toNat ∅
  let checksumCount ← Dec.u32
  let checksums ← Dec.mapN (checksumEntryDec config) checksumCount.toNat ∅
  let archive ← MigrationArchiveClosure.decode
  Dec.finish
  return (index, checksums, archive)

def decodeMigrationState (volume : VolumeId) (bytes : Bytes) :
    Option (JournalRecord × BlockChecksums × MigrationArchiveClosure) := do
  ensure (8 ≤ bytes.length)
  let durableEnd := 8 + leNat (bytes.take 8)
  ensure (durableEnd ≤ bytes.length)
  let record ← decode volume (slice bytes 8 durableEnd)
  let payload ← openFrame magicMigrationIndex (bytes.drop durableEnd)
  let (index, checksums, archive) ← (migrationDec volume record.config).decode payload
  return ({ record with runtimePageIndex := index }, checksums, archive)

variable {r : JournalRecord} {volume : VolumeId} {checksums : BlockChecksums}
  {archive : MigrationArchiveClosure} {bytes : Bytes}

/-- What a sidecar has to satisfy to be read back. -/
structure MigrationValid (r : JournalRecord) (volume : VolumeId) (checksums : BlockChecksums)
    (archive : MigrationArchiveClosure) : Prop where
  files : ∀ f ∈ r.files, f.WellFormed
  batches : ValidBatches r.files
  index : ∀ entry ∈ r.runtimePageIndex.toList,
    entry.1.volume = volume ∧ r.config.contains entry.1 = true
  blocks : ∀ entry ∈ checksums.toList, r.config.hasBlock entry.1 = true
  archive : archive.Valid

theorem decodes_migrationPayload (h : r.MigrationValid volume checksums archive)
    (hindex : r.runtimePageIndex.toList.length < 2 ^ 32)
    (hchecksums : checksums.toList.length < 2 ^ 32) :
    Decodes (migrationDec volume r.config) (r.migrationPayload checksums archive)
      (r.runtimePageIndex, checksums, archive) := by
  have hpages := Reads.mapN r.runtimePageIndex fun e he =>
    indexEntry_reads (h.index e he).1 (h.index e he).2
  have hblocks := Reads.mapN checksums fun e he => checksumEntry_reads (h.blocks e he)
  rw [← toNat_ofNat32 hindex] at hpages
  rw [← toNat_ofNat32 hchecksums] at hblocks
  simp only [migrationPayload, List.append_assoc]
  refine Decodes.bind (Reads.u32 _) (Decodes.bind hpages (Decodes.bind (Reads.u32 _) ?_))
  refine Decodes.bind hblocks (Decodes.bind_last (MigrationArchiveClosure.reads h.archive) ?_)
  exact Decodes.finish_bind (Decodes.pure _)

/-- **The state a migration carries is read back as it was written.** -/
theorem decodeMigrationState_encode (h : r.MigrationValid volume checksums archive)
    (hbytes : r.encodeMigrationState volume checksums archive = some bytes) :
    decodeMigrationState volume bytes = some (r, checksums, archive) := by
  simp only [encodeMigrationState, Option.bind_eq_bind, Option.bind_eq_some_iff, ensure_eq_some,
    pure_eq_some, exists_const] at hbytes
  obtain ⟨durable, hdurable, ⟨hindex, hchecksums, -⟩, index, hseal, rfl⟩ := hbytes
  obtain ⟨-, -, hframe⟩ := encode_eq_some.mp hdurable
  have hlong : durable.length < 2 ^ 64 := by
    have hpayload : (r.payload volume).length < 2 ^ 32 := by
      rw [sealFrame] at hframe
      split at hframe
      · assumption
      · cases hframe
    rw [length_of_sealFrame hframe, frameHeader]
    omega
  have hlen : leNat (encU64 (UInt64.ofNat durable.length)) = durable.length := by
    rw [encU64, leNat_leBytes_of_lt (UInt64.toNat_lt _), UInt64.toNat_ofNat', Nat.mod_eq_of_lt hlong]
  have htake : (encU64 (UInt64.ofNat durable.length) ++ durable ++ index).take 8 =
      encU64 (UInt64.ofNat durable.length) := by
    rw [List.append_assoc, List.take_left' (length_encU64 _)]
  have hslice : slice (encU64 (UInt64.ofNat durable.length) ++ durable ++ index) 8
      (8 + durable.length) = durable := by
    rw [slice, List.append_assoc, List.drop_left' (length_encU64 _), Nat.add_sub_cancel_left,
      List.take_left]
  have hdrop : (encU64 (UInt64.ofNat durable.length) ++ durable ++ index).drop
      (8 + durable.length) = index := by
    rw [List.drop_left' (by simp)]
  have hrecord : decode volume durable = some r.durable :=
    (decode_encode_iff hdurable h.files).mpr h.batches
  have hpayload : (migrationDec volume r.durable.config).decode
      (r.migrationPayload checksums archive) = some (r.runtimePageIndex, checksums, archive) :=
    (decodes_migrationPayload h hindex hchecksums).decode
  have hfits : 8 + durable.length ≤
      (encU64 (UInt64.ofNat durable.length) ++ durable ++ index).length := by
    simp
  simp only [decodeMigrationState, htake, hlen, hslice, hdrop, hrecord, openFrame_sealFrame hseal,
    Option.bind_eq_bind, Option.bind_some]
  rw [ensure, if_pos (by omega), ensure, if_pos hfits]
  rw [Option.bind_some, Option.bind_some, hpayload]
  rfl

/-- What the sidecar's decoder lets through. -/
theorem migrationDec_accepts (config : VolumeConfig) :
    Accepts (migrationDec volume config) fun answer _ _ =>
      (∀ entry ∈ answer.1.toList, entry.1.volume = volume ∧ config.contains entry.1 = true) ∧
      (∀ entry ∈ answer.2.1.toList, config.hasBlock entry.1 = true) ∧ answer.2.2.Valid := by
  refine Accepts.bind Exact.u32 fun count _ => ?_
  refine Accepts.bind_accepts (Accepts.mapN (indexEntryDec_exact volume config) _ ∅ (by simp)) ?_
  refine fun index _ _ hindex => Accepts.bind Exact.u32 fun checksumCount _ => ?_
  refine Accepts.bind_accepts (Accepts.mapN (checksumEntryDec_exact config) _ ∅ (by simp)) ?_
  refine fun checksums _ _ hblocks => ?_
  refine Accepts.bind MigrationArchiveClosure.decode_exact fun archive harchive => ?_
  exact Accepts.finish_bind (Accepts.pure fun _ _ => ⟨hindex, hblocks, harchive⟩)

/-- What is read as the state of a migration meets the decoder's checks. -/
theorem migrationValid_of_decode
    (h : decodeMigrationState volume bytes = some (r, checksums, archive)) :
    r.MigrationValid volume checksums archive := by
  simp only [decodeMigrationState, bind_eq_some, ensure_eq_some, exists_const, pure_eq_some,
    Prod.mk.injEq] at h
  obtain ⟨-, -, record, hrecord, payload, -, ⟨index, checksums', archive'⟩, hread, rfl, rfl, rfl⟩ := h
  obtain ⟨-, -, hfiles, hvalid⟩ := decode_eq_some.mp hrecord
  obtain ⟨⟨_, rest⟩, hread, rfl⟩ := Option.map_eq_some_iff.mp hread
  obtain ⟨_, -, hindex, hblocks, harchive⟩ := migrationDec_accepts _ _ _ _ hread
  exact ⟨hfiles, (validateObjects_none_iff hfiles).mp hvalid, hindex, hblocks, harchive⟩

/-- A record's bytes start with the frame's magic number and length.  Taken as the length that a
migration's bytes start with, they are longer than the bytes themselves. -/
theorem decodeMigrationState_of_decode {volume' : VolumeId} (h : decode volume bytes = some r) :
    decodeMigrationState volume' bytes = none := by
  obtain ⟨hencode, -⟩ := decode_eq_some.mp h
  obtain ⟨-, -, hseal⟩ := encode_eq_some.mp hencode
  have hlen := length_of_sealFrame hseal
  rw [sealFrame] at hseal
  split at hseal
  case isFalse => cases hseal
  case isTrue hlt =>
    obtain rfl := Option.some.inj hseal
    set payload := r.payload volume
    have htake : (encU32 magicJournal ++ encU32 (UInt32.ofNat payload.length) ++
        encU32 (crc32c payload) ++ payload).take 8 =
        encU32 magicJournal ++ encU32 (UInt32.ofNat payload.length) := by
      rw [List.append_assoc, List.take_left' (by simp)]
    have hprefix : leNat (encU32 magicJournal ++ encU32 (UInt32.ofNat payload.length)) =
        magicJournal.toNat + 256 ^ 4 * payload.length := by
      rw [leNat_append, length_encU32, encU32, encU32, leNat_leBytes_of_lt (UInt32.toNat_lt _),
        leNat_leBytes_of_lt (UInt32.toNat_lt _), toNat_ofNat32 hlt]
    have hmagic : magicJournal.toNat = 0x31524A42 := by decide
    have hlong : ¬ 8 + (magicJournal.toNat + 256 ^ 4 * payload.length) ≤
        frameHeader + payload.length := by
      rw [hmagic, frameHeader]
      omega
    simp only [decodeMigrationState, htake, hprefix, hlen, Option.bind_eq_bind]
    rw [ensure, if_pos (by rw [frameHeader]; omega), Option.bind_some, ensure, if_neg hlong]
    rfl

end JournalRecord

/-! ## Records and migrations together -/

/-- **The codecs of records and of migrations are canonical.**  A record is read from its own bytes
and from no others; what was encoded reads back exactly if it meets the decoder's checks, with the
lookup state in a migration and without it in a record; and no bytes are both. -/
theorem journal_codecs_canonical (volume : VolumeId) :
    (∀ (bytes : Bytes) (r : JournalRecord), JournalRecord.decode volume bytes = some r ↔
      r.encode volume = some bytes ∧ r.runtimePageIndex = ∅ ∧ (∀ f ∈ r.files, f.WellFormed) ∧
      ValidBatches r.files) ∧
    (∀ (bytes : Bytes) (r : JournalRecord), r.encode volume = some bytes →
      (JournalRecord.decode volume bytes = some r.durable ↔
        (∀ f ∈ r.files, f.WellFormed) ∧ ValidBatches r.files)) ∧
    (∀ (bytes : Bytes) (r : JournalRecord) (checksums : BlockChecksums)
      (archive : MigrationArchiveClosure),
      r.encodeMigrationState volume checksums archive = some bytes →
      (JournalRecord.decodeMigrationState volume bytes = some (r, checksums, archive) ↔
        r.MigrationValid volume checksums archive)) ∧
    (∀ (bytes : Bytes) (r : JournalRecord), JournalRecord.decode volume bytes = some r →
      JournalRecord.decodeMigrationState volume bytes = none) := by
  refine ⟨fun bytes r => ?_, fun bytes r hbytes => ⟨fun h => ?_, fun h => ?_⟩,
    fun bytes r checksums archive hbytes => ⟨JournalRecord.migrationValid_of_decode, fun h => ?_⟩,
    fun bytes r => JournalRecord.decodeMigrationState_of_decode⟩
  · rw [JournalRecord.decode_eq_some]
    refine and_congr_right fun _ => and_congr_right fun _ => and_congr_right fun hfiles => ?_
    exact validateObjects_none_iff hfiles
  · obtain ⟨-, -, hfiles, hvalid⟩ := JournalRecord.decode_eq_some.mp h
    exact ⟨hfiles, (validateObjects_none_iff hfiles).mp hvalid⟩
  · exact (JournalRecord.decode_encode_iff hbytes h.1).mpr h.2
  · exact JournalRecord.decodeMigrationState_encode h hbytes

/-- A record of a volume of one page, with the given pages in its index. -/
def JournalRecord.indexed (pages : List UInt32) : JournalRecord where
  config := ⟨.data, 1⟩
  seq := 1
  fence := 1
  kind := .commit
  captureSeq := 1
  syncCoveredThrough := 1
  postStateChecksum := 5
  files := []
  runtimePageIndex := pages.foldl (fun m page => m.insert ⟨7, page⟩ (1, ⟨0, 1, 1, 32, 64⟩)) ∅
  migratedFrom := some ⟨2, some 1⟩

omit [Platform] in
theorem journal_codecs_canonical_one_page : letI := storedPlatform
    ∃ bytes plain : Bytes,
      JournalRecord.decodeMigrationState 7 bytes = some (.indexed [0],
        (∅ : BlockChecksums).insert ⟨.data, 0⟩ (1, 5), ⟨[], some ⟨1, 2, 3, 4⟩⟩) ∧
      JournalRecord.decode 7 plain = some (JournalRecord.indexed [0]).durable ∧
      JournalRecord.decodeMigrationState 7 plain = none := by
  let _ := storedPlatform
  let r := JournalRecord.indexed [0]
  let checksums := (∅ : BlockChecksums).insert ⟨.data, 0⟩ (1, 5)
  let archive : MigrationArchiveClosure := ⟨[], some ⟨1, 2, 3, 4⟩⟩
  have hfiles : ∀ f ∈ r.files, f.WellFormed := fun f hf => nomatch hf
  have hbatches : ValidBatches r.files := (validateObjects_none_iff hfiles).mp rfl
  have hvalid : r.MigrationValid 7 checksums archive :=
    ⟨hfiles, hbatches, by decide +kernel, by decide +kernel, by decide,
      (fun f hf => nomatch hf), rfl⟩
  obtain ⟨bytes, hbytes⟩ : ∃ bytes, r.encodeMigrationState 7 checksums archive = some bytes :=
    Option.isSome_iff_exists.mp (by decide +kernel)
  obtain ⟨plain, hplain⟩ : ∃ plain, r.encode 7 = some plain :=
    Option.isSome_iff_exists.mp (by decide +kernel)
  obtain ⟨-, hrecord, hmigration, hboth⟩ := journal_codecs_canonical 7
  have hread := (hrecord plain r hplain).mpr ⟨hfiles, hbatches⟩
  exact ⟨bytes, plain, (hmigration bytes r checksums archive hbytes).mpr hvalid, hread,
    hboth plain _ hread⟩

omit [Platform] in
/-- **Not everything that is encoded reads back.**  The index of a volume of one page names page 1;
the decoder refuses it. -/
theorem not_journal_codecs_canonical : ¬ ∀ [Platform] (volume : VolumeId) (bytes : Bytes)
    (r : JournalRecord) (checksums : BlockChecksums) (archive : MigrationArchiveClosure),
    r.encodeMigrationState volume checksums archive = some bytes →
      JournalRecord.decodeMigrationState volume bytes = some (r, checksums, archive) := by
  intro hall
  let _ := storedPlatform
  have hsome : ((JournalRecord.indexed [1]).encodeMigrationState 7 ∅ ⟨[], none⟩).isSome := by
    decide +kernel
  obtain ⟨bytes, hbytes⟩ := Option.isSome_iff_exists.mp hsome
  have hvalid := JournalRecord.migrationValid_of_decode (hall 7 bytes _ _ _ hbytes)
  have hpage := (hvalid.index (⟨7, 1⟩, 1, ⟨0, 1, 1, 32, 64⟩) (by decide +kernel)).2
  exact absurd hpage (by decide)

end Blockd
