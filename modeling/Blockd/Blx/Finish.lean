import Blockd.Blx.RoundTrip

/-!
# A batch can be finished

`finish` has many places where it panics: an entry, a footer or a file that is too large.  None of
them is reached, because the loop that cuts a batch into chunks estimates the size of a chunk from
above and starts a new one in time.  `BlxBatchBuilder.exists_finish` says so; what is left are the
object ids and the number of chunks, and a machine whose pages fit into a file.
-/

set_option autoImplicit false

open Codec
open Std (ExtTreeMap)

namespace Blockd

variable [Platform]

/-- The largest entry fits into a file of the target size. -/
def PagesFit : Prop :=
  Platform.maximumOutputSize pageSize + 1024 ≤ targetFileBytes

/-! ## Entries -/

theorem exists_encodeEntry (hfit : PagesFit) {entry : BlxEntry} (hv : entry.Valid) :
    ∃ bytes, encodeEntry entry = some bytes ∧ bytes.length ≤ encodedEntryUpperBound entry := by
  cases entry with
  | tombstone key generation =>
    obtain ⟨bytes, hbytes⟩ := exists_sealFrame magicEntry
      (encU8 EntryKind.tombstone.toByte ++ key.encode ++ encU64 generation) (by simp)
    refine ⟨bytes, hbytes, ?_⟩
    rw [length_of_sealFrame hbytes]
    simp [encodedEntryUpperBound]
  | data key generation block =>
    have hlen : block.length = pageSize := hv
    have hpage := Platform.pageSize_lt
    have hle := Platform.length_compress_le block
    rw [hlen] at hle
    have htarget : targetFileBytes < 2 ^ 31 := by decide
    have hcompressed : (Platform.compress block).length < 2 ^ 31 := by
      unfold PagesFit at hfit
      omega
    obtain ⟨bytes, hbytes⟩ := exists_sealFrame magicEntry
      (encU8 EntryKind.data.toByte ++ key.encode ++ encU64 generation ++
        encU32 (UInt32.ofNat block.length) ++ encU32 (UInt32.ofNat (Platform.compress block).length)
        ++ Platform.compress block)
      (by
        simp only [List.length_append, length_encU8, BlockKey.length_encode, length_encU64,
          length_encU32]
        omega)
    refine ⟨bytes, ?_, ?_⟩
    · rw [encodeEntry]
      exact (if_pos ⟨by omega, by omega⟩).trans hbytes
    · rw [length_of_sealFrame hbytes]
      simp only [encodedEntryUpperBound, List.length_append, length_encU8, BlockKey.length_encode,
        length_encU64, length_encU32, hlen]
      omega

/-- The upper bounds of a chunk's entries, with the footer entries that go with them. -/
def entriesBound (entries : List BlxEntry) : Nat :=
  (entries.map fun entry => encodedEntryUpperBound entry + footerEntryBytes).sum

theorem entriesBound_append (entries : List BlxEntry) (entry : BlxEntry) :
    entriesBound (entries ++ [entry]) =
      entriesBound entries + (encodedEntryUpperBound entry + footerEntryBytes) := by
  simp [entriesBound]

theorem exists_encodeEntries (hfit : PagesFit) {entries : List BlxEntry}
    (hv : ∀ e ∈ entries, e.Valid) (offset : Nat) (hoffset : offset + entriesBound entries < 2 ^ 32) :
    ∃ body footer, encodeEntries entries offset = some (body, footer) ∧
      footer.length = entries.length ∧
      body.length + footerEntryBytes * entries.length ≤ entriesBound entries := by
  induction entries generalizing offset with
  | nil => exact ⟨[], [], rfl, rfl, le_rfl⟩
  | cons entry entries ih =>
    obtain ⟨encoded, hencoded, hlen⟩ := exists_encodeEntry hfit (hv entry List.mem_cons_self)
    have hbound : entriesBound (entry :: entries) =
        encodedEntryUpperBound entry + footerEntryBytes + entriesBound entries := rfl
    obtain ⟨body, footer, hrest, hcount, hle⟩ :=
      ih (fun e he => hv e (List.mem_cons_of_mem _ he)) (offset + encoded.length) (by omega)
    refine ⟨encoded ++ body, ⟨entry.key, UInt32.ofNat offset, UInt32.ofNat encoded.length,
      entry.generation, entry.kind, entry.valueChecksum⟩ :: footer, ?_, ?_, ?_⟩
    · simp only [encodeEntries, hencoded, hrest, some_bind]
      rw [ensure, if_pos ⟨by omega, by omega⟩]
      rfl
    · rw [List.length_cons, hcount, List.length_cons]
    · rw [List.length_append, List.length_cons, hbound, Nat.mul_add]
      omega

/-! ## Objects -/

/-- What a chunk takes beside its entries. -/
def chunkOverhead : Nat := headerBytes + trailerBytes + frameHeader + footerPrefixBytes

theorem exists_encodeObject (hfit : PagesFit) {entries : List BlxEntry} (hne : entries ≠ [])
    (hv : ∀ e ∈ entries, e.Valid) (hsize : chunkOverhead + entriesBound entries ≤ maxFileBytes)
    (batch : BatchMeta) (objectId : UInt64) (chunkIndex chunkCount : UInt32) :
    ∃ object, encodeObject batch objectId chunkIndex chunkCount entries = some object ∧
      object.bytes.length ≤ chunkOverhead + entriesBound entries := by
  obtain ⟨first, hfirst⟩ := Option.ne_none_iff_exists'.mp (mt List.head?_eq_none_iff.mp hne)
  obtain ⟨last, hlast⟩ := Option.ne_none_iff_exists'.mp (mt List.getLast?_eq_none_iff.mp hne)
  have hmax : maxFileBytes < 2 ^ 31 := by decide
  have hoverhead : chunkOverhead = headerBytes + 34 := rfl
  obtain ⟨head, hhead⟩ := exists_sealFrame magicHeader
    (batch.header objectId chunkIndex chunkCount entries.length first.key last.key).payload
    (by rw [BlxHeader.length_payload]; decide)
  have hheadLen := length_of_encodeHeader hhead
  obtain ⟨body, footer, hbody, hcount, hle⟩ :=
    exists_encodeEntries hfit hv head.length (by omega)
  have hentry : footerEntryBytes = 40 := rfl
  rw [hentry] at hle
  have hpayload : (encU16 1 ++ encU32 (UInt32.ofNat footer.length) ++
      footer.flatMap FooterEntry.encode).length = 6 + 40 * entries.length := by
    simp [List.length_flatMap, FooterEntry.length_encode, hcount, hentry]
    omega
  obtain ⟨encodedFooter, hfooter⟩ := exists_sealFrame magicFooter
    (encU16 1 ++ encU32 (UInt32.ofNat footer.length) ++ footer.flatMap FooterEntry.encode)
    (by rw [hpayload]; omega)
  have hfooterLen : encodedFooter.length = 18 + 40 * entries.length := by
    rw [length_of_sealFrame hfooter, hpayload, frameHeader]
    omega
  have hencodeFooter : encodeFooter ⟨footer⟩ = some encodedFooter :=
    (if_pos (by show footer.length < 2 ^ 32; omega)).trans hfooter
  let bytes := head ++ body ++ encodedFooter ++ encodeTrailer
    (UInt32.ofNat (head.length + body.length)) (UInt32.ofNat encodedFooter.length)
  have htotal : bytes.length ≤ chunkOverhead + entriesBound entries := by
    simp only [bytes, List.length_append, length_encodeTrailer, trailerBytes]
    omega
  suffices hencode : ∃ object, encodeObject batch objectId chunkIndex chunkCount entries =
      some object ∧ object.bytes = bytes by
    obtain ⟨object, hobject, hbytes⟩ := hencode
    exact ⟨object, hobject, hbytes ▸ htotal⟩
  simp only [encodeObject, hfirst, hlast, encodeHeader, hhead, hbody, hencodeFooter,
    Option.bind_eq_bind, Option.bind_some]
  rw [ensure, if_pos (by omega), Option.bind_some, ensure, if_pos ⟨by omega, by omega⟩,
    Option.bind_some, ensure, if_pos (htotal.trans hsize)]
  exact ⟨_, rfl, rfl⟩

/-! ## Chunks -/

/-- A chunk the loop has closed or is filling: a single entry, or within the target size. -/
def ChunkFits (chunk : List BlxEntry) : Prop :=
  chunk.length ≤ 1 ∨ chunkOverhead + entriesBound chunk ≤ targetFileBytes

theorem BlxBatchBuilder.chunkFits (builder : BlxBatchBuilder) :
    ∀ c ∈ builder.chunks, ChunkFits c := by
  refine builder.forall_chunks (I := fun current estimated _ => ChunkFits current ∧
      estimated = headerBytes + trailerBytes + entriesBound current) (fun hcurrent _ => hcurrent.1)
    ⟨.inl (Nat.zero_le _), rfl⟩ (fun entry => ⟨.inl le_rfl, by simp [entriesBound]⟩) ?_
  rintro current estimated part entry ⟨-, hestimated⟩ hsplit
  refine ⟨?_, by rw [entriesBound_append]; omega⟩
  by_cases hempty : current = []
  · exact .inl (by rw [hempty]; exact le_rfl)
  · right
    rw [entriesBound_append, chunkOverhead]
    simp only [shouldSplit, List.isEmpty_eq_false_iff.mpr hempty, Bool.not_false,
      Bool.true_and, Bool.or_eq_true, decide_eq_true_eq, not_or] at hsplit
    omega

/-- A single entry always fits. -/
theorem chunkSize_le_of_length_le_one (hfit : PagesFit) {chunk : List BlxEntry}
    (hone : chunk.length ≤ 1) (hv : ∀ e ∈ chunk, e.Valid) :
    chunkOverhead + entriesBound chunk ≤ maxFileBytes := by
  have hoverhead : chunkOverhead = 145 := rfl
  have htarget : targetFileBytes + 1024 ≤ maxFileBytes := by decide
  have hsmall : 256 ≤ maxFileBytes := by decide
  unfold PagesFit at hfit
  match chunk, hone with
  | [], _ =>
    have hnil : chunkOverhead + entriesBound [] = 145 := rfl
    omega
  | [entry], _ =>
    have hbound : entriesBound [entry] = encodedEntryUpperBound entry + 40 := rfl
    rw [hbound]
    cases entry with
    | tombstone key generation =>
      have hmarker : encodedEntryUpperBound (.tombstone key generation) = 29 := rfl
      omega
    | data key generation block =>
      have hlen : block.length = pageSize := hv _ List.mem_cons_self
      simp only [encodedEntryUpperBound, frameHeader, hlen]
      omega

theorem exists_encodeChunks (hfit : PagesFit) (batch : BatchMeta) (count : UInt32)
    {chunks : List (List BlxEntry)} (index : Nat)
    (hids : batch.firstObjectId.toNat + index + chunks.length ≤ 2 ^ 64)
    (hne : ∀ c ∈ chunks, c ≠ []) (hv : ∀ c ∈ chunks, ∀ e ∈ c, e.Valid)
    (hchunks : ∀ c ∈ chunks, chunkOverhead + entriesBound c ≤ maxFileBytes) :
    ∃ objects, encodeChunks batch count chunks index = some objects := by
  induction chunks generalizing index with
  | nil => exact ⟨[], rfl⟩
  | cons chunk chunks ih =>
    rw [List.length_cons] at hids
    obtain ⟨rest, hrest⟩ := ih (index + 1) (by omega)
      (fun c hc => hne c (List.mem_cons_of_mem _ hc))
      (fun c hc => hv c (List.mem_cons_of_mem _ hc))
      (fun c hc => hchunks c (List.mem_cons_of_mem _ hc))
    have hindex : (UInt64.ofNat index).toNat = index := by
      rw [UInt64.toNat_ofNat', Nat.mod_eq_of_lt (by omega)]
    obtain ⟨object, hobject, -⟩ := exists_encodeObject hfit (hne chunk List.mem_cons_self)
      (hv chunk List.mem_cons_self) (hchunks chunk List.mem_cons_self) batch
      (batch.firstObjectId + UInt64.ofNat index) (UInt32.ofNat index) count
    refine ⟨object :: rest, ?_⟩
    have hid : checkedAdd batch.firstObjectId (UInt64.ofNat index) =
        some (batch.firstObjectId + UInt64.ofNat index) := if_pos (by omega)
    simp only [encodeChunks, hid, hobject, hrest, some_bind]
    rfl

/-- **A batch can be finished**, as long as the object ids and the chunk numbers last. -/
theorem BlxBatchBuilder.exists_finish (hfit : PagesFit) (builder : BlxBatchBuilder)
    (hcount : builder.chunks.length < 2 ^ 32)
    (hids : builder.batch.firstObjectId.toNat + builder.chunks.length ≤ 2 ^ 64) :
    ∃ objects, builder.finish = some objects := by
  have hvalid : ∀ c ∈ builder.chunks, ∀ e ∈ c, e.Valid :=
    fun c hc => (builder.chunkValid c hc).pages
  have hsize : ∀ c ∈ builder.chunks, chunkOverhead + entriesBound c ≤ maxFileBytes := by
    intro c hc
    rcases builder.chunkFits c hc with hone | hsize
    · exact chunkSize_le_of_length_le_one hfit hone (hvalid c hc)
    · exact hsize.trans (by decide)
  obtain ⟨objects, hobjects⟩ := exists_encodeChunks hfit builder.batch
    (UInt32.ofNat builder.chunks.length) 0 hids
    builder.ne_nil_of_mem_chunks hvalid hsize
  refine ⟨objects, ?_⟩
  simp only [finish, Option.bind_eq_bind]
  rw [ensure, if_pos hcount]
  exact hobjects

/-! ## Files with one entry -/

/-- What encoding adds to the only entry of a file: where the entry lies, and the file's footer,
checksum and bytes. -/
structure Layout where
  offset : UInt32
  length : UInt32
  footerOffset : UInt32
  footerLength : UInt32
  checksum : UInt64
  bytes : Bytes

/-- A finished file with one entry. -/
def BlxObject.single (batch : BatchMeta) (objectId : UInt64) (chunkIndex chunkCount : UInt32)
    (entry : BlxEntry) (layout : Layout) : BlxObject where
  header := batch.header objectId chunkIndex chunkCount 1 entry.key entry.key
  footer := ⟨[⟨entry.key, layout.offset, layout.length, entry.generation, entry.kind,
    entry.valueChecksum⟩]⟩
  footerOffset := layout.footerOffset
  footerLength := layout.footerLength
  checksum := layout.checksum
  bytes := layout.bytes

theorem eq_single_of_encodeObject {batch : BatchMeta} {objectId : UInt64}
    {chunkIndex chunkCount : UInt32} {entry : BlxEntry} {object : BlxObject}
    (h : encodeObject batch objectId chunkIndex chunkCount [entry] = some object) :
    ∃ layout, object = BlxObject.single batch objectId chunkIndex chunkCount entry layout := by
  simp only [encodeObject, List.head?_cons, List.getLast?_singleton, encodeEntries, bind_eq_some,
    Option.pure_def, Option.some.injEq, ensure_eq_some, exists_const] at h
  obtain ⟨_, rfl, _, rfl, -, head, -, ⟨body, footerEntries⟩,
    ⟨encoded, -, -, ⟨rest, tail⟩, hnil, hbody⟩, encodedFooter, -, -, -, rfl⟩ := h
  cases hnil
  cases hbody
  exact ⟨⟨_, _, _, _, _, _⟩, rfl⟩

theorem eq_single_of_encodeChunks {batch : BatchMeta} {count : UInt32} {entries : List BlxEntry}
    {index : Nat} {objects : List BlxObject}
    (h : encodeChunks batch count (entries.map fun e => [e]) index = some objects) :
    ∃ layouts : Nat → Layout, objects = entries.mapIdx fun i e =>
      BlxObject.single batch (batch.firstObjectId + UInt64.ofNat (index + i))
        (UInt32.ofNat (index + i)) count e (layouts i) := by
  induction entries generalizing index objects with
  | nil =>
    rw [List.map_nil, encodeChunks, Option.some.injEq] at h
    exact ⟨fun _ => ⟨0, 0, 0, 0, 0, []⟩, h.symm⟩
  | cons e entries ih =>
    obtain ⟨objectId, object, rest, hid, hobject, hrest, rfl⟩ := encodeChunks_cons_eq_some h
    obtain ⟨layout, rfl⟩ := eq_single_of_encodeObject hobject
    obtain ⟨layouts, rfl⟩ := ih hrest
    rw [checkedAdd] at hid
    split at hid
    · rw [← Option.some.inj hid]
      refine ⟨fun i => Nat.casesOn i layout layouts, ?_⟩
      simp only [List.mapIdx_cons, Nat.add_assoc, Nat.add_comm 1]
      rfl
    · cases hid

/-- A batch all of whose entries lie in partitions of their own. -/
theorem BlxBatchBuilder.exists_finish_single (hfit : PagesFit) (builder : BlxBatchBuilder)
    {entries : List BlxEntry} (hchunks : builder.chunks = entries.map fun e => [e])
    (hcount : entries.length < 2 ^ 32)
    (hids : builder.batch.firstObjectId.toNat + entries.length ≤ 2 ^ 64) :
    ∃ layouts : Nat → Layout, builder.finish = some (entries.mapIdx fun i e =>
      BlxObject.single builder.batch (builder.batch.firstObjectId + UInt64.ofNat i)
        (UInt32.ofNat i) (UInt32.ofNat entries.length) e (layouts i)) := by
  have hlen : builder.chunks.length = entries.length := by rw [hchunks, List.length_map]
  obtain ⟨objects, hobjects⟩ := builder.exists_finish hfit (hlen ▸ hcount) (hlen ▸ hids)
  have hencode := hobjects
  simp only [finish, bind_eq_some, ensure_eq_some, exists_const] at hencode
  obtain ⟨-, hencode⟩ := hencode
  rw [hlen, hchunks] at hencode
  obtain ⟨layouts, rfl⟩ := eq_single_of_encodeChunks hencode
  simp only [Nat.zero_add] at hobjects
  exact ⟨layouts, hobjects⟩

end Blockd
