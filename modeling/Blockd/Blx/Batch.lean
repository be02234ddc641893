import Mathlib
import Blockd.Blx.Read

/-!
# Batches read back

What is put into a batch is what its objects are read as, whatever was put in.

`finish` numbers its chunks with 32 bits and gives each one an object id of 64.  The chunk numbers
always last on a machine whose pages are no larger than pages are (`length_chunks_lt`): a chunk ends
where a file partition ends, of which there are few, or when it is full, and then it has many of the
keys there can be.  Whether the object ids last depends on the first of them, and `objectIdsFit`
says it (`objectIdsFit_iff`).
-/

set_option autoImplicit false

open Codec
open Std (ExtTreeMap)

namespace Blockd

variable [Platform]

/-- Base pages of a machine, and the bound of the compression library on what becomes of them. -/
structure SystemPages : Prop where
  pageSize_le : pageSize ≤ 2 ^ 16
  maximumOutputSize_le : Platform.maximumOutputSize pageSize ≤ 2 * pageSize + 20

theorem SystemPages.pagesFit (h : SystemPages) : PagesFit := by
  have hpage := h.pageSize_le
  have hout := h.maximumOutputSize_le
  have htarget : targetFileBytes = 33554432 := rfl
  unfold PagesFit
  omega

/-! ## The number of chunks -/

namespace BlockKey

/-- The part of the file partition that tells partitions apart. -/
def partIndex (k : BlockKey) : Nat := k.block.toNat / blocksPerFilePartition

theorem filePartition_eq (k : BlockKey) : k.filePartition = (k.partIndex, 0) := by
  have hrank : k.namespaceRank / namespacesPerFilePartition = 0 := by
    rw [namespaceRank]
    split <;> rfl
  rw [filePartition, hrank, partIndex]

theorem partIndex_le_of_le {k l : BlockKey} (h : k ≤ l) : k.partIndex ≤ l.partIndex := by
  rcases (Prod.Lex.le_iff).mp (show k.code ≤ l.code from h) with hlt | ⟨heq, -⟩
  · exact hlt.le
  · exact heq.le

theorem partIndex_lt (hpages : SystemPages) (k : BlockKey) : k.partIndex < 2 ^ 30 := by
  have hblocks : 4 ≤ blocksPerFilePartition := by
    have hdiv : targetFileBytes / 2 ^ 16 ≤ targetFileBytes / pageSize :=
      Nat.div_le_div_left hpages.pageSize_le (by have := Platform.le_pageSize; omega)
    have htarget : targetFileBytes / 2 ^ 16 = 512 := rfl
    rw [blocksPerFilePartition, namespacesPerFilePartition]
    omega
  have hblock := k.block.toNat_lt
  rw [partIndex]
  calc k.block.toNat / blocksPerFilePartition ≤ k.block.toNat / 4 :=
        Nat.div_le_div_left hblocks (by decide)
    _ < 2 ^ 30 := by omega

omit [Platform] in
/-- A number for every key. -/
def number (k : BlockKey) : Nat := k.namespaceRank * 2 ^ 32 + k.block.toNat

omit [Platform] in
theorem number_lt (k : BlockKey) : k.number < 3 * 2 ^ 32 := by
  have hblock := k.block.toNat_lt
  have hrank : k.namespaceRank ≤ 2 := by
    rw [namespaceRank]
    split <;> decide
  rw [number]
  omega

omit [Platform] in
theorem number_injective : Function.Injective number := by
  rintro ⟨s, b⟩ ⟨t, c⟩ h
  have hb := b.toNat_lt
  have hc := c.toNat_lt
  simp only [number] at h
  have hrank : namespaceRank ⟨s, b⟩ = namespaceRank ⟨t, c⟩ := by omega
  have hblock : b.toNat = c.toNat := by omega
  have hspace : s = t := by
    cases s <;> cases t <;> first | rfl | nomatch hrank
  rw [hspace, UInt32.toNat_inj.mp hblock]

/-- There are not many keys. -/
theorem length_le_of_sorted {entries : List BlxEntry}
    (hsorted : entries.Pairwise fun e f => e.key < f.key) : entries.length ≤ 3 * 2 ^ 32 := by
  have hnodup : (entries.map fun e => e.key.number).Nodup := by
    rw [List.nodup_iff_pairwise_ne, List.pairwise_map]
    exact hsorted.imp fun hlt heq => hlt.ne (number_injective heq)
  have hsub : (entries.map fun e => e.key.number) ⊆ List.range (3 * 2 ^ 32) := by
    intro n hn
    obtain ⟨e, -, rfl⟩ := List.mem_map.mp hn
    exact List.mem_range.mpr e.key.number_lt
  have hle := (List.subperm_of_subset hnodup hsub).length_le
  rwa [List.length_map, List.length_range] at hle

end BlockKey

/-- No entry takes more than this in a file. -/
def entryLimit : Nat := 2 ^ 18

theorem SystemPages.bound_le (hpages : SystemPages) {entry : BlxEntry} (hv : entry.Valid) :
    encodedEntryUpperBound entry + footerEntryBytes ≤ entryLimit := by
  have hpage := hpages.pageSize_le
  have hout := hpages.maximumOutputSize_le
  have hlimit : entryLimit = 262144 := rfl
  have hfooter : footerEntryBytes = 40 := rfl
  cases entry with
  | tombstone key generation =>
    have hmarker : encodedEntryUpperBound (.tombstone key generation) = 29 := rfl
    omega
  | data key generation block =>
    have hlen : block.length = pageSize := hv
    simp only [encodedEntryUpperBound, frameHeader, hlen]
    omega

theorem SystemPages.entriesBound_le (hpages : SystemPages) {entries : List BlxEntry}
    (hv : ∀ e ∈ entries, e.Valid) : entriesBound entries ≤ entries.length * entryLimit := by
  induction entries with
  | nil => exact Nat.zero_le _
  | cons entry entries ih =>
    have hentry := hpages.bound_le (hv entry List.mem_cons_self)
    have hrest := ih fun e he => hv e (List.mem_cons_of_mem entry he)
    have hbound : entriesBound (entry :: entries) =
        encodedEntryUpperBound entry + footerEntryBytes + entriesBound entries := rfl
    rw [hbound, List.length_cons, Nat.succ_mul]
    omega

/-- A chunk is closed when it is full, or at the end of its partition. -/
theorem SystemPages.of_shouldSplit (hpages : SystemPages) {split : Bool} {entry : BlxEntry}
    {current : List BlxEntry} {estimated p : Nat} {part : Option (Nat × Nat)}
    (hv : ∀ e ∈ current, e.Valid) (hentry : entry.Valid)
    (hpart : current ≠ [] → part = some (p, 0))
    (hestimated : estimated = headerBytes + trailerBytes + entriesBound current)
    (hsplit : shouldSplit current.isEmpty estimated part entry split = true) :
    p ≠ entry.key.partIndex ∨ 12 ≤ current.length := by
  simp only [shouldSplit, Bool.and_eq_true, Bool.or_eq_true, decide_eq_true_eq,
    Bool.not_eq_true', List.isEmpty_eq_false_iff] at hsplit
  obtain ⟨hne, ⟨-, hother⟩ | hfull⟩ := hsplit
  · rw [hpart hne, BlockKey.filePartition_eq] at hother
    exact .inl fun h => hother (by rw [h])
  · have hcurrent := hpages.entriesBound_le hv
    have hone := hpages.bound_le hentry
    rw [show entryLimit = 262144 from rfl] at hcurrent hone
    have htarget : targetFileBytes = 33554432 := rfl
    have hoverhead : headerBytes + trailerBytes + frameHeader + footerPrefixBytes = 145 := rfl
    right
    omega

/-- **How many chunks the loop makes.**  A chunk that is closed has at least twelve entries, or the
next entry is in a later partition. -/
theorem length_splitChunks_le (hpages : SystemPages) (split : Bool) (entries : List BlxEntry)
    (chunks : List (List BlxEntry)) (current : List BlxEntry) (estimated : Nat)
    (part : Option (Nat × Nat)) {p l : Nat} (hp : p ≤ l)
    (hv : ∀ e ∈ current ++ entries, e.Valid)
    (hsorted : entries.Pairwise fun e f => e.key < f.key)
    (hnext : ∀ e ∈ entries, p ≤ e.key.partIndex) (hlimit : ∀ e ∈ entries, e.key.partIndex ≤ l)
    (hpart : current ≠ [] → part = some (p, 0))
    (hestimated : estimated = headerBytes + trailerBytes + entriesBound current)
    (hclosed : 12 * chunks.length ≤ 12 * p + chunks.flatten.length) :
    12 * (splitChunks split entries chunks current estimated part).length ≤
      12 * (l + 1) + (chunks.flatten ++ current ++ entries).length := by
  induction entries generalizing chunks current estimated part p with
  | nil =>
    simp only [splitChunks, List.append_nil, List.length_append]
    split
    · omega
    · rw [List.length_append, List.length_singleton]
      omega
  | cons entry entries ih =>
    have hentry : entry.Valid := hv entry (by simp)
    obtain ⟨hfirst, hrest⟩ := List.pairwise_cons.mp hsorted
    have hle : p ≤ entry.key.partIndex := hnext entry List.mem_cons_self
    have hnext' : ∀ e ∈ entries, entry.key.partIndex ≤ e.key.partIndex :=
      fun e he => BlockKey.partIndex_le_of_le (hfirst e he).le
    have hlimit' : ∀ e ∈ entries, e.key.partIndex ≤ l :=
      fun e he => hlimit e (List.mem_cons_of_mem _ he)
    rw [splitChunks]
    split
    · rename_i hsplit
      have hcount : 12 * (chunks ++ [current]).length ≤
          12 * entry.key.partIndex + (chunks ++ [current]).flatten.length := by
        rw [List.length_append, List.length_singleton, List.flatten_append, List.flatten_singleton,
          List.length_append]
        rcases hpages.of_shouldSplit (fun e he => hv e (List.mem_append_left _ he)) hentry hpart
          hestimated hsplit with hother | hfull
        · omega
        · omega
      have h := ih (chunks ++ [current]) [entry]
        (headerBytes + trailerBytes + (encodedEntryUpperBound entry + footerEntryBytes))
        (some entry.key.filePartition) (hlimit entry List.mem_cons_self)
        (fun e he => hv e (List.mem_append_right current he)) hrest hnext' hlimit'
        (fun _ => by rw [BlockKey.filePartition_eq]) (by simp [entriesBound]) hcount
      simpa [Nat.add_assoc, Nat.add_comm, Nat.add_left_comm] using h
    · have h := ih chunks (current ++ [entry])
        (estimated + (encodedEntryUpperBound entry + footerEntryBytes))
        (some entry.key.filePartition) (hlimit entry List.mem_cons_self)
        (fun e he => hv e (by simpa [or_assoc] using he)) hrest hnext' hlimit'
        (fun _ => by rw [BlockKey.filePartition_eq])
        (by rw [entriesBound_append, hestimated]; omega) (by omega)
      simpa using h

namespace BlxBatchBuilder

/-- The chunk numbers last. -/
theorem length_chunks_lt (hpages : SystemPages) (builder : BlxBatchBuilder) :
    builder.chunks.length < 2 ^ 32 := by
  have hcount := length_splitChunks_le hpages builder.splitAtFilePartitions
    (builder.entries.toList.map Prod.snd) [] [] (headerBytes + trailerBytes) none
    (p := 0) (l := 2 ^ 30 - 1) (Nat.zero_le _) builder.entries_valid builder.entries_sorted
    (fun _ _ => Nat.zero_le _) (fun e _ => Nat.le_sub_one_of_lt (e.key.partIndex_lt hpages))
    (fun h => absurd rfl h) rfl le_rfl
  have hkeys := BlockKey.length_le_of_sorted builder.entries_sorted
  rw [List.flatten_nil, List.nil_append, List.nil_append] at hcount
  rw [chunks]
  omega

end BlxBatchBuilder

/-! ## Partitions -/

/-- All entries of the chunk lie in one partition. -/
def SamePartition (chunk : List BlxEntry) : Prop :=
  ∀ e ∈ chunk, ∀ f ∈ chunk, e.key.filePartition = f.key.filePartition

/-- A partitioned batch has no chunk across partitions. -/
theorem BlxBatchBuilder.samePartition_of_mem {builder : BlxBatchBuilder}
    (hsplit : builder.splitAtFilePartitions = true) :
    ∀ c ∈ builder.chunks, SamePartition c := by
  refine builder.forall_chunks
    (I := fun current _ part => ∀ e ∈ current, part = some e.key.filePartition)
    (fun hcurrent _ e he f hf => ?_) (by simp) (fun entry => by simp) ?_
  · exact Option.some.inj ((hcurrent e he).symm.trans (hcurrent f hf))
  · intro current estimated part entry hcurrent hgo
    refine List.forall_mem_append.mpr ⟨fun e he => ?_, by simp⟩
    -- the chunk goes on, so its partition is that of the new entry
    have hne : current.isEmpty = false := List.isEmpty_eq_false_iff.mpr (List.ne_nil_of_mem he)
    simp only [shouldSplit, hsplit, hne, Bool.not_false, Bool.true_and, Bool.or_eq_true,
      decide_eq_true_eq, not_or, not_not] at hgo
    rw [← hgo.1, hcurrent e he]

/-! ## Object ids -/

theorem countChunks_eq (split : Bool) (entries : List BlxEntry) (chunks : List (List BlxEntry))
    {current : List BlxEntry} (hne : current ≠ []) (estimated : Nat) (part : Option (Nat × Nat)) :
    countChunks split entries (chunks.length + 1) false estimated part =
      (splitChunks split entries chunks current estimated part).length := by
  induction entries generalizing chunks current estimated part with
  | nil => rw [countChunks, splitChunks, if_neg (by simpa using hne), List.length_append,
      List.length_singleton]
  | cons entry entries ih =>
    rw [countChunks, splitChunks, List.isEmpty_eq_false_iff.mpr hne]
    split
    · rw [← ih _ (List.cons_ne_nil _ _), List.length_append, List.length_singleton]
    · exact ih _ (by simp) _ _

namespace BlxBatchBuilder

/-- What `object_ids_fit` counts are the chunks that `finish` makes. -/
theorem countChunks_entries (builder : BlxBatchBuilder) :
    countChunks builder.splitAtFilePartitions (builder.entries.toList.map Prod.snd)
      (if (builder.entries.toList.map Prod.snd).isEmpty then 0 else 1) true
      (headerBytes + trailerBytes) none = builder.chunks.length := by
  rw [chunks]
  cases builder.entries.toList.map Prod.snd with
  | nil => rfl
  | cons entry entries =>
    simp only [countChunks, splitChunks, shouldSplit, List.isEmpty_nil, List.isEmpty_cons,
      Bool.not_true, Bool.false_and, Bool.false_eq_true, if_false, List.nil_append]
    exact countChunks_eq _ entries [] (List.cons_ne_nil _ _) _ _

/-- **The object ids last exactly when `object_ids_fit` says so.** -/
theorem objectIdsFit_iff_of_lt (builder : BlxBatchBuilder)
    (hlt : builder.chunks.length < 2 ^ 32) : builder.objectIdsFit = true ↔
      builder.batch.firstObjectId.toNat + builder.chunks.length ≤ 2 ^ 64 := by
  have hfirst := builder.batch.firstObjectId.toNat_lt
  have hlast : (UInt64.ofNat (builder.chunks.length - 1)).toNat = builder.chunks.length - 1 := by
    rw [UInt64.toNat_ofNat', Nat.mod_eq_of_lt (by omega)]
  simp only [objectIdsFit, countChunks_entries, Bool.or_eq_true, beq_iff_eq, checkedAdd, hlast]
  split
  · simp only [Option.isSome_some, or_true, true_iff]
    omega
  · simp only [Option.isSome_none, Bool.false_eq_true, or_false]
    omega

theorem objectIdsFit_iff (hpages : SystemPages) (builder : BlxBatchBuilder) :
    builder.objectIdsFit = true ↔
      builder.batch.firstObjectId.toNat + builder.chunks.length ≤ 2 ^ 64 :=
  builder.objectIdsFit_iff_of_lt (builder.length_chunks_lt hpages)

/-- **A batch is finished exactly when its object ids last.** -/
theorem exists_finish_iff (hpages : SystemPages) (builder : BlxBatchBuilder) :
    (∃ objects, builder.finish = some objects) ↔ builder.objectIdsFit = true := by
  rw [builder.objectIdsFit_iff hpages]
  constructor
  · rintro ⟨objects, hfinish⟩
    have hlen := builder.length_of_finish hfinish
    have hfirst := builder.batch.firstObjectId.toNat_lt
    by_cases hempty : objects.length = 0
    · omega
    · obtain ⟨last, hlast⟩ : ∃ last, objects[objects.length - 1]? = some last :=
        ⟨_, List.getElem?_eq_getElem (by omega)⟩
      have hid := (builder.finish_batch hfinish).objectId _ last hlast
      have hlt := last.header.objectId.toNat_lt
      omega
  · exact builder.exists_finish hpages.pagesFit (builder.length_chunks_lt hpages)

end BlxBatchBuilder

/-! ## Reading back -/

/-- An object of a batch, with everything that is read from it. -/
structure BlxObject.ReadsBack (batch : BatchMeta) (count index : Nat) (entries : List BlxEntry)
    (o : BlxObject) : Prop where
  opens : BlxObject.open o.bytes = some o
  header : BlxHeader.open o.bytes = some (o.header, headerBytes)
  footer : BlxFooter.open (slice o.bytes o.footerOffset.toNat
    (o.footerOffset.toNat + o.footerLength.toNat)) = some o.footer
  /-- The ranges of the footer are those of the entries, which are all there is. -/
  stored : (o.footer.entries.map fun f => BlxEntry.open
    (slice o.bytes f.offset.toNat (f.offset.toNat + f.length.toNat))) = entries.map some
  /-- The footer repeats key, generation, kind and checksum. -/
  digests : o.footer.entries.map FooterEntry.digest = entries.map BlxEntry.digest
  sorted : entries.Pairwise fun e f => e.key < f.key
  firstKey : entries.head?.map BlxEntry.key = some o.header.firstKey
  lastKey : entries.getLast?.map BlxEntry.key = some o.header.lastKey
  entryCount : o.header.entryCount.toNat = entries.length
  minSeq : o.header.minSeq = batch.minSeq
  maxSeq : o.header.maxSeq = batch.maxSeq
  chunkIndex : o.header.chunkIndex.toNat = index
  chunkCount : o.header.chunkCount.toNat = count
  objectId : o.header.objectId.toNat = batch.firstObjectId.toNat + index

theorem stored_of_holds {bytes : Bytes} {entries : List BlxEntry} {footer : List FooterEntry}
    (h : List.Forall₂ (FooterEntry.Holds bytes) entries footer) :
    (footer.map fun f => BlxEntry.open
      (slice bytes f.offset.toNat (f.offset.toNat + f.length.toNat))) = entries.map some ∧
    footer.map FooterEntry.digest = entries.map BlxEntry.digest := by
  induction h with
  | nil => exact ⟨rfl, rfl⟩
  | cons hholds _ ih =>
    rw [List.map_cons, List.map_cons, List.map_cons, List.map_cons, hholds.stored, hholds.digest,
      ih.1, ih.2]
    exact ⟨rfl, rfl⟩

theorem BlxBatchBuilder.readsBack_of_finish {builder : BlxBatchBuilder} {objects : List BlxObject}
    (h : builder.finish = some objects) {i : Nat} {o : BlxObject} (hi : objects[i]? = some o) :
    ∃ entries, builder.chunks[i]? = some entries ∧
      o.ReadsBack builder.batch objects.length i entries := by
  obtain ⟨hlt, hcount, entries, objectId, hchunk, hid, hencode⟩ := builder.getElem?_of_finish h hi
  have hvalid := builder.chunkValid entries (List.mem_of_getElem? hchunk)
  have hbatch := builder.finish_batch h
  have ho : o ∈ objects := List.mem_of_getElem? hi
  have hopen := hbatch.opens o ho
  obtain ⟨hscan, -, -⟩ := BlxObject.scan_of_open hopen
  obtain ⟨_, _, hheader, -⟩ := BlxObject.scan_eq_some hscan
  obtain ⟨hstored, hdigests⟩ := stored_of_holds (holds_of_encodeObject hvalid.pages hencode)
  obtain ⟨first, last, _, _, _, _, hfirst, hlast, hentries, -, -, -, -, hfields, -⟩ :=
    encodeObject_eq_some hencode
  refine ⟨entries, hchunk, hopen, hheader, (BlxObject.opened_of_open hopen).footer, hstored,
    hdigests, hvalid.sorted, ?_, ?_, ?_, (hbatch.fields o ho).2.2.2.1,
    (hbatch.fields o ho).2.2.2.2.1, hbatch.chunkIndex i o hi, hbatch.chunkCount o ho,
    hbatch.objectId i o hi⟩
  · rw [hfirst, hfields]
    rfl
  · rw [hlast, hfields]
    rfl
  · rw [hfields, BatchMeta.header, toNat_ofNat32 hentries]

/-- **A batch reads back.**  A batch whose object ids last is finished, and its objects, one for each
chunk, are read as the entries of their chunks, which together are the entries of the batch in the
order of their keys. -/
theorem finish_round_trip (hpages : SystemPages) (builder : BlxBatchBuilder)
    (hids : builder.objectIdsFit = true) : ∃ (objects : List BlxObject)
      (chunks : List (List BlxEntry)), builder.finish = some objects ∧
      chunks.flatten = builder.entries.toList.map Prod.snd ∧ chunks.length = objects.length ∧
      ∀ (i : Nat) (o : BlxObject), objects[i]? = some o → ∃ entries, chunks[i]? = some entries ∧
        o.ReadsBack builder.batch objects.length i entries := by
  obtain ⟨objects, hfinish⟩ := (builder.exists_finish_iff hpages).mpr hids
  exact ⟨objects, builder.chunks, hfinish, builder.flatten_chunks,
    (builder.length_of_finish hfinish).symm, fun i o hi => builder.readsBack_of_finish hfinish hi⟩

/-- A partitioned batch of deletion markers. -/
def BlxBatchBuilder.markers (firstObjectId : UInt64) (blocks : List UInt32) : BlxBatchBuilder :=
  blocks.foldl (fun builder block => builder.addTombstone ⟨.data, block⟩ 1)
    ⟨⟨.volume, 7, 1, firstObjectId, 1, 1, 1, 0, 0⟩, ∅, true, le_rfl, keyed_empty⟩

omit [Platform] in
theorem finish_round_trip_two_partitions :
    letI := storedPlatform
    ∃ (objects : List BlxObject) (chunks : List (List BlxEntry)),
      (BlxBatchBuilder.markers 1 [0, 4096]).finish = some objects ∧
      chunks.flatten = (BlxBatchBuilder.markers 1 [0, 4096]).entries.toList.map Prod.snd ∧
      chunks.length = objects.length ∧
      ∀ (i : Nat) (o : BlxObject), objects[i]? = some o → ∃ entries, chunks[i]? = some entries ∧
        o.ReadsBack (BlxBatchBuilder.markers 1 [0, 4096]).batch objects.length i entries :=
  letI := storedPlatform
  finish_round_trip ⟨by decide, by decide⟩ (.markers 1 [0, 4096]) (by decide +kernel)

omit [Platform] in
/-- **Not every batch can be finished.**  Two partitions need two object ids, and only one is left. -/
theorem not_finish_round_trip : ¬ ∀ [Platform] (_ : SystemPages) (builder : BlxBatchBuilder),
    ∃ (objects : List BlxObject) (chunks : List (List BlxEntry)), builder.finish = some objects ∧
      chunks.flatten = builder.entries.toList.map Prod.snd ∧ chunks.length = objects.length ∧
      ∀ (i : Nat) (o : BlxObject), objects[i]? = some o → ∃ entries, chunks[i]? = some entries ∧
        o.ReadsBack builder.batch objects.length i entries := by
  intro hall
  let _ := storedPlatform
  have hpages : SystemPages := ⟨by decide, by decide⟩
  obtain ⟨objects, -, hfinish, -⟩ := hall hpages (.markers 0xFFFFFFFFFFFFFFFF [0, 4096])
  have hfit := (BlxBatchBuilder.exists_finish_iff hpages _).mp ⟨objects, hfinish⟩
  exact absurd hfit (by decide +kernel)

/-! ## Planning and writing -/

/-- **Planning agrees with writing.**  `object_ids_fit` says whether each chunk can be given an
object id, and then the batch is finished, one object for each chunk.  The chunks are nonempty and in
the order of their keys, those of a partitioned batch lie in one partition each, and the object of a
chunk with several entries is within the target size. -/
theorem chunk_planning (hfit : PagesFit) (builder : BlxBatchBuilder)
    (hcount : builder.chunks.length < 2 ^ 32) :
    (builder.objectIdsFit = true ↔
      ∀ i < builder.chunks.length, builder.batch.firstObjectId.toNat + i < 2 ^ 64) ∧
    (builder.objectIdsFit = true → ∃ objects, builder.finish = some objects ∧
      objects.length = builder.chunks.length ∧
      ∀ (i : Nat) (o : BlxObject), objects[i]? = some o → ∃ c, builder.chunks[i]? = some c ∧
        o.ReadsBack builder.batch objects.length i c ∧
        (1 < c.length → o.bytes.length ≤ targetFileBytes)) ∧
    (builder.splitAtFilePartitions = true → ∀ c ∈ builder.chunks, SamePartition c) ∧
    (∀ c ∈ builder.chunks, c ≠ [] ∧ c.Pairwise fun e f => e.key < f.key) ∧
    builder.chunks.Pairwise fun c d => ∀ e ∈ c, ∀ f ∈ d, e.key < f.key := by
  have hids := builder.objectIdsFit_iff_of_lt hcount
  have hne := builder.ne_nil_of_mem_chunks
  refine ⟨?_, fun hok => ?_, fun hsplit => builder.samePartition_of_mem hsplit,
    fun c hc => ⟨hne c hc, (builder.chunkValid c hc).sorted⟩, builder.chunks_increase⟩
  · have hfirst := builder.batch.firstObjectId.toNat_lt
    rw [hids]
    refine ⟨fun h i hi => by omega, fun h => ?_⟩
    rcases builder.chunks.length.eq_zero_or_pos with hzero | hpos
    · omega
    · have := h (builder.chunks.length - 1) (by omega)
      omega
  · obtain ⟨objects, hfinish⟩ := builder.exists_finish hfit hcount (hids.mp hok)
    refine ⟨objects, hfinish, builder.length_of_finish hfinish, fun i o hi => ?_⟩
    obtain ⟨c, hc, hreads⟩ := builder.readsBack_of_finish hfinish hi
    refine ⟨c, hc, hreads, fun hmany => ?_⟩
    have hmem := List.mem_of_getElem? hc
    have hsize := (builder.chunkFits c hmem).resolve_left (by omega)
    -- the object is the encoding of the chunk
    obtain ⟨-, -, c', objectId, hc', -, hobject⟩ := builder.getElem?_of_finish hfinish hi
    cases hc.symm.trans hc'
    obtain ⟨o', ho', hbound⟩ := exists_encodeObject hfit (hne c hmem)
      (builder.chunkValid c hmem).pages (hsize.trans (by decide)) builder.batch objectId
      (UInt32.ofNat i) (UInt32.ofNat builder.chunks.length)
    cases hobject.symm.trans ho'
    exact hbound.trans hsize

omit [Platform] in
theorem chunk_planning_two_partitions :
    letI := storedPlatform
    (BlxBatchBuilder.markers 1 [0, 4096]).objectIdsFit = true ∧
    ∀ c ∈ (BlxBatchBuilder.markers 1 [0, 4096]).chunks, SamePartition c :=
  letI := storedPlatform
  ⟨by decide +kernel, (chunk_planning (SystemPages.pagesFit ⟨by decide, by decide⟩)
    (.markers 1 [0, 4096]) (by decide +kernel)).2.2.1 (by decide +kernel)⟩

end Blockd
