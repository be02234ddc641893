import Blockd.Blx.Basic

/-!
# BLX objects read back

What the batch builder writes, `BlxObject.open` accepts and returns unchanged.  The pieces are the
round trips of the frames an object is made of; `scanEntries_encodeEntries` walks the body along
the footer, and `BlxObject.open_encodeObject` puts them together.

The last section says what the objects of one `finish` are to each other: consecutive object ids,
chunk indexes `0, …, n-1` of `n`, one batch, and key ranges that strictly increase.
-/

set_option autoImplicit false

open Codec
open Std (ExtTreeMap)

namespace Blockd

/-! ## Slices -/

theorem slice_append (pre mid post : Bytes) :
    slice (pre ++ mid ++ post) pre.length (pre.length + mid.length) = mid := by
  rw [slice, List.append_assoc, List.drop_left, Nat.add_sub_cancel_left, List.take_left]

theorem slice_append_head {pre : Bytes} {offset : Nat} (hpre : pre.length = offset)
    (mid rest post : Bytes) :
    slice (pre ++ (mid ++ rest) ++ post) offset (offset + mid.length) = mid := by
  rw [← List.append_assoc, List.append_assoc (pre ++ mid), ← hpre]
  exact slice_append pre mid (rest ++ post)

theorem toNat_ofNat32 {n : Nat} (h : n < 2 ^ 32) : (UInt32.ofNat n).toNat = n := by
  rw [UInt32.toNat_ofNat', Nat.mod_eq_of_lt h]

/-! ## Trailers -/

@[simp] theorem length_encodeTrailer (o l : UInt32) :
    (encodeTrailer o l).length = trailerBytes := by
  simp [encodeTrailer, trailerBytes]

theorem openTrailer_encodeTrailer (o l : UInt32) :
    openTrailer (encodeTrailer o l) = some (o, l) := by
  rw [openTrailer, if_neg (by simp)]
  refine Decodes.decode ?_
  have htake : (encodeTrailer o l).take 12 =
      encU32 magicTrailer ++ encU32 o ++ encU32 l := by
    rw [encodeTrailer]
    exact List.take_left' (by simp)
  rw [htake]
  simp only [encodeTrailer, List.append_assoc]
  refine Decodes.bind (Reads.u32 _) (Decodes.require_bind (by simp) ?_)
  refine Decodes.bind (Reads.u32 o) (Decodes.bind (Reads.u32 l) ?_)
  refine Decodes.bind_last (Reads.u32 _) (Decodes.finish_bind ?_)
  exact Decodes.require_bind (by simp) (Decodes.pure _)

variable [Platform]

/-! ## Headers -/

omit [Platform] in
@[simp] theorem BlxHeader.length_payload (h : BlxHeader) :
    h.payload.length = headerPayloadBytes := by
  simp [BlxHeader.payload, headerPayloadBytes]

variable {bytes : Bytes} {entries : List BlxEntry} {footer : List FooterEntry} {batch : BatchMeta}
  {chunkCount chunkIndex : UInt32} {object : BlxObject} {objectId : UInt64}
  {objects : List BlxObject}

omit [Platform] in
theorem length_of_encodeHeader {h : BlxHeader} (e : encodeHeader h = some bytes) :
    bytes.length = headerBytes := by
  rw [length_of_sealFrame e, BlxHeader.length_payload, headerBytes]

omit [Platform] in
theorem decodes_header (h : BlxHeader) : Decodes headerDec h.payload h := by
  simp only [BlxHeader.payload, List.append_assoc]
  refine Decodes.bind (Reads.u16 _) (Decodes.require_bind (by simp) ?_)
  refine Decodes.bind (Reads.u32 _) (Decodes.bind (Reads.u8 _) ?_)
  refine Decodes.ofOption_bind h.namespaceKind.decode_toByte ?_
  refine Decodes.bind (Reads.u64 _) (Decodes.bind (Reads.u64 _) (Decodes.bind (Reads.u64 _) ?_))
  refine Decodes.bind (Reads.u64 _) (Decodes.bind (Reads.u64 _) (Decodes.bind (Reads.u64 _) ?_))
  refine Decodes.bind (Reads.u32 _) (Decodes.bind (Reads.u32 _) (Decodes.bind (Reads.u32 _) ?_))
  refine Decodes.bind (BlockKey.reads _) (Decodes.bind (BlockKey.reads _) ?_)
  refine Decodes.bind (Reads.u64 _) (Decodes.bind_last (Reads.u64 _) ?_)
  exact Decodes.finish_bind (Decodes.pure _)

theorem BlxHeader.open_encodeHeader {h : BlxHeader} {rest : Bytes} (hw : h.wellFormed = true)
    (e : encodeHeader h = some bytes) : BlxHeader.open (bytes ++ rest) = some (h, headerBytes) := by
  have hlen := length_of_encodeHeader e
  rw [BlxHeader.open, if_neg (by rw [List.length_append]; omega), List.take_left' hlen,
    openFrame_sealFrame e]
  simp [(decodes_header h).decode, hw]

/-! ## Entries -/

theorem BlxEntry.open_encodeEntry {entry : BlxEntry} (hv : entry.Valid)
    (e : encodeEntry entry = some bytes) : BlxEntry.open bytes = some entry := by
  cases entry with
  | tombstone key generation =>
    rw [encodeEntry] at e
    rw [BlxEntry.open, openFrame_sealFrame e]
    refine Decodes.decode ?_
    rw [List.append_assoc]
    refine Decodes.bind (Reads.u8 _)
      (Decodes.ofOption_bind (EntryKind.decode_toByte .tombstone) ?_)
    exact Decodes.bind (BlockKey.reads _)
      (Decodes.bind_last (Reads.u64 _) (Decodes.finish_bind (Decodes.pure _)))
  | data key generation block =>
    have hlen : block.length = pageSize := hv
    simp only [encodeEntry] at e
    split at e
    · rename_i hlt
      rw [BlxEntry.open, openFrame_sealFrame e]
      refine Decodes.decode ?_
      simp only [List.append_assoc]
      refine Decodes.bind (Reads.u8 _) (Decodes.ofOption_bind (EntryKind.decode_toByte .data) ?_)
      refine Decodes.bind (BlockKey.reads _) (Decodes.bind (Reads.u64 _) ?_)
      refine Decodes.bind (Reads.u32 _) (Decodes.bind (Reads.u32 _) ?_)
      refine Decodes.require_bind (by rw [toNat_ofNat32 hlt.1, hlen]; simp) ?_
      refine Decodes.bind_last (Reads.bytes_of_length (toNat_ofNat32 hlt.2).symm) ?_
      refine Decodes.ofOption_bind ?_ (Decodes.finish_bind (Decodes.pure _))
      rw [toNat_ofNat32 hlt.1]
      exact Platform.decompress_compress block
    · cases e

/-! ## Footers -/

omit [Platform] in
@[simp] theorem FooterEntry.length_encode (f : FooterEntry) :
    f.encode.length = footerEntryBytes := by
  simp [FooterEntry.encode, footerEntryBytes]

omit [Platform] in
theorem reads_footerEntry (f : FooterEntry) : Reads footerEntryDec f.encode f := by
  simp only [FooterEntry.encode, List.append_assoc]
  refine Reads.bind (BlockKey.reads _) (Reads.bind (Reads.u32 _) (Reads.bind (Reads.u32 _) ?_))
  refine Reads.bind (Reads.u64 _) (Reads.bind (Reads.u8 _) ?_)
  refine Reads.ofOption_bind f.kind.decode_toByte ?_
  refine Reads.bind (Reads.bytes_of_length (by simp)) (Reads.require_bind (by simp) ?_)
  exact Reads.bind_last (Reads.u64 _) (Reads.pure _)

/-- What a footer has to be for its own decoder: keys strictly increase, and a tombstone carries no
checksum. -/
structure BlxFooter.Valid (entries : List FooterEntry) : Prop where
  sorted : entries.Pairwise fun f g => f.key < g.key
  tombstones : ∀ f ∈ entries, f.kind = .tombstone → f.valueChecksum = 0

theorem reads_footerEntries {entries : List FooterEntry} {previous : Option BlockKey}
    (hv : BlxFooter.Valid entries) (hp : ∀ k ∈ previous, ∀ f ∈ entries, k < f.key) :
    Reads (footerEntriesDec entries.length previous) (entries.flatMap FooterEntry.encode)
      entries := by
  induction entries generalizing previous with
  | nil => exact Reads.pure []
  | cons f fs ih =>
    have htail : BlxFooter.Valid fs :=
      ⟨(List.pairwise_cons.mp hv.sorted).2, fun g hg => hv.tombstones g (List.mem_cons_of_mem f hg)⟩
    have hnext : Reads (footerEntriesDec fs.length (some f.key)) (fs.flatMap FooterEntry.encode)
        fs := ih htail fun k hk g hg => by
      rw [Option.mem_some_iff] at hk
      exact hk ▸ (List.pairwise_cons.mp hv.sorted).1 g hg
    refine Reads.bind (reads_footerEntry f) (Reads.require_bind ?_ (Reads.require_bind ?_ ?_))
    · have := hv.tombstones f List.mem_cons_self
      by_cases hk : f.kind = .tombstone
      · simp [hk, this hk]
      · simp [hk]
    · cases previous with
      | none => rfl
      | some k => simpa using hp k rfl f List.mem_cons_self
    · exact Reads.bind_last (f := fun gs => pure (f :: gs)) hnext (Reads.pure _)

theorem BlxFooter.open_encodeFooter {footer : BlxFooter} (hv : BlxFooter.Valid footer.entries)
    (e : encodeFooter footer = some bytes) : BlxFooter.open bytes = some footer := by
  rw [encodeFooter] at e
  split at e
  · rename_i hlt
    rw [BlxFooter.open, openFrame_sealFrame e]
    refine Decodes.decode ?_
    rw [List.append_assoc]
    refine Decodes.bind (Reads.u16 1) (Decodes.require_bind rfl ?_)
    refine Decodes.bind (Reads.u32 _) ?_
    have hbody : (footer.entries.flatMap FooterEntry.encode).length =
        footer.entries.length * footerEntryBytes := by
      simp [List.length_flatMap]
    refine Decodes.remaining_bind hbody (Decodes.require_bind ?_ ?_)
    · rw [toNat_ofNat32 hlt, beq_self_eq_true]
    · rw [toNat_ofNat32 hlt]
      exact Decodes.bind_last (reads_footerEntries hv (by simp))
        (Decodes.finish_bind (Decodes.pure _))
  · cases e

/-! ## Objects -/

omit [Platform] in
theorem BlxEntry.valueChecksum_of_kind {e : BlxEntry} (h : e.kind = .tombstone) :
    e.valueChecksum = 0 := by
  cases e with
  | data => cases h
  | tombstone => rfl

variable {body : Bytes} {offset index : Nat} {chunks : List (List BlxEntry)} {count : UInt32}
  {builder : BlxBatchBuilder}

theorem encodeEntries_cons_eq_some {entry : BlxEntry}
    (h : encodeEntries (entry :: entries) offset = some (body, footer)) :
    ∃ encoded rest tail, encodeEntry entry = some encoded ∧ offset < 2 ^ 32 ∧
      encoded.length < 2 ^ 32 ∧ encodeEntries entries (offset + encoded.length) = some (rest, tail) ∧
      body = encoded ++ rest ∧
      footer = ⟨entry.key, UInt32.ofNat offset, UInt32.ofNat encoded.length, entry.generation,
        entry.kind, entry.valueChecksum⟩ :: tail := by
  simp only [encodeEntries, bind_eq_some, ensure_eq_some, pure_eq_some, Prod.mk.injEq] at h
  obtain ⟨encoded, henc, -, ⟨hoff, hlen⟩, ⟨rest, tail⟩, hrest, hbody, hfooter⟩ := h
  exact ⟨encoded, rest, tail, henc, hoff, hlen, hrest, hbody.symm, hfooter.symm⟩

/-- The footer lists the entries in order. -/
theorem digest_of_encodeEntries (h : encodeEntries entries offset = some (body, footer)) :
    footer.map FooterEntry.digest = entries.map BlxEntry.digest := by
  induction entries generalizing offset body footer with
  | nil =>
    simp only [encodeEntries, Option.some.injEq, Prod.mk.injEq] at h
    rw [← h.2, List.map_nil, List.map_nil]
  | cons entry entries ih =>
    obtain ⟨encoded, rest, tail, -, -, -, hrest, -, rfl⟩ := encodeEntries_cons_eq_some h
    rw [List.map_cons, List.map_cons, ih hrest]
    rfl

/-- **The scan walks the body along the footer.** -/
theorem scanEntries_encodeEntries (hv : ∀ e ∈ entries, e.Valid)
    (h : encodeEntries entries offset = some (body, footer)) (pre post : Bytes)
    (hpre : pre.length = offset) (footerOffset : Nat) (hfo : offset + body.length ≤ footerOffset) :
    scanEntries (pre ++ body ++ post) footerOffset footer offset =
      some (offset + body.length) := by
  induction entries generalizing offset body footer pre with
  | nil =>
    simp only [encodeEntries, Option.some.injEq, Prod.mk.injEq] at h
    rw [← h.1, ← h.2, scanEntries, List.length_nil, Nat.add_zero]
  | cons entry entries ih =>
    obtain ⟨encoded, rest, tail, henc, hoff, hlen, hrest, rfl, rfl⟩ :=
      encodeEntries_cons_eq_some h
    rw [List.length_append, ← Nat.add_assoc] at hfo ⊢
    have hslice := slice_append_head hpre encoded rest post
    have hopen := BlxEntry.open_encodeEntry (hv entry List.mem_cons_self) henc
    have hloop := ih (fun e he => hv e (List.mem_cons_of_mem entry he)) hrest (pre ++ encoded)
      (by rw [List.length_append, hpre]) hfo
    rw [List.append_assoc pre] at hloop
    have hstop : offset + encoded.length ≤ footerOffset := by omega
    simp only [scanEntries, toNat_ofNat32 hoff, toNat_ofNat32 hlen, hslice, hopen, hloop, hstop,
      BlxEntry.digest, FooterEntry.digest, and_self, ensure_true, some_bind]

/-- Everything `encodeObject` does. -/
theorem encodeObject_eq_some
    (h : encodeObject batch objectId chunkIndex chunkCount entries = some object) :
    ∃ first last head body footerEntries encodedFooter,
      entries.head? = some first ∧ entries.getLast? = some last ∧ entries.length < 2 ^ 32 ∧
      encodeHeader (batch.header objectId chunkIndex chunkCount entries.length first.key
        last.key) = some head ∧
      encodeEntries entries head.length = some (body, footerEntries) ∧
      encodeFooter ⟨footerEntries⟩ = some encodedFooter ∧
      object.bytes.length ≤ maxFileBytes ∧
      object.header = batch.header objectId chunkIndex chunkCount entries.length first.key
        last.key ∧
      object.footer = ⟨footerEntries⟩ ∧
      object.footerOffset.toNat = head.length + body.length ∧
      object.footerLength.toNat = encodedFooter.length ∧
      object.checksum = checksum64 object.bytes ∧
      object.bytes = head ++ body ++ encodedFooter ++
        encodeTrailer object.footerOffset object.footerLength := by
  simp only [encodeObject, bind_eq_some, ensure_eq_some, pure_eq_some] at h
  obtain ⟨first, hfirst, last, hlast, -, hcount, head, hhead, ⟨body, footerEntries⟩, hbody,
    encodedFooter, hfooter, -, ⟨hfo, hfl⟩, -, hmax, rfl⟩ := h
  exact ⟨first, last, head, body, footerEntries, encodedFooter, hfirst, hlast, hcount, hhead,
    hbody, hfooter, hmax, rfl, rfl, toNat_ofNat32 hfo, toNat_ofNat32 hfl, rfl, rfl⟩

/-- What a chunk has to be for its object to read back: whole pages, sorted by key. -/
structure ChunkValid (entries : List BlxEntry) : Prop where
  pages : ∀ e ∈ entries, e.Valid
  sorted : entries.Pairwise fun e f => e.key < f.key

omit [Platform] in
theorem keys_of_digest (h : footer.map FooterEntry.digest = entries.map BlxEntry.digest) :
    footer.map FooterEntry.key = entries.map BlxEntry.key := by
  have hkeys := congrArg (List.map Prod.fst) h
  rwa [List.map_map, List.map_map] at hkeys

theorem footerValid_of_digest (hs : entries.Pairwise fun e f => e.key < f.key)
    (h : footer.map FooterEntry.digest = entries.map BlxEntry.digest) : BlxFooter.Valid footer := by
  refine ⟨?_, fun f hf hk => ?_⟩
  · rw [← List.pairwise_map, keys_of_digest h, List.pairwise_map]
    exact hs
  · have hmem : f.digest ∈ entries.map BlxEntry.digest := h ▸ List.mem_map_of_mem hf
    obtain ⟨e, -, he⟩ := List.mem_map.mp hmem
    simp only [BlxEntry.digest, FooterEntry.digest, Prod.mk.injEq] at he
    rw [← he.2.2.2]
    exact BlxEntry.valueChecksum_of_kind (he.2.2.1.trans hk)

theorem head_le_getLast {first last : BlxEntry} (hs : entries.Pairwise fun e f => e.key < f.key)
    (hf : entries.head? = some first) (hl : entries.getLast? = some last) :
    first.key ≤ last.key := by
  cases entries with
  | nil => cases hf
  | cons e es =>
    rw [List.head?_cons, Option.some.injEq] at hf
    subst hf
    rcases List.mem_cons.mp (List.mem_of_getLast? hl) with rfl | hmem
    · exact le_rfl
    · exact ((List.pairwise_cons.mp hs).1 last hmem).le

/-- **An object reads back.**  What `encodeObject` builds from a valid chunk, `BlxObject.open`
accepts and returns as it was. -/
theorem BlxObject.open_encodeObject (hseq : batch.minSeq ≤ batch.maxSeq)
    (hchunk : chunkIndex < chunkCount) (hv : ChunkValid entries)
    (h : encodeObject batch objectId chunkIndex chunkCount entries = some object) :
    BlxObject.open object.bytes = some object := by
  obtain ⟨first, last, head, body, footerEntries, encodedFooter, hfirst, hlast, hcount, hhead,
    hbody, hfooter, -, hheader, hfoot, hoffNat, hlenNat, hsum, hbytes⟩ := encodeObject_eq_some h
  have hdigest := digest_of_encodeEntries hbody
  have hkeys := keys_of_digest hdigest
  have hheadLen := length_of_encodeHeader hhead
  have hwf : (batch.header objectId chunkIndex chunkCount entries.length first.key
      last.key).wellFormed = true := by
    have hne : entries.length ≠ 0 := fun h0 => by
      rw [List.length_eq_zero_iff.mp h0] at hfirst
      cases hfirst
    have hcount' : UInt32.ofNat entries.length ≠ 0 := fun h0 => hne (by
      rw [← toNat_ofNat32 hcount, h0]
      rfl)
    have hcc : chunkCount ≠ 0 := fun h0 => by
      rw [h0] at hchunk
      exact absurd hchunk (UInt32.not_lt_zero)
    simp [BlxHeader.wellFormed, BatchMeta.header, hseq, hchunk, hcount', hcc,
      head_le_getLast hv.sorted hfirst hlast]
  have hopenHeader : BlxHeader.open object.bytes =
      some (object.header, headerBytes) := by
    rw [hbytes, hheader, List.append_assoc, List.append_assoc]
    exact BlxHeader.open_encodeHeader hwf hhead
  have htrailer : openTrailer (object.bytes.drop (object.bytes.length - trailerBytes)) =
      some (object.footerOffset, object.footerLength) := by
    have hdrop : object.bytes.drop (object.bytes.length - trailerBytes) =
        encodeTrailer object.footerOffset object.footerLength := by
      rw [hbytes, List.length_append, length_encodeTrailer, Nat.add_sub_cancel, List.drop_left]
    rw [hdrop, openTrailer_encodeTrailer]
  have hfooterOpen : BlxFooter.open (slice object.bytes object.footerOffset.toNat
      (object.footerOffset.toNat + object.footerLength.toNat)) = some object.footer := by
    have hslice := slice_append (head ++ body) encodedFooter
      (encodeTrailer object.footerOffset object.footerLength)
    rw [List.length_append, ← hbytes] at hslice
    rw [hoffNat, hlenNat, hslice, hfoot]
    exact BlxFooter.open_encodeFooter (footerValid_of_digest hv.sorted hdigest) hfooter
  have hscan : scanEntries object.bytes object.footerOffset.toNat object.footer.entries
      headerBytes = some object.footerOffset.toNat := by
    have hwalk := scanEntries_encodeEntries hv.pages hbody head
      (encodedFooter ++ encodeTrailer object.footerOffset object.footerLength) rfl
      object.footerOffset.toNat (by omega)
    rw [← List.append_assoc, ← hbytes, ← hoffNat] at hwalk
    rw [hfoot, ← hheadLen]
    exact hwalk
  have htotal : object.bytes.length =
      head.length + body.length + encodedFooter.length + trailerBytes := by
    rw [hbytes]
    simp only [List.length_append, length_encodeTrailer]
  have hindex : object.footer.entries.length = object.header.entryCount.toNat ∧
      object.footer.entries.head?.map FooterEntry.key = some object.header.firstKey ∧
      object.footer.entries.getLast?.map FooterEntry.key = some object.header.lastKey := by
    have hcount' : footerEntries.length = entries.length := by
      simpa using congrArg List.length hkeys
    rw [hfoot, hheader, ← List.head?_map, ← List.getLast?_map, hkeys, List.head?_map,
      List.getLast?_map, hfirst, hlast]
    exact ⟨by rw [hcount', BatchMeta.header, toNat_ofNat32 hcount], rfl, rfl⟩
  have hroom : headerBytes + trailerBytes ≤ object.bytes.length := by omega
  have hplace : headerBytes ≤ object.footerOffset.toNat ∧
      object.footerOffset.toNat + object.footerLength.toNat + trailerBytes =
        object.bytes.length := by omega
  have htrail : trailerBytes ≤ object.bytes.length := by omega
  simp only [BlxObject.open, BlxObject.scan, hopenHeader, htrailer, hfooterOpen, hscan, hindex,
    hroom, hplace, htrail, and_self, ensure_true, Option.pure_def, some_bind]
  rw [← hsum]

/-! ## Batches -/

/-- Cutting into chunks loses nothing, repeats nothing and keeps the order. -/
theorem flatten_splitChunks (split : Bool) (entries : List BlxEntry)
    (chunks : List (List BlxEntry)) (current : List BlxEntry) (estimated : Nat)
    (part : Option (Nat × Nat)) :
    (splitChunks split entries chunks current estimated part).flatten =
      chunks.flatten ++ current ++ entries := by
  induction entries generalizing chunks current estimated part with
  | nil =>
    rw [splitChunks]
    split
    · rename_i hempty
      rw [List.isEmpty_iff.mp hempty, List.append_nil, List.append_nil]
    · rw [List.flatten_append, List.flatten_singleton, List.append_nil]
  | cons entry entries ih =>
    rw [splitChunks]
    split
    · rw [ih, List.flatten_append, List.flatten_singleton, List.append_assoc,
        List.append_assoc, List.singleton_append, ← List.append_assoc]
    · rw [ih, ← List.append_assoc, List.append_assoc _ [entry], List.singleton_append]

/-- The rule for the loop: `I` holds of the chunk that is being filled, and gives `P` when the chunk
is closed. -/
theorem BlxBatchBuilder.forall_chunks (builder : BlxBatchBuilder) {P : List BlxEntry → Prop}
    {I : List BlxEntry → Nat → Option (Nat × Nat) → Prop}
    (hclose : ∀ {current estimated part}, I current estimated part → current ≠ [] → P current)
    (hstart : I [] (headerBytes + trailerBytes) none)
    (hnew : ∀ entry, I [entry] (headerBytes + trailerBytes + (encodedEntryUpperBound entry +
      footerEntryBytes)) (some entry.key.filePartition))
    (hadd : ∀ {current estimated part} entry, I current estimated part →
      ¬ shouldSplit current.isEmpty estimated part entry builder.splitAtFilePartitions →
      I (current ++ [entry]) (estimated + (encodedEntryUpperBound entry + footerEntryBytes))
        (some entry.key.filePartition)) : ∀ c ∈ builder.chunks, P c := by
  have hloop : ∀ entries chunks current estimated part, (∀ c ∈ chunks, P c) →
      I current estimated part → ∀ c ∈ splitChunks builder.splitAtFilePartitions entries chunks
        current estimated part, P c := by
    have hclosed : ∀ {chunks current estimated part}, (∀ c ∈ chunks, P c) →
        I current estimated part → current ≠ [] → ∀ c ∈ chunks ++ [current], P c :=
      fun hchunks hcurrent hne =>
        List.forall_mem_append.mpr ⟨hchunks, List.forall_mem_singleton.mpr (hclose hcurrent hne)⟩
    intro entries chunks current estimated part hchunks hcurrent
    induction entries generalizing chunks current estimated part with
    | nil =>
      rw [splitChunks]
      split
      · exact hchunks
      · rename_i hempty
        exact hclosed hchunks hcurrent (by simpa using hempty)
    | cons entry entries ih =>
      rw [splitChunks]
      split
      · rename_i hsplit
        refine ih _ _ _ _ (hclosed hchunks hcurrent ?_) (hnew entry)
        rintro rfl
        simp [shouldSplit] at hsplit
      · rename_i hsplit
        exact ih _ _ _ _ hchunks (hadd entry hcurrent hsplit)
  exact hloop _ _ _ _ _ (by simp) hstart

theorem BlxBatchBuilder.ne_nil_of_mem_chunks (builder : BlxBatchBuilder) :
    ∀ c ∈ builder.chunks, c ≠ [] :=
  builder.forall_chunks (I := fun _ _ _ => True) (fun _ hne => hne) trivial (fun _ => trivial)
    fun _ _ _ => trivial

theorem encodeChunks_cons_eq_some
    (h : encodeChunks batch count (entries :: chunks) index = some objects) :
    ∃ objectId object rest, checkedAdd batch.firstObjectId (UInt64.ofNat index) = some objectId ∧
      encodeObject batch objectId (UInt32.ofNat index) count entries = some object ∧
      encodeChunks batch count chunks (index + 1) = some rest ∧ objects = object :: rest := by
  simp only [encodeChunks, bind_eq_some, pure_eq_some] at h
  obtain ⟨objectId, hid, object, hobject, rest, hrest, hobjects⟩ := h
  exact ⟨objectId, object, rest, hid, hobject, hrest, hobjects.symm⟩

/-- The objects of a batch are its chunks in order, numbered from the batch's first object id. -/
theorem getElem?_of_encodeChunks (h : encodeChunks batch count chunks index = some objects)
    {i : Nat} (hi : objects[i]? = some object) : ∃ entries objectId, chunks[i]? = some entries ∧
      checkedAdd batch.firstObjectId (UInt64.ofNat (index + i)) = some objectId ∧
      encodeObject batch objectId (UInt32.ofNat (index + i)) count entries = some object := by
  induction chunks generalizing index objects i with
  | nil =>
    rw [encodeChunks, Option.some.injEq] at h
    rw [← h] at hi
    cases hi
  | cons entries chunks ih =>
    obtain ⟨objectId, first, rest, hid, hobject, hrest, rfl⟩ := encodeChunks_cons_eq_some h
    cases i with
    | zero =>
      rw [List.getElem?_cons_zero, Option.some.injEq] at hi
      exact ⟨entries, objectId, rfl, hid, hi ▸ hobject⟩
    | succ i =>
      rw [List.getElem?_cons_succ] at hi
      rw [show index + (i + 1) = index + 1 + i by omega]
      exact ih hrest hi

theorem length_of_encodeChunks (h : encodeChunks batch count chunks index = some objects) :
    objects.length = chunks.length := by
  induction chunks generalizing index objects with
  | nil =>
    rw [encodeChunks, Option.some.injEq] at h
    rw [← h, List.length_nil, List.length_nil]
  | cons entries chunks ih =>
    obtain ⟨objectId, first, rest, hid, hobject, hrest, rfl⟩ := encodeChunks_cons_eq_some h
    rw [List.length_cons, List.length_cons, ih hrest]

/-- What the objects of one `finish` are to each other. -/
structure BlxBatch (batch : BatchMeta) (objects : List BlxObject) : Prop where
  /-- Every object reads back. -/
  opens : ∀ o ∈ objects, BlxObject.open o.bytes = some o
  /-- Consecutive object ids. -/
  objectId : ∀ (i : Nat) (o : BlxObject), objects[i]? = some o →
    o.header.objectId.toNat = batch.firstObjectId.toNat + i
  /-- Chunk indexes from zero on. -/
  chunkIndex : ∀ (i : Nat) (o : BlxObject), objects[i]? = some o → o.header.chunkIndex.toNat = i
  /-- Every object knows how many there are. -/
  chunkCount : ∀ o ∈ objects, o.header.chunkCount.toNat = objects.length
  /-- The fields of the batch. -/
  fields : ∀ o ∈ objects, o.header.namespaceKind = batch.namespaceKind ∧
    o.header.namespaceId = batch.namespaceId ∧ o.header.writerFence = batch.writerFence ∧
    o.header.minSeq = batch.minSeq ∧ o.header.maxSeq = batch.maxSeq ∧
    o.header.batchId = batch.batchId ∧ o.header.preStateChecksum = batch.preStateChecksum ∧
    o.header.postStateChecksum = batch.postStateChecksum
  /-- Key ranges are disjoint and increase. -/
  ranges : objects.Pairwise fun o p => o.header.lastKey < p.header.firstKey
  /-- A range is not empty. -/
  range : ∀ o ∈ objects, o.header.firstKey ≤ o.header.lastKey
  /-- The footer lies inside the object and is not empty. -/
  footer : ∀ o ∈ objects, o.bytes.length ≤ maxFileBytes ∧ 0 < o.footerLength.toNat ∧
    o.footerOffset.toNat + o.footerLength.toNat ≤ o.bytes.length

namespace BlxBatchBuilder

theorem entries_sorted (builder : BlxBatchBuilder) :
    (builder.entries.toList.map Prod.snd).Pairwise fun e f => e.key < f.key := by
  rw [List.pairwise_map]
  refine (Maps.pairwise_toList builder.entries).imp_of_mem fun {p q} hp hq hlt => ?_
  rw [(builder.keyed p.1 p.2 (ExtTreeMap.mem_toList_iff_getElem?_eq_some.mp hp)).1,
    (builder.keyed q.1 q.2 (ExtTreeMap.mem_toList_iff_getElem?_eq_some.mp hq)).1]
  exact hlt

theorem entries_valid (builder : BlxBatchBuilder) :
    ∀ e ∈ builder.entries.toList.map Prod.snd, e.Valid := by
  intro e he
  obtain ⟨p, hp, rfl⟩ := List.mem_map.mp he
  exact (builder.keyed p.1 p.2 (ExtTreeMap.mem_toList_iff_getElem?_eq_some.mp hp)).2

theorem flatten_chunks (builder : BlxBatchBuilder) :
    builder.chunks.flatten = builder.entries.toList.map Prod.snd := by
  rw [chunks, flatten_splitChunks, List.flatten_nil, List.nil_append, List.nil_append]

theorem chunkValid (builder : BlxBatchBuilder) : ∀ c ∈ builder.chunks, ChunkValid c := by
  have hs := builder.entries_sorted
  rw [← flatten_chunks, List.pairwise_flatten] at hs
  intro c hc
  refine ⟨fun e he => builder.entries_valid e ?_, hs.1 c hc⟩
  rw [← flatten_chunks]
  exact List.mem_flatten_of_mem hc he

theorem chunks_increase (builder : BlxBatchBuilder) :
    builder.chunks.Pairwise fun c d => ∀ e ∈ c, ∀ f ∈ d, e.key < f.key := by
  have hs := builder.entries_sorted
  rw [← flatten_chunks, List.pairwise_flatten] at hs
  exact hs.2

end BlxBatchBuilder

theorem keys_of_encodeObject
    (h : encodeObject batch objectId chunkIndex chunkCount entries = some object) :
    ∃ first ∈ entries, ∃ last ∈ entries, entries.head? = some first ∧
      entries.getLast? = some last ∧ object.header =
        batch.header objectId chunkIndex chunkCount entries.length first.key last.key := by
  obtain ⟨first, last, head, body, footerEntries, encodedFooter, hfirst, hlast, -, -, -, -, -,
    hheader, -⟩ := encodeObject_eq_some h
  exact ⟨first, List.mem_of_mem_head? hfirst, last, List.mem_of_getLast? hlast, hfirst, hlast,
    hheader⟩

theorem footer_of_encodeObject
    (h : encodeObject batch objectId chunkIndex chunkCount entries = some object) :
    object.bytes.length ≤ maxFileBytes ∧ 0 < object.footerLength.toNat ∧
      object.footerOffset.toNat + object.footerLength.toNat ≤ object.bytes.length := by
  obtain ⟨first, last, head, body, footerEntries, encodedFooter, -, -, -, -, -, hfooter, hmax, -,
    -, hoffNat, hlenNat, -, hbytes⟩ := encodeObject_eq_some h
  have hpos : 0 < encodedFooter.length := by
    rw [encodeFooter] at hfooter
    split at hfooter
    · rw [length_of_sealFrame hfooter, frameHeader]
      omega
    · cases hfooter
  have htotal : object.bytes.length =
      head.length + body.length + encodedFooter.length + trailerBytes := by
    rw [hbytes]
    simp only [List.length_append, length_encodeTrailer]
  exact ⟨hmax, by omega, by omega⟩

/-- Every object of a batch is the image of the chunk at its place. -/
theorem BlxBatchBuilder.getElem?_of_finish (h : builder.finish = some objects) {i : Nat}
    {o : BlxObject} (hi : objects[i]? = some o) :
    i < builder.chunks.length ∧ builder.chunks.length < 2 ^ 32 ∧ ∃ entries objectId,
      builder.chunks[i]? = some entries ∧
      checkedAdd builder.batch.firstObjectId (UInt64.ofNat i) = some objectId ∧
      encodeObject builder.batch objectId (UInt32.ofNat i) (UInt32.ofNat builder.chunks.length)
        entries = some o := by
  simp only [finish, bind_eq_some, ensure_eq_some] at h
  obtain ⟨-, hcount, h⟩ := h
  obtain ⟨entries, objectId, hc, hid, ho⟩ := getElem?_of_encodeChunks h hi
  rw [Nat.zero_add] at hid ho
  exact ⟨(List.getElem?_eq_some_iff.mp hc).1, hcount, entries, objectId, hc, hid, ho⟩

theorem BlxBatchBuilder.length_of_finish (h : builder.finish = some objects) :
    objects.length = builder.chunks.length := by
  simp only [finish, bind_eq_some, ensure_eq_some] at h
  obtain ⟨-, -, h⟩ := h
  exact length_of_encodeChunks h

/-- **What `finish` builds is a batch.** -/
theorem BlxBatchBuilder.finish_batch (h : builder.finish = some objects) :
    BlxBatch builder.batch objects := by
  have hobj := fun i o => builder.getElem?_of_finish h (i := i) (o := o)
  have hmem : ∀ o ∈ objects, ∃ i entries objectId, i < builder.chunks.length ∧
      builder.chunks.length < 2 ^ 32 ∧ entries ∈ builder.chunks ∧
      encodeObject builder.batch objectId (UInt32.ofNat i) (UInt32.ofNat builder.chunks.length)
        entries = some o := by
    intro o ho
    obtain ⟨i, hi⟩ := List.mem_iff_getElem?.mp ho
    obtain ⟨hlt, hcount, entries, objectId, hc, -, he⟩ := hobj i o hi
    exact ⟨i, entries, objectId, hlt, hcount, List.mem_of_getElem? hc, he⟩
  refine ⟨fun o ho => ?_, fun i o hi => ?_, fun i o hi => ?_, fun o ho => ?_, fun o ho => ?_, ?_,
    fun o ho => ?_, fun o ho => ?_⟩
  · obtain ⟨i, entries, objectId, hi, hcount, hc, he⟩ := hmem o ho
    refine BlxObject.open_encodeObject builder.seq_le ?_ (builder.chunkValid entries hc) he
    rw [UInt32.lt_iff_toNat_lt, toNat_ofNat32 (hi.trans hcount), toNat_ofNat32 hcount]
    exact hi
  · obtain ⟨hlt, hcount, entries, objectId, -, hid, he⟩ := hobj i o hi
    obtain ⟨first, -, last, -, -, -, hheader⟩ := keys_of_encodeObject he
    rw [hheader, BatchMeta.header, toNat_of_checkedAdd hid, UInt64.toNat_ofNat',
      Nat.mod_eq_of_lt (by omega)]
  · obtain ⟨hlt, hcount, entries, objectId, -, -, he⟩ := hobj i o hi
    obtain ⟨first, -, last, -, -, -, hheader⟩ := keys_of_encodeObject he
    rw [hheader, BatchMeta.header, toNat_ofNat32 (hlt.trans hcount)]
  · obtain ⟨i, entries, objectId, hi, hcount, hc, he⟩ := hmem o ho
    obtain ⟨first, -, last, -, -, -, hheader⟩ := keys_of_encodeObject he
    rw [hheader, BatchMeta.header, toNat_ofNat32 hcount, length_of_finish h]
  · obtain ⟨i, entries, objectId, -, -, -, he⟩ := hmem o ho
    obtain ⟨first, -, last, -, -, -, hheader⟩ := keys_of_encodeObject he
    rw [hheader]
    exact ⟨rfl, rfl, rfl, rfl, rfl, rfl, rfl, rfl⟩
  · rw [List.pairwise_iff_getElem]
    intro i j hi hj hij
    obtain ⟨-, -, ci, idi, hci, -, hei⟩ := hobj i _ (List.getElem?_eq_getElem hi)
    obtain ⟨-, -, cj, idj, hcj, -, hej⟩ := hobj j _ (List.getElem?_eq_getElem hj)
    obtain ⟨fi, -, last, hlast, -, -, hheaderi⟩ := keys_of_encodeObject hei
    obtain ⟨first, hfirst, lj, -, -, -, hheaderj⟩ := keys_of_encodeObject hej
    obtain ⟨hi', hci'⟩ := List.getElem?_eq_some_iff.mp hci
    obtain ⟨hj', hcj'⟩ := List.getElem?_eq_some_iff.mp hcj
    have hlt := List.pairwise_iff_getElem.mp builder.chunks_increase i j hi' hj' hij
    rw [hci', hcj'] at hlt
    rw [hheaderi, hheaderj]
    exact hlt last hlast first hfirst
  · obtain ⟨i, entries, objectId, -, -, hc, he⟩ := hmem o ho
    obtain ⟨first, -, last, -, hfirst, hlast, hheader⟩ := keys_of_encodeObject he
    rw [hheader]
    exact head_le_getLast (builder.chunkValid entries hc).sorted hfirst hlast
  · obtain ⟨i, entries, objectId, -, -, -, he⟩ := hmem o ho
    exact footer_of_encodeObject he

end Blockd
