import Blockd.Blx.Batch

/-!
# Torn objects

A reader of an object starts at its end, and the end of a torn file is whatever the guest wrote into
its pages.  No torn file is read all the same, and none of this rests on a checksum: the header says
how many entries there are, each entry is a frame that starts where the one before it ends, and a
frame says how long it is.  So whatever the last bytes of a string claim, a string that agrees with
an object as far as both go has its footer where the object has it, and ends where the object ends.
-/

set_option autoImplicit false

open Codec

namespace Blockd

/-! ## Strings that agree as far as both go -/

def Comparable (p q : Bytes) : Prop := p <+: q ∨ q <+: p

variable {p bytes frame payload : Bytes} {start stop : Nat} {magic : UInt32}

theorem Comparable.take_eq {q : Bytes} (h : Comparable p q) {n : Nat} (hp : n ≤ p.length)
    (hq : n ≤ q.length) : p.take n = q.take n := by
  rcases h with ⟨t, rfl⟩ | ⟨t, rfl⟩
  · rw [List.take_append_of_le_length hp]
  · rw [List.take_append_of_le_length hq]

theorem length_slice (h : stop ≤ bytes.length) :
    (slice bytes start stop).length = stop - start := by
  rw [slice, List.length_take, List.length_drop]
  omega

theorem take_slice {n : Nat} (h : n ≤ stop - start) :
    (slice bytes start stop).take n = (bytes.take (start + n)).drop start := by
  rw [slice, List.take_take, Nat.min_eq_left h, List.drop_take, Nat.add_sub_cancel_left]

/-! ## Frames -/

theorem take_sealFrame (h : sealFrame magic payload = some frame) : payload.length < 2 ^ 32 ∧
      frame.take 8 = encU32 magic ++ encU32 (UInt32.ofNat payload.length) := by
  rw [sealFrame, Option.ite_none_right_eq_some, Option.some.injEq] at h
  obtain ⟨hlt, rfl⟩ := h
  rw [List.append_assoc]
  exact ⟨hlt, List.take_left' (by simp)⟩

/-- The first eight bytes of a frame say how long it is. -/
theorem length_eq_of_take {magic' : UInt32} {payload' frame' : Bytes}
    (h : sealFrame magic payload = some frame) (h' : sealFrame magic' payload' = some frame')
    (htake : frame.take 8 = frame'.take 8) : frame.length = frame'.length := by
  obtain ⟨hlt, hframe⟩ := take_sealFrame h
  obtain ⟨hlt', hframe'⟩ := take_sealFrame h'
  rw [hframe, hframe'] at htake
  have hlen := Reads.injective Reads.u32 (List.append_inj htake (by simp)).2
  rw [length_of_sealFrame h, length_of_sealFrame h', ← toNat_ofNat32 hlt, hlen, toNat_ofNat32 hlt']

/-- **Frames that start at one place end at one place**, in strings that agree. -/
theorem stop_eq_of_openFrame {q : Bytes} (hpq : Comparable p q) {magic' : UInt32} {payload' : Bytes}
    (hstop : stop ≤ p.length) (hopen : openFrame magic (slice p start stop) = some payload)
    (hseal : sealFrame magic' payload' = some frame)
    (hslice : slice q start (start + frame.length) = frame) (hq : start + frame.length ≤ q.length) :
    stop = start + frame.length := by
  rw [openFrame_eq_some] at hopen
  have hlen := length_of_sealFrame hopen
  have hframe := length_of_sealFrame hseal
  rw [length_slice hstop] at hlen
  rw [frameHeader] at hlen hframe
  have htake : (slice p start stop).take 8 = frame.take 8 := by
    rw [← hslice, take_slice (by omega), take_slice (by omega),
      hpq.take_eq (by omega) (by omega)]
  have heq := length_eq_of_take hopen hseal htake
  rw [length_slice hstop] at heq
  omega

variable [Platform]

/-! ## Objects -/

theorem BlxEntry.exists_openFrame {entry : BlxEntry} (h : BlxEntry.open bytes = some entry) :
    ∃ payload, openFrame magicEntry bytes = some payload :=
  let ⟨payload, hpayload, _⟩ := bind_eq_some.mp h
  ⟨payload, hpayload⟩

theorem exists_sealFrame_of_encodeEntry {entry : BlxEntry} (h : encodeEntry entry = some bytes) :
    ∃ payload, sealFrame magicEntry payload = some bytes := by
  cases entry with
  | tombstone key generation => exact ⟨_, h⟩
  | data key generation block =>
    simp only [encodeEntry, Option.ite_none_right_eq_some] at h
    exact ⟨_, h.2⟩

/-- Where a scan of as many entries ends: the entries it reads are as long as those that were
written. -/
theorem stop_of_scanEntries {entries : List BlxEntry} {offset : Nat} {body : Bytes}
    {footer : List FooterEntry} (h : encodeEntries entries offset = some (body, footer))
    {pre post : Bytes} (hpre : pre.length = offset) (hpq : Comparable p (pre ++ body ++ post))
    {fs : List FooterEntry} (hlen : fs.length = entries.length) {footerOffset : Nat}
    (hfo : footerOffset ≤ p.length) (hscan : scanEntries p footerOffset fs offset = some stop) :
    stop = offset + body.length := by
  induction entries generalizing offset body footer pre fs with
  | nil =>
    obtain rfl := List.length_eq_zero_iff.mp hlen
    simp only [encodeEntries, Option.some.injEq, Prod.mk.injEq] at h
    rw [← h.1, List.length_nil, Nat.add_zero]
    exact (Option.some.inj hscan).symm
  | cons entry entries ih =>
    obtain ⟨encoded, rest, tail, hencoded, -, -, hrest, rfl, -⟩ := encodeEntries_cons_eq_some h
    obtain ⟨f, fs, rfl⟩ := List.exists_cons_of_length_eq_add_one hlen
    simp only [scanEntries, bind_eq_some, ensure_eq_some, exists_const] at hscan
    obtain ⟨⟨hstart, hstop⟩, read, hread, -, hscan⟩ := hscan
    obtain ⟨payload, hopen⟩ := BlxEntry.exists_openFrame hread
    obtain ⟨payload', hseal⟩ := exists_sealFrame_of_encodeEntry hencoded
    have hsplit : pre ++ (encoded ++ rest) ++ post = pre ++ encoded ++ (rest ++ post) := by
      simp only [List.append_assoc]
    rw [hsplit] at hpq
    have hend : f.offset.toNat + f.length.toNat = offset + encoded.length := by
      rw [hstart] at hopen hstop ⊢
      refine stop_eq_of_openFrame hpq (hstop.trans hfo) hopen hseal ?_ ?_
      · rw [← hpre, slice_append]
      · simp only [List.length_append]
        omega
    rw [hend] at hscan
    have hpre' : (pre ++ encoded).length = offset + encoded.length := by
      rw [List.length_append, hpre]
    have htail := ih hrest hpre' (by rwa [← List.append_assoc] at hpq) (Nat.succ.inj hlen) hscan
    rw [htail, List.length_append, Nat.add_assoc]

/-- **A string that agrees with an object and is read is as long as the object.** -/
theorem length_eq_of_scan {batch : BatchMeta} {objectId : UInt64} {chunkIndex chunkCount : UInt32}
    {entries : List BlxEntry} {object : BlxObject}
    (h : encodeObject batch objectId chunkIndex chunkCount entries = some object)
    (hpq : Comparable p object.bytes) {header : BlxHeader} {footer : BlxFooter}
    (hscan : BlxObject.scan p = some (header, footer)) : p.length = object.bytes.length := by
  obtain ⟨first, last, head, body, footerEntries, encodedFooter, -, -, hcount, hhead, hbody,
    hfooter, -, -, -, -, -, -, hbytes⟩ := encodeObject_eq_some h
  obtain ⟨footerOffset, footerLength, hopen, -, htotal, hopenFooter, hlen, -, -, hentries⟩ :=
    BlxObject.scan_eq_some hscan
  have hheadLen := length_of_encodeHeader hhead
  -- the header is the object's, so the scan walks as many entries
  have hheader : header = batch.header objectId chunkIndex chunkCount entries.length first.key
      last.key := by
    obtain ⟨hp, -, payload, hpayload, hdecode⟩ := BlxHeader.open_eq_some hopen
    have hq : headerBytes ≤ object.bytes.length := by
      rw [hbytes]
      simp only [List.length_append]
      omega
    rw [hpq.take_eq hp hq, hbytes, List.append_assoc, List.append_assoc, List.take_left' hheadLen,
      openFrame_sealFrame hhead, Option.some.injEq] at hpayload
    rw [← hpayload, (decodes_header _).decode, Option.some.injEq] at hdecode
    exact hdecode.symm
  have hcount' : footer.entries.length = entries.length := by
    rw [hlen, hheader, BatchMeta.header, toNat_ofNat32 hcount]
  have hoffset : footerOffset.toNat = head.length + body.length := by
    have hsplit : object.bytes = head ++ body ++
        (encodedFooter ++ encodeTrailer object.footerOffset object.footerLength) := by
      rw [hbytes, List.append_assoc]
    exact stop_of_scanEntries hbody rfl (hsplit ▸ hpq) hcount' (by omega) (hheadLen ▸ hentries)
  -- so is the footer's length
  obtain ⟨payload, hpayload, -⟩ := bind_eq_some.mp hopenFooter
  rw [encodeFooter, Option.ite_none_right_eq_some] at hfooter
  have hend : footerOffset.toNat + footerLength.toNat =
      footerOffset.toNat + encodedFooter.length := by
    refine stop_eq_of_openFrame hpq (by omega) hpayload hfooter.2 ?_ ?_
    · rw [hoffset, hbytes, ← List.length_append, slice_append]
    · rw [hoffset, hbytes]
      simp only [List.length_append]
      omega
  rw [← htotal, hend, hoffset, hbytes]
  simp only [List.length_append, length_encodeTrailer]

/-- **Torn objects are rejected.**  Of what agrees with a finished object as far as both go, nothing
but the object itself is scanned or opened. -/
theorem finish_torn_rejected (builder : BlxBatchBuilder) (objects : List BlxObject)
    (h : builder.finish = some objects) (o : BlxObject) (ho : o ∈ objects) (p : Bytes)
    (hpq : p <+: o.bytes ∨ o.bytes <+: p) (hne : p ≠ o.bytes) :
    BlxObject.scan p = none ∧ BlxObject.open p = none := by
  obtain ⟨i, hi⟩ := List.mem_iff_getElem?.mp ho
  obtain ⟨-, -, entries, objectId, -, -, hencode⟩ := builder.getElem?_of_finish h hi
  have hscan : BlxObject.scan p = none := by
    rw [Option.eq_none_iff_forall_ne_some]
    rintro ⟨header, footer⟩ hscan
    have hlen := length_eq_of_scan hencode hpq hscan
    rcases hpq with hpre | hpre
    · exact hne (hpre.eq_of_length hlen)
    · exact hne (hpre.eq_of_length hlen.symm).symm
  refine ⟨hscan, ?_⟩
  rw [BlxObject.open, hscan]
  rfl

omit [Platform] in
theorem finish_torn_rejected_marker :
    letI := storedPlatform
    ∃ (objects : List BlxObject) (o : BlxObject),
      (BlxBatchBuilder.markers 1 [0]).finish = some objects ∧ o ∈ objects ∧
      (∀ n < o.bytes.length, BlxObject.scan (o.bytes.take n) = none ∧
        BlxObject.open (o.bytes.take n) = none) ∧
      ∀ byte, BlxObject.scan (o.bytes ++ [byte]) = none ∧
        BlxObject.open (o.bytes ++ [byte]) = none := by
  let _ := storedPlatform
  have hpages : SystemPages := ⟨by decide, by decide⟩
  have hchunks : (BlxBatchBuilder.markers 1 [0]).chunks.length = 1 := by decide +kernel
  obtain ⟨objects, hfinish⟩ := (BlxBatchBuilder.markers 1 [0]).exists_finish hpages.pagesFit
    (by rw [hchunks]; decide) (by rw [hchunks]; decide +kernel)
  have hlen := BlxBatchBuilder.length_of_finish hfinish
  obtain ⟨o, rfl⟩ := List.length_eq_one_iff.mp (hlen.trans hchunks)
  refine ⟨[o], o, hfinish, List.mem_cons_self, fun n hn => ?_, fun byte => ?_⟩
  · refine finish_torn_rejected _ _ hfinish o List.mem_cons_self _ (.inl (List.take_prefix n _))
      fun h => ?_
    have hlen := congrArg List.length h
    rw [List.length_take] at hlen
    omega
  · exact finish_torn_rejected _ _ hfinish o List.mem_cons_self _ (.inr (List.prefix_append _ _))
      fun h => by simpa using congrArg List.length h

end Blockd
