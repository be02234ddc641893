import Mathlib
import Blockd.ReplicaSpool

/-!
# Damaged frames

A frame opens only if it is the sealed payload (`openFrame_eq_some`), so damage goes unnoticed only
where it turns one sealed frame into another.  A frame that is cut or extended has the wrong length.
A changed byte of the header is not the one that the payload calls for.  And a changed byte of the
payload changes the checksum: one bit of the division loses nothing, because the top bit of the
result tells whether the polynomial was added (`crcBit_injective`), so neither does a byte, and the
remainders after the changed byte stay apart to the end of the payload.

The length field says where a frame ends, so a concatenation of frames splits in one way.
-/

set_option autoImplicit false

open Codec

namespace Blockd

/-! ## The division loses nothing -/

/-- The polynomial was added exactly if the top bit is set. -/
theorem testBit_crcBit (c : UInt32) : (crcBit c).toNat.testBit 31 = decide (c &&& 1 = 1) := by
  have hshift : (c >>> 1).toNat.testBit 31 = false := by
    have hlt := c.toNat_lt
    rw [UInt32.toNat_shiftRight, Nat.testBit_lt_two_pow]
    simp [Nat.shiftRight_eq_div_pow]
    omega
  rw [crcBit]
  split_ifs with hodd
  · rw [UInt32.toNat_xor, Nat.testBit_xor, hshift, decide_eq_true hodd]
    rfl
  · rw [hshift, decide_eq_false hodd]

theorem crcBit_injective : Function.Injective crcBit := by
  intro c d h
  have hodd : c &&& 1 = 1 ↔ d &&& 1 = 1 := by
    rw [← decide_eq_decide, ← testBit_crcBit, ← testBit_crcBit, h]
  have hshift : c >>> 1 = d >>> 1 := by
    rw [crcBit, crcBit] at h
    split_ifs at h with hc hd hd
    · exact (UInt32.xor_left_inj _).mp h
    · exact absurd (hodd.mp hc) hd
    · exact absurd (hodd.mpr hd) hc
    · exact h
  rw [← UInt32.toNat_inj, ← UInt32.toNat_inj, UInt32.toNat_and, UInt32.toNat_and] at hodd
  rw [← UInt32.toNat_inj, UInt32.toNat_shiftRight, UInt32.toNat_shiftRight] at hshift
  simp only [UInt32.toNat_one, Nat.and_one_is_mod, Nat.one_mod, Nat.shiftRight_eq_div_pow,
    Nat.pow_one] at hodd hshift
  exact UInt32.toNat_inj.mp (by omega)

theorem crcByte_injective_left (b : UInt8) : Function.Injective fun c => crcByte c b := by
  intro c d h
  exact (UInt32.xor_left_inj _).mp (crcBit_injective.iterate 8 h)

theorem crcByte_injective_right (c : UInt32) : Function.Injective (crcByte c) := by
  intro a b h
  exact UInt8.toUInt32_inj.mp ((UInt32.xor_right_inj _).mp (crcBit_injective.iterate 8 h))

/-- Remainders that differ stay apart. -/
theorem foldl_crcByte_injective (bytes : Bytes) :
    Function.Injective fun c => bytes.foldl crcByte c := by
  induction bytes with
  | nil => exact Function.injective_id
  | cons b bytes ih => exact ih.comp (crcByte_injective_left b)

/-- **A checksum tells one changed byte.** -/
theorem eq_of_crc32c_eq {before after : Bytes} {a b : UInt8}
    (h : crc32c (before ++ a :: after) = crc32c (before ++ b :: after)) : a = b := by
  have hfold := (UInt32.xor_left_inj _).mp h
  rw [List.foldl_append, List.foldl_append] at hfold
  exact crcByte_injective_right _ (foldl_crcByte_injective after hfold)

/-! ## Frames that differ in one byte -/

variable {magic : UInt32} {payload other frame before after : Bytes}

theorem encU32_injective : Function.Injective encU32 := by
  intro a b h
  have hnat := congrArg leNat h
  rw [encU32, encU32, leNat_leBytes_of_lt a.toNat_lt, leNat_leBytes_of_lt b.toNat_lt] at hnat
  exact UInt32.toNat_inj.mp hnat

/-- The header and the payload of a sealed frame. -/
theorem split_sealFrame (h : sealFrame magic payload = some frame) :
    frame.take frameHeader = encU32 magic ++ encU32 (UInt32.ofNat payload.length) ++
        encU32 (crc32c payload) ∧
      frame.drop frameHeader = payload := by
  rw [sealFrame, Option.ite_none_right_eq_some, Option.some.injEq] at h
  rw [← h.2]
  have hheader : (encU32 magic ++ encU32 (UInt32.ofNat payload.length) ++
      encU32 (crc32c payload)).length = frameHeader := by
    simp only [List.length_append, length_encU32, frameHeader]
  exact ⟨List.take_left' hheader, List.drop_left' hheader⟩

/-- **Two sealed frames with one magic number do not differ in just one byte.** -/
theorem eq_of_sealFrame {a b : UInt8} (ha : sealFrame magic payload = some (before ++ a :: after))
    (hb : sealFrame magic other = some (before ++ b :: after)) : a = b := by
  obtain ⟨htakea, hdropa⟩ := split_sealFrame ha
  obtain ⟨htakeb, hdropb⟩ := split_sealFrame hb
  rcases Nat.lt_or_ge before.length frameHeader with hlt | hge
  · -- the byte is in the header, which the payload determines
    obtain ⟨k, hk⟩ := Nat.exists_eq_add_of_lt hlt
    have hrest : ∀ c, (before ++ c :: after).drop frameHeader = after.drop k := by
      intro c
      rw [hk, Nat.add_assoc, List.drop_append, List.drop_eq_nil_of_le (by omega), List.nil_append,
        Nat.add_sub_cancel_left, List.drop_succ_cons]
    rw [hrest] at hdropa hdropb
    rw [← hdropa, hdropb] at ha
    exact (List.cons.inj (List.append_cancel_left (Option.some.inj (ha.symm.trans hb)))).1
  · have hpayload : ∀ c, (before ++ c :: after).drop frameHeader =
        before.drop frameHeader ++ c :: after := fun c => List.drop_append_of_le_length hge
    rw [hpayload] at hdropa hdropb
    have hheaders := htakea.symm.trans ((List.take_append_of_le_length hge).trans
      ((List.take_append_of_le_length hge).symm.trans htakeb))
    have hcrc : crc32c payload = crc32c other :=
      encU32_injective (List.append_inj_right' hheaders (by simp))
    rw [← hdropa, ← hdropb] at hcrc
    exact eq_of_crc32c_eq hcrc

/-! ## Damage -/

/-- The bytes with one bit flipped. -/
def flipBit (bytes : Bytes) (i : Nat) (bit : Fin 8) : Bytes :=
  bytes.modify i fun byte => byte ^^^ (1 <<< UInt8.ofNat bit)

theorem openFrame_flipBit (h : sealFrame magic payload = some frame) {i : Nat}
    (hi : i < frame.length) (bit : Fin 8) : openFrame magic (flipBit frame i bit) = none := by
  refine Option.eq_none_iff_forall_ne_some.mpr fun other hopen => ?_
  have hflipped := openFrame_eq_some.mp hopen
  rw [flipBit, List.modify_eq_take_cons_drop hi] at hflipped
  rw [← List.take_append_drop i frame, List.drop_eq_getElem_cons hi] at h
  have hmask : ∀ bit : Fin 8, (1 : UInt8) <<< UInt8.ofNat bit ≠ 0 := by decide
  exact hmask bit ((UInt8.xor_right_inj frame[i]).mp
    ((eq_of_sealFrame hflipped h).trans UInt8.xor_zero.symm))

theorem openFrame_take (h : sealFrame magic payload = some frame) {n : Nat}
    (hn : n < frame.length) : openFrame magic (frame.take n) = none := by
  refine Option.eq_none_iff_forall_ne_some.mpr fun other hopen => ?_
  have hwhole := framedLen_sealFrame (openFrame_eq_some.mp hopen) []
  rw [List.append_nil, framedLen_take h hn] at hwhole
  contradiction

theorem openFrame_append (h : sealFrame magic payload = some frame) {extra : Bytes}
    (hextra : extra ≠ []) : openFrame magic (frame ++ extra) = none := by
  refine Option.eq_none_iff_forall_ne_some.mpr fun other hopen => ?_
  have hwhole := framedLen_sealFrame (openFrame_eq_some.mp hopen) []
  rw [List.append_nil, framedLen_sealFrame h, Option.some.injEq, List.length_append] at hwhole
  exact hextra (List.length_eq_zero_iff.mp (by omega))

/-! ## Splitting -/

def IsFrame (frame : Bytes) : Prop := ∃ magic payload, sealFrame magic payload = some frame

theorem IsFrame.framedLen_append (h : IsFrame frame) (rest : Bytes) :
    framedLen (frame ++ rest) = some frame.length := by
  obtain ⟨magic, payload, h⟩ := h
  exact framedLen_sealFrame h rest

/-- **A concatenation of frames splits in one way.** -/
theorem eq_of_flatten_eq {frames others : List Bytes} (hframes : ∀ f ∈ frames, IsFrame f)
    (hothers : ∀ f ∈ others, IsFrame f) (h : frames.flatten = others.flatten) :
    frames = others := by
  induction frames generalizing others with
  | nil =>
    cases others with
    | nil => rfl
    | cons g others =>
      have hlen := (hothers g List.mem_cons_self).framedLen_append others.flatten
      rw [← List.flatten_cons, ← h] at hlen
      cases hlen
  | cons f frames ih =>
    have hf := (hframes f List.mem_cons_self).framedLen_append frames.flatten
    cases others with
    | nil =>
      rw [← List.flatten_cons, h] at hf
      cases hf
    | cons g others =>
      have hg := (hothers g List.mem_cons_self).framedLen_append others.flatten
      rw [List.flatten_cons, List.flatten_cons] at h
      rw [h, hg, Option.some.injEq] at hf
      obtain ⟨rfl, hrest⟩ := List.append_inj h hf.symm
      rw [ih (fun f hf => hframes f (List.mem_cons_of_mem _ hf))
        (fun f hf => hothers f (List.mem_cons_of_mem _ hf)) hrest]

/-- **Frames detect damage.**  Every payload of less than 4 GiB is sealed, and the frame opens to it.
With one bit flipped, cut anywhere, or with anything after it, the frame does not open; and frames
written one after the other are told apart. -/
theorem frames_detect_damage :
    (∀ magic payload, (sealFrame magic payload).isSome = true ↔ payload.length < 2 ^ 32) ∧
    (∀ magic payload frame, sealFrame magic payload = some frame →
      openFrame magic frame = some payload ∧
      (∀ i < frame.length, ∀ bit, openFrame magic (flipBit frame i bit) = none) ∧
      (∀ n < frame.length, openFrame magic (frame.take n) = none) ∧
      ∀ extra ≠ [], openFrame magic (frame ++ extra) = none) ∧
    ∀ frames others : List Bytes, (∀ f ∈ frames, IsFrame f) → (∀ f ∈ others, IsFrame f) →
      frames.flatten = others.flatten → frames = others := by
  refine ⟨fun magic payload => ?_, fun magic payload frame h => ?_, fun frames others =>
    eq_of_flatten_eq⟩
  · rw [sealFrame]
    split_ifs with hlt
    · exact iff_of_true rfl hlt
    · exact iff_of_false Bool.false_ne_true hlt
  · exact ⟨openFrame_sealFrame h, fun i hi bit => openFrame_flipBit h hi bit,
      fun n hn => openFrame_take h hn, fun extra hextra => openFrame_append h hextra⟩

end Blockd
