import Mathlib

/-!
# Names made of text and numbers

File names and store keys are built from fixed text, separators and zero-padded hexadecimal
numbers, and are taken apart again at the separators.  A name is a list of characters.

* `hexDigits w n` — the number written with `w` digits; `ofHex` reads a number in either case of
  the digits and with an optional plus sign, as the standard libraries do, and refuses one that is
  not below a bound.  `ofHex_hexDigits` is the round trip.
* `splitOnce` — cut at the first separator.  What a number is written with is never one
  (`notMem_hexDigits`), so a name built from numbers is cut where it was joined.
-/

set_option autoImplicit false

namespace Text

/-! ## Hexadecimal numbers -/

/-- The digit of a value below sixteen. -/
def hexDigit (d : Nat) : Char := if d < 10 then Char.ofNat (48 + d) else Char.ofNat (87 + d)

/-- The value of a digit, in either case. -/
def hexVal (c : Char) : Option Nat :=
  if '0' ≤ c ∧ c ≤ '9' then some (c.toNat - 48)
  else if 'a' ≤ c ∧ c ≤ 'f' then some (c.toNat - 87)
  else if 'A' ≤ c ∧ c ≤ 'F' then some (c.toNat - 55)
  else none

/-- The last `w` digits of a number, most significant first. -/
def hexDigits : Nat → Nat → List Char
  | 0, _ => []
  | w + 1, n => hexDigits w (n / 16) ++ [hexDigit (n % 16)]

/-- Take one more digit, unless the number gets too large. -/
def pushHex (bound : Nat) (n : Nat) (c : Char) : Option Nat := do
  let d ← hexVal c
  if 16 * n + d < bound then some (16 * n + d) else none

/-- A sign that means nothing. -/
def dropPlus : List Char → List Char
  | '+' :: rest => rest
  | text => text

/-- The number a text stands for, if it is one below the bound. -/
def ofHex (bound : Nat) (text : List Char) : Option Nat :=
  let digits := dropPlus text
  if digits = [] then none else digits.foldlM (pushHex bound) 0

theorem hexVal_hexDigit {d : Nat} (h : d < 16) : hexVal (hexDigit d) = some d := by
  revert d
  decide

@[simp] theorem length_hexDigits (w n : Nat) : (hexDigits w n).length = w := by
  induction w generalizing n with
  | zero => rfl
  | succ w ih => rw [hexDigits, List.length_append, ih, List.length_singleton]

theorem mem_hexDigits {w n : Nat} {c : Char} (h : c ∈ hexDigits w n) :
    ∃ d < 16, c = hexDigit d := by
  induction w generalizing n with
  | zero => exact absurd h List.not_mem_nil
  | succ w ih =>
    rcases List.mem_append.mp h with h | h
    · exact ih h
    · exact ⟨n % 16, Nat.mod_lt n (by decide), List.mem_singleton.mp h⟩

/-- A character that is no digit does not occur in a number. -/
theorem notMem_hexDigits {w n : Nat} {c : Char} (h : hexVal c = none) : c ∉ hexDigits w n := by
  intro hc
  obtain ⟨d, hd, rfl⟩ := mem_hexDigits hc
  rw [hexVal_hexDigit hd] at h
  nomatch h

theorem dropPlus_of_notMem {text : List Char} (h : '+' ∉ text) : dropPlus text = text := by
  unfold dropPlus
  split
  · exact absurd List.mem_cons_self h
  · rfl

theorem foldlM_hexDigits {bound w n : Nat} (hw : n < 16 ^ w) (hbound : n < bound) :
    (hexDigits w n).foldlM (pushHex bound) 0 = some n := by
  induction w generalizing n with
  | zero => rw [Nat.lt_one_iff.mp hw]; rfl
  | succ w ih =>
    have hdiv : n / 16 < 16 ^ w := Nat.div_lt_of_lt_mul (by rwa [← Nat.pow_succ'])
    have hlast : 16 * (n / 16) + n % 16 = n := Nat.div_add_mod n 16
    rw [hexDigits, List.foldlM_append, ih hdiv (Nat.lt_of_le_of_lt (Nat.div_le_self n 16) hbound)]
    simp [pushHex, hexVal_hexDigit (Nat.mod_lt n (by decide : 16 > 0)), hlast, hbound]

/-- **A number reads back as it was written.** -/
theorem ofHex_hexDigits {bound w n : Nat} (hpos : 0 < w) (hw : n < 16 ^ w) (hbound : n < bound) :
    ofHex bound (hexDigits w n) = some n := by
  have hne : hexDigits w n ≠ [] := List.ne_nil_of_length_pos (by rwa [length_hexDigits])
  rw [ofHex, dropPlus_of_notMem (notMem_hexDigits (by decide)), if_neg hne]
  exact foldlM_hexDigits hw hbound

/-! ## Separators -/

/-- The texts before and after the first separator. -/
def splitOnce (sep : Char) : List Char → Option (List Char × List Char)
  | [] => none
  | c :: rest => if c = sep then some ([], rest) else (splitOnce sep rest).map fun p => (c :: p.1, p.2)

theorem splitOnce_append {sep : Char} {left right : List Char} (h : sep ∉ left) :
    splitOnce sep (left ++ sep :: right) = some (left, right) := by
  induction left with
  | nil => exact if_pos rfl
  | cons c left ih =>
    have hc : c ≠ sep := fun hc => h (hc ▸ List.mem_cons_self)
    rw [List.cons_append, splitOnce, if_neg hc, ih fun hl => h (List.mem_cons_of_mem c hl)]
    rfl

theorem dropPrefix?_append (start rest : List Char) :
    (start ++ rest).dropPrefix? start = some rest :=
  List.dropPrefix?_append_of_beq rest (beq_self_eq_true start)

theorem dropSuffix?_append (text ending : List Char) :
    (text ++ ending).dropSuffix? ending = some text :=
  List.dropSuffix?_eq_some_iff.mpr ⟨ending, rfl, beq_self_eq_true ending⟩

end Text
