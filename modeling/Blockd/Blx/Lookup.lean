import Mathlib.Order.Interval.Set.OrdConnected
import Mathlib.Order.RelClasses
import Blockd.Blx.Batch
import Blockd.Blx.Compact

/-!
# Looking up a key in a footer

`BlxFooter::find` is a binary search over the entries of a footer.  The order of the keys is that of
the tuple which `BlockKey::cmp` compares (`BlockKey.isLE_cmp`), and the keys of a file
partition are an interval of it.  A footer that `BlxFooter::open` accepts is strictly increasing in
this order, so the search finds the one entry of a key (`footer_lookup_complete`).
-/

set_option autoImplicit false

open Codec

namespace Blockd

/-! ## Binary search -/

section

variable {α κ : Type} [LinearOrder κ] {entries : List α} {keyOf : α → κ} {key : κ}

/-- The loop of `binary_search_by`: what is looked for is among the `size` entries from `base`.  Each
round leaves fewer of them, so that `size` rounds are enough. -/
def searchBase (greater : Nat → Bool) : Nat → Nat → Nat → Nat
  | 0, base, _ => base
  | rounds + 1, base, size =>
    if 1 < size then
      searchBase greater rounds (if greater (base + size / 2) then base else base + size / 2)
        (size - size / 2)
    else base

/-- `binary_search_by_key(..).ok()` of the standard library. -/
def binarySearchByKey (entries : List α) (key : κ) (keyOf : α → κ) : Option Nat :=
  let base := searchBase (fun i => entries[i]?.any fun entry => decide (key < keyOf entry))
    entries.length 0 entries.length
  if entries[base]?.any fun entry => keyOf entry = key then some base else none

/-- The loop ends at the one position of its window that is neither too small nor too great. -/
theorem searchBase_eq {greater : Nat → Bool} {rounds base size i : Nat} (hrounds : size ≤ rounds)
    (hbase : base ≤ i) (hsize : i < base + size)
    (hgreater : ∀ j, j < base + size → (greater j = true ↔ i < j)) :
    searchBase greater rounds base size = i := by
  induction rounds generalizing base size with
  | zero => omega
  | succ rounds ih =>
    rw [searchBase]
    by_cases hone : 1 < size
    · rw [if_pos hone]
      have hmid := hgreater (base + size / 2) (by omega)
      -- the half that is kept still has the position in it
      split_ifs with hcmp
      · have hlt := hmid.mp hcmp
        exact ih (by omega) hbase (by omega) fun j hj => hgreater j (by omega)
      · have hle := Nat.not_lt.mp fun hlt => hcmp (hmid.mpr hlt)
        exact ih (by omega) hle (by omega) fun j hj => hgreater j (by omega)
    · rw [if_neg hone]
      omega

/-- A binary search of entries with increasing keys finds exactly the position of its key. -/
theorem binarySearchByKey_eq_some (hsorted : entries.Pairwise fun e f => keyOf e < keyOf f)
    {i : Nat} : binarySearchByKey entries key keyOf = some i ↔
      ∃ entry, entries[i]? = some entry ∧ keyOf entry = key := by
  constructor
  · intro h
    simp only [binarySearchByKey, Option.ite_none_right_eq_some, Option.some.injEq] at h
    obtain ⟨hfound, rfl⟩ := h
    obtain ⟨entry, hentry, hkey⟩ := (Option.any_eq_true _ _).mp hfound
    exact ⟨entry, hentry, of_decide_eq_true hkey⟩
  · rintro ⟨entry, hentry, rfl⟩
    obtain ⟨hi, rfl⟩ := List.getElem?_eq_some_iff.mp hentry
    have hbase : searchBase (fun j => entries[j]?.any fun e => decide (keyOf entries[i] < keyOf e))
        entries.length 0 entries.length = i := by
      refine searchBase_eq le_rfl (Nat.zero_le i) (by omega) fun j hj => ?_
      have hlt := List.pairwise_iff_getElem.mp hsorted
      rw [Nat.zero_add] at hj
      rw [List.getElem?_eq_getElem hj, Option.any_some, decide_eq_true_iff]
      refine ⟨fun hkeys => ?_, fun hij => hlt i j hi hj hij⟩
      by_contra hji
      rcases (Nat.not_lt.mp hji).lt_or_eq with hji | rfl
      · exact (hlt j i hj hi hji).not_gt hkeys
      · exact lt_irrefl _ hkeys
    rw [binarySearchByKey, hbase, hentry, Option.any_some, decide_eq_true rfl, if_pos rfl]

end

/-! ## The order of the keys -/

variable [Platform]

namespace BlockKey

/-- `BlockKey::cmp`. -/
def cmp (k l : BlockKey) : Ordering :=
  (compare (k.block.toNat / blocksPerFilePartition) (l.block.toNat / blocksPerFilePartition)).then <|
  (compare (k.namespaceRank / namespacesPerFilePartition)
    (l.namespaceRank / namespacesPerFilePartition)).then <|
  (compare k.namespaceRank l.namespaceRank).then <|
  compare (k.block.toNat % blocksPerFilePartition) (l.block.toNat % blocksPerFilePartition)

/-- The order of the keys is the one that `cmp` decides. -/
theorem isLE_cmp (k l : BlockKey) : (k.cmp l).isLE = true ↔ k ≤ l := by
  rw [show k ≤ l ↔ k.code ≤ l.code from Iff.rfl]
  simp only [cmp, code, Ordering.isLE_then_iff_or, Nat.compare_eq_lt, Nat.compare_eq_eq,
    Nat.isLE_compare, Prod.Lex.le_iff, ofLex_toLex]

/-- Between two keys of a file partition there are only keys of this partition. -/
theorem ordConnected_filePartition (part : Nat × Nat) :
    {k : BlockKey | k.filePartition = part}.OrdConnected := by
  refine ⟨fun k hk m hm l hl => ?_⟩
  have hends : k.partIndex = m.partIndex := by
    have hparts := Eq.trans (b := part) hk (Eq.symm hm)
    rw [filePartition_eq, filePartition_eq] at hparts
    exact congrArg Prod.fst hparts
  have hlower := partIndex_le_of_le hl.1
  have hupper := partIndex_le_of_le hl.2
  calc l.filePartition = k.filePartition := by
        rw [filePartition_eq, filePartition_eq, show l.partIndex = k.partIndex by omega]
    _ = part := hk

end BlockKey

/-! ## Footers -/

namespace BlxFooter

variable {footer : BlxFooter} {key : BlockKey}

/-- `BlxFooter::find`. -/
def find (footer : BlxFooter) (key : BlockKey) : Option FooterEntry :=
  (binarySearchByKey footer.entries key FooterEntry.key).bind fun index => footer.entries[index]?

theorem find_eq_some (hsorted : footer.entries.Pairwise fun e f => e.key < f.key)
    {entry : FooterEntry} :
    footer.find key = some entry ↔ entry ∈ footer.entries ∧ entry.key = key := by
  simp only [find, Option.bind_eq_some_iff, binarySearchByKey_eq_some hsorted]
  constructor
  · rintro ⟨i, ⟨found, hfound, hkey⟩, hentry⟩
    obtain rfl := Option.some.inj (hfound.symm.trans hentry)
    exact ⟨List.mem_of_getElem? hentry, hkey⟩
  · rintro ⟨hmem, hkey⟩
    obtain ⟨i, hi⟩ := List.mem_iff_getElem?.mp hmem
    exact ⟨i, ⟨entry, hi, hkey⟩, hi⟩

end BlxFooter

/-- **A footer that opens is looked up exactly.**  The order of the keys is linear and keeps each file
partition together; and in a footer that `open` accepts, the search finds an entry of a key if there
is one, which is then the only one. -/
theorem footer_lookup_complete :
    (IsLinearOrder BlockKey fun k l => (k.cmp l).isLE = true) ∧
    (∀ k l : BlockKey, (k.cmp l).isLE = true ↔ k ≤ l) ∧
    (∀ part, {k : BlockKey | k.filePartition = part}.OrdConnected) ∧
    ∀ bytes footer, BlxFooter.open bytes = some footer → ∀ key entry,
      footer.find key = some entry ↔ entry ∈ footer.entries ∧ entry.key = key := by
  refine ⟨?_, BlockKey.isLE_cmp, BlockKey.ordConnected_filePartition, fun bytes footer hopen key entry =>
    BlxFooter.find_eq_some (BlxFooter.sorted_of_open hopen)⟩
  simp only [BlockKey.isLE_cmp]
  infer_instance

end Blockd
