import Mathlib

/-!
# Ordered maps over a linear order

`Std.ExtTreeMap` keyed by a linear order, with the lookups after an update stated through equality
of the keys instead of the comparison function, and its list of entries sorted by `<`.
-/

set_option autoImplicit false

namespace Maps

variable {κ β : Type} [LinearOrder κ]

instance lawfulEqOrd : Std.LawfulEqOrd κ := inferInstance

instance transOrd : Std.TransOrd κ := inferInstance

theorem getElem?_insert (m : Std.ExtTreeMap κ β) (k k' : κ) (v : β) [Decidable (k = k')] :
    (m.insert k v)[k']? = if k = k' then some v else m[k']? := by
  rw [Std.ExtTreeMap.getElem?_insert]
  by_cases hk : k = k' <;> simp [hk]

theorem getElem?_erase (m : Std.ExtTreeMap κ β) (k k' : κ) [Decidable (k = k')] :
    (m.erase k)[k']? = if k = k' then none else m[k']? := by
  rw [Std.ExtTreeMap.getElem?_erase]
  by_cases hk : k = k' <;> simp [hk]

@[simp] theorem toList_empty : (∅ : Std.ExtTreeMap κ β).toList = [] := rfl

theorem pairwise_toList (m : Std.ExtTreeMap κ β) :
    m.toList.Pairwise fun p q => p.1 < q.1 := by
  refine Std.ExtTreeMap.ordered_keys_toList.imp fun hpq => ?_
  exact compare_lt_iff_lt.mp hpq

variable {m : Std.ExtTreeMap κ β} {k : κ}

/-- Two maps with the same lookups have the same list of entries, so a sorted list of a map's
entries is its list. -/
theorem toList_eq_of_sorted {l : List (κ × β)} (hl : l.Pairwise fun p q => p.1 < q.1)
    (hmem : ∀ k v, (k, v) ∈ l ↔ m[k]? = some v) : m.toList = l := by
  have hnodup : ∀ {l : List (κ × β)}, l.Pairwise (fun p q => p.1 < q.1) → l.Nodup :=
    fun hl => hl.imp fun hlt heq => hlt.ne (congrArg Prod.fst heq)
  refine List.Perm.eq_of_pairwise (fun p q _ _ hpq hqp => absurd (hpq.trans hqp) (lt_irrefl _))
    (pairwise_toList m) hl ?_
  refine (List.perm_ext_iff_of_nodup (hnodup (pairwise_toList m)) (hnodup hl)).mpr fun p => ?_
  rw [Std.ExtTreeMap.mem_toList_iff_getElem?_eq_some, ← hmem]

/-- Inserting above all keys appends to the list of entries. -/
theorem toList_insert_of_lt (h : ∀ k' v, m[k']? = some v → k' < k) (v : β) :
    (m.insert k v).toList = m.toList ++ [(k, v)] := by
  refine toList_eq_of_sorted ?_ fun k' v' => ?_
  · refine List.pairwise_append.mpr ⟨pairwise_toList m, List.pairwise_singleton _ _, ?_⟩
    intro p hp q hq
    rw [List.mem_singleton.mp hq]
    exact h p.1 p.2 (Std.ExtTreeMap.mem_toList_iff_getElem?_eq_some.mp hp)
  · rw [List.mem_append, Std.ExtTreeMap.mem_toList_iff_getElem?_eq_some, List.mem_singleton,
      getElem?_insert, Prod.mk.injEq]
    by_cases hk : k = k'
    · subst hk
      have hnone : m[k]? ≠ some v' := fun hsome => lt_irrefl k (h k v' hsome)
      simp [hnone, eq_comm]
    · simp [hk, eq_comm]

/-- The entry with the greatest key comes last. -/
theorem toList_eq_of_max {v : β} (hk : m[k]? = some v) (h : ∀ k' v', m[k']? = some v' → k' ≤ k) :
    m.toList = (m.erase k).toList ++ [(k, v)] := by
  have hlt : ∀ k' v', (m.erase k)[k']? = some v' → k' < k := by
    intro k' v' hget
    rw [getElem?_erase] at hget
    split at hget
    · cases hget
    · rename_i hne
      exact lt_of_le_of_ne (h k' v' hget) (Ne.symm hne)
  rw [← toList_insert_of_lt hlt v]
  congr 1
  refine Std.ExtTreeMap.ext_getElem? fun k' => ?_
  rw [getElem?_insert, getElem?_erase]
  split
  · rename_i heq
    rw [← heq, hk]
  · rfl

/-- After a list of insertions, an entry was inserted or was there before. -/
theorem of_getElem?_foldl_insert {entries : List (κ × β)} {v : β}
    (h : (entries.foldl (fun m entry => m.insert entry.1 entry.2) m)[k]? = some v) :
    (k, v) ∈ entries ∨ m[k]? = some v := by
  induction entries generalizing m with
  | nil => exact .inr h
  | cons entry entries ih =>
    rcases ih h with hmem | hget
    · exact .inl (List.mem_cons_of_mem _ hmem)
    · rw [getElem?_insert] at hget
      split at hget
      · rename_i heq
        cases hget
        exact .inl (heq ▸ List.mem_cons_self)
      · exact .inr hget

/-- After a list of insertions under different keys, every one of them is there. -/
theorem getElem?_foldl_insert_of_mem {entries : List (κ × β)} {v : β}
    (hkeys : entries.Pairwise fun p q => p.1 ≠ q.1) (h : (k, v) ∈ entries) :
    (entries.foldl (fun m entry => m.insert entry.1 entry.2) m)[k]? = some v := by
  induction entries generalizing m with
  | nil => cases h
  | cons entry entries ih =>
    obtain ⟨hne, hrest⟩ := List.pairwise_cons.mp hkeys
    rcases List.mem_cons.mp h with rfl | h
    · -- no later insertion has the key
      have hkeep : ∀ (l : List (κ × β)) (m : Std.ExtTreeMap κ β), (∀ q ∈ l, k ≠ q.1) →
          (l.foldl (fun m entry => m.insert entry.1 entry.2) m)[k]? = m[k]? := by
        intro l
        induction l with
        | nil => exact fun _ _ => rfl
        | cons q l ihl =>
          intro m hq
          rw [List.foldl_cons, ihl _ fun q' hq' => hq q' (List.mem_cons_of_mem q hq'),
            getElem?_insert, if_neg (hq q List.mem_cons_self).symm]
      rw [List.foldl_cons, hkeep entries _ hne, Std.ExtTreeMap.getElem?_insert_self]
    · exact ih hrest h

/-- Inserting the entries of a map gives the map. -/
theorem foldl_insert_toList (m : Std.ExtTreeMap κ β) :
    m.toList.foldl (fun m entry => m.insert entry.1 entry.2) ∅ = m := by
  refine Std.ExtTreeMap.ext_getElem? fun k => Option.ext fun v => ⟨fun h => ?_, fun h => ?_⟩
  · rcases of_getElem?_foldl_insert h with hmem | hget
    · exact Std.ExtTreeMap.mem_toList_iff_getElem?_eq_some.mp hmem
    · simp at hget
  · exact getElem?_foldl_insert_of_mem ((pairwise_toList m).imp LT.lt.ne)
      (Std.ExtTreeMap.mem_toList_iff_getElem?_eq_some.mpr h)

/-- A relation along the entries in order is the relation between any two entries with increasing
keys. -/
theorem pairwise_toList_iff {R : κ × β → κ × β → Prop} :
    m.toList.Pairwise R ↔ ∀ k v k' v', m[k]? = some v → m[k']? = some v' → k < k' →
      R (k, v) (k', v') := by
  constructor
  · intro hR k v k' v' hk hk' hlt
    rw [← Std.ExtTreeMap.mem_toList_iff_getElem?_eq_some] at hk hk'
    obtain ⟨i, hi, hik⟩ := List.getElem_of_mem hk
    obtain ⟨j, hj, hjk⟩ := List.getElem_of_mem hk'
    have hij : i < j := by
      by_contra hji
      rcases Nat.lt_or_eq_of_le (Nat.le_of_not_lt hji) with hji | rfl
      · have hgt := List.pairwise_iff_getElem.mp (pairwise_toList m) j i hj hi hji
        rw [hik, hjk] at hgt
        exact hgt.asymm hlt
      · rw [hik] at hjk
        exact hlt.ne (congrArg Prod.fst hjk)
    have hrel := List.pairwise_iff_getElem.mp hR i j hi hj hij
    rwa [hik, hjk] at hrel
  · intro h
    refine (pairwise_toList m).imp_of_mem fun {p q} hp hq hlt => ?_
    rw [Std.ExtTreeMap.mem_toList_iff_getElem?_eq_some] at hp hq
    exact h p.1 p.2 q.1 q.2 hp hq hlt

end Maps
