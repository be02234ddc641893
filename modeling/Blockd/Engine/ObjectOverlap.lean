import Blockd.Engine.Publish

/-!
# Validation against the set of keys

`validate_objects` and `max_object_overlap` of `manifest.rs` walk along the ends of the key ranges,
`maximum_overlap` of `engine/lineage.rs` looks at the first key of each range.  None of them looks at
the keys between.  `object_validation_exact` compares all three with how many ranges cover each key.
-/

set_option autoImplicit false

namespace Blockd

section

variable [Platform]

/-- `maximum_overlap` of `engine/lineage.rs`. -/
def maximumOverlap (objects : List ObjectRef) : Nat :=
  ((objects.map fun candidate => objects.countP fun object =>
    object.firstKey ≤ candidate.firstKey ∧ candidate.firstKey ≤ object.lastKey).max?).getD 0

/-- How many of the objects cover a key. -/
def covering (objects : List ObjectRef) (k : BlockKey) : Nat :=
  objects.countP fun o => o.firstKey ≤ k ∧ k ≤ o.lastKey

omit [Platform] in
/-- A number that bounds what `f` is bounded by is the greatest value of `f`. -/
theorem isGreatest_of_le_iff {α : Type} [Nonempty α] {f : α → Nat} {m : Nat}
    (h : ∀ n, m ≤ n ↔ ∀ a, f a ≤ n) : IsGreatest (Set.range f) m := by
  have hle := (h m).mp le_rfl
  refine ⟨?_, Set.forall_mem_range.mpr hle⟩
  rcases m.eq_zero_or_pos with rfl | hpos
  · obtain ⟨a⟩ := ‹Nonempty α›
    exact ⟨a, Nat.le_zero.mp (hle a)⟩
  · obtain ⟨a, ha⟩ := not_forall.mp fun hall => absurd ((h (m - 1)).mpr hall) (by omega)
    exact ⟨a, le_antisymm (hle a) (by omega)⟩

instance : Nonempty BlockKey := ⟨⟨.vmm, 0⟩⟩

variable {objects : List ObjectRef}

theorem depth_eq_covering (k : BlockKey) :
    Sweep.depth (objects.map fun o => (o.firstKey, o.lastKey)) k = covering objects k :=
  List.countP_map

theorem maximumOverlap_le_iff (n : Nat) :
    maximumOverlap objects ≤ n ↔ ∀ k, covering objects k ≤ n := by
  have hstarts := @Sweep.depth_le_iff _ _ (objects.map fun o => (o.firstKey, o.lastKey)) n
  simp only [depth_eq_covering, List.forall_mem_map] at hstarts
  rw [hstarts, maximumOverlap]
  cases hmax : (objects.map fun candidate => objects.countP fun object =>
      object.firstKey ≤ candidate.firstKey ∧ candidate.firstKey ≤ object.lastKey).max? with
  | none =>
    obtain rfl := List.map_eq_nil_iff.mp (List.max?_eq_none_iff.mp hmax)
    simp
  | some m =>
    rw [Option.getD_some, List.max?_le_iff hmax, List.forall_mem_map]
    rfl

/-- **Validation is exact.**  A list of references is accepted when its batches are complete and, if
a limit applies, no key is covered by more ranges than it allows; and both maxima are the largest
number of ranges that cover one key. -/
theorem object_validation_exact (hk : ∀ o ∈ objects, o.firstKey ≤ o.lastKey) :
    (∀ limit, validateObjects objects limit = true ↔
      ExactBatches objects ∧ ∀ n ∈ limit, ∀ k, covering objects k ≤ n) ∧
    IsGreatest (Set.range (covering objects)) (maxObjectOverlap objects) ∧
    IsGreatest (Set.range (covering objects)) (maximumOverlap objects) := by
  have hle : ∀ i ∈ objects.map fun o => (o.firstKey, o.lastKey), i.1 ≤ i.2 :=
    List.forall_mem_map.mpr hk
  have hsweep := fun limit => @Sweep.sweep_iff _ _ _ limit hle
  simp only [depth_eq_covering] at hsweep
  refine ⟨fun limit => ?_, isGreatest_of_le_iff fun n => ?_,
    isGreatest_of_le_iff maximumOverlap_le_iff⟩
  · rw [validateObjects_iff limit hk, hsweep]
  · have hmax := @Sweep.maximum_le_iff _ _ _ 0 n _ (Sweep.sweep_events hle)
    rw [hsweep, and_iff_right (Nat.zero_le n)] at hmax
    simp only [Option.mem_def, Option.some.injEq, forall_eq'] at hmax
    exact hmax

end

/-- A file of its own with the blocks `first` to `last`. -/
def rangeRef (id : UInt64) (first last : UInt32) : ObjectRef :=
  ⟨⟨.volume, 7, 1, id⟩, 1, 1, id, 0, 1, ⟨.data, first⟩, ⟨.data, last⟩, 0, 0, 1, 0, 1, 0⟩

/-- Two ranges that meet between their ends. -/
theorem object_validation_exact_pair :
    letI := storedPlatform
    validateObjects [rangeRef 0 0 5, rangeRef 1 3 9] (some 1) = false ∧
    IsGreatest (Set.range (covering [rangeRef 0 0 5, rangeRef 1 3 9])) 2 := by
  have hk : letI := storedPlatform
      ∀ o ∈ [rangeRef 0 0 5, rangeRef 1 3 9], o.firstKey ≤ o.lastKey := by decide +kernel
  have hmax : letI := storedPlatform
      maxObjectOverlap [rangeRef 0 0 5, rangeRef 1 3 9] = 2 := by decide +kernel
  let _ := storedPlatform
  have hexact := object_validation_exact hk
  rw [hmax] at hexact
  exact ⟨by decide +kernel, hexact.2.1⟩

end Blockd
