import Mathlib
import Blockd.Manifest.ObjectRef
import Blockd.Lib.Sweep

/-!
# Validation of a set of references

`validate_objects` of `manifest.rs`: identities are distinct, every batch is there with all its
chunks and with one set of fields, the chunks of a batch have increasing key ranges, and, where a
limit is given, no more than that many ranges overlap.

The first section is the source's loop.  The rest says what it accepts when there is no limit, as a
journal record's file list is validated: exactly the lists that satisfy `ValidBatches`
(`validateObjects_none_iff`).
-/

set_option autoImplicit false

open Codec
open Std (ExtTreeMap)

namespace Blockd

/-! ## The loop -/

/-- What has been seen of one batch. -/
structure BatchCheck where
  chunkCount : UInt32
  minSeq : UInt64
  maxSeq : UInt64
  preStateChecksum : UInt64
  postStateChecksum : UInt64
  /-- The key range of every chunk seen, by chunk index. -/
  chunks : ExtTreeMap Nat (BlockKey × BlockKey)

namespace ObjectRef

/-- What identifies a batch: the namespace and fence of the object, and the batch number. -/
def batchKey (o : ObjectRef) : ObjectIdentity ×ₗ Nat :=
  toLex ({ o.identity with objectId := 0 }, o.batchId.toNat)

/-- The fields every chunk of a batch repeats. -/
def batchFields (o : ObjectRef) : UInt32 × UInt64 × UInt64 × UInt64 × UInt64 :=
  (o.chunkCount, o.minSeq, o.maxSeq, o.preStateChecksum, o.postStateChecksum)

end ObjectRef

namespace BatchCheck

def new (o : ObjectRef) : BatchCheck :=
  ⟨o.chunkCount, o.minSeq, o.maxSeq, o.preStateChecksum, o.postStateChecksum, ∅⟩

def fields (b : BatchCheck) : UInt32 × UInt64 × UInt64 × UInt64 × UInt64 :=
  (b.chunkCount, b.minSeq, b.maxSeq, b.preStateChecksum, b.postStateChecksum)

variable [Platform]

/-- The ranges of consecutive chunks increase. -/
def rangesIncrease : List (BlockKey × BlockKey) → Option BlockKey → Bool
  | [], _ => true
  | (first, last) :: rest, previous =>
    !(previous.any fun p => decide (first ≤ p)) && rangesIncrease rest (some last)

/-- All chunks are there, in increasing ranges. -/
def complete (b : BatchCheck) : Bool :=
  b.chunks.size == b.chunkCount.toNat &&
    (List.range b.chunkCount.toNat).all (fun index => b.chunks.contains index) &&
    rangesIncrease (b.chunks.toList.map Prod.snd) none

end BatchCheck

structure ValidateState where
  identities : Finset ObjectIdentity
  batches : ExtTreeMap (ObjectIdentity ×ₗ Nat) BatchCheck

/-- The entry of a reference's batch, made from the reference if there is none. -/
def ValidateState.batchOf (s : ValidateState) (o : ObjectRef) : BatchCheck :=
  (s.batches[o.batchKey]?).getD (BatchCheck.new o)

/-- One round of the loop over the references. -/
def validateObject (s : ValidateState) (o : ObjectRef) : Option ValidateState := do
  ensure (o.identity ∉ s.identities)
  let batch := s.batchOf o
  ensure (batch.fields = o.batchFields)
  ensure (batch.chunks[o.chunkIndex.toNat]? = none)
  let chunks := batch.chunks.insert o.chunkIndex.toNat (o.firstKey, o.lastKey)
  return ⟨insert o.identity s.identities, s.batches.insert o.batchKey { batch with chunks }⟩

section

variable [Platform]

def validateObjects (objects : List ObjectRef) (maximumOverlap : Option Nat) : Bool :=
  match objects.foldlM validateObject ⟨∅, ∅⟩ with
  | none => false
  | some s =>
    s.batches.toList.all (fun b => b.2.complete) &&
      Sweep.sweep maximumOverlap
        (Sweep.events (objects.map fun o => (o.firstKey, o.lastKey))).toList 0 == some 0

def validateObjectRefs (objects : List ObjectRef) : Bool :=
  validateObjects objects (some maxOverlappingFiles)

/-- Unlike an archival manifest, a journal can name all uncompacted files that are still needed
locally, so it has no overlap limit. -/
def validateJournalObjectRefs (objects : List ObjectRef) : Bool := validateObjects objects none

end

/-! ## What the loop checks -/

/-- What the loop over the references checks of them. -/
structure Consistent (objects : List ObjectRef) : Prop where
  /-- No identity is named twice. -/
  identities : (objects.map ObjectRef.identity).Nodup
  /-- The chunks of a batch repeat the same fields. -/
  fields : ∀ o ∈ objects, ∀ p ∈ objects, o.batchKey = p.batchKey → o.batchFields = p.batchFields
  /-- No chunk of a batch is named twice. -/
  indexes : objects.Pairwise fun o p => o.batchKey = p.batchKey → o.chunkIndex ≠ p.chunkIndex

/-- The state of the loop after the references `done`. -/
structure LoopState (done : List ObjectRef) (s : ValidateState) : Prop where
  identities : ∀ i, i ∈ s.identities ↔ i ∈ done.map ObjectRef.identity
  absent : ∀ key, s.batches[key]? = none → ∀ o ∈ done, o.batchKey ≠ key
  present : ∀ key b, s.batches[key]? = some b → ∃ o ∈ done, o.batchKey = key
  fields : ∀ key b, s.batches[key]? = some b → ∀ o ∈ done, o.batchKey = key →
    b.fields = o.batchFields
  chunks : ∀ key b, s.batches[key]? = some b → ∀ i r, b.chunks[i]? = some r ↔
    ∃ o ∈ done, o.batchKey = key ∧ o.chunkIndex.toNat = i ∧ (o.firstKey, o.lastKey) = r

namespace LoopState

variable {done : List ObjectRef} {s s' : ValidateState} {o : ObjectRef}

theorem batch_fields (h : LoopState done s) (o : ObjectRef) :
    ∀ p ∈ done, p.batchKey = o.batchKey → (s.batchOf o).fields = p.batchFields := by
  intro p hp hkey
  rw [ValidateState.batchOf]
  cases hget : s.batches[o.batchKey]? with
  | none => exact absurd hkey (h.absent _ hget p hp)
  | some b => exact h.fields _ b hget p hp hkey

theorem batch_chunks (h : LoopState done s) (o : ObjectRef) (i : Nat) (r : BlockKey × BlockKey) :
    (s.batchOf o).chunks[i]? = some r ↔
      ∃ p ∈ done, p.batchKey = o.batchKey ∧ p.chunkIndex.toNat = i ∧
        (p.firstKey, p.lastKey) = r := by
  rw [ValidateState.batchOf]
  cases hget : s.batches[o.batchKey]? with
  | none =>
    have hno := h.absent _ hget
    simp only [Option.getD_none, BatchCheck.new, ExtTreeMap.getElem?_empty, reduceCtorEq, false_iff]
    rintro ⟨p, hp, hkey, -⟩
    exact hno p hp hkey
  | some b => exact h.chunks _ b hget i r

end LoopState

variable {o : ObjectRef} {s : ValidateState} {objects : List ObjectRef}

theorem validateObject_eq_some {s' : ValidateState} :
    validateObject s o = some s' ↔ o.identity ∉ s.identities ∧
      (s.batchOf o).fields = o.batchFields ∧
      (s.batchOf o).chunks[o.chunkIndex.toNat]? = none ∧
      s' = ⟨insert o.identity s.identities, s.batches.insert o.batchKey
        { s.batchOf o with
          chunks := (s.batchOf o).chunks.insert o.chunkIndex.toNat (o.firstKey, o.lastKey) }⟩ := by
  simp only [validateObject, bind_eq_some, ensure_eq_some, pure_eq_some]
  constructor
  · rintro ⟨-, hid, -, hfields, -, hchunk, rfl⟩
    exact ⟨hid, hfields, hchunk, rfl⟩
  · rintro ⟨hid, hfields, hchunk, rfl⟩
    exact ⟨(), hid, (), hfields, (), hchunk, rfl⟩

/-- **One round of the loop** extends what has been seen by one reference. -/
theorem LoopState.step {done : List ObjectRef} {s' : ValidateState} (h : LoopState done s)
    (hs : validateObject s o = some s') : LoopState (done ++ [o]) s' := by
  obtain ⟨hid, hfields, hchunk, rfl⟩ := validateObject_eq_some.mp hs
  refine ⟨fun i => ?_, fun key hget p hp hkey => ?_, fun key b hget => ?_,
    fun key b hget p hp hkey => ?_, fun key b hget i r => ?_⟩
  · rw [Finset.mem_insert, h.identities i, List.map_append, List.mem_append, List.map_singleton,
      List.mem_singleton, or_comm]
  · rw [Maps.getElem?_insert] at hget
    split at hget
    · cases hget
    · rename_i hne
      rcases List.mem_append.mp hp with hp | hp
      · exact h.absent key hget p hp hkey
      · rw [List.mem_singleton.mp hp] at hkey
        exact hne hkey
  · rw [Maps.getElem?_insert] at hget
    split at hget
    · rename_i heq
      exact ⟨o, by simp, heq⟩
    · obtain ⟨p, hp, hkey⟩ := h.present key b hget
      exact ⟨p, List.mem_append_left _ hp, hkey⟩
  · rw [Maps.getElem?_insert] at hget
    split at hget
    · rename_i heq
      rw [← Option.some.inj hget]
      rcases List.mem_append.mp hp with hp | hp
      · exact h.batch_fields o p hp (hkey.trans heq.symm)
      · rw [List.mem_singleton.mp hp]
        exact hfields
    · rename_i hne
      rcases List.mem_append.mp hp with hp | hp
      · exact h.fields key b hget p hp hkey
      · rw [List.mem_singleton.mp hp] at hkey
        exact absurd hkey hne
  · rw [Maps.getElem?_insert] at hget
    split at hget
    · rename_i heq
      subst heq
      rw [← Option.some.inj hget, Maps.getElem?_insert]
      by_cases hi : o.chunkIndex.toNat = i
      · rw [if_pos hi]
        constructor
        · intro hr
          exact ⟨o, by simp, rfl, hi, Option.some.inj hr⟩
        · rintro ⟨p, hp, hkey, hpi, hr⟩
          rcases List.mem_append.mp hp with hp | hp
          · have hold := (h.batch_chunks o i r).mpr ⟨p, hp, hkey, hpi, hr⟩
            rw [← hi, hchunk] at hold
            cases hold
          · rw [← hr, List.mem_singleton.mp hp]
      · rw [if_neg hi, h.batch_chunks o i r]
        constructor
        · rintro ⟨p, hp, hrest⟩
          exact ⟨p, List.mem_append_left _ hp, hrest⟩
        · rintro ⟨p, hp, hkey, hpi, hr⟩
          rcases List.mem_append.mp hp with hp | hp
          · exact ⟨p, hp, hkey, hpi, hr⟩
          · rw [List.mem_singleton.mp hp] at hpi
            exact absurd hpi hi
    · rename_i hne
      rw [h.chunks key b hget i r]
      constructor
      · rintro ⟨p, hp, hrest⟩
        exact ⟨p, List.mem_append_left _ hp, hrest⟩
      · rintro ⟨p, hp, hkey, hrest⟩
        rcases List.mem_append.mp hp with hp | hp
        · exact ⟨p, hp, hkey, hrest⟩
        · rw [List.mem_singleton.mp hp] at hkey
          exact absurd hkey hne

/-- When a round succeeds, the reference is consistent with those before it, and conversely. -/
theorem LoopState.consistent_step {done : List ObjectRef} (h : LoopState done s)
    (hc : Consistent done) : (∃ s', validateObject s o = some s') ↔ Consistent (done ++ [o]) := by
  constructor
  · rintro ⟨s', hs⟩
    obtain ⟨hid, hfields, hchunk, -⟩ := validateObject_eq_some.mp hs
    refine ⟨?_, fun p hp q hq hkey => ?_, ?_⟩
    · rw [List.map_append, List.map_singleton]
      refine List.nodup_append.mpr ⟨hc.identities, List.nodup_singleton _, fun i hi j hj => ?_⟩
      rw [List.mem_singleton.mp hj]
      rintro rfl
      exact hid ((h.identities _).mpr hi)
    · rcases List.mem_append.mp hp with hp | hp <;> rcases List.mem_append.mp hq with hq | hq
      · exact hc.fields p hp q hq hkey
      · rw [List.mem_singleton.mp hq] at hkey ⊢
        exact (h.batch_fields o p hp hkey).symm.trans hfields
      · rw [List.mem_singleton.mp hp] at hkey ⊢
        exact hfields.symm.trans (h.batch_fields o q hq hkey.symm)
      · rw [List.mem_singleton.mp hp, List.mem_singleton.mp hq]
    · refine List.pairwise_append.mpr ⟨hc.indexes, List.pairwise_singleton _ _, fun p hp q hq => ?_⟩
      rw [List.mem_singleton.mp hq]
      intro hkey hindex
      have hold := (h.batch_chunks o p.chunkIndex.toNat (p.firstKey, p.lastKey)).mpr
        ⟨p, hp, hkey, rfl, rfl⟩
      rw [hindex, hchunk] at hold
      cases hold
  · intro hall
    refine ⟨_, validateObject_eq_some.mpr ⟨fun hid => ?_, ?_, ?_, rfl⟩⟩
    · have hnodup := hall.identities
      rw [List.map_append, List.map_singleton, List.nodup_append] at hnodup
      exact hnodup.2.2 _ ((h.identities _).mp hid) _ (List.mem_singleton_self _) rfl
    · by_cases hex : ∃ p ∈ done, p.batchKey = o.batchKey
      · obtain ⟨p, hp, hkey⟩ := hex
        rw [h.batch_fields o p hp hkey]
        exact hall.fields p (List.mem_append_left _ hp) o (by simp) hkey
      · have hnone : s.batches[o.batchKey]? = none := by
          cases hget : s.batches[o.batchKey]? with
          | none => rfl
          | some b => exact absurd (h.present _ b hget) hex
        rw [ValidateState.batchOf, hnone]
        rfl
    · cases hget : (s.batchOf o).chunks[o.chunkIndex.toNat]? with
      | none => rfl
      | some r =>
        obtain ⟨p, hp, hkey, hindex, -⟩ := (h.batch_chunks o _ r).mp hget
        have hpair := (List.pairwise_append.mp hall.indexes).2.2 p hp o (by simp) hkey
        exact absurd (UInt32.toNat_inj.mp hindex) hpair

/-- **The loop succeeds exactly on consistent lists**, and then its state describes them. -/
theorem foldlM_validateObject (objects : List ObjectRef) :
    (Consistent objects → ∃ s, objects.foldlM validateObject ⟨∅, ∅⟩ = some s) ∧
      ∀ s, objects.foldlM validateObject ⟨∅, ∅⟩ = some s →
        Consistent objects ∧ LoopState objects s := by
  induction objects using List.reverseRecOn with
  | nil =>
    refine ⟨fun _ => ⟨_, rfl⟩, fun s hs => ?_⟩
    rw [List.foldlM_nil, pure_eq_some] at hs
    subst hs
    exact ⟨⟨by simp, by simp, by simp⟩, ⟨by simp, by simp, by simp, by simp, by simp⟩⟩
  | append_singleton objects o ih =>
    rw [List.foldlM_append]
    constructor
    · intro hall
      have hsub : Consistent objects := by
        refine ⟨?_, fun p hp q hq => hall.fields p (List.mem_append_left _ hp) q
          (List.mem_append_left _ hq), (List.pairwise_append.mp hall.indexes).1⟩
        have hnodup := hall.identities
        rw [List.map_append] at hnodup
        exact (List.nodup_append.mp hnodup).1
      obtain ⟨s, hs⟩ := ih.1 hsub
      obtain ⟨-, hloop⟩ := ih.2 s hs
      obtain ⟨s', hs'⟩ := (hloop.consistent_step hsub).mpr hall
      exact ⟨s', by simp [hs, hs']⟩
    · intro s' hs'
      rw [bind_eq_some] at hs'
      obtain ⟨s, hs, hlast⟩ := hs'
      simp only [List.foldlM_cons, List.foldlM_nil, bind_pure] at hlast
      obtain ⟨hc, hloop⟩ := ih.2 s hs
      exact ⟨(hloop.consistent_step hc).mp ⟨s', hlast⟩, hloop.step hlast⟩

/-! ## Complete batches -/

variable [Platform]

theorem rangesIncrease_some {l : List (BlockKey × BlockKey)} {p : BlockKey}
    (hl : ∀ r ∈ l, r.1 ≤ r.2) :
    BatchCheck.rangesIncrease l (some p) = true ↔
      (∀ r ∈ l, p < r.1) ∧ l.Pairwise fun r t => r.2 < t.1 := by
  induction l generalizing p with
  | nil => simp [BatchCheck.rangesIncrease]
  | cons r l ih =>
    have htail := ih (p := r.2) fun t ht => hl t (List.mem_cons_of_mem r ht)
    rw [BatchCheck.rangesIncrease, Bool.and_eq_true, htail, List.pairwise_cons]
    have hr := hl r List.mem_cons_self
    simp only [Option.any_some, Bool.not_eq_true', decide_eq_false_iff_not, not_le]
    constructor
    · rintro ⟨hp, hafter, hpair⟩
      refine ⟨fun t ht => ?_, hafter, hpair⟩
      rcases List.mem_cons.mp ht with rfl | ht
      · exact hp
      · exact (hp.trans_le hr).trans (hafter t ht)
    · rintro ⟨hp, hafter, hpair⟩
      exact ⟨hp r List.mem_cons_self, hafter, hpair⟩

theorem rangesIncrease_none {l : List (BlockKey × BlockKey)} (hl : ∀ r ∈ l, r.1 ≤ r.2) :
    BatchCheck.rangesIncrease l none = true ↔ l.Pairwise fun r t => r.2 < t.1 := by
  cases l with
  | nil => simp [BatchCheck.rangesIncrease]
  | cons r l =>
    have htail := rangesIncrease_some (p := r.2) fun t ht => hl t (List.mem_cons_of_mem r ht)
    rw [BatchCheck.rangesIncrease, Bool.and_eq_true, htail, List.pairwise_cons]
    simp

/-- What a list of references has to satisfy, besides being consistent: every batch has all its
chunks, in increasing key ranges. -/
structure ValidBatches (objects : List ObjectRef) : Prop extends Consistent objects where
  complete : ∀ o ∈ objects, ∀ i < o.chunkCount.toNat, ∃ p ∈ objects,
    p.batchKey = o.batchKey ∧ p.chunkIndex.toNat = i
  ranges : ∀ o ∈ objects, ∀ p ∈ objects, o.batchKey = p.batchKey → o.chunkIndex < p.chunkIndex →
    o.lastKey < p.firstKey

/-- Complete batches, and no chunks beyond those they have. -/
structure ExactBatches (objects : List ObjectRef) : Prop extends ValidBatches objects where
  index_lt : ∀ o ∈ objects, o.chunkIndex < o.chunkCount

section Batch

variable {objects : List ObjectRef} {s : ValidateState} {key : ObjectIdentity ×ₗ Nat}
  {b : BatchCheck}

omit [Platform] in
theorem LoopState.chunkCount_eq (hs : LoopState objects s) (hget : s.batches[key]? = some b)
    {o : ObjectRef} (ho : o ∈ objects) (hkey : o.batchKey = key) : b.chunkCount = o.chunkCount :=
  congrArg Prod.fst (hs.fields key b hget o ho hkey)

omit [Platform] in
/-- When each index was seen, the chunks seen of a batch are as many as it has exactly when there
are no others. -/
theorem LoopState.size_chunks_iff (hs : LoopState objects s) (hget : s.batches[key]? = some b)
    (hall : ∀ i < b.chunkCount.toNat, ∃ p ∈ objects, p.batchKey = key ∧ p.chunkIndex.toNat = i) :
    b.chunks.size = b.chunkCount.toNat ↔
      ∀ p ∈ objects, p.batchKey = key → p.chunkIndex < p.chunkCount := by
  have hnodup : (b.chunks.toList.map Prod.fst).Nodup :=
    List.pairwise_map.mpr ((Maps.pairwise_toList b.chunks).imp fun h => h.ne)
  have hmem : ∀ i, i ∈ b.chunks.toList.map Prod.fst ↔
      ∃ p ∈ objects, p.batchKey = key ∧ p.chunkIndex.toNat = i := by
    intro i
    simp only [List.mem_map, Prod.exists, ExtTreeMap.mem_toList_iff_getElem?_eq_some,
      hs.chunks key b hget]
    constructor
    · rintro ⟨j, first, last, ⟨p, hp, hkey, hindex, -⟩, rfl⟩
      exact ⟨p, hp, hkey, hindex⟩
    · rintro ⟨p, hp, hkey, hindex⟩
      exact ⟨i, _, _, ⟨p, hp, hkey, hindex, rfl⟩, rfl⟩
  have hsub : List.range b.chunkCount.toNat ⊆ b.chunks.toList.map Prod.fst :=
    fun i hi => (hmem i).mpr (hall i (List.mem_range.mp hi))
  rw [← ExtTreeMap.length_toList, ← List.length_map Prod.fst]
  constructor
  · intro hsize p hp hkey
    have hperm := (List.subperm_of_subset List.nodup_range hsub).perm_of_length_le
      (by rw [hsize, List.length_range])
    have hindex := hperm.mem_iff.mpr ((hmem _).mpr ⟨p, hp, hkey, rfl⟩)
    rw [List.mem_range, hs.chunkCount_eq hget hp hkey] at hindex
    exact UInt32.lt_iff_toNat_lt.mpr hindex
  · intro hlt
    have hperm := (List.perm_ext_iff_of_nodup hnodup List.nodup_range).mpr fun i => by
      refine ⟨fun hi => ?_, @hsub i⟩
      obtain ⟨p, hp, hkey, rfl⟩ := (hmem i).mp hi
      rw [List.mem_range, hs.chunkCount_eq hget hp hkey]
      exact UInt32.lt_iff_toNat_lt.mp (hlt p hp hkey)
    rw [hperm.length_eq, List.length_range]

/-- The ranges in index order increase. -/
theorem LoopState.rangesIncrease_iff (hs : LoopState objects s) (hget : s.batches[key]? = some b)
    (hk : ∀ o ∈ objects, o.firstKey ≤ o.lastKey) :
    BatchCheck.rangesIncrease (b.chunks.toList.map Prod.snd) none = true ↔
      ∀ o ∈ objects, ∀ p ∈ objects, o.batchKey = key → p.batchKey = key →
        o.chunkIndex < p.chunkIndex → o.lastKey < p.firstKey := by
  have hrange : ∀ r ∈ b.chunks.toList.map Prod.snd, r.1 ≤ r.2 := by
    intro r hr
    obtain ⟨⟨i, r⟩, hmem, rfl⟩ := List.mem_map.mp hr
    rw [ExtTreeMap.mem_toList_iff_getElem?_eq_some, hs.chunks key b hget] at hmem
    obtain ⟨p, hp, -, -, rfl⟩ := hmem
    exact hk p hp
  rw [rangesIncrease_none hrange, List.pairwise_map, Maps.pairwise_toList_iff]
  constructor
  · intro h o ho p hp hok hpk hlt
    have hmo := (hs.chunks key b hget _ _).mpr ⟨o, ho, hok, rfl, rfl⟩
    have hmp := (hs.chunks key b hget _ _).mpr ⟨p, hp, hpk, rfl, rfl⟩
    exact h _ _ _ _ hmo hmp (UInt32.lt_iff_toNat_lt.mp hlt)
  · intro h i r j t hi hj hlt
    obtain ⟨o, ho, hok, rfl, rfl⟩ := (hs.chunks key b hget _ _).mp hi
    obtain ⟨p, hp, hpk, rfl, rfl⟩ := (hs.chunks key b hget _ _).mp hj
    exact h o ho p hp hok hpk (UInt32.lt_iff_toNat_lt.mpr hlt)

/-- **A batch passes the check when its chunks are there, in increasing ranges.** -/
theorem LoopState.complete_iff (hs : LoopState objects s) (hget : s.batches[key]? = some b)
    (hk : ∀ o ∈ objects, o.firstKey ≤ o.lastKey) :
    b.complete = true ↔
      ((∀ i < b.chunkCount.toNat, ∃ p ∈ objects, p.batchKey = key ∧ p.chunkIndex.toNat = i) ∧
        ∀ p ∈ objects, p.batchKey = key → p.chunkIndex < p.chunkCount) ∧
      ∀ o ∈ objects, ∀ p ∈ objects, o.batchKey = key → p.batchKey = key →
        o.chunkIndex < p.chunkIndex → o.lastKey < p.firstKey := by
  have hcontains : (List.range b.chunkCount.toNat).all (fun i => b.chunks.contains i) = true ↔
      ∀ i < b.chunkCount.toNat, ∃ p ∈ objects, p.batchKey = key ∧ p.chunkIndex.toNat = i := by
    simp only [List.all_eq_true, List.mem_range, ExtTreeMap.contains_eq_isSome_getElem?,
      Option.isSome_iff_exists, hs.chunks key b hget]
    refine forall₂_congr fun i _ => ⟨?_, ?_⟩
    · rintro ⟨r, p, hp, hkey, hindex, -⟩
      exact ⟨p, hp, hkey, hindex⟩
    · rintro ⟨p, hp, hkey, hindex⟩
      exact ⟨_, p, hp, hkey, hindex, rfl⟩
  rw [BatchCheck.complete, Bool.and_eq_true, Bool.and_eq_true, hcontains,
    hs.rangesIncrease_iff hget hk, beq_iff_eq, and_comm (a := b.chunks.size = _)]
  exact and_congr_left fun _ => and_congr_right fun hall => hs.size_chunks_iff hget hall

end Batch

/-- **The validation accepts exactly the lists of complete batches** that do not overlap too much. -/
theorem validateObjects_iff (limit : Option Nat) (hk : ∀ o ∈ objects, o.firstKey ≤ o.lastKey) :
    validateObjects objects limit = true ↔ ExactBatches objects ∧ Sweep.sweep limit
      (Sweep.events (objects.map fun o => (o.firstKey, o.lastKey))).toList 0 = some 0 := by
  rw [validateObjects]
  cases hloop : objects.foldlM validateObject ⟨∅, ∅⟩ with
  | none =>
    simp only [Bool.false_eq_true, false_iff]
    rintro ⟨hvalid, -⟩
    obtain ⟨s, hs⟩ := (foldlM_validateObject objects).1 hvalid.toConsistent
    rw [hloop] at hs
    cases hs
  | some s =>
    obtain ⟨hc, hs⟩ := (foldlM_validateObject objects).2 s hloop
    simp only [Bool.and_eq_true, beq_iff_eq, List.all_eq_true, Prod.forall,
      ExtTreeMap.mem_toList_iff_getElem?_eq_some]
    refine and_congr_left fun _ => ?_
    constructor
    · intro h
      have hbatch : ∀ o ∈ objects, ∃ b, s.batches[o.batchKey]? = some b := by
        intro o ho
        cases hget : s.batches[o.batchKey]? with
        | none => exact absurd rfl (hs.absent _ hget o ho)
        | some b => exact ⟨b, rfl⟩
      refine ⟨⟨hc, fun o ho i hi => ?_, fun o ho p hp hkey hlt => ?_⟩, fun o ho => ?_⟩
      · obtain ⟨b, hget⟩ := hbatch o ho
        rw [← hs.chunkCount_eq hget ho rfl] at hi
        exact ((hs.complete_iff hget hk).mp (h _ b hget)).1.1 i hi
      · obtain ⟨b, hget⟩ := hbatch p hp
        exact ((hs.complete_iff hget hk).mp (h _ b hget)).2 o ho p hp hkey rfl hlt
      · obtain ⟨b, hget⟩ := hbatch o ho
        exact ((hs.complete_iff hget hk).mp (h _ b hget)).1.2 o ho rfl
    · intro hvalid key b hget
      obtain ⟨o, ho, rfl⟩ := hs.present key b hget
      refine (hs.complete_iff hget hk).mpr ⟨⟨fun i hi => ?_, fun p hp _ => hvalid.index_lt p hp⟩,
        fun p hp q hq hpk hqk hlt => hvalid.ranges p hp q hq (hpk.trans hqk.symm) hlt⟩
      rw [hs.chunkCount_eq hget ho rfl] at hi
      exact hvalid.complete o ho i hi

/-- References that were decoded have no chunk beyond those of its batch. -/
theorem exactBatches_iff (hw : ∀ o ∈ objects, o.WellFormed) :
    ExactBatches objects ↔ ValidBatches objects :=
  ⟨fun h => h.toValidBatches, fun h => ⟨h, fun o ho => (hw o ho).2.2.1⟩⟩

/-- **Without an overlap limit the validation accepts exactly the lists of complete batches.** -/
theorem validateObjects_none_iff (hw : ∀ o ∈ objects, o.WellFormed) :
    validateObjects objects none = true ↔ ValidBatches objects := by
  have hsweep : Sweep.sweep none
      (Sweep.events (objects.map fun o => (o.firstKey, o.lastKey))).toList 0 = some 0 := by
    refine Sweep.sweep_events fun i hi => ?_
    obtain ⟨o, ho, rfl⟩ := List.mem_map.mp hi
    exact (hw o ho).2.2.2.1
  rw [validateObjects_iff none fun o ho => (hw o ho).2.2.2.1, and_iff_left hsweep,
    exactBatches_iff hw]

/-- **Within the overlap limit the validation accepts the lists of complete batches no key of which
is in too many ranges.** -/
theorem validateObjectRefs_iff (hw : ∀ o ∈ objects, o.WellFormed) :
    validateObjectRefs objects = true ↔ ValidBatches objects ∧
      ∀ o ∈ objects, ∀ k, o.firstKey = k ∨ o.lastKey = k →
        Sweep.depth (objects.map fun o => (o.firstKey, o.lastKey)) k ≤ maxOverlappingFiles := by
  have hle : ∀ i ∈ objects.map fun o => (o.firstKey, o.lastKey), i.1 ≤ i.2 := by
    intro i hi
    obtain ⟨o, ho, rfl⟩ := List.mem_map.mp hi
    exact (hw o ho).2.2.2.1
  rw [validateObjectRefs, validateObjects_iff _ fun o ho => (hw o ho).2.2.2.1,
    Sweep.sweep_limit_iff hle, exactBatches_iff hw]
  simp only [List.forall_mem_map]

/-! ## Taking batches out -/

section Closed

variable {objects objects' : List ObjectRef}

/-- Some of the batches of a list, in any order. -/
theorem ValidBatches.of_closed (h : ValidBatches objects) (hsub : ∀ o ∈ objects', o ∈ objects)
    (hnodup : (objects'.map ObjectRef.identity).Nodup)
    (hclosed : ∀ o ∈ objects', ∀ p ∈ objects, p.batchKey = o.batchKey → p ∈ objects') :
    ValidBatches objects' := by
  refine ⟨⟨hnodup, fun o ho p hp => h.fields o (hsub o ho) p (hsub p hp), ?_⟩, ?_, ?_⟩
  · have : Std.Symm fun o p : ObjectRef => o.batchKey = p.batchKey → o.chunkIndex ≠ p.chunkIndex :=
      ⟨fun _ _ hne hkey => (hne hkey.symm).symm⟩
    refine (List.pairwise_map.mp hnodup).imp_of_mem fun {o p} ho hp hne => ?_
    exact h.indexes.forall (hsub o ho) (hsub p hp) fun heq => hne (congrArg _ heq)
  · intro o ho i hi
    obtain ⟨p, hp, hkey, hindex⟩ := h.complete o (hsub o ho) i hi
    exact ⟨p, hclosed o ho p hp hkey, hkey, hindex⟩
  · exact fun o ho p hp => h.ranges o (hsub o ho) p (hsub p hp)

/-- **Some of the batches of a valid list are valid**, in any order. -/
theorem validateObjectRefs_of_closed (hw : ∀ o ∈ objects, o.WellFormed)
    (h : validateObjectRefs objects = true) (hsub : ∀ o ∈ objects', o ∈ objects)
    (hnodup : (objects'.map ObjectRef.identity).Nodup)
    (hclosed : ∀ o ∈ objects', ∀ p ∈ objects, p.batchKey = o.batchKey → p ∈ objects') :
    validateObjectRefs objects' = true := by
  rw [validateObjectRefs_iff fun o ho => hw o (hsub o ho)]
  obtain ⟨hvalid, hdepth⟩ := (validateObjectRefs_iff hw).mp h
  refine ⟨hvalid.of_closed hsub hnodup hclosed, fun o ho k hk => ?_⟩
  -- the ranges are among those of the whole list
  have hfew : List.Subperm objects' objects := List.subperm_of_subset hnodup.of_map hsub
  refine le_trans ?_ (hdepth o (hsub o ho) k hk)
  simp only [Sweep.depth, List.countP_map]
  exact hfew.countP_le _

end Closed

end Blockd
