import Mathlib
import Blockd.Lib.Maps

/-!
# Sweeping over closed intervals

A list of closed intervals over a linear order is turned into one event per end point, holding how
many intervals start and end there, and the events are walked in order with a running count of the
open intervals.  An interval that ends at a key still overlaps one that starts there: starts are
added before ends are taken away.

`sweep_events` is the sanity of the walk: on intervals whose ends are in order the count never
drops below zero and comes back to zero.  `sweep_limit_iff` says what a limit refuses: an end point
that more intervals hold.
-/

set_option autoImplicit false

open Std (ExtTreeMap)

namespace Sweep

variable {κ : Type} [LinearOrder κ]

/-- Count one more interval that starts at `k`. -/
def addStart (m : ExtTreeMap κ (Nat × Nat)) (k : κ) : ExtTreeMap κ (Nat × Nat) :=
  let old := (m[k]?).getD (0, 0)
  m.insert k (old.1 + 1, old.2)

/-- Count one more interval that ends at `k`. -/
def addEnd (m : ExtTreeMap κ (Nat × Nat)) (k : κ) : ExtTreeMap κ (Nat × Nat) :=
  let old := (m[k]?).getD (0, 0)
  m.insert k (old.1, old.2 + 1)

/-- How many intervals start and end at each end point. -/
def events (intervals : List (κ × κ)) : ExtTreeMap κ (Nat × Nat) :=
  intervals.foldl (fun m i => addEnd (addStart m i.1) i.2) ∅

/-- Walk the events in order.  Refuses when more than `limit` intervals are open at once, or when
more end than are open. -/
def sweep (limit : Option Nat) : List (κ × Nat × Nat) → Nat → Option Nat
  | [], overlapping => some overlapping
  | (_, starts, ends) :: rest, overlapping =>
    if limit.any (fun maximum => maximum < overlapping + starts) ∨ overlapping + starts < ends then
      none
    else sweep limit rest (overlapping + starts - ends)

/-! ## What the events count -/

/-- The number of intervals that start at `k`, and of those that end there. -/
def counts (intervals : List (κ × κ)) (k : κ) : Nat × Nat :=
  (intervals.countP fun i => i.1 = k, intervals.countP fun i => i.2 = k)

theorem getElem?_step (m : ExtTreeMap κ (Nat × Nat)) (a b k : κ) :
    (addEnd (addStart m a) b)[k]? =
      if a = k ∨ b = k then
        some (((m[k]?).getD (0, 0)).1 + (if a = k then 1 else 0),
          ((m[k]?).getD (0, 0)).2 + (if b = k then 1 else 0))
      else m[k]? := by
  rw [addEnd, addStart]
  simp only [Maps.getElem?_insert]
  by_cases ha : a = k
  · subst ha
    by_cases hb : b = a
    · simp [hb]
    · simp [hb]
  · by_cases hb : b = k
    · subst hb
      simp [ha]
    · simp [ha, hb]

/-- **The events are the end points with their counts.** -/
theorem getElem?_events (intervals : List (κ × κ)) (k : κ) :
    (events intervals)[k]? =
      if ∃ i ∈ intervals, i.1 = k ∨ i.2 = k then some (counts intervals k) else none := by
  induction intervals using List.reverseRecOn with
  | nil => simp [events]
  | append_singleton intervals i ih =>
    have hcounts : counts (intervals ++ [i]) k =
        ((counts intervals k).1 + (if i.1 = k then 1 else 0),
          (counts intervals k).2 + (if i.2 = k then 1 else 0)) := by
      simp [counts, List.countP_append, List.countP_singleton]
    have hzero : (¬ ∃ i ∈ intervals, i.1 = k ∨ i.2 = k) → counts intervals k = (0, 0) := by
      intro hno
      simp only [counts, Prod.mk.injEq, List.countP_eq_zero, decide_eq_true_eq]
      exact ⟨fun j hj h => hno ⟨j, hj, .inl h⟩, fun j hj h => hno ⟨j, hj, .inr h⟩⟩
    rw [events, List.foldl_append, List.foldl_cons, List.foldl_nil, getElem?_step, ← events, ih,
      hcounts]
    by_cases hold : ∃ i ∈ intervals, i.1 = k ∨ i.2 = k
    · rw [if_pos hold, Option.getD_some]
      have hnew : ∃ j ∈ intervals ++ [i], j.1 = k ∨ j.2 = k := by
        obtain ⟨j, hj, h⟩ := hold
        exact ⟨j, List.mem_append_left _ hj, h⟩
      rw [if_pos hnew]
      split
      · rfl
      · rename_i hne
        rw [not_or] at hne
        simp [hne.1, hne.2]
    · rw [if_neg hold, Option.getD_none, hzero hold]
      by_cases hi : i.1 = k ∨ i.2 = k
      · have hnew : ∃ j ∈ intervals ++ [i], j.1 = k ∨ j.2 = k := ⟨i, by simp, hi⟩
        rw [if_pos hi, if_pos hnew]
      · rw [if_neg hi, if_neg]
        rintro ⟨j, hj, h⟩
        rcases List.mem_append.mp hj with hj | hj
        · exact hold ⟨j, hj, h⟩
        · exact hi (List.mem_singleton.mp hj ▸ h)

/-! ## The walk -/

omit [LinearOrder κ] in
/-- With no limit, a walk along which the starts always cover the ends goes through. -/
theorem sweep_of_prefixes {evs : List (κ × Nat × Nat)} {overlapping : Nat}
    (h : ∀ n, ((evs.take n).map fun e => e.2.2).sum ≤
      overlapping + ((evs.take n).map fun e => e.2.1).sum) :
    sweep none evs overlapping = some (overlapping + (evs.map fun e => e.2.1).sum -
      (evs.map fun e => e.2.2).sum) := by
  induction evs generalizing overlapping with
  | nil => simp [sweep]
  | cons e evs ih =>
    obtain ⟨k, starts, ends⟩ := e
    have h1 := h 1
    simp only [List.take_succ_cons, List.take_zero, List.map_cons, List.map_nil, List.sum_cons,
      List.sum_nil, Nat.add_zero] at h1
    rw [sweep, if_neg (by simpa using h1), ih fun n => ?_]
    · simp only [List.map_cons, List.sum_cons, Option.some.injEq]
      have := h (evs.length + 1)
      simp only [List.take_succ_cons, List.take_length, List.map_cons, List.sum_cons] at this
      omega
    · have := h (n + 1)
      simp only [List.take_succ_cons, List.map_cons, List.sum_cons] at this
      omega

theorem sum_indicator (x : κ) {ks : List κ} (hks : ks.Nodup) :
    (ks.map fun k => if x = k then 1 else 0).sum = if x ∈ ks then 1 else 0 := by
  induction ks with
  | nil => simp
  | cons k ks ih =>
    obtain ⟨hk, hks⟩ := List.nodup_cons.mp hks
    rw [List.map_cons, List.sum_cons, ih hks]
    by_cases hx : x = k
    · simp [hx, hk]
    · simp [hx]

/-- Summing the counts over distinct keys counts the intervals with an end among them. -/
theorem sum_countP {α : Type} (f : α → κ) (l : List α) {ks : List κ} (hks : ks.Nodup) :
    (ks.map fun k => l.countP fun a => f a = k).sum = l.countP fun a => f a ∈ ks := by
  induction l with
  | nil => simp
  | cons a l ih =>
    have hstep : (ks.map fun k => (a :: l).countP fun a => f a = k) =
        ks.map fun k => (l.countP fun a => f a = k) + if f a = k then 1 else 0 := by
      simp [List.countP_cons]
    rw [hstep, List.sum_map_add, ih, sum_indicator (f a) hks, List.countP_cons]
    simp

variable {intervals : List (κ × κ)}

theorem value_of_mem_events {e : κ × Nat × Nat} (he : e ∈ (events intervals).toList) :
    e.2 = counts intervals e.1 := by
  have hget := ExtTreeMap.mem_toList_iff_getElem?_eq_some.mp he
  rw [getElem?_events] at hget
  split at hget
  · exact (Option.some.inj hget).symm
  · cases hget

/-- Every end point has an event. -/
theorem mem_keys_events {i : κ × κ} (hi : i ∈ intervals) {k : κ} (hk : i.1 = k ∨ i.2 = k) :
    k ∈ (events intervals).toList.map Prod.fst := by
  have hget := getElem?_events intervals k
  rw [if_pos ⟨i, hi, hk⟩] at hget
  exact List.mem_map.mpr ⟨_, ExtTreeMap.mem_toList_iff_getElem?_eq_some.mpr hget, rfl⟩

/-- Some of the events count the intervals that start, and those that end, at their keys. -/
theorem sums_of_sublist {d : List (κ × Nat × Nat)} (hd : d.Sublist (events intervals).toList) :
    (d.map fun e => e.2.1).sum = intervals.countP (fun i => i.1 ∈ d.map Prod.fst) ∧
      (d.map fun e => e.2.2).sum = intervals.countP (fun i => i.2 ∈ d.map Prod.fst) := by
  have hnodup : (d.map Prod.fst).Nodup :=
    List.pairwise_map.mpr (((Maps.pairwise_toList _).sublist hd).imp fun hlt => hlt.ne)
  rw [← sum_countP Prod.fst intervals hnodup, ← sum_countP Prod.snd intervals hnodup,
    List.map_map, List.map_map]
  constructor <;> refine congrArg List.sum (List.map_congr_left fun e he => ?_) <;>
    rw [value_of_mem_events (hd.mem he)] <;> rfl

/-- The keys of the events before one and of that one are the keys up to it. -/
theorem mem_keys_of_split {before after : List (κ × Nat × Nat)} {e : κ × Nat × Nat}
    (hsplit : (events intervals).toList = before ++ e :: after) {k : κ}
    (hk : k ∈ (events intervals).toList.map Prod.fst) :
    (k ∈ before.map Prod.fst ↔ k < e.1) ∧ (k ∈ (before ++ [e]).map Prod.fst ↔ k ≤ e.1) := by
  have hsorted := Maps.pairwise_toList (events intervals)
  rw [hsplit, List.pairwise_append, List.pairwise_cons] at hsorted
  obtain ⟨-, ⟨hafter, -⟩, hbefore⟩ := hsorted
  have hlt : k ∈ before.map Prod.fst → k < e.1 := by
    intro hmem
    obtain ⟨d, hd, rfl⟩ := List.mem_map.mp hmem
    exact hbefore d hd e List.mem_cons_self
  have hgt : k ∈ after.map Prod.fst → e.1 < k := by
    intro hmem
    obtain ⟨d, hd, rfl⟩ := List.mem_map.mp hmem
    exact hafter d hd
  rw [hsplit, List.map_append, List.map_cons, List.mem_append, List.mem_cons] at hk
  rw [List.map_append, List.map_cons, List.map_nil, List.mem_append, List.mem_singleton]
  rcases hk with hk | rfl | hk
  · exact ⟨iff_of_true hk (hlt hk), iff_of_true (.inl hk) (hlt hk).le⟩
  · exact ⟨⟨hlt, fun h => absurd h (lt_irrefl _)⟩, iff_of_true (.inr rfl) le_rfl⟩
  · refine ⟨iff_of_false (fun h => (hlt h).not_gt (hgt hk)) (hgt hk).not_gt,
      iff_of_false ?_ (hgt hk).not_ge⟩
    rintro (h | rfl)
    · exact (hlt h).not_gt (hgt hk)
    · exact lt_irrefl _ (hgt hk)

/-- **The sweep of well-ordered intervals ends with nothing open.** -/
theorem sweep_events (h : ∀ i ∈ intervals, i.1 ≤ i.2) :
    sweep none (events intervals).toList 0 = some 0 := by
  -- the keys met so far are closed downwards, so an interval that has ended has started
  have hprefix : ∀ n, (((events intervals).toList.take n).map fun e => e.2.2).sum ≤
      0 + (((events intervals).toList.take n).map fun e => e.2.1).sum := by
    intro n
    obtain ⟨h1, h2⟩ := sums_of_sublist (List.take_sublist n (events intervals).toList)
    rw [h1, h2, Nat.zero_add]
    refine List.countP_mono_left fun i hi hlast => ?_
    rw [decide_eq_true_eq] at hlast ⊢
    have hfirst := mem_keys_events hi (.inl rfl)
    rw [← List.take_append_drop n (events intervals).toList, List.map_append,
      List.mem_append] at hfirst
    rcases hfirst with hfirst | hfirst
    · exact hfirst
    · obtain ⟨e, he, hee⟩ := List.mem_map.mp hlast
      obtain ⟨f, hf, hff⟩ := List.mem_map.mp hfirst
      have hsorted := Maps.pairwise_toList (events intervals)
      rw [← List.take_append_drop n (events intervals).toList, List.pairwise_append] at hsorted
      have hlt := hsorted.2.2 e he f hf
      rw [hee, hff] at hlt
      exact absurd (h i hi) hlt.not_ge
  have htotal := sums_of_sublist (List.Sublist.refl (events intervals).toList)
  rw [sweep_of_prefixes hprefix, htotal.1, htotal.2,
    List.countP_eq_length.mpr fun i hi => decide_eq_true (mem_keys_events hi (.inl rfl)),
    List.countP_eq_length.mpr fun i hi => decide_eq_true (mem_keys_events hi (.inr rfl)),
    Nat.zero_add, Nat.sub_self]

/-! ## The limit -/

/-- The number of intervals that hold `k`. -/
def depth (intervals : List (κ × κ)) (k : κ) : Nat :=
  intervals.countP fun i => i.1 ≤ k ∧ k ≤ i.2

omit [LinearOrder κ] in
/-- A walk with a limit is one without, whose counts stay below the limit. -/
theorem sweep_some_iff {evs : List (κ × Nat × Nat)} {limit n r : Nat} :
    sweep (some limit) evs n = some r ↔ sweep none evs n = some r ∧
      ∀ before e after, evs = before ++ e :: after →
        n + (before.map fun e => e.2.1).sum + e.2.1 ≤ limit + (before.map fun e => e.2.2).sum := by
  induction evs generalizing n with
  | nil => simp [sweep]
  | cons e evs ih =>
    obtain ⟨k, starts, ends⟩ := e
    simp only [sweep, Option.any_some, Option.any_none, decide_eq_true_eq, Bool.false_eq_true,
      false_or]
    by_cases hends : n + starts < ends
    · rw [if_pos (.inr hends), if_pos hends]
      simp
    by_cases hlimit : limit < n + starts
    · rw [if_pos (.inl hlimit), if_neg hends]
      refine iff_of_false nofun fun h => ?_
      have := h.2 [] _ _ rfl
      simp only [List.map_nil, List.sum_nil, Nat.add_zero] at this
      omega
    rw [if_neg (by simp [hlimit, hends]), if_neg hends, ih]
    refine and_congr_right fun _ => ⟨fun h before e after hsplit => ?_, fun h before e after hsplit => ?_⟩
    · match before with
      | [] =>
        obtain ⟨rfl, -⟩ := List.cons.inj hsplit
        simp only [List.map_nil, List.sum_nil, Nat.add_zero]
        omega
      | _ :: before =>
        obtain ⟨rfl, hrest⟩ := List.cons.inj hsplit
        have := h before e after hrest
        simp only [List.map_cons, List.sum_cons]
        omega
    · have := h ((k, starts, ends) :: before) e after (by rw [hsplit, List.cons_append])
      simp only [List.map_cons, List.sum_cons] at this
      omega

/-- Of the intervals that start up to `k`, some hold it and the rest have ended. -/
theorem countP_split (intervals : List (κ × κ)) (k : κ) :
    (intervals.countP fun i => i.1 ≤ k) = (intervals.countP fun i => i.1 ≤ k ∧ k ≤ i.2) +
      intervals.countP fun i => i.1 ≤ k ∧ i.2 < k := by
  induction intervals with
  | nil => rfl
  | cons i intervals ih =>
    simp only [List.countP_cons, ih, decide_eq_true_eq]
    by_cases hlt : i.2 < k
    · simp only [hlt, hlt.not_ge, and_false, and_true, if_false]
      omega
    · simp only [hlt, not_lt.mp hlt, and_false, and_true, if_false]
      omega

/-- **The limit bounds how many intervals hold an end point.** -/
theorem sweep_limit_iff {limit : Nat} (h : ∀ i ∈ intervals, i.1 ≤ i.2) :
    sweep (some limit) (events intervals).toList 0 = some 0 ↔
      ∀ i ∈ intervals, ∀ k, i.1 = k ∨ i.2 = k → depth intervals k ≤ limit := by
  rw [sweep_some_iff, and_iff_right (sweep_events h)]
  -- at an event, those that have started and have not ended hold its key
  have hdepth : ∀ before e after, (events intervals).toList = before ++ e :: after →
      (before.map fun e => e.2.1).sum + e.2.1 =
        depth intervals e.1 + (before.map fun e => e.2.2).sum := by
    intro before e after hsplit
    have hsub : (before ++ [e]).Sublist (events intervals).toList := by
      rw [hsplit, List.append_cons before e after]
      exact List.sublist_append_left _ _
    have hstarts := (sums_of_sublist hsub).1
    have hended := (sums_of_sublist ((List.sublist_append_left _ _).trans hsub)).2
    rw [List.map_append, List.sum_append, List.map_singleton, List.sum_singleton] at hstarts
    rw [hstarts, hended]
    have hfirst : intervals.countP (fun i => i.1 ∈ (before ++ [e]).map Prod.fst) =
        intervals.countP fun i => i.1 ≤ e.1 :=
      List.countP_congr fun i hi => by
        simpa only [decide_eq_true_eq] using (mem_keys_of_split hsplit (mem_keys_events hi (.inl rfl))).2
    have hlast : intervals.countP (fun i => i.2 ∈ before.map Prod.fst) =
        intervals.countP fun i => i.1 ≤ e.1 ∧ i.2 < e.1 :=
      List.countP_congr fun i hi => by
        simp only [decide_eq_true_eq]
        rw [(mem_keys_of_split hsplit (mem_keys_events hi (.inr rfl))).1]
        exact ⟨fun hlt => ⟨(h i hi).trans hlt.le, hlt⟩, And.right⟩
    rw [hfirst, hlast, depth, countP_split]
  refine ⟨fun hall i hi k hk => ?_, fun hall before e after hsplit => ?_⟩
  · obtain ⟨e, he, rfl⟩ := List.mem_map.mp (mem_keys_events hi hk)
    obtain ⟨before, after, hsplit⟩ := List.append_of_mem he
    have := hdepth before e after hsplit
    have := hall before e after hsplit
    omega
  · have he : e ∈ (events intervals).toList := by
      rw [hsplit]
      exact List.mem_append_right _ List.mem_cons_self
    have hget := ExtTreeMap.mem_toList_iff_getElem?_eq_some.mp he
    rw [getElem?_events, Option.ite_none_right_eq_some] at hget
    obtain ⟨⟨i, hi, hk⟩, -⟩ := hget
    have := hdepth before e after hsplit
    have := hall i hi e.1 hk
    omega

/-- As many intervals as hold `k` hold the last start up to it. -/
theorem exists_depth_le {k : κ} (h : 0 < depth intervals k) :
    ∃ i ∈ intervals, depth intervals k ≤ depth intervals i.1 := by
  obtain ⟨i, hi, hk⟩ := List.countP_pos_iff.mp h
  have hne : (intervals.filter fun i => decide (i.1 ≤ k)).toFinset.Nonempty :=
    ⟨i, List.mem_toFinset.mpr (List.mem_filter.mpr ⟨hi, decide_eq_true (of_decide_eq_true hk).1⟩)⟩
  obtain ⟨j, hj, hmax⟩ := Finset.exists_max_image _ Prod.fst hne
  simp only [List.mem_toFinset, List.mem_filter, decide_eq_true_eq] at hj hmax
  refine ⟨j, hj.1, List.countP_mono_left fun m hm hmk => ?_⟩
  rw [decide_eq_true_eq] at hmk ⊢
  exact ⟨hmax m ⟨hm, hmk.1⟩, hj.2.trans hmk.2⟩

/-- A limit at the starts is a limit everywhere. -/
theorem depth_le_iff {limit : Nat} :
    (∀ k, depth intervals k ≤ limit) ↔ ∀ i ∈ intervals, depth intervals i.1 ≤ limit := by
  refine ⟨fun h i _ => h i.1, fun h k => ?_⟩
  rcases (depth intervals k).eq_zero_or_pos with hzero | hpos
  · omega
  · obtain ⟨i, hi, hle⟩ := exists_depth_le hpos
    exact hle.trans (h i hi)

/-- **The limit bounds how many intervals hold a key.** -/
theorem sweep_iff {limit : Option Nat} (h : ∀ i ∈ intervals, i.1 ≤ i.2) :
    sweep limit (events intervals).toList 0 = some 0 ↔
      ∀ n ∈ limit, ∀ k, depth intervals k ≤ n := by
  cases limit with
  | none => simpa using sweep_events h
  | some n =>
    rw [sweep_limit_iff h]
    simp only [Option.mem_def, Option.some.injEq, forall_eq']
    exact ⟨fun hall => depth_le_iff.mpr fun i hi => hall i hi _ (.inl rfl), fun hall _ _ k _ => hall k⟩

/-! ## The maximum -/

/-- The largest number of intervals that are open at once on a walk. -/
def maximum (evs : List (κ × Nat × Nat)) (start : Nat × Nat) : Nat :=
  (evs.foldl (fun (overlapping, maximum) (_, starts, ends) =>
    (overlapping + starts - ends, max maximum (overlapping + starts))) start).2

omit [LinearOrder κ] in
theorem maximum_le_iff {evs : List (κ × Nat × Nat)} {n m limit r : Nat}
    (h : sweep none evs n = some r) :
    maximum evs (n, m) ≤ limit ↔ m ≤ limit ∧ sweep (some limit) evs n = some r := by
  induction evs generalizing n m with
  | nil => simpa [maximum, sweep] using fun _ => h
  | cons e evs ih =>
    obtain ⟨k, starts, ends⟩ := e
    simp only [sweep, Option.any_none, Bool.false_eq_true, false_or] at h
    split at h
    · cases h
    · rename_i hends
      have hrest := ih (m := max m (n + starts)) h
      simp only [sweep, Option.any_some, decide_eq_true_eq, hends, or_false]
      refine hrest.trans ?_
      split
      · simp
        omega
      · simp
        omega

end Sweep
