import Mathlib

/-!
# Which volume is worked on next

`state.rs` keeps the volumes that have work to do in an ordered set, with a cursor at the volume that
was taken last.  A take starts behind the cursor and wraps around, so a volume that is taken and
scheduled again comes behind those that wait.  From a volume's scheduling to its return, every other
volume is returned at most once, and the volume is returned as soon as the limits of the takes add
up to the number of volumes (`volume_scheduling`).

The identifiers of volumes enter through their order only.
-/

set_option autoImplicit false

namespace Blockd

variable {V : Type} [LinearOrder V]

/-- `scheduled_volumes` and `scheduled_cursor` of a host with these volumes. -/
structure Scheduler (V : Type) where
  volumes : Finset V
  scheduled : Finset V
  cursor : Option V
  subset : scheduled ⊆ volumes

namespace Scheduler

def scheduleVolume (s : Scheduler V) (volume : V) : Scheduler V :=
  if h : volume ∈ s.volumes then
    { s with
      scheduled := insert volume s.scheduled
      subset := Finset.insert_subset h s.subset }
  else s

/-- The scheduled volumes from the cursor on, and those up to it. -/
def order (s : Scheduler V) : List V :=
  match s.cursor with
  | some cursor =>
    (s.scheduled.filter (cursor < ·)).sort ++ (s.scheduled.filter (· ≤ cursor)).sort
  | none => s.scheduled.sort

def takeScheduledVolumes (s : Scheduler V) (limit : Nat) : List V × Scheduler V :=
  let selected := s.order.take limit
  (selected,
    { s with
      scheduled := s.scheduled \ selected.toFinset
      cursor := selected.getLast?.or s.cursor
      subset := Finset.sdiff_subset.trans s.subset })

inductive Call (V : Type) where
  | schedule (volume : V)
  | take (limit : Nat)
  deriving DecidableEq

/-- What the takes of a sequence of calls return, one after the other, and the state after them. -/
def run (s : Scheduler V) : List (Call V) → List V × Scheduler V
  | [] => ([], s)
  | .schedule volume :: calls => (s.scheduleVolume volume).run calls
  | .take limit :: calls =>
    let taken := s.takeScheduledVolumes limit
    let rest := taken.2.run calls
    (taken.1 ++ rest.1, rest.2)

/-- The limits of the takes. -/
def limits : List (Call V) → List Nat
  | [] => []
  | .schedule _ :: calls => limits calls
  | .take limit :: calls => limit :: limits calls

/-! ## The order from the cursor on -/

/-- Counting from behind the cursor and wrapping around, `u` comes before `v`. -/
def Comes (cursor : Option V) (u v : V) : Prop :=
  ((∀ c ∈ cursor, c < u) ∧ ∃ c ∈ cursor, v ≤ c) ∨
    ((∀ c ∈ cursor, c < u) ↔ ∀ c ∈ cursor, c < v) ∧ u < v

variable {s : Scheduler V} {cursor : Option V} {last u v : V} {limit : Nat}

/-- From the last one taken, no more volumes are ahead of one that was not yet reached. -/
theorem Comes.of_last (hlast : Comes cursor last v) (h : Comes (some last) u v) :
    Comes cursor u v := by
  cases cursor <;> simp [Comes] at * <;> grind

/-- What was taken up to the last one is not ahead any more. -/
theorem Comes.not_of_last (hlast : Comes cursor last v) (h : u = last ∨ Comes cursor u last) :
    ¬ Comes (some last) u v := by
  cases cursor <;> simp [Comes] at * <;> grind

theorem mem_order : v ∈ s.order ↔ v ∈ s.scheduled := by
  cases h : s.cursor with
  | none => simp [order, h]
  | some c =>
    simp only [order, h, List.mem_append, Finset.mem_sort, Finset.mem_filter, ← and_or_left,
      and_iff_left (lt_or_ge c v)]

theorem pairwise_order (s : Scheduler V) : s.order.Pairwise (Comes s.cursor) := by
  have hsorted (volumes : Finset V) : volumes.sort.Pairwise (· < ·) :=
    (Finset.sortedLT_sort volumes).pairwise
  cases h : s.cursor with
  | none =>
    simp only [order, h]
    refine (hsorted _).imp fun hlt => ?_
    simpa [Comes] using hlt
  | some c =>
    simp only [order, h]
    refine List.pairwise_append.mpr ⟨?_, ?_, fun a ha b hb => ?_⟩
    · refine (hsorted _).imp_of_mem fun ha hb hlt => ?_
      simp only [Finset.mem_sort, Finset.mem_filter] at ha hb
      simp [Comes, ha.2, hb.2, hlt]
    · refine (hsorted _).imp_of_mem fun ha hb hlt => ?_
      simp only [Finset.mem_sort, Finset.mem_filter] at ha hb
      simp [Comes, ha.2.not_gt, hb.2.not_gt, hlt]
    · simp only [Finset.mem_sort, Finset.mem_filter] at ha hb
      simp [Comes, ha.2, hb.2]

theorem Comes.ne (h : Comes cursor u v) : u ≠ v := by
  rintro rfl
  rcases h with ⟨hbehind, c, hc, hle⟩ | ⟨-, hlt⟩
  · exact (hbehind c hc).not_ge hle
  · exact lt_irrefl u hlt

theorem nodup_order (s : Scheduler V) : s.order.Nodup := s.pairwise_order.imp Comes.ne

/-! ## One take -/

omit [LinearOrder V] in
theorem takeWhile_ne [DecidableEq V] {taken : List V} (h : v ∉ taken) :
    taken.takeWhile (· ≠ v) = taken :=
  List.takeWhile_eq_self_iff.mpr fun _ hu => decide_eq_true fun heq => h (heq ▸ hu)

omit [LinearOrder V] in
theorem takeWhile_ne_append [DecidableEq V] {taken : List V} (h : v ∈ taken) (rest : List V) :
    (taken ++ rest).takeWhile (· ≠ v) = taken.takeWhile (· ≠ v) := by
  rw [List.takeWhile_append, if_neg]
  intro hlength
  rw [← (List.takeWhile_sublist _).eq_of_length hlength] at h
  simpa using List.mem_takeWhile_imp h

/-- What a take returns in front of a volume comes before it. -/
theorem comes_of_mem_takeWhile (hv : v ∈ s.scheduled)
    (hu : u ∈ (s.takeScheduledVolumes limit).1.takeWhile (· ≠ v)) : Comes s.cursor u v := by
  have hsplit : s.order = (s.order.take limit).takeWhile (· ≠ v) ++
      ((s.order.take limit).dropWhile (· ≠ v) ++ s.order.drop limit) := by
    rw [← List.append_assoc, List.takeWhile_append_dropWhile, List.take_append_drop]
  have hpairwise := s.pairwise_order
  have hmem := mem_order.mpr hv
  rw [hsplit] at hpairwise hmem
  refine (List.pairwise_append.mp hpairwise).2.2 u hu v ((List.mem_append.mp hmem).resolve_left ?_)
  intro hbefore
  simpa using List.mem_takeWhile_imp hbefore

section

variable (hv : v ∈ s.scheduled) (htaken : v ∉ (s.takeScheduledVolumes limit).1)

include hv htaken

/-- A take that does not reach a volume returns as many others as it may. -/
theorem length_take : (s.takeScheduledVolumes limit).1.length = limit := by
  refine List.length_take_of_le (Nat.not_lt.mp fun hlt => htaken ?_)
  show v ∈ s.order.take limit
  rw [List.take_of_length_le hlt.le]
  exact mem_order.mpr hv

theorem mem_scheduled_take : v ∈ (s.takeScheduledVolumes limit).2.scheduled :=
  Finset.mem_sdiff.mpr ⟨hv, fun hmem => htaken (List.mem_toFinset.mp hmem)⟩

/-- A take that does not reach a volume moves the cursor towards it, past all it returns. -/
theorem comes_take :
    (∀ u, Comes (s.takeScheduledVolumes limit).2.cursor u v → Comes s.cursor u v) ∧
      ∀ u ∈ (s.takeScheduledVolumes limit).1,
        Comes s.cursor u v ∧ ¬ Comes (s.takeScheduledVolumes limit).2.cursor u v := by
  have hcomes : ∀ u ∈ (s.takeScheduledVolumes limit).1, Comes s.cursor u v := by
    intro u hu
    exact comes_of_mem_takeWhile hv ((takeWhile_ne htaken).symm ▸ hu)
  simp only [takeScheduledVolumes] at hcomes ⊢
  rcases List.eq_nil_or_concat (s.order.take limit) with hnil | ⟨front, last, hlast⟩
  · rw [hnil]
    exact ⟨fun u hu => hu, by simp⟩
  · have hpairwise := s.pairwise_order.take (i := limit)
    rw [hlast, List.concat_eq_append] at hcomes hpairwise ⊢
    rw [List.getLast?_concat, Option.some_or]
    have hreached := hcomes last (by simp)
    refine ⟨fun u hu => hreached.of_last hu, fun u hu => ⟨hcomes u hu, hreached.not_of_last ?_⟩⟩
    rcases List.mem_append.mp hu with hfront | hu
    · exact .inr ((List.pairwise_append.mp hpairwise).2.2 u hfront last (by simp))
    · exact .inl (List.mem_singleton.mp hu)

end

/-! ## Runs -/

theorem scheduled_subset_scheduleVolume (w : V) :
    s.scheduled ⊆ (s.scheduleVolume w).scheduled := by
  rw [scheduleVolume]
  split
  · exact Finset.subset_insert _ _
  · exact subset_rfl

@[simp] theorem volumes_scheduleVolume (w : V) : (s.scheduleVolume w).volumes = s.volumes := by
  rw [scheduleVolume]
  split <;> rfl

@[simp] theorem cursor_scheduleVolume (w : V) : (s.scheduleVolume w).cursor = s.cursor := by
  rw [scheduleVolume]
  split <;> rfl

/-- What is returned before a scheduled volume: everything at most once, and only what comes before
it from the cursor on. -/
theorem run_before (hv : v ∈ s.scheduled) (calls : List (Call V)) :
    ((s.run calls).1.takeWhile (· ≠ v)).Nodup ∧
      ∀ u ∈ (s.run calls).1.takeWhile (· ≠ v), u ∈ s.volumes ∧ Comes s.cursor u v := by
  induction calls generalizing s with
  | nil => exact ⟨.nil, by simp [run]⟩
  | cons call calls ih =>
    cases call with
    | schedule w => simpa [run] using ih (scheduled_subset_scheduleVolume w hv)
    | take limit =>
      have hvolumes : ∀ u ∈ s.order.take limit, u ∈ s.volumes := fun u hu =>
        s.subset (mem_order.mp (List.mem_of_mem_take hu))
      have hnodup : (s.order.take limit).Nodup := s.nodup_order.take
      by_cases htaken : v ∈ (s.takeScheduledVolumes limit).1
      · -- the rest of the run comes after the volume
        rw [run, takeWhile_ne_append htaken]
        exact ⟨(List.takeWhile_sublist _).nodup hnodup, fun u hu =>
          ⟨hvolumes u ((List.takeWhile_sublist _).subset hu), comes_of_mem_takeWhile hv hu⟩⟩
      · obtain ⟨hcursor, hselected⟩ := comes_take hv htaken
        obtain ⟨hrest, hbefore⟩ := ih (mem_scheduled_take hv htaken)
        rw [run, List.takeWhile_append_of_pos (List.takeWhile_eq_self_iff.mp (takeWhile_ne htaken))]
        refine ⟨List.nodup_append.mpr ⟨hnodup, hrest, ?_⟩, ?_⟩
        · rintro u hu _ hu' rfl
          exact (hselected u hu).2 (hbefore u hu').2
        · intro u hu
          rcases List.mem_append.mp hu with hu | hu
          · exact ⟨hvolumes u hu, (hselected u hu).1⟩
          · exact ⟨(hbefore u hu).1, hcursor u (hbefore u hu).2⟩

theorem run_kept (hv : v ∈ s.scheduled) {calls : List (Call V)} (hrun : v ∉ (s.run calls).1) :
    v ∈ (s.run calls).2.scheduled ∧ (limits calls).sum = (s.run calls).1.length := by
  induction calls generalizing s with
  | nil => exact ⟨hv, rfl⟩
  | cons call calls ih =>
    cases call with
    | schedule w => exact ih (scheduled_subset_scheduleVolume w hv) hrun
    | take limit =>
      simp only [run, limits, List.mem_append, not_or, List.length_append, List.sum_cons] at hrun ⊢
      obtain ⟨hkept, hsum⟩ := ih (mem_scheduled_take hv hrun.1) hrun.2
      exact ⟨hkept, by rw [hsum, length_take hv hrun.1]⟩

/-- **A scheduled volume is returned** as soon as the limits add up to the number of volumes. -/
theorem mem_run (hv : v ∈ s.scheduled) {calls : List (Call V)}
    (hlimits : s.volumes.card ≤ (limits calls).sum) : v ∈ (s.run calls).1 := by
  by_contra hrun
  obtain ⟨hnodup, hbefore⟩ := run_before hv calls
  rw [takeWhile_ne hrun] at hnodup hbefore
  have hsubset : (s.run calls).1.toFinset ⊆ s.volumes.erase v := by
    intro u hu
    obtain ⟨hvolume, hcomes⟩ := hbefore u (List.mem_toFinset.mp hu)
    exact Finset.mem_erase.mpr ⟨hcomes.ne, hvolume⟩
  have hcard := Finset.card_le_card hsubset
  rw [List.toFinset_card_of_nodup hnodup, ← (run_kept hv hrun).2] at hcard
  have hlt := Finset.card_erase_lt_of_mem (s.subset hv)
  omega

/-- Every return of a volume uses up a call that scheduled it. -/
theorem count_run_le (s : Scheduler V) (calls : List (Call V)) (v : V) :
    (s.run calls).1.count v + (if v ∈ (s.run calls).2.scheduled then 1 else 0) ≤
      calls.count (.schedule v) + if v ∈ s.scheduled then 1 else 0 := by
  induction calls generalizing s with
  | nil => exact (Nat.zero_add _).trans_le (Nat.le_add_left _ _)
  | cons call calls ih =>
    cases call with
    | schedule w =>
      have hle := ih (s.scheduleVolume w)
      have hnew : v ∈ (s.scheduleVolume w).scheduled → v ∈ s.scheduled ∨ w = v := by
        rw [scheduleVolume]
        split <;> simp +contextual [or_comm, eq_comm]
      rw [run, List.count_cons]
      split_ifs at hle ⊢ <;> grind
    | take limit =>
      have hle := ih (s.takeScheduledVolumes limit).2
      have hone : (s.takeScheduledVolumes limit).1.count v ≤ 1 :=
        List.nodup_iff_count_le_one.mp s.nodup_order.take v
      have htaken : v ∈ (s.takeScheduledVolumes limit).2.scheduled ↔
          v ∈ s.scheduled ∧ v ∉ s.order.take limit := by
        simp [takeScheduledVolumes]
      have hstate : (s.run (.take limit :: calls)).2 =
        ((s.takeScheduledVolumes limit).2.run calls).2 := rfl
      rw [hstate, run, List.count_append, List.count_cons_of_ne (by simp)]
      by_cases hselected : v ∈ s.order.take limit
      · rw [if_neg fun hmem => (htaken.mp hmem).2 hselected] at hle
        rw [if_pos (mem_order.mp (List.mem_of_mem_take hselected))]
        omega
      · have hnone : (s.takeScheduledVolumes limit).1.count v = 0 := List.count_eq_zero.mpr hselected
        rw [hnone, Nat.zero_add]
        exact hle.trans (by simp [htaken, hselected])

end Scheduler

/-- **Scheduling loses nothing and bounds the bypass.**  A volume is returned at most once for each
call that schedules it.  From the call that schedules a volume on, every other volume is returned at
most once before it, and it stays scheduled until it is returned, which takes no more than the number
of volumes in limits. -/
theorem volume_scheduling (s : Scheduler V) (calls : List (Scheduler.Call V)) :
    (∀ v, (s.run calls).1.count v + (if v ∈ (s.run calls).2.scheduled then 1 else 0) ≤
      calls.count (.schedule v) + if v ∈ s.scheduled then 1 else 0) ∧
    ∀ v ∈ s.volumes,
      ((s.run (.schedule v :: calls)).1.takeWhile (· ≠ v)).Nodup ∧
      (v ∉ (s.run (.schedule v :: calls)).1 → v ∈ (s.run (.schedule v :: calls)).2.scheduled) ∧
      (s.volumes.card ≤ (Scheduler.limits calls).sum → v ∈ (s.run (.schedule v :: calls)).1) ∧
      ∀ limit, 0 < limit → (∀ l ∈ Scheduler.limits calls, limit ≤ l) →
        s.volumes.card ⌈/⌉ limit ≤ (Scheduler.limits calls).length →
        v ∈ (s.run (.schedule v :: calls)).1 := by
  refine ⟨s.count_run_le calls, fun v hv => ?_⟩
  have hscheduled : v ∈ (s.scheduleVolume v).scheduled := by
    rw [Scheduler.scheduleVolume, dif_pos hv]
    exact Finset.mem_insert_self _ _
  have hreturned (hlimits : s.volumes.card ≤ (Scheduler.limits calls).sum) :
      v ∈ ((s.scheduleVolume v).run calls).1 :=
    Scheduler.mem_run hscheduled (by rwa [Scheduler.volumes_scheduleVolume])
  refine ⟨(Scheduler.run_before hscheduled calls).1, fun hrun =>
    (Scheduler.run_kept hscheduled hrun).1, hreturned, fun limit hpos hlimit htakes => hreturned ?_⟩
  calc s.volumes.card ≤ limit * (Scheduler.limits calls).length :=
        (ceilDiv_le_iff_le_mul hpos).mp htakes
    _ = (Scheduler.limits calls).length * limit := Nat.mul_comm _ _
    _ ≤ (Scheduler.limits calls).sum := List.card_nsmul_le_sum _ _ hlimit

end Blockd
