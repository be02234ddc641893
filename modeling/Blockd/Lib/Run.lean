import Mathlib

/-!
# Runs of a step function

A system is a partial step function `step : σ → ℓ → Option σ`: the label says what the environment
does next, and `none` says that it cannot do that here.  `run` takes a list of labels, `Along` says
that every step of a run meets a condition on the state before it and its label, and the rules
at the end are the inductions over runs a development needs:

* `run_invariant` — what one allowed step preserves, every run of allowed steps preserves;
* `run_invariant_of_step` — the same with no condition on the steps.
-/

set_option autoImplicit false

namespace Run

variable {σ ℓ : Type} (step : σ → ℓ → Option σ)

/-- The state after the labels, if every step of them can be taken. -/
def run : σ → List ℓ → Option σ
  | s, [] => some s
  | s, a :: as => (step s a).bind fun t => run t as

/-- Every step of the run meets `ok` in the state it is taken from. -/
def Along (ok : σ → ℓ → Prop) : σ → List ℓ → Prop
  | _, [] => True
  | s, a :: as => ok s a ∧ ∀ t, step s a = some t → Along ok t as

@[simp] theorem run_nil (s : σ) : run step s [] = some s := rfl

theorem run_cons (s : σ) (a : ℓ) (as : List ℓ) :
    run step s (a :: as) = (step s a).bind fun t => run step t as := rfl

theorem run_cons_eq_some {s u : σ} {a : ℓ} {as : List ℓ} :
    run step s (a :: as) = some u ↔ ∃ t, step s a = some t ∧ run step t as = some u := by
  rw [run_cons, Option.bind_eq_some_iff]

theorem run_append (s : σ) (as bs : List ℓ) :
    run step s (as ++ bs) = (run step s as).bind fun t => run step t bs := by
  induction as generalizing s with
  | nil => rfl
  | cons a as ih =>
    rw [List.cons_append, run_cons, run_cons, Option.bind_assoc]
    exact congrArg _ (funext fun t => ih t)

variable {step}

/-- **Invariants.**  What every allowed step preserves holds after every allowed run. -/
theorem run_invariant {ok : σ → ℓ → Prop} {Inv : σ → Prop}
    (hstep : ∀ s a t, Inv s → ok s a → step s a = some t → Inv t)
    {s u : σ} {as : List ℓ} (hs : Inv s) (hok : Along step ok s as)
    (hrun : run step s as = some u) : Inv u := by
  induction as generalizing s with
  | nil =>
    rw [run_nil, Option.some.injEq] at hrun
    exact hrun ▸ hs
  | cons a as ih =>
    obtain ⟨t, hst, htu⟩ := (run_cons_eq_some step).mp hrun
    exact ih (hstep s a t hs hok.1 hst) (hok.2 t hst) htu

theorem along_true (s : σ) (as : List ℓ) : Along step (fun _ _ => True) s as := by
  induction as generalizing s with
  | nil => trivial
  | cons a as ih => exact ⟨trivial, fun t _ => ih t⟩

/-- Invariants of all runs: the case with no condition on the steps. -/
theorem run_invariant_of_step {Inv : σ → Prop}
    (hstep : ∀ s a t, Inv s → step s a = some t → Inv t)
    {s u : σ} {as : List ℓ} (hs : Inv s) (hrun : run step s as = some u) : Inv u :=
  run_invariant (fun s a t h _ hst => hstep s a t h hst) hs (along_true s as) hrun

/-- A run is followed step by step. -/
theorem Along.cons {ok : σ → ℓ → Prop} {s t : σ} {a : ℓ} {as : List ℓ} (hok : ok s a)
    (hst : step s a = some t) (h : Along step ok t as) : Along step ok s (a :: as) := by
  refine ⟨hok, fun u hu => ?_⟩
  cases hst.symm.trans hu
  exact h

/-- A condition is met along two runs, one after the other. -/
theorem Along.append {ok : σ → ℓ → Prop} {s t : σ} {as bs : List ℓ} (h : Along step ok s as)
    (hrun : run step s as = some t) (h' : Along step ok t bs) : Along step ok s (as ++ bs) := by
  induction as generalizing s with
  | nil =>
    rw [run_nil, Option.some.injEq] at hrun
    exact hrun ▸ h'
  | cons a as ih =>
    obtain ⟨u, hu, hut⟩ := (run_cons_eq_some step).mp hrun
    exact .cons h.1 hu (ih (h.2 u hu) hut)

/-- Two runs, one after the other. -/
theorem run_append_of {s t u : σ} {as bs : List ℓ} (h : run step s as = some t)
    (h' : run step t bs = some u) : run step s (as ++ bs) = some u := by
  rw [run_append, h, Option.bind_some, h']

theorem run_cons_of {s t u : σ} {a : ℓ} {as : List ℓ} (h : step s a = some t)
    (h' : run step t as = some u) : run step s (a :: as) = some u :=
  (run_cons_eq_some step).mpr ⟨t, h, h'⟩

/-- Steps that are allowed in every state. -/
theorem Along.of_forall {ok : σ → ℓ → Prop} {as : List ℓ} (h : ∀ a ∈ as, ∀ s, ok s a) (s : σ) :
    Along step ok s as := by
  induction as generalizing s with
  | nil => trivial
  | cons a as ih =>
    exact ⟨h a List.mem_cons_self s, fun t _ => ih (fun b hb => h b (List.mem_cons_of_mem a hb)) t⟩

/-- A condition that can be decided at each step can be decided along a run. -/
instance Along.decidable {ok : σ → ℓ → Prop} [∀ s a, Decidable (ok s a)] :
    ∀ (s : σ) (as : List ℓ), Decidable (Along step ok s as)
  | _, [] => isTrue trivial
  | s, a :: as =>
    match h : step s a with
    | none =>
      decidable_of_iff (ok s a)
        ⟨fun hok => ⟨hok, fun _ ht => nomatch h.symm.trans ht⟩, fun hok => hok.1⟩
    | some t =>
      have : Decidable (Along step ok t as) := Along.decidable t as
      decidable_of_iff (ok s a ∧ Along step ok t as)
        ⟨fun hok => .cons hok.1 h hok.2, fun hok => ⟨hok.1, hok.2 t h⟩⟩

end Run
