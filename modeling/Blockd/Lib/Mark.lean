import Mathlib

/-!
# Marking what is reachable

The mark phase of a collector reads its roots one after another and collects the keys it finds.  A
root that cannot be read stops nothing: the marks made so far stay, the next root is read, and at
the end the collector knows that something was missing.

`Marker κ α` is a computation that marks keys and may fail.  The notion the proofs are phrased in is

```lean
Marks d bad reaches   -- `d` fails where `bad` holds; otherwise it marks what `reaches` says
```

with a rule for each way a marker is put together, and `Marks.visitAll` for the loop over the roots.
-/

set_option autoImplicit false

namespace Mark

variable {α β κ : Type}

/-! ## Markers -/

/-- A computation on the set of marked keys that may fail; a failure keeps the marks. -/
def Marker (κ α : Type) := Finset κ → Option α × Finset κ

namespace Marker

instance : Monad (Marker κ) where
  pure a := fun keep => (some a, keep)
  bind d f := fun keep =>
    match (d keep).1 with
    | some a => f a (d keep).2
    | none => (none, (d keep).2)

theorem bind_of_some {d : Marker κ α} {f : α → Marker κ β} {keep : Finset κ} {a : α}
    (h : (d keep).1 = some a) : (d >>= f) keep = f a (d keep).2 := by
  simp only [bind, h]

theorem bind_of_none {d : Marker κ α} {f : α → Marker κ β} {keep : Finset κ}
    (h : (d keep).1 = none) : (d >>= f) keep = (none, (d keep).2) := by
  simp only [bind, h]

theorem pure_bind (a : α) (f : α → Marker κ β) : (pure a : Marker κ α) >>= f = f a := rfl

theorem bind_assoc {γ : Type} (d : Marker κ α) (f : α → Marker κ β) (g : β → Marker κ γ) :
    d >>= f >>= g = d >>= fun a => f a >>= g := by
  funext keep
  match h : (d keep).1 with
  | some a =>
    have hd : (d >>= f) keep = f a (d keep).2 := bind_of_some h
    rw [bind_of_some h]
    match hf : (f a (d keep).2).1 with
    | some b =>
      rw [bind_of_some (hd ▸ hf), bind_of_some hf, hd]
    | none =>
      rw [bind_of_none (hd ▸ hf), bind_of_none hf, hd]
  | none =>
    have hd : (d >>= f) keep = (none, (d keep).2) := bind_of_none h
    rw [bind_of_none h, bind_of_none (congrArg Prod.fst hd), hd]

/-- A value that may be missing: fail where it is. -/
def ofOption (x : Option α) : Marker κ α := fun keep => (x, keep)

/-- Fail unless the condition holds. -/
def require (b : Bool) : Marker κ Unit := ofOption (if b then some () else none)

variable [DecidableEq κ]

def mark (k : κ) : Marker κ Unit := fun keep => (some (), insert k keep)

/-- Mark the keys of a list. -/
def markAll (keys : List κ) : Marker κ Unit := fun keep =>
  (some (), keys.foldl (fun keep k => insert k keep) keep)

end Marker

/-- The marks so far, and whether something could not be read. -/
structure Marked (κ : Type) where
  keep : Finset κ
  unsafeRoot : Bool

namespace Marked

/-- Visit one root. -/
def visit (m : Marked κ) (d : Marker κ Unit) : Marked κ :=
  ⟨(d m.keep).2, m.unsafeRoot || (d m.keep).1.isNone⟩

/-- Visit the roots one after another. -/
def visitAll (m : Marked κ) (d : α → Marker κ Unit) (roots : List α) : Marked κ :=
  roots.foldl (fun m root => m.visit (d root)) m

end Marked

/-! ## What a marker does -/

/-- A marker that cannot read what it needs. -/
def Fails (d : Marker κ Unit) : Prop := ∀ keep, (d keep).1 = none

theorem Fails.ofOption {f : α → Marker κ Unit} {x : Option α} (h : x = none) :
    Fails (Marker.ofOption x >>= f) := fun _ => h ▸ rfl

theorem Fails.mark_bind [DecidableEq κ] {d : Marker κ Unit} (h : Fails d) (k : κ) :
    Fails (Marker.mark k >>= fun _ => d) := fun keep => h (insert k keep)

/-- A marker fails where `bad` holds; otherwise it marks what `reaches` says and nothing else. -/
structure Marks (d : Marker κ Unit) (bad : Prop) (reaches : κ → Prop) : Prop where
  fails : ∀ keep, (d keep).1 = none ↔ bad
  mem_keep : ¬ bad → ∀ keep k, k ∈ (d keep).2 ↔ k ∈ keep ∨ reaches k

namespace Marks

open Marker

variable {d e : Marker κ Unit} {bad bad' : Prop} {reaches reaches' : κ → Prop}

theorem congr (h : Marks d bad reaches) (hbad : bad ↔ bad')
    (hreaches : ¬ bad' → ∀ k, reaches k ↔ reaches' k) : Marks d bad' reaches' where
  fails keep := (h.fails keep).trans hbad
  mem_keep hok keep k := by rw [h.mem_keep (mt hbad.mp hok), hreaches hok]

theorem nothing : Marks (pure () : Marker κ Unit) False fun _ => False where
  fails _ := iff_of_false (fun h => nomatch h) id
  mem_keep _ _ _ := (iff_of_eq (or_false _)).symm

/-- What a marker is to reach does not matter where it fails. -/
theorem of_fails (h : Fails d) (hbad : bad) : Marks d bad reaches :=
  ⟨fun keep => iff_of_true (h keep) hbad, fun hok => absurd hbad hok⟩

/-- What is there is read. -/
theorem ofOption_some {f : α → Marker κ Unit} {x : Option α} {a : α} (hx : x = some a)
    (h : Marks (f a) bad reaches) : Marks (ofOption x >>= f) bad reaches := hx ▸ h

theorem seq (h : Marks d bad reaches) (h' : Marks e bad' reaches') :
    Marks (d >>= fun _ => e) (bad ∨ bad') fun k => reaches k ∨ reaches' k := by
  by_cases hbad : bad
  · refine ⟨fun keep => iff_of_true ?_ (.inl hbad), fun hok => absurd (.inl hbad) hok⟩
    rw [bind_of_none ((h.fails keep).mpr hbad)]
  · have hbind : ∀ keep, (d >>= fun _ => e) keep = e (d keep).2 := by
      intro keep
      obtain ⟨u, hu⟩ := Option.ne_none_iff_exists'.mp (mt (h.fails keep).mp hbad)
      exact bind_of_some hu
    refine ⟨fun keep => ?_, fun hok keep k => ?_⟩
    · rw [hbind, h'.fails, or_iff_right hbad]
    · rw [hbind, h'.mem_keep (fun hb => hok (.inr hb)), h.mem_keep hbad, or_assoc]

section

variable [DecidableEq κ]

theorem mark_bind (h : Marks d bad reaches) (k : κ) :
    Marks (mark k >>= fun _ => d) bad fun j => j = k ∨ reaches j where
  fails keep := h.fails (insert k keep)
  mem_keep hok keep j := by
    show j ∈ (d (insert k keep)).2 ↔ _
    rw [h.mem_keep hok, Finset.mem_insert, or_comm (a := j = k), or_assoc]

theorem markAll (keys : List κ) : Marks (Marker.markAll keys) False (· ∈ keys) where
  fails _ := iff_of_false (fun h => nomatch h) id
  mem_keep _ keep k := by
    show k ∈ keys.foldl (fun keep k => insert k keep) keep ↔ _
    induction keys generalizing keep with
    | nil => simp
    | cons key keys ih =>
      rw [List.foldl_cons, ih, Finset.mem_insert, List.mem_cons, or_comm (a := k = key), or_assoc]

end

/-! ## The loop over the roots -/

theorem visit (h : Marks d bad reaches) (m : Marked κ) :
    ((m.visit d).unsafeRoot = true ↔ m.unsafeRoot = true ∨ bad) ∧
      (¬ bad → ∀ k, k ∈ (m.visit d).keep ↔ k ∈ m.keep ∨ reaches k) := by
  refine ⟨?_, fun hok => h.mem_keep hok m.keep⟩
  rw [Marked.visit, Bool.or_eq_true, Option.isNone_iff_eq_none, h.fails]

/-- **The loop fails where one of the roots does; otherwise it marks what the roots reach.** -/
theorem visitAll {d : α → Marker κ Unit} {bad : α → Prop} {reaches : α → κ → Prop}
    {roots : List α} (h : ∀ r ∈ roots, Marks (d r) (bad r) (reaches r)) (m : Marked κ) :
    ((m.visitAll d roots).unsafeRoot = true ↔ m.unsafeRoot = true ∨ ∃ r ∈ roots, bad r) ∧
      ((¬ ∃ r ∈ roots, bad r) →
        ∀ k, k ∈ (m.visitAll d roots).keep ↔ k ∈ m.keep ∨ ∃ r ∈ roots, reaches r k) := by
  induction roots generalizing m with
  | nil => simp [Marked.visitAll]
  | cons r roots ih =>
    obtain ⟨hfail, hkeep⟩ := (h r List.mem_cons_self).visit m
    obtain ⟨hfails, hkeeps⟩ := ih (fun r hr => h r (List.mem_cons_of_mem _ hr)) (m.visit (d r))
    refine ⟨?_, fun hok k => ?_⟩
    · rw [Marked.visitAll, List.foldl_cons, ← Marked.visitAll, hfails, hfail, or_assoc,
        List.exists_mem_cons_iff]
    · rw [List.exists_mem_cons_iff, not_or] at hok
      rw [Marked.visitAll, List.foldl_cons, ← Marked.visitAll, hkeeps hok.2, hkeep hok.1, or_assoc,
        List.exists_mem_cons_iff]

end Marks

end Mark
