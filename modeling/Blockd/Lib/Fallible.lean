import Mathlib

/-!
# Computations that fail with a reason

`okOr` and `ensureOr` turn an absent value, or a condition that does not hold, into an error.  The
lemmas say when a computation put together from such steps gives an answer and when it gives an
error, so that it can be taken apart one step at a time.
-/

set_option autoImplicit false

namespace Fallible

variable {ε α β : Type}

/-- A value, or the error for its absence. -/
def okOr (x : Option α) (e : ε) : Except ε α :=
  match x with
  | some a => .ok a
  | none => .error e

/-- Nothing, or the error for a condition that does not hold. -/
def ensureOr (p : Prop) [Decidable p] (e : ε) : Except ε Unit :=
  if p then .ok () else .error e

variable {e e' : ε} {f : α → Except ε β} {l : List α}

variable {a : α} {x : Option α} {p : Prop} {bs : List β}

@[simp] theorem okOr_eq_ok : okOr x e = .ok a ↔ x = some a := by
  cases x <;> simp [okOr]

@[simp] theorem okOr_eq_error : okOr x e = .error e' ↔ x = none ∧ e = e' := by
  cases x <;> simp [okOr]

@[simp] theorem ensureOr_eq_ok [Decidable p] {u : Unit} : ensureOr p e = .ok u ↔ p := by
  by_cases h : p <;> simp [ensureOr, h]

@[simp] theorem ensureOr_eq_error [Decidable p] : ensureOr p e = .error e' ↔ ¬ p ∧ e = e' := by
  by_cases h : p <;> simp [ensureOr, h]

theorem bind_eq_ok {x : Except ε α} {b : β} : (x >>= f) = .ok b ↔ ∃ a, x = .ok a ∧ f a = .ok b := by
  cases x with
  | error e => exact iff_of_false nofun fun ⟨_, h, _⟩ => nomatch h
  | ok a => exact ⟨fun h => ⟨a, rfl, h⟩, fun ⟨_, h, hf⟩ => by cases h; exact hf⟩

theorem bind_eq_error {x : Except ε α} :
    (x >>= f) = .error e ↔ x = .error e ∨ ∃ a, x = .ok a ∧ f a = .error e := by
  cases x with
  | error e' =>
    refine ⟨fun h => .inl (congrArg Except.error (Except.error.inj h)), ?_⟩
    rintro (h | ⟨_, h, _⟩)
    · exact congrArg Except.error (Except.error.inj h)
    · nomatch h
  | ok a =>
    refine ⟨fun h => .inr ⟨a, rfl, h⟩, ?_⟩
    rintro (h | ⟨_, h, hf⟩)
    · nomatch h
    · cases h
      exact hf

theorem pure_eq_ok {b : α} : (pure a : Except ε α) = .ok b ↔ a = b :=
  ⟨Except.ok.inj, congrArg _⟩

theorem pure_ne_error : (pure a : Except ε α) ≠ .error e := nofun

/-! ## Errors that cannot come up -/

theorem okOr_ne_error (h : e' ≠ e) : okOr x e' ≠ .error e :=
  fun heq => h (okOr_eq_error.mp heq).2

theorem ensureOr_ne_error [Decidable p] (h : e' ≠ e) : ensureOr p e' ≠ .error e :=
  fun heq => h (ensureOr_eq_error.mp heq).2

theorem bind_ne_error {x : Except ε α} (hx : x ≠ .error e) (hf : ∀ a, f a ≠ .error e) :
    (x >>= f) ≠ .error e := by
  rw [Ne, bind_eq_error]
  rintro (h | ⟨a, -, h⟩)
  · exact hx h
  · exact hf a h

theorem mapM_ne_error (h : ∀ a, f a ≠ .error e) : l.mapM f ≠ .error e := by
  induction l with
  | nil => exact pure_ne_error
  | cons a l ih =>
    rw [List.mapM_cons]
    exact bind_ne_error (h a) fun _ => bind_ne_error ih fun _ => pure_ne_error

/-! ## Lists -/

/-- A list is mapped when every element is. -/
theorem mapM_eq_ok : l.mapM f = .ok bs ↔ List.Forall₂ (fun a b => f a = .ok b) l bs := by
  induction l generalizing bs with
  | nil =>
    rw [List.mapM_nil, List.forall₂_nil_left_iff]
    exact ⟨fun h => (Except.ok.inj h).symm, fun h => h ▸ rfl⟩
  | cons a l ih =>
    rw [List.mapM_cons, bind_eq_ok, List.forall₂_cons_left_iff]
    refine exists_congr fun b => ?_
    constructor
    · rintro ⟨hb, h⟩
      obtain ⟨bs', hbs, h⟩ := bind_eq_ok.mp h
      exact ⟨bs', hb, ih.mp hbs, (Except.ok.inj h).symm⟩
    · rintro ⟨bs', hb, hbs, rfl⟩
      exact ⟨hb, bind_eq_ok.mpr ⟨bs', ih.mpr hbs, rfl⟩⟩

/-- Every answer comes from an element, and every element has one. -/
theorem mem_of_mapM (h : l.mapM f = .ok bs) :
    (∀ b ∈ bs, ∃ a ∈ l, f a = .ok b) ∧ ∀ a ∈ l, ∃ b ∈ bs, f a = .ok b := by
  have hall := mapM_eq_ok.mp h
  clear h
  induction hall with
  | nil => exact ⟨nofun, nofun⟩
  | cons hab _ ih =>
    refine ⟨fun b hb => ?_, fun a ha => ?_⟩
    · rcases List.mem_cons.mp hb with rfl | hb
      · exact ⟨_, List.mem_cons_self, hab⟩
      · obtain ⟨a, ha, hf⟩ := ih.1 b hb
        exact ⟨a, List.mem_cons_of_mem _ ha, hf⟩
    · rcases List.mem_cons.mp ha with rfl | ha
      · exact ⟨_, List.mem_cons_self, hab⟩
      · obtain ⟨b, hb, hf⟩ := ih.2 a ha
        exact ⟨b, List.mem_cons_of_mem _ hb, hf⟩

/-- A relation between the elements becomes one between the answers. -/
theorem pairwise_of_mapM {R : α → α → Prop} {S : β → β → Prop} (h : l.mapM f = .ok bs)
    (hl : l.Pairwise R)
    (hrel : ∀ a ∈ l, ∀ a' ∈ l, ∀ b b', R a a' → f a = .ok b → f a' = .ok b' → S b b') :
    bs.Pairwise S := by
  induction l generalizing bs with
  | nil =>
    rw [List.mapM_nil, pure_eq_ok] at h
    exact h ▸ List.Pairwise.nil
  | cons a l ih =>
    rw [List.mapM_cons] at h
    simp only [bind_eq_ok, pure_eq_ok] at h
    obtain ⟨b, hb, bs, hbs, rfl⟩ := h
    obtain ⟨hhead, htail⟩ := List.pairwise_cons.mp hl
    refine List.pairwise_cons.mpr ⟨fun b' hb' => ?_, ih hbs htail fun a₁ h₁ a₂ h₂ =>
      hrel a₁ (List.mem_cons_of_mem _ h₁) a₂ (List.mem_cons_of_mem _ h₂)⟩
    obtain ⟨a', ha', hf⟩ := (mem_of_mapM hbs).1 b' hb'
    exact hrel a List.mem_cons_self a' (List.mem_cons_of_mem _ ha') b b' (hhead a' ha') hb hf

end Fallible
