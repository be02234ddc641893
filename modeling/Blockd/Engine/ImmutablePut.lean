import Blockd.Lib.Codec
import Blockd.Lib.Run

/-!
# Writes of immutable objects

`put_immutable` of `store_retry.rs` creates an object that nobody writes twice.  It repeats a put
whose outcome is unknown, and where it finds the object there already it compares the bytes, since
they may be those of an earlier try.  `put_immutable_exact` says that its answer can be relied on,
whatever writers there are beside it and whenever a put of unknown outcome takes effect.
-/

set_option autoImplicit false

open Codec

namespace Blockd

inductive PutError where
  | casConflict (actual : Option UInt64)
  | tooLarge
  deriving DecidableEq, Repr

/-- Where a call of `put_immutable` stands. -/
inductive PutPhase where
  /-- A put is out that expects no object. -/
  | putting
  /-- The put has met an object, which is being read. -/
  | getting (actual : UInt64)
  | done (result : Except PutError UInt64)

/-- One key of the store, with the puts of unknown outcome that have not taken effect and the calls
that write it. -/
structure ImmutableKey where
  object : Option (UInt64 × Bytes)
  unknown : List Bytes
  calls : List (Bytes × PutPhase)

/-- What happens to the key.  An answer comes with the effect: an object that is there stays. -/
inductive PutEvent where
  | call (bytes : Bytes)
  | put (i : Nat) (version : UInt64)
  | unavailable (i : Nat)
  | land (i : Nat) (version : UInt64)
  | tooLarge (i : Nat)
  | get (i : Nat)
  deriving DecidableEq, Repr

namespace ImmutableKey

/-- The object after a put. -/
def create (s : ImmutableKey) (version : UInt64) (bytes : Bytes) : Option (UInt64 × Bytes) :=
  s.object.or (some (version, bytes))

def onPut (s : ImmutableKey) (version : UInt64) : PutPhase :=
  match s.object with
  | none => .done (.ok version)
  | some (actual, _) => .getting actual

def onGet (s : ImmutableKey) (bytes : Bytes) (actual : UInt64) : Except PutError UInt64 :=
  match s.object with
  | some (version, found) => if found = bytes then .ok version else .error (.casConflict actual)
  | none => .error (.casConflict actual)

def step (s : ImmutableKey) : PutEvent → Option ImmutableKey
  | .call bytes => some { s with calls := s.calls ++ [(bytes, .putting)] }
  | .put i version =>
    match s.calls[i]? with
    | some (bytes, .putting) => some { s with
        object := s.create version bytes
        calls := s.calls.set i (bytes, s.onPut version) }
    | _ => none
  | .unavailable i =>
    match s.calls[i]? with
    | some (bytes, .putting) => some { s with unknown := s.unknown ++ [bytes] }
    | some (_, .getting _) => some s
    | _ => none
  | .land i version => (s.unknown[i]?).map fun bytes =>
    { s with object := s.create version bytes, unknown := s.unknown.eraseIdx i }
  | .tooLarge i =>
    match s.calls[i]? with
    | some (bytes, .putting) =>
      some { s with calls := s.calls.set i (bytes, .done (.error .tooLarge)) }
    | _ => none
  | .get i =>
    match s.calls[i]? with
    | some (bytes, .getting actual) =>
      some { s with calls := s.calls.set i (bytes, .done (s.onGet bytes actual)) }
    | _ => none

/-- What the object has to do with where a call stands. -/
def CallOk (object : Option (UInt64 × Bytes)) : Bytes × PutPhase → Prop
  | (_, .putting) => True
  | (_, .getting _) => object.isSome
  | (bytes, .done (.ok version)) => object = some (version, bytes)
  | (bytes, .done (.error error)) => error = .tooLarge ∨ ∃ o ∈ object, o.2 ≠ bytes

variable {s t : ImmutableKey} {bytes : Bytes} {version : UInt64}

theorem CallOk.mono {object object' : Option (UInt64 × Bytes)} {c : Bytes × PutPhase}
    (h : CallOk object c) (hkept : ∀ o ∈ object, o ∈ object') : CallOk object' c := by
  obtain ⟨bytes, phase⟩ := c
  cases phase with
  | putting => trivial
  | getting actual =>
    obtain ⟨o, ho⟩ := Option.isSome_iff_exists.mp h
    exact Option.isSome_iff_exists.mpr ⟨o, hkept o ho⟩
  | done result =>
    cases result with
    | ok version => exact hkept _ h
    | error error => exact h.imp_right fun ⟨o, ho, hne⟩ => ⟨o, hkept o ho, hne⟩

theorem callOk_onPut : CallOk (s.create version bytes) (bytes, s.onPut version) := by
  cases ho : s.object <;> simp [create, onPut, ho, CallOk]

theorem callOk_onGet {actual : UInt64} (h : CallOk s.object (bytes, .getting actual)) :
    CallOk s.object (bytes, .done (s.onGet bytes actual)) := by
  obtain ⟨⟨version, found⟩, ho⟩ := Option.isSome_iff_exists.mp h
  by_cases hbytes : found = bytes <;> simp [onGet, ho, hbytes, CallOk]

/-- A call goes on, and the others keep what they know. -/
theorem CallOk.set {object object' : Option (UInt64 × Bytes)} {calls : List (Bytes × PutPhase)}
    {i : Nat} {next : Bytes × PutPhase} (h : ∀ c ∈ calls, CallOk object c)
    (hkept : ∀ o ∈ object, o ∈ object') (hnext : CallOk object' next) :
    ∀ c ∈ calls.set i next, CallOk object' c := by
  intro c hc
  rcases List.mem_or_eq_of_mem_set hc with hc | rfl
  · exact (h c hc).mono hkept
  · exact hnext

/-- One event: the object stays, and every call knows what it has to. -/
theorem step_keeps {event : PutEvent} (hs : s.step event = some t) :
    (∀ o ∈ s.object, o ∈ t.object) ∧
      ((∀ c ∈ s.calls, CallOk s.object c) → ∀ c ∈ t.calls, CallOk t.object c) := by
  have hcreate (version : UInt64) (bytes : Bytes) : ∀ o ∈ s.object, o ∈ s.create version bytes := by
    intro o ho
    rw [create, Option.mem_def.mp ho]
    rfl
  cases event with
  | call bytes =>
    cases hs
    refine ⟨fun _ => id, fun h c hc => ?_⟩
    rcases List.mem_append.mp hc with hc | hc
    · exact h c hc
    · rw [List.mem_singleton.mp hc]
      trivial
  | put i version =>
    simp only [step] at hs
    split at hs
    · cases hs
      exact ⟨hcreate _ _, fun h => CallOk.set h (hcreate _ _) callOk_onPut⟩
    · cases hs
  | unavailable i =>
    simp only [step] at hs
    split at hs <;> cases hs <;> exact ⟨fun _ => id, id⟩
  | land i version =>
    obtain ⟨bytes, -, rfl⟩ := Option.map_eq_some_iff.mp hs
    exact ⟨hcreate _ _, fun h c hc => (h c hc).mono (hcreate _ _)⟩
  | tooLarge i =>
    simp only [step] at hs
    split at hs
    · cases hs
      exact ⟨fun _ => id, fun h => CallOk.set h (fun _ => id) (.inl rfl)⟩
    · cases hs
  | get i =>
    simp only [step] at hs
    split at hs
    · rename_i bytes actual hcall
      cases hs
      exact ⟨fun _ => id, fun h => CallOk.set h (fun _ => id)
        (callOk_onGet (h _ (List.mem_of_getElem? hcall)))⟩
    · cases hs

end ImmutableKey

open ImmutableKey in
/-- **Immutable writes are exact.**  An object stays as it was created, a call that succeeds finds its
bytes there, and one that fails finds others or is too large for the store. -/
theorem put_immutable_exact :
    (∀ s t events, Run.run step s events = some t → ∀ o ∈ s.object, t.object = some o) ∧
    ∀ object events t, Run.run step ⟨object, [], []⟩ events = some t → ∀ bytes,
      (∀ version, (bytes, .done (.ok version)) ∈ t.calls → t.object = some (version, bytes)) ∧
      ∀ error, (bytes, .done (.error error)) ∈ t.calls →
        error = .tooLarge ∨ ∃ o ∈ t.object, o.2 ≠ bytes := by
  refine ⟨fun s t events hrun o ho => ?_, fun object events t hrun bytes => ?_⟩
  · exact Run.run_invariant_of_step (fun _ _ _ h hs => (step_keeps hs).1 o h) ho hrun
  · have hcalls : ∀ c ∈ t.calls, CallOk t.object c :=
      Run.run_invariant_of_step (fun _ _ _ h hs => (step_keeps hs).2 h) (by simp) hrun
    exact ⟨fun _ hc => hcalls _ hc, fun _ hc => hcalls _ hc⟩

/-- A put of unknown outcome takes effect after another call has begun. -/
def lateLanding : List PutEvent :=
  [.call [1], .unavailable 0, .call [2], .land 0 7, .put 1 8, .get 1, .put 0 9, .get 0]

/-- Both calls find it, and the one whose put it was succeeds. -/
theorem put_immutable_exact_landed : ∃ t,
    Run.run ImmutableKey.step ⟨none, [], []⟩ lateLanding = some t ∧
    ([1], .done (.ok 7)) ∈ t.calls ∧ t.object = some (7, [1]) ∧
    ([2], .done (.error (.casConflict (some 7)))) ∈ t.calls ∧ ∃ o ∈ t.object, o.2 ≠ [2] := by
  obtain ⟨t, hrun, hfirst, hsecond⟩ : ∃ t,
      Run.run ImmutableKey.step ⟨none, [], []⟩ lateLanding = some t ∧
      ([1], .done (.ok 7)) ∈ t.calls ∧ ([2], .done (.error (.casConflict (some 7)))) ∈ t.calls :=
    ⟨_, rfl, List.mem_cons_self, List.mem_cons_of_mem _ List.mem_cons_self⟩
  have hexact := put_immutable_exact.2 none lateLanding t hrun
  exact ⟨t, hrun, hfirst, (hexact [1]).1 7 hfirst, hsecond,
    ((hexact [2]).2 _ hsecond).resolve_left (by rintro ⟨⟩)⟩

end Blockd
