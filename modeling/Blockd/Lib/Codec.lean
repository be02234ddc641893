import Mathlib

/-!
# Byte codecs

Encoders are functions into byte lists; decoders are state-passing readers that take bytes from
the front of a list and may refuse.  The one notion the round trips are phrased in is

```lean
Reads d bs a   -- run on `bs` followed by anything, `d` takes exactly `bs` and returns `a`
```

and the rules here say how `Reads` goes through `pure`, `bind`, a guard and a counted loop.  A
record codec is then read off its definition: one `bind` rule per field, in the order the encoder
appends them.  `Decodes` is the same for a decoder that has to use up its input, and `Exact` says
that a reader accepts nothing but encodings.

* `leBytes` / `leNat` are the little-endian words every fixed-width field is made of.
* `Dec.u8` … `Dec.u64`, `Dec.bytes`, `Dec.repeatN` are the readers, with their `Reads` lemmas.
-/

set_option autoImplicit false

namespace Codec

/-- A byte string. -/
abbrev Bytes := List UInt8

/-- Stop with `none` unless the condition holds. -/
def ensure (p : Prop) [Decidable p] : Option Unit := if p then some () else none

@[simp] theorem ensure_eq_some {p : Prop} [Decidable p] {u : Unit} : ensure p = some u ↔ p := by
  by_cases h : p <;> simp [ensure, h]

@[simp] theorem ensure_true : ensure True = some () := rfl

theorem bind_eq_some {α β : Type} {x : Option α} {f : α → Option β} {b : β} :
    (x >>= f) = some b ↔ ∃ a, x = some a ∧ f a = some b :=
  Option.bind_eq_some_iff

theorem pure_eq_some {α : Type} {a b : α} : (pure a : Option α) = some b ↔ a = b := Option.some_inj

theorem some_bind {α β : Type} (a : α) (f : α → Option β) : (some a >>= f) = f a := rfl

/-! ## Little-endian words -/

/-- The low `w` bytes of `n`, least significant first. -/
def leBytes : Nat → Nat → Bytes
  | 0, _ => []
  | w + 1, n => UInt8.ofNat n :: leBytes w (n / 256)

/-- The number whose little-endian bytes are given. -/
def leNat (bs : Bytes) : Nat := bs.foldr (fun b n => b.toNat + 256 * n) 0

@[simp] theorem length_leBytes (w n : Nat) : (leBytes w n).length = w := by
  induction w generalizing n with
  | zero => rfl
  | succ w ih => rw [leBytes, List.length_cons, ih]

theorem leNat_leBytes (w n : Nat) : leNat (leBytes w n) = n % 256 ^ w := by
  induction w generalizing n with
  | zero => simp [leBytes, leNat, Nat.mod_one]
  | succ w ih =>
    have hstep : leNat (leBytes (w + 1) n) = n % 256 + 256 * leNat (leBytes w (n / 256)) := by
      simp [leBytes, leNat]
    rw [hstep, ih, pow_succ', Nat.mod_mul]

theorem leNat_append (bs bs' : Bytes) :
    leNat (bs ++ bs') = leNat bs + 256 ^ bs.length * leNat bs' := by
  induction bs with
  | nil => simp [leNat]
  | cons b bs ih =>
    have hcons : ∀ rest : Bytes, leNat (b :: rest) = b.toNat + 256 * leNat rest := fun _ => rfl
    rw [List.cons_append, hcons, hcons, ih, List.length_cons, pow_succ']
    ring

theorem leNat_leBytes_of_lt {w n : Nat} (h : n < 256 ^ w) : leNat (leBytes w n) = n := by
  rw [leNat_leBytes, Nat.mod_eq_of_lt h]

theorem leBytes_leNat (bs : Bytes) : leBytes bs.length (leNat bs) = bs := by
  induction bs with
  | nil => rfl
  | cons b bs ih =>
    have hnat : leNat (b :: bs) = b.toNat + 256 * leNat bs := rfl
    have hlow : UInt8.ofNat (b.toNat + 256 * leNat bs) = b := by
      rw [← UInt8.toNat_inj, UInt8.toNat_ofNat']
      have := b.toNat_lt
      omega
    have hhigh : (b.toNat + 256 * leNat bs) / 256 = leNat bs := by
      have := b.toNat_lt
      omega
    rw [List.length_cons, leBytes, hnat, hlow, hhigh, ih]

theorem leNat_lt (bs : Bytes) : leNat bs < 256 ^ bs.length := by
  have h := leNat_leBytes bs.length (leNat bs)
  rw [leBytes_leNat] at h
  rw [h]
  exact Nat.mod_lt _ (Nat.pow_pos (by decide))

def encU8 (v : UInt8) : Bytes := [v]
def encU16 (v : UInt16) : Bytes := leBytes 2 v.toNat
def encU32 (v : UInt32) : Bytes := leBytes 4 v.toNat
def encU64 (v : UInt64) : Bytes := leBytes 8 v.toNat

/-- An optional field: a zero byte, or a one byte and the field. -/
def encOption {α : Type} (enc : α → Bytes) : Option α → Bytes
  | none => encU8 0
  | some a => encU8 1 ++ enc a

@[simp] theorem length_encU8 (v : UInt8) : (encU8 v).length = 1 := rfl
@[simp] theorem length_encU16 (v : UInt16) : (encU16 v).length = 2 := length_leBytes 2 _
@[simp] theorem length_encU32 (v : UInt32) : (encU32 v).length = 4 := length_leBytes 4 _
@[simp] theorem length_encU64 (v : UInt64) : (encU64 v).length = 8 := length_leBytes 8 _

theorem length_flatMap_of_length {α : Type} {enc : α → Bytes} {w : Nat}
    (h : ∀ a, (enc a).length = w) (xs : List α) : (xs.flatMap enc).length = w * xs.length := by
  induction xs with
  | nil => rfl
  | cons x xs ih => rw [List.flatMap_cons, List.length_append, ih, h, List.length_cons]; ring

/-! ## Readers -/

/-- A reader: takes bytes from the front of the input, or refuses. -/
abbrev Dec (α : Type) := StateT Bytes Option α

namespace Dec

variable {α β : Type}

/-- The next `n` bytes. -/
def bytes (n : Nat) : Dec Bytes := fun input =>
  if input.length < n then none else some (input.take n, input.drop n)

def u8 : Dec UInt8 := do return UInt8.ofNat (leNat (← bytes 1))
def u16 : Dec UInt16 := do return UInt16.ofNat (leNat (← bytes 2))
def u32 : Dec UInt32 := do return UInt32.ofNat (leNat (← bytes 4))
def u64 : Dec UInt64 := do return UInt64.ofNat (leNat (← bytes 8))

/-- How many bytes are left. -/
def remaining : Dec Nat := fun input => some (input.length, input)

/-- Refuse unless the condition holds. -/
def require (b : Bool) : Dec Unit := fun input => if b then some ((), input) else none

/-- A value that may be missing: refuse where it is. -/
def ofOption (x : Option α) : Dec α := fun input => x.map fun a => (a, input)

/-- Refuse unless the input is used up. -/
def finish : Dec Unit := fun input => if input.isEmpty then some ((), input) else none

/-- An optional field, marked by a zero or one byte. -/
def option (d : Dec α) : Dec (Option α) := do
  let tag ← u8
  if tag = 0 then return none
  require (tag == 1)
  let a ← d
  return some a

/-- The reader run `n` times, results in order. -/
def repeatN (d : Dec α) : Nat → Dec (List α)
  | 0 => pure []
  | n + 1 => do
    let x ← d
    let xs ← repeatN d n
    return x :: xs

/-- The value a reader makes of a byte string. -/
def decode (d : Dec α) (input : Bytes) : Option α := (d input).map Prod.fst

/-! What a reader has read, step by step. -/

variable {input : Bytes}

theorem bind_eq_some {d : Dec α} {f : α → Dec β} {r : β × Bytes} :
    (d >>= f) input = some r ↔ ∃ a rest, d input = some (a, rest) ∧ f a rest = some r := by
  simp only [bind, StateT.bind, Option.bind_eq_some_iff, Prod.exists]

theorem require_eq_some {b : Bool} {r : Unit × Bytes} :
    require b input = some r ↔ b = true ∧ r = ((), input) := by
  cases b <;> simp [require, eq_comm]

theorem pure_eq_some {a : α} {r : α × Bytes} :
    (pure a : Dec α) input = some r ↔ r = (a, input) := by
  simp [pure, StateT.pure, eq_comm]

theorem finish_eq_some {r : Unit × Bytes} : finish input = some r ↔ input = [] ∧ r = ((), []) := by
  by_cases h : input = []
  · subst h
    simp [finish, eq_comm]
  · simp [finish, h]

theorem ofOption_eq_some {x : Option α} {r : α × Bytes} :
    ofOption x input = some r ↔ ∃ a, x = some a ∧ r = (a, input) := by
  simp [ofOption, eq_comm]

theorem bytes_eq_some {n : Nat} {r : Bytes × Bytes} :
    bytes n input = some r ↔ r.1.length = n ∧ input = r.1 ++ r.2 := by
  rw [bytes]
  constructor
  · intro h
    split at h
    case isTrue => nomatch h
    case isFalse hle =>
      obtain rfl := Option.some.inj h
      exact ⟨List.length_take_of_le (Nat.le_of_not_lt hle), (List.take_append_drop n input).symm⟩
  · rintro ⟨rfl, rfl⟩
    simp

end Dec

/-! ## Reading back what was written -/

/-- Run on `bs` followed by anything, `d` takes exactly `bs` and returns `a`. -/
def Reads {α : Type} (d : Dec α) (bs : Bytes) (a : α) : Prop :=
  ∀ rest : Bytes, d (bs ++ rest) = some (a, rest)

namespace Reads

variable {α β : Type}

theorem pure (a : α) : Reads (Pure.pure a : Dec α) [] a := fun _ => rfl

variable {d : Dec α} {a : α} {bs : Bytes}

variable {enc : α → Bytes} {b : β} {f : α → Dec β}

/-- What reads back tells its values apart. -/
theorem injective (h : ∀ a, Reads d (enc a) a) : Function.Injective enc := by
  intro a b hab
  have ha := h a []
  rw [hab, h b []] at ha
  exact (Prod.mk.inj (Option.some.inj ha)).1.symm

theorem bind {bs' : Bytes} (hd : Reads d bs a) (hf : Reads (f a) bs' b) :
    Reads (d >>= f) (bs ++ bs') b := by
  intro rest
  rw [List.append_assoc]
  show (d (bs ++ (bs' ++ rest))).bind (fun p => f p.1 p.2) = _
  rw [hd (bs' ++ rest)]
  exact hf rest

theorem require {b : Bool} (hb : b = true) : Reads (Dec.require b) [] () := by
  intro rest
  rw [Dec.require, if_pos hb, List.nil_append]

/-- The last field: what follows it reads nothing more. -/
theorem bind_last (hd : Reads d bs a) (hf : Reads (f a) [] b) : Reads (d >>= f) bs b := by
  have h := bind hd hf
  rwa [List.append_nil] at h

/-- A guard in front of a reader takes no bytes. -/
theorem require_bind {b : Bool} (hb : b = true) (hd : Reads d bs a) :
    Reads (Dec.require b >>= fun _ => d) bs a :=
  bind (require hb) hd

theorem ofOption {x : Option α} (h : x = some a) : Reads (Dec.ofOption x) [] a := by
  intro rest
  rw [Dec.ofOption, h, Option.map_some, List.nil_append]

theorem ofOption_bind {x : Option α} (h : x = some a) (hf : Reads (f a) bs b) :
    Reads (Dec.ofOption x >>= f) bs b :=
  bind (ofOption h) hf

theorem bytes (bs : Bytes) : Reads (Dec.bytes bs.length) bs bs := by
  intro rest
  simp [Dec.bytes]

theorem bytes_of_length {n : Nat} (h : bs.length = n) : Reads (Dec.bytes n) bs bs :=
  h ▸ bytes bs

theorem u8 (v : UInt8) : Reads Dec.u8 (encU8 v) v := by
  have h : Reads Dec.u8 (encU8 v) (UInt8.ofNat (leNat (encU8 v))) :=
    bind_last (bytes_of_length (length_encU8 v)) (pure _)
  simpa [encU8, leNat] using h

theorem u16 (v : UInt16) : Reads Dec.u16 (encU16 v) v := by
  have h : Reads Dec.u16 (encU16 v) (UInt16.ofNat (leNat (encU16 v))) :=
    bind_last (bytes_of_length (length_encU16 v)) (pure _)
  rwa [encU16, leNat_leBytes_of_lt v.toNat_lt, UInt16.ofNat_toNat] at h

theorem u32 (v : UInt32) : Reads Dec.u32 (encU32 v) v := by
  have h : Reads Dec.u32 (encU32 v) (UInt32.ofNat (leNat (encU32 v))) :=
    bind_last (bytes_of_length (length_encU32 v)) (pure _)
  rwa [encU32, leNat_leBytes_of_lt v.toNat_lt, UInt32.ofNat_toNat] at h

theorem u64 (v : UInt64) : Reads Dec.u64 (encU64 v) v := by
  have h : Reads Dec.u64 (encU64 v) (UInt64.ofNat (leNat (encU64 v))) :=
    bind_last (bytes_of_length (length_encU64 v)) (pure _)
  rwa [encU64, leNat_leBytes_of_lt v.toNat_lt, UInt64.ofNat_toNat] at h

theorem option (o : Option α) (h : ∀ a ∈ o, Reads d (enc a) a) :
    Reads (Dec.option d) (encOption enc o) o := by
  cases o with
  | none => exact bind_last (u8 0) (pure none)
  | some a => exact bind (u8 1) (require_bind rfl (bind_last (h a rfl) (pure (some a))))

/-- A counted loop reads back the concatenation of its items. -/
theorem repeatN (xs : List α) (h : ∀ x ∈ xs, Reads d (enc x) x) :
    Reads (Dec.repeatN d xs.length) (xs.flatMap enc) xs := by
  induction xs with
  | nil => exact pure []
  | cons x xs ih =>
    have htail := ih fun y hy => h y (List.mem_cons_of_mem x hy)
    exact bind (h x List.mem_cons_self)
      (bind_last (f := fun ys => Pure.pure (x :: ys)) htail (pure (x :: xs)))

end Reads

/-! A number is read from the bytes that encode it and from no others. -/

namespace Dec

variable {input : Bytes}

/-- A number made of the bytes that were read. -/
theorem map_bytes_eq_some {α : Type} {w : Nat} {ofNat : Nat → α} {enc : α → Bytes}
    (henc : ∀ bs : Bytes, bs.length = w → enc (ofNat (leNat bs)) = bs) {r : α × Bytes}
    (h : (bytes w >>= fun bs => (pure (ofNat (leNat bs)) : Dec α)) input = some r) :
    input = enc r.1 ++ r.2 := by
  obtain ⟨bs, rest, hbs, hr⟩ := bind_eq_some.mp h
  obtain ⟨hlen, rfl⟩ := bytes_eq_some.mp hbs
  obtain rfl := pure_eq_some.mp hr
  rw [henc bs hlen]

theorem u8_eq_some {r : UInt8 × Bytes} : u8 input = some r ↔ input = encU8 r.1 ++ r.2 := by
  refine ⟨map_bytes_eq_some fun bs hbs => ?_, fun h => h ▸ Reads.u8 r.1 r.2⟩
  obtain ⟨b, rfl⟩ := List.length_eq_one_iff.mp hbs
  simp [encU8, leNat]

theorem u16_eq_some {r : UInt16 × Bytes} : u16 input = some r ↔ input = encU16 r.1 ++ r.2 := by
  refine ⟨map_bytes_eq_some fun bs hbs => ?_, fun h => h ▸ Reads.u16 r.1 r.2⟩
  have hlt : leNat bs < 2 ^ 16 := lt_of_lt_of_eq (leNat_lt bs) (by rw [hbs]; rfl)
  rw [encU16, UInt16.toNat_ofNat', Nat.mod_eq_of_lt hlt, ← hbs, leBytes_leNat]

theorem u32_eq_some {r : UInt32 × Bytes} : u32 input = some r ↔ input = encU32 r.1 ++ r.2 := by
  refine ⟨map_bytes_eq_some fun bs hbs => ?_, fun h => h ▸ Reads.u32 r.1 r.2⟩
  have hlt : leNat bs < 2 ^ 32 := lt_of_lt_of_eq (leNat_lt bs) (by rw [hbs]; rfl)
  rw [encU32, UInt32.toNat_ofNat', Nat.mod_eq_of_lt hlt, ← hbs, leBytes_leNat]

theorem u64_eq_some {r : UInt64 × Bytes} : u64 input = some r ↔ input = encU64 r.1 ++ r.2 := by
  refine ⟨map_bytes_eq_some fun bs hbs => ?_, fun h => h ▸ Reads.u64 r.1 r.2⟩
  have hlt : leNat bs < 2 ^ 64 := lt_of_lt_of_eq (leNat_lt bs) (by rw [hbs]; rfl)
  rw [encU64, UInt64.toNat_ofNat', Nat.mod_eq_of_lt hlt, ← hbs, leBytes_leNat]

end Dec

/-! ## Readers that accept one form of each value

`Reads` says that what was written reads back.  `Exact` adds the other direction: what the reader
accepts is the encoding of the value it returns, so no value has a second form.  The rules of
`Accepts` follow a reader field by field, as those of `Reads` do. -/

/-- Whatever `d` accepts, `post` holds of its answer, of the bytes it took and of the rest. -/
def Accepts {α : Type} (d : Dec α) (post : α → Bytes → Bytes → Prop) : Prop :=
  ∀ input a rest, d input = some (a, rest) → ∃ bs, input = bs ++ rest ∧ post a bs rest

/-- `d` accepts the encodings of valid values, and nothing else. -/
def Exact {α : Type} (d : Dec α) (enc : α → Bytes) (valid : α → Prop) : Prop :=
  ∀ input (r : α × Bytes), d input = some r ↔ input = enc r.1 ++ r.2 ∧ valid r.1

namespace Accepts

variable {α β : Type} {post : β → Bytes → Bytes → Prop}

theorem pure {b : β} (h : ∀ rest, post b [] rest) : Accepts (Pure.pure b : Dec β) post := by
  intro input a rest hread
  obtain ⟨rfl, rfl⟩ := Prod.mk.inj (Dec.pure_eq_some.mp hread)
  exact ⟨[], rfl, h _⟩

theorem ofOption {x : Option β} (h : ∀ b, x = some b → ∀ rest, post b [] rest) :
    Accepts (Dec.ofOption x) post := by
  intro input a rest hread
  obtain ⟨b, hb, heq⟩ := Dec.ofOption_eq_some.mp hread
  obtain ⟨rfl, rfl⟩ := Prod.mk.inj heq
  exact ⟨[], rfl, h _ hb _⟩

variable {f : α → Dec β}

theorem bind_accepts {d : Dec α} {p : α → Bytes → Bytes → Prop} (hd : Accepts d p)
    (hf : ∀ a bs rest, p a bs rest → Accepts (f a) fun b bs' rest' => post b (bs ++ bs') rest') :
    Accepts (d >>= f) post := by
  intro input b rest hread
  obtain ⟨a, middle, ha, hb⟩ := Dec.bind_eq_some.mp hread
  obtain ⟨bs, rfl, hp⟩ := hd _ _ _ ha
  obtain ⟨bs', rfl, hpost⟩ := hf a bs _ hp _ _ _ hb
  exact ⟨bs ++ bs', (List.append_assoc _ _ _).symm, hpost⟩

/-- A field in front: the bytes taken start with its encoding. -/
theorem bind {d : Dec α} {enc : α → Bytes} {valid : α → Prop} (hd : Exact d enc valid)
    (hf : ∀ a, valid a → Accepts (f a) fun b bs rest => post b (enc a ++ bs) rest) :
    Accepts (d >>= f) post := by
  have hfield : Accepts d fun a bs _ => bs = enc a ∧ valid a :=
    fun _ a _ h => ⟨enc a, (hd _ _).mp h |>.1, rfl, (hd _ _).mp h |>.2⟩
  refine bind_accepts hfield fun a bs _ h => ?_
  rw [h.1]
  exact hf a h.2

theorem require_bind {c : Bool} {d : Dec β} (hd : c = true → Accepts d post) :
    Accepts (Dec.require c >>= fun _ => d) post := by
  intro input b rest hread
  obtain ⟨_, _, hguard, hb⟩ := Dec.bind_eq_some.mp hread
  obtain ⟨hc, heq⟩ := Dec.require_eq_some.mp hguard
  obtain ⟨-, rfl⟩ := Prod.mk.inj heq
  exact hd hc _ _ _ hb

/-- A field that must have one value. -/
theorem expect_bind [BEq α] [LawfulBEq α] {d : Dec α} {enc : α → Bytes} {valid : α → Prop} {a : α}
    (hd : Exact d enc valid) (hf : Accepts (f a) fun b bs rest => post b (enc a ++ bs) rest) :
    Accepts (d >>= fun x => Dec.require (x == a) >>= fun _ => f x) post :=
  bind hd fun x _ => require_bind fun hx => by rwa [beq_iff_eq.mp hx]

theorem ofOption_bind {x : Option α} (hf : ∀ a, x = some a → Accepts (f a) post) :
    Accepts (Dec.ofOption x >>= f) post := by
  intro input b rest hread
  obtain ⟨_, _, hvalue, hb⟩ := Dec.bind_eq_some.mp hread
  obtain ⟨a, ha, heq⟩ := Dec.ofOption_eq_some.mp hvalue
  obtain ⟨rfl, rfl⟩ := Prod.mk.inj heq
  exact hf _ ha _ _ _ hb

/-- After `finish` nothing is left. -/
theorem finish_bind {d : Dec β} (hd : Accepts d fun b bs rest => rest = [] → post b bs rest) :
    Accepts (Dec.finish >>= fun _ => d) post := by
  intro input b rest hread
  obtain ⟨_, _, hfinish, hb⟩ := Dec.bind_eq_some.mp hread
  obtain ⟨rfl, heq⟩ := Dec.finish_eq_some.mp hfinish
  obtain ⟨-, rfl⟩ := Prod.mk.inj heq
  obtain ⟨bs, hbs, hpost⟩ := hd _ _ _ hb
  exact ⟨bs, hbs, hpost (List.append_eq_nil_iff.mp hbs.symm).2⟩

end Accepts

namespace Exact

variable {α : Type} {d : Dec α} {enc : α → Bytes} {valid : α → Prop}

theorem of_reads (hreads : ∀ a, valid a → Reads d (enc a) a)
    (haccepts : Accepts d fun a bs _ => bs = enc a ∧ valid a) : Exact d enc valid := by
  intro input r
  constructor
  · intro h
    obtain ⟨_, rfl, rfl, hvalid⟩ := haccepts _ _ _ h
    exact ⟨rfl, hvalid⟩
  · rintro ⟨rfl, hvalid⟩
    exact hreads r.1 hvalid r.2

theorem u8 : Exact Dec.u8 encU8 fun _ => True := fun _ _ => by
  rw [Dec.u8_eq_some, and_true]

theorem u16 : Exact Dec.u16 encU16 fun _ => True := fun _ _ => by
  rw [Dec.u16_eq_some, and_true]

theorem u32 : Exact Dec.u32 encU32 fun _ => True := fun _ _ => by
  rw [Dec.u32_eq_some, and_true]

theorem u64 : Exact Dec.u64 encU64 fun _ => True := fun _ _ => by
  rw [Dec.u64_eq_some, and_true]

/-- An optional field is absent or the encoding of a valid value. -/
theorem option (h : Exact d enc valid) :
    Exact (Dec.option d) (encOption enc) fun o => ∀ a ∈ o, valid a := by
  refine of_reads (fun o ho => Reads.option o fun a ha rest => ?_) (Accepts.bind u8 fun tag _ => ?_)
  · exact (h _ (a, rest)).mpr ⟨rfl, ho a ha⟩
  · by_cases h0 : tag = 0
    · rw [if_pos h0, h0]
      exact Accepts.pure fun _ => ⟨rfl, fun a ha => nomatch ha⟩
    · rw [if_neg h0]
      refine Accepts.require_bind fun hone => Accepts.bind h fun a hvalid => ?_
      rw [beq_iff_eq.mp hone]
      refine Accepts.pure fun _ => ⟨by rw [List.append_nil]; rfl, fun b hb => ?_⟩
      exact Option.some.inj hb ▸ hvalid

/-- A counted loop accepts the concatenated encodings of that many valid values. -/
theorem repeatN (h : Exact d enc valid) (n : Nat) :
    Exact (Dec.repeatN d n) (List.flatMap enc) fun xs => xs.length = n ∧ ∀ x ∈ xs, valid x := by
  induction n with
  | zero =>
    refine of_reads (fun xs hxs => ?_) (Accepts.pure fun _ => ⟨rfl, rfl, fun x hx => nomatch hx⟩)
    obtain rfl := List.length_eq_zero_iff.mp hxs.1
    exact Reads.pure []
  | succ n ih =>
    refine of_reads (fun xs hxs => ?_) (Accepts.bind h fun x hx => Accepts.bind ih fun xs hxs =>
      Accepts.pure fun _ => ⟨by rw [List.append_nil]; rfl, ?_, ?_⟩)
    · rw [← hxs.1]
      exact Reads.repeatN xs fun x hx rest => (h _ (x, rest)).mpr ⟨rfl, hxs.2 x hx⟩
    · rw [List.length_cons, hxs.1]
    · exact List.forall_mem_cons.mpr ⟨hx, hxs.2⟩

end Exact

/-! ## Decoding a whole input -/

/-- Run on exactly `bs`, `d` uses all of it and returns `a`. -/
def Decodes {α : Type} (d : Dec α) (bs : Bytes) (a : α) : Prop := d bs = some (a, [])

namespace Decodes

variable {α β : Type}

theorem pure (a : α) : Decodes (Pure.pure a : Dec α) [] a := rfl

variable {a : α} {b : β} {bs : Bytes} {d : Dec α}

variable {f : α → Dec β}

theorem bind {bs' : Bytes} (hd : Reads d bs a) (hf : Decodes (f a) bs' b) :
    Decodes (d >>= f) (bs ++ bs') b := by
  show (d (bs ++ bs')).bind (fun p => f p.1 p.2) = _
  rw [hd bs']
  exact hf

/-- The last field: what follows it reads nothing more. -/
theorem bind_last (hd : Reads d bs a) (hf : Decodes (f a) [] b) : Decodes (d >>= f) bs b := by
  have h := bind hd hf
  rwa [List.append_nil] at h

theorem require_bind {b : Bool} (hb : b = true) (hd : Decodes d bs a) :
    Decodes (Dec.require b >>= fun _ => d) bs a :=
  bind (Reads.require hb) hd

theorem ofOption_bind {x : Option α} (h : x = some a) (hf : Decodes (f a) bs b) :
    Decodes (Dec.ofOption x >>= f) bs b :=
  bind (Reads.ofOption h) hf

theorem remaining_bind {f : Nat → Dec β} {n : Nat} (hn : bs.length = n) (hf : Decodes (f n) bs b) :
    Decodes (Dec.remaining >>= f) bs b := by
  show f bs.length bs = _
  rw [hn]
  exact hf

/-- Once the input is used up, `finish` passes. -/
theorem finish_bind (hd : Decodes d [] a) : Decodes (Dec.finish >>= fun _ => d) [] a := hd

theorem decode (h : Decodes d bs a) : d.decode bs = some a := by
  rw [Dec.decode, h, Option.map_some]

end Decodes

/-- As a decoder of whole inputs, `d` accepts the encodings of valid values, and nothing else. -/
def DecodesExactly {α : Type} (d : Dec α) (enc : α → Bytes) (valid : α → Prop) : Prop :=
  ∀ input a, d.decode input = some a ↔ input = enc a ∧ valid a

theorem DecodesExactly.of_decodes {α : Type} {d : Dec α} {enc : α → Bytes} {valid : α → Prop}
    (hdecodes : ∀ a, valid a → Decodes d (enc a) a)
    (haccepts : Accepts d fun a bs rest => rest = [] ∧ bs = enc a ∧ valid a) :
    DecodesExactly d enc valid := by
  intro input a
  constructor
  · intro h
    obtain ⟨⟨_, rest⟩, hread, rfl⟩ := Option.map_eq_some_iff.mp h
    obtain ⟨bs, rfl, rfl, rfl, hvalid⟩ := haccepts _ _ _ hread
    exact ⟨List.append_nil _, hvalid⟩
  · rintro ⟨rfl, hvalid⟩
    exact (hdecodes a hvalid).decode


end Codec
