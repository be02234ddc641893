import Mathlib
import Blockd.Lib.Maps

/-!
# Keeping the newest

A scan over a list that keeps the item of the greatest rank seen so far.  Among items of equal rank
the scan keeps the last one (`pick`) or the first one (`pickFirst`).  `pick_eq_some` and
`pickFirst_eq_some` say what is kept: an item of the list that no other outranks.

`keep` is the same scan for many keys at once: it keeps one item for every key, the last of those of
the greatest rank (`getElem?_keepAll_iff`).
-/

set_option autoImplicit false

namespace Newest

variable {α ρ : Type} [LinearOrder ρ] (rank : α → ρ)

/-- The better of the best so far and a new item, which wins among equals. -/
def later (best : Option α) (a : α) : Option α :=
  if best.all fun b => decide (rank b ≤ rank a) then some a else best

/-- The better of the best so far and a new item, which has to be strictly better. -/
def stricter (best : Option α) (a : α) : Option α :=
  if best.all fun b => decide (rank b < rank a) then some a else best

/-- The item of the greatest rank, the last one among equals. -/
def pick (items : List α) : Option α := items.foldl (later rank) none

/-- The item of the greatest rank, the first one among equals. -/
def pickFirst (items : List α) : Option α := items.foldl (stricter rank) none

theorem pick_append_singleton (items : List α) (a : α) :
    pick rank (items ++ [a]) = later rank (pick rank items) a := by
  rw [pick, List.foldl_append]
  rfl

theorem later_cases (best : Option α) (a : α) :
    (later rank best a = some a ∧ ∀ b ∈ best, rank b ≤ rank a) ∨
      ∃ b ∈ best, later rank best a = some b ∧ rank a ≤ rank b := by
  unfold later
  split <;> rename_i h <;> cases best <;> simp_all [le_of_lt]

theorem stricter_cases (best : Option α) (a : α) :
    (stricter rank best a = some a ∧ ∀ b ∈ best, rank b ≤ rank a) ∨
      ∃ b ∈ best, stricter rank best a = some b ∧ rank a ≤ rank b := by
  unfold stricter
  split <;> rename_i h <;> cases best <;> simp_all [le_of_lt]

variable {rank} {items : List α} {a b : α}

section

variable {choose : Option α → α → Option α}
  (hchoose : ∀ best a, (choose best a = some a ∧ ∀ b ∈ best, rank b ≤ rank a) ∨
    ∃ b ∈ best, choose best a = some b ∧ rank a ≤ rank b)
include hchoose

/-- A scan that keeps the better of two items keeps one. -/
theorem foldl_eq_none : items.foldl choose none = none ↔ items = [] := by
  refine ⟨fun h => ?_, fun h => by rw [h, List.foldl_nil]⟩
  induction items using List.reverseRecOn with
  | nil => rfl
  | append_singleton items c ih =>
    rw [List.foldl_append, List.foldl_cons, List.foldl_nil] at h
    rcases hchoose (items.foldl choose none) c with ⟨heq, -⟩ | ⟨b, -, heq, -⟩ <;>
      cases h.symm.trans heq

/-- What it keeps is an item that no other outranks. -/
theorem foldl_eq_some (h : items.foldl choose none = some a) :
    a ∈ items ∧ ∀ b ∈ items, rank b ≤ rank a := by
  induction items using List.reverseRecOn generalizing a with
  | nil => cases h
  | append_singleton items c ih =>
    rw [List.foldl_append, List.foldl_cons, List.foldl_nil] at h
    simp only [List.mem_append, List.mem_singleton]
    rcases hchoose (items.foldl choose none) c with ⟨heq, hle⟩ | ⟨best, hbest, heq, hle⟩
    · cases h.symm.trans heq
      refine ⟨.inr rfl, fun b hb => hb.elim (fun hb => ?_) fun hb => (congrArg rank hb).le⟩
      obtain ⟨best, hbest⟩ := Option.ne_none_iff_exists'.mp
        ((foldl_eq_none hchoose).not.mpr (List.ne_nil_of_mem hb))
      exact ((ih hbest).2 b hb).trans (hle best hbest)
    · cases h.symm.trans heq
      obtain ⟨hmem, hmax⟩ := ih hbest
      exact ⟨.inl hmem, fun b hb => hb.elim (hmax b) fun hb => hb ▸ hle⟩

end

theorem pick_eq_none : pick rank items = none ↔ items = [] := foldl_eq_none (later_cases rank)

theorem pickFirst_eq_none : pickFirst rank items = none ↔ items = [] :=
  foldl_eq_none (stricter_cases rank)

theorem pick_eq_some (h : pick rank items = some a) : a ∈ items ∧ ∀ b ∈ items, rank b ≤ rank a :=
  foldl_eq_some (later_cases rank) h

theorem pickFirst_eq_some (h : pickFirst rank items = some a) :
    a ∈ items ∧ ∀ b ∈ items, rank b ≤ rank a :=
  foldl_eq_some (stricter_cases rank) h

/-- In a list that is sorted by a second rank, the last one among equals is the one that is greatest by
that. -/
theorem pick_eq_pick_lex {τ : Type} [LinearOrder τ] {tie : α → τ}
    (h : items.Pairwise fun a b => tie a ≤ tie b) :
    pick rank items = pick (fun a => toLex (rank a, tie a)) items := by
  induction items using List.reverseRecOn with
  | nil => rfl
  | append_singleton items c ih =>
    obtain ⟨hitems, -, hlast⟩ := List.pairwise_append.mp h
    rw [pick_append_singleton, pick_append_singleton, ← ih hitems]
    cases hbest : pick rank items with
    | none => rfl
    | some best =>
      have htie : tie best ≤ tie c := hlast best (pick_eq_some hbest).1 c (List.mem_singleton_self c)
      simp [later, Prod.Lex.toLex_le_toLex, htie, ← le_iff_lt_or_eq]

/-! ## One item for every key -/

section

variable {κ : Type} [LinearOrder κ] (key : α → κ) (rank)

/-- Keep the better of the item of its key so far and a new item, which wins among equals. -/
def keep (newest : Std.ExtTreeMap κ α) (a : α) : Std.ExtTreeMap κ α :=
  if (newest[key a]?).all fun old => decide (rank old ≤ rank a) then newest.insert (key a) a
  else newest

def keepAll (newest : Std.ExtTreeMap κ α) (items : List α) : Std.ExtTreeMap κ α :=
  items.foldl (keep rank key) newest

variable {key rank} {newest : Std.ExtTreeMap κ α} {k : κ}

theorem keepAll_append (items others : List α) : keepAll rank key newest (items ++ others) =
    keepAll rank key (keepAll rank key newest items) others :=
  List.foldl_append ..

theorem of_getElem?_keep (h : (keep rank key newest a)[k]? = some b) :
    (b = a ∧ key a = k) ∨ newest[k]? = some b := by
  rw [keep] at h
  split at h
  · rw [Maps.getElem?_insert] at h
    split at h
    · rename_i heq
      exact .inl ⟨(Option.some.inj h).symm, heq⟩
    · exact .inr h
  · exact .inr h

/-- Every item is outranked by the kept item of its key. -/
theorem exists_getElem?_keep_self : ∃ b, (keep rank key newest a)[key a]? = some b ∧
    rank a ≤ rank b := by
  rw [keep]
  split
  · exact ⟨a, Std.ExtTreeMap.getElem?_insert_self, le_rfl⟩
  · rename_i hall
    cases hold : newest[key a]? with
    | none => simp [hold] at hall
    | some old =>
      rw [hold, Option.all_some, decide_eq_true_eq, not_le] at hall
      exact ⟨old, rfl, hall.le⟩

/-- The kept items only get better. -/
theorem exists_getElem?_keep (h : newest[k]? = some b) :
    ∃ c, (keep rank key newest a)[k]? = some c ∧ rank b ≤ rank c := by
  rw [keep]
  split
  · rename_i hall
    rw [Maps.getElem?_insert]
    split
    · rename_i heq
      rw [heq, h, Option.all_some, decide_eq_true_eq] at hall
      exact ⟨a, rfl, hall⟩
    · exact ⟨b, h, le_rfl⟩
  · exact ⟨b, h, le_rfl⟩

/-- What a scan keeps is an item of the list or was there before. -/
theorem of_getElem?_keepAll (h : (keepAll rank key newest items)[k]? = some b) :
    (b ∈ items ∧ key b = k) ∨ newest[k]? = some b := by
  induction items generalizing newest with
  | nil => exact .inr h
  | cons a items ih =>
    rcases ih h with ⟨hmem, hkey⟩ | hget
    · exact .inl ⟨List.mem_cons_of_mem _ hmem, hkey⟩
    · rcases of_getElem?_keep hget with ⟨rfl, hkey⟩ | hget
      · exact .inl ⟨List.mem_cons_self, hkey⟩
      · exact .inr hget

theorem exists_getElem?_keepAll_of_getElem? (h : newest[k]? = some b) :
    ∃ c, (keepAll rank key newest items)[k]? = some c ∧ rank b ≤ rank c := by
  induction items generalizing newest b with
  | nil => exact ⟨b, h, le_rfl⟩
  | cons a items ih =>
    obtain ⟨c, hc, hbc⟩ : ∃ c, (keep rank key newest a)[k]? = some c ∧ rank b ≤ rank c :=
      exists_getElem?_keep h
    obtain ⟨d, hd, hcd⟩ := ih hc
    exact ⟨d, hd, hbc.trans hcd⟩

/-- A scan keeps an item of every key, and none of the list outranks it. -/
theorem exists_getElem?_keepAll (h : a ∈ items) :
    ∃ b, (keepAll rank key newest items)[key a]? = some b ∧ rank a ≤ rank b := by
  induction items generalizing newest with
  | nil => cases h
  | cons c items ih =>
    rcases List.mem_cons.mp h with rfl | h
    · obtain ⟨b, hb, hab⟩ : ∃ b, (keep rank key newest a)[key a]? = some b ∧ rank a ≤ rank b :=
        exists_getElem?_keep_self
      obtain ⟨d, hd, hbd⟩ : ∃ d, (keepAll rank key (keep rank key newest a) items)[key a]? =
          some d ∧ rank b ≤ rank d := exists_getElem?_keepAll_of_getElem? hb
      exact ⟨d, hd, hab.trans hbd⟩
    · exact ih h

theorem getElem?_keepAll_of_lt (ha : newest[k]? = some a)
    (h : ∀ b ∈ items, key b = k → rank b < rank a) :
    (keepAll rank key newest items)[k]? = some a := by
  induction items generalizing newest with
  | nil => exact ha
  | cons b items ih =>
    refine ih ?_ fun c hc => h c (List.mem_cons_of_mem b hc)
    rw [keep]
    split
    · rename_i hall
      rw [Maps.getElem?_insert, if_neg, ha]
      intro hkey
      rw [hkey, ha, Option.all_some, decide_eq_true_eq] at hall
      exact absurd hall (h b List.mem_cons_self hkey).not_ge
    · exact ha

/-- An item is kept if none before it outranks it and it outranks those after it. -/
theorem getElem?_keepAll_append_cons {before after : List α}
    (hbefore : ∀ b ∈ before, key b = key a → rank b ≤ rank a)
    (hafter : ∀ b ∈ after, key b = key a → rank b < rank a) :
    (keepAll rank key ∅ (before ++ a :: after))[key a]? = some a := by
  have hsplit : keepAll rank key ∅ (before ++ a :: after) =
      keepAll rank key (keep rank key (keepAll rank key ∅ before) a) after := by
    rw [keepAll, List.foldl_append, List.foldl_cons]
    rfl
  rw [hsplit]
  refine getElem?_keepAll_of_lt ?_ hafter
  rw [keep, if_pos, Std.ExtTreeMap.getElem?_insert_self]
  cases hold : (keepAll rank key ∅ before)[key a]? with
  | none => rfl
  | some old =>
    rcases of_getElem?_keepAll hold with ⟨hmem, hkey⟩ | hnone
    · simpa using hbefore old hmem hkey
    · simp at hnone

/-- The item is the last of those of the greatest rank among the items of the key. -/
def LastGreatest (rank : α → ρ) (key : α → κ) (items : List α) (k : κ) (a : α) : Prop :=
  ∃ before after, items = before ++ a :: after ∧ key a = k ∧
    (∀ b ∈ before, key b = k → rank b ≤ rank a) ∧ ∀ b ∈ after, key b = k → rank b < rank a

theorem exists_lastGreatest (h : ∃ b ∈ items, key b = k) : ∃ a, LastGreatest rank key items k a := by
  induction items with
  | nil => simp at h
  | cons c items ih =>
    by_cases htail : ∃ b ∈ items, key b = k
    · obtain ⟨a, before, after, rfl, hkey, hbefore, hafter⟩ := ih htail
      by_cases hc : key c = k ∧ rank a < rank c
      · refine ⟨c, [], before ++ a :: after, rfl, hc.1, by simp, fun b hb hbk => ?_⟩
        rcases List.mem_append.mp hb with hb | hb
        · exact (hbefore b hb hbk).trans_lt hc.2
        · rcases List.mem_cons.mp hb with rfl | hb
          · exact hc.2
          · exact (hafter b hb hbk).trans hc.2
      · refine ⟨a, c :: before, after, rfl, hkey, fun b hb hbk => ?_, hafter⟩
        rcases List.mem_cons.mp hb with rfl | hb
        · exact not_lt.mp fun hlt => hc ⟨hbk, hlt⟩
        · exact hbefore b hb hbk
    · obtain ⟨b, hb, hbk⟩ := h
      rcases List.mem_cons.mp hb with rfl | hb
      · exact ⟨b, [], items, rfl, hbk, by simp, fun c hc hck => absurd ⟨c, hc, hck⟩ htail⟩
      · exact absurd ⟨b, hb, hbk⟩ htail

omit [LinearOrder κ] in
theorem lastGreatest_map {β : Type} {f : β → α} {items : List β} :
    LastGreatest rank key (items.map f) k a ↔
      ∃ b, f b = a ∧ LastGreatest (fun b => rank (f b)) (fun b => key (f b)) items k b := by
  constructor
  · rintro ⟨before, after, hsplit, hkey, hbefore, hafter⟩
    obtain ⟨first, rest, rfl, rfl, hrest⟩ := List.map_eq_append_iff.mp hsplit
    obtain ⟨b, last, rfl, rfl, rfl⟩ := List.map_eq_cons_iff.mp hrest
    exact ⟨b, rfl, first, last, rfl, hkey, fun c hc => hbefore (f c) (List.mem_map_of_mem hc),
      fun c hc => hafter (f c) (List.mem_map_of_mem hc)⟩
  · rintro ⟨b, rfl, before, after, rfl, hkey, hbefore, hafter⟩
    refine ⟨before.map f, after.map f, by simp, hkey, ?_, ?_⟩
    · simpa using hbefore
    · simpa using hafter

/-- **A scan keeps the last of the items of the greatest rank**, for every key. -/
theorem getElem?_keepAll_iff :
    (keepAll rank key ∅ items)[k]? = some a ↔ LastGreatest rank key items k a := by
  have hkept : ∀ c, LastGreatest rank key items k c → (keepAll rank key ∅ items)[k]? = some c := by
    rintro c ⟨before, after, rfl, rfl, hbefore, hafter⟩
    exact getElem?_keepAll_append_cons hbefore hafter
  refine ⟨fun ha => ?_, hkept a⟩
  rcases of_getElem?_keepAll ha with hmem | hnone
  · obtain ⟨c, hc⟩ : ∃ c, LastGreatest rank key items k c := exists_lastGreatest ⟨a, hmem⟩
    have heq : a = c := Option.some.inj (ha.symm.trans (hkept c hc))
    exact heq ▸ hc
  · simp at hnone

/-- What a scan keeps is an item of the key that none outranks, and the only one if no two items of
the key have one rank. -/
theorem getElem?_keepAll_eq_some
    (hd : items.Pairwise fun a b => key a = key b → rank a ≠ rank b) :
    (keepAll rank key ∅ items)[k]? = some a ↔
      a ∈ items ∧ key a = k ∧ ∀ b ∈ items, key b = k → rank b ≤ rank a := by
  have hkept : ∀ c, (keepAll rank key ∅ items)[k]? = some c → c ∈ items ∧ key c = k := by
    intro c hc
    rcases of_getElem?_keepAll hc with hmem | hnone
    · exact hmem
    · simp at hnone
  constructor
  · intro ha
    obtain ⟨hmem, hkey⟩ := hkept a ha
    refine ⟨hmem, hkey, fun b hb hbk => ?_⟩
    obtain ⟨c, hc, hbc⟩ : ∃ c, (keepAll rank key ∅ items)[key b]? = some c ∧ rank b ≤ rank c :=
      exists_getElem?_keepAll hb
    rw [hbk, ha] at hc
    exact Option.some.inj hc ▸ hbc
  · rintro ⟨hmem, rfl, hmax⟩
    obtain ⟨c, hc, hac⟩ : ∃ c, (keepAll rank key ∅ items)[key a]? = some c ∧ rank a ≤ rank c :=
      exists_getElem?_keepAll hmem
    obtain ⟨hcmem, hckey⟩ := hkept c hc
    by_cases hne : c = a
    · rw [hc, hne]
    · have : Std.Symm fun a b : α => key a = key b → rank a ≠ rank b :=
        ⟨fun _ _ h heq hrank => h heq.symm hrank.symm⟩
      exact absurd (le_antisymm (hmax c hcmem hckey) hac) (hd.forall hcmem hmem hne hckey)

/-- The items of a map that has every item under its own key. -/
theorem mem_values {m : Std.ExtTreeMap κ α} (hm : ∀ (k : κ) (a : α), m[k]? = some a → key a = k) :
    a ∈ m.toList.map Prod.snd ↔ m[key a]? = some a := by
  rw [List.mem_map]
  constructor
  · rintro ⟨⟨k, a⟩, hp, rfl⟩
    have hk := Std.ExtTreeMap.mem_toList_iff_getElem?_eq_some.mp hp
    rwa [hm k a hk]
  · exact fun h => ⟨(key a, a), Std.ExtTreeMap.mem_toList_iff_getElem?_eq_some.mpr h, rfl⟩

/-- Scanning some of the items of a map gives these. -/
theorem getElem?_keepAll_values {m : Std.ExtTreeMap κ α}
    (hm : ∀ (k : κ) (a : α), m[k]? = some a → key a = k) (p : α → Bool) :
    (keepAll rank key ∅ ((m.toList.map Prod.snd).filter p))[k]? = some a ↔
      m[k]? = some a ∧ p a = true := by
  have hitem : ∀ b, b ∈ (m.toList.map Prod.snd).filter p ↔ m[key b]? = some b ∧ p b = true := by
    intro b
    rw [List.mem_filter, mem_values hm]
  have hd : ((m.toList.map Prod.snd).filter p).Pairwise fun a b => key a = key b → rank a ≠ rank b := by
    refine List.Pairwise.filter p (List.pairwise_map.mpr ?_)
    refine (Maps.pairwise_toList m).imp_of_mem fun {a b} ha hb hlt heq => ?_
    rw [hm _ _ (Std.ExtTreeMap.mem_toList_iff_getElem?_eq_some.mp ha),
      hm _ _ (Std.ExtTreeMap.mem_toList_iff_getElem?_eq_some.mp hb)] at heq
    exact absurd heq hlt.ne
  rw [getElem?_keepAll_eq_some hd, hitem]
  constructor
  · rintro ⟨⟨ha, hp⟩, rfl, -⟩
    exact ⟨ha, hp⟩
  · rintro ⟨ha, hp⟩
    have hkey := hm k a ha
    subst hkey
    refine ⟨⟨ha, hp⟩, rfl, fun b hb hbk => ?_⟩
    have hbget := ((hitem b).mp hb).1
    rw [hbk, ha] at hbget
    rw [Option.some.inj hbget]

end

end Newest
