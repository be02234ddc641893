import Mathlib

/-!
# A versioned object behind a slow network

One object that clients replace by compare-and-swap: a request carries the version it expects and a
value, and takes effect only while that version is the current one.  Requests take effect in their
own time, after any number of other events, and the client may never learn that they did.

The object keeps every version it has had, newest first.  `Chain R` says that each version is
related by `R` to the one it replaced, and `Tracks R` that each request is related by `R` to the
version it expects.  Since a request replaces exactly the version it expects, whenever it arrives,
`Tracks R` is all that has to be shown of the clients: `Chain.land` carries it to the object.
-/

set_option autoImplicit false

namespace Cas

/-- A conditional write a client has sent. -/
structure Request (ν α : Type) where
  expected : ν
  value : α
  /-- The version the write created, once it has taken effect. -/
  landed : Option ν

/-- The object and every request sent to it so far. -/
structure Object (ν α : Type) [LT ν] where
  version : ν
  value : α
  older : List (ν × α)
  requests : List (Request ν α)
  sorted : ((version, value) :: older).Pairwise fun a b => b.1 < a.1
  landed_mem : ∀ r ∈ requests, ∀ v, r.landed = some v → (v, r.value) ∈ (version, value) :: older

namespace Object

variable {ν α : Type}

/-- Every version of the object, newest first. -/
def log [LT ν] (o : Object ν α) : List (ν × α) := (o.version, o.value) :: o.older

/-- An object of which no request is under way. -/
def create [LT ν] (version : ν) (value : α) : Object ν α where
  version := version
  value := value
  older := []
  requests := []
  sorted := List.pairwise_singleton _ _
  landed_mem := by simp

/-- A client sends a conditional write; it is number `o.requests.length`. -/
def send [LT ν] (o : Object ν α) (expected : ν) (value : α) : Object ν α where
  version := o.version
  value := o.value
  older := o.older
  requests := o.requests ++ [⟨expected, value, none⟩]
  sorted := o.sorted
  landed_mem := by
    intro r hr v hv
    rcases List.mem_append.mp hr with hr | hr
    · exact o.landed_mem r hr v hv
    · rw [List.mem_singleton.mp hr] at hv
      cases hv

section

variable [LinearOrder ν]

variable {version v : ν} {o o' : Object ν α} {value : α} {i : Nat}

theorem sorted_cons (o : Object ν α) (value : α) (h : o.version < version) :
    ((version, value) :: o.log).Pairwise fun a b => b.1 < a.1 := by
  refine List.pairwise_cons.mpr ⟨fun e he => ?_, o.sorted⟩
  rcases List.mem_cons.mp he with rfl | he
  · exact h
  · exact lt_trans ((List.pairwise_cons.mp o.sorted).1 e he) h

/-- Another client's write takes effect. -/
def replace (o : Object ν α) (version : ν) (value : α) : Option (Object ν α) :=
  if h : o.version < version then
    some
      { version
        value
        older := o.log
        requests := o.requests
        sorted := o.sorted_cons value h
        landed_mem := fun r hr v hv => List.mem_cons_of_mem _ (o.landed_mem r hr v hv) }
  else none

/-- Request `i` takes effect as a new version, which only the version it expects allows. -/
def land (o : Object ν α) (i : Nat) (version : ν) : Option (Object ν α) :=
  match o.requests[i]? with
  | none => none
  | some r =>
    if h : r.landed = none ∧ r.expected = o.version ∧ o.version < version then
      some
        { version
          value := r.value
          older := o.log
          requests := o.requests.set i { r with landed := some version }
          sorted := o.sorted_cons r.value h.2.2
          landed_mem := by
            intro r' hr' v hv
            rcases List.mem_or_eq_of_mem_set hr' with hr' | rfl
            · exact List.mem_cons_of_mem _ (o.landed_mem r' hr' v hv)
            · cases hv
              exact List.mem_cons_self }
    else none

/-- Request `i` has met another version and can no longer take effect. -/
def conflicts (o : Object ν α) (i : Nat) : Bool :=
  match o.requests[i]? with
  | none => false
  | some r => r.landed.isNone && decide (r.expected ≠ o.version)

/-- The version that request `i` created. -/
def created (o : Object ν α) (i : Nat) : Option ν :=
  (o.requests[i]?).bind Request.landed

/-! ## What the operations do -/

theorem current_mem_log (o : Object ν α) : (o.version, o.value) ∈ o.log := List.mem_cons_self

/-- A version has one value. -/
theorem value_unique (o : Object ν α) {a b : α} (ha : (v, a) ∈ o.log) (hb : (v, b) ∈ o.log) :
    a = b := by
  have hnodup : (o.log.map Prod.fst).Nodup :=
    List.pairwise_map.mpr (o.sorted.imp fun h => ne_of_gt h)
  exact congrArg Prod.snd (List.inj_on_of_nodup_map hnodup ha hb rfl)

theorem replace_eq_some : o.replace version value = some o' → o'.log = (version, value) :: o.log ∧
      o'.requests = o.requests := by
  rw [replace]
  split
  · rintro ⟨⟩
    exact ⟨rfl, rfl⟩
  · rintro ⟨⟩

theorem land_eq_some (h : o.land i version = some o') :
    ∃ r, o.requests[i]? = some r ∧ r.expected = o.version ∧
      o'.log = (version, r.value) :: o.log ∧
      o'.requests = o.requests.set i { r with landed := some version } := by
  rw [land] at h
  split at h
  · cases h
  · rename_i r hr
    split at h
    · rename_i hc
      cases h
      exact ⟨r, hr, hc.2.1, rfl, rfl⟩
    · cases h

/-- A request takes effect at most once. -/
theorem landed_of_land {r : Request ν α} (hr : o.requests[i]? = some r)
    (h : o.land i version = some o') : r.landed = none := by
  rw [land, hr] at h
  by_contra hne
  exact nomatch (dif_neg fun hc => hne hc.1).symm.trans h

/-! ## Relating each version to the one before -/

/-- Every version is related to the one it replaced. -/
def Chain (R : α → α → Prop) (o : Object ν α) : Prop :=
  o.log.IsChain fun new old => R old.2 new.2

/-- Every request is related to the version it expects. -/
def Tracks (R : α → α → Prop) (o : Object ν α) : Prop :=
  ∀ r ∈ o.requests, ∃ old, (r.expected, old) ∈ o.log ∧ R old r.value

variable {R : α → α → Prop}

theorem Chain.create (version : ν) (value : α) : Chain R (create version value) :=
  List.isChain_singleton _

theorem Tracks.create (version : ν) (value : α) : Tracks R (create version value) := by
  intro r hr
  cases hr

theorem Chain.send (h : Chain R o) (expected : ν) (value : α) : Chain R (o.send expected value) := h

theorem Tracks.send (h : Tracks R o) {expected : ν} {old : α} (hold : (expected, old) ∈ o.log)
    (hR : R old value) : Tracks R (o.send expected value) := by
  intro r hr
  rcases List.mem_append.mp hr with hr | hr
  · exact h r hr
  · rw [List.mem_singleton.mp hr]
    exact ⟨old, hold, hR⟩

theorem Chain.replace (h : Chain R o) (hR : R o.value value)
    (ho : o.replace version value = some o') : Chain R o' := by
  rw [Chain, (replace_eq_some ho).1]
  exact List.isChain_cons_cons.mpr ⟨hR, h⟩

theorem Tracks.replace (h : Tracks R o) (ho : o.replace version value = some o') : Tracks R o' := by
  obtain ⟨hlog, hreq⟩ := replace_eq_some ho
  intro r hr
  rw [hreq] at hr
  obtain ⟨old, hold, hR⟩ := h r hr
  exact ⟨old, hlog ▸ List.mem_cons_of_mem _ hold, hR⟩

/-- **No update is lost.**  A request that is related to the version it expects is related to the
version it replaces: they are the same version, whenever the request arrives. -/
theorem Chain.land (h : Chain R o) (ht : Tracks R o) (ho : o.land i version = some o') :
    Chain R o' := by
  obtain ⟨r, hr, hexp, hlog, -⟩ := land_eq_some ho
  obtain ⟨old, hold, hR⟩ := ht r (List.mem_of_getElem? hr)
  rw [hexp] at hold
  rw [o.value_unique hold o.current_mem_log] at hR
  rw [Chain, hlog]
  exact List.isChain_cons_cons.mpr ⟨hR, h⟩

theorem Tracks.land (h : Tracks R o) (ho : o.land i version = some o') : Tracks R o' := by
  obtain ⟨r, hr, -, hlog, hreq⟩ := land_eq_some ho
  intro r' hr'
  rw [hreq] at hr'
  rw [hlog]
  rcases List.mem_or_eq_of_mem_set hr' with hr' | rfl
  · obtain ⟨old, hold, hR⟩ := h r' hr'
    exact ⟨old, List.mem_cons_of_mem _ hold, hR⟩
  · obtain ⟨old, hold, hR⟩ := h r (List.mem_of_getElem? hr)
    exact ⟨old, List.mem_cons_of_mem _ hold, hR⟩

/-! ## Facts about every value -/

/-- Every value that was stored or sent has the property. -/
structure All (P : α → Prop) (o : Object ν α) : Prop where
  log : ∀ e ∈ o.log, P e.2
  requests : ∀ r ∈ o.requests, P r.value

variable {P : α → Prop}

theorem All.create (version : ν) (h : P value) : All P (create version value) where
  log := by
    rintro e he
    rw [List.mem_singleton.mp he]
    exact h
  requests := by
    intro r hr
    cases hr

theorem All.send (h : All P o) (expected : ν) (hv : P value) : All P (o.send expected value) where
  log := h.log
  requests := by
    intro r hr
    rcases List.mem_append.mp hr with hr | hr
    · exact h.requests r hr
    · rw [List.mem_singleton.mp hr]
      exact hv

theorem All.replace (h : All P o) (hv : P value) (ho : o.replace version value = some o') :
    All P o' := by
  obtain ⟨hlog, hreq⟩ := replace_eq_some ho
  refine ⟨fun e he => ?_, fun r hr => h.requests r (hreq ▸ hr)⟩
  rcases List.mem_cons.mp (hlog ▸ he) with rfl | he
  · exact hv
  · exact h.log e he

theorem All.land (h : All P o) (ho : o.land i version = some o') : All P o' := by
  obtain ⟨r, hr, -, hlog, hreq⟩ := land_eq_some ho
  have hvalue := h.requests r (List.mem_of_getElem? hr)
  refine ⟨fun e he => ?_, fun r' hr' => ?_⟩
  · rcases List.mem_cons.mp (hlog ▸ he) with rfl | he
    · exact hvalue
    · exact h.log e he
  · rcases List.mem_or_eq_of_mem_set (hreq ▸ hr') with hr' | rfl
    · exact h.requests r' hr'
    · exact hvalue

/-! ## What later states keep -/

/-- Request `i` was sent with this value. -/
def Sent (o : Object ν α) (i : Nat) (value : α) : Prop :=
  ∃ r, o.requests[i]? = some r ∧ r.value = value

/-- The second state has every version and every request of the first. -/
structure Extends (o o' : Object ν α) : Prop where
  log : ∀ e ∈ o.log, e ∈ o'.log
  sent : ∀ i value, o.Sent i value → o'.Sent i value

theorem Extends.refl (o : Object ν α) : Extends o o := ⟨fun _ h => h, fun _ _ h => h⟩

theorem Extends.send (o : Object ν α) (expected : ν) (value : α) :
    Extends o (o.send expected value) where
  log := fun _ he => he
  sent := by
    rintro i v ⟨r, hr, rfl⟩
    refine ⟨r, ?_, rfl⟩
    rw [Object.send, List.getElem?_append_left (List.getElem?_eq_some_iff.mp hr).1, hr]

theorem sent_send (o : Object ν α) (expected : ν) (value : α) :
    (o.send expected value).Sent o.requests.length value :=
  ⟨⟨expected, value, none⟩, by simp [Object.send], rfl⟩

theorem Extends.replace (ho : o.replace version value = some o') : Extends o o' := by
  obtain ⟨hlog, hreq⟩ := replace_eq_some ho
  exact ⟨fun e he => hlog ▸ List.mem_cons_of_mem _ he, fun i v hs => by rwa [Sent, hreq]⟩

theorem Extends.land (ho : o.land i version = some o') : Extends o o' := by
  obtain ⟨r, hr, -, hlog, hreq⟩ := land_eq_some ho
  refine ⟨fun e he => hlog ▸ List.mem_cons_of_mem _ he, ?_⟩
  rintro j v ⟨r', hr', rfl⟩
  rw [Sent, hreq, List.getElem?_set]
  by_cases hij : i = j
  · subst hij
    cases hr.symm.trans hr'
    rw [if_pos rfl, if_pos (List.getElem?_eq_some_iff.mp hr).1]
    exact ⟨_, rfl, rfl⟩
  · rw [if_neg hij]
    exact ⟨r', hr', rfl⟩

/-- The version a request created holds the value it was sent with. -/
theorem Sent.mem_log (h : o.Sent i value) (hv : o.created i = some v) : (v, value) ∈ o.log := by
  obtain ⟨r, hr, rfl⟩ := h
  rw [created, hr, Option.bind_some] at hv
  exact o.landed_mem r (List.mem_of_getElem? hr) v hv

/-! ## Stretches of versions -/

/-- The second state is the first with newer versions on top. -/
structure Grows (o o' : Object ν α) : Prop extends Extends o o' where
  fresh : ∀ e ∈ o'.log, e ∈ o.log ∨ o.version < e.1

theorem Grows.refl (o : Object ν α) : Grows o o := ⟨.refl o, fun _ he => .inl he⟩

theorem Grows.send (o : Object ν α) (expected : ν) (value : α) :
    Grows o (o.send expected value) := ⟨.send o expected value, fun _ he => .inl he⟩

theorem Grows.land (ho : o.land i version = some o') : Grows o o' := by
  refine ⟨.land ho, fun e he => ?_⟩
  obtain ⟨r, -, -, hlog, -⟩ := land_eq_some ho
  have hsorted : ((version, r.value) :: o.log).Pairwise fun a b => b.1 < a.1 := hlog ▸ o'.sorted
  rcases List.mem_cons.mp (hlog ▸ he) with rfl | he
  · exact .inr ((List.pairwise_cons.mp hsorted).1 _ o.current_mem_log)
  · exact .inl he

theorem le_version (o : Object ν α) {e : ν × α} (he : e ∈ o.log) : e.1 ≤ o.version := by
  rcases List.mem_cons.mp he with rfl | he
  · exact le_refl _
  · exact ((List.pairwise_cons.mp o.sorted).1 e he).le

theorem le_of_created (h : o.created i = some v) : v ≤ o.version := by
  obtain ⟨r, hr, hv⟩ := Option.bind_eq_some_iff.mp h
  exact o.le_version (o.landed_mem r (List.mem_of_getElem? hr) v hv)

/-- What a state with one more version has on top. -/
theorem eq_of_log_cons (h : o'.log = (version, value) :: o.log) :
    o'.version = version ∧ o'.value = value ∧ o.version < version := by
  have htop : (o'.version, o'.value) = (version, value) ∧ o'.older = o.log := List.cons.inj h
  have hversion : o'.version = version := congrArg Prod.fst htop.1
  have hsorted := o'.sorted
  rw [htop.2, hversion] at hsorted
  exact ⟨hversion, congrArg Prod.snd htop.1, (List.pairwise_cons.mp hsorted).1 _ o.current_mem_log⟩

/-- There are versions `lo` and `hi`, and every version from the one to the other has the
property. -/
structure Span (P : α → Prop) (o : Object ν α) (lo hi : ν) : Prop where
  le : lo ≤ hi
  first : ∃ a, (lo, a) ∈ o.log
  last : ∃ a, (hi, a) ∈ o.log
  all : ∀ e ∈ o.log, lo ≤ e.1 → e.1 ≤ hi → P e.2

theorem Span.single {a : α} (h : (v, a) ∈ o.log) (hP : P a) : Span P o v v where
  le := le_refl v
  first := ⟨a, h⟩
  last := ⟨a, h⟩
  all := by
    rintro ⟨w, b⟩ he hlo hhi
    cases le_antisymm hhi hlo
    rwa [o.value_unique he h]

/-- New versions come after the stretch. -/
theorem Span.grows {lo hi : ν} (h : Span P o lo hi) (hg : Grows o o') : Span P o' lo hi := by
  obtain ⟨a, ha⟩ := h.first
  obtain ⟨b, hb⟩ := h.last
  refine ⟨h.le, ⟨a, hg.log _ ha⟩, ⟨b, hg.log _ hb⟩, fun e he hlo hhi => ?_⟩
  rcases hg.fresh e he with hold | hnew
  · exact h.all e hold hlo hhi
  · exact absurd (lt_of_le_of_lt (hhi.trans (o.le_version hb)) hnew) (lt_irrefl _)

/-- **A stretch is continued by a request that expects its end**, whenever the request arrives. -/
theorem Span.land {lo : ν} {r : Request ν α} (hr : o.requests[i]? = some r)
    (h : Span P o lo r.expected) (hP : P r.value) (ho : o.land i version = some o') :
    Span P o' lo version := by
  obtain ⟨r', hr', hexp, hlog, -⟩ := land_eq_some ho
  cases hr.symm.trans hr'
  have hsorted : ((version, r.value) :: o.log).Pairwise fun a b => b.1 < a.1 := hlog ▸ o'.sorted
  have hlt := (List.pairwise_cons.mp hsorted).1 _ o.current_mem_log
  obtain ⟨a, ha⟩ := h.first
  refine ⟨h.le.trans (hexp ▸ hlt.le), ⟨a, hlog ▸ List.mem_cons_of_mem _ ha⟩,
    ⟨r.value, hlog ▸ List.mem_cons_self⟩, fun e he hlo hhi => ?_⟩
  rcases List.mem_cons.mp (hlog ▸ he) with rfl | he
  · exact hP
  · exact h.all e he hlo (hexp ▸ o.le_version he)

end

end Object

end Cas
