import Blockd.Engine.Lease

/-!
# The epochs of a host's session

Any number of processes work on the session record of one host.  Each call of `engine/authority.rs`
changes a record that was read before, however long ago, by one of six operations and sends the
result as a conditional write; the write takes effect in its own time, and nobody has to learn that it
did.  `SessionCall.step` is one such event.

What one operation does to the epoch and to the session that holds it is `Within`, a transitive
relation.  The object relates each version to the one before by an operation (`Cas.Object.Chain`), so
any two versions are related by `Within`.  Defending and retiring are bound to the session by the
record's own check.  Revoking is bound to the challenge alone: whoever presents its nonce may revoke
(`not_session_epochs`).
-/

set_option autoImplicit false

namespace Blockd

/-! ## Calls -/

/-- What a process does to the record it has read. -/
inductive SessionOp where
  | create (session : UInt64)
  | challenge (nonce challengedAt : UInt64)
  | defend (session nonce : UInt64)
  | retire (session nonce : UInt64)
  | revoke (nonce : UInt64)
  | activate (session : UInt64)
  deriving DecidableEq, Repr

/-- The record that the operation makes of the one that was read. -/
def SessionOp.apply : SessionOp → Option HostSessionRecord → Option HostSessionRecord
  | create session, none => HostSessionRecord.initial session
  | challenge nonce challengedAt, some r => r.startChallenge nonce challengedAt
  | defend session nonce, some r => r.defend session nonce
  | retire session nonce, some r => r.retire session nonce
  | revoke nonce, some r => r.revoke nonce
  | activate session, some r => r.activate session
  | _, _ => none

inductive SessionCall where
  /-- A process that has read this version sends a conditional write on it. -/
  | call (version : Nat) (op : SessionOp)
  /-- A conditional write takes effect. -/
  | land (request version : Nat)
  deriving DecidableEq, Repr

def SessionCall.step (o : SessionObject) : SessionCall → Option SessionObject
  | call version op => do
    let observed ← o.log.find? (·.1 == version)
    let record ← op.apply observed.2
    return o.send version (some record)
  | land request version => o.land request version

/-- The new record comes from the old one by an operation. -/
def Succeeds (old new : Option HostSessionRecord) : Prop :=
  ∃ op record, SessionOp.apply op old = some record ∧ new = some record

/-! ## Epochs and holders -/

/-- The epoch of a record; there is none before the first. -/
def epochOf (r : Option HostSessionRecord) : Nat := (r.map fun r => r.epoch.toNat).getD 0

/-- The session that is active or challenged. -/
def holderOf : Option HostSessionRecord → Option UInt64
  | some (.active session _) | some (.challenge session _ _ _) => some session
  | _ => none

/-- A later epoch, or the same epoch and the holder if there was one. -/
def Within (old new : Option HostSessionRecord) : Prop :=
  epochOf old < epochOf new ∨
    epochOf old = epochOf new ∧ (holderOf old = none ∨ holderOf old = holderOf new)

theorem Within.trans {a b c : Option HostSessionRecord} (h : Within a b) (h' : Within b c) :
    Within a c := by
  rcases h with h | ⟨h, hholder⟩
  · rcases h' with h' | ⟨h', -⟩
    · exact .inl (h.trans h')
    · exact .inl (h'.symm ▸ h)
  · rcases h' with h' | ⟨h', hholder'⟩
    · exact .inl (h ▸ h')
    · refine .inr ⟨h.trans h', ?_⟩
      rcases hholder with hnone | hsame
      · exact .inl hnone
      · rwa [hsame]

theorem Within.epoch_le {a b : Option HostSessionRecord} (h : Within a b) : epochOf a ≤ epochOf b :=
  h.elim le_of_lt fun h => h.1.le

/-- A revocation starts a new epoch. -/
theorem within_revoked {old : Option HostSessionRecord} {session epoch next nonce : UInt64}
    (hold : epochOf old = epoch.toNat) (h : checkedAdd epoch 1 = some next) :
    Within old (some (.revoked session next nonce)) := by
  refine .inl ?_
  have hnext : next.toNat = epoch.toNat + 1 := toNat_of_checkedAdd h
  show epochOf old < next.toNat
  omega

/-- **What one operation does**: one case for each. -/
theorem Succeeds.within {old new : Option HostSessionRecord} (h : Succeeds old new) :
    Within old new := by
  obtain ⟨op, record, happly, rfl⟩ := h
  match op, old, happly with
  | .create session, none, happly =>
    obtain ⟨-, ⟨⟩⟩ := Option.ite_none_left_eq_some.mp happly
    exact .inl Nat.one_pos
  | .challenge nonce at_, some (.active session epoch), happly =>
    obtain ⟨-, ⟨⟩⟩ := Option.ite_none_left_eq_some.mp happly
    exact .inr ⟨rfl, .inr rfl⟩
  | .defend session nonce, some (.challenge found epoch challenged at_), happly =>
    obtain ⟨hsame, ⟨⟩⟩ := Option.ite_none_left_eq_some.mp happly
    have hsession : session = found := not_not.mp (not_or.mp hsame).1
    exact .inr ⟨rfl, .inr (congrArg some hsession.symm)⟩
  | .retire session nonce, some (.active found epoch), happly =>
    obtain ⟨-, happly⟩ := Option.ite_none_left_eq_some.mp happly
    obtain ⟨next, hnext, rfl⟩ := Option.map_eq_some_iff.mp happly
    exact within_revoked rfl hnext
  | .revoke nonce, some (.challenge found epoch challenged at_), happly =>
    obtain ⟨-, happly⟩ := Option.ite_none_left_eq_some.mp happly
    obtain ⟨next, hnext, rfl⟩ := Option.map_eq_some_iff.mp happly
    exact within_revoked rfl hnext
  | .activate session, some (.revoked found epoch nonce), happly =>
    obtain ⟨-, ⟨⟩⟩ := Option.ite_none_left_eq_some.mp happly
    exact .inr ⟨rfl, .inl rfl⟩

/-! ## Whole histories -/

/-- Every version, and every write under way, comes by an operation from the version before. -/
structure SessionObject.Ok (o : SessionObject) : Prop where
  chain : Cas.Object.Chain Succeeds o
  tracks : Cas.Object.Tracks Succeeds o

theorem SessionObject.Ok.step {o o' : SessionObject} {a : SessionCall} (h : SessionObject.Ok o)
    (hstep : a.step o = some o') : SessionObject.Ok o' := by
  cases a with
  | call version op =>
    obtain ⟨observed, hfind, hstep⟩ := Option.bind_eq_some_iff.mp hstep
    obtain ⟨record, happly, hstep⟩ := Option.bind_eq_some_iff.mp hstep
    obtain rfl := Option.some.inj hstep
    have hversion : observed.1 = version := by simpa using List.find?_some hfind
    have hmem : (version, observed.2) ∈ o.log := hversion ▸ List.mem_of_find?_eq_some hfind
    exact ⟨h.chain.send _ _, h.tracks.send hmem ⟨op, record, happly, rfl⟩⟩
  | land request version => exact ⟨h.chain.land h.tracks hstep, h.tracks.land hstep⟩

/-- Any two versions are related as if one operation had led from the older to the newer. -/
theorem SessionObject.Ok.within {o : SessionObject} (h : SessionObject.Ok o)
    {e e' : Nat × Option HostSessionRecord} (he : e ∈ o.log) (he' : e' ∈ o.log)
    (hlt : e.1 < e'.1) : Within e.2 e'.2 := by
  have htrans : IsTrans (Nat × Option HostSessionRecord) fun new old => Within old.2 new.2 :=
    ⟨fun _ _ _ h h' => h'.trans h⟩
  have hchain : o.log.IsChain fun new old => Within old.2 new.2 :=
    h.chain.imp fun _ _ hsucceeds => hsucceeds.within
  have hboth : o.log.Pairwise fun new old => old.1 < new.1 ∧ Within old.2 new.2 :=
    o.sorted.and (List.isChain_iff_pairwise.mp hchain)
  obtain ⟨i, hi, rfl⟩ := List.getElem_of_mem he
  obtain ⟨j, hj, rfl⟩ := List.getElem_of_mem he'
  rcases Nat.lt_trichotomy i j with hij | rfl | hij
  · exact absurd (List.pairwise_iff_getElem.mp hboth i j hi hj hij).1 (Nat.lt_asymm hlt)
  · exact absurd hlt (Nat.lt_irrefl _)
  · exact (List.pairwise_iff_getElem.mp hboth j i hj hi hij).2

/-- **The epochs of a session**, after any calls of any processes.  Epochs never go back; an epoch has
one holder; a session that another one has replaced can neither defend nor retire, whatever its
nonce; a revocation needs the nonce of the challenge that is open; and a write on a version that is
no longer the current one never takes effect. -/
theorem session_epochs (calls : List SessionCall) {o : SessionObject}
    (hrun : Run.run SessionCall.step (Cas.Object.create 0 none) calls = some o) :
    (∀ e ∈ o.log, ∀ e' ∈ o.log, e.1 ≤ e'.1 → epochOf e.2 ≤ epochOf e'.2) ∧
    (∀ e ∈ o.log, ∀ e' ∈ o.log, epochOf e.2 = epochOf e'.2 →
      ∀ s ∈ holderOf e.2, ∀ s' ∈ holderOf e'.2, s = s') ∧
    (∀ e ∈ o.log, ∀ s, holderOf e.2 ≠ some s → ∀ nonce,
      SessionOp.apply (.defend s nonce) e.2 = none ∧
      SessionOp.apply (.retire s nonce) e.2 = none) ∧
    (∀ e ∈ o.log, ∀ nonce record, SessionOp.apply (.revoke nonce) e.2 = some record →
      ∃ session epoch challengedAt, e.2 = some (.challenge session epoch nonce challengedAt)) ∧
    ∀ r ∈ o.requests, r.expected ≠ o.version → ∀ i, o.requests[i]? = some r → ∀ version,
      o.land i version = none := by
  have hok : SessionObject.Ok o :=
    Run.run_invariant_of_step (fun _ _ _ h hstep => h.step hstep)
      ⟨Cas.Object.Chain.create _ _, Cas.Object.Tracks.create _ _⟩ hrun
  have hsame : ∀ e ∈ o.log, ∀ e' ∈ o.log, e.1 = e'.1 → e.2 = e'.2 := by
    rintro ⟨v, a⟩ he ⟨v', b⟩ he' rfl
    exact o.value_unique he he'
  refine ⟨fun e he e' he' hle => ?_, fun e he e' he' hepoch s hs s' hs' => ?_,
    fun e _ s hholder nonce => ?_, fun e _ nonce record hrevoke => ?_,
    fun r _ hexpected i hi version => ?_⟩
  · rcases hle.lt_or_eq with hlt | heq
    · exact (hok.within he he' hlt).epoch_le
    · rw [hsame e he e' he' heq]
  · -- the older of the two versions had a holder already, so the newer has the same
    have hholder : holderOf e.2 = holderOf e'.2 := by
      rcases Nat.lt_trichotomy e.1 e'.1 with hlt | heq | hlt
      · rcases hok.within he he' hlt with h | ⟨-, hnone | h⟩
        · omega
        · exact nomatch hnone.symm.trans hs
        · exact h
      · rw [hsame e he e' he' heq]
      · rcases hok.within he' he hlt with h | ⟨-, hnone | h⟩
        · omega
        · exact nomatch hnone.symm.trans hs'
        · exact h.symm
    exact Option.some.inj (hs.symm.trans (hholder.trans hs'))
  · match hrecord : e.2 with
    | none => exact ⟨rfl, rfl⟩
    | some (.active found epoch) =>
      have hne : s ≠ found := fun h => hholder (by rw [hrecord, h]; rfl)
      exact ⟨rfl, if_pos (.inl hne)⟩
    | some (.challenge found epoch challenged at_) =>
      have hne : s ≠ found := fun h => hholder (by rw [hrecord, h]; rfl)
      exact ⟨if_pos (.inl hne), rfl⟩
    | some (.revoked found epoch challenged) => exact ⟨rfl, rfl⟩
  · match hrecord : e.2, hrevoke with
    | some (.challenge found epoch challenged at_), hrevoke =>
      obtain ⟨hnonce, -⟩ := Option.ite_none_left_eq_some.mp hrevoke
      exact ⟨found, epoch, at_, by rw [not_not.mp hnonce]⟩
  · by_contra hland
    obtain ⟨o', hland⟩ := Option.ne_none_iff_exists'.mp hland
    obtain ⟨r', hr', hcurrent, -⟩ := Cas.Object.land_eq_some hland
    obtain rfl := Option.some.inj (hi.symm.trans hr')
    exact hexpected hcurrent

/-- Session 1 is challenged and revoked, session 2 follows it, and is challenged with the same
nonce. -/
def sameNonceTwice : List SessionCall :=
  [.call 0 (.create 1), .land 0 1, .call 1 (.challenge 5 0), .land 1 2, .call 2 (.revoke 5),
    .land 2 3, .call 3 (.activate 2), .land 3 4, .call 4 (.challenge 5 9), .land 4 5]

/-- What the object has held then, newest first. -/
def sameNonceLog : List (Nat × Option HostSessionRecord) :=
  [(5, some (.challenge 2 2 5 9)), (4, some (.active 2 2)), (3, some (.revoked 1 2 5)),
    (2, some (.challenge 1 1 5 0)), (1, some (.active 1 1)), (0, none)]

theorem exists_run_sameNonce : ∃ o : SessionObject,
    Run.run SessionCall.step (Cas.Object.create 0 none) sameNonceTwice = some o ∧
      o.log = sameNonceLog := ⟨_, rfl, rfl⟩

theorem session_epochs_same_nonce : ∃ o : SessionObject,
    Run.run SessionCall.step (Cas.Object.create 0 none) sameNonceTwice = some o ∧
      (5, some (.challenge 2 2 5 9)) ∈ o.log ∧
      ∀ nonce, SessionOp.apply (.defend 1 nonce) (some (.challenge 2 2 5 9)) = none ∧
        SessionOp.apply (.retire 1 nonce) (some (.challenge 2 2 5 9)) = none := by
  obtain ⟨o, hrun, hlog⟩ := exists_run_sameNonce
  have hmem : (5, some (.challenge 2 2 5 9)) ∈ o.log := by
    rw [hlog]
    exact List.mem_cons_self
  exact ⟨o, hrun, hmem, (session_epochs _ hrun).2.2.1 _ hmem 1 (by decide)⟩

/-- **A nonce that was used before revokes again.**  A challenge of the later session with the nonce
of an earlier one can be revoked with that nonce, by the replaced session too. -/
theorem not_session_epochs : ¬ ∀ (calls : List SessionCall) (o : SessionObject),
    Run.run SessionCall.step (Cas.Object.create 0 none) calls = some o →
    ∀ e ∈ o.log, ∀ e' ∈ o.log, epochOf e.2 < epochOf e'.2 →
      ∀ s ∈ holderOf e.2, holderOf e'.2 ≠ some s →
      ∀ session epoch nonce challengedAt, (∃ v < e'.1,
        (v, some (.challenge session epoch nonce challengedAt)) ∈ o.log) →
      SessionOp.apply (.revoke nonce) e'.2 = none := by
  intro hall
  obtain ⟨o, hrun, hlog⟩ := exists_run_sameNonce
  have hmem : ∀ e ∈ sameNonceLog, e ∈ o.log := fun e he => hlog ▸ he
  have hnone := hall _ o hrun (2, some (.challenge 1 1 5 0)) (hmem _ (by decide))
    (5, some (.challenge 2 2 5 9)) (hmem _ (by decide)) (by decide) 1 rfl (by decide) 1 1 5 0
    ⟨2, by decide, hmem _ (by decide)⟩
  exact absurd hnone (by decide)

end Blockd
