import Blockd.Types

/-!
# Host sessions

`authority.rs`: one record per host in the object store says which process may serve for the host.
A process that finds another session active challenges it; the session that is still alive defends,
and one that does not is revoked, which starts a new epoch.  The record is changed only by
conditional writes, and every change is one of the operations here.

`decode` accepts the records that are `valid`; the operations make no others.
-/

set_option autoImplicit false

namespace Blockd

inductive HostSessionRecord where
  | active (session epoch : UInt64)
  | challenge (session epoch nonce challengedAt : UInt64)
  | revoked (oldSession epoch nonce : UInt64)
  deriving DecidableEq, Repr

namespace HostSessionRecord

def initial (session : UInt64) : Option HostSessionRecord :=
  if session = 0 then none else some (active session 1)

def epoch : HostSessionRecord → UInt64
  | active _ epoch | challenge _ epoch _ _ | revoked _ epoch _ => epoch

/-- Open a challenge to the active session. -/
def startChallenge : HostSessionRecord → UInt64 → UInt64 → Option HostSessionRecord
  | active session epoch, nonce, challengedAt =>
    if nonce = 0 then none else some (challenge session epoch nonce challengedAt)
  | _, _, _ => none

def defend : HostSessionRecord → UInt64 → UInt64 → Option HostSessionRecord
  | challenge challengedSession epoch challengedNonce _, session, nonce =>
    if session ≠ challengedSession ∨ nonce ≠ challengedNonce then none
    else some (active session epoch)
  | _, _, _ => none

/-- Give up the active session during a planned drain. -/
def retire : HostSessionRecord → UInt64 → UInt64 → Option HostSessionRecord
  | active activeSession epoch, session, nonce =>
    if session ≠ activeSession ∨ nonce = 0 then none
    else (checkedAdd epoch 1).map fun epoch => revoked session epoch nonce
  | _, _, _ => none

def revoke : HostSessionRecord → UInt64 → Option HostSessionRecord
  | challenge session epoch challengedNonce _, nonce =>
    if nonce ≠ challengedNonce then none
    else (checkedAdd epoch 1).map fun epoch => revoked session epoch nonce
  | _, _ => none

def activate : HostSessionRecord → UInt64 → Option HostSessionRecord
  | revoked _ epoch _, session => if session = 0 then none else some (active session epoch)
  | _, _ => none

/-- What `decode` asks of the fields. -/
def Valid (r : HostSessionRecord) : Prop :=
  r.epoch ≠ 0 ∧ match r with
    | active session _ => session ≠ 0
    | challenge session _ nonce _ => session ≠ 0 ∧ nonce ≠ 0
    | revoked oldSession _ nonce => oldSession ≠ 0 ∧ nonce ≠ 0

instance (r : HostSessionRecord) : Decidable r.Valid := by
  cases r <;> exact inferInstanceAs (Decidable (_ ∧ _))

/-! ## The operations make valid records -/

variable {r r' : HostSessionRecord} {session nonce challengedAt : UInt64}

theorem Valid.initial (h : HostSessionRecord.initial session = some r) : r.Valid := by
  obtain ⟨hsession, ⟨⟩⟩ := Option.ite_none_left_eq_some.mp h
  exact ⟨(by decide : (1 : UInt64) ≠ 0), hsession⟩

theorem Valid.startChallenge (hr : r.Valid) (h : r.startChallenge nonce challengedAt = some r') :
    r'.Valid := by
  obtain ⟨session, epoch⟩ | _ | _ := r
  · obtain ⟨hnonce, ⟨⟩⟩ := Option.ite_none_left_eq_some.mp h
    exact ⟨hr.1, hr.2, hnonce⟩
  all_goals nomatch h

theorem Valid.defend (hr : r.Valid) (h : r.defend session nonce = some r') : r'.Valid := by
  obtain _ | ⟨challengedSession, epoch, challengedNonce, at_⟩ | _ := r
  · nomatch h
  · obtain ⟨hsame, ⟨⟩⟩ := Option.ite_none_left_eq_some.mp h
    rw [not_or, not_not] at hsame
    exact ⟨hr.1, hsame.1 ▸ hr.2.1⟩
  · nomatch h

/-- A new epoch is not the epoch zero. -/
theorem ne_zero_of_checkedAdd {epoch epoch' : UInt64} (h : checkedAdd epoch 1 = some epoch') :
    epoch' ≠ 0 := by
  rintro rfl
  have hnat := toNat_of_checkedAdd h
  exact absurd hnat (Nat.succ_ne_zero _).symm

theorem Valid.retire (hr : r.Valid) (h : r.retire session nonce = some r') : r'.Valid := by
  obtain ⟨activeSession, epoch⟩ | _ | _ := r
  · obtain ⟨hsame, h⟩ := Option.ite_none_left_eq_some.mp h
    obtain ⟨epoch', hepoch, rfl⟩ := Option.map_eq_some_iff.mp h
    rw [not_or, not_not] at hsame
    exact ⟨ne_zero_of_checkedAdd hepoch, hsame.1 ▸ hr.2, hsame.2⟩
  all_goals nomatch h

theorem Valid.revoke (hr : r.Valid) (h : r.revoke nonce = some r') : r'.Valid := by
  obtain _ | ⟨challengedSession, epoch, challengedNonce, at_⟩ | _ := r
  · nomatch h
  · obtain ⟨hsame, h⟩ := Option.ite_none_left_eq_some.mp h
    obtain ⟨epoch', hepoch, rfl⟩ := Option.map_eq_some_iff.mp h
    exact ⟨ne_zero_of_checkedAdd hepoch, hr.2.1, not_not.mp hsame ▸ hr.2.2⟩
  · nomatch h

theorem Valid.activate (hr : r.Valid) (h : r.activate session = some r') : r'.Valid := by
  obtain _ | _ | ⟨oldSession, epoch, nonce⟩ := r
  · nomatch h
  · nomatch h
  · obtain ⟨hsession, ⟨⟩⟩ := Option.ite_none_left_eq_some.mp h
    exact ⟨hr.1, hsession⟩

end HostSessionRecord

end Blockd
