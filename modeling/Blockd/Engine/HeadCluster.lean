import Blockd.Engine.HeadFencing

/-!
# Many hosts over one head

Hosts claim the head of a volume in three ways: `claim_new_head_with_stash` creates it,
`claim_restore` with `finalize_restore_head` takes it over where it is, and `claim_migrated_head`
takes it over from the host that offered the volume.  A claim is first written with the fence zero;
the version that this write creates is the fence, and a second write (the finalization) puts it into
the head.  A host whose claim is complete runs the head tasks of `HeadTasks` under that fence.

`Cluster.step` interleaves any number of attempts and holders of any number of hosts over one head
object.  Answers may be lost, requests take effect in their own time, hosts stop and start.

Every write other than a claim carries the fence of the claim it was made under, and
`single_writer` says that no claim of another host lies between the two, in every run in which an
attempt that finds its provisional claim again finds it at the version it wrote it at.  Without
that, an attempt can be fooled by a later claim of its own host with the same content
(`not_single_writer`).
-/

set_option autoImplicit false

namespace Blockd

open Cas (Object)

/-! ## The store -/

/-- The head object, absent until a creation takes effect, and the creations sent so far, each with
the version it created. -/
structure HeadStore where
  object : Option (Object UInt64 StoredHead)
  creations : List (HeadRecord × Option UInt64)

namespace HeadStore

/-- What a read returns. -/
def current (s : HeadStore) : Option (UInt64 × HeadRecord) :=
  s.object.map fun o => (o.version, o.value.head)

/-- `put_cas` that expects no object; it is creation number `s.creations.length`. -/
def create (s : HeadStore) (head : HeadRecord) : HeadStore :=
  { s with creations := s.creations ++ [(head, none)] }

/-- `put_cas` that expects a version. -/
def put (s : HeadStore) (o : Object UInt64 StoredHead) (expected : UInt64) (head : HeadRecord) :
    HeadStore :=
  { s with object := some (o.send expected ⟨head, .claim⟩) }

/-- A creation takes effect. -/
def landCreation (s : HeadStore) (i : Nat) (version : UInt64) : Option HeadStore :=
  match s.object, s.creations[i]? with
  | none, some (head, none) =>
    some ⟨some (.create version ⟨head, .claim⟩), s.creations.set i (head, some version)⟩
  | _, _ => none

end HeadStore

/-! ## Attempts -/

/-- A call that claims the head, with what it is given. -/
inductive ClaimCall where
  | create (stash : Option StashAssignment)
  | restore
  | migrate (source : HostId) (offeredFence : UInt64) (localStash : StashAssignment)
  deriving DecidableEq, Repr

/-- Where an attempt is. -/
inductive ClaimPhase where
  /-- Its creation, by number, has not been answered. -/
  | creating (creation : Nat)
  /-- It reads the head because its creation met a conflict, or has an unknown outcome. -/
  | checking (conflict : Bool)
  | checked (conflict : Bool) (found : Option (UInt64 × HeadRecord))
  /-- It reads the head that it is going to claim. -/
  | reading
  | read (found : Option (UInt64 × HeadRecord))
  /-- Its claim, by number, has not been answered; `before` is the head that it claims. -/
  | claiming (before claim : HeadRecord) (request : Nat)
  /-- Its claim has created version `fence`, and it reads the head to put the fence in. -/
  | rereading (claim : HeadRecord) (fence : UInt64)
  | reread (claim : HeadRecord) (fence : UInt64) (found : Option (UInt64 × HeadRecord))
  | finalizing (claim : HeadRecord) (fence : UInt64) (request : Nat)
  /-- The claim is complete; `version` is the head's version. -/
  | claimed (claim : HeadRecord) (fence version : UInt64)
  | ended
  deriving DecidableEq, Repr

structure Attempt where
  host : HostId
  call : ClaimCall
  phase : ClaimPhase
  deriving DecidableEq, Repr

/-- The fence a head has for its holder.  A claim that was not finalized has its version. -/
def HeadRecord.effectiveFence (head : HeadRecord) (version : UInt64) : UInt64 :=
  if head.fence = 0 then version else head.fence

/-- The head of a new volume. -/
def newHead (volume : VolumeId) (host : HostId) (stash : Option StashAssignment) : HeadRecord :=
  ⟨volume, host, 0, none, stash, []⟩

/-- The claim of `claim_restore`: a head with a passive is only its holder's to restore. -/
def restoreClaim (volume : VolumeId) (host : HostId) (head : HeadRecord) : Option HeadRecord :=
  if head.stash.isSome ∧ head.holder ≠ host then none
  else
    head.manifest.map fun pointer =>
      ⟨volume, host, 0, some pointer, head.stash, head.retiredStashes⟩

/-- The claim of `claim_migrated_head`.  The offer names one tenure of its source; a new head still
has the fence zero, and its version stands for it. -/
def migrationClaim (volume : VolumeId) (host source : HostId) (offeredFence : UInt64)
    (localStash : StashAssignment) (version : UInt64) (head : HeadRecord) : Option HeadRecord :=
  let sourceFence := if head.fence = 0 then version else head.fence
  if head.holder ≠ host ∧ head.holder ≠ source then none
  else if head.holder = source ∧ sourceFence ≠ offeredFence then none
  else if head.holder = host then
    some ⟨volume, host, 0, head.manifest, head.stash <|> some localStash, head.retiredStashes⟩
  else some ⟨volume, host, 0, head.manifest, some localStash, []⟩

namespace ClaimCall

/-- The claim that is written over the head that was read. -/
def claim (volume : VolumeId) (host : HostId) (version : UInt64) (head : HeadRecord) :
    ClaimCall → Option HeadRecord
  | create _ => none
  | restore => restoreClaim volume host head
  | migrate source offeredFence localStash =>
    migrationClaim volume host source offeredFence localStash version head

/-- Does the finalization replace the head it finds? -/
def finalizes (host : HostId) (claim found : HeadRecord) : ClaimCall → Bool
  | create _ => false
  | restore => found == claim
  | migrate .. =>
    found.holder == host && found.fence == 0 && found.manifest == claim.manifest &&
      found.stash == claim.stash

end ClaimCall

/-- What an attempt waits for. -/
inductive ClaimEvent where
  | ok
  | conflict
  /-- The outcome of the write stays unknown. -/
  | unknown
  | serve
  | getUnavailable
  /-- The head that was read arrives; `same` says that the volume state of the call is still there. -/
  | found (same : Bool)
  /-- Any other end: an unreadable head, an answer out of bounds, a host that fails. -/
  | giveUp
  deriving DecidableEq, Repr

namespace Attempt

/-- A creation is sent once more. -/
def createAgain (volume : VolumeId) (s : HeadStore) (a : Attempt) : Option (HeadStore × ClaimPhase) :=
  match a.call with
  | .create stash =>
    some (s.create (newHead volume a.host stash), .creating s.creations.length)
  | _ => none

/-- An answer to a write. -/
def answered (s : HeadStore) (a : Attempt) : ClaimPhase → Option ClaimPhase
  | .creating i => (s.creations[i]?).bind fun c => c.2.map fun v => .claimed c.1 v v
  | .claiming before claim request =>
    (s.object.bind fun o => o.created request).map fun fence =>
      match a.call with
      -- the migration insists that the version is above the fence of the head it replaces
      | .migrate .. => if before.fence < fence then .rereading claim fence else .ended
      | _ => .rereading claim fence
  | .finalizing claim fence request =>
    (s.object.bind fun o => o.created request).map fun version => .claimed claim fence version
  | _ => none

def conflicted (s : HeadStore) (a : Attempt) : ClaimPhase → Option ClaimPhase
  | .creating i =>
    if s.object.isSome ∧ (s.creations[i]?).any fun c => c.2.isNone then some (.checking true)
    else none
  | .claiming _ _ request =>
    if s.object.any fun o => o.conflicts request then
      match a.call with
      | .migrate .. => some .reading
      | _ => some .ended
    else none
  | .finalizing claim fence request =>
    if s.object.any fun o => o.conflicts request then some (.rereading claim fence) else none
  | _ => none

def lost : ClaimPhase → Option ClaimPhase
  | .creating _ => some (.checking false)
  | .claiming .. => some .reading
  | .finalizing claim fence _ => some (.rereading claim fence)
  | _ => none

def served (s : HeadStore) : ClaimPhase → Option ClaimPhase
  | .checking conflict => some (.checked conflict s.current)
  | .reading => some (.read s.current)
  | .rereading claim fence => some (.reread claim fence s.current)
  | _ => none

/-- The attempt looks at the head it has read. -/
def look (volume : VolumeId) (s : HeadStore) (a : Attempt) (same : Bool) :
    ClaimPhase → Option (HeadStore × ClaimPhase)
  | .checked conflict none => if conflict then some (s, .ended) else a.createAgain volume s
  | .checked conflict (some (version, head)) =>
    match a.call with
    | .create stash =>
      if (head.holder = a.host ∧ head.fence = 0 ∧ head.manifest = none ∧ head.stash = stash) ∧
          (conflict || same) then
        some (s, .claimed (newHead volume a.host stash) version version)
      else some (s, .ended)
    | _ => none
  | .read (some (version, head)) =>
    match a.call.claim volume a.host version head, s.object with
    | some claim, some o => some (s.put o version claim, .claiming head claim o.requests.length)
    | _, _ => some (s, .ended)
  | .reread claim fence (some (version, head)) =>
    if head = { claim with fence } then some (s, .claimed claim fence version)
    else
      match a.call.finalizes a.host claim head, s.object with
      | true, some o =>
        some (s.put o version { claim with fence }, .finalizing claim fence o.requests.length)
      | _, _ => some (s, .ended)
  | .read none | .reread _ _ none => some (s, .ended)
  | _ => none

def act (volume : VolumeId) (s : HeadStore) (a : Attempt) :
    ClaimEvent → Option (HeadStore × ClaimPhase)
  | .ok => (a.answered s a.phase).map fun phase => (s, phase)
  | .conflict => (a.conflicted s a.phase).map fun phase => (s, phase)
  | .unknown => (lost a.phase).map fun phase => (s, phase)
  | .serve => (served s a.phase).map fun phase => (s, phase)
  | .getUnavailable =>
    match a.phase with
    | .checking true => some (s, .ended)
    | .checking false => a.createAgain volume s
    | .reading | .rereading .. => some (s, a.phase)
    | _ => none
  | .found same => a.look volume s same a.phase
  | .giveUp => some (s, .ended)

section

variable (volume : VolumeId) (s : HeadStore) (host : HostId) (call : ClaimCall)

/-- What an event does to an attempt that is in a phase, with what the attempt has found. -/
inductive Acted : ClaimPhase → ClaimEvent → HeadStore → ClaimPhase → Prop
  | created {i} (c v) (hc : s.creations[i]? = some c) (hv : c.2 = some v) :
      Acted (.creating i) .ok s (.claimed c.1 v v)
  | claimed {before claim request} (fence)
      (hfence : (s.object.bind fun o => o.created request) = some fence) :
      Acted (.claiming before claim request) .ok s (.rereading claim fence)
  | finalized {claim fence request} (version)
      (hversion : (s.object.bind fun o => o.created request) = some version) :
      Acted (.finalizing claim fence request) .ok s (.claimed claim fence version)
  | check {i event} (conflict) : Acted (.creating i) event s (.checking conflict)
  | readAgain {before claim request event} : Acted (.claiming before claim request) event s .reading
  | rereadAgain {claim fence request event} :
      Acted (.finalizing claim fence request) event s (.rereading claim fence)
  | checked {conflict} : Acted (.checking conflict) .serve s (.checked conflict s.current)
  | read : Acted .reading .serve s (.read s.current)
  | reread {claim fence} : Acted (.rereading claim fence) .serve s (.reread claim fence s.current)
  | createAgain {phase event} (stash) (hcall : call = .create stash)
      (hphase : phase = .checking false ∨ phase = .checked false none) :
      Acted phase event (s.create (newHead volume host stash)) (.creating s.creations.length)
  | wait {phase} (hphase : phase = .reading ∨ ∃ claim fence, phase = .rereading claim fence) :
      Acted phase .getUnavailable s phase
  | own {conflict version head same} (stash) (hholder : head.holder = host)
      (hzero : head.fence = 0) : Acted (.checked conflict (some (version, head))) (.found same) s
        (.claimed (newHead volume host stash) version version)
  | claim {version head same} (claim o) (hclaim : call.claim volume host version head = some claim)
      (ho : s.object = some o) : Acted (.read (some (version, head))) (.found same)
        (s.put o version claim) (.claiming head claim o.requests.length)
  | final {claim fence version same} :
      Acted (.reread claim fence (some (version, { claim with fence }))) (.found same) s
        (.claimed claim fence version)
  | finalize {claim fence version head same} (o)
      (hfinalizes : call.finalizes host claim head = true) (ho : s.object = some o) :
      Acted (.reread claim fence (some (version, head))) (.found same)
        (s.put o version { claim with fence }) (.finalizing claim fence o.requests.length)
  | ended {phase event} : Acted phase event s .ended

end

section

variable {volume : VolumeId} {s s' : HeadStore} {a : Attempt} {phase : ClaimPhase}
  {event : ClaimEvent}

theorem acted_of_look {before : ClaimPhase} {same : Bool}
    (h : a.look volume s same before = some (s', phase)) :
    Acted volume s a.host a.call before (.found same) s' phase := by
  unfold look createAgain at h
  split at h
  · split at h
    · cases h
      exact .ended
    · rename_i hconflict
      split at h <;> cases h
      exact .createAgain _ ‹_› (.inr (by simp [hconflict]))
  · split at h
    · split at h <;> cases h
      · rename_i hown
        exact .own _ hown.1.1 hown.1.2.1
      · exact .ended
    · cases h
  · split at h <;> cases h
    · exact .claim _ _ ‹_› ‹_›
    · exact .ended
  · split at h
    · rename_i hfinal
      cases h
      rw [hfinal]
      exact .final
    · split at h <;> cases h
      · exact .finalize _ ‹_› ‹_›
      · exact .ended
  all_goals cases h
  all_goals exact .ended

theorem acted (h : a.act volume s event = some (s', phase)) :
    Acted volume s a.host a.call a.phase event s' phase := by
  obtain ⟨host, call, before⟩ := a
  cases event with
  | ok =>
    obtain ⟨next, hnext, hpair⟩ := Option.map_eq_some_iff.mp h
    cases hpair
    cases before with
    | creating i =>
      obtain ⟨c, hc, hnext⟩ := Option.bind_eq_some_iff.mp hnext
      obtain ⟨v, hv, rfl⟩ := Option.map_eq_some_iff.mp hnext
      exact .created c v hc hv
    | claiming before claim request =>
      obtain ⟨fence, hfence, rfl⟩ := Option.map_eq_some_iff.mp hnext
      split
      · split
        · exact .claimed fence hfence
        · exact .ended
      · exact .claimed fence hfence
    | finalizing claim fence request =>
      obtain ⟨version, hversion, rfl⟩ := Option.map_eq_some_iff.mp hnext
      exact .finalized version hversion
    | _ => cases hnext
  | conflict =>
    obtain ⟨next, hnext, hpair⟩ := Option.map_eq_some_iff.mp h
    cases hpair
    cases before with
    | creating i =>
      cases (Option.ite_none_right_eq_some.mp hnext).2
      exact .check _
    | claiming before claim request =>
      obtain ⟨-, hnext⟩ := Option.ite_none_right_eq_some.mp hnext
      split at hnext <;> cases hnext
      · exact .readAgain
      · exact .ended
    | finalizing claim fence request =>
      cases (Option.ite_none_right_eq_some.mp hnext).2
      exact .rereadAgain
    | _ => cases hnext
  | unknown =>
    obtain ⟨next, hnext, hpair⟩ := Option.map_eq_some_iff.mp h
    cases hpair
    cases before <;> cases hnext
    · exact .check _
    · exact .readAgain
    · exact .rereadAgain
  | serve =>
    obtain ⟨next, hnext, hpair⟩ := Option.map_eq_some_iff.mp h
    cases hpair
    cases before <;> cases hnext
    · exact .checked
    · exact .read
    · exact .reread
  | getUnavailable =>
    simp only [act, createAgain] at h
    split at h
    · cases h
      exact .ended
    · split at h <;> cases h
      exact .createAgain _ rfl (.inl rfl)
    · cases h
      exact .wait (.inl rfl)
    · cases h
      exact .wait (.inr ⟨_, _, rfl⟩)
    · cases h
  | found same => exact acted_of_look h
  | giveUp =>
    cases h
    exact .ended

end

end Attempt

/-! ## Holders -/

/-- A host that runs the volume: a `HeadSystem` without the object, which all of them share. -/
structure Holder where
  host : HostId
  cache : HeadCache
  snapshot : Option (Option ManifestPtr)
  tasks : List TaskState
  stopped : Bool
  deriving DecidableEq, Repr

namespace Holder

def system (x : Holder) (volume : VolumeId) (object : Object UInt64 StoredHead) : HeadSystem :=
  ⟨volume, x.host, object, x.cache, x.snapshot, x.tasks, x.stopped⟩

/-- The volume state that a complete claim leaves. -/
def start (host : HostId) (claim : HeadRecord) (fence version : UInt64) : Holder :=
  ⟨host, ⟨fence, some version, claim.manifest, claim.stash, claim.retiredStashes⟩, none, [], false⟩

end Holder

def HeadSystem.holder (s : HeadSystem) : Holder :=
  ⟨s.host, s.cache, s.snapshot, s.tasks, s.stopped⟩

/-! ## The cluster -/

structure Cluster where
  volume : VolumeId
  store : HeadStore
  attempts : List Attempt
  holders : List Holder

/-- What can happen. -/
inductive ClusterStep where
  | claim (host : HostId) (call : ClaimCall)
  | attempt (i : Nat) (event : ClaimEvent)
  /-- The volume state of a complete claim is put into place. -/
  | attach (i : Nat)
  | landCreation (i : Nat) (version : UInt64)
  | land (request : Nat) (version : UInt64)
  | holder (i : Nat) (event : HeadStep)
  /-- A holder's volume state is dropped: handed over, or stopped. -/
  | detach (i : Nat)
  /-- A host stops, and with it all it was doing. -/
  | crash (host : HostId)
  deriving Repr

namespace Cluster

/-- No host has claimed the volume yet. -/
def start (volume : VolumeId) : Cluster := ⟨volume, ⟨none, []⟩, [], []⟩

/-- Every version of the head, newest first. -/
def log (c : Cluster) : List (UInt64 × StoredHead) :=
  match c.store.object with
  | none => []
  | some o => o.log

/-- Does the host have a volume state? -/
def runs (c : Cluster) (host : HostId) : Bool := c.holders.any fun x => x.host == host

def step (c : Cluster) : ClusterStep → Option Cluster
  | .claim host call =>
    match call with
    | .create stash =>
      if c.runs host then none
      else
        some { c with
          store := c.store.create (newHead c.volume host stash)
          attempts := c.attempts ++ [⟨host, call, .creating c.store.creations.length⟩] }
    | .restore =>
      -- restores of one volume are not kept apart: only a volume state is in their way
      if c.runs host then none
      else some { c with attempts := c.attempts ++ [⟨host, call, .reading⟩] }
    | .migrate .. => some { c with attempts := c.attempts ++ [⟨host, call, .reading⟩] }
  | .attempt i event =>
    (c.attempts[i]?).bind fun a =>
      (a.act c.volume c.store event).map fun r =>
        { c with store := r.1, attempts := c.attempts.set i { a with phase := r.2 } }
  | .attach i =>
    match c.attempts[i]? with
    | some ⟨host, call, .claimed claim fence version⟩ =>
      if call = .restore ∧ c.runs host then none
      else
        some { c with
          attempts := c.attempts.set i ⟨host, call, .ended⟩
          holders := c.holders ++ [.start host claim fence version] }
    | _ => none
  | .landCreation i version =>
    (c.store.landCreation i version).map fun store => { c with store }
  | .land request version =>
    c.store.object.bind fun o =>
      (o.land request version).map fun o' => { c with store := { c.store with object := some o' } }
  | .holder i event =>
    match c.holders[i]?, c.store.object with
    | some x, some o =>
      match event with
      | .land .. | .other .. => none
      | _ =>
        ((x.system c.volume o).step event).map fun s =>
          { c with
            store := { c.store with object := some s.object }
            holders := c.holders.set i s.holder }
    | _, _ => none
  | .detach i => some { c with holders := c.holders.eraseIdx i }
  | .crash host =>
    some { c with
      attempts := c.attempts.filter fun a => a.host ≠ host
      holders := c.holders.filter fun x => x.host ≠ host }

end Cluster

/-! ## What the fence means -/

/-- A claim carries the fence zero, and every other write the version of the claim it was made
under.  That claim is of the same host, and no claim of another host has come in between. -/
def SingleWriter (log : List (UInt64 × StoredHead)) : Prop :=
  ∀ version stored, (version, stored) ∈ log → stored.head.fence ≠ 0 →
    (∃ claim, (stored.head.fence, claim) ∈ log ∧ claim.head.fence = 0 ∧
      claim.head.holder = stored.head.holder) ∧
    ∀ later claim, (later, claim) ∈ log → claim.head.fence = 0 → stored.head.fence < later →
      later < version → claim.head.holder = stored.head.holder

/-- An attempt that finds the head it is going to finalize finds it at the version that its claim
created. -/
def Cluster.FinalizesOwnClaim (c : Cluster) : ClusterStep → Prop
  | .attempt i (.found _) =>
    match c.attempts[i]? with
    | some ⟨host, call, .reread claim fence (some (version, head))⟩ =>
      call.finalizes host claim head = true → version = fence
    | _ => True
  | _ => True

end Blockd
