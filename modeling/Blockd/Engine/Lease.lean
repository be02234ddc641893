import Blockd.Authority
import Blockd.Placement
import Blockd.Lib.Cas
import Blockd.Lib.Run

/-!
# Taking over a host

`lease.rs`, with the conditional writes of `engine/authority.rs`: `bootstrap_host_authority` makes a
new process the host's session, `host_session_monitor` defends it, and a planned drain retires it
(`relinquish_authority`).  Each is a program that waits for one answer at a time; between the
answers anything can happen, a write whose answer is lost may take effect later, and a process may
stop for good anywhere.

`SessionWorld.step` is one event of such a history.  `Solo` is what comes after it: one new process,
alone, with a store that answers.  It takes over from every record a history can leave, except that
a challenge that nobody is left to revoke stops it: the loop waits for the challenger
(`takeover_completes_iff`).  The other exception is the last epoch there is, which cannot be revoked.
-/

set_option autoImplicit false

namespace Blockd

inductive AuthorityError where
  | unavailable
  | conflict
  | corrupt
  | fenced
  | invalid
  deriving DecidableEq, Repr

/-- The membership record of the cluster. -/
structure ClusterPlacement where
  clusterId : UInt64
  epoch : UInt64
  roster : List HostId
  deriving DecidableEq, Repr

structure AuthorityHostConfig where
  clusterId : UInt64
  pollInterval : UInt64
  maxPollStaleness : UInt64
  challengeInterval : UInt64
  deriving DecidableEq, Repr

/-- What `bootstrap_host_authority` asks of its configuration. -/
def AuthorityHostConfig.Valid (c : AuthorityHostConfig) : Prop :=
  c.clusterId ≠ 0 ∧ c.pollInterval ≠ 0 ∧ c.pollInterval ≤ c.maxPollStaleness ∧
    c.maxPollStaleness < c.challengeInterval

instance (c : AuthorityHostConfig) : Decidable c.Valid := inferInstanceAs (Decidable (_ ∧ _))

/-- A record and the version of the store object that holds it. -/
structure VersionedSession where
  storeVersion : Nat
  record : HostSessionRecord
  deriving DecidableEq, Repr

/-! ## The programs -/

/-- What a program gets from the store, or from the clock. -/
inductive Answer where
  | placement (result : Except AuthorityError (Option ClusterPlacement))
  | session (result : Except AuthorityError (Option VersionedSession))
  | put (result : Except AuthorityError Nat)
  | elapsed

/-- What a program waits for.  A conditional write expects version zero where there is no object. -/
inductive Await where
  | placement
  | session
  | put (expected : Nat) (record : HostSessionRecord)
  | delay
  | nothing
  deriving DecidableEq, Repr

/-- The values that `random_u64` and `now` have when a program goes on. -/
structure Ambient where
  random : UInt64
  now : UInt64

/-- `random_u64().max(1)`. -/
def Ambient.fresh (a : Ambient) : UInt64 := max a.random 1

/-- Why the bootstrap writes. -/
inductive Purpose where
  | create
  | activate
  | challenge
  | revoke
  /-- The activation after a revocation of its own. -/
  | reactivate
  deriving DecidableEq, Repr

/-- Where `bootstrap_host_authority` waits. -/
inductive Boot where
  | readPlacement
  | pollDelay
  | readSession
  /-- The read in `challenge_host_session`, with the arguments of that call. -/
  | readChallenged (nonce challengedAt : UInt64)
  | put (purpose : Purpose) (expected : Nat) (record : HostSessionRecord)
  | challengeDelay (session nonce challengedAt : UInt64)
  | observe (session nonce : UInt64)
  | ready (active : VersionedSession)
  | failed (error : AuthorityError)
  deriving DecidableEq, Repr

namespace Boot

def start (config : AuthorityHostConfig) : Boot :=
  if config.Valid then readPlacement else failed .invalid

def awaits : Boot → Await
  | readPlacement => .placement
  | pollDelay => .delay
  | readSession => .session
  | readChallenged _ _ => .session
  | put _ expected record => .put expected record
  | challengeDelay _ _ _ => .delay
  | observe _ _ => .session
  | ready _ => .nothing
  | failed _ => .nothing

/-- Send the record an operation made; an operation that is refused ends the bootstrap. -/
def putOr (error : AuthorityError) (purpose : Purpose) (expected : Nat) :
    Option HostSessionRecord → Boot
  | some record => put purpose expected record
  | none => failed error

def onPlacement (config : AuthorityHostConfig) :
    Except AuthorityError (Option ClusterPlacement) → Boot
  | .ok (some placement) =>
    if placement.clusterId = config.clusterId then readSession else failed .invalid
  | .ok none => failed .fenced
  | .error .unavailable => pollDelay
  | .error error => failed error

def onSession (session : UInt64) (a : Ambient) :
    Except AuthorityError (Option VersionedSession) → Boot
  | .ok none => putOr .invalid .create 0 (HostSessionRecord.initial session)
  | .ok (some found) =>
    match found.record with
    | .active foundSession _ =>
      if foundSession = session then ready found else readChallenged a.fresh a.now
    | .revoked _ _ _ => putOr .invalid .activate found.storeVersion (found.record.activate session)
    | .challenge _ _ _ _ => pollDelay
  | .error .unavailable => pollDelay
  | .error error => failed error

section

variable (session : UInt64) (a : Ambient) (version : Nat)

theorem onSession_active (found epoch : UInt64) :
    onSession session a (.ok (some ⟨version, .active found epoch⟩)) =
      if found = session then ready ⟨version, .active found epoch⟩
      else readChallenged a.fresh a.now := rfl

theorem onSession_revoked (old epoch nonce : UInt64) :
    onSession session a (.ok (some ⟨version, .revoked old epoch nonce⟩)) =
      putOr .invalid .activate version
        ((HostSessionRecord.revoked old epoch nonce).activate session) := rfl

theorem onSession_challenge (found epoch nonce challengedAt : UInt64) :
    onSession session a (.ok (some ⟨version, .challenge found epoch nonce challengedAt⟩)) =
      pollDelay := rfl

end

/-- What follows `challenge_host_session`. -/
def onChallenged (challenged : VersionedSession) : Boot :=
  match challenged.record with
  | .challenge session _ nonce challengedAt => challengeDelay session nonce challengedAt
  | _ => pollDelay

def onReadChallenged (nonce challengedAt : UInt64) :
    Except AuthorityError (Option VersionedSession) → Boot
  | .ok none => failed .fenced
  | .ok (some found) =>
    match found.record with
    | .challenge _ _ _ _ => onChallenged found
    | _ =>
      putOr .fenced .challenge found.storeVersion (found.record.startChallenge nonce challengedAt)
  | .error .unavailable | .error .conflict => pollDelay
  | .error error => failed error

theorem onReadChallenged_active (nonce challengedAt : UInt64) (version : Nat)
    (found epoch : UInt64) :
    onReadChallenged nonce challengedAt (.ok (some ⟨version, .active found epoch⟩)) =
      putOr .fenced .challenge version
        ((HostSessionRecord.active found epoch).startChallenge nonce challengedAt) := rfl

def onObserve (session nonce : UInt64) : Except AuthorityError (Option VersionedSession) → Boot
  | .ok (some found) =>
    match found.record with
    | .challenge foundSession _ foundNonce _ =>
      if foundSession = session ∧ foundNonce = nonce then
        putOr .invalid .revoke found.storeVersion (found.record.revoke nonce)
      else readPlacement
    | _ => readPlacement
  | .ok none => pollDelay
  | .error .unavailable | .error .conflict => pollDelay
  | .error error => failed error

theorem onObserve_challenge (session nonce : UInt64) (version : Nat)
    (epoch challengedAt : UInt64) :
    onObserve session nonce (.ok (some ⟨version, .challenge session epoch nonce challengedAt⟩)) =
      putOr .invalid .revoke version
        ((HostSessionRecord.challenge session epoch nonce challengedAt).revoke nonce) :=
  if_pos ⟨rfl, rfl⟩

def onPut (session : UInt64) (purpose : Purpose) (record : HostSessionRecord) :
    Except AuthorityError Nat → Boot
  | .ok version =>
    match purpose with
    | .create | .activate | .reactivate => ready ⟨version, record⟩
    | .challenge => onChallenged ⟨version, record⟩
    | .revoke => putOr .invalid .reactivate version (record.activate session)
  | .error .unavailable | .error .conflict =>
    match purpose with
    | .create | .activate | .challenge => pollDelay
    | .revoke | .reactivate => readPlacement
  | .error error => failed error

def resume (config : AuthorityHostConfig) (session : UInt64) (a : Ambient) :
    Boot → Answer → Option Boot
  | readPlacement, .placement result => some (onPlacement config result)
  | pollDelay, .elapsed => some readPlacement
  | readSession, .session result => some (onSession session a result)
  | readChallenged nonce challengedAt, .session result =>
    some (onReadChallenged nonce challengedAt result)
  | put purpose _ record, .put result => some (onPut session purpose record result)
  | challengeDelay session nonce _, .elapsed => some (observe session nonce)
  | observe session nonce, .session result => some (onObserve session nonce result)
  | _, _ => none

end Boot

/-- Where `host_session_monitor` waits; a process that fences itself stops. -/
inductive Monitor where
  | waiting
  | polling
  /-- The read in `poll_or_defend_host_session`. -/
  | defending
  | put (expected : Nat) (record : HostSessionRecord)
  | fenced
  deriving DecidableEq, Repr

namespace Monitor

def awaits : Monitor → Await
  | waiting => .delay
  | polling => .session
  | defending => .session
  | put expected record => .put expected record
  | fenced => .nothing

def onPoll (session : UInt64) : Except AuthorityError (Option VersionedSession) → Monitor
  | .ok (some found) =>
    match found.record with
    | .active foundSession _ => if foundSession = session then waiting else fenced
    | .challenge foundSession _ _ _ => if foundSession = session then defending else fenced
    | .revoked _ _ _ => fenced
  | .ok none => fenced
  | .error .unavailable => waiting
  | .error _ => fenced

def onDefend (session : UInt64) : Except AuthorityError (Option VersionedSession) → Monitor
  | .ok (some found) =>
    match found.record with
    | .active foundSession _ => if foundSession = session then waiting else fenced
    | .challenge foundSession _ nonce _ =>
      if foundSession = session then
        match found.record.defend session nonce with
        | some defended => put found.storeVersion defended
        | none => fenced
      else fenced
    | .revoked _ _ _ => fenced
  | .ok none => fenced
  | .error .unavailable => waiting
  | .error _ => fenced

def resume (session : UInt64) : Monitor → Answer → Option Monitor
  | waiting, .elapsed => some polling
  | polling, .session result => some (onPoll session result)
  | defending, .session result => some (onDefend session result)
  | put _ _, .put (.ok _) => some waiting
  | put _ _, .put (.error .unavailable) => some waiting
  | put _ _, .put (.error _) => some fenced
  | _, _ => none

end Monitor

/-- Where `relinquish_authority` waits. -/
inductive Drain where
  | reading
  | put (expected : Nat) (record : HostSessionRecord)
  | done
  deriving DecidableEq, Repr

namespace Drain

def awaits : Drain → Await
  | reading => .session
  | put expected record => .put expected record
  | done => .nothing

def onRead (session epoch nonce : UInt64) :
    Except AuthorityError (Option VersionedSession) → Drain
  | .ok (some found) =>
    if found.record = .active session epoch then
      match found.record.retire session nonce with
      | some retired => put found.storeVersion retired
      | none => done
    else done
  | _ => done

def resume (session epoch : UInt64) (a : Ambient) : Drain → Answer → Option Drain
  | reading, .session result => some (onRead session epoch a.fresh result)
  | put _ _, .put _ => some done
  | _, _ => none

end Drain

/-- A program of a process of the host. -/
inductive Program where
  | boot (config : AuthorityHostConfig) (session : UInt64) (state : Boot)
  | monitor (session : UInt64) (state : Monitor)
  | drain (session epoch : UInt64) (state : Drain)
  deriving DecidableEq, Repr

namespace Program

def awaits : Program → Await
  | boot _ _ state => state.awaits
  | monitor _ state => state.awaits
  | drain _ _ state => state.awaits

def resume (a : Ambient) : Program → Answer → Option Program
  | boot config session state, answer =>
    (state.resume config session a answer).map (boot config session)
  | monitor session state, answer => (state.resume session answer).map (monitor session)
  | drain session epoch state, answer =>
    (state.resume session epoch a answer).map (drain session epoch)

end Program

/-! ## Histories -/

/-- The session object with every version it has had: version zero is its absence. -/
abbrev SessionObject := Cas.Object Nat (Option HostSessionRecord)

/-- `read_host_session`, of what the store has under the key. -/
def readHostSession : Option VersionedSession → Except AuthorityError (Option VersionedSession)
  | none => .ok none
  | some found => if found.record.Valid then .ok (some found) else .error .corrupt

/-- A version of the object as the store answers it. -/
def sessionAt (entry : Nat × Option HostSessionRecord) : Option VersionedSession :=
  entry.2.map fun record => ⟨entry.1, record⟩

/-- A program, and the number of its conditional write while that is under way. -/
structure SessionTask where
  program : Program
  sent : Option Nat

structure SessionWorld where
  object : SessionObject
  tasks : List SessionTask

/-- One event of a history. -/
inductive SessionEvent where
  /-- A process starts, and draws its session. -/
  | spawn (config : AuthorityHostConfig) (a : Ambient)
  /-- A process that has the session starts its monitor. -/
  | monitor (task : Nat)
  /-- A process that has the session starts to drain. -/
  | drain (task : Nat)
  | placement (task : Nat) (result : Except AuthorityError (Option ClusterPlacement))
  /-- A read is answered with a version the object has or has had; the answer may be late. -/
  | read (task : Nat) (a : Ambient) (version : Nat)
  | readFails (task : Nat) (a : Ambient)
  /-- A conditional write is sent. -/
  | submit (task : Nat)
  /-- A conditional write takes effect. -/
  | land (request version : Nat)
  /-- A program learns what became of its write. -/
  | answered (task : Nat) (a : Ambient)
  /-- A program never learns it. -/
  | lost (task : Nat) (a : Ambient)
  | elapse (task : Nat) (a : Ambient)

namespace SessionWorld

def init : SessionWorld := ⟨Cas.Object.create 0 none, []⟩

/-- Task `i` goes on with an answer. -/
def resume (w : SessionWorld) (i : Nat) (a : Ambient) (answer : Answer) : Option SessionWorld := do
  let task ← w.tasks[i]?
  let program ← task.program.resume a answer
  return { w with tasks := w.tasks.set i ⟨program, none⟩ }

/-- The session a process has got. -/
def readySession (w : SessionWorld) (i : Nat) : Option (UInt64 × UInt64) := do
  let task ← w.tasks[i]?
  match task.program with
  | .boot _ session (.ready active) => some (session, active.record.epoch)
  | _ => none

def step (w : SessionWorld) : SessionEvent → Option SessionWorld
  | .spawn config a =>
    some { w with tasks := w.tasks ++ [⟨.boot config a.fresh (Boot.start config), none⟩] }
  | .monitor i => do
    let (session, _) ← w.readySession i
    return { w with tasks := w.tasks ++ [⟨.monitor session .waiting, none⟩] }
  | .drain i => do
    let (session, epoch) ← w.readySession i
    return { w with tasks := w.tasks ++ [⟨.drain session epoch .reading, none⟩] }
  | .placement i result => w.resume i ⟨0, 0⟩ (.placement result)
  | .read i a version => do
    let entry ← w.object.log.find? (·.1 == version)
    w.resume i a (.session (readHostSession (sessionAt entry)))
  | .readFails i a => w.resume i a (.session (.error .unavailable))
  | .submit i => do
    let task ← w.tasks[i]?
    match task.program.awaits, task.sent with
    | .put expected record, none =>
      some
        { object := w.object.send expected (some record)
          tasks := w.tasks.set i { task with sent := some w.object.requests.length } }
    | _, _ => none
  | .land request version => do
    let object ← w.object.land request version
    return { w with object }
  | .answered i a => do
    let task ← w.tasks[i]?
    let request ← task.sent
    match w.object.created request with
    | some version => w.resume i a (.put (.ok version))
    | none =>
      if w.object.conflicts request then w.resume i a (.put (.error .conflict)) else none
  | .lost i a => do
    let task ← w.tasks[i]?
    let _ ← task.sent
    w.resume i a (.put (.error .unavailable))
  | .elapse i a => w.resume i a .elapsed

/-- What the store has under the key of the session. -/
def cell (w : SessionWorld) : Option VersionedSession := sessionAt (w.object.version, w.object.value)

/-- The world after some history. -/
def Reachable (w : SessionWorld) : Prop := ∃ events, Run.run step init events = some w

end SessionWorld

/-! ## What a history leaves behind -/

/-- The record a bootstrap is about to write is valid. -/
def Boot.Ok : Boot → Prop
  | put _ _ record => record.Valid
  | _ => True

def Monitor.Ok : Monitor → Prop
  | put _ record => record.Valid
  | _ => True

def Drain.Ok : Drain → Prop
  | put _ record => record.Valid
  | _ => True

def Program.Ok : Program → Prop
  | boot _ _ state => state.Ok
  | monitor _ state => state.Ok
  | drain _ _ state => state.Ok

/-- A session that is read is valid. -/
def Answer.Ok : Answer → Prop
  | session (.ok (some found)) => found.record.Valid
  | _ => True

theorem Answer.ok_readHostSession (cell : Option VersionedSession) :
    (Answer.session (readHostSession cell)).Ok := by
  obtain _ | found := cell
  · trivial
  · by_cases hvalid : found.record.Valid
    · rw [readHostSession, if_pos hvalid]
      exact hvalid
    · rw [readHostSession, if_neg hvalid]
      trivial

namespace Boot

theorem ok_putOr {error : AuthorityError} {purpose : Purpose} {expected : Nat}
    {record : Option HostSessionRecord} (h : ∀ r, record = some r → r.Valid) :
    (putOr error purpose expected record).Ok := by
  obtain _ | record := record
  · trivial
  · exact h record rfl

theorem ok_onChallenged (challenged : VersionedSession) : (onChallenged challenged).Ok := by
  obtain ⟨version, record⟩ := challenged
  cases record <;> trivial

section Session

variable {session nonce challengedAt : UInt64} {a : Ambient}
  {result : Except AuthorityError (Option VersionedSession)} (h : (Answer.session result).Ok)
include h

theorem ok_onSession :
    (onSession session a result).Ok := by
  obtain error | _ | ⟨version, record⟩ := result
  · cases error <;> trivial
  · exact ok_putOr fun r hr => .initial hr
  · match record with
    | .active found epoch =>
      show (if found = session then ready _ else readChallenged _ _).Ok
      split <;> trivial
    | .challenge _ _ _ _ => trivial
    | .revoked old epoch nonce => exact ok_putOr fun r hr => .activate h hr

theorem ok_onReadChallenged :
    (onReadChallenged nonce challengedAt result).Ok := by
  obtain error | _ | ⟨version, record⟩ := result
  · cases error <;> trivial
  · trivial
  · match record with
    | .active found epoch => exact ok_putOr fun r hr => .startChallenge h hr
    | .challenge found epoch foundNonce at_ =>
      exact ok_onChallenged ⟨version, .challenge found epoch foundNonce at_⟩
    | .revoked _ _ _ => trivial

theorem ok_onObserve :
    (onObserve session nonce result).Ok := by
  obtain error | _ | ⟨version, record⟩ := result
  · cases error <;> trivial
  · trivial
  · match record with
    | .active _ _ => trivial
    | .challenge found epoch foundNonce challengedAt =>
      show (if found = session ∧ foundNonce = nonce then _ else readPlacement).Ok
      split
      · exact ok_putOr fun r hr => .revoke h hr
      · trivial
    | .revoked _ _ _ => trivial

end Session

theorem ok_onPut {session : UInt64} {purpose : Purpose} {record : HostSessionRecord}
    (h : record.Valid) (result : Except AuthorityError Nat) :
    (onPut session purpose record result).Ok := by
  obtain error | version := result
  · cases error <;> cases purpose <;> trivial
  · match purpose with
    | .create | .activate | .reactivate => trivial
    | .challenge => exact ok_onChallenged _
    | .revoke => exact ok_putOr fun r hr => .activate h hr

end Boot

theorem Boot.ok_onPlacement (config : AuthorityHostConfig)
    (result : Except AuthorityError (Option ClusterPlacement)) :
    (Boot.onPlacement config result).Ok := by
  obtain error | _ | placement := result
  · cases error <;> trivial
  · trivial
  · show (if placement.clusterId = config.clusterId then readSession else failed .invalid).Ok
    split <;> trivial

theorem Boot.Ok.resume {config : AuthorityHostConfig} {session : UInt64} {a : Ambient}
    {b b' : Boot} {answer : Answer} (hb : b.Ok) (hanswer : answer.Ok)
    (h : b.resume config session a answer = some b') : b'.Ok := by
  unfold Boot.resume at h
  split at h
  · exact Option.some.inj h ▸ ok_onPlacement config _
  · exact Option.some.inj h ▸ trivial
  · exact Option.some.inj h ▸ ok_onSession hanswer
  · exact Option.some.inj h ▸ ok_onReadChallenged hanswer
  · exact Option.some.inj h ▸ ok_onPut hb _
  · exact Option.some.inj h ▸ trivial
  · exact Option.some.inj h ▸ ok_onObserve hanswer
  · nomatch h

theorem Monitor.ok_onPoll (session : UInt64)
    (result : Except AuthorityError (Option VersionedSession)) : (onPoll session result).Ok := by
  obtain error | _ | ⟨version, record⟩ := result
  · cases error <;> trivial
  · trivial
  · match record with
    | .active found _ =>
      show (if found = session then waiting else fenced).Ok
      split <;> trivial
    | .challenge found _ _ _ =>
      show (if found = session then defending else fenced).Ok
      split <;> trivial
    | .revoked _ _ _ => trivial

theorem Monitor.ok_onDefend {session : UInt64}
    {result : Except AuthorityError (Option VersionedSession)} (h : (Answer.session result).Ok) :
    (onDefend session result).Ok := by
  obtain error | _ | ⟨version, record⟩ := result
  · cases error <;> trivial
  · trivial
  · match record with
    | .active found _ =>
      show (if found = session then waiting else fenced).Ok
      split <;> trivial
    | .challenge found epoch nonce at_ =>
      simp only [onDefend]
      split
      · split
        · exact HostSessionRecord.Valid.defend h ‹_›
        · trivial
      · trivial
    | .revoked _ _ _ => trivial

theorem Monitor.Ok.resume {session : UInt64} {m m' : Monitor} {answer : Answer}
    (hanswer : answer.Ok) (h : m.resume session answer = some m') : m'.Ok := by
  unfold Monitor.resume at h
  split at h
  · exact Option.some.inj h ▸ trivial
  · exact Option.some.inj h ▸ ok_onPoll session _
  · exact Option.some.inj h ▸ ok_onDefend hanswer
  · exact Option.some.inj h ▸ trivial
  · exact Option.some.inj h ▸ trivial
  · exact Option.some.inj h ▸ trivial
  · nomatch h

theorem Drain.ok_onRead {session epoch nonce : UInt64}
    {result : Except AuthorityError (Option VersionedSession)} (h : (Answer.session result).Ok) :
    (onRead session epoch nonce result).Ok := by
  obtain error | _ | found := result
  · trivial
  · trivial
  · simp only [onRead]
    split
    · split
      · exact HostSessionRecord.Valid.retire h ‹_›
      · trivial
    · trivial

theorem Drain.Ok.resume {session epoch : UInt64} {a : Ambient} {d d' : Drain} {answer : Answer}
    (hanswer : answer.Ok) (h : d.resume session epoch a answer = some d') : d'.Ok := by
  unfold Drain.resume at h
  split at h
  · exact Option.some.inj h ▸ ok_onRead hanswer
  · exact Option.some.inj h ▸ trivial
  · nomatch h

theorem Program.Ok.resume {a : Ambient} {p p' : Program} {answer : Answer} (hp : p.Ok)
    (hanswer : answer.Ok) (h : p.resume a answer = some p') : p'.Ok := by
  match p with
  | .boot config session state =>
    obtain ⟨state', hstate, rfl⟩ := Option.map_eq_some_iff.mp h
    exact Boot.Ok.resume hp hanswer hstate
  | .monitor session state =>
    obtain ⟨state', hstate, rfl⟩ := Option.map_eq_some_iff.mp h
    exact Monitor.Ok.resume hanswer hstate
  | .drain session epoch state =>
    obtain ⟨state', hstate, rfl⟩ := Option.map_eq_some_iff.mp h
    exact Drain.Ok.resume hanswer hstate

theorem Program.Ok.valid {p : Program} {expected : Nat} {record : HostSessionRecord} (hp : p.Ok)
    (h : p.awaits = .put expected record) : record.Valid := by
  match p with
  | .boot _ _ (.put _ _ _) | .monitor _ (.put _ _) | .drain _ _ (.put _ _) =>
    obtain ⟨-, rfl⟩ := Await.put.inj h
    exact hp

namespace SessionWorld

/-- Only valid records are in the store, under way to it or about to be sent. -/
structure Ok (w : SessionWorld) : Prop where
  object : w.object.All fun value => ∀ record, value = some record → record.Valid
  tasks : ∀ task ∈ w.tasks, task.program.Ok

theorem Ok.resume {w w' : SessionWorld} {i : Nat} {a : Ambient} {answer : Answer} (hw : w.Ok)
    (h : w.resume i a answer = some w') (hanswer : answer.Ok) : w'.Ok := by
  simp only [SessionWorld.resume, Option.bind_eq_bind, Option.bind_eq_some_iff, Option.pure_def,
    Option.some.injEq] at h
  obtain ⟨task, htask, program, hprogram, rfl⟩ := h
  refine ⟨hw.object, fun task' hmem => ?_⟩
  rcases List.mem_or_eq_of_mem_set hmem with hmem | rfl
  · exact hw.tasks task' hmem
  · exact (hw.tasks task (List.mem_of_getElem? htask)).resume hanswer hprogram

theorem Ok.spawn {w : SessionWorld} (hw : w.Ok) {program : Program} (hp : program.Ok) :
    Ok { w with tasks := w.tasks ++ [⟨program, none⟩] } := by
  refine ⟨hw.object, fun task hmem => ?_⟩
  rcases List.mem_append.mp hmem with hmem | hmem
  · exact hw.tasks task hmem
  · exact List.mem_singleton.mp hmem ▸ hp

theorem Ok.step {w w' : SessionWorld} {event : SessionEvent} (hw : w.Ok)
    (h : w.step event = some w') : w'.Ok := by
  match event with
  | .spawn config a =>
    obtain rfl := Option.some.inj h
    refine hw.spawn ?_
    show (if config.Valid then Boot.readPlacement else .failed .invalid).Ok
    split <;> trivial
  | .monitor i | .drain i =>
    simp only [SessionWorld.step, Option.bind_eq_bind, Option.bind_eq_some_iff, Option.pure_def,
      Option.some.injEq] at h
    obtain ⟨_, -, rfl⟩ := h
    exact hw.spawn trivial
  | .placement i result => exact hw.resume h trivial
  | .read i a version =>
    obtain ⟨entry, -, h⟩ := Option.bind_eq_some_iff.mp h
    exact hw.resume h (Answer.ok_readHostSession _)
  | .readFails i a => exact hw.resume h trivial
  | .submit i =>
    obtain ⟨task, htask, h⟩ := Option.bind_eq_some_iff.mp h
    split at h
    · rename_i expected record hawait hsent
      obtain rfl := Option.some.inj h
      have htaskOk := hw.tasks task (List.mem_of_getElem? htask)
      refine ⟨hw.object.send _ fun r hr => ?_, fun task' hmem => ?_⟩
      · exact Option.some.inj hr ▸ htaskOk.valid hawait
      · rcases List.mem_or_eq_of_mem_set hmem with hmem | rfl
        · exact hw.tasks task' hmem
        · exact htaskOk
    · nomatch h
  | .land request version =>
    obtain ⟨object, hland, h⟩ := Option.bind_eq_some_iff.mp h
    obtain rfl := Option.some.inj h
    exact ⟨hw.object.land hland, hw.tasks⟩
  | .answered i a =>
    simp only [SessionWorld.step, Option.bind_eq_bind, Option.bind_eq_some_iff] at h
    obtain ⟨task, -, request, -, h⟩ := h
    split at h
    · exact hw.resume h trivial
    · exact hw.resume (Option.ite_none_right_eq_some.mp h).2 trivial
  | .lost i a =>
    simp only [SessionWorld.step, Option.bind_eq_bind, Option.bind_eq_some_iff] at h
    obtain ⟨task, -, request, -, h⟩ := h
    exact hw.resume h trivial
  | .elapse i a => exact hw.resume h trivial

/-- **A history leaves a valid record, or none.** -/
theorem Reachable.valid {w : SessionWorld} (h : w.Reachable) {found : VersionedSession}
    (hfound : w.cell = some found) : found.record.Valid := by
  obtain ⟨events, hrun⟩ := h
  obtain ⟨record, hrecord, rfl⟩ := Option.map_eq_some_iff.mp hfound
  have hinit : init.Ok :=
    ⟨.create 0 (fun _ hnone => nomatch hnone), fun _ hmem => absurd hmem List.not_mem_nil⟩
  have hw : w.Ok := Run.run_invariant_of_step (fun s a t hs ht => hs.step ht) hinit hrun
  exact hw.object.log _ w.object.current_mem_log record hrecord

end SessionWorld

/-! ## The takeover -/

/-- A new process that is alone with the store. -/
structure Takeover where
  config : AuthorityHostConfig
  /-- What the store answers when the placement is read. -/
  placement : Except AuthorityError (Option ClusterPlacement)
  /-- When the session is drawn. -/
  draw : Ambient
  /-- When the process goes on for the `n`-th time. -/
  ambient : Nat → Ambient

/-- The process, and what the store has under the key of the session. -/
structure Solo where
  boot : Boot
  cell : Option VersionedSession

/-- The version a conditional write has to expect. -/
def Solo.version (s : Solo) : Nat := (s.cell.map VersionedSession.storeVersion).getD 0

namespace Takeover

variable (t : Takeover)

def session : UInt64 := t.draw.fresh

/-- Go on with an answer. -/
def goOn (a : Ambient) (s : Solo) (answer : Answer) : Solo :=
  match s.boot.resume t.config t.session a answer with
  | some boot => { s with boot }
  | none => s

/-- The store does what it is asked, and says so. -/
def step (a : Ambient) (s : Solo) : Solo :=
  match s.boot.awaits with
  | .placement => t.goOn a s (.placement t.placement)
  | .session => t.goOn a s (.session (readHostSession s.cell))
  | .put expected record =>
    if expected = s.version then
      t.goOn a { s with cell := some ⟨s.version + 1, record⟩ } (.put (.ok (s.version + 1)))
    else t.goOn a s (.put (.error .conflict))
  | .delay => t.goOn a s .elapsed
  | .nothing => s

/-- The process at its start. -/
def start (cell : Option VersionedSession) : Solo := ⟨Boot.start t.config, cell⟩

/-- After `n` steps. -/
def run (cell : Option VersionedSession) : Nat → Solo
  | 0 => t.start cell
  | n + 1 => t.step (t.ambient n) (run cell n)

/-- **The takeover completes**: the bootstrap returns, and the record is active with its session. -/
def Completes (cell : Option VersionedSession) : Prop :=
  ∃ n active epoch, t.run cell n = ⟨.ready active, some active⟩ ∧
    active.record = .active t.session epoch

/-- The placement is there, and is that of the cluster of the host. -/
def Placed : Prop :=
  ∃ placement, t.placement = .ok (some placement) ∧ placement.clusterId = t.config.clusterId

/-- The records that can be taken over. -/
def Takeable : Option HostSessionRecord → Prop
  | none => True
  | some (.active session epoch) => session = t.session ∨ epoch.toNat + 1 < 2 ^ 64
  | some (.challenge _ _ _ _) => False
  | some (.revoked _ _ _) => True

variable {t}

theorem fresh_ne_zero (a : Ambient) : a.fresh ≠ 0 := by
  intro h
  have hle : (1 : UInt64) ≤ a.fresh := le_max_right a.random 1
  rw [h] at hle
  exact absurd hle (by decide)

theorem session_ne_zero : t.session ≠ 0 := fresh_ne_zero t.draw

/-! ### One step -/

section

variable (a : Ambient) (cell : Option VersionedSession)

theorem step_readPlacement :
    t.step a ⟨.readPlacement, cell⟩ = ⟨Boot.onPlacement t.config t.placement, cell⟩ := rfl

theorem step_readSession :
    t.step a ⟨.readSession, cell⟩ = ⟨Boot.onSession t.session a (readHostSession cell), cell⟩ := rfl

theorem step_readChallenged (nonce challengedAt : UInt64) :
    t.step a ⟨.readChallenged nonce challengedAt, cell⟩ =
      ⟨Boot.onReadChallenged nonce challengedAt (readHostSession cell), cell⟩ := rfl

theorem step_challengeDelay (session nonce challengedAt : UInt64) :
    t.step a ⟨.challengeDelay session nonce challengedAt, cell⟩ =
      ⟨.observe session nonce, cell⟩ := rfl

theorem step_observe (session nonce : UInt64) :
    t.step a ⟨.observe session nonce, cell⟩ =
      ⟨Boot.onObserve session nonce (readHostSession cell), cell⟩ := rfl

/-- A write that expects the version there is takes effect. -/
theorem step_put (purpose : Purpose) (record old : HostSessionRecord) (version : Nat) :
    t.step a ⟨.put purpose version record, some ⟨version, old⟩⟩ =
      ⟨Boot.onPut t.session purpose record (.ok (version + 1)), some ⟨version + 1, record⟩⟩ :=
  if_pos rfl

theorem step_put_absent (purpose : Purpose) (record : HostSessionRecord) :
    t.step a ⟨.put purpose 0 record, none⟩ =
      ⟨Boot.onPut t.session purpose record (.ok 1), some ⟨1, record⟩⟩ := rfl

end

/-! ### Where it completes -/

variable {cell : Option VersionedSession}

/-- The first two steps read the session. -/
theorem run_two (hconfig : t.config.Valid) (hplaced : t.Placed) :
    t.run cell 2 = ⟨Boot.onSession t.session (t.ambient 1) (readHostSession cell), cell⟩ := by
  obtain ⟨placement, hplacement, hcluster⟩ := hplaced
  have hstart : t.start cell = ⟨.readPlacement, cell⟩ := by rw [start, Boot.start, if_pos hconfig]
  have hread : Boot.onPlacement t.config t.placement = .readSession := by
    rw [hplacement]
    exact if_pos hcluster
  rw [run, run, run, hstart, step_readPlacement, hread, step_readSession]

theorem readHostSession_of_valid {found : VersionedSession} (h : found.record.Valid) :
    readHostSession (some found) = .ok (some found) := if_pos h

theorem completes_absent (hconfig : t.config.Valid) (hplaced : t.Placed) : t.Completes none := by
  have hinitial : HostSessionRecord.initial t.session = some (.active t.session 1) :=
    if_neg session_ne_zero
  have hput : Boot.onSession t.session (t.ambient 1) (readHostSession none) =
      .put .create 0 (.active t.session 1) := by
    show Boot.putOr _ _ _ (HostSessionRecord.initial t.session) = _
    rw [hinitial, Boot.putOr]
  refine ⟨3, ⟨1, .active t.session 1⟩, 1, ?_, rfl⟩
  rw [run, run_two hconfig hplaced, hput, step_put_absent, Boot.onPut]

theorem completes_own (hconfig : t.config.Valid) (hplaced : t.Placed) {version : Nat}
    {epoch : UInt64} (hvalid : (HostSessionRecord.active t.session epoch).Valid) :
    t.Completes (some ⟨version, .active t.session epoch⟩) := by
  refine ⟨2, ⟨version, .active t.session epoch⟩, epoch, ?_, rfl⟩
  rw [run_two hconfig hplaced, readHostSession_of_valid hvalid, Boot.onSession_active, if_pos rfl]

/-- A revoked record is activated. -/
theorem putOr_activate (error : AuthorityError) (purpose : Purpose) (version : Nat)
    (old epoch nonce : UInt64) :
    Boot.putOr error purpose version ((HostSessionRecord.revoked old epoch nonce).activate t.session) =
      .put purpose version (.active t.session epoch) := by
  rw [HostSessionRecord.activate, if_neg session_ne_zero, Boot.putOr]

theorem completes_revoked (hconfig : t.config.Valid) (hplaced : t.Placed) {version : Nat}
    {old epoch nonce : UInt64} (hvalid : (HostSessionRecord.revoked old epoch nonce).Valid) :
    t.Completes (some ⟨version, .revoked old epoch nonce⟩) := by
  refine ⟨3, ⟨version + 1, .active t.session epoch⟩, epoch, ?_, rfl⟩
  rw [run, run_two hconfig hplaced, readHostSession_of_valid hvalid, Boot.onSession_revoked,
    putOr_activate, step_put, Boot.onPut]

/-- From another session that is active to the observation of the challenge: the nonce is drawn and
the challenge written, and nobody defends. -/
theorem run_six (hconfig : t.config.Valid) (hplaced : t.Placed) (version : Nat)
    {session epoch : UInt64} (hother : session ≠ t.session)
    (hvalid : (HostSessionRecord.active session epoch).Valid) :
    ∃ nonce challengedAt, nonce ≠ 0 ∧ t.run (some ⟨version, .active session epoch⟩) 6 =
      ⟨Boot.onObserve session nonce
        (.ok (some ⟨version + 1, .challenge session epoch nonce challengedAt⟩)),
        some ⟨version + 1, .challenge session epoch nonce challengedAt⟩⟩ := by
  let nonce := (t.ambient 1).fresh
  let challengedAt := (t.ambient 1).now
  have hnonce : nonce ≠ 0 := fresh_ne_zero _
  have hchallenge : Boot.putOr .fenced .challenge version
      ((HostSessionRecord.active session epoch).startChallenge nonce challengedAt) =
      .put .challenge version (.challenge session epoch nonce challengedAt) := by
    rw [HostSessionRecord.startChallenge, if_neg hnonce, Boot.putOr]
  have hchallenged : (HostSessionRecord.challenge session epoch nonce challengedAt).Valid :=
    ⟨hvalid.1, hvalid.2, hnonce⟩
  refine ⟨nonce, challengedAt, hnonce, ?_⟩
  rw [run, run, run, run, run_two hconfig hplaced, readHostSession_of_valid hvalid,
    Boot.onSession_active, if_neg hother, step_readChallenged, readHostSession_of_valid hvalid,
    Boot.onReadChallenged_active, hchallenge, step_put, Boot.onPut, Boot.onChallenged,
    step_challengeDelay, step_observe, readHostSession_of_valid hchallenged]

theorem completes_active (hconfig : t.config.Valid) (hplaced : t.Placed) {version : Nat}
    {session epoch : UInt64} (hvalid : (HostSessionRecord.active session epoch).Valid)
    (hepoch : epoch.toNat + 1 < 2 ^ 64) : t.Completes (some ⟨version, .active session epoch⟩) := by
  by_cases hother : session = t.session
  · subst hother
    exact completes_own hconfig hplaced hvalid
  · obtain ⟨nonce, challengedAt, -, hsix⟩ := run_six hconfig hplaced version hother hvalid
    have hnext : checkedAdd epoch 1 = some (epoch + 1) := if_pos hepoch
    have hrevoke : (HostSessionRecord.challenge session epoch nonce challengedAt).revoke nonce =
        some (.revoked session (epoch + 1) nonce) := by
      rw [HostSessionRecord.revoke, if_neg (not_not.mpr rfl), hnext, Option.map_some]
    refine ⟨8, ⟨version + 3, .active t.session (epoch + 1)⟩, epoch + 1, ?_, rfl⟩
    rw [run, run, hsix, Boot.onObserve_challenge, hrevoke, Boot.putOr, step_put, Boot.onPut,
      putOr_activate, step_put, Boot.onPut]

/-! ### Where it does not -/

/-- A condition that the steps keep and that is never met at the end. -/
theorem not_completes {P : Solo → Prop} (hstart : P (t.start cell))
    (hstep : ∀ a s, P s → P (t.step a s)) (hready : ∀ active cell, ¬ P ⟨.ready active, cell⟩) :
    ¬ t.Completes cell := by
  rintro ⟨n, active, epoch, hrun, -⟩
  have hall : ∀ n, P (t.run cell n) := by
    intro n
    induction n with
    | zero => exact hstart
    | succ n ih => exact hstep _ _ ih
  exact hready _ _ (hrun ▸ hall n)

/-- A bootstrap that waits for nothing has ended. -/
theorem run_add_of_ended {n : Nat} (h : (t.run cell n).boot.awaits = .nothing) (m : Nat) :
    t.run cell (n + m) = t.run cell n := by
  induction m with
  | zero => rfl
  | succ m ih => rw [Nat.add_succ, run, ih, step, h]

theorem not_completes_of_failed {n : Nat} {error : AuthorityError} {cell' : Option VersionedSession}
    (h : t.run cell n = ⟨.failed error, cell'⟩) : ¬ t.Completes cell := by
  rintro ⟨m, active, epoch, hrun, -⟩
  have hfailed := run_add_of_ended (congrArg (fun s => s.boot.awaits) h) m
  have hready := run_add_of_ended (congrArg (fun s => s.boot.awaits) hrun) n
  rw [Nat.add_comm, hready, hrun, h] at hfailed
  nomatch hfailed

theorem not_completes_config (h : ¬ t.config.Valid) : ¬ t.Completes cell := by
  have hstart : t.run cell 0 = ⟨.failed .invalid, cell⟩ := by
    rw [run, start, Boot.start, if_neg h]
  exact not_completes_of_failed hstart

/-- Without the placement of its cluster the bootstrap fails, or reads it again and again. -/
theorem not_completes_placement (h : ¬ t.Placed) : ¬ t.Completes cell := by
  refine not_completes (P := fun s => s.boot = .readPlacement ∨ s.boot = .pollDelay ∨
    ∃ error, s.boot = .failed error) ?_ ?_ ?_
  · by_cases hconfig : t.config.Valid
    · exact .inl (if_pos hconfig)
    · exact .inr (.inr ⟨.invalid, if_neg hconfig⟩)
  · rintro a ⟨boot, cell⟩ (rfl | rfl | ⟨error, rfl⟩)
    · rw [step_readPlacement]
      match hplacement : t.placement with
      | .ok (some placement) =>
        have hcluster : ¬ placement.clusterId = t.config.clusterId :=
          fun hcluster => h ⟨placement, hplacement, hcluster⟩
        exact .inr (.inr ⟨.invalid, if_neg hcluster⟩)
      | .ok none => exact .inr (.inr ⟨.fenced, rfl⟩)
      | .error .unavailable => exact .inr (.inl rfl)
      | .error .conflict => exact .inr (.inr ⟨.conflict, rfl⟩)
      | .error .corrupt => exact .inr (.inr ⟨.corrupt, rfl⟩)
      | .error .fenced => exact .inr (.inr ⟨.fenced, rfl⟩)
      | .error .invalid => exact .inr (.inr ⟨.invalid, rfl⟩)
    · exact .inl rfl
    · exact .inr (.inr ⟨error, rfl⟩)
  · rintro active cell (h | h | ⟨error, h⟩) <;> nomatch h

/-- **A challenge that was left behind is waited on for ever.** -/
theorem not_completes_challenge (hconfig : t.config.Valid) (hplaced : t.Placed)
    {version : Nat} {session epoch nonce challengedAt : UInt64}
    (hvalid : (HostSessionRecord.challenge session epoch nonce challengedAt).Valid) :
    ¬ t.Completes (some ⟨version, .challenge session epoch nonce challengedAt⟩) := by
  obtain ⟨placement, hplacement, hcluster⟩ := hplaced
  refine not_completes (P := fun s =>
    s.cell = some ⟨version, .challenge session epoch nonce challengedAt⟩ ∧
      (s.boot = .readPlacement ∨ s.boot = .readSession ∨ s.boot = .pollDelay)) ?_ ?_ ?_
  · exact ⟨rfl, .inl (if_pos hconfig)⟩
  · rintro a ⟨boot, cell⟩ ⟨rfl, rfl | rfl | rfl⟩
    · rw [step_readPlacement, hplacement]
      exact ⟨rfl, .inr (.inl (if_pos hcluster))⟩
    · rw [step_readSession, readHostSession_of_valid hvalid, Boot.onSession_challenge]
      exact ⟨rfl, .inr (.inr rfl)⟩
    · exact ⟨rfl, .inl rfl⟩
  · rintro active cell ⟨-, h | h | h⟩ <;> nomatch h

theorem not_completes_last_epoch (hconfig : t.config.Valid) (hplaced : t.Placed) {version : Nat}
    {session epoch : UInt64} (hvalid : (HostSessionRecord.active session epoch).Valid)
    (hother : session ≠ t.session) (hepoch : ¬ epoch.toNat + 1 < 2 ^ 64) :
    ¬ t.Completes (some ⟨version, .active session epoch⟩) := by
  obtain ⟨nonce, challengedAt, -, hsix⟩ := run_six hconfig hplaced version hother hvalid
  have hnext : checkedAdd epoch 1 = none := if_neg hepoch
  have hrevoke : (HostSessionRecord.challenge session epoch nonce challengedAt).revoke nonce =
      none := by
    rw [HostSessionRecord.revoke, if_neg (not_not.mpr rfl), hnext, Option.map_none]
  rw [Boot.onObserve_challenge, hrevoke, Boot.putOr] at hsix
  exact not_completes_of_failed hsix

/-- **When the takeover completes.**  The configuration is valid and the placement is that of the
cluster, and what the history left is no challenge, nor another session in the last epoch. -/
theorem takeover_completes_iff (t : Takeover) {w : SessionWorld} (hw : w.Reachable) :
    t.Completes w.cell ↔ t.config.Valid ∧ t.Placed ∧
      t.Takeable (w.cell.map VersionedSession.record) := by
  by_cases hconfig : t.config.Valid
  swap
  · exact iff_of_false (not_completes_config hconfig) fun h => hconfig h.1
  by_cases hplaced : t.Placed
  swap
  · exact iff_of_false (not_completes_placement hplaced) fun h => hplaced h.2.1
  rw [and_iff_right hconfig, and_iff_right hplaced]
  match hcell : w.cell with
  | none => exact iff_of_true (completes_absent hconfig hplaced) trivial
  | some ⟨version, .active session epoch⟩ =>
    have hvalid := hw.valid hcell
    show _ ↔ session = t.session ∨ epoch.toNat + 1 < 2 ^ 64
    by_cases hepoch : epoch.toNat + 1 < 2 ^ 64
    · exact iff_of_true (completes_active hconfig hplaced hvalid hepoch) (.inr hepoch)
    · rw [or_iff_left hepoch]
      by_cases hown : session = t.session
      · subst hown
        exact iff_of_true (completes_own hconfig hplaced hvalid) rfl
      · exact iff_of_false (not_completes_last_epoch hconfig hplaced hvalid hown hepoch) hown
  | some ⟨version, .challenge session epoch nonce challengedAt⟩ =>
    exact iff_of_false (not_completes_challenge hconfig hplaced (hw.valid hcell)) id
  | some ⟨version, .revoked old epoch nonce⟩ =>
    exact iff_of_true (completes_revoked hconfig hplaced (hw.valid hcell)) trivial

/-! ### Two histories -/

/-- A process of a cluster of three hosts. -/
def ofCluster : Takeover where
  config := ⟨7, 2, 10, 20⟩
  placement := .ok (some ⟨7, 1, [1, 2, 3]⟩)
  draw := ⟨46, 0⟩
  ambient := fun _ => ⟨9, 0⟩

/-- The first process of the host creates the session, and stops. -/
def firstProcess : List SessionEvent :=
  [.spawn ofCluster.config ⟨44, 0⟩, .placement 0 ofCluster.placement, .read 0 ⟨0, 0⟩ 0, .submit 0,
    .land 0 1, .answered 0 ⟨0, 0⟩]

/-- The second process challenges that session, and stops before it learns that it did. -/
def secondProcess : List SessionEvent :=
  [.spawn ofCluster.config ⟨45, 0⟩, .placement 1 ofCluster.placement, .read 1 ⟨9, 5⟩ 1,
    .read 1 ⟨0, 5⟩ 1, .submit 1, .land 1 2]

theorem exists_reachable (events : List SessionEvent) (cell : Option VersionedSession)
    (h : (Run.run SessionWorld.step .init events).map SessionWorld.cell = some cell) :
    ∃ w : SessionWorld, w.Reachable ∧ w.cell = cell := by
  obtain ⟨w, hw, hcell⟩ := Option.map_eq_some_iff.mp h
  exact ⟨w, ⟨events, hw⟩, hcell⟩

theorem placed_ofCluster : ofCluster.Placed := ⟨⟨7, 1, [1, 2, 3]⟩, rfl, rfl⟩

/-- The session of a process that has stopped is taken over. -/
theorem takeover_completes_after_crash : ∃ w : SessionWorld, w.Reachable ∧
    w.cell = some ⟨1, .active 44 1⟩ ∧ ofCluster.Completes w.cell := by
  obtain ⟨w, hw, hcell⟩ := exists_reachable firstProcess
    (some ⟨1, .active 44 1⟩) (by decide)
  refine ⟨w, hw, hcell, (takeover_completes_iff ofCluster hw).mpr ⟨by decide, placed_ofCluster, ?_⟩⟩
  rw [hcell]
  exact .inr (by decide)

/-- **The takeover does not always complete.** -/
theorem not_takeover_completes : ¬ ∀ (t : Takeover) (w : SessionWorld), w.Reachable →
    t.config.Valid → t.Placed → t.Completes w.cell := by
  intro hall
  obtain ⟨w, hw, hcell⟩ := exists_reachable (firstProcess ++ secondProcess)
    (some ⟨2, .challenge 44 1 9 5⟩) (by decide)
  have hcompletes := hall ofCluster w hw (by decide) placed_ofCluster
  rw [hcell] at hcompletes
  exact not_completes_challenge (by decide) placed_ofCluster (by decide) hcompletes

end Takeover

end Blockd
