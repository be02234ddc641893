import Blockd.Engine.HeadCluster
import Blockd.Engine.ReplicaRefinement
import Blockd.Lib.Run

/-!
# Acknowledged syncs and what protects them

A guest sync is answered when the volume's `sync_ack_through` has reached its barrier.  The
watermark is raised by a commit on the passive (`finish_primary_commit`), and it is set from a
journal record by local recovery and by an inbound migration.  What should stand behind it is a
commit in the spool of a passive that the head names, or the published manifest.

`Protection` is one volume with everything this depends on: the head, the volume state and the
journal of every host, the spools of every peer, and the messages between them, which may be
delivered late, more than once and in any order.  A run starts when the volume has been created.

Two things are simpler here than in the modules they are taken from.  A journal record is its
commit info and its capture number (`JournalCut`).  A spool is its newest commit; the passive of
`Engine.Replica` moves it in the same way, or refuses the message, and finds it again when it
restarts (`Passive.cut_deliver`, `PassiveInv.cut_crash`).

The head is the versioned object of `Lib.Cas`, and the head tasks are those of `Engine.HeadTasks`: a
volume state has at most one publication and one change of its assignment under way, and any number
of removals.  What a task does with an answer is `HeadSystem.act` on that task alone.  Its writes
take effect in their own time, after the host has stopped too.
-/

set_option autoImplicit false

open Codec

namespace Blockd

/-! ## Spools -/

/-- The newest commit in a spool. -/
abbrev SpoolCut := Option ReplicaCommitInfo

namespace SpoolCut

/-- A commit is taken if it is newer than what is there. -/
def commit (known : SpoolCut) (info : ReplicaCommitInfo) : SpoolCut :=
  if known.any (fun k => decide (info ≤ k)) then known else some info

/-- A release drops the spool if it reaches the commit. -/
def release (known : SpoolCut) (through : ReplicaCommitInfo) : SpoolCut :=
  known.filter fun k => decide (through < k)

theorem commit_eq_some {known : SpoolCut} {info c : ReplicaCommitInfo}
    (h : known.commit info = some c) : known = some c ∨ c = info ∧ ∀ k ∈ known, k < info := by
  unfold commit at h
  split at h
  case isTrue => exact .inl h
  case isFalse hnew =>
    obtain rfl := Option.some.inj h
    refine .inr ⟨rfl, fun k hk => lt_of_not_ge fun hle => hnew ?_⟩
    obtain rfl := hk
    simpa using hle

/-- A spool that takes a commit does not fall behind what it had. -/
theorem le_commit {known : SpoolCut} {k : ReplicaCommitInfo} (info : ReplicaCommitInfo)
    (hk : known = some k) : ∃ c, known.commit info = some c ∧ k ≤ c := by
  subst hk
  by_cases hle : info ≤ k
  · exact ⟨k, by simp [commit, hle], le_rfl⟩
  · exact ⟨info, by simp [commit, hle], le_of_not_ge hle⟩

theorem release_eq_some {known : SpoolCut} {through c : ReplicaCommitInfo} :
    known.release through = some c ↔ known = some c ∧ through < c := by
  simp [release, Option.filter_eq_some_iff]

end SpoolCut

/-- What a message makes of the newest commit if it is taken. -/
def SpoolCut.take (known : SpoolCut) : ReplicaMessage → SpoolCut
  | .put .. => known
  | .commit info _ _ => known.commit info
  | .release through => known.release through

/-- The message a passive was handling. -/
def PassiveLabel.message : PassiveLabel → Option ReplicaMessage
  | .deliver message _ | .crash message _ _ => some message
  | .restart => none

/-- The newest commit of a passive. -/
def Passive.cut (p : Passive) : SpoolCut := p.replica.bind ReplicaState.committed

section

variable [Platform] {config : PassiveConfig} {key : ReplicaKey} {env : Surroundings} {p : Passive}
  {message : ReplicaMessage} {frame : Bytes} {update : ReplicaState → ReplicaState}

theorem Appends.committed {r : ReplicaState}
    (h : Appends key (p.replica.getD ReplicaState.default) message frame update)
    (hr : r.committed = p.cut) : (update r).committed = p.cut.take message := by
  cases h with
  | put => exact hr
  | commit hcomplete hlater hseal =>
    rw [committed_getD] at hlater
    refine (if_neg ?_).symm
    rw [Option.any_eq_true]
    rintro ⟨known, hknown, hle⟩
    exact (hlater known hknown).not_ge (of_decide_eq_true hle)

/-- A message changes the newest commit as it changes an abstract spool, or is refused. -/
theorem Passive.cut_deliver : (p.deliver config key env message).cut = p.cut ∨
    (p.deliver config key env message).cut = p.cut.take message := by
  have hreacts := p.reacts config key env message
  rw [Passive.deliver]
  generalize p.react config key env message = reaction at hreacts ⊢
  cases hreacts with
  | answer => exact .inl rfl
  | touch => cases hr : p.replica <;> simp [Passive.cut, hr]
  | @append _ frame update happends =>
    dsimp only [Passive.append]
    cases p.appendPlan config env frame.length with
    | none => exact .inl rfl
    | some plan =>
      dsimp only
      split
      · exact .inr (happends.committed (committed_getD p))
      · exact .inl rfl
  | @drop through committed r hr hcommitted hle =>
    cases env.deleteFailedAfter with
    | some count => exact .inl rfl
    | none =>
      -- the spool is gone, and the commit it had was not past the release
      refine .inr (Option.filter_eq_none_iff.mpr fun k hk => ?_).symm
      rw [Passive.cut, hr, Option.bind_some, hcommitted] at hk
      obtain rfl := Option.some.inj hk
      simpa using hle

theorem Spooled.cut_recover {r : ReplicaState} {spool : Std.ExtTreeMap Nat Bytes}
    (h : Spooled key r spool) (hcur : (spool[r.currentGeneration]?).isSome) :
    (recoverReplicaBlobs key spool).cut = r.committed := by
  obtain ⟨r', hrec, -, hview⟩ := recover_spooled h hcur
  rw [hrec]
  exact congrArg (fun v => v.2.1) hview

/-- A passive that restarts finds the commit it had. -/
theorem PassiveInv.cut_restart (h : PassiveInv key p) :
    (recoverReplicaBlobs key p.spool).cut = p.cut := by
  cases hr : p.replica with
  | none =>
    rw [h.absent hr, recover_empty, Passive.cut, Passive.cut, hr]
  | some r =>
    have hs := h.spooled
    rw [hr, Option.getD_some] at hs
    rw [hs.cut_recover (h.present r hr), Passive.cut, hr, Option.bind_some]

/-- A passive that stops inside an append has the whole message or nothing of it. -/
theorem PassiveInv.cut_crash {written : Nat} (h : PassiveInv key p)
    (hok : MessageOk config key p env message) :
    (recoverReplicaBlobs key (p.tornSpool config key env message written)).cut = p.cut ∨
      (recoverReplicaBlobs key (p.tornSpool config key env message written)).cut =
        p.cut.take message := by
  unfold Passive.tornSpool
  split
  case h_2 => exact .inl h.cut_restart
  case h_1 frame update hreact =>
    split
    case h_1 => exact .inl h.cut_restart
    case h_2 generation rotated hplan =>
      have hgen := appendPlan_generation hplan
      have hcur : ∀ bytes, ((appendFile p.spool generation bytes)[((p.replica.getD .default).appended
          generation rotated bytes.length).currentGeneration]?).isSome := by
        intro bytes
        rw [(h.spooled.files_append hgen bytes).1, getElem?_appendFile, if_pos rfl]
        rfl
      have hcreate : (recoverReplicaBlobs key (appendFile p.spool generation [])).cut = p.cut :=
        ((h.spooled.create hgen).cut_recover (hcur [])).trans (committed_getD p)
      split
      case isFalse => exact .inl h.cut_restart
      case isTrue hreserved =>
        have hspec := (react_appends hreact).spec (hok.readable hreact (hplan ▸ rfl) hreserved)
        by_cases hwhole : frame.length ≤ written
        · rw [List.take_of_length_le hwhole, (h.spooled.append hspec hgen).cut_recover (by
            rw [(hspec.files _).1]
            exact hcur frame)]
          exact .inr ((react_appends hreact).committed (committed_getD p))
        · by_cases hzero : written = 0
          · rw [hzero, List.take_zero]
            exact .inl hcreate
          · rw [recover_torn h.spooled hspec hgen (by omega) (by omega)]
            exact .inl hcreate

/-- **A passive is an abstract spool.**  Over every run of messages, restarts and appends that are
cut short, the newest commit is what the abstract spool has after some of the messages, in their
order: each of them is taken whole or not at all. -/
theorem passive_refines_cut {labels : List PassiveLabel} {p t : Passive} (h : PassiveInv key p)
    (hok : Run.Along (passiveStep config key) (PassiveOk config key) p labels)
    (hrun : Run.run (passiveStep config key) p labels = some t) :
    ∃ taken : List ReplicaMessage, taken.Sublist (labels.filterMap PassiveLabel.message) ∧
      t.cut = taken.foldl SpoolCut.take p.cut := by
  induction labels generalizing p with
  | nil =>
    obtain rfl := Option.some.inj hrun
    exact ⟨[], .refl _, rfl⟩
  | cons label labels ih =>
    obtain ⟨next, hstep, hrun⟩ := (Run.run_cons_eq_some _).mp hrun
    obtain ⟨taken, hsub, hcut⟩ := ih (h.step hok.1 hstep) (hok.2 next hstep) hrun
    have hnext : next.cut = p.cut ∨ ∃ message ∈ label.message, next.cut = p.cut.take message := by
      cases label with
      | deliver message env =>
        cases hstep
        exact Passive.cut_deliver.imp_right fun h => ⟨message, rfl, h⟩
      | restart =>
        cases hstep
        exact .inl h.cut_restart
      | crash message env written =>
        cases hstep
        exact (h.cut_crash hok.1).imp_right fun h => ⟨message, rfl, h⟩
    rcases hnext with hsame | ⟨message, hm, htake⟩
    · exact ⟨taken, hsub.trans ((List.sublist_cons_self ..).filterMap _), hsame ▸ hcut⟩
    · rw [htake] at hcut
      refine ⟨message :: taken, ?_, hcut⟩
      rw [List.filterMap_cons_some hm]
      exact hsub.cons_cons message

end

/-- Three commits, of which the last is cut short, and a restart. -/
def tornCommits [Platform] : List PassiveLabel :=
  [.deliver (bareCommit 7 1 5) (calm exampleConfig exampleKey),
    .deliver (bareCommit 7 2 6) (calm exampleConfig exampleKey),
    .crash (bareCommit 7 2 7) (calm exampleConfig exampleKey) 20, .restart]

set_option maxRecDepth 20000 in
theorem passive_refines_cut_restarted : letI := storedPlatform
    ∃ t, Run.run (passiveStep exampleConfig exampleKey) Passive.empty tornCommits = some t ∧
      ∃ taken : List ReplicaMessage,
        taken.Sublist [bareCommit 7 1 5, bareCommit 7 2 6, bareCommit 7 2 7] ∧
        t.cut = taken.foldl SpoolCut.take none := by
  have hok : letI := storedPlatform
      Run.Along (passiveStep exampleConfig exampleKey) (PassiveOk exampleConfig exampleKey)
        Passive.empty tornCommits := by
    decide +kernel
  let _ := storedPlatform
  exact ⟨_, rfl, passive_refines_cut (PassiveInv.empty exampleKey) hok rfl⟩

/-! ## State -/

/-- What this model keeps of a journal record. -/
structure JournalCut where
  info : ReplicaCommitInfo
  captureSeq : UInt64
  deriving DecidableEq, Repr

/-- A publication that is under way. -/
structure Publication where
  /-- The commit that it archives. -/
  commit : ReplicaCommitInfo
  /-- What was backed when it began. -/
  base : Option ManifestPtr
  /-- Its `publish_head`. -/
  task : Option TaskState
  deriving DecidableEq, Repr

/-- A change of the assignment that a replication has under way. -/
structure AssignmentChange where
  /-- `activate_stash`, and not `transition_stash`. -/
  activates : Bool
  /-- Its `cas_assignment`. -/
  task : TaskState
  deriving DecidableEq, Repr

/-- A replication that is under way. -/
structure ReplicationRun where
  target : HostId
  assignmentEpoch : UInt64
  info : ReplicaCommitInfo
  change : Option AssignmentChange
  deriving DecidableEq, Repr

/-- The volume state of a host. -/
structure ProtectedVolume where
  cache : HeadCache
  /-- `best_record`. -/
  best : JournalCut
  mutationSeq : UInt64
  syncAckThrough : UInt64
  /-- The barriers of the syncs that wait. -/
  pendingSyncs : List UInt64
  peerCommitted : Option ReplicaCommitInfo
  peerPublished : Option ReplicaCommitInfo
  replication : Option ReplicationRun
  publication : Option Publication
  /-- The calls of `remove_retired_stash` that are under way. -/
  removals : List TaskState
  /-- The record that a migration under way will offer. -/
  migrating : Option JournalCut
  outbound : Option HostId
  /-- The head that an inbound migration has claimed and not finalized yet. -/
  incoming : Option HeadRecord
  ready : Bool
  deriving DecidableEq, Repr

/-- The head tasks that a volume state can have under way. -/
inductive HeadSlot where
  | publication
  | assignment
  | removal (i : Nat)
  deriving DecidableEq, Repr

/-- What can happen to a head task that is under way. -/
inductive HeadEvent where
  | ok
  | conflict
  | unknown
  | serve
  | getUnavailable
  | found
  | retry
  deriving DecidableEq, Repr

/-- The event, for a system with that task alone. -/
def HeadEvent.toStep : HeadEvent → HeadStep
  | ok => .ok 0
  | conflict => .conflict 0
  | unknown => .unknown 0
  | serve => .serve 0
  | getUnavailable => .getUnavailable 0
  | found => .found 0
  | retry => .retry 0

namespace ProtectedVolume

/-- A volume state with the head it has claimed and one journal record. -/
def start (cache : HeadCache) (best : JournalCut) : ProtectedVolume where
  cache
  best
  mutationSeq := best.captureSeq
  syncAckThrough := best.info.syncCoveredThrough
  pendingSyncs := []
  peerCommitted := none
  peerPublished := none
  replication := none
  publication := none
  removals := []
  migrating := none
  outbound := none
  incoming := none
  ready := false

/-- `handle_sync`, for a volume that is ready. -/
def handleSync (p : ProtectedVolume) : ProtectedVolume × List UInt64 :=
  if p.mutationSeq ≤ p.syncAckThrough then (p, [p.mutationSeq])
  else ({ p with pendingSyncs := p.pendingSyncs ++ [p.mutationSeq] }, [])

/-- `finish_primary_commit`; `serving` says that the host has the authority to serve. -/
def finishPrimaryCommit (p : ProtectedVolume) (info : ReplicaCommitInfo) (serving : Bool) :
    ProtectedVolume × List UInt64 :=
  let p := { p with
    replication := none
    peerCommitted :=
      if p.peerCommitted.all (fun committed => decide (committed ≤ info)) then some info
      else p.peerCommitted }
  if serving then
    let through := max p.syncAckThrough info.syncCoveredThrough
    ({ p with
        syncAckThrough := through
        pendingSyncs := p.pendingSyncs.filter fun barrier => !decide (barrier ≤ through) },
      p.pendingSyncs.filter fun barrier => decide (barrier ≤ through))
  else (p, [])

/-- The end of a capture: the record is in the journal, and syncs that the watermark has reached in
the meantime are answered. -/
def finishCapture (p : ProtectedVolume) (cut : JournalCut) : ProtectedVolume × List UInt64 :=
  ({ p with
      best := cut
      pendingSyncs := p.pendingSyncs.filter fun barrier => !decide (barrier ≤ p.syncAckThrough) },
    p.pendingSyncs.filter fun barrier => decide (barrier ≤ p.syncAckThrough))

/-- The replication that `replicate` starts. -/
def replicationRun (p : ProtectedVolume) : Option ReplicationRun :=
  p.cache.stashAssignment.bind fun stash =>
    if p.replication = none ∧ p.peerCommitted.all (fun committed => decide (committed < p.best.info))
    then
      some ⟨stash.transitionPeer.getD stash.activePeer, stash.assignmentEpoch, p.best.info, none⟩
    else none

/-- The releases that `retry_releases` finds. -/
def releases (p : ProtectedVolume) : List (HostId × UInt64 × ReplicaCommitInfo) :=
  match p.peerPublished with
  | none => []
  | some info =>
    if p.cache.backed.isSome then
      (p.cache.stashAssignment.map fun stash =>
          (stash.activePeer, stash.activeAssignmentEpoch, info)).toList ++
        (p.cache.retiredStashes.filter fun retired => decide (retired.through ≤ info)).map
          fun retired => (retired.peer, retired.assignmentEpoch, retired.through)
    else []

/-! ### Head tasks -/

def headTask (p : ProtectedVolume) : HeadSlot → Option TaskState
  | .publication => p.publication.bind Publication.task
  | .assignment => (p.replication.bind ReplicationRun.change).map AssignmentChange.task
  | .removal i => p.removals[i]?

def setPhase (p : ProtectedVolume) (phase : Phase) : HeadSlot → ProtectedVolume
  | .publication =>
    { p with
      publication := p.publication.map fun q => { q with task := q.task.map ({ · with phase }) } }
  | .assignment =>
    { p with
      replication := p.replication.map fun run =>
        { run with change := run.change.map fun c => { c with task := { c.task with phase } } } }
  | .removal i => { p with removals := p.removals.modify i ({ · with phase }) }

/-- A head task has put what it knows of the head into the volume state.  What a peer has committed
counts for its assignment only (`adopt_assignment`, `adopt_assignment_from_head`). -/
def hear (p : ProtectedVolume) (cache : HeadCache) : ProtectedVolume :=
  { p with
    cache
    peerCommitted :=
      if cache.stashAssignment = p.cache.stashAssignment then p.peerCommitted else none }

/-- A head task has succeeded.  After a transition the replication starts over, and after an
activation its commit counts. -/
def finished (p : ProtectedVolume) (serving : Bool) : HeadSlot → ProtectedVolume × List UInt64
  | .publication =>
    ({ p with
        publication := none
        peerPublished :=
          if p.cache.stashAssignment.isSome then p.publication.map Publication.commit
          else p.peerPublished }, [])
  | .assignment =>
    match p.replication with
    | some ⟨_, _, info, some ⟨true, _⟩⟩ => p.finishPrimaryCommit info serving
    | _ => ({ p with replication := none }, [])
  | .removal i => ({ p with removals := p.removals.eraseIdx i }, [])

/-- A head task has left `cache` in the volume state and is now in `phase`. -/
def advance (p : ProtectedVolume) (slot : HeadSlot) (cache : HeadCache) (phase : Phase)
    (serving : Bool) : ProtectedVolume × List UInt64 :=
  match phase with
  | .done .succeeded => (p.hear cache).finished serving slot
  | _ => ((p.hear cache).setPhase phase slot, [])

end ProtectedVolume

/-- What a host finds of the volume when it starts. -/
structure SavedVolume where
  best : JournalCut
  /-- The destination in the handoff marker. -/
  handoff : Option HostId
  deriving DecidableEq, Repr

/-- A commit, the answer to one, a release or the answer to one. -/
structure SpoolMessage where
  peer : HostId
  key : ReplicaKey
  info : ReplicaCommitInfo
  deriving DecidableEq, Repr

structure CutOffer where
  source : HostId
  destination : HostId
  cut : JournalCut
  deriving DecidableEq, Repr

/-- A claim of `claim_migrated_head` that is in the store, before its record is in the journal. -/
structure LandedClaim where
  offer : CutOffer
  version : UInt64
  head : HeadRecord
  deriving DecidableEq, Repr

/-- What the volume states stand on: the head in the store and the spools of the peers, together
with every record written so far and the host that wrote it. -/
structure Ground where
  volume : VolumeId
  version : UInt64
  head : HeadRecord
  spools : HostId → ReplicaKey → SpoolCut
  records : List (HostId × ReplicaCommitInfo)

structure Protection where
  volume : VolumeId
  /-- The head, with the conditional writes of it. -/
  object : Cas.Object UInt64 StoredHead
  spools : HostId → ReplicaKey → SpoolCut
  records : List (HostId × ReplicaCommitInfo)
  volumes : HostId → Option ProtectedVolume
  saved : HostId → Option SavedVolume
  commits : List SpoolMessage
  replies : List SpoolMessage
  releases : List SpoolMessage
  releaseAcks : List SpoolMessage
  offers : List CutOffer
  claims : HostId → Option LandedClaim
  /-- The barriers of the syncs answered so far. -/
  acked : List UInt64

inductive ProtectionStep where
  | write (host : HostId)
  | sync (host : HostId)
  /-- A capture, up to its durable record.  `covered` is the highest of the barriers it covers. -/
  | capture (host : HostId) (seq : JournalSeq) (captureSeq covered : UInt64)
  /-- `protect_initial_replica` lets the guest of a new volume in. -/
  | protect (host : HostId)
  | replicate (host : HostId)
  | sendCommit (host : HostId)
  | deliverCommit (message : Nat)
  /-- A peer says what it has committed, as a status or in answer to a commit. -/
  | reply (peer : HostId) (key : ReplicaKey)
  | finish (host : HostId) (reply : Nat) (serving : Bool)
  | transition (host : HostId) (candidates : List HostId)
  | activate (host : HostId) (reply : Nat)
  /-- A replication ends without success. -/
  | abandon (host : HostId)
  | snapshot (host : HostId)
  | publish (host : HostId) (pointer : ManifestPtr)
  | release (host : HostId) (choice : Nat)
  | deliverRelease (message : Nat)
  | removeRetired (host : HostId) (retired : RetiredStash)
  /-- A conditional write of the head takes effect. -/
  | land (request : Nat) (version : UInt64)
  /-- Something happens to a head task; `serving` as in `finish`. -/
  | head (host : HostId) (slot : HeadSlot) (event : HeadEvent) (serving : Bool)
  /-- `migrate_to` chooses the record it will offer. -/
  | migrate (host : HostId)
  /-- The record is protected: the source stops and makes its offer. -/
  | handoff (host destination : HostId)
  /-- A source that has restarted offers its volume again. -/
  | reoffer (host : HostId)
  /-- Before it offers a record, perhaps one of an earlier tenure, the host finds itself in a head that
  is not final and sends the final one. -/
  | ensureOutbound (host : HostId) (record : ReplicaCommitInfo)
  /-- The destination of an offer claims the head; its passive is to be `peer`. -/
  | claim (offer : Nat) (peer : HostId) (membershipEpoch version : UInt64)
  /-- The claimed record is durable and the incoming volume state has it. -/
  | install (host : HostId)
  /-- An inbound migration finds its claim in the head and sends the final one. -/
  | finalize (host : HostId)
  /-- It learns that version `version` is the final head. -/
  | finalized (host : HostId) (version : UInt64)
  | crash (host : HostId)
  /-- A host that starts finds its own claim in the head and sends the final one. -/
  | reconcile (host : HostId)
  /-- A host starts; `published` says that it finds its newest record in the manifest. -/
  | recover (host : HostId) (published : Bool)
  deriving DecidableEq, Repr

/-! ## Steps -/

/-- The cache of a volume state that knows the head. -/
def HeadRecord.cached (head : HeadRecord) (fence version : UInt64) : HeadCache :=
  ⟨fence, some version, head.manifest, head.stash, head.retiredStashes⟩

/-- The replication is answered: its target has committed the record or a newer one. -/
def ReplicationRun.answered (run : ReplicationRun) (volume : VolumeId) (host : HostId)
    (reply : SpoolMessage) : Bool :=
  reply.peer == run.target && reply.key == ⟨host, volume, run.assignmentEpoch⟩ &&
    decide (run.info ≤ reply.info)

/-- May an inbound migration replace this volume state?  Only if it has been handed on in an earlier
tenure. -/
def ProtectedVolume.replaceable (p : ProtectedVolume) (offer : CutOffer) : Bool :=
  !p.ready && p.outbound.isSome && decide (p.cache.fence < offer.cut.info.writerFence)

namespace LandedClaim

/-- The record that makes a claim durable. -/
def record (c : LandedClaim) : JournalCut :=
  ⟨⟨c.version, c.offer.cut.info.seq + 1, c.offer.cut.info.syncCoveredThrough⟩,
    c.offer.cut.captureSeq⟩

def installed (c : LandedClaim) : ProtectedVolume :=
  { ProtectedVolume.start (c.head.cached c.version c.version) c.record with
    incoming := some c.head }

end LandedClaim

/-- The head that ends a claim. -/
def HeadRecord.final (head : HeadRecord) (fence : UInt64) : StoredHead :=
  ⟨{ head with fence }, .claim⟩

namespace Protection

def version (s : Protection) : UInt64 := s.object.version

def head (s : Protection) : HeadRecord := s.object.value.head

def toGround (s : Protection) : Ground := ⟨s.volume, s.version, s.head, s.spools, s.records⟩

/-- A volume that `host` has just created, with `peer` as its passive. -/
def created (volume : VolumeId) (host peer : HostId) (membershipEpoch version : UInt64) :
    Protection where
  volume
  object := .create version ⟨newHead volume host (some (initialStash peer membershipEpoch)), .claim⟩
  volumes := Function.update (fun _ => none) host <| some <|
    .start ((newHead volume host (some (initialStash peer membershipEpoch))).cached version version)
      ⟨⟨version, 0, 0⟩, 0⟩
  saved := Function.update (fun _ => none) host (some ⟨⟨⟨version, 0, 0⟩, 0⟩, none⟩)
  spools := fun _ _ => none
  commits := []
  replies := []
  releases := []
  releaseAcks := []
  offers := []
  claims := fun _ => none
  records := [(host, ⟨version, 0, 0⟩)]
  acked := []

def setVolume (s : Protection) (host : HostId) (p : ProtectedVolume) : Protection :=
  { s with volumes := Function.update s.volumes host (some p) }

def save (s : Protection) (host : HostId) (d : SavedVolume) : Protection :=
  { s with saved := Function.update s.saved host (some d) }

def setSpool (s : Protection) (peer : HostId) (key : ReplicaKey) (cut : SpoolCut) : Protection :=
  { s with spools := Function.update s.spools peer (Function.update (s.spools peer) key cut) }

/-- The head tasks of a host that are looked at. -/
def system (s : Protection) (host : HostId) (p : ProtectedVolume) (tasks : List TaskState) :
    HeadSystem :=
  ⟨s.volume, host, s.object, p.cache, none, tasks, false⟩

/-- A call of a head task: its first write is sent, and `put` gives the task its place. -/
def call (s : Protection) (host : HostId) (p : ProtectedVolume) (task : HeadTask) (base : HeadCache)
    (put : TaskState → ProtectedVolume) : Option Protection :=
  match (s.system host p []).startRound task with
  | (system, .writing round request) =>
    some ({ s with object := system.object }.setVolume host (put ⟨task, base, .writing round request⟩))
  | _ => none

/-- What the head task of a volume state has come to.  A task that finds the volume fenced ends with
it. -/
def absorb (s : Protection) (host : HostId) (p : ProtectedVolume) (slot : HeadSlot) (serving : Bool)
    (system : HeadSystem) : Option Protection :=
  if system.stopped then some { s with volumes := Function.update s.volumes host none }
  else
    system.tasks.head?.map fun x =>
      let next := p.advance slot system.cache x.phase serving
      { { s with object := system.object }.setVolume host next.1 with acked := s.acked ++ next.2 }

/-- An event of a head task. -/
def headEvent (s : Protection) (host : HostId) (slot : HeadSlot) (event : HeadEvent)
    (serving : Bool) : Option Protection :=
  (s.volumes host).bind fun p =>
    (p.headTask slot).bind fun x =>
      ((s.system host p [x]).act event.toStep).bind (s.absorb host p slot serving)

variable (syncOf : ManifestPtr → UInt64)

/-- `recover_local` and the reconciliation with the head.  A volume that was handed off stays
detached; any other is served if the head is its own. -/
def recover (s : Protection) (host : HostId) (published : Bool) (d : SavedVolume) :
    Option Protection :=
  match d.handoff with
  | some destination =>
    some (s.setVolume host
      { ProtectedVolume.start ⟨d.best.info.writerFence, none, none, none, []⟩ d.best with
        outbound := some destination })
  | none =>
    if s.head.holder = host ∧ s.head.fence ≠ 0 ∧ s.head.fence = d.best.info.writerFence ∧
        (published = true → s.head.manifest.any fun pointer =>
          pointer.journalSeq = d.best.info.seq ∧ pointer.captureSeq = d.best.captureSeq ∧
            syncOf pointer = d.best.info.syncCoveredThrough) then
      some (s.setVolume host
        { ProtectedVolume.start (s.head.cached d.best.info.writerFence s.version) d.best with
          peerPublished := if published then some d.best.info else none
          ready := true })
    else none

/-- One event.  The parameter is the `sync_covered_through` of the manifest that a pointer binds. -/
def step (s : Protection) : ProtectionStep → Option Protection
  | .write host =>
    (s.volumes host).bind fun p =>
      if p.ready then some (s.setVolume host { p with mutationSeq := p.mutationSeq + 1 }) else none
  | .sync host =>
    (s.volumes host).bind fun p =>
      if p.ready then
        some { s.setVolume host p.handleSync.1 with acked := s.acked ++ p.handleSync.2 }
      else none
  | .capture host seq captureSeq covered =>
    (s.volumes host).bind fun p =>
      -- a capture that began on a ready volume may end after the handoff, but a volume that
      -- recovery has left detached does not begin one
      if p.cache.headVersion.isSome ∧ p.best.info.seq < seq ∧
          p.best.info.syncCoveredThrough ≤ covered ∧ covered ≤ captureSeq ∧
          captureSeq ≤ p.mutationSeq then
        let cut : JournalCut := ⟨⟨p.cache.fence, seq, covered⟩, captureSeq⟩
        some { (s.setVolume host (p.finishCapture cut).1).save host
            ⟨cut, (s.saved host).bind SavedVolume.handoff⟩ with
          records := s.records ++ [(host, cut.info)]
          acked := s.acked ++ (p.finishCapture cut).2 }
      else none
  | .protect host =>
    (s.volumes host).bind fun p =>
      if p.incoming = none ∧ p.outbound = none ∧
          p.peerCommitted.any (fun committed => decide (p.best.info ≤ committed))
      then some (s.setVolume host { p with ready := true })
      else none
  | .replicate host =>
    (s.volumes host).bind fun p =>
      p.replicationRun.map fun run => s.setVolume host { p with replication := some run }
  | .sendCommit host =>
    (s.volumes host).bind fun p =>
      p.replication.bind fun run =>
        if run.change = none then
          some { s with
            commits := s.commits ++ [⟨run.target, ⟨host, s.volume, run.assignmentEpoch⟩, run.info⟩] }
        else none
  | .deliverCommit i =>
    s.commits[i]?.map fun m => s.setSpool m.peer m.key ((s.spools m.peer m.key).commit m.info)
  | .reply peer key =>
    (s.spools peer key).map fun info => { s with replies := s.replies ++ [⟨peer, key, info⟩] }
  | .finish host i serving =>
    (s.volumes host).bind fun p =>
      p.replication.bind fun run =>
        s.replies[i]?.bind fun reply =>
          if run.change = none ∧ run.answered s.volume host reply then
            some { s.setVolume host (p.finishPrimaryCommit run.info serving).1 with
              acked := s.acked ++ (p.finishPrimaryCommit run.info serving).2 }
          else none
  | .transition host candidates =>
    (s.volumes host).bind fun p =>
      p.replication.bind fun run =>
        if run.change = none then
          (transitionProposal p.cache candidates).bind fun assignment =>
            s.call host p (.casAssignment assignment p.cache.retiredStashes) p.cache fun task =>
              { p with replication := some { run with change := some ⟨false, task⟩ } }
        else none
  | .activate host i =>
    (s.volumes host).bind fun p =>
      p.replication.bind fun run =>
        s.replies[i]?.bind fun reply =>
          if run.change = none ∧ run.answered s.volume host reply then
            (activationProposal p.cache run.target run.assignmentEpoch run.info).bind fun proposal =>
              s.call host p (.casAssignment proposal.1 proposal.2) p.cache fun task =>
                { p with replication := some { run with change := some ⟨true, task⟩ } }
          else none
  | .abandon host =>
    (s.volumes host).bind fun p =>
      p.replication.bind fun run =>
        if run.change = none then some (s.setVolume host { p with replication := none }) else none
  | .snapshot host =>
    (s.volumes host).bind fun p =>
      if p.publication.all fun q => q.task.isNone then
        p.peerCommitted.map fun commit =>
          s.setVolume host { p with publication := some ⟨commit, p.cache.backed, none⟩ }
      else none
  | .publish host pointer =>
    (s.volumes host).bind fun p =>
      p.publication.bind fun q =>
        if q.task = none ∧ pointer.journalSeq = q.commit.seq ∧
            syncOf pointer = q.commit.syncCoveredThrough ∧ pointer.newerThan q.base then
          s.call host p (.publishHead pointer) { p.cache with backed := q.base } fun task =>
            { p with publication := some { q with task := some task } }
        else none
  | .release host choice =>
    (s.volumes host).bind fun p =>
      p.releases[choice]?.map fun (peer, assignmentEpoch, through) =>
        { s with releases := s.releases ++ [⟨peer, ⟨host, s.volume, assignmentEpoch⟩, through⟩] }
  | .deliverRelease i =>
    s.releases[i]?.map fun m =>
      { s.setSpool m.peer m.key ((s.spools m.peer m.key).release m.info) with
        releaseAcks := s.releaseAcks ++ [m] }
  | .removeRetired host retired =>
    (s.volumes host).bind fun p =>
      if retired ∈ p.cache.retiredStashes ∧
          ⟨retired.peer, ⟨host, s.volume, retired.assignmentEpoch⟩, retired.through⟩ ∈ s.releaseAcks
      then
        s.call host p (.removeRetiredStash retired) p.cache fun task =>
          { p with removals := p.removals ++ [task] }
      else none
  | .land request version =>
    (s.object.land request version).map fun object => { s with object }
  | .head host slot event serving => s.headEvent host slot event serving
  | .migrate host =>
    (s.volumes host).bind fun p =>
      if p.ready = true ∧ p.outbound = none ∧ p.migrating = none ∧ p.cache.stashAssignment.isSome
      then some (s.setVolume host { p with migrating := some p.best })
      else none
  | .handoff host destination =>
    (s.volumes host).bind fun p =>
      p.migrating.bind fun cut =>
        if p.peerCommitted.any (fun committed => decide (cut.info ≤ committed)) then
          some { s.setVolume host
              { p with migrating := none, outbound := some destination, ready := false } with
            saved := Function.update s.saved host
              ((s.saved host).map fun d => { d with handoff := some destination })
            offers := s.offers ++ [⟨host, destination, cut⟩] }
        else none
  | .reoffer host =>
    (s.volumes host).bind fun p =>
      p.outbound.map fun destination =>
        { s with offers := s.offers ++ [⟨host, destination, p.best⟩] }
  | .ensureOutbound host record =>
    -- the version of the head is not compared with the fence of the record
    if (host, record) ∈ s.records ∧ s.head.holder = host ∧ s.head.fence = 0 then
      some { s with object := s.object.send s.version (s.head.final record.writerFence) }
    else none
  | .claim i peer membershipEpoch version =>
    s.offers[i]?.bind fun offer =>
      (migrationClaim s.volume offer.destination offer.source offer.cut.info.writerFence
        (initialStash peer membershipEpoch) s.version s.head).bind fun head =>
        if s.claims offer.destination = none ∧
            (s.volumes offer.destination).all (·.replaceable offer) then
          (s.object.replace version ⟨head, .claim⟩).map fun object =>
            { s with
              object
              volumes := Function.update s.volumes offer.destination none
              claims := Function.update s.claims offer.destination (some ⟨offer, version, head⟩) }
        else none
  | .install host =>
    (s.claims host).bind fun c =>
      if c.record.info.seq = 0 then none
      else
        some { (s.setVolume host c.installed).save host
            ⟨c.record, (s.saved host).bind SavedVolume.handoff⟩ with
          claims := Function.update s.claims host none
          records := s.records ++ [(host, c.record.info)] }
  | .finalize host =>
    (s.volumes host).bind fun p =>
      p.incoming.bind fun claim =>
        if s.head.holder = host ∧ s.head.fence = 0 ∧ s.head.manifest = claim.manifest ∧
            s.head.stash = claim.stash then
          some { s with object := s.object.send s.version (claim.final p.cache.fence) }
        else none
  | .finalized host version =>
    (s.volumes host).bind fun p =>
      p.incoming.bind fun claim =>
        if ∃ e ∈ s.object.log, e.1 = version ∧ e.2.head = (claim.final p.cache.fence).head then
          some (s.setVolume host
            { p with
              cache := { p.cache with headVersion := some version }
              incoming := none
              ready := true })
        else none
  | .crash host =>
    some { s with
      volumes := Function.update s.volumes host none
      claims := Function.update s.claims host none }
  | .reconcile host =>
    (s.saved host).bind fun d =>
      if s.volumes host = none ∧ s.claims host = none ∧ d.handoff = none ∧
          s.head.holder = host ∧ s.head.fence = 0 ∧ s.version = d.best.info.writerFence then
        some { s with object := s.object.send s.version (s.head.final s.version) }
      else none
  | .recover host published =>
    if s.volumes host = none ∧ s.claims host = none then
      (s.saved host).bind (s.recover syncOf host published)
    else none

end Protection

/-! ## What protects a sync -/

/-- The spools that are written to: the active peer's, and the transition peer's. -/
def StashAssignment.serving (stash : StashAssignment) : List (HostId × UInt64) :=
  (stash.activePeer, stash.activeAssignmentEpoch) ::
    (stash.transitionPeer.map fun peer => (peer, stash.assignmentEpoch)).toList

namespace HeadRecord

def serving (head : HeadRecord) : List (HostId × UInt64) :=
  (head.stash.map StashAssignment.serving).getD []

/-- The peers that a head names. -/
def peers (head : HeadRecord) : List HostId :=
  head.serving.map Prod.fst ++ head.retiredStashes.map RetiredStash.peer

end HeadRecord

namespace Ground

variable (syncOf : ManifestPtr → UInt64)

/-- The fence of the claim that the head stands for. -/
def tenure (g : Ground) : UInt64 := g.head.effectiveFence g.version

/-- **Covered.**  The mutations up to `barrier` are in the manifest, or a peer that the head names
has committed a record of the volume that covers them. -/
def Covered (g : Ground) (barrier : UInt64) : Prop :=
  (∃ pointer ∈ g.head.manifest, barrier ≤ syncOf pointer) ∨
    ∃ peer ∈ g.head.peers, ∃ key : ReplicaKey, key.volume = g.volume ∧
      ∃ cut ∈ g.spools peer key, barrier ≤ cut.syncCoveredThrough

/-- The manifest reaches `barrier`, or a record of this tenure does in the spool of a peer that is
being written to. -/
def Protects (g : Ground) (barrier : UInt64) : Prop :=
  (∃ pointer ∈ g.head.manifest, barrier ≤ syncOf pointer) ∨
    ∃ x ∈ g.head.serving, ∃ cut ∈ g.spools x.1 ⟨g.head.holder, g.volume, x.2⟩,
      cut.writerFence = g.tenure ∧ barrier ≤ cut.syncCoveredThrough

end Ground

/-- The volume state has a head of the tenure. -/
def ProtectedVolume.OfTenure (p : ProtectedVolume) (tenure : UInt64) : Prop :=
  p.cache.headVersion.isSome ∧ p.cache.fence = tenure

instance (p : ProtectedVolume) (tenure : UInt64) : Decidable (p.OfTenure tenure) :=
  inferInstanceAs (Decidable (_ ∧ _))

namespace Protection

abbrev tenure (s : Protection) : UInt64 := s.toGround.tenure

/-- The volume state of the host is of the present tenure. -/
def Holds (s : Protection) (host : HostId) : Prop :=
  ∃ p ∈ s.volumes host, p.OfTenure s.tenure

end Protection

end Blockd
