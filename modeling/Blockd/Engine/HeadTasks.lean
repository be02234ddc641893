import Blockd.Head
import Blockd.Lib.Cas
import Blockd.Lib.Run

/-!
# The tasks that write a volume's head

A holder has three tasks that replace its head by compare-and-swap, each a loop that reads the
volume state, builds a whole head from it, sends it, and on anything but success reads the head
again: `publish_head` (`backup.rs`), `cas_assignment` and `remove_retired_stash` (`replica.rs`).
They interleave at every wait.  What they share is `HeadCache`, the fields of the volume state that
mirror the head, and each of them takes over a different part of it from the answers it gets.

`HeadSystem.step` is one event: a task starts, the store applies a write or serves a read, an answer
arrives (or is given up), a delay ends, another claim replaces the head.  A write whose outcome is
unknown may still take effect later, and a read that was served may arrive after other events.

A tenure starts from the head its claim left in the store (`Claim.head`).  A new head and a
reclaimed one keep the provisional fence zero; a fork, a restore and a migration write their
fence before the tasks run.
-/

set_option autoImplicit false

namespace Blockd

/-! ## Newness -/

namespace ManifestPtr

/-- What `publish_head` compares two pointers by. -/
def age (p : ManifestPtr) : UInt64 ×ₗ UInt64 := toLex (p.captureSeq, p.seq)

/-- Is the pointer newer than what is backed so far? -/
def newerThan (p : ManifestPtr) (backed : Option ManifestPtr) : Bool :=
  backed.all fun b => b.age < p.age

end ManifestPtr

/-- The passive stash a volume starts with: `initial_stash` for the peer that ranks first. -/
def initialStash (peer : HostId) (membershipEpoch : UInt64) : StashAssignment where
  assignmentEpoch := 1
  activePeer := peer
  activeAssignmentEpoch := 1
  transitionPeer := none
  membershipEpoch := membershipEpoch

/-! ## Claims -/

/-- The ways a holder comes by its claim. -/
inductive Claim where
  /-- `claim_new_head_with_stash`, for a new volume. -/
  | created (stash : StashAssignment)
  /-- Recovery found no head and wrote one (`reconcile_backed_recovery_event`). -/
  | reclaimed (stash : StashAssignment)
  /-- `create_fork`, after its first manifest is published. -/
  | forked (stash : StashAssignment) (pointer : ManifestPtr)
  /-- `claim_restore` and `finalize_restore_head`. -/
  | restored (pointer : ManifestPtr) (stash : Option StashAssignment)
      (retired : List RetiredStash)
  /-- `claim_migrated_head`. -/
  | migrated (manifest : Option ManifestPtr) (stash : Option StashAssignment)
      (retired : List RetiredStash)
  deriving DecidableEq, Repr

namespace Claim

/-- Does the head keep the fence zero that every claim is first written with? -/
def provisional : Claim → Bool
  | created _ | reclaimed _ => true
  | forked .. | restored .. | migrated .. => false

/-- The head in the store when the tasks start. -/
def head (volume : VolumeId) (host : HostId) (fence : UInt64) : Claim → HeadRecord
  | created stash => ⟨volume, host, 0, none, some stash, []⟩
  | reclaimed stash => ⟨volume, host, 0, none, some stash, []⟩
  | forked stash pointer => ⟨volume, host, fence, some pointer, some stash, []⟩
  | restored pointer stash retired => ⟨volume, host, fence, some pointer, stash, retired⟩
  | migrated manifest stash retired => ⟨volume, host, fence, manifest, stash, retired⟩

@[simp] theorem holder_head (c : Claim) (volume : VolumeId) (host : HostId) (fence : UInt64) :
    (c.head volume host fence).holder = host := by
  cases c <;> rfl

theorem fence_head (c : Claim) (volume : VolumeId) (host : HostId) (fence : UInt64) :
    (c.head volume host fence).fence = if c.provisional then 0 else fence := by
  cases c <;> rfl

end Claim

/-! ## The cached head -/

/-- The fields of the volume state that the head tasks read and write. -/
structure HeadCache where
  fence : UInt64
  headVersion : Option UInt64
  backed : Option ManifestPtr
  stashAssignment : Option StashAssignment
  retiredStashes : List RetiredStash
  deriving DecidableEq, Repr

namespace HeadCache

/-- What `publish` does with `PublishHead::Published`. -/
def published (c : HeadCache) (version : UInt64) (pointer : ManifestPtr) : HeadCache :=
  { c with headVersion := some version, backed := some pointer }

def adoptAssignment (c : HeadCache) (version : UInt64) (assignment : StashAssignment)
    (retiredStashes : List RetiredStash) : HeadCache :=
  { c with headVersion := some version, stashAssignment := some assignment, retiredStashes }

def adoptAssignmentFromHead (c : HeadCache) (version : UInt64) (head : HeadRecord) : HeadCache :=
  { c with
    headVersion := some version
    backed := head.manifest
    stashAssignment := head.stash
    retiredStashes := head.retiredStashes }

end HeadCache

/-! ## The tasks -/

/-- One call of a head task, with its arguments. -/
inductive HeadTask where
  | publishHead (pointer : ManifestPtr)
  | casAssignment (assignment : StashAssignment) (retiredStashes : List RetiredStash)
  | removeRetiredStash (retired : RetiredStash)
  deriving DecidableEq, Repr

namespace HeadTask

/-- The head that the task builds from the volume state. -/
def head (volume : VolumeId) (host : HostId) (c : HeadCache) : HeadTask → HeadRecord
  | publishHead pointer =>
    ⟨volume, host, c.fence, some pointer, c.stashAssignment, c.retiredStashes⟩
  | casAssignment assignment retired =>
    ⟨volume, host, c.fence, c.backed, some assignment, retired⟩
  | removeRetiredStash retired =>
    ⟨volume, host, c.fence, c.backed, c.stashAssignment, c.retiredStashes.filter (· ≠ retired)⟩

/-- Is this the publication, of which a volume runs one at a time? -/
def isPublish : HeadTask → Bool
  | publishHead _ => true
  | _ => false

end HeadTask

/-- The next transition peer: the epochs after the current one name candidates in turn, and the
first of them that is not in use is taken. -/
def nextCandidate (candidates : List HostId) (current : StashAssignment) :
    Nat → UInt64 → Option (UInt64 × HostId)
  | 0, _ => none
  | fuel + 1, epoch => do
    let next ← checkedAdd epoch 1
    let candidate ← candidates[(next - 1).toNat % candidates.length]?
    if candidate ≠ current.activePeer ∧ current.transitionPeer ≠ some candidate then
      some (next, candidate)
    else nextCandidate candidates current fuel next

/-- The proposal of `transition_stash`; `candidates` is the ranked roster. -/
def transitionProposal (c : HeadCache) (candidates : List HostId) : Option StashAssignment :=
  if c.retiredStashes.length ≥ maxRetiredStashes then none
  else
    c.stashAssignment.bind fun current =>
      if current.transitionPeer.isSome then some current
      else
        (nextCandidate candidates current candidates.length current.assignmentEpoch).map
          fun next => { current with assignmentEpoch := next.1, transitionPeer := some next.2 }

/-- The peer that an activation retires. -/
def StashAssignment.former (current : StashAssignment) (info : ReplicaCommitInfo) : RetiredStash :=
  ⟨current.activePeer, current.activeAssignmentEpoch, info⟩

/-- The proposal of `activate_stash`: the transition peer becomes the active one. -/
def activationProposal (c : HeadCache) (target : HostId) (assignmentEpoch : UInt64)
    (info : ReplicaCommitInfo) : Option (StashAssignment × List RetiredStash) :=
  c.stashAssignment.bind fun current =>
    if current.assignmentEpoch ≠ assignmentEpoch ∨ current.transitionPeer ≠ some target then none
    else
      some
        (⟨assignmentEpoch, target, assignmentEpoch, none, current.membershipEpoch⟩,
          if current.former info ∈ c.retiredStashes then c.retiredStashes
          else c.retiredStashes ++ [current.former info])

/-- Who wrote a version of the head. -/
inductive Writer where
  | claim
  | task (task : HeadTask)
  /-- A claim that supersedes this one, or a task under it. -/
  | other
  deriving DecidableEq, Repr

/-- A version of the head, with its writer for the record. -/
structure StoredHead where
  head : HeadRecord
  writer : Writer
  deriving DecidableEq, Repr

/-- What a task remembers of the round it is in. -/
structure Round where
  head : HeadRecord
  currentAssignment : Option StashAssignment
  currentRetired : List RetiredStash
  deriving DecidableEq, Repr

inductive Outcome where
  | succeeded
  | gaveUp
  | fenced
  deriving DecidableEq, Repr

/-- Where a task is. -/
inductive Phase where
  /-- Its conditional write, by number, has not been answered. -/
  | writing (round : Round) (request : Nat)
  /-- It reads the head again. -/
  | reading (round : Round)
  /-- The store has served that read, and the answer is under way. -/
  | served (round : Round) (version : UInt64) (found : StoredHead)
  /-- It waits before its next round. -/
  | delayed
  | done (outcome : Outcome)
  deriving DecidableEq, Repr

structure TaskState where
  task : HeadTask
  /-- The volume state that the task's arguments were computed from. -/
  base : HeadCache
  phase : Phase
  deriving DecidableEq, Repr

/-- What a task does after it has read the head again. -/
inductive Next where
  | finish (outcome : Outcome)
  | again
  | delay
  deriving DecidableEq, Repr

namespace HeadTask

/-- A write that succeeded: what the task puts into the volume state. -/
def onOk (round : Round) (c : HeadCache) (version : UInt64) : HeadTask → HeadCache
  | publishHead pointer => c.published version pointer
  | casAssignment assignment retired => c.adoptAssignment version assignment retired
  | removeRetiredStash _ =>
    { c with headVersion := some version, retiredStashes := round.head.retiredStashes }

/-- A head that was read again and is still this holder's. -/
def onFound (round : Round) (c : HeadCache) (version : UInt64) (found : HeadRecord) :
    HeadTask → HeadCache × Next
  | publishHead pointer =>
    if found.manifest.any fun m => pointer.age ≤ m.age then
      (c.published version pointer, .finish .succeeded)
    else
      -- only the version is refreshed, and the next round starts at once
      ({ c with headVersion := some version }, .again)
  | casAssignment assignment retired =>
    if found = round.head then
      (c.adoptAssignment version assignment retired, .finish .succeeded)
    else if found.stash = round.currentAssignment ∧
        found.retiredStashes = round.currentRetired then
      ({ c with headVersion := some version, backed := found.manifest }, .delay)
    else (c.adoptAssignmentFromHead version found, .finish .succeeded)
  | removeRetiredStash retired =>
    (c.adoptAssignmentFromHead version found,
      if retired ∈ found.retiredStashes then .again else .finish .succeeded)

end HeadTask

/-! ## The system -/

structure HeadSystem where
  volume : VolumeId
  host : HostId
  object : Cas.Object UInt64 StoredHead
  cache : HeadCache
  /-- The backed manifest that a publication in preparation starts from. -/
  snapshot : Option (Option ManifestPtr)
  tasks : List TaskState
  /-- A task has concluded that the holder is fenced: the volume or the host stops. -/
  stopped : Bool

namespace HeadSystem

/-- A publication is in its head task. -/
def publishing (s : HeadSystem) : Bool :=
  s.tasks.any fun t => t.task.isPublish && !(t.phase matches .done _)

/-- The top of a task's loop: build a head and send it. -/
def sendRound (s : HeadSystem) (task : HeadTask) : HeadSystem × Phase :=
  match s.cache.headVersion with
  | none =>
    if task.isPublish then ({ s with stopped := true }, .done .fenced) else (s, .done .gaveUp)
  | some version =>
    let head := task.head s.volume s.host s.cache
    ({ s with object := s.object.send version ⟨head, .task task⟩ },
      .writing ⟨head, s.cache.stashAssignment, s.cache.retiredStashes⟩ s.object.requests.length)

/-- The top of a task's loop, where a removal first looks whether the entry is still there. -/
def startRound (s : HeadSystem) (task : HeadTask) : HeadSystem × Phase :=
  match task with
  | .removeRetiredStash retired =>
    if retired ∈ s.cache.retiredStashes then s.sendRound task else (s, .done .succeeded)
  | _ => s.sendRound task

def setPhase (s : HeadSystem) (i : Nat) (phase : Phase) : HeadSystem :=
  { s with tasks := s.tasks.modify i fun t => { t with phase } }

theorem mem_setPhase {s : HeadSystem} {i : Nat} {phase : Phase} {x : TaskState}
    (h : x ∈ (s.setPhase i phase).tasks) :
    x ∈ s.tasks ∨ ∃ y, s.tasks[i]? = some y ∧ { y with phase } = x := by
  obtain ⟨j, hj⟩ := List.mem_iff_getElem?.mp h
  rw [setPhase, List.getElem?_modify] at hj
  obtain ⟨y, hy, rfl⟩ := Option.map_eq_some_iff.mp hj
  split
  · rename_i hij
    exact .inr ⟨y, hij ▸ hy, rfl⟩
  · exact .inl (List.mem_of_getElem? hy)

theorem task_eq {s : HeadSystem} {i : Nat} {x : TaskState} (h : s.tasks[i]? = some x) :
    ∀ y, s.tasks[i]? = some y → y.task = x.task :=
  fun _ hy => congrArg TaskState.task (Option.some.inj (hy.symm.trans h))

/-- A call of a task. -/
def spawn (s : HeadSystem) (task : HeadTask) (base : HeadCache) : HeadSystem :=
  let (s', phase) := s.startRound task
  { s' with tasks := s'.tasks ++ [⟨task, base, phase⟩] }

/-- Another round of task `i`. -/
def resume (s : HeadSystem) (i : Nat) (task : HeadTask) : HeadSystem :=
  let (s', phase) := s.startRound task
  s'.setPhase i phase

/-- The answer to task `i`'s read arrives. -/
def found (s : HeadSystem) (i : Nat) (task : HeadTask) (round : Round) (version : UInt64)
    (head : HeadRecord) : HeadSystem :=
  if head.holder ≠ s.host ∨ head.fence ≠ s.cache.fence then
    { s with stopped := true }.setPhase i (.done .fenced)
  else
    let (cache, next) := task.onFound round s.cache version head
    let s := { s with cache }
    match next with
    | .finish outcome => s.setPhase i (.done outcome)
    | .again => s.resume i task
    | .delay => s.setPhase i .delayed

end HeadSystem

/-- What can happen. -/
inductive HeadStep where
  /-- A publication looks at what is backed, and prepares the next manifest from it. -/
  | snapshot
  | publish (pointer : ManifestPtr)
  | transition (candidates : List HostId)
  | activate (target : HostId) (assignmentEpoch : UInt64) (info : ReplicaCommitInfo)
  | removeRetired (retired : RetiredStash)
  /-- The store applies a conditional write. -/
  | land (request : Nat) (version : UInt64)
  /-- Another claim, or a task under it, replaces the head. -/
  | other (version : UInt64) (head : HeadRecord)
  | ok (task : Nat)
  | conflict (task : Nat)
  /-- The outcome of the write stays unknown. -/
  | unknown (task : Nat)
  | serve (task : Nat)
  | getUnavailable (task : Nat)
  | found (task : Nat)
  | retry (task : Nat)
  deriving Repr

namespace HeadSystem

/-- One event. -/
def act (s : HeadSystem) : HeadStep → Option HeadSystem
  | .snapshot => if s.publishing then none else some { s with snapshot := some s.cache.backed }
  | .publish pointer =>
    s.snapshot.bind fun base =>
      if pointer.newerThan base then
        some { s.spawn (.publishHead pointer) { s.cache with backed := base } with snapshot := none }
      else none
  | .transition candidates =>
    (transitionProposal s.cache candidates).map fun assignment =>
      s.spawn (.casAssignment assignment s.cache.retiredStashes) s.cache
  | .activate target assignmentEpoch info =>
    (activationProposal s.cache target assignmentEpoch info).map fun proposal =>
      s.spawn (.casAssignment proposal.1 proposal.2) s.cache
  | .removeRetired retired =>
    if retired ∈ s.cache.retiredStashes then
      some (s.spawn (.removeRetiredStash retired) s.cache)
    else none
  | .land request version =>
    (s.object.land request version).map fun object => { s with object }
  | .other version head =>
    if head.holder ≠ s.host ∨ head.fence ≠ s.cache.fence then
      (s.object.replace version ⟨head, .other⟩).map fun object => { s with object }
    else none
  | .ok i =>
    match s.tasks[i]? with
    | some ⟨task, _, .writing round request⟩ =>
      (s.object.created request).map fun version =>
        { s with cache := task.onOk round s.cache version }.setPhase i (.done .succeeded)
    | _ => none
  | .conflict i =>
    match s.tasks[i]? with
    | some ⟨_, _, .writing round request⟩ =>
      if s.object.conflicts request then some (s.setPhase i (.reading round)) else none
    | _ => none
  | .unknown i =>
    match s.tasks[i]? with
    | some ⟨_, _, .writing round _⟩ => some (s.setPhase i (.reading round))
    | _ => none
  | .serve i =>
    match s.tasks[i]? with
    | some ⟨_, _, .reading round⟩ =>
      some (s.setPhase i (.served round s.object.version s.object.value))
    | _ => none
  | .getUnavailable i =>
    match s.tasks[i]? with
    -- the publication starts over, the other two read again
    | some ⟨.publishHead _, _, .reading _⟩ => some (s.setPhase i .delayed)
    | _ => none
  | .found i =>
    match s.tasks[i]? with
    | some ⟨task, _, .served round version found⟩ => some (s.found i task round version found.head)
    | _ => none
  | .retry i =>
    match s.tasks[i]? with
    | some ⟨task, _, .delayed⟩ => some (s.resume i task)
    | _ => none

end HeadSystem

/-- Does the event happen in the store and not in the holder? -/
def HeadStep.inStore : HeadStep → Bool
  | land .. | other .. | serve _ => true
  | _ => false

/-- One event; a holder that has stopped takes no part in it. -/
def HeadSystem.step (s : HeadSystem) (a : HeadStep) : Option HeadSystem :=
  if s.stopped && !a.inStore then none else s.act a

/-- The epochs of a head fit together: a transition is to a later epoch than the active peer's, and
a retired peer has an earlier one. -/
structure HeadRecord.Coherent (h : HeadRecord) : Prop where
  active : ∀ s ∈ h.stash, s.activeAssignmentEpoch ≤ s.assignmentEpoch
  transition : ∀ s ∈ h.stash, s.transitionPeer.isSome → s.activeAssignmentEpoch < s.assignmentEpoch
  retired : ∀ e ∈ h.retiredStashes, ∃ s ∈ h.stash, e.assignmentEpoch < s.activeAssignmentEpoch

/-- A tenure: the claim and what it returned. -/
structure Tenure where
  volume : VolumeId
  host : HostId
  claim : Claim
  /-- The version of the head that the claim's write created. -/
  fence : UInt64
  /-- The version of the head when the tasks start. -/
  version : UInt64
  version_eq : claim.provisional = true → version = fence
  coherent : (claim.head volume host fence).Coherent

namespace Tenure

def head (t : Tenure) : HeadRecord := t.claim.head t.volume t.host t.fence

/-- The holder's state when its claim is complete. -/
def start (t : Tenure) : HeadSystem where
  volume := t.volume
  host := t.host
  object := .create t.version ⟨t.head, .claim⟩
  cache :=
    { fence := t.fence
      headVersion := some t.version
      backed := t.head.manifest
      stashAssignment := t.head.stash
      retiredStashes := t.head.retiredStashes }
  snapshot := none
  tasks := []
  stopped := false

end Tenure

end Blockd
