import Blockd.Head
import Blockd.ReplicaSpool
import Blockd.Lib.Run

/-!
# The passive side of replication

`ReplicaInbox` of `engine/replica.rs` and `recover_replica_blobs` of `engine/recovery.rs`: what a
passive does with the put, commit and release messages of one source, volume and assignment epoch,
and what it makes of its spool after a restart.  Messages of one key are handled one after the
other, so a handler is a function on the passive's state; what it learns while it waits (the head
in the store, the room on the device, whether an append or a delete went through) is part of the
step's label.

A passive holds two forms of the same thing: the state in memory it answers from, and the
generation files it would have to start from again.  `Reproduces` says that the files give back
the state.
-/

set_option autoImplicit false

open Codec
open Std (ExtTreeMap)

namespace Blockd

/-- Rotation happens before an append, so one frame may exceed this bound. -/
def maxReplicaSpoolGenerationBytes : Nat := 64 * 1024 * 1024

/-! ## State -/

structure ReplicaState where
  artifacts : ExtTreeMap ReplicaArtifact (UInt32 × Bytes)
  /-- Artifacts appended after the last complete commit. -/
  uncommittedArtifacts : Finset ReplicaArtifact
  committed : Option ReplicaCommitInfo
  committedRecord : Option Bytes
  bytes : Nat
  currentGeneration : Nat
  currentFileBytes : Nat

namespace ReplicaState

def default : ReplicaState := ⟨∅, ∅, none, none, 0, 0, 0⟩

/-- What a passive has told its source it holds, and where it goes on writing. -/
def view (r : ReplicaState) : ExtTreeMap ReplicaArtifact (UInt32 × Bytes) ×
    Option ReplicaCommitInfo × Option Bytes × Nat × Nat :=
  (r.artifacts, r.committed, r.committedRecord, r.bytes, r.currentGeneration)

end ReplicaState

/-- The passive's side of one key: the state in memory, and its spool file by generation. -/
structure Passive where
  replica : Option ReplicaState
  spool : ExtTreeMap Nat Bytes

def Passive.empty : Passive := ⟨none, ∅⟩

structure PassiveConfig where
  host : HostId
  spoolCapacityBytes : Nat
  deriving DecidableEq, Repr

/-- What a handler finds out while it runs. -/
structure Surroundings where
  /-- The head the store answers with, if it answers with one. -/
  head : Option HeadRecord
  /-- The bytes in the spools of other keys. -/
  otherBytes : Nat
  /-- The device has room for the append. -/
  reserved : Bool
  /-- The append went through; otherwise the device was full and nothing was written. -/
  appended : Bool
  /-- How many files a delete got through before it failed, if it failed. -/
  deleteFailedAfter : Option Nat
  deriving DecidableEq, Repr

inductive ReplicaMessage where
  | put (artifact : ReplicaArtifact) (checksum : UInt32) (bytes : Bytes)
  | commit (info : ReplicaCommitInfo) (required : List ReplicaArtifact) (record : Bytes)
  | release (through : ReplicaCommitInfo)
  deriving DecidableEq, Repr

/-! ## Handlers -/

section

variable (config : PassiveConfig) (key : ReplicaKey) (p : Passive) (env : Surroundings)

/-- A peer is authorized by a spool it already has, or by the head naming this host for it. -/
def Passive.authorized : Bool :=
  if key.assignmentEpoch = 0 then false
  else if p.replica.isSome then true
  else
    match env.head with
    | none => false
    | some head =>
      head.holder == key.source && head.stash.any fun stash =>
        (stash.activePeer == config.host && stash.activeAssignmentEpoch == key.assignmentEpoch) ||
        (stash.transitionPeer == some config.host && stash.assignmentEpoch == key.assignmentEpoch)

/-- The generation the next append goes to, and whether it starts a new one. -/
def Passive.appendPlan (additional : Nat) : Option (Nat × Bool) :=
  let total := env.otherBytes + (p.replica.map ReplicaState.bytes).getD 0
  if config.spoolCapacityBytes < total + additional then none
  else
    let currentGeneration := (p.replica.map ReplicaState.currentGeneration).getD 0
    let currentFileBytes := (p.replica.map ReplicaState.currentFileBytes).getD 0
    let rotated := currentFileBytes != 0 &&
      decide (maxReplicaSpoolGenerationBytes < currentFileBytes + additional)
    some (if rotated then currentGeneration + 1 else currentGeneration, rotated)

/-- What the files look like with more bytes at the end of one of them. -/
def appendFile (spool : ExtTreeMap Nat Bytes) (generation : Nat) (bytes : Bytes) :
    ExtTreeMap Nat Bytes :=
  spool.insert generation ((spool[generation]?).getD [] ++ bytes)

/-- The state after a frame has reached the spool, before what the message itself changes. -/
def ReplicaState.appended (r : ReplicaState) (generation : Nat) (rotated : Bool) (len : Nat) :
    ReplicaState :=
  { r with
    bytes := r.bytes + len
    currentGeneration := if rotated then generation else r.currentGeneration
    currentFileBytes := (if rotated then 0 else r.currentFileBytes) + len }

def ReplicaState.withArtifact (r : ReplicaState) (artifact : ReplicaArtifact) (checksum : UInt32)
    (bytes : Bytes) : ReplicaState :=
  { r with
    artifacts := r.artifacts.insert artifact (checksum, bytes)
    uncommittedArtifacts := insert artifact r.uncommittedArtifacts }

def ReplicaState.withCommit (r : ReplicaState) (info : ReplicaCommitInfo)
    (required : List ReplicaArtifact) (record : Bytes) : ReplicaState :=
  { r with
    committed := some info
    committedRecord := some record
    uncommittedArtifacts := r.uncommittedArtifacts \ required.toFinset }

/-- Append a frame and then let the message change the state in memory. -/
def Passive.append (frame : Bytes) (update : ReplicaState → ReplicaState) : Passive :=
  match p.appendPlan config env frame.length with
  | none => p
  | some (generation, rotated) =>
    if env.reserved && env.appended then
      { replica := some (update
          ((p.replica.getD ReplicaState.default).appended generation rotated frame.length))
        spool := appendFile p.spool generation frame }
    else p

/-- What a message asks of the passive. -/
inductive Reaction where
  /-- Rejected, or answered from what is already there. -/
  | answer
  /-- A known artifact is put again: it counts as uncommitted from now on. -/
  | touch (artifact : ReplicaArtifact)
  | append (frame : Bytes) (update : ReplicaState → ReplicaState)
  /-- Everything the source still needed is archived. -/
  | drop (currentGeneration : Nat)

variable [Platform]

def Passive.onPut (artifact : ReplicaArtifact) (checksum : UInt32) (bytes : Bytes) : Reaction :=
  if p.authorized config key env = false ∨ crc32c bytes ≠ checksum then .answer
  else
    match sealVerifiedReplicaArtifact key artifact checksum bytes with
    | none => .answer
    | some frame =>
      match p.replica.bind fun r => r.artifacts[artifact]? with
      | some known => if known.1 = checksum then .touch artifact else .answer
      | none => .append frame fun r => r.withArtifact artifact checksum bytes

def Passive.onCommit (info : ReplicaCommitInfo) (required : List ReplicaArtifact)
    (record : Bytes) : Reaction :=
  if p.authorized config key env = false then .answer
  else
    match sealReplicaCommit key info required record with
    | none => .answer
    | some frame =>
      let complete := required.all fun artifact =>
        p.replica.any fun r => r.artifacts.contains artifact
      if complete = false then .answer
      else if (p.replica.bind ReplicaState.committed).any (fun known => decide (info ≤ known)) then
        -- the same commit again is acknowledged, an older one is rejected
        .answer
      else .append frame fun r => r.withCommit info required record

def Passive.onRelease (through : ReplicaCommitInfo) : Reaction :=
  if p.authorized config key env = false then .answer
  else
    match p.replica with
    | none => .answer
    | some r =>
      if r.committed.any (fun committed => decide (committed ≤ through)) &&
          decide (r.uncommittedArtifacts = ∅) then
        .drop r.currentGeneration
      else .answer

def Passive.react : ReplicaMessage → Reaction
  | .put artifact checksum bytes => p.onPut config key env artifact checksum bytes
  | .commit info required record => p.onCommit config key env info required record
  | .release through => p.onRelease config key env through

/-- The files without the generations below `count`. -/
def eraseBelow (spool : ExtTreeMap Nat Bytes) : Nat → ExtTreeMap Nat Bytes
  | 0 => spool
  | count + 1 => (eraseBelow spool count).erase count

def Passive.deliver (message : ReplicaMessage) : Passive :=
  match p.react config key env message with
  | .answer => p
  | .touch artifact =>
    { p with replica := p.replica.map fun r =>
        { r with uncommittedArtifacts := insert artifact r.uncommittedArtifacts } }
  | .append frame update => p.append config env frame update
  | .drop currentGeneration =>
    match env.deleteFailedAfter with
    | none => { replica := none, spool := eraseBelow p.spool (currentGeneration + 1) }
    | some count =>
      { p with spool := eraseBelow p.spool (min count (currentGeneration + 1)) }

end

/-! ## Recovery -/

/-- The generation files one after the other. -/
def combined (spool : ExtTreeMap Nat Bytes) : Bytes := (spool.toList.map Prod.snd).flatten

/-- Where each file starts in the combined spool. -/
def boundaries : List (Nat × Bytes) → Nat → List (Nat × Nat × Nat)
  | [], _ => []
  | (generation, file) :: rest, start =>
    (generation, start, file.length) :: boundaries rest (start + file.length)

variable [Platform]

/-- The state a scan stands for. -/
def ReplicaState.ofScan (key : ReplicaKey) (scan : ReplicaSpoolScan)
    (currentGeneration currentFileBytes : Nat) : ReplicaState :=
  let committedCut := scan.commits.getLast?.filter fun commit => commit.owner == key
  { artifacts := scan.artifacts.filterMap fun _ frame =>
      if frame.owner = key then some (frame.checksum, frame.bytes) else none
    uncommittedArtifacts := scan.uncommittedArtifacts
    committed := committedCut.map ReplicaCommitFrame.info
    committedRecord := committedCut.map ReplicaCommitFrame.record
    bytes := scan.validLen
    currentGeneration := currentGeneration
    currentFileBytes := currentFileBytes }

/-- What a restarting passive makes of its files: a torn tail is cut off the newest of them, and a
spool that cannot be scanned, or is torn elsewhere, is left alone. -/
def recoverReplicaBlobs (key : ReplicaKey) (spool : ExtTreeMap Nat Bytes) : Passive :=
  match spool.toList.getLast? with
  | none => ⟨none, spool⟩
  | some (currentGeneration, currentFile) =>
    match scanReplicaSpool (combined spool) with
    | none => ⟨none, spool⟩
    | some scan =>
      if scan.truncatedTail then
        match (boundaries spool.toList 0).find? fun b => decide (scan.validLen < b.2.1 + b.2.2) with
        | none => ⟨none, spool⟩
        | some (generation, start, _) =>
          if generation ≠ currentGeneration then ⟨none, spool⟩
          else
            let valid := scan.validLen - start
            ⟨some (ReplicaState.ofScan key scan currentGeneration valid),
              spool.insert currentGeneration (currentFile.take valid)⟩
      else
        ⟨some (ReplicaState.ofScan key scan currentGeneration currentFile.length), spool⟩

/-! ## Runs -/

/-- What happens to a passive: a message is handled, or the passive stops, perhaps with `written`
bytes of the frame it was appending on the device, and starts again from its files. -/
inductive PassiveLabel where
  | deliver (message : ReplicaMessage) (env : Surroundings)
  | restart
  | crash (message : ReplicaMessage) (env : Surroundings) (written : Nat)
  deriving DecidableEq, Repr

/-- The files when the passive stops inside the append of a message. -/
def Passive.tornSpool (config : PassiveConfig) (key : ReplicaKey) (p : Passive)
    (env : Surroundings) (message : ReplicaMessage) (written : Nat) : ExtTreeMap Nat Bytes :=
  match p.react config key env message with
  | .append frame _ =>
    match p.appendPlan config env frame.length with
    | none => p.spool
    | some (generation, _) =>
      if env.reserved then appendFile p.spool generation (frame.take written) else p.spool
  | _ => p.spool

def passiveStep (config : PassiveConfig) (key : ReplicaKey) (p : Passive) :
    PassiveLabel → Option Passive
  | .deliver message env => some (p.deliver config key env message)
  | .restart => some (recoverReplicaBlobs key p.spool)
  | .crash message env written =>
    some (recoverReplicaBlobs key (p.tornSpool config key env message written))

/-- **The spool reproduces the memory.**  Scanning the files succeeds, and what recovery makes of
them is what the passive has in memory: its artifacts, its newest commit with the record, its byte
count and its current generation. -/
def Reproduces (key : ReplicaKey) (p : Passive) : Prop :=
  (∃ scan, scanReplicaSpool (combined p.spool) = some scan ∧ scan.truncatedTail = false) ∧
  (recoverReplicaBlobs key p.spool).replica.map ReplicaState.view =
    p.replica.map ReplicaState.view

/-- A commit that the scan would read: it does not fall behind the one before it in the order of the
scan, and names no more artifacts than a reader accepts. -/
def Passive.Readable (p : Passive) : ReplicaMessage → Prop
  | .commit info required _ => required.length ≤ maxRequiredArtifacts ∧
      ∀ known ∈ p.replica.bind ReplicaState.committed,
        ReplicaSpoolScan.syncOrder known ≤ ReplicaSpoolScan.syncOrder info
  | .put .. | .release _ => True

section

variable (config : PassiveConfig) (key : ReplicaKey) (p : Passive)

/-- The message is accepted, and its append begins. -/
def Passive.accepts (env : Surroundings) (message : ReplicaMessage) : Bool :=
  match p.react config key env message with
  | .append frame _ => (p.appendPlan config env frame.length).isSome && env.reserved
  | _ => false

/-- A commit that is accepted can be read; a delete that fails has not deleted anything. -/
def MessageOk (env : Surroundings) : ReplicaMessage → Prop
  | .put .. => True
  | .commit info required record =>
    p.accepts config key env (.commit info required record) = true →
      p.Readable (.commit info required record)
  | .release _ => ∀ count ∈ env.deleteFailedAfter, count = 0

def PassiveOk : PassiveLabel → Prop
  | .deliver message env => MessageOk config key p env message
  | .restart => True
  | .crash message env _ => MessageOk config key p env message

end

end Blockd
