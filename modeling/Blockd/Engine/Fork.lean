import Blockd.Engine.Reconcile
import Blockd.Lib.Run

/-!
# Forks

`create_fork` (`lineage.rs`) makes a new volume over a base.  The volume has no files of its own; all
it needs is a manifest that names the base.  Four things become durable one after the other: the
claim of the head, the volume's first record on the local disk, the manifest in the store, and the
head that names the manifest.  Until the last of them is there, the base is known to nobody but the
running call.

`ForkState.step` interleaves the call, its retries by the user, the requests to the head object that
take effect in their own time, and restarts of the host, each with a recovery from the local disk and
a reconciliation with the head.
-/

set_option autoImplicit false

open Codec
open Std (ExtTreeMap)

namespace Blockd

open Cas (Object)

/-- The verdict a manifest's kind stands for, and the kind of record that goes with it. -/
def manifestVerdict (kind : RecoveryKind) (epoch : Epoch) (vmstate : UInt64) :
    Verdict × RecordKind :=
  match kind with
  | .whole => (.resume epoch vmstate, .checkpoint epoch vmstate vmstate)
  | .diskOnly => (.coldBoot, .commit)

variable [Platform]

/-- A base as `get_base` has read it; the fields at the end are what decoding has checked. -/
structure ForkBase where
  root : BaseRoot
  manifest : BaseManifest
  named : root.postStateChecksum = manifest.postStateChecksum
  sync_le : manifest.syncCoveredThrough ≤ manifest.captureSeq
  pages : manifest.config.pages ≠ 0
  valid : validateObjectRefs manifest.objects = true

namespace ForkBase

/-- The verdict that a fork of the base reports. -/
def verdict (b : ForkBase) : Verdict :=
  (manifestVerdict b.manifest.recoveryKind 0 b.manifest.vmstateLogicalLength).1

/-- The first record of a fork. -/
def record (b : ForkBase) (fence : UInt64) : JournalRecord where
  config := b.manifest.config
  seq := 0
  fence := fence
  kind := (manifestVerdict b.manifest.recoveryKind 0 b.manifest.vmstateLogicalLength).2
  captureSeq := b.manifest.captureSeq
  syncCoveredThrough := b.manifest.syncCoveredThrough
  postStateChecksum := b.manifest.postStateChecksum
  files := []
  runtimePageIndex := ∅
  migratedFrom := none

/-- The first manifest of a fork. -/
def childManifest (b : ForkBase) (volume : VolumeId) (fence : UInt64) : Manifest where
  volume := volume
  writerFence := fence
  journalSeq := 0
  archiveSeq := 0
  captureSeq := b.manifest.captureSeq
  syncCoveredThrough := b.manifest.syncCoveredThrough
  recoveryKind := b.manifest.recoveryKind
  checkpointEpoch := if b.manifest.recoveryKind = .whole then 0 else b.manifest.checkpointEpoch
  config := b.manifest.config
  vmstateLogicalLength := b.manifest.vmstateLogicalLength
  base := some b.root.asBaseRef
  completeList := none
  postStateChecksum := b.root.postStateChecksum
  metadataChecksum := b.manifest.metadataChecksum
  added := []
  removed := []

/-- The volume state once the head is claimed. -/
def claimed (b : ForkBase) (v : ServedVolume) (fence : UInt64) (stash : StashAssignment) :
    ServedVolume :=
  { v with
    fence := fence
    headVersion := some fence
    stashAssignment := some stash
    mutationSeq := b.manifest.captureSeq
    stateChecksum := b.manifest.postStateChecksum
    archivedMemoryUsable := b.verdict != .coldBoot
    archivedNonDataReset := b.verdict != .coldBoot
    archiveBase := some b.root.asBaseRef
    archiveObjects := b.manifest.objects
    bestRecord := some (b.record fence) }

/-- The volume state once the head names the manifest. -/
def published (b : ForkBase) (v : ServedVolume) (fence version : UInt64) (pointer : ManifestPtr) :
    ServedVolume :=
  { v with
    nextSeq := 1
    backed := some pointer
    headVersion := some version
    recordWrites := v.recordWrites.insert 0 (fence, 0)
    pinned := if (b.record fence).kind.isCheckpoint then some (b.record fence) else v.pinned }

/-- A fork starts without files. -/
theorem currentFiles_childManifest (b : ForkBase) (volume : VolumeId) (fence : UInt64) :
    (b.childManifest volume fence).currentFiles none = some [] := by
  have hchain : validateFileStateChain b.root.asBaseRef.postStateChecksum
      b.root.postStateChecksum [] = true := beq_self_eq_true _
  have hrefs : validateObjectRefs [] = true := rfl
  simp [Manifest.currentFiles, ForkBase.childManifest, hrefs, hchain]

end ForkBase

/-! ## The system -/

/-- What a run is about: the new volume, the host that makes it, and the base. -/
structure ForkSetting where
  volume : VolumeId
  host : HostId
  base : ForkBase

/-- Where `create_fork` is. -/
inductive ForkPhase where
  /-- The head is being claimed. -/
  | claiming (stash : StashAssignment) (phase : ClaimPhase)
  /-- The record is being written. -/
  | recording (stash : StashAssignment) (fence : UInt64)
  /-- The manifest is being written. -/
  | uploading (stash : StashAssignment) (fence : UInt64)
  /-- The head that names the manifest was sent, as this request. -/
  | publishing (head : HeadRecord) (fence : UInt64) (pointer : ManifestPtr) (request : Nat)
  /-- The outcome is unknown, and the head is read. -/
  | checking (head : HeadRecord) (fence : UInt64) (pointer : ManifestPtr)
  /-- The first record is being sent to the passive. -/
  | protecting

/-- Where the reconciliation of a recovered volume is. -/
inductive ReconcilePhase where
  | reading
  | read (found : Option (UInt64 × HeadRecord))
  | finalizing (request : Nat)
  | upgrading (head : HeadRecord) (closure : List ObjectRef × Option BaseRef) (request : Nat)
  /-- There was no head, and one is being written. -/
  | creating (stash : StashAssignment) (creation : Nat)

/-- The new volume: the head, its manifests in the store, its blobs on the host's disk, and what the
host has in memory. -/
structure ForkState where
  store : HeadStore
  /-- Manifests by fence and archive number; none is ever replaced. -/
  manifests : ExtTreeMap (UInt64 ×ₗ UInt64) Bytes
  disk : Disk
  served : Option ServedVolume
  fork : Option ForkPhase
  reconciling : Option ReconcilePhase
  /-- The verdict that was reported when the volume became ready. -/
  reported : Option Verdict

/-- Answers to `put_head_retry`. -/
inductive PublishEvent where
  | ok
  | conflict
  | unknown
  /-- The head that was read after an unknown outcome arrives. -/
  | found
  | getUnavailable
  deriving DecidableEq, Repr

inductive ReconcileEvent where
  | serve
  /-- The head is looked at, under the current membership and with the stash a new head gets. -/
  | look (membership : Option UInt64) (initial : Option StashAssignment)
  | ok
  | conflict
  | unknown
  /-- Any answer that ends the reconciliation with the volume being given up. -/
  | giveUp
  deriving DecidableEq, Repr

inductive ForkStep where
  | begin (stash : StashAssignment)
  | claim (event : ClaimEvent)
  /-- The record is written or not, and the call hears of it or not. -/
  | record (written ok : Bool)
  | upload (landed ok : Bool)
  | publish (event : PublishEvent)
  | protect
  | landCreation (creation : Nat) (version : UInt64)
  | land (request : Nat) (version : UInt64)
  /-- The host stops, starts again and recovers what is on its disk. -/
  | restart
  | reconcile (event : ReconcileEvent)

namespace ForkState

def start : ForkState := ⟨⟨none, []⟩, ∅, ⟨∅, ∅⟩, none, none, none, none⟩

/-- The call fails: the volume state is removed. -/
def abandon (s : ForkState) : ForkState := { s with served := none, fork := none }

/-- The metadata objects in the store. -/
def metadata (g : ForkSetting) (s : ForkState) : MetadataStore where
  manifests := fun fence seq => s.manifests[(toLex (fence, seq) : UInt64 ×ₗ UInt64)]?
  lists := fun _ _ => none
  bases := fun reference =>
    if reference = g.base.root.asBaseRef then some g.base.manifest else none

/-- The answer to the claim of the head. -/
def claim (g : ForkSetting) (s : ForkState) (event : ClaimEvent) : Option ForkState :=
  match s.fork with
  | some (.claiming stash phase) =>
    (Attempt.act g.volume s.store ⟨g.host, .create (some stash), phase⟩ event).map fun r =>
      match r.2 with
      | .claimed _ fence _ =>
        { s with
          store := r.1
          served := s.served.map fun v => g.base.claimed v fence stash
          fork := some (.recording stash fence) }
      | .ended => { s.abandon with store := r.1 }
      | phase => { s with store := r.1, fork := some (.claiming stash phase) }
  | _ => none

/-- The record is written to the local disk. -/
def record (g : ForkSetting) (s : ForkState) (written ok : Bool) : Option ForkState :=
  match s.fork with
  | some (.recording stash fence) => do
    ensure (ok = true → written = true)
    let bytes ← (g.base.record fence).encode g.volume
    let disk := if written then
        { s.disk with journals := s.disk.journals.insert (toLex (fence, 0)) bytes }
      else s.disk
    if ok then return { s with disk := disk, fork := some (.uploading stash fence) }
    else return { s.abandon with disk := disk }
  | _ => none

/-- The head that names the fork's manifest. -/
def publishedHead (g : ForkSetting) (fence : UInt64) (stash : StashAssignment)
    (pointer : ManifestPtr) : HeadRecord :=
  ⟨g.volume, g.host, fence, some pointer, some stash, []⟩

/-- The manifest is written to the store, and the head that names it is sent. -/
def upload (g : ForkSetting) (s : ForkState) (landed ok : Bool) : Option ForkState :=
  match s.fork with
  | some (.uploading stash fence) =>
    let manifest := g.base.childManifest g.volume fence
    match manifest.encode with
    | none => some s.abandon
    | some bytes => do
      let name : UInt64 ×ₗ UInt64 := toLex (fence, 0)
      ensure (landed = true → s.manifests.contains name = false)
      let manifests := if landed then s.manifests.insert name bytes else s.manifests
      if ok then
        ensure (manifests[name]? = some bytes)
        let o ← s.store.object
        let expected ← s.served.bind ServedVolume.headVersion
        let pointer := manifest.pointer bytes
        let head := publishedHead g fence stash pointer
        return { s with
          store := s.store.put o expected head
          manifests := manifests
          fork := some (.publishing head fence pointer o.requests.length) }
      else return { s.abandon with manifests := manifests }
  | _ => none

/-- The head names the manifest: the first record is sent to the passive. -/
def headPublished (g : ForkSetting) (s : ForkState) (fence version : UInt64)
    (pointer : ManifestPtr) : ForkState :=
  { s with
    served := s.served.map fun v => g.base.published v fence version pointer
    fork := some .protecting }

/-- `put_head_retry`. -/
def publish (g : ForkSetting) (s : ForkState) (event : PublishEvent) : Option ForkState :=
  match s.fork, event with
  | some (.publishing _ fence pointer request), .ok =>
    (s.store.object.bind fun o => o.created request).map fun version =>
      s.headPublished g fence version pointer
  | some (.publishing _ _ _ request), .conflict =>
    if s.store.object.any fun o => o.conflicts request then some s.abandon else none
  | some (.publishing head fence pointer _), .unknown =>
    some { s with fork := some (.checking head fence pointer) }
  | some (.checking head fence pointer), .found =>
    match s.store.current with
    | some (version, found) =>
      if found = head then some (s.headPublished g fence version pointer) else some s.abandon
    | none => some s.abandon
  | some (.checking head fence pointer), .getUnavailable => do
    let o ← s.store.object
    let expected ← s.served.bind ServedVolume.headVersion
    return { s with
      store := s.store.put o expected head
      fork := some (.publishing head fence pointer o.requests.length) }
  | _, _ => none

/-- The passive has the first record: the volume is ready, and the fork is reported. -/
def protect (g : ForkSetting) (s : ForkState) : Option ForkState :=
  match s.fork with
  | some .protecting =>
    some { s with
      served := s.served.map fun v => { v with ready := true }
      fork := none
      reported := some g.base.verdict }
  | _ => none

/-- All that was in memory is gone, and the volume is rebuilt from the disk. -/
def restart (g : ForkSetting) (s : ForkState) : ForkState :=
  let served := recoverLocal s.disk g.volume
  { s with
    served := served
    fork := none
    reconciling := if served.isSome then some .reading else none
    reported := none }

/-- The volume is given up. -/
def fence (s : ForkState) : ForkState := { s with served := none, reconciling := none }

/-- The head has confirmed the volume. -/
def attached (s : ForkState) (v : ServedVolume) : ForkState :=
  { s with
    served := some v
    reconciling := none
    reported := if v.ready then s.served.bind ServedVolume.recovery else none }

/-- The head that was read is looked at. -/
def look (g : ForkSetting) (s : ForkState) (v : ServedVolume) (membership : Option UInt64)
    (initial : Option StashAssignment) : Option (UInt64 × HeadRecord) → Option ForkState
  | none =>
    match initial with
    | none => some s.fence
    | some stash =>
      some { s with
        store := s.store.create (newHead g.volume g.host (some stash))
        reconciling := some (.creating stash s.store.creations.length) }
  | some (version, head) => do
    let closure := loadArchiveClosure (s.metadata g) g.volume head.manifest
    match v.reconcile g.volume g.host membership initial version head closure.isSome with
    | .fence => return s.fence
    | .finalize head =>
      let o ← s.store.object
      return { s with
        store := s.store.put o version head
        reconciling := some (.finalizing o.requests.length) }
    | .upgrade head =>
      let o ← s.store.object
      let closure ← closure
      return { s with
        store := s.store.put o version head
        reconciling := some (.upgrading head closure o.requests.length) }
    | .wait => return { s with reconciling := some .reading }
    | .attach =>
      let closure ← closure
      return s.attached (v.attachHead g.volume version head closure)

def reconcile (g : ForkSetting) (s : ForkState) (event : ReconcileEvent) : Option ForkState :=
  match s.reconciling, s.served, event with
  | some _, _, .giveUp => some s.fence
  | some .reading, _, .serve => some { s with reconciling := some (.read s.store.current) }
  | some (.read found), some v, .look membership initial => s.look g v membership initial found
  | some (.finalizing request), _, .ok =>
    if (s.store.object.bind fun o => o.created request).isSome then
      some { s with reconciling := some .reading }
    else none
  | some (.upgrading head closure request), some v, .ok =>
    (s.store.object.bind fun o => o.created request).map fun version =>
      s.attached (v.attachHead g.volume version head closure)
  | some (.finalizing request), _, .conflict | some (.upgrading _ _ request), _, .conflict =>
    if s.store.object.any fun o => o.conflicts request then
      some { s with reconciling := some .reading }
    else none
  | some (.creating stash creation), some v, .ok =>
    (s.store.creations[creation]?.bind Prod.snd).map fun version =>
      s.attached (v.reclaimHead version stash)
  | some (.creating _ creation), _, .conflict =>
    if s.store.object.isSome ∧ s.store.creations[creation]?.any fun c => c.2.isNone then
      some { s with reconciling := some .reading }
    else none
  | some (.finalizing _), _, .unknown | some (.upgrading ..), _, .unknown
  | some (.creating ..), _, .unknown => some { s with reconciling := some .reading }
  | _, _, _ => none

def step (g : ForkSetting) (s : ForkState) : ForkStep → Option ForkState
  | .begin stash =>
    if s.served.isSome then none
    else
      some { s with
        store := s.store.create (newHead g.volume g.host (some stash))
        served := some (.fresh g.base.manifest.config)
        fork := some (.claiming stash (.creating s.store.creations.length)) }
  | .claim event => s.claim g event
  | .record written ok => s.record g written ok
  | .upload landed ok => s.upload g landed ok
  | .publish event => s.publish g event
  | .protect => s.protect g
  | .landCreation creation version =>
    (s.store.landCreation creation version).map fun store => { s with store }
  | .land request version =>
    s.store.object.bind fun o =>
      (o.land request version).map fun o' => { s with store := { s.store with object := some o' } }
  | .restart => some (s.restart g)
  | .reconcile event => s.reconcile g event

end ForkState

/-! ## What a ready fork presents -/

/-- A ready fork presents the base: it reads every page from the base's objects, it is cold-booted
only if the base has no machine state, and a resumable fork finds the base's vmstate.  (The memory of
a cold-booted machine is nobody's content.) -/
def ForkState.PresentsBase (g : ForkSetting) (s : ForkState) : Prop :=
  ∀ v, s.served = some v → v.ready = true → ∃ verdict, s.reported = some verdict ∧
    (verdict ≠ .coldBoot ∨ v.config.kind = .data → ∀ store page,
      v.readPage s.disk store page =
        readArchive g.base.manifest.config.kind store g.base.manifest.objects page) ∧
    (verdict = .coldBoot → g.base.manifest.recoveryKind = .diskOnly) ∧
    ∀ epoch vmstate, verdict = .resume epoch vmstate → ∀ store,
      loadVmstate store v.archiveObjects vmstate =
        loadVmstate store g.base.manifest.objects g.base.manifest.vmstateLogicalLength

/-- A host that finds the fork's record on its disk when it starts has already published the fork:
the head names a manifest. -/
def ForkState.RecordImpliesHead (s : ForkState) : ForkStep → Prop
  | .restart => s.disk.journals ≠ ∅ → ∃ version head, s.store.current = some (version, head) ∧
      head.manifest.isSome = true
  | _ => True

end Blockd
