import Blockd.Engine.HeadCluster
import Blockd.Engine.Recovery

/-!
# Reconciling a recovered volume with its head

A volume that `recover_local` has rebuilt is not served before its head has been read
(`reconcile_backed_recovery_event`, `backup.rs`).  The head may still be a claim of this host that
was never finalized, it may name another holder or a newer state, or it may be gone.  Otherwise the
volume is attached to the archive the head names and becomes ready.

* `loadArchiveMetadata`, `loadArchiveClosure` — the manifest a head names, and the objects of the
  archive, those of the base first;
* `ServedVolume.reconcile` — what is done about a head that was read;
* `ServedVolume.attachHead` — the volume when the head confirms it.
-/

set_option autoImplicit false

open Codec

namespace Blockd

/-- The metadata objects of the store, under the numbers their names are made of. -/
structure MetadataStore where
  manifests : UInt64 → UInt64 → Option Bytes
  lists : UInt64 → UInt64 → Option Bytes
  bases : BaseRef → Option BaseManifest

variable [Platform]

def loadArchiveMetadata (store : MetadataStore) (volume : VolumeId) (pointer : ManifestPtr) :
    Option ManifestClosure := do
  let bytes ← store.manifests pointer.fence pointer.seq
  let manifest ← Manifest.decode volume bytes
  let listBytes ←
    match manifest.completeList with
    | none => some none
    | some reference => (store.lists reference.writerFence reference.listId).map some
  ManifestClosure.decode volume pointer bytes listBytes

/-- A manifest without a file list is read back through its pointer. -/
theorem loadArchiveMetadata_of_encode {store : MetadataStore} {m : Manifest} {bytes : Bytes}
    {files : List ObjectRef} (hget : store.manifests m.writerFence m.archiveSeq = some bytes)
    (hencode : m.encode = some bytes) (hpages : m.config.pages ≠ 0)
    (hadded : ∀ f ∈ m.added, f.WellFormed) (hlist : m.completeList = none)
    (hfiles : m.currentFiles none = some files) :
    loadArchiveMetadata store m.volume (m.pointer bytes) = some ⟨m, none, files⟩ := by
  have hclosure := ManifestClosure.decode_encode hencode hpages hadded hlist hfiles
  have hget' : store.manifests (m.pointer bytes).fence (m.pointer bytes).seq = some bytes := hget
  rw [loadArchiveMetadata, hget', some_bind, Manifest.decode_encode hencode hpages hadded]
  simp only [hlist, some_bind, hclosure]

/-- The objects of an archive and the base it is built on.  A head without a manifest has none. -/
def loadArchiveClosure (store : MetadataStore) (volume : VolumeId) :
    Option ManifestPtr → Option (List ObjectRef × Option BaseRef)
  | none => some ([], none)
  | some pointer => do
    let closure ← loadArchiveMetadata store volume pointer
    let baseObjects ←
      match closure.manifest.base with
      | none => some []
      | some reference => (store.bases reference).map BaseManifest.objects
    ensure (validateObjectRefs (baseObjects ++ closure.files) = true)
    return (baseObjects ++ closure.files, closure.manifest.base)

/-- What is done about the head that was read. -/
inductive Reconciliation where
  /-- The volume is given up. -/
  | fence
  /-- This head is written over the one that was read, and the head is read again. -/
  | finalize (head : HeadRecord)
  /-- This head, which adds the missing stash, is written over the one that was read. -/
  | upgrade (head : HeadRecord)
  /-- The membership the head was written under is not known here yet. -/
  | wait
  | attach

namespace ServedVolume

/-- Has the head a newer state than the newest record of this host? -/
def behind (v : ServedVolume) (head : HeadRecord) : Bool :=
  head.manifest.any fun manifest =>
    decide ((match v.bestRecord with
      | none => toLex (0, 0)
      | some record => (toLex (record.captureSeq, record.seq) : UInt64 ×ₗ UInt64)) <
        toLex (manifest.captureSeq, manifest.journalSeq))

/-- The decision about a head.  `closure` says whether the archive of the head could be read. -/
def reconcile (v : ServedVolume) (volume : VolumeId) (host : HostId) (membership : Option UInt64)
    (initial : Option StashAssignment) (version : UInt64) (head : HeadRecord) (closure : Bool) :
    Reconciliation :=
  if head.holder = host ∧ head.fence = 0 ∧ v.fence = version then
    .finalize { head with fence := version }
  else if !closure then .fence
  else
    match head.stash with
    | none =>
      match initial with
      | none => .fence
      | some stash =>
        if head.holder = host then
          .upgrade ⟨volume, host, v.fence, head.manifest, some stash, head.retiredStashes⟩
        else .fence
    | some stash =>
      match membership with
      | none => .fence
      | some current =>
        if current < stash.membershipEpoch then .wait
        else if head.holder ≠ host ∨ head.fence ≠ v.fence ∨ v.behind head = true then .fence
        else .attach

/-- What a decision says about the head. -/
def ReconcileSpec (v : ServedVolume) (host : HostId) (version : UInt64) (head : HeadRecord) :
    Reconciliation → Prop
  | .fence | .wait => True
  | .finalize head' =>
    head' = { head with fence := version } ∧ head.holder = host ∧ head.fence = 0 ∧ v.fence = version
  | .upgrade _ => head.stash = none ∧ head.holder = host
  | .attach =>
    head.stash.isSome = true ∧ head.holder = host ∧ head.fence = v.fence ∧ v.behind head = false

theorem reconcile_spec (v : ServedVolume) (volume : VolumeId) (host : HostId)
    (membership : Option UInt64) (initial : Option StashAssignment) (version : UInt64)
    (head : HeadRecord) (closure : Bool) :
    v.ReconcileSpec host version head
      (v.reconcile volume host membership initial version head closure) := by
  unfold reconcile
  split
  · rename_i hclaim
    exact ⟨rfl, hclaim⟩
  split
  · trivial
  split
  · rename_i hstash
    split
    · trivial
    · split
      · rename_i hholder
        exact ⟨hstash, hholder⟩
      · trivial
  · rename_i stash hstash
    split
    · trivial
    split
    · trivial
    split
    · trivial
    · rename_i hours
      simp only [not_or, Decidable.not_not, Bool.not_eq_true] at hours
      exact ⟨by rw [hstash]; rfl, hours⟩

/-- The head confirms the volume: it is attached to the archive the head names.  A volume that was
handed over is not served. -/
def attachHead (v : ServedVolume) (volume : VolumeId) (version : UInt64) (head : HeadRecord)
    (closure : List ObjectRef × Option BaseRef) : ServedVolume :=
  { v.installArchiveClosure volume closure.1 closure.2 with
    headVersion := some version
    backed := head.manifest
    stashAssignment := head.stash
    retiredStashes := head.retiredStashes
    ready := v.outbound.isNone
    recovery := if v.outbound.isNone then none else v.recovery }

/-- There was no head, and this host has written one. -/
def reclaimHead (v : ServedVolume) (version : UInt64) (stash : StashAssignment) : ServedVolume :=
  { v with
    fence := version
    headVersion := some version
    backed := none
    stashAssignment := some stash
    retiredStashes := []
    ready := v.outbound.isNone
    recovery := if v.outbound.isNone then none else v.recovery }

end ServedVolume

end Blockd
