import Blockd.Engine.Publish

/-!
# Restoring a volume from its archive

`restore_volume` (`restore.rs`) takes over a volume that has nothing on this host but its head: the
head is claimed under a new fence, and the volume state is made from the manifest the head names.

* `loadRestoreImage` — the manifest, the objects of the archive and its base, and the vmstate if the
  archive is whole;
* `RestoreImage.volume` — the volume state it starts with;
* `resetArchivedNonData` (`capture.rs`) — what a volume that boots cold does before its first
  capture: everything it will write has to be newer than the memory it discards.
-/

set_option autoImplicit false

open Codec
open Std (ExtTreeMap)

namespace Blockd

variable [Platform]

/-! ## The image -/

/-- The blocks of an archive's vmstate, with their generations. -/
def loadVmmBlocks (store : ObjectStore) (objects : List ObjectRef) (logicalLength : UInt64) :
    Option (List (Gen × Bytes)) := do
  let count := (logicalLength.toNat + pageSize - 1) / pageSize
  ensure (count ≤ 2 ^ 32)
  (List.range count).mapM fun block => loadVmmBlock store objects (UInt32.ofNat block)

theorem loadVmstate_eq (store : ObjectStore) (objects : List ObjectRef) (logicalLength : UInt64) :
    loadVmstate store objects logicalLength = (loadVmmBlocks store objects logicalLength).map
      fun blocks => (blocks.flatMap Prod.snd).take logicalLength.toNat := by
  simp only [loadVmstate, loadVmmBlocks, Option.bind_eq_bind, Option.pure_def, Option.map_eq_bind,
    Option.bind_assoc, Function.comp_def]

/-- What a restore starts from. -/
structure RestoreImage where
  record : JournalRecord
  archiveObjects : List ObjectRef
  archiveBase : Option BaseRef
  /-- The checksums of the vmstate's blocks. -/
  vmmChecksums : BlockChecksums

/-- The record a manifest stands for.  It names no files: all of its state is in the archive. -/
def Manifest.restoredRecord (m : Manifest) (kind : RecordKind) : JournalRecord where
  config := m.config
  seq := m.journalSeq
  fence := m.writerFence
  kind := kind
  captureSeq := m.captureSeq
  syncCoveredThrough := m.syncCoveredThrough
  postStateChecksum := m.postStateChecksum
  files := []
  runtimePageIndex := ∅
  migratedFrom := none

def loadRestoreImage (metadata : MetadataStore) (store : ObjectStore) (volume : VolumeId)
    (pointer : ManifestPtr) : Option RestoreImage := do
  let closure ← loadArchiveMetadata metadata volume pointer
  let (objects, base) ← loadArchiveClosure metadata volume (some pointer)
  let m := closure.manifest
  match m.recoveryKind with
  | .diskOnly => return ⟨m.restoredRecord .commit, objects, base, ∅⟩
  | .whole => do
    let blocks ← loadVmmBlocks store objects m.vmstateLogicalLength
    let vmstate ← Dec.u64.decode ((blocks.flatMap Prod.snd).take m.vmstateLogicalLength.toNat)
    return {
      record := m.restoredRecord (.checkpoint m.checkpointEpoch vmstate m.vmstateLogicalLength)
      archiveObjects := objects
      archiveBase := base
      vmmChecksums := (blocks.mapIdx fun block (generation, bytes) =>
          ((⟨.vmm, UInt32.ofNat block⟩ : BlockKey), generation, checksum64 bytes)).foldl
        (fun checksums (key, value) => checksums.insert key value) ∅ }

/-- The volume state of a restored volume.  Numbers go on after the restored record's; generations
and object ids start again. -/
def RestoreImage.volume (image : RestoreImage) (volume : VolumeId) (fence : UInt64) :
    Option VolumeState := do
  let record := image.record
  let verdict := recordVerdict record
  let nextSeq ← checkedAdd record.seq 1
  return { VolumeState.fresh record.config fence with
    epoch := match verdict with
      | .resume epoch _ => epoch
      | _ => 0
    pinned := match verdict with
      | .resume .. => some record
      | _ => none
    mutationSeq := record.captureSeq
    stateChecksum := record.postStateChecksum
    archivedMemoryUsable := verdict != .coldBoot
    blockChecksums := image.vmmChecksums
    nextSeq := nextSeq
    localCoveredThrough := record.syncCoveredThrough
    syncAckThrough := record.syncCoveredThrough
    bestRecord := some record
    backedBlxFiles := ((image.archiveObjects.map ObjectRef.identity).filter fun identity =>
      identity.isOwn volume).toFinset }

/-! ## Discarding archived memory -/

/-- The footers of the objects that may hold memory or VMM blocks.  Those that lookups have fetched
before are fetched again here; they are the same. -/
def nonDataFooters (store : ObjectStore) (objects : List ObjectRef) :
    Option (ExtTreeMap ObjectIdentity BlxFooter) :=
  (objects.filter fun object =>
      !(object.firstKey.space == .data && object.lastKey.space == .data)).foldlM
    (fun footers object =>
      if footers.contains object.identity then some footers
      else (fetchFooter store object).map fun footer => footers.insert object.identity footer)
    ∅

/-- The newest entry of every memory and VMM block. -/
def nonDataWinners (volume : VolumeId) (footers : ExtTreeMap ObjectIdentity BlxFooter)
    (objects : List ObjectRef) : ExtTreeMap BlockKey (FooterEntry × ObjectRef) :=
  objects.foldl
    (fun winners object =>
      match footers[object.identity]? with
      | none => winners
      | some footer =>
        (footer.entries.filter fun entry => entry.key.space != .data).foldl
          (fun winners entry =>
            if winners[entry.key]?.all fun old =>
                decide (archiveRank volume old < archiveRank volume (entry, object)) then
              winners.insert entry.key (entry, object)
            else winners)
          winners)
    ∅

/-- Take the archived memory and VMM blocks out of the checksum, and number everything after
them. -/
def resetArchivedNonData (v : VolumeState) (volume : VolumeId) (store : ObjectStore)
    (objects : List ObjectRef) : Option VolumeState := do
  let footers ← nonDataFooters store objects
  return (nonDataWinners volume footers objects).toList.foldl
    (fun v (key, entry, _) => { v with
      nextGen := max v.nextGen (nextGeneration entry.generation)
      stateChecksum :=
        if entry.kind = .data then
          v.stateChecksum ^^^ stateContribution key entry.generation entry.valueChecksum
        else v.stateChecksum })
    v

end Blockd
