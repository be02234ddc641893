import Blockd.Engine.MigrationState
import Blockd.Engine.Recovery
import Blockd.Engine.Replica

/-!
# Local recovery from all blobs

`recover_local` (`recovery.rs`) with everything a host may find on its disk: both copies of every
record, one of which may have rotted, records that carry the state of an unfinished migration, the
marker of a volume that was handed over, files of which the scan returns only the length, and the
spools of other hosts' volumes.  What a record is worth is decided as in `Found`; this is about
where the records and files come from.

* `VolumeBlobs.scan` — what is found of a volume (`collect_blob`, `collect_blx_metadata`);
* `ScanFound.recover` — the volume state, or that there is none;
* `HostDisk.recoverLocal` — every volume and every spool of a host.

`recovery_watermark` says that no acknowledged sync is rolled back: the record that is installed
captured everything that any record on the disk says was synced, and its files are there.  A
volume without such a record is reported, and all of its blobs stay.
-/

set_option autoImplicit false

open Codec
open Std (ExtTreeMap)

namespace Blockd

/-- What the scan returns of BLX files. -/
inductive ScanMode where
  | bytes
  | lengths
  deriving DecidableEq, Repr

instance transOrdJournals : Std.TransOrd (UInt64 ×ₗ JournalSeq ×ₗ Bool) := inferInstance

/-- The blobs of one volume, under their names. -/
structure VolumeBlobs where
  /-- Records, under their fence and number, in two copies; the second one is the mirror. -/
  journals : ExtTreeMap (UInt64 ×ₗ JournalSeq ×ₗ Bool) Bytes
  /-- Files, under their fence and object id. -/
  blx : ExtTreeMap (UInt64 ×ₗ ObjectId) Bytes
  handoff : Option Bytes

variable [Platform]

/-! ## The scan -/

/-- What the scan has found of one volume. -/
structure ScanFound extends Found where
  /-- The states that came with records of unfinished migrations. -/
  migrationStates : ExtTreeMap (UInt64 ×ₗ JournalSeq) (BlockChecksums × MigrationArchiveClosure)
  handoff : Option HostId

/-- The record of a journal blob, with the migration state it may carry.  It has to be the record
the blob is named after. -/
def readJournal (volume : VolumeId) (fence : UInt64) (seq : JournalSeq) (bytes : Bytes) :
    Option (JournalRecord × Option (BlockChecksums × MigrationArchiveClosure)) :=
  match JournalRecord.decode volume bytes with
  | some record => if record.fence = fence ∧ record.seq = seq then some (record, none) else none
  | none =>
    (JournalRecord.decodeMigrationState volume bytes).bind fun (record, state) =>
      if record.fence = fence ∧ record.seq = seq then some (record, some state) else none

/-- `collect_blx_metadata`: the header, the trailer and the footer of a file are read, and nothing
in between.  The checksum of the whole file stays unknown. -/
def blxMetadata (volume : VolumeId) (fence : UInt64) (object : ObjectId) (bytes : Bytes) :
    Option (ObjectRef × BlxFooter) := do
  let (header, headerEnd) ← BlxHeader.open (bytes.take headerBytes)
  ensure (trailerBytes ≤ bytes.length)
  let (footerOffset, footerLength) ← openTrailer (bytes.drop (bytes.length - trailerBytes))
  let footerEnd := footerOffset.toNat + footerLength.toNat
  ensure (header.namespaceKind = .volume ∧ header.namespaceId = volume ∧
    header.writerFence = fence ∧ header.objectId = object ∧ header.minSeq = header.maxSeq ∧
    headerEnd ≤ footerOffset.toNat ∧ footerEnd + trailerBytes = bytes.length)
  let footer ← BlxFooter.open (slice bytes footerOffset.toNat footerEnd)
  ensure (footer.entries.length = header.entryCount.toNat ∧
    footer.entries.head?.map FooterEntry.key = some header.firstKey ∧
    footer.entries.getLast?.map FooterEntry.key = some header.lastKey ∧
    (footer.entries.getLast?.map fun entry => entry.offset.toNat + entry.length.toNat) =
      some footerOffset.toNat)
  ensure (bytes.length < 2 ^ 32)
  return ({
    identity := ⟨header.namespaceKind, header.namespaceId, header.writerFence, header.objectId⟩
    minSeq := header.minSeq
    maxSeq := header.maxSeq
    batchId := header.batchId
    chunkIndex := header.chunkIndex
    chunkCount := header.chunkCount
    firstKey := header.firstKey
    lastKey := header.lastKey
    preStateChecksum := header.preStateChecksum
    postStateChecksum := header.postStateChecksum
    size := UInt32.ofNat bytes.length
    footerOffset := footerOffset
    footerLength := footerLength
    objectChecksum := 0 }, footer)

/-- The reference and the index of a file, if it can be read. -/
def readBlx (mode : ScanMode) (volume : VolumeId) (fence : UInt64) (object : ObjectId)
    (bytes : Bytes) : Option (ObjectRef × BlxFooter) :=
  match mode with
  | .bytes => (BlxObject.open bytes).map fun blx => (ObjectRef.fromBlx blx, blx.footer)
  | .lengths => blxMetadata volume fence object bytes

/-- The capture that wrote a file.  With the bytes at hand the header is enough. -/
def blxCapture (mode : ScanMode) (volume : VolumeId) (fence : UInt64) (object : ObjectId)
    (bytes : Bytes) : Option JournalSeq :=
  match mode with
  | .bytes => Disk.captureOf (ObjectIdentity.volume volume fence object) bytes
  | .lengths => (blxMetadata volume fence object bytes).map fun found => found.1.maxSeq

def blxHasTombstone (mode : ScanMode) (volume : VolumeId) (fence : UInt64) (object : ObjectId)
    (bytes : Bytes) : Bool :=
  match mode with
  | .bytes => Disk.hasTombstone bytes
  | .lengths => (blxMetadata volume fence object bytes).any fun found =>
      found.2.entries.any fun entry => entry.kind == .tombstone

namespace VolumeBlobs

/-- The files in the order of their names. -/
def files (blobs : VolumeBlobs) : List (UInt64 × ObjectId × Bytes) :=
  blobs.blx.toList.map fun (name, bytes) => ((ofLex name).1, (ofLex name).2, bytes)

/-- The journal blobs in the order of their names. -/
def copies (blobs : VolumeBlobs) : List (UInt64 × JournalSeq × Bytes) :=
  blobs.journals.toList.map fun (name, bytes) =>
    ((ofLex name).1, (ofLex (ofLex name).2).1, bytes)

/-- The records that can be read, with their migration states. -/
def decoded (blobs : VolumeBlobs) (volume : VolumeId) :
    List (JournalRecord × Option (BlockChecksums × MigrationArchiveClosure)) :=
  blobs.copies.filterMap fun (fence, seq, bytes) => readJournal volume fence seq bytes

/-- The references and indexes of the files that can be read. -/
def readable (blobs : VolumeBlobs) (mode : ScanMode) (volume : VolumeId) :
    ExtTreeMap ObjectIdentity (ObjectRef × BlxFooter) :=
  (blobs.files.filterMap fun (fence, object, bytes) =>
    (readBlx mode volume fence object bytes).map fun blx =>
      (ObjectIdentity.volume volume fence object, blx)).foldl
    (fun found blx => found.insert blx.1 blx.2) ∅

/-- The scan of the volume's blobs. -/
def scan (blobs : VolumeBlobs) (mode : ScanMode) (volume : VolumeId) : Option ScanFound := do
  let maxSeq ← Disk.maxAfter (blobs.copies.map fun copy => copy.2.1)
  let maxObjectId ← Disk.maxAfter (blobs.files.map fun file => file.2.1)
  return {
    records := (blobs.decoded volume).map Prod.fst
    journals := blobs.copies.map fun (fence, seq, _) => (fence, seq)
    blxFiles := blobs.files.map fun (fence, object, bytes) =>
      (ObjectIdentity.volume volume fence object, bytes.length)
    recordBlxFiles := blobs.files.foldl
      (fun files (fence, object, bytes) =>
        match blxCapture mode volume fence object bytes with
        | none => files
        | some seq => files.insert seq
            (insert (ObjectIdentity.volume volume fence object) (files[seq]?.getD ∅)))
      ∅
    tombstoneBlxFiles := ((blobs.files.filter fun (fence, object, bytes) =>
        blxHasTombstone mode volume fence object bytes).map fun (fence, object, _) =>
      ObjectIdentity.volume volume fence object).toFinset
    blxRefs := (blobs.readable mode volume).map fun _ found => found.1
    blxFooters := (blobs.readable mode volume).map fun _ found => found.2
    maxSeq := maxSeq
    maxObjectId := maxObjectId
    migrationStates := (blobs.decoded volume).foldl
      (fun states (record, state) =>
        match state with
        | none => states
        | some state => states.insert (toLex (record.fence, record.seq)) state)
      ∅
    handoff := blobs.handoff.bind (decodeHandoff volume) }

end VolumeBlobs

/-! ## The recovered volume -/

/-- What becomes of one volume. -/
inductive Recovery where
  | unrestorable
  | installed (volume : ServedVolume)

namespace ScanFound

/-- The volume state with the checksums and the archive that came with its record. -/
def withMigrationState (found : ScanFound) (v : ServedVolume) (volume : VolumeId)
    (chosen : JournalRecord) (watermark : UInt64) (checksums : BlockChecksums)
    (archive : MigrationArchiveClosure) : ServedVolume :=
  let cold := recoveryVerdict chosen watermark == .coldBoot
  let discards := cold && chosen.config.isMemory
  let blocks := if discards then checksums.filter fun key _ => key.space == .data else checksums
  { v.installArchiveClosure volume archive.objects archive.base with
    nextGen := found.nextGen blocks
    blockChecksums := blocks
    stateChecksum := if discards then assembleStateChecksum blocks else chosen.postStateChecksum
    pendingTombstones :=
      if cold then
        .ofList ((checksums.toList.map Prod.fst).filter fun key => key.space != .data)
      else ∅ }

/-- The volume state.  One that was handed over goes on serving its destination, and has no verdict
to report. -/
def recovered (found : ScanFound) (volume : VolumeId) (chosen : JournalRecord)
    (watermark : UInt64) : ServedVolume :=
  let v := found.toFound.recovered volume chosen watermark
  let v := match found.migrationStates[toLex (chosen.fence, chosen.seq)]? with
    | none => v
    | some (checksums, archive) =>
      found.withMigrationState v volume chosen watermark checksums archive
  { v with
    outbound := found.handoff
    recovery := if found.handoff.isSome then none else some (recoveryVerdict chosen watermark) }

/-- Does a checkpoint that would be resumed come with checksums of another state? -/
def contradicts (found : ScanFound) (chosen : JournalRecord) (watermark : UInt64) : Bool :=
  recoveryVerdict chosen watermark != .coldBoot &&
    found.migrationStates[toLex (chosen.fence, chosen.seq)]?.any fun state =>
      assembleStateChecksum state.1 != chosen.postStateChecksum

def recover (found : ScanFound) (volume : VolumeId) : Recovery :=
  match found.chosen volume with
  | none => .unrestorable
  | some chosen =>
    if chosen.captureSeq < found.durabilityWatermark then .unrestorable
    else
      let watermark := max (found.usableWatermark volume) found.durabilityWatermark
      if found.contradicts chosen watermark then .unrestorable
      else .installed (found.recovered volume chosen watermark)

end ScanFound

/-! ## A host -/

/-- Everything on a host's disk. -/
structure HostDisk where
  volumes : ExtTreeMap VolumeId VolumeBlobs
  /-- The spools of the volumes it is a passive of, by generation. -/
  spools : ReplicaKey → ExtTreeMap Nat Bytes

/-- What a host starts with. -/
structure HostRecovery where
  volumes : ExtTreeMap VolumeId ServedVolume
  verdicts : ExtTreeMap VolumeId Verdict
  replicas : ReplicaKey → Option ReplicaState
  disk : HostDisk

namespace HostDisk

/-- One more volume. -/
def recoverVolume (mode : ScanMode) (r : HostRecovery) (entry : VolumeId × VolumeBlobs) :
    Option HostRecovery := do
  let found ← entry.2.scan mode entry.1
  match found.recover entry.1 with
  | .unrestorable => return { r with verdicts := r.verdicts.insert entry.1 .unrestorable }
  | .installed v => return { r with volumes := r.volumes.insert entry.1 v }

/-- `recover_local`: spools may lose a torn tail, and everything else stays on the disk. -/
def recoverLocal (disk : HostDisk) (mode : ScanMode) : Option HostRecovery :=
  disk.volumes.toList.foldlM (recoverVolume mode)
    { volumes := ∅
      verdicts := ∅
      replicas := fun key => (recoverReplicaBlobs key (disk.spools key)).replica
      disk := { disk with spools := fun key => (recoverReplicaBlobs key (disk.spools key)).spool } }

end HostDisk

/-! ## What is found -/

namespace VolumeBlobs

variable {blobs : VolumeBlobs} {mode : ScanMode} {volume : VolumeId}

/-- The record is on the disk, in one of its copies, and can be read. -/
def HasRecord (blobs : VolumeBlobs) (volume : VolumeId) (record : JournalRecord) : Prop :=
  ∃ (mirror : Bool) (bytes : Bytes) (state : Option (BlockChecksums × MigrationArchiveClosure)),
    blobs.journals[toLex (record.fence, toLex (record.seq, mirror))]? = some bytes ∧
    readJournal volume record.fence record.seq bytes = some (record, state)

/-- The file is on the disk, and what the scan reads of it is what the reference says.  Only the
checksum of the whole file may be left open. -/
def HasFile (blobs : VolumeBlobs) (mode : ScanMode) (volume : VolumeId) (file : ObjectRef) : Prop :=
  file.identity.isOwn volume = true ∧ ∃ (bytes : Bytes) (found : ObjectRef × BlxFooter),
    blobs.blx[toLex (file.identity.writerFence, file.identity.objectId)]? = some bytes ∧
    readBlx mode volume file.identity.writerFence file.identity.objectId bytes = some found ∧
    found.1.unchecked = file.unchecked

/-- Every sync that a record on the disk covers, and that it captured itself, is within the first
`n` mutations. -/
def CoveredWithin (blobs : VolumeBlobs) (volume : VolumeId) (n : UInt64) : Prop :=
  ∀ record, blobs.HasRecord volume record → record.syncCoveredThrough ≤ record.captureSeq →
    record.syncCoveredThrough ≤ n

/-- What holds of a volume that is installed with a record. -/
structure Restores (blobs : VolumeBlobs) (mode : ScanMode) (volume : VolumeId) (v : ServedVolume)
    (record : JournalRecord) : Prop where
  best : v.bestRecord = some record
  onDisk : blobs.HasRecord volume record
  watermark : blobs.CoveredWithin volume record.captureSeq
  /-- A volume that is still migrating has the files of earlier fences at its source. -/
  files : ∀ file ∈ record.files, blobs.HasFile mode volume file ∨
    (record.migratedFrom.isSome = true ∧ file.identity.writerFence < record.fence)
  resumes : ∀ epoch vmstate, v.recovery = some (.resume epoch vmstate) →
    ∃ length, record.kind = .checkpoint epoch vmstate length

theorem readJournal_eq_some {fence : UInt64} {seq : JournalSeq} {bytes : Bytes}
    {found : JournalRecord × Option (BlockChecksums × MigrationArchiveClosure)}
    (h : readJournal volume fence seq bytes = some found) :
    found.1.fence = fence ∧ found.1.seq = seq := by
  rw [readJournal] at h
  split at h
  · split at h
    · rename_i hname
      cases h
      exact hname
    · cases h
  · obtain ⟨⟨record, state⟩, -, h⟩ := bind_eq_some.mp h
    dsimp only at h
    split at h
    · rename_i hname
      cases h
      exact hname
    · cases h

/-- The scan finds exactly the records that can be read. -/
theorem mem_decoded {record : JournalRecord} :
    record ∈ (blobs.decoded volume).map Prod.fst ↔ blobs.HasRecord volume record := by
  simp only [decoded, copies, List.mem_map, List.mem_filterMap]
  constructor
  · rintro ⟨⟨_, state⟩, ⟨_, ⟨⟨name, bytes⟩, hmem, rfl⟩, hread⟩, rfl⟩
    obtain ⟨fence, seq, mirror⟩ := name
    have hget := ExtTreeMap.mem_toList_iff_getElem?_eq_some.mp hmem
    obtain ⟨rfl, rfl⟩ := readJournal_eq_some hread
    exact ⟨mirror, bytes, state, hget, hread⟩
  · rintro ⟨mirror, bytes, state, hget, hread⟩
    exact ⟨(record, state), ⟨_, ⟨_, ExtTreeMap.mem_toList_iff_getElem?_eq_some.mpr hget, rfl⟩,
      hread⟩, rfl⟩

/-- The records are found in the order of their fences. -/
theorem pairwise_decoded :
    ((blobs.decoded volume).map Prod.fst).Pairwise fun a b => a.fence ≤ b.fence := by
  rw [List.pairwise_map, decoded, List.pairwise_filterMap, copies, List.pairwise_map]
  refine (Maps.pairwise_toList blobs.journals).imp fun {p q} hlt a ha b hb => ?_
  rw [(readJournal_eq_some ha).1, (readJournal_eq_some hb).1]
  exact (Prod.Lex.lt_iff.mp hlt).elim le_of_lt fun heq => heq.1.le

/-- What is found of a file was read from it. -/
theorem of_getElem?_readable {identity : ObjectIdentity} {found : ObjectRef × BlxFooter}
    (h : (blobs.readable mode volume)[identity]? = some found) :
    ∃ (fence : UInt64) (object : ObjectId) (bytes : Bytes),
      identity = ObjectIdentity.volume volume fence object ∧
      blobs.blx[toLex (fence, object)]? = some bytes ∧
      readBlx mode volume fence object bytes = some found := by
  rcases Maps.of_getElem?_foldl_insert h with hmem | hnone
  · obtain ⟨⟨fence, object, bytes⟩, hfile, hread⟩ := List.mem_filterMap.mp hmem
    obtain ⟨blx, hblx, heq⟩ := Option.map_eq_some_iff.mp hread
    cases heq
    obtain ⟨⟨name, bytes'⟩, hmem', heq⟩ := List.mem_map.mp hfile
    cases heq
    exact ⟨_, _, _, rfl, ExtTreeMap.mem_toList_iff_getElem?_eq_some.mp hmem', hblx⟩
  · simp at hnone

end VolumeBlobs

omit [Platform] in
theorem Found.le_greatest {numbers : List UInt64} {n : UInt64} (h : n ∈ numbers) :
    n ≤ Found.greatest numbers := by
  have hfold : ∀ (l : List UInt64) (m : UInt64), m ≤ l.foldl max m ∧ ∀ n ∈ l, n ≤ l.foldl max m := by
    intro l
    induction l with
    | nil => exact fun m => ⟨le_rfl, by simp⟩
    | cons a l ih =>
      intro m
      obtain ⟨hm, hl⟩ := ih (max m a)
      refine ⟨(le_max_left m a).trans hm, fun n hn => ?_⟩
      rcases List.mem_cons.mp hn with rfl | hn
      · exact (le_max_right m n).trans hm
      · exact hl n hn
  exact (hfold numbers 0).2 n h

namespace ScanFound

variable {found : ScanFound} {volume : VolumeId} {chosen : JournalRecord} {watermark : UInt64}

@[simp] theorem bestRecord_recovered :
    (found.recovered volume chosen watermark).bestRecord = some chosen := by
  rw [recovered]
  split <;> rfl

@[simp] theorem fence_recovered :
    (found.recovered volume chosen watermark).fence = chosen.fence := by
  rw [recovered]
  split <;> rfl

@[simp] theorem recovery_recovered : (found.recovered volume chosen watermark).recovery =
    if found.handoff.isSome then none else some (recoveryVerdict chosen watermark) := rfl

/-- What is installed is the newest usable record, and it captured every durable sync. -/
theorem recover_eq_installed {v : ServedVolume} (h : found.recover volume = .installed v) :
    ∃ chosen, found.chosen volume = some chosen ∧
      found.durabilityWatermark ≤ chosen.captureSeq ∧
      v = found.recovered volume chosen
        (max (found.usableWatermark volume) found.durabilityWatermark) := by
  rw [recover] at h
  split at h
  · cases h
  rename_i chosen hchosen
  split at h
  · cases h
  rename_i hwatermark
  dsimp only at h
  split at h
  · cases h
  cases h
  exact ⟨chosen, hchosen, not_lt.mp hwatermark, rfl⟩

end ScanFound

omit [Platform] in
theorem recoveryVerdict_eq_resume {record : JournalRecord} {watermark : UInt64} {epoch : Epoch}
    {vmstate : UInt64} (h : recoveryVerdict record watermark = .resume epoch vmstate) :
    ∃ length, record.kind = .checkpoint epoch vmstate length := by
  rw [recoveryVerdict] at h
  split at h
  · cases h
  · rename_i length hkind
    split at h
    · cases h
      exact ⟨length, hkind⟩
    · cases h

namespace VolumeBlobs

variable {blobs : VolumeBlobs} {mode : ScanMode} {volume : VolumeId} {found : ScanFound}

theorem scan_eq_some (h : blobs.scan mode volume = some found) :
    found.records = (blobs.decoded volume).map Prod.fst ∧
    found.blxRefs = (blobs.readable mode volume).map fun _ found => found.1 := by
  simp only [scan, bind_eq_some, pure_eq_some] at h
  obtain ⟨_, -, _, -, rfl⟩ := h
  exact ⟨rfl, rfl⟩

/-- **The files of a usable record are there**, or at the source of a migration. -/
theorem hasFile_of_usable (h : blobs.scan mode volume = some found) {record : JournalRecord}
    (husable : found.recordUsable volume record = true) {file : ObjectRef}
    (hfile : file ∈ record.files) : blobs.HasFile mode volume file ∨
      (record.migratedFrom.isSome = true ∧ file.identity.writerFence < record.fence) := by
  have hne : record.files.isEmpty = false := by
    cases hfiles : record.files with
    | nil =>
      rw [hfiles] at hfile
      cases hfile
    | cons => rfl
  rw [Found.recordUsable, hne] at husable
  have hone := List.all_eq_true.mp husable file hfile
  simp only [Bool.and_eq_true, Bool.or_eq_true, decide_eq_true_eq] at hone
  obtain ⟨hown, href | hsource⟩ := hone
  · left
    cases hget : found.blxRefs[file.identity]? with
    | none =>
      rw [hget] at href
      cases href
    | some ref =>
      rw [hget, Option.any_some, Bool.or_eq_true, Bool.and_eq_true, beq_iff_eq, beq_iff_eq,
        beq_iff_eq] at href
      rw [(scan_eq_some h).2, ExtTreeMap.getElem?_map, Option.map_eq_some_iff] at hget
      obtain ⟨blx, hblx, rfl⟩ := hget
      obtain ⟨fence, object, bytes, hid, hbytes, hread⟩ := of_getElem?_readable hblx
      have hsame : blx.1.unchecked = file.unchecked := by
        rcases href with heq | ⟨-, heq⟩
        · rw [heq]
        · rw [heq]
          rfl
      refine ⟨hown, bytes, blx, ?_, ?_, hsame⟩
      · rw [hid]
        exact hbytes
      · rw [hid]
        exact hread
  · exact .inr hsource

/-- **What recovery installs is restored from the disk.** -/
theorem restores_of_recover (h : blobs.scan mode volume = some found) {v : ServedVolume}
    (hv : found.recover volume = .installed v) : ∃ record, blobs.Restores mode volume v record := by
  obtain ⟨chosen, hchosen, hwatermark, rfl⟩ := ScanFound.recover_eq_installed hv
  obtain ⟨hmem, -⟩ := Newest.pick_eq_some hchosen
  obtain ⟨hfound, husable⟩ := List.mem_filter.mp hmem
  rw [(scan_eq_some h).1] at hfound
  refine ⟨chosen, ScanFound.bestRecord_recovered, mem_decoded.mp hfound, fun record hrecord hcovers =>
    le_trans ?_ hwatermark, fun file hfile => hasFile_of_usable h husable hfile,
    fun epoch vmstate hresume => ?_⟩
  · refine Found.le_greatest (List.mem_map.mpr ⟨record, List.mem_filter.mpr ⟨?_, ?_⟩, rfl⟩)
    · rw [(scan_eq_some h).1]
      exact mem_decoded.mpr hrecord
    · exact decide_eq_true hcovers
  · rw [ScanFound.recovery_recovered] at hresume
    split at hresume
    · cases hresume
    · exact recoveryVerdict_eq_resume (Option.some.inj hresume)

end VolumeBlobs

/-! ## Whole hosts -/

namespace HostDisk

variable {disk : HostDisk} {mode : ScanMode} {r : HostRecovery}

/-- What one volume adds, and that the other volumes and the disk are left alone. -/
theorem recoverVolume_eq_some {r' : HostRecovery} {volume : VolumeId} {blobs : VolumeBlobs}
    (h : recoverVolume mode r (volume, blobs) = some r') :
    ∃ found, blobs.scan mode volume = some found ∧ r'.disk = r.disk ∧
      r'.replicas = r.replicas ∧
      (∀ other, other ≠ volume → r'.volumes[other]? = r.volumes[other]? ∧
        r'.verdicts[other]? = r.verdicts[other]?) ∧
      (r.volumes[volume]? = none → r.verdicts[volume]? = none →
        match found.recover volume with
        | .unrestorable => r'.volumes[volume]? = none ∧ r'.verdicts[volume]? = some .unrestorable
        | .installed v => r'.volumes[volume]? = some v ∧ r'.verdicts[volume]? = none) := by
  simp only [recoverVolume, bind_eq_some] at h
  obtain ⟨found, hfound, h⟩ := h
  refine ⟨found, hfound, ?_⟩
  cases hrecover : found.recover volume with
  | unrestorable =>
    rw [hrecover] at h
    cases h
    refine ⟨rfl, rfl, fun other hne => ⟨rfl, ?_⟩, fun hv _ => ⟨hv, ExtTreeMap.getElem?_insert_self⟩⟩
    rw [Maps.getElem?_insert, if_neg hne.symm]
  | installed v =>
    rw [hrecover] at h
    cases h
    refine ⟨rfl, rfl, fun other hne => ⟨?_, rfl⟩, fun _ hv => ⟨ExtTreeMap.getElem?_insert_self, hv⟩⟩
    rw [Maps.getElem?_insert, if_neg hne.symm]

/-- The result for one volume of a host. -/
def VolumeRecovered (mode : ScanMode) (r : HostRecovery) (volume : VolumeId) (blobs : VolumeBlobs) :
    Prop :=
  (∃ v record, r.volumes[volume]? = some v ∧ r.verdicts[volume]? = none ∧
    blobs.Restores mode volume v record) ∨
  (r.volumes[volume]? = none ∧ r.verdicts[volume]? = some .unrestorable)

/-- All volumes of a list, none of which had a result before. -/
theorem of_foldlM_recoverVolume {entries : List (VolumeId × VolumeBlobs)} {r' : HostRecovery}
    (hsorted : entries.Pairwise fun p q => p.1 < q.1)
    (hnew : ∀ e ∈ entries, r.volumes[e.1]? = none ∧ r.verdicts[e.1]? = none)
    (h : entries.foldlM (recoverVolume mode) r = some r') :
    r'.disk = r.disk ∧ (∀ other, (∀ e ∈ entries, e.1 ≠ other) →
      r'.volumes[other]? = r.volumes[other]? ∧ r'.verdicts[other]? = r.verdicts[other]?) ∧
    ∀ e ∈ entries, VolumeRecovered mode r' e.1 e.2 := by
  induction entries generalizing r with
  | nil =>
    cases h
    exact ⟨rfl, fun _ _ => ⟨rfl, rfl⟩, by simp⟩
  | cons e entries ih =>
    obtain ⟨volume, blobs⟩ := e
    rw [List.foldlM_cons, bind_eq_some] at h
    obtain ⟨mid, hmid, hrest⟩ := h
    obtain ⟨found, hscan, hdisk, -, hothers, hself⟩ := recoverVolume_eq_some hmid
    obtain ⟨hlt, hsorted⟩ := List.pairwise_cons.mp hsorted
    have hnew' : ∀ e ∈ entries, mid.volumes[e.1]? = none ∧ mid.verdicts[e.1]? = none := by
      intro e he
      obtain ⟨hv, hr⟩ := hothers e.1 (hlt e he).ne'
      rw [hv, hr]
      exact hnew e (List.mem_cons_of_mem _ he)
    obtain ⟨hdisk', hkeep, hall⟩ := ih hsorted hnew' hrest
    refine ⟨hdisk'.trans hdisk, fun other hother => ?_, fun e he => ?_⟩
    · obtain ⟨hv, hr⟩ := hkeep other fun e he => hother e (List.mem_cons_of_mem _ he)
      obtain ⟨hv', hr'⟩ := hothers other (hother _ List.mem_cons_self).symm
      exact ⟨hv.trans hv', hr.trans hr'⟩
    · rcases List.mem_cons.mp he with rfl | he
      · obtain ⟨hv, hr⟩ := hkeep volume fun e he => (hlt e he).ne'
        obtain ⟨hnone, hnone'⟩ := hnew _ List.mem_cons_self
        have hone := hself hnone hnone'
        cases hrecover : found.recover volume with
        | unrestorable =>
          rw [hrecover] at hone
          exact .inr ⟨hv.trans hone.1, hr.trans hone.2⟩
        | installed v =>
          rw [hrecover] at hone
          obtain ⟨record, hrestores⟩ := VolumeBlobs.restores_of_recover hscan hrecover
          exact .inl ⟨v, record, hv.trans hone.1, hr.trans hone.2, hrestores⟩
      · exact hall e he

end HostDisk

/-- A spool keeps its generations: only bytes at the end of the newest one may go. -/
theorem contains_recoverReplicaBlobs (key : ReplicaKey) (spool : ExtTreeMap Nat Bytes)
    (generation : Nat) : (recoverReplicaBlobs key spool).spool.contains generation =
      spool.contains generation := by
  rw [recoverReplicaBlobs]
  split
  · rfl
  rename_i current file hlast
  split
  · rfl
  split
  · split
    · rfl
    split
    · rfl
    · have hmem := List.mem_of_getLast? hlast
      rw [ExtTreeMap.mem_toList_iff_getElem?_eq_some] at hmem
      rw [ExtTreeMap.contains_eq_isSome_getElem?, Maps.getElem?_insert,
        ExtTreeMap.contains_eq_isSome_getElem?]
      split
      · rename_i heq
        rw [← heq, hmem]
        rfl
      · rfl
  · rfl

/-- **Recovery does not roll back a sync.**  Of every volume on the disk, either a record is installed
that captured every sync that a readable record covers, with all files that it needs, and is resumed
only if it is a checkpoint; or the volume is reported as unrestorable.  No blob is deleted. -/
theorem recovery_watermark (disk : HostDisk) (mode : ScanMode) {r : HostRecovery}
    (h : disk.recoverLocal mode = some r) :
    (∀ volume blobs, disk.volumes[volume]? = some blobs →
      HostDisk.VolumeRecovered mode r volume blobs) ∧
    r.disk.volumes = disk.volumes ∧
    ∀ key generation, (r.disk.spools key).contains generation =
      (disk.spools key).contains generation := by
  obtain ⟨hdisk, -, hall⟩ := HostDisk.of_foldlM_recoverVolume (Maps.pairwise_toList disk.volumes)
    (by simp) h
  refine ⟨fun volume blobs hget => hall (volume, blobs)
    (ExtTreeMap.mem_toList_iff_getElem?_eq_some.mpr hget), ?_, fun key generation => ?_⟩
  · rw [hdisk]
  · rw [hdisk]
    exact contains_recoverReplicaBlobs key (disk.spools key) generation

/-- A record of the fence that has captured so much. -/
def tenureRecord (fence : UInt64) (seq : JournalSeq) (captureSeq : UInt64) : JournalRecord :=
  { initialRecord ⟨.data, 1⟩ fence with seq, captureSeq, postStateChecksum := 1 }

/-- The records on a disk, each in one copy, and no files. -/
def tenures (records : List JournalRecord) : VolumeBlobs :=
  letI := storedPlatform
  { journals := records.foldl (fun journals record => journals.insert
      (toLex (record.fence, toLex (record.seq, false))) ((record.encode 7).getD [])) ∅
    blx := ∅
    handoff := none }

/-- A record that covers two syncs, and a newer one whose file is missing. -/
def syncedTenure : VolumeBlobs :=
  tenures [tenureRecord 1 0 0, { tenureRecord 1 1 2 with syncCoveredThrough := 2 },
    { tenureRecord 1 2 3 with
      syncCoveredThrough := 2
      files := [⟨.volume 7 1 0, 2, 2, 2, 0, 1, ⟨.data, 0⟩, ⟨.data, 0⟩, 1, 1, 100, 50, 10, 0⟩] }]

omit [Platform] in
set_option maxRecDepth 20000 in
/-- The newest record is passed over, and the one before it is not below the watermark. -/
theorem recovery_watermark_missing :
    letI := storedPlatform
    ∃ (r : HostRecovery) (v : ServedVolume) (record : JournalRecord),
      (HostDisk.mk ((∅ : ExtTreeMap VolumeId VolumeBlobs).insert 7 syncedTenure)
        fun _ => ∅).recoverLocal .lengths = some r ∧
      HostDisk.VolumeRecovered .lengths r 7 syncedTenure ∧
      r.volumes[(7 : VolumeId)]? = some v ∧ v.bestRecord = some record ∧ record.seq = 1 ∧
      v.localCoveredThrough = 2 ∧ (syncedTenure.decoded 7).length = 3 := by
  have hevaluated : letI := storedPlatform
      ((HostDisk.mk ((∅ : ExtTreeMap VolumeId VolumeBlobs).insert 7 syncedTenure)
        fun _ => ∅).recoverLocal .lengths).any (fun r => r.volumes[(7 : VolumeId)]?.any fun v =>
          v.bestRecord.any fun record => record.seq = 1 ∧ v.localCoveredThrough = 2 ∧
            (syncedTenure.decoded 7).length = 3) = true := by
    decide +kernel
  let _ := storedPlatform
  obtain ⟨r, hr, hvolume⟩ := (Option.any_eq_true _ _).mp hevaluated
  obtain ⟨v, hv, hbest⟩ := (Option.any_eq_true _ _).mp hvolume
  obtain ⟨record, hrecord, hchecks⟩ := (Option.any_eq_true _ _).mp hbest
  exact ⟨r, v, record, hr, (recovery_watermark _ .lengths hr).1 7 syncedTenure
    ExtTreeMap.getElem?_insert_self, hv, hrecord, of_decide_eq_true hchecks⟩

end Blockd
