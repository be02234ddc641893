import Blockd.Blx.Lookup
import Blockd.Blx.Read
import Blockd.Engine.Capture
import Blockd.Lib.Newest
import Blockd.Manifest.Archive

/-!
# A volume over its archive

A volume that is attached to an archive is served from three places: what it has written itself is
at the places `page_locs` says, what it has not written is looked up in the archive's objects when it
is first needed, and what nobody has written is zero.

* `ServedVolume` — the volume state with what it knows about its archive and its head;
* `resolveArchiveMapping` — the lookup (`fault.rs`): of the objects whose key range covers the page,
  the footers are fetched, and the entry with the greatest generation wins;
* `fetchPage`, `readPage` — the bytes a guest gets for a page it has not touched;
* `loadVmstate` — the vmstate of a whole archive (`restore.rs`).

Pages are read from the local disk or from the object store.  The two peers that may hold a page,
the source of a migration and the passive, are further places to read the same entry from, and are
left out.
-/

set_option autoImplicit false

open Codec
open Std (ExtTreeMap ExtTreeSet)

namespace Blockd

/-- What a recovered volume starts with (`protocol.rs`). -/
inductive Verdict where
  /-- The newest usable point is a whole checkpoint. -/
  | resume (epoch : Epoch) (vmstate : UInt64)
  /-- Only the disk is usable: the machine boots fresh. -/
  | coldBoot
  | unrestorable
  deriving DecidableEq, Repr

/-- The BLX objects of the object store, under the identities their names are made of. -/
abbrev ObjectStore := ObjectIdentity → Option Bytes

variable [Platform]

/-- Does the object's range of keys cover the key? -/
def ObjectRef.covers (object : ObjectRef) (key : BlockKey) : Bool :=
  decide (object.firstKey ≤ key) && decide (key ≤ object.lastKey)

/-- A volume and what it knows about its archive and its head. -/
structure ServedVolume extends VolumeState where
  /-- Faults are served only once the volume is ready. -/
  ready : Bool
  headVersion : Option UInt64
  /-- The manifest the head names, as far as this host knows. -/
  backed : Option ManifestPtr
  archiveBase : Option BaseRef
  /-- The objects of the archive, the base's among them. -/
  archiveObjects : List ObjectRef
  /-- The footers fetched so far. -/
  archiveFooters : ExtTreeMap ObjectIdentity BlxFooter
  archiveResolvedPages : ExtTreeSet PageId
  /-- Have the archive's memory and VMM blocks been taken out of the running checksum? -/
  archivedNonDataReset : Bool
  /-- The host the volume was handed to. -/
  outbound : Option HostId
  stashAssignment : Option StashAssignment
  retiredStashes : List RetiredStash
  /-- The verdict of a recovery that the head has not confirmed yet. -/
  recovery : Option Verdict

namespace ServedVolume

/-- `VolumeState::fresh`. -/
def fresh (config : VolumeConfig) : ServedVolume :=
  { VolumeState.fresh config 1 with
    ready := false
    headVersion := none
    backed := none
    archiveBase := none
    archiveObjects := []
    archiveFooters := ∅
    archiveResolvedPages := ∅
    archivedNonDataReset := true
    outbound := none
    stashAssignment := none
    retiredStashes := []
    recovery := none }

/-- Attach the volume to an archive: its own objects there are backed. -/
def installArchiveClosure (v : ServedVolume) (volume : VolumeId) (objects : List ObjectRef)
    (base : Option BaseRef) : ServedVolume :=
  { v with
    archiveObjects := objects
    archiveBase := base
    archiveFooters := ∅
    archiveResolvedPages := ∅
    backedBlxFiles := ((objects.map ObjectRef.identity).filter fun identity =>
      identity.namespaceKind = .volume ∧ identity.namespaceId = volume).toFinset }

end ServedVolume

/-! ## Looking a key up in an archive -/

/-- Fetch the footer of an object and check it against the object's reference. -/
def fetchFooter (store : ObjectStore) (object : ObjectRef) : Option BlxFooter := do
  let bytes ← store object.identity
  let footer ← BlxFooter.open (slice bytes object.footerOffset.toNat
    (object.footerOffset.toNat + object.footerLength.toNat))
  ensure (footer.entries.head?.map FooterEntry.key = some object.firstKey ∧
    footer.entries.getLast?.map FooterEntry.key = some object.lastKey ∧
    ∀ entry ∈ footer.entries,
      entry.offset.toNat + entry.length.toNat ≤ object.footerOffset.toNat)
  return footer

/-- The footers of the objects that may have the key, fetched where they are not known yet. -/
def fetchFooters (store : ObjectStore) (key : BlockKey) (objects : List ObjectRef)
    (footers : ExtTreeMap ObjectIdentity BlxFooter) :
    Option (ExtTreeMap ObjectIdentity BlxFooter) :=
  (objects.filter fun object => object.covers key).foldlM
    (fun footers object =>
      if footers.contains object.identity then some footers
      else (fetchFooter store object).map fun footer => footers.insert object.identity footer)
    footers

/-- Every entry the archive has for the key. -/
def archiveEntries (footers : ExtTreeMap ObjectIdentity BlxFooter) (key : BlockKey)
    (objects : List ObjectRef) : List (FooterEntry × ObjectRef) :=
  (objects.filter fun object => object.covers key).filterMap fun object =>
    (footers[object.identity]?.bind fun footer => footer.find key).map fun entry => (entry, object)

def ObjectIdentity.isOwn (identity : ObjectIdentity) (volume : VolumeId) : Bool :=
  decide (identity.namespaceKind = .volume ∧ identity.namespaceId = volume)

/-- Which entry is newer: by generation, then the volume's own, then by identity. -/
def archiveRank (volume : VolumeId) (found : FooterEntry × ObjectRef) :
    Gen ×ₗ Bool ×ₗ ObjectIdentity :=
  toLex (found.1.generation, toLex (found.2.identity.isOwn volume, found.2.identity))

/-- The entry that serves the key. -/
def archiveWinner (volume : VolumeId) (footers : ExtTreeMap ObjectIdentity BlxFooter)
    (key : BlockKey) (objects : List ObjectRef) : Option (FooterEntry × ObjectRef) :=
  Newest.pickFirst (archiveRank volume) (archiveEntries footers key objects)

/-- Where the bytes of an archived entry are. -/
def archiveLocation (volume : VolumeId) (found : FooterEntry × ObjectRef) : PageFileLoc where
  base := if found.2.identity.isOwn volume then 0 else found.2.identity.namespaceId
  fence := found.2.identity.writerFence
  object := found.2.identity.objectId
  offset := found.1.offset
  len := found.1.length

/-- The generation after this one, saturating. -/
def nextGeneration (generation : Gen) : Gen := UInt64.ofNat (min (generation.toNat + 1) (2 ^ 64 - 1))

namespace ServedVolume

/-- What the lookup leaves in the volume state for a key that was found. -/
def noteArchived (v : ServedVolume) (page : PageId) (found : FooterEntry × ObjectRef) :
    ServedVolume :=
  let key := BlockKey.fromPage v.config.kind page
  let v := { v with nextGen := max v.nextGen (nextGeneration found.1.generation) }
  match found.1.kind with
  | .data =>
    { v with
      blockChecksums := v.blockChecksums.insert key (found.1.generation, found.1.valueChecksum)
      pageLocs := v.pageLocs.insert page
        (found.1.generation, archiveLocation page.volume found) }
  | .tombstone =>
    { v with
      blockChecksums := v.blockChecksums.erase key
      pageLocs := v.pageLocs.erase page }

/-- Look a page up in the archive, once.  A fault fails if a footer cannot be read. -/
def resolveArchiveMapping (v : ServedVolume) (store : ObjectStore) (page : PageId) :
    Option ServedVolume :=
  if v.pageLocs.contains page || v.archiveResolvedPages.contains page then some v
  else if !v.archivedMemoryUsable && v.config.isMemory then
    some { v with archiveResolvedPages := v.archiveResolvedPages.insert page }
  else do
    let key := BlockKey.fromPage v.config.kind page
    let footers ← fetchFooters store key v.archiveObjects v.archiveFooters
    let v := { v with
      archiveFooters := footers
      archiveResolvedPages := v.archiveResolvedPages.insert page }
    match archiveWinner page.volume footers key v.archiveObjects with
    | none => return v
    | some found => return v.noteArchived page found

end ServedVolume

/-! ## Reading a page -/

/-- Are these the bytes of an entry of the page, of the generation looked for? -/
def verifyEntry (page : PageId) (generation : Gen) (bytes : Bytes) : Option Bytes := do
  let (found, foundGeneration, raw) ← openEntry page.volume bytes
  ensure (found = page ∧ foundGeneration = generation)
  return raw

/-- Does the object hold the location? -/
def PageFileLoc.isIn (loc : PageFileLoc) (volume : VolumeId) (identity : ObjectIdentity) : Bool :=
  identity.writerFence == loc.fence && identity.objectId == loc.object &&
    if loc.base = 0 then identity.isOwn volume else identity.namespaceId == loc.base

/-- The name under which the store has the object of a location. -/
def PageFileLoc.storeIdentity (loc : PageFileLoc) (volume : VolumeId) (objects : List ObjectRef) :
    ObjectIdentity :=
  match objects.find? fun object => loc.isIn volume object.identity with
  | some object => object.identity
  | none =>
    ObjectIdentity.volume (if loc.base = 0 then volume else loc.base) loc.fence loc.object

def PageFileLoc.range (loc : PageFileLoc) (bytes : Bytes) : Bytes :=
  slice bytes loc.offset.toNat (loc.offset.toNat + loc.len.toNat)

/-- Read a located page from the local disk, or else from the store. -/
def fetchPage (disk : Disk) (store : ObjectStore) (objects : List ObjectRef) (page : PageId)
    (located : Gen × PageFileLoc) : Option Bytes :=
  let localBytes := disk.blx[located.2.identity page.volume]?.bind fun blob =>
    verifyEntry page located.1 (located.2.range blob.bytes)
  localBytes <|>
    (store (located.2.storeIdentity page.volume objects)).bind fun bytes =>
      verifyEntry page located.1 (located.2.range bytes)

def zeroPage : Bytes := List.replicate pageSize 0

/-- What a guest reads in a page that is not resident.  A page without a location is zero. -/
def ServedVolume.readPage (v : ServedVolume) (disk : Disk) (store : ObjectStore) (page : PageId) :
    Option Bytes := do
  let v ← v.resolveArchiveMapping store page
  match v.pageLocs[page]? with
  | none => return zeroPage
  | some located => fetchPage disk store v.archiveObjects page located

/-- What an archive has for a page: the newest entry of its objects, read from the store. -/
def readArchive (kind : VolumeKind) (store : ObjectStore) (objects : List ObjectRef)
    (page : PageId) : Option Bytes := do
  let key := BlockKey.fromPage kind page
  let footers ← fetchFooters store key objects ∅
  match archiveWinner page.volume footers key objects with
  | none => return zeroPage
  | some found =>
    match found.1.kind with
    | .tombstone => return zeroPage
    | .data =>
      let location := archiveLocation page.volume found
      let bytes ← store (location.storeIdentity page.volume objects)
      verifyEntry page found.1.generation (location.range bytes)

/-! ## The vmstate of an archive -/

/-- One block of the vmstate: the newest entry any object has for it. -/
def loadVmmBlock (store : ObjectStore) (objects : List ObjectRef) (block : UInt32) :
    Option (Gen × Bytes) := do
  let key : BlockKey := ⟨.vmm, block⟩
  let found ← (objects.filter fun object => object.covers key).mapM fun object => do
    let bytes ← store object.identity
    let footer ← BlxFooter.open (slice bytes object.footerOffset.toNat
      (object.footerOffset.toNat + object.footerLength.toNat))
    return (footer.find key).map fun entry => (entry, object)
  let (indexed, object) ← Newest.pickFirst
    (fun found : FooterEntry × ObjectRef =>
      (toLex (found.1.generation, found.2.identity) : Gen ×ₗ ObjectIdentity)) found.reduceOption
  ensure (indexed.kind = .data)
  let bytes ← store object.identity
  match ← BlxEntry.open (slice bytes indexed.offset.toNat
    (indexed.offset.toNat + indexed.length.toNat)) with
  | .tombstone .. => none
  | .data found generation bytes =>
    ensure (found = key ∧ generation = indexed.generation ∧
      checksum64 bytes = indexed.valueChecksum)
    return (generation, bytes)

/-- The vmstate bytes of an archive (`load_vmstate`). -/
def loadVmstate (store : ObjectStore) (objects : List ObjectRef) (logicalLength : UInt64) :
    Option Bytes := do
  let count := (logicalLength.toNat + pageSize - 1) / pageSize
  ensure (count ≤ 2 ^ 32)
  let blocks ← (List.range count).mapM fun block =>
    loadVmmBlock store objects (UInt32.ofNat block)
  return (blocks.flatMap Prod.snd).take logicalLength.toNat

/-! ## Volumes with nothing of their own -/

namespace ServedVolume

variable {v : ServedVolume} {disk : Disk} {store : ObjectStore} {page : PageId}

/-- **A volume that has nothing of its own reads what its archive has.** -/
theorem readPage_of_unwritten (hlocs : v.pageLocs = ∅) (hresolved : v.archiveResolvedPages = ∅)
    (hfooters : v.archiveFooters = ∅)
    (husable : v.archivedMemoryUsable = true ∨ v.config.kind = .data) (hdisk : disk.blx = ∅) :
    v.readPage disk store page =
      readArchive v.config.kind store v.archiveObjects page := by
  have hcold : (!v.archivedMemoryUsable && v.config.isMemory) = false := by
    rcases husable with h | h <;> simp [h, VolumeConfig.isMemory]
  have hfetch : ∀ located, fetchPage disk store v.archiveObjects page located =
      (store (located.2.storeIdentity page.volume v.archiveObjects)).bind fun bytes =>
        verifyEntry page located.1 (located.2.range bytes) := by
    intro located
    simp [fetchPage, hdisk]
  simp only [readPage, resolveArchiveMapping, readArchive, hlocs, hresolved, hcold, hfooters,
    ExtTreeMap.contains_empty, ExtTreeSet.contains_empty, Bool.or_false, Bool.false_eq_true,
    if_false, Option.bind_eq_bind, Option.bind_assoc]
  refine congrArg _ (funext fun footers => ?_)
  cases hwin : archiveWinner page.volume footers (BlockKey.fromPage v.config.kind page)
      v.archiveObjects with
  | none => simp [hlocs]
  | some found =>
    cases hkind : found.1.kind with
    | data => simp [noteArchived, hkind, hfetch]
    | tombstone => simp [noteArchived, hkind, hlocs]

end ServedVolume

/-! ## Archives with one file -/

omit [Platform] in
theorem BlockKey.toPageId_fromPage (kind : VolumeKind) (page : PageId) :
    (BlockKey.fromPage kind page).toPageId page.volume = some page := by
  cases kind <;> rfl

/-- An object that opens has the footer its reference says. -/
theorem fetchFooter_fromBlx {store : ObjectStore} {o : BlxObject} (ho : o.Opened)
    (hstore : store (ObjectRef.fromBlx o).identity = some o.bytes) :
    fetchFooter store (ObjectRef.fromBlx o) = some o.footer := by
  have hends : ∀ f ∈ o.footer.entries, f.offset.toNat + f.length.toNat ≤ o.footerOffset.toNat :=
    fun f hf => (ho.entries f hf).1
  rw [fetchFooter, hstore, some_bind]
  simp only [ObjectRef.fromBlx, ho.footer, ho.first, ho.last, some_bind, true_and]
  rw [ensure, if_pos hends]
  rfl

/-- **An archive with one file, which has the page, reads the page from it.** -/
theorem readArchive_single {kind : VolumeKind} {store : ObjectStore} {page : PageId}
    {batch : BatchMeta} {objectId : UInt64} {generation : Gen} {block : Bytes} {layout : Layout}
    (hfile : BlxObject.SingleFile batch objectId
      (.data (BlockKey.fromPage kind page) generation block) layout)
    (hstore : store ⟨batch.namespaceKind, batch.namespaceId, batch.writerFence, objectId⟩ =
      some layout.bytes)
    (hspace : batch.namespaceId ≠ 0) :
    readArchive kind store [ObjectRef.fromBlx (BlxObject.single batch objectId 0 1
      (.data (BlockKey.fromPage kind page) generation block) layout)] page = some block := by
  set o := BlxObject.single batch objectId 0 1
    (.data (BlockKey.fromPage kind page) generation block) layout with ho
  have hfetch : fetchFooter store (ObjectRef.fromBlx o) = some o.footer :=
    fetchFooter_fromBlx (BlxObject.opened_of_open hfile.opens) hstore
  have hcovers : (ObjectRef.fromBlx o).covers (BlockKey.fromPage kind page) = true := by
    simp [ObjectRef.covers, ObjectRef.fromBlx, ho, BlxObject.single, BatchMeta.header, BlxEntry.key]
  have hfooters : fetchFooters store (BlockKey.fromPage kind page) [ObjectRef.fromBlx o] ∅ =
      some ((∅ : ExtTreeMap ObjectIdentity BlxFooter).insert (ObjectRef.fromBlx o).identity
        o.footer) := by
    simp [fetchFooters, hcovers, hfetch]
  set f : FooterEntry := ⟨BlockKey.fromPage kind page, layout.offset, layout.length, generation,
    .data, checksum64 block⟩ with hf
  have hfind : o.footer.find (BlockKey.fromPage kind page) = some f := by
    rw [BlxFooter.find_eq_some (by simp [ho, BlxObject.single])]
    simp [ho, hf, BlxObject.single, BlxEntry.key, BlxEntry.generation, BlxEntry.kind,
      BlxEntry.valueChecksum]
  have hwinner : archiveWinner page.volume ((∅ : ExtTreeMap ObjectIdentity BlxFooter).insert
      (ObjectRef.fromBlx o).identity o.footer) (BlockKey.fromPage kind page)
      [ObjectRef.fromBlx o] = some (f, ObjectRef.fromBlx o) := by
    simp [archiveWinner, archiveEntries, hcovers, hfind, Newest.pickFirst, Newest.stricter]
  have hname : (archiveLocation page.volume (f, ObjectRef.fromBlx o)).storeIdentity page.volume
      [ObjectRef.fromBlx o] = (ObjectRef.fromBlx o).identity := by
    have hin : (archiveLocation page.volume (f, ObjectRef.fromBlx o)).isIn page.volume
        (ObjectRef.fromBlx o).identity = true := by
      by_cases hown : (ObjectRef.fromBlx o).identity.isOwn page.volume = true
      · simp [PageFileLoc.isIn, archiveLocation, hown]
      · have hid : (ObjectRef.fromBlx o).identity.namespaceId ≠ 0 := hspace
        simp [PageFileLoc.isIn, archiveLocation, hown, hid]
    simp [PageFileLoc.storeIdentity, hin]
  have hverify : verifyEntry page generation ((archiveLocation page.volume
      (f, ObjectRef.fromBlx o)).range layout.bytes) = some block := by
    have hentry : openEntry page.volume ((archiveLocation page.volume
        (f, ObjectRef.fromBlx o)).range layout.bytes) = some (page, generation, block) := by
      simp only [openEntry, PageFileLoc.range, archiveLocation, hf, hfile.stored,
        BlockKey.toPageId_fromPage, some_bind, Option.pure_def]
    simp [verifyEntry, hentry]
  have hbytes : store (ObjectRef.fromBlx o).identity = some layout.bytes := hstore
  simp only [readArchive, hfooters, hwinner, hname, hbytes, some_bind]
  exact hverify

end Blockd
