import Blockd.Engine.PublishSpec
import Blockd.Manifest.Canonical

/-!
# The changes a publication writes down

A manifest does not name all files of the archive: it names the last complete list, and what was
added and removed since.  `prepare_archive` computes these changes from the list of the previous
archive and the new files, and `bound_manifest` falls back on a new complete list when they have
grown too long.  Here this is shown to work for every previous archive and every set of files
(`publication_delta`): the manifest can be written, is small enough, and reads back to the files.

Three things are asked of the input, beside that it is valid.  The record must not claim syncs
beyond its own capture, the files must be few enough for a complete list, and a file must be the
same one in the list and among the new files (`SameFiles`): the changes are found by identities
alone, and what is added has to consist of whole batches.
-/

set_option autoImplicit false

open Codec
open Std (ExtTreeMap)

namespace Blockd

/-! ## Applying changes -/

section

variable {m : ExtTreeMap ObjectIdentity ObjectRef}

theorem exists_foldlM_erase {removed : List ObjectIdentity} (hnodup : removed.Nodup)
    (hthere : ∀ i ∈ removed, m.contains i = true) :
    ∃ kept, removed.foldlM (fun files identity =>
      if files.contains identity then some (files.erase identity) else none) m = some kept := by
  induction removed generalizing m with
  | nil => exact ⟨m, rfl⟩
  | cons i removed ih =>
    obtain ⟨hi, hnodup⟩ := List.nodup_cons.mp hnodup
    rw [List.foldlM_cons, if_pos (hthere i List.mem_cons_self)]
    refine ih hnodup fun j hj => ?_
    have hne : i ≠ j := fun h => hi (h ▸ hj)
    rw [ExtTreeMap.contains_eq_isSome_getElem?, Maps.getElem?_erase, if_neg hne,
      ← ExtTreeMap.contains_eq_isSome_getElem?]
    exact hthere j (List.mem_cons_of_mem _ hj)

theorem exists_foldlM_add {added : List ObjectRef} (hnodup : (added.map ObjectRef.identity).Nodup)
    (hfree : ∀ r ∈ added, m.contains r.identity = false) :
    ∃ all, added.foldlM (fun files object =>
      if files.contains object.identity then none
      else some (files.insert object.identity object)) m = some all := by
  induction added generalizing m with
  | nil => exact ⟨m, rfl⟩
  | cons a added ih =>
    rw [List.map_cons, List.nodup_cons] at hnodup
    obtain ⟨ha, hnodup⟩ := hnodup
    rw [List.foldlM_cons, if_neg (Bool.eq_false_iff.mp (hfree a List.mem_cons_self))]
    refine ih hnodup fun r hr => ?_
    have hne : a.identity ≠ r.identity := fun h => ha (h ▸ List.mem_map_of_mem hr)
    rw [ExtTreeMap.contains_eq_isSome_getElem?, Maps.getElem?_insert, if_neg hne,
      ← ExtTreeMap.contains_eq_isSome_getElem?]
    exact hfree r (List.mem_cons_of_mem _ hr)

end

/-- The files in the order of their identities. -/
def sortedFiles (files : List ObjectRef) : List ObjectRef := (fileMap files).toList.map Prod.snd

section

variable {files files' : List ObjectRef}

theorem mem_sortedFiles (hone : OneEach files) (r : ObjectRef) :
    r ∈ sortedFiles files ↔ r ∈ files := by
  simp only [sortedFiles, List.mem_map, Prod.exists, exists_eq_right,
    ExtTreeMap.mem_toList_iff_getElem?_eq_some, getElem?_fileMap_iff hone]
  exact ⟨fun ⟨_, hr, _⟩ => hr, fun hr => ⟨_, hr, rfl⟩⟩

theorem nodup_sortedFiles (files : List ObjectRef) :
    ((sortedFiles files).map ObjectRef.identity).Nodup := by
  have h := map_identity_toList files fun _ => true
  rw [List.filter_true] at h
  rw [sortedFiles, h]
  exact nodup_keys _

theorem perm_sortedFiles (hnodup : (files.map ObjectRef.identity).Nodup) (hone : OneEach files) :
    (sortedFiles files).Perm files :=
  (List.perm_ext_iff_of_nodup (nodup_sortedFiles files).of_map hnodup.of_map).mpr
    (mem_sortedFiles hone)

theorem oneEach_of_nodup (hnodup : (files.map ObjectRef.identity).Nodup) : OneEach files :=
  fun _ hr _ hq hid => List.inj_on_of_nodup_map hnodup hr hq hid

variable [Platform]

theorem validateObjectRefs_sortedFiles (hone : OneEach files) (hwf : ∀ f ∈ files, f.WellFormed)
    (hvalid : validateObjectRefs files = true) : validateObjectRefs (sortedFiles files) = true :=
  validateObjectRefs_of_closed hwf hvalid (fun r hr => (mem_sortedFiles hone r).mp hr)
    (nodup_sortedFiles files) fun _ _ p hp _ => (mem_sortedFiles hone p).mpr hp

/-- The manifest names the list and the changes that lead from it to the files. -/
structure LeadsTo (m : Manifest) (list : Option CompleteFileList) (files : List ObjectRef)
    (changes : FileChanges) : Prop where
  reference : m.completeList = list.bind CompleteFileList.reference
  listed : m.completeList.isSome = list.isSome
  delta : ChangesFrom ((list.map CompleteFileList.objects).getD []) files changes
  oneEach : OneEach ((list.map CompleteFileList.objects).getD [] ++ files)
  added : m.added = changes.added
  removed : m.removed = changes.removed

/-- **Changes that lead from the list to valid files are applied.** -/
theorem currentFiles_of_changes {m : Manifest} {list : Option CompleteFileList}
    {changes : FileChanges} (h : LeadsTo m list files changes)
    (hwf : ∀ r ∈ files, r.WellFormed) (hvalid : validateObjectRefs files = true)
    (hchain : validateFileStateChain ((m.base.map BaseRef.postStateChecksum).getD 0)
      m.postStateChecksum files = true) :
    m.currentFiles list = some (sortedFiles files) := by
  obtain ⟨href, hsome, hchanges, hone, hadded, hremoved⟩ := h
  set listed := (list.map CompleteFileList.objects).getD [] with hlisted
  have honeListed : OneEach listed := hone.mono fun q hq => List.mem_append_left _ hq
  have honeFiles : OneEach files := hone.mono fun q hq => List.mem_append_right _ hq
  obtain ⟨kept, hkept⟩ := exists_foldlM_erase (m := fileMap listed) hchanges.removedNodup
    fun i hi => (contains_fileMap_iff honeListed).mpr ((hchanges.removed i).mp hi).1
  have hfree : ∀ r ∈ changes.added, kept.contains r.identity = false := by
    intro r hr
    rw [← Bool.not_eq_true, ExtTreeMap.contains_eq_isSome_getElem?, Option.isSome_iff_exists]
    rintro ⟨q, hq⟩
    obtain ⟨hq, hid⟩ := of_getElem?_fileMap ((getElem?_foldlM_erase hkept).mp hq).1
    exact ((hchanges.added r).mp hr).2 ⟨q, hq, hid⟩
  obtain ⟨all, hall⟩ := exists_foldlM_add hchanges.addedNodup hfree
  have hsame : all = fileMap files := by
    refine ExtTreeMap.ext_getElem? fun i => Option.ext fun r => ?_
    rw [getElem?_foldlM_add hall, getElem?_foldlM_erase hkept, getElem?_fileMap_iff honeListed,
      getElem?_fileMap_iff honeFiles, ← hchanges.mem_iff hone r]
    constructor
    · rintro (⟨⟨hr, rfl⟩, hnot⟩ | ⟨hr, rfl⟩)
      · exact ⟨.inr ⟨hr, hnot⟩, rfl⟩
      · exact ⟨.inl hr, rfl⟩
    · rintro ⟨hr | ⟨hr, hnot⟩, rfl⟩
      · exact .inr ⟨hr, rfl⟩
      · exact .inl ⟨⟨hr, rfl⟩, hnot⟩
  have hmem := mem_sortedFiles honeFiles
  have hvalid' := validateObjectRefs_sortedFiles honeFiles hwf hvalid
  rw [← validateFileStateChain_congr hmem] at hchain
  rw [fileMap, hlisted] at hkept
  rw [hsame] at hall
  simp only [Manifest.currentFiles, hsome, ← href, hadded, hremoved, and_self, ensure_true,
    some_bind, hkept, hall]
  rw [← sortedFiles, hvalid', hchain]
  rfl

end

/-! ## Sizes -/

/-- As many files as a complete list can name: 109 bytes for each, and 50 for the rest. -/
def maxListedFiles : Nat := (maxMetadataObjectBytes - 50) / 109

section

variable [Platform]

theorem CompleteFileList.encode_isSome_iff (l : CompleteFileList) :
    l.encode.isSome = true ↔
      validateObjectRefs l.objects = true ∧ l.objects.length ≤ maxListedFiles := by
  have hlen : l.payload.length = 38 + 109 * l.objects.length := by
    simp only [payload, content, List.length_append, length_encU16, length_encU32, length_encU64,
      length_flatMap_of_length ObjectRef.length_encode]
    omega
  have hmax : maxListedFiles = 615677 := rfl
  have hbytes : maxMetadataObjectBytes = 67108864 := rfl
  rw [Option.isSome_iff_exists]
  simp only [encode_eq_some]
  constructor
  · rintro ⟨bytes, hvalid, -, hseal, hfits⟩
    rw [length_of_sealFrame hseal, hlen, frameHeader] at hfits
    exact ⟨hvalid, by omega⟩
  · rintro ⟨hvalid, hfew⟩
    obtain ⟨bytes, hseal⟩ := exists_sealFrame magicFileList l.payload (by omega)
    refine ⟨bytes, hvalid, by omega, hseal, ?_⟩
    rw [length_of_sealFrame hseal, hlen, frameHeader]
    omega

end

/-! ## The law -/

/-- A file of the list and a new one with the same name, or in the same place of a batch, are one. -/
def SameFiles (listed files : List ObjectRef) : Prop :=
  ∀ q ∈ listed, ∀ r ∈ files,
    q.identity = r.identity ∨ q.batchKey = r.batchKey ∧ q.chunkIndex = r.chunkIndex → q = r

instance (listed files : List ObjectRef) : Decidable (SameFiles listed files) :=
  inferInstanceAs (Decidable (∀ q ∈ listed, ∀ r ∈ files, _))

section

variable [Platform]

/-- The closure was read from a store. -/
def ManifestClosure.Decoded (volume : VolumeId) (closure : ManifestClosure) : Prop :=
  ∃ pointer bytes listBytes,
    ManifestClosure.decode volume pointer bytes listBytes = some closure

/-- The files are published: their manifest can be written and is small enough, with the changes to
the previous list or with a new one, and reads back to the files. -/
def PublishesFiles (volume : VolumeId) (snapshot : PublishSnapshot)
    (previous : Option ManifestClosure) (files : List ObjectRef) : Prop :=
  ∃ m newList bytes, archiveManifest volume snapshot previous files = some (m, newList) ∧
    m.encode = some bytes ∧ bytes.length ≤ maxManifestBytes ∧
    (∀ l ∈ newList, m.completeList = l.reference ∧ m.added = [] ∧ m.removed = []) ∧
    ∃ closure, ManifestClosure.decode volume (m.pointer bytes) bytes
        ((newList <|> previous.bind ManifestClosure.completeList).bind CompleteFileList.encode) =
          some closure ∧
      closure.manifest = m ∧ closure.files.Perm files

/-- The files are an archive of the snapshot's state. -/
structure ValidFiles (snapshot : PublishSnapshot) (files : List ObjectRef) : Prop where
  wellFormed : ∀ r ∈ files, r.WellFormed
  valid : validateObjectRefs files = true
  chain : validateFileStateChain snapshot.baseChecksum snapshot.record.postStateChecksum files = true

instance (snapshot : PublishSnapshot) (files : List ObjectRef) :
    Decidable (ValidFiles snapshot files) :=
  decidable_of_iff ((∀ r ∈ files, r.WellFormed) ∧ validateObjectRefs files = true ∧
      validateFileStateChain snapshot.baseChecksum snapshot.record.postStateChecksum files = true)
    ⟨fun ⟨hwf, hvalid, hchain⟩ => ⟨hwf, hvalid, hchain⟩, fun h => ⟨h.wellFormed, h.valid, h.chain⟩⟩

/-- A list that was read, or that has just been written. -/
structure CompleteFileList.Stored (volume : VolumeId) (l : CompleteFileList) : Prop where
  volume : l.volume = volume
  encodes : l.encode.isSome = true
  wellFormed : ∀ f ∈ l.objects, f.WellFormed

theorem CompleteFileList.Stored.valid {volume : VolumeId} {l : CompleteFileList}
    (h : l.Stored volume) : validateObjectRefs l.objects = true :=
  ((encode_isSome_iff l).mp h.encodes).1

theorem ManifestClosure.Decoded.list {volume : VolumeId} {closure : ManifestClosure}
    (h : closure.Decoded volume) :
    closure.manifest.completeList = closure.completeList.bind CompleteFileList.reference ∧
      closure.manifest.completeList.isSome = closure.completeList.isSome ∧
      ∀ l ∈ closure.completeList, l.Stored volume := by
  obtain ⟨pointer, bytes, listBytes, h⟩ := h
  simp only [decode, Option.bind_eq_bind, Option.bind_eq_some_iff, ensure_eq_some, exists_const,
    Option.pure_def] at h
  obtain ⟨-, m, -, -, h⟩ := h
  have hcurrent : ∀ {list : Option CompleteFileList} {files : List ObjectRef},
      m.currentFiles list = some files →
        m.completeList = list.bind CompleteFileList.reference ∧
          m.completeList.isSome = list.isSome := by
    intro list files hfiles
    simp only [Manifest.currentFiles, Option.bind_eq_bind, Option.bind_eq_some_iff,
      ensure_eq_some, exists_const] at hfiles
    exact hfiles.1
  split at h
  · rw [Option.bind_some] at h
    obtain ⟨files, hfiles, heq⟩ := bind_eq_some.mp h
    cases heq
    exact ⟨(hcurrent hfiles).1, (hcurrent hfiles).2, by simp⟩
  · obtain ⟨_, hlist, h⟩ := bind_eq_some.mp h
    obtain ⟨list, hread, rfl⟩ := Option.map_eq_some_iff.mp hlist
    obtain ⟨files, hfiles, heq⟩ := bind_eq_some.mp h
    cases heq
    refine ⟨(hcurrent hfiles).1, (hcurrent hfiles).2, fun l hl => ?_⟩
    cases hl
    obtain ⟨hencode, hvolume, -, hwf⟩ := CompleteFileList.decode_eq_some.mp hread
    exact ⟨hvolume, by rw [hencode]; rfl, hwf⟩
  · cases h

variable {volume : VolumeId} {snapshot : PublishSnapshot} {files : List ObjectRef}

variable {changes : FileChanges} {listed : List ObjectRef}

/-- The manifest and the list it names read back to the files. -/
theorem closure_of_changes {m : Manifest} {bytes : Bytes} {list : Option CompleteFileList}
    (hbytes : m.encode = some bytes) (hvolume : m.volume = volume) (hpages : m.config.pages ≠ 0)
    (hstored : ∀ l ∈ list, l.Stored volume)
    (hleads : LeadsTo m list files changes)
    (hfiles : ValidFiles snapshot files) (hbase : m.base = snapshot.base)
    (hpost : m.postStateChecksum = snapshot.record.postStateChecksum) :
    ManifestClosure.decode volume (m.pointer bytes) bytes (list.bind CompleteFileList.encode) =
      some ⟨m, list, sortedFiles files⟩ := by
  have hread := Manifest.decode_encode hbytes hpages fun f hf =>
    hfiles.wellFormed f ((hleads.delta.added f).mp (hleads.added ▸ hf)).1
  have hchain := hfiles.chain
  rw [PublishSnapshot.baseChecksum, ← hbase, ← hpost] at hchain
  have hcurrent := currentFiles_of_changes hleads hfiles.wellFormed hfiles.valid hchain
  have href := hleads.reference
  rw [hvolume] at hread
  match list with
  | none =>
    rw [Option.bind_none] at href
    simp only [ManifestClosure.decode, Manifest.pointer, hread, href, Option.bind_none, hcurrent,
      ensure_true, some_bind, Option.pure_def]
  | some l =>
    have hl := hstored l rfl
    obtain ⟨listBytes, hlist⟩ := Option.isSome_iff_exists.mp hl.encodes
    have href' : l.reference = some ⟨l.writerFence, l.listId, checksum64 listBytes⟩ := by
      rw [CompleteFileList.reference, hlist, Option.map_some]
    have hdecode := CompleteFileList.decode_encode hlist href' hl.wellFormed
    rw [hl.volume] at hdecode
    rw [Option.bind_some, href'] at href
    simp only [ManifestClosure.decode, Manifest.pointer, hread, href, Option.bind_some, hlist,
      hdecode, Option.map_some, hcurrent, ensure_true, Option.bind_eq_bind, Option.pure_def]

/-- What is added to a list of batches, to get another, consists of whole batches. -/
theorem validateObjectRefs_added (hchanges : ChangesFrom listed files changes)
    (hsame : SameFiles listed files) (hwfListed : ∀ r ∈ listed, r.WellFormed)
    (hlisted : validateObjectRefs listed = true) (hwf : ∀ r ∈ files, r.WellFormed)
    (hvalid : validateObjectRefs files = true) : validateObjectRefs changes.added = true := by
  have hbatches := ((validateObjectRefs_iff hwf).mp hvalid).1
  have hbatchesListed := ((validateObjectRefs_iff hwfListed).mp hlisted).1
  refine validateObjectRefs_of_closed hwf hvalid (fun r hr => ((hchanges.added r).mp hr).1)
    hchanges.addedNodup fun o ho p hp hkey => ?_
  obtain ⟨hof, hnot⟩ := (hchanges.added o).mp ho
  refine (hchanges.added p).mpr ⟨hp, ?_⟩
  -- if a chunk of the batch is listed, the list has all its chunks, and this one among them
  rintro ⟨q, hq, hid⟩
  obtain rfl := hsame q hq p hp (.inl hid)
  have hcount : q.chunkCount = o.chunkCount := congrArg Prod.fst (hbatches.fields q hp o hof hkey)
  have hindex : o.chunkIndex.toNat < q.chunkCount.toNat := by
    rw [hcount]
    exact UInt32.lt_iff_toNat_lt.mp (hwf o hof).2.2.1
  obtain ⟨chunk, hchunk, hchunkKey, hchunkIndex⟩ := hbatchesListed.complete q hq _ hindex
  have heq := hsame chunk hchunk o hof
    (.inr ⟨hchunkKey.trans hkey, UInt32.toNat_inj.mp hchunkIndex⟩)
  exact hnot ⟨chunk, hchunk, congrArg _ heq⟩

omit [Platform] in
theorem oneEach_of_sameFiles (hsame : SameFiles listed files) (hlisted : OneEach listed)
    (hfiles : OneEach files) : OneEach (listed ++ files) := by
  intro r hr q hq hid
  rcases List.mem_append.mp hr with hr | hr
  · rcases List.mem_append.mp hq with hq | hq
    · exact hlisted r hr q hq hid
    · exact hsame r hr q hq (.inl hid)
  · rcases List.mem_append.mp hq with hq | hq
    · exact (hsame q hq r hr (.inl hid.symm)).symm
    · exact hfiles r hr q hq hid

omit [Platform] in
/-- No changes lead from a list of the files to them. -/
theorem changesFrom_self (h : ∀ r, r ∈ listed ↔ r ∈ files) (reference : Option FileListRef)
    (newList : Option CompleteFileList) :
    ChangesFrom listed files ⟨reference, [], [], newList⟩ := by
  refine ⟨fun r => iff_of_false List.not_mem_nil fun hr => ?_, List.nodup_nil,
    fun i => iff_of_false List.not_mem_nil ?_, List.nodup_nil⟩
  · exact hr.2 ⟨r, (h r).mpr hr.1, rfl⟩
  · rintro ⟨⟨q, hq, hid⟩, hnot⟩
    exact hnot ⟨q, (h q).mp hq, hid⟩

/-- The manifest with the changes, before its size is looked at. -/
def manifestWith (volume : VolumeId) (snapshot : PublishSnapshot)
    (previous : Option ManifestClosure) (recordBytes : Bytes) (changes : FileChanges) : Manifest where
  volume := volume
  writerFence := snapshot.record.fence
  journalSeq := snapshot.record.seq
  archiveSeq := nextArchiveSeq previous
  captureSeq := snapshot.record.captureSeq
  syncCoveredThrough := snapshot.record.syncCoveredThrough
  recoveryKind := (recoveryMetadata snapshot.record).1
  checkpointEpoch := (recoveryMetadata snapshot.record).2.1
  config := snapshot.record.config
  vmstateLogicalLength := (recoveryMetadata snapshot.record).2.2
  base := snapshot.base
  completeList := changes.completeList
  postStateChecksum := snapshot.record.postStateChecksum
  metadataChecksum := checksum64 recordBytes
  added := changes.added
  removed := changes.removed

section

variable {recordBytes : Bytes} {changes : FileChanges} {bytes : Bytes}

theorem archiveManifest_eq {previous : Option ManifestClosure}
    (hchanges : fileChanges volume snapshot.record previous files = some changes)
    (hrecord : snapshot.record.encode volume = some recordBytes) :
    archiveManifest volume snapshot previous files =
      (boundManifest (manifestWith volume snapshot previous recordBytes changes)
        (previous.bind ManifestClosure.completeList) (nextArchiveSeq previous)).map
          fun bounded => (bounded.manifest, bounded.newCompleteList <|> changes.newList) := by
  rw [archiveManifest, hchanges, some_bind]
  simp only [hrecord, some_bind, manifestWith]
  rw [Option.map_eq_bind]
  rfl

theorem boundManifest_of_encode {m : Manifest} (h : m.encode = some bytes)
    (list : Option CompleteFileList) (id : UInt64) : boundManifest m list id = some ⟨m, none⟩ := by
  have hshape := (Manifest.encode_eq_some.mp h).1
  rw [boundManifest, hshape, h]
  rfl

/-- A manifest that is too large is replaced by one with a complete list of the files. -/
theorem boundManifest_of_not_encode {m : Manifest} {list : Option CompleteFileList}
    {objects : List ObjectRef} (id : UInt64) (hshape : m.validateShape = true) (hlarge : m.encode = none)
    (hobjects : m.currentFiles list = some objects) (hvalid : validateObjectRefs objects = true)
    (hfew : objects.length ≤ maxListedFiles) :
    ∃ reference bytes, (⟨m.volume, m.writerFence, id, objects⟩ : CompleteFileList).reference =
        some reference ∧
      Manifest.encode { m with completeList := some reference, added := [], removed := [] } =
        some bytes ∧
      boundManifest m list id =
        some ⟨{ m with completeList := some reference, added := [], removed := [] },
          some ⟨m.volume, m.writerFence, id, objects⟩⟩ := by
  have hencode : (⟨m.volume, m.writerFence, id, objects⟩ : CompleteFileList).encode.isSome = true :=
    (CompleteFileList.encode_isSome_iff _).mpr ⟨hvalid, hfew⟩
  obtain ⟨listBytes, hlist⟩ := Option.isSome_iff_exists.mp hencode
  have hsync : m.syncCoveredThrough ≤ m.captureSeq := by
    simp only [Manifest.validateShape, Bool.and_eq_true, decide_eq_true_eq] at hshape
    exact hshape.1.1.1.1.1
  have href : (⟨m.volume, m.writerFence, id, objects⟩ : CompleteFileList).reference =
      some ⟨m.writerFence, id, checksum64 listBytes⟩ := by
    rw [CompleteFileList.reference, hlist, Option.map_some]
  obtain ⟨bytes, hbytes⟩ := Manifest.exists_encode_of_unchanged
    (m := { m with completeList := some ⟨m.writerFence, id, checksum64 listBytes⟩, added := [],
                   removed := [] }) rfl rfl hsync
  refine ⟨_, bytes, href, hbytes, ?_⟩
  simp only [boundManifest, hshape, hlarge, hobjects, href, hbytes, ensure_true, some_bind,
    Option.isSome_none, Option.isSome_some, Bool.false_eq_true, if_false, Option.pure_def]

end

theorem pages_of_encode (h : (snapshot.record.encode volume).isSome = true) :
    snapshot.record.config.pages ≠ 0 := by
  obtain ⟨bytes, hbytes⟩ := Option.isSome_iff_exists.mp h
  have hconfig := (JournalRecord.encode_eq_some.mp hbytes).1
  rw [JournalRecord.configOk, Bool.and_eq_true] at hconfig
  intro hzero
  rw [VolumeConfig.valid, hzero] at hconfig
  exact absurd hconfig.1 (by decide)

theorem ValidFiles.oneEach (h : ValidFiles snapshot files) : OneEach files :=
  oneEach_of_nodup ((validateObjectRefs_iff h.wellFormed).mp h.valid).1.identities

theorem ValidFiles.perm (h : ValidFiles snapshot files) : (sortedFiles files).Perm files :=
  perm_sortedFiles ((validateObjectRefs_iff h.wellFormed).mp h.valid).1.identities h.oneEach

/-- The changes make a manifest of the right shape. -/
theorem validateShape_of_changes {m : Manifest} (hsync : m.syncCoveredThrough ≤ m.captureSeq)
    (hchanges : ChangesFrom listed files changes) (hlisted : m.completeList = none → listed = [])
    (hadded : m.added = changes.added) (hremoved : m.removed = changes.removed)
    (hvalid : validateObjectRefs changes.added = true) : m.validateShape = true := by
  have hempty : m.completeList = none → changes.removed = [] := by
    intro hnone
    rw [List.eq_nil_iff_forall_not_mem]
    intro i hi
    obtain ⟨⟨q, hq, -⟩, -⟩ := (hchanges.removed i).mp hi
    rw [hlisted hnone] at hq
    cases hq
  have hdisjoint : ∀ r ∈ changes.added, r.identity ∉ changes.removed :=
    fun r hr hi => ((hchanges.removed _).mp hi).2 ⟨r, ((hchanges.added r).mp hr).1, rfl⟩
  have hnone : ¬ (m.completeList = none ∧ changes.removed ≠ []) := fun h => h.2 (hempty h.1)
  simp only [Manifest.validateShape, hadded, hremoved, hsync, hvalid, hchanges.addedNodup,
    hchanges.removedNodup, decide_true, Bool.true_and, Bool.and_true, Bool.and_eq_true,
    Bool.not_eq_true', Bool.and_eq_false_iff, List.all_eq_true, List.contains_eq_mem,
    decide_eq_false_iff_not]
  refine ⟨?_, hdisjoint⟩
  cases hlist : m.completeList with
  | none => exact .inr (by rw [hempty hlist]; rfl)
  | some _ => exact .inl rfl

/-- The first archive names a complete list. -/
theorem publishesFiles_first (hfiles : ValidFiles snapshot files)
    (hrecord : (snapshot.record.encode volume).isSome = true)
    (hsync : snapshot.record.syncCoveredThrough ≤ snapshot.record.captureSeq)
    (hfew : files.length ≤ maxListedFiles) : PublishesFiles volume snapshot none files := by
  obtain ⟨recordBytes, hrecordBytes⟩ := Option.isSome_iff_exists.mp hrecord
  let list : CompleteFileList := ⟨volume, snapshot.record.fence, snapshot.record.seq, files⟩
  have hencodes : list.encode.isSome = true :=
    (CompleteFileList.encode_isSome_iff _).mpr ⟨hfiles.valid, hfew⟩
  obtain ⟨reference, href⟩ : ∃ reference, list.reference = some reference := by
    obtain ⟨listBytes, hlist⟩ := Option.isSome_iff_exists.mp hencodes
    exact ⟨_, by rw [CompleteFileList.reference, hlist, Option.map_some]⟩
  have hchanges : fileChanges volume snapshot.record none files =
      some ⟨some reference, [], [], some list⟩ := by
    rw [fileChanges, href]
    rfl
  obtain ⟨bytes, hbytes⟩ := Manifest.exists_encode_of_unchanged
    (m := manifestWith volume snapshot none recordBytes ⟨some reference, [], [], some list⟩)
    rfl rfl hsync
  have hone : OneEach (files ++ files) := hfiles.oneEach.mono fun q hq => by simpa using hq
  have hstored : ∀ l ∈ some list, l.Stored volume := by
    rintro _ ⟨⟩
    exact ⟨rfl, hencodes, hfiles.wellFormed⟩
  refine ⟨_, some list, bytes, ?_, hbytes, (Manifest.encode_eq_some.mp hbytes).2.2.2.2, ?_, _,
    closure_of_changes hbytes rfl (pages_of_encode hrecord) hstored ⟨href.symm, rfl,
      changesFrom_self (fun _ => Iff.rfl) (some reference) (some list), hone, rfl, rfl⟩ hfiles rfl rfl,
    rfl, hfiles.perm⟩
  · rw [archiveManifest_eq hchanges hrecordBytes, boundManifest_of_encode hbytes]
    rfl
  · rintro _ ⟨⟩
    exact ⟨href.symm, rfl, rfl⟩

/-- The next archive names the changes to the list of the previous one, or a new list. -/
theorem publishesFiles_changes {closure : ManifestClosure} (hclosure : closure.Decoded volume)
    (hfiles : ValidFiles snapshot files)
    (hrecord : (snapshot.record.encode volume).isSome = true)
    (hsync : snapshot.record.syncCoveredThrough ≤ snapshot.record.captureSeq)
    (hfew : files.length ≤ maxListedFiles) (hsame : SameFiles closure.listed files) :
    PublishesFiles volume snapshot (some closure) files := by
  obtain ⟨recordBytes, hrecordBytes⟩ := Option.isSome_iff_exists.mp hrecord
  obtain ⟨href, hsome, hstored⟩ := hclosure.list
  have hlisted : (∀ r ∈ closure.listed, r.WellFormed) ∧
      validateObjectRefs closure.listed = true := by
    rw [ManifestClosure.listed]
    cases hlist : closure.completeList with
    | none => exact ⟨by simp, rfl⟩
    | some l => exact ⟨(hstored l hlist).wellFormed, (hstored l hlist).valid⟩
  have honeFiles := hfiles.oneEach
  have hone : OneEach (closure.listed ++ files) := oneEach_of_sameFiles hsame
    (oneEach_of_nodup ((validateObjectRefs_iff hlisted.1).mp hlisted.2).1.identities) honeFiles
  obtain ⟨changes, hfileChanges⟩ :
      ∃ changes, fileChanges volume snapshot.record (some closure) files = some changes := ⟨_, rfl⟩
  have hchanges := changesFrom_of_fileChanges hone hfileChanges
  have hold : changes.completeList = closure.manifest.completeList ∧ changes.newList = none := by
    cases Option.some.inj hfileChanges
    exact ⟨rfl, rfl⟩
  set m := manifestWith volume snapshot (some closure) recordBytes changes with hm
  have href' : m.completeList = closure.completeList.bind CompleteFileList.reference :=
    hold.1.trans href
  have hsome' : m.completeList.isSome = closure.completeList.isSome :=
    (congrArg Option.isSome hold.1).trans hsome
  have hleads : LeadsTo m closure.completeList files changes :=
    ⟨href', hsome', hchanges, hone, rfl, rfl⟩
  have hnoList : m.completeList = none → closure.listed = [] := by
    intro hnone
    rw [hnone, Option.isSome_none, eq_comm, Option.isSome_eq_false_iff,
      Option.isNone_iff_eq_none] at hsome'
    rw [ManifestClosure.listed, hsome']
    rfl
  have hshape : m.validateShape = true := validateShape_of_changes hsync hchanges hnoList rfl rfl
    (validateObjectRefs_added hchanges hsame hlisted.1 hlisted.2 hfiles.wellFormed hfiles.valid)
  have hcurrent : m.currentFiles closure.completeList = some (sortedFiles files) :=
    currentFiles_of_changes hleads hfiles.wellFormed hfiles.valid hfiles.chain
  have hmanifest := archiveManifest_eq hfileChanges hrecordBytes
  cases hencode : m.encode with
  | some bytes =>
    refine ⟨m, none, bytes, ?_, hencode, (Manifest.encode_eq_some.mp hencode).2.2.2.2, by simp, _,
      closure_of_changes hencode rfl (pages_of_encode hrecord) hstored hleads hfiles rfl rfl, rfl,
      hfiles.perm⟩
    rw [hmanifest, ← hm, boundManifest_of_encode hencode, hold.2]
    rfl
  | none =>
    -- the files become a new list, to which there are no changes
    have hmem := mem_sortedFiles honeFiles
    have hsorted := validateObjectRefs_sortedFiles honeFiles hfiles.wellFormed hfiles.valid
    have hfewSorted : (sortedFiles files).length ≤ maxListedFiles := by
      rwa [hfiles.perm.length_eq]
    obtain ⟨reference, bytes, hreference, hbytes, hbound⟩ := boundManifest_of_not_encode
      (nextArchiveSeq (some closure)) hshape hencode hcurrent hsorted hfewSorted
    set list : CompleteFileList :=
      ⟨m.volume, m.writerFence, nextArchiveSeq (some closure), sortedFiles files⟩ with hlist
    have hstoredNew : ∀ l ∈ some list, l.Stored volume := by
      rintro _ ⟨⟩
      exact ⟨rfl, (CompleteFileList.encode_isSome_iff _).mpr ⟨hsorted, hfewSorted⟩,
        fun f hf => hfiles.wellFormed f ((hmem f).mp hf)⟩
    have honeNew : OneEach (sortedFiles files ++ files) := by
      refine honeFiles.mono fun q hq => ?_
      rwa [List.mem_append, hmem, or_self] at hq
    refine ⟨_, some list, bytes, ?_, hbytes, (Manifest.encode_eq_some.mp hbytes).2.2.2.2, ?_, _,
      closure_of_changes hbytes rfl (pages_of_encode hrecord) hstoredNew ⟨hreference.symm, rfl,
        changesFrom_self hmem (some reference) (some list), honeNew, rfl, rfl⟩ hfiles rfl rfl,
      rfl, hfiles.perm⟩
    · rw [hmanifest, ← hm]
      exact (congrArg _ hbound).trans rfl
    · rintro _ ⟨⟩
      exact ⟨hreference.symm, rfl, rfl⟩

/-- **Publication of changes.**  Over any archive that was read, with a complete list or without, or
over none, the manifest of any valid files can be written, is small enough, and reads back to
exactly these files. -/
theorem publication_delta {previous : Option ManifestClosure}
    (hprevious : ∀ c ∈ previous, c.Decoded volume) (hfiles : ValidFiles snapshot files)
    (hrecord : (snapshot.record.encode volume).isSome = true)
    (hsync : snapshot.record.syncCoveredThrough ≤ snapshot.record.captureSeq)
    (hfew : files.length ≤ maxListedFiles)
    (hsame : ∀ c ∈ previous, SameFiles c.listed files) :
    PublishesFiles volume snapshot previous files := by
  match previous with
  | none => exact publishesFiles_first hfiles hrecord hsync hfew
  | some c =>
    exact publishesFiles_changes (hprevious c rfl) hfiles hrecord hsync hfew (hsame c rfl)

end

/-! ## What is asked of the input -/

/-- A chunk with a single block, of a batch that leads from the empty state to another. -/
def chunkOf (batchId : UInt64) (chunkCount chunkIndex : UInt32) (objectId : UInt64) :
    ObjectRef where
  identity := .volume 1 1 objectId
  minSeq := 1
  maxSeq := 1
  batchId
  chunkIndex
  chunkCount
  firstKey := ⟨.data, chunkIndex⟩
  lastKey := ⟨.data, chunkIndex⟩
  preStateChecksum := 0
  postStateChecksum := 9
  size := 100
  footerOffset := 50
  footerLength := 40
  objectChecksum := objectId

def snapshotOf (syncCoveredThrough postStateChecksum : UInt64) : PublishSnapshot where
  record :=
    { config := ⟨.data, 8⟩, seq := 1, fence := 1, kind := .commit, captureSeq := 3,
      syncCoveredThrough, postStateChecksum, files := [], runtimePageIndex := ∅,
      migratedFrom := none }
  base := none
  baseObjects := []
  backed := none

section

variable [Platform]

/-- An archive with a complete list of the files, and no changes to it. -/
def archiveOf (files : List ObjectRef) : ManifestClosure :=
  let list : CompleteFileList := ⟨1, 1, 1, files⟩
  { manifest := manifestWith 1 (snapshotOf 3 9) none [] ⟨list.reference, [], [], none⟩
    completeList := some list
    files := sortedFiles files }

theorem decoded_archiveOf {files : List ObjectRef} (hfiles : ValidFiles (snapshotOf 3 9) files)
    (hfew : files.length ≤ maxListedFiles) : (archiveOf files).Decoded 1 := by
  have hencodes : (⟨1, 1, 1, files⟩ : CompleteFileList).encode.isSome = true :=
    (CompleteFileList.encode_isSome_iff _).mpr ⟨hfiles.valid, hfew⟩
  have hstored : ∀ l ∈ some (⟨1, 1, 1, files⟩ : CompleteFileList), l.Stored 1 := by
    rintro _ ⟨⟩
    exact ⟨rfl, hencodes, hfiles.wellFormed⟩
  obtain ⟨bytes, hbytes⟩ := Manifest.exists_encode_of_unchanged (m := (archiveOf files).manifest)
    rfl rfl (show (3 : UInt64) ≤ 3 by decide)
  have hone : OneEach (files ++ files) := hfiles.oneEach.mono fun q hq => by simpa using hq
  refine ⟨_, bytes, _, closure_of_changes hbytes rfl (show (8 : UInt32) ≠ 0 by decide) hstored
    ⟨rfl, ?_, changesFrom_self (fun _ => Iff.rfl) none none, hone, rfl, rfl⟩ hfiles rfl rfl⟩
  show (CompleteFileList.reference _).isSome = true
  rw [CompleteFileList.reference, Option.isSome_map]
  exact hencodes

end

/-- The one chunk of a batch in the place of the two of another. -/
theorem publication_delta_two_chunks : letI := storedPlatform
    PublishesFiles 1 (snapshotOf 3 9) (some (archiveOf [chunkOf 1 2 0 1, chunkOf 1 2 1 2]))
      [chunkOf 2 1 0 3] := by
  refine @publication_delta storedPlatform _ _ _ _ ?_ (by decide +kernel) (by decide +kernel)
    (by decide) (by decide) ?_
  · rintro _ ⟨⟩
    exact @decoded_archiveOf storedPlatform _ (by decide +kernel) (by decide)
  · rintro _ ⟨⟩
    show SameFiles [chunkOf 1 2 0 1, chunkOf 1 2 1 2] [chunkOf 2 1 0 3]
    decide +kernel

section

variable [Platform]

theorem not_publishesFiles_of_none {volume : VolumeId} {snapshot : PublishSnapshot}
    {previous : Option ManifestClosure} {files : List ObjectRef}
    (h : archiveManifest volume snapshot previous files = none) :
    ¬ PublishesFiles volume snapshot previous files := by
  rintro ⟨m, newList, bytes, hsome, -⟩
  rw [h] at hsome
  cases hsome

/-- A list that is too long cannot be written. -/
theorem not_publishesFiles_of_many {volume : VolumeId} {snapshot : PublishSnapshot}
    {files : List ObjectRef} (h : ¬ files.length ≤ maxListedFiles) :
    ¬ PublishesFiles volume snapshot none files := by
  refine not_publishesFiles_of_none ?_
  let list : CompleteFileList := ⟨volume, snapshot.record.fence, snapshot.record.seq, files⟩
  have hlist : list.reference = none := by
    rw [CompleteFileList.reference, Option.map_eq_none_iff, ← Option.isNone_iff_eq_none,
      ← Option.isSome_eq_false_iff, Bool.eq_false_iff]
    exact fun hsome => h ((CompleteFileList.encode_isSome_iff list).mp hsome).2
  rw [archiveManifest, fileChanges, hlist]
  rfl

/-- A batch of many chunks. -/
def manyChunks (n : Nat) : List ObjectRef :=
  (List.range n).map fun i => chunkOf 1 (UInt32.ofNat n) (UInt32.ofNat i) (UInt64.ofNat i)

omit [Platform] in
theorem mem_manyChunks {n : Nat} {r : ObjectRef} : r ∈ manyChunks n ↔
    ∃ i < n, r = chunkOf 1 (UInt32.ofNat n) (UInt32.ofNat i) (UInt64.ofNat i) := by
  simp only [manyChunks, List.mem_map, List.mem_range, eq_comm]

theorem BlockKey.lt_of_block_lt (space : BlockSpace) {a b : UInt32} (h : a < b) :
    (⟨space, a⟩ : BlockKey) < ⟨space, b⟩ := by
  have hlt := UInt32.lt_iff_toNat_lt.mp h
  show code ⟨space, a⟩ < code ⟨space, b⟩
  simp only [code, Prod.Lex.toLex_lt_toLex, namespaceRank, lt_irrefl, false_or, true_and]
  rcases (Nat.div_le_div_right hlt.le : a.toNat / blocksPerFilePartition ≤ _).lt_or_eq with hd | hd
  · exact .inl hd
  · refine .inr ⟨hd, ?_⟩
    have ha := Nat.div_add_mod a.toNat blocksPerFilePartition
    have hb := Nat.div_add_mod b.toNat blocksPerFilePartition
    rw [hd] at ha
    omega

theorem validFiles_manyChunks {n : Nat} (hpos : 0 < n) (hlt : n < 2 ^ 32) :
    ValidFiles (snapshotOf 3 9) (manyChunks n) := by
  have hindex : ∀ {i : Nat}, i < n → (UInt32.ofNat i).toNat = i :=
    fun hi => toNat_ofNat32 (hi.trans hlt)
  have hcount : (UInt32.ofNat n).toNat = n := toNat_ofNat32 hlt
  have hinj : ∀ {i j : Nat}, i < n → j < n → UInt32.ofNat i = UInt32.ofNat j → i = j := by
    intro i j hi hj h
    rw [← hindex hi, ← hindex hj, h]
  have hwf : ∀ r ∈ manyChunks n, r.WellFormed := by
    intro r hr
    obtain ⟨i, hi, rfl⟩ := mem_manyChunks.mp hr
    refine ⟨le_rfl, fun hzero => ?_, ?_, le_rfl, nofun, nofun, Nat.le_of_ble_eq_true rfl⟩
    · have := congrArg UInt32.toNat hzero
      rw [chunkOf, hcount] at this
      exact hpos.ne' this
    · rw [UInt32.lt_iff_toNat_lt]
      simpa only [chunkOf, hindex hi, hcount] using hi
  have hkeys : ((manyChunks n).map ObjectRef.firstKey).Nodup := by
    rw [manyChunks, List.map_map]
    refine List.Nodup.map_on (fun i hi j hj h => ?_) List.nodup_range
    exact hinj (List.mem_range.mp hi) (List.mem_range.mp hj) (congrArg BlockKey.block h)
  have hids : ((manyChunks n).map ObjectRef.identity).Nodup := by
    rw [manyChunks, List.map_map]
    refine List.Nodup.map_on (fun i hi j hj h => ?_) List.nodup_range
    have h64 : UInt64.ofNat i = UInt64.ofNat j := congrArg ObjectIdentity.objectId h
    have hsmall : ∀ {i : Nat}, i ∈ List.range n → i < UInt64.size :=
      fun hi => ((List.mem_range.mp hi).trans hlt).trans (by decide)
    rwa [← UInt64.toNat_inj, UInt64.toNat_ofNat_of_lt' (hsmall hi),
      UInt64.toNat_ofNat_of_lt' (hsmall hj)] at h64
  refine ⟨hwf, (validateObjectRefs_iff hwf).mpr ⟨⟨⟨hids, ?_, ?_⟩, ?_, ?_⟩, ?_⟩, ?_⟩
  · intro o ho p hp _
    obtain ⟨i, -, rfl⟩ := mem_manyChunks.mp ho
    obtain ⟨j, -, rfl⟩ := mem_manyChunks.mp hp
    rfl
  · refine (List.pairwise_map.mp hkeys).imp_of_mem fun {o p} ho hp hne _ hsame => hne ?_
    obtain ⟨i, -, rfl⟩ := mem_manyChunks.mp ho
    obtain ⟨j, -, rfl⟩ := mem_manyChunks.mp hp
    exact congrArg (BlockKey.mk .data) hsame
  · intro o ho i hi
    obtain ⟨j, -, rfl⟩ := mem_manyChunks.mp ho
    have hin : i < n := by simpa only [chunkOf, hcount] using hi
    exact ⟨_, mem_manyChunks.mpr ⟨i, hin, rfl⟩, rfl, hindex hin⟩
  · intro o ho p hp _ hltIndex
    obtain ⟨i, -, rfl⟩ := mem_manyChunks.mp ho
    obtain ⟨j, -, rfl⟩ := mem_manyChunks.mp hp
    exact BlockKey.lt_of_block_lt .data hltIndex
  · -- no two ranges meet
    intro o _ k _
    have hone : Sweep.depth ((manyChunks n).map fun o => (o.firstKey, o.lastKey)) k =
        ((manyChunks n).map ObjectRef.firstKey).count k := by
      rw [Sweep.depth, List.count, List.countP_map, List.countP_map]
      refine List.countP_congr fun r hr => ?_
      obtain ⟨i, -, rfl⟩ := mem_manyChunks.mp hr
      simp only [Function.comp, decide_eq_true_eq, beq_iff_eq]
      exact le_antisymm_iff.symm
    rw [hone]
    exact (List.nodup_iff_count_le_one.mp hkeys k).trans (by decide)
  · have hbatch : ∀ f ∈ manyChunks n, f.maxSeq = 1 ∧ f.batchId = 1 ∧ f.preStateChecksum = 0 ∧
        f.postStateChecksum = 9 := by
      intro f hf
      obtain ⟨i, -, rfl⟩ := mem_manyChunks.mp hf
      exact ⟨rfl, rfl, rfl, rfl⟩
    exact validateFileStateChain_of_batch
      (List.ne_nil_of_mem (mem_manyChunks.mpr ⟨0, hpos, rfl⟩)) hbatch

end

/-- **Each of the three conditions is needed.**  A batch of which the list has one chunk is added
without it, and the manifest fails its assertion; so does the list of too many files, and the
manifest of a record with a sync beyond its capture. -/
theorem not_publication_delta :
    (¬ ∀ [Platform] (volume : VolumeId) (snapshot : PublishSnapshot)
      (previous : Option ManifestClosure) (files : List ObjectRef),
      (∀ c ∈ previous, c.Decoded volume) → ValidFiles snapshot files →
      (snapshot.record.encode volume).isSome = true →
      snapshot.record.syncCoveredThrough ≤ snapshot.record.captureSeq →
      files.length ≤ maxListedFiles → PublishesFiles volume snapshot previous files) ∧
    (¬ ∀ [Platform] (volume : VolumeId) (snapshot : PublishSnapshot)
      (previous : Option ManifestClosure) (files : List ObjectRef),
      (∀ c ∈ previous, c.Decoded volume) → ValidFiles snapshot files →
      (snapshot.record.encode volume).isSome = true →
      snapshot.record.syncCoveredThrough ≤ snapshot.record.captureSeq →
      (∀ c ∈ previous, SameFiles c.listed files) →
      PublishesFiles volume snapshot previous files) ∧
    ¬ ∀ [Platform] (volume : VolumeId) (snapshot : PublishSnapshot)
      (previous : Option ManifestClosure) (files : List ObjectRef),
      (∀ c ∈ previous, c.Decoded volume) → ValidFiles snapshot files →
      (snapshot.record.encode volume).isSome = true → files.length ≤ maxListedFiles →
      (∀ c ∈ previous, SameFiles c.listed files) →
      PublishesFiles volume snapshot previous files := by
  refine ⟨fun hall => ?_, fun hall => ?_, fun hall => ?_⟩
  · refine @not_publishesFiles_of_none storedPlatform _ _ _ _ ?_ (@hall storedPlatform 1 (snapshotOf 3 9)
      (some (@archiveOf storedPlatform [chunkOf 1 2 0 1, chunkOf 1 2 1 2]))
      [chunkOf 1 2 0 1, chunkOf 1 2 1 3] ?_ (by decide +kernel) (by decide +kernel) (by decide)
      (by decide))
    · exact Option.isNone_iff_eq_none.mp (by decide +kernel)
    · rintro _ ⟨⟩
      exact @decoded_archiveOf storedPlatform _ (by decide +kernel) (by decide)
  · have hvalid := @validFiles_manyChunks storedPlatform 700000 (by decide) (by decide)
    have hmany : ¬ (manyChunks 700000).length ≤ maxListedFiles := by
      rw [manyChunks, List.length_map, List.length_range]
      decide
    exact @not_publishesFiles_of_many storedPlatform 1 (snapshotOf 3 9) _ hmany
      (@hall storedPlatform _ _ none _ nofun hvalid (by decide +kernel) (by decide) nofun)
  · refine @not_publishesFiles_of_none storedPlatform _ _ _ _ ?_
      (@hall storedPlatform 1 (snapshotOf 4 0) none [] nofun
      (by decide +kernel) (by decide +kernel) (by decide) nofun)
    exact Option.isNone_iff_eq_none.mp (by decide +kernel)

end Blockd
