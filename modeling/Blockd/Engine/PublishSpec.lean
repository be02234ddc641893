import Blockd.Engine.ArchiveFiles
import Blockd.Engine.Publish

/-!
# What a publication leaves in the store

One lemma for each part of `prepareArchive`:

* `uploadFiles_spec` — the archive's files stay, the record's files that are not covered are added,
  and each of them is the file on disk;
* `compactFiles_spec` — merging makes nothing up and keeps the newest entry of every key;
* `archiveOf_of_metadataPuts` — the manifest leads back to exactly the files it was made for.

`publishes_of_prepareFrom` puts them together.
-/

set_option autoImplicit false

open Codec
open Std (ExtTreeMap)

namespace Blockd

/-! ## Writes to the store -/

namespace Remote

/-- The store has only grown. -/
def Le (r r' : Remote) : Prop := ∀ key bytes, r key = some bytes → r' key = some bytes

variable {r r' r'' : Remote} {key : StoreKey} {bytes : Bytes} {puts : List (StoreKey × Bytes)}

theorem Le.refl (r : Remote) : r.Le r := fun _ _ h => h

theorem Le.trans (h : r.Le r') (h' : r'.Le r'') : r.Le r'' :=
  fun key bytes hr => h' key bytes (h key bytes hr)

theorem Le.objects (h : r.Le r') (i : ObjectIdentity) (bytes : Bytes)
    (hi : r.objects i = some bytes) : r'.objects i = some bytes := h _ _ hi

theorem put_eq_some (h : r.put key bytes = some r') : r.Le r' ∧ r' key = some bytes := by
  rw [put] at h
  split at h
  · rename_i hnone
    rw [← Option.some.inj h]
    refine ⟨fun k b hk => ?_, Function.update_self ..⟩
    rw [Function.update_of_ne]
    · exact hk
    · rintro rfl
      rw [hnone] at hk
      cases hk
  · rename_i found hfound
    split at h
    · rename_i heq
      rw [← Option.some.inj h]
      exact ⟨.refl r, heq ▸ hfound⟩
    · cases h

/-- Everything that was written is there. -/
theorem putAll_eq_some (h : r.putAll puts = some r') :
    r.Le r' ∧ ∀ p ∈ puts, r' p.1 = some p.2 := by
  induction puts generalizing r with
  | nil =>
    rw [← Option.some.inj h]
    exact ⟨.refl r, by simp⟩
  | cons p puts ih =>
    rw [putAll, List.foldlM_cons, bind_eq_some] at h
    obtain ⟨next, hnext, hrest⟩ := h
    obtain ⟨hle, hp⟩ := put_eq_some hnext
    obtain ⟨hle', hps⟩ := ih hrest
    refine ⟨hle.trans hle', fun q hq => ?_⟩
    rcases List.mem_cons.mp hq with rfl | hq
    · exact hle' _ _ hp
    · exact hps q hq

/-- What is there was there or has been written. -/
theorem of_putAll (h : r.putAll puts = some r') (hkey : r' key = some bytes) :
    r key = some bytes ∨ (key, bytes) ∈ puts := by
  induction puts generalizing r with
  | nil =>
    rw [← Option.some.inj h] at hkey
    exact .inl hkey
  | cons p puts ih =>
    rw [putAll, List.foldlM_cons, bind_eq_some] at h
    obtain ⟨next, hnext, hrest⟩ := h
    rcases ih hrest with hold | hmem
    · rw [put] at hnext
      split at hnext
      · rw [← Option.some.inj hnext, Function.update_apply] at hold
        split at hold
        · rename_i heq
          rw [heq, ← Option.some.inj hold]
          exact .inr List.mem_cons_self
        · exact .inl hold
      · split at hnext
        · rw [← Option.some.inj hnext] at hold
          exact .inl hold
        · cases hnext
    · exact .inr (List.mem_cons_of_mem p hmem)

end Remote

variable [Platform]

/-! ## Uploads -/

section

variable {disk : Disk} {volume : VolumeId} {frontier : Option (UInt64 × UInt64)}

theorem readFile_eq_some {r : ObjectRef} {bytes : Bytes}
    (h : readFile disk volume r = some bytes) : ∃ blob o,
      disk.blx[ObjectIdentity.volume volume r.identity.writerFence r.identity.objectId]? =
        some blob ∧ blob.bytes = bytes ∧ BlxObject.open bytes = some o ∧ o.bytes = bytes ∧
      ObjectRef.fromBlx o = r := by
  simp only [readFile, bind_eq_some, ensure_eq_some, exists_const, pure_eq_some] at h
  obtain ⟨blob, hblob, o, hopen, href, rfl⟩ := h
  exact ⟨blob, o, hblob, rfl, hopen, BlxObject.bytes_of_open hopen, href⟩

/-- A file that opens under its name is read. -/
theorem readFile_of_open {o : BlxObject} {capture : Nat}
    (hget : disk.blx[ObjectIdentity.volume volume o.header.writerFence o.header.objectId]? =
      some ⟨capture, o.bytes⟩) (hopen : BlxObject.open o.bytes = some o) :
    readFile disk volume (.fromBlx o) = some o.bytes := by
  have hget' : disk.blx[ObjectIdentity.volume volume (ObjectRef.fromBlx o).identity.writerFence
    (ObjectRef.fromBlx o).identity.objectId]? = some ⟨capture, o.bytes⟩ := hget
  rw [readFile, hget', some_bind, hopen, some_bind, ensure, if_pos rfl]
  rfl

/-- A file the archive does not have yet is uploaded. -/
theorem uploadFiles_cons_of_read {reference : ObjectRef} {references : List ObjectRef}
    {current : ExtTreeMap ObjectIdentity ObjectRef} {bytes : Bytes}
    (hnew : (current.contains reference.identity ||
      sourceObjectIsCovered frontier reference.identity.writerFence reference.maxSeq) = false)
    (hread : readFile disk volume reference = some bytes) :
    uploadFiles disk volume frontier (reference :: references) current =
      (let rest := uploadFiles disk volume frontier references
        (current.insert reference.identity reference)
      ((.object reference.identity, bytes) :: rest.1, rest.2)) := by
  rw [uploadFiles, hnew, hread]
  rfl

/-- What the uploads add to the archive's files. -/
structure Uploads (disk : Disk) (volume : VolumeId) (frontier : Option (UInt64 × UInt64))
    (references : List ObjectRef) (current current' : ExtTreeMap ObjectIdentity ObjectRef)
    (puts : List (StoreKey × Bytes)) : Prop where
  keeps : ∀ (i : ObjectIdentity) (r : ObjectRef), current[i]? = some r → current'[i]? = some r
  added : ∀ (i : ObjectIdentity) (r : ObjectRef), current'[i]? = some r → current[i]? = some r ∨
    r ∈ references ∧ r.identity = i ∧ ∃ bytes, readFile disk volume r = some bytes ∧
      (StoreKey.object i, bytes) ∈ puts
  covers : ∀ r ∈ references,
    sourceObjectIsCovered frontier r.identity.writerFence r.maxSeq = false →
      (current'[r.identity]?).isSome = true

theorem uploadFiles_spec {references : List ObjectRef}
    {current current' : ExtTreeMap ObjectIdentity ObjectRef} {puts : List (StoreKey × Bytes)}
    (h : uploadFiles disk volume frontier references current = (puts, some current')) :
    Uploads disk volume frontier references current current' puts := by
  induction references generalizing current puts with
  | nil =>
    obtain ⟨rfl, hcurrent⟩ := Prod.mk.inj h
    cases hcurrent
    exact ⟨fun _ _ h => h, fun _ _ h => .inl h, by simp⟩
  | cons r references ih =>
    rw [uploadFiles] at h
    split at h
    · rename_i hskip
      have hrest := ih h
      refine ⟨hrest.keeps, fun i q hq => ?_, fun q hq hcov => ?_⟩
      · exact (hrest.added i q hq).imp_right fun ⟨hmem, rest⟩ => ⟨List.mem_cons_of_mem r hmem, rest⟩
      · rcases List.mem_cons.mp hq with rfl | hq
        · rw [hcov, Bool.or_false, ExtTreeMap.contains_eq_isSome_getElem?,
            Option.isSome_iff_exists] at hskip
          obtain ⟨p, hp⟩ := hskip
          rw [hrest.keeps _ p hp]
          rfl
        · exact hrest.covers q hq hcov
    · rename_i hskip
      split at h
      · cases h
      · rename_i bytes hread
        obtain ⟨rfl, hcurrent⟩ := Prod.mk.inj h
        rw [Bool.or_eq_true, not_or, Bool.not_eq_true, Bool.not_eq_true,
          ExtTreeMap.contains_eq_isSome_getElem?, Option.isSome_eq_false_iff,
          Option.isNone_iff_eq_none] at hskip
        have hrest := ih (Prod.ext rfl hcurrent)
        refine ⟨fun i q hq => hrest.keeps i q ?_, fun i q hq => ?_, fun q hq hcov => ?_⟩
        · rw [Maps.getElem?_insert, if_neg, hq]
          rintro rfl
          rw [hskip.1] at hq
          cases hq
        · rcases hrest.added i q hq with hold | ⟨hmem, hid, bytes', hread', hput⟩
          · rw [Maps.getElem?_insert] at hold
            split at hold
            · rename_i hid
              cases hold
              exact .inr ⟨List.mem_cons_self, hid, bytes, hread, hid ▸ List.mem_cons_self⟩
            · exact .inl hold
          · exact .inr ⟨List.mem_cons_of_mem r hmem, hid, bytes', hread',
              List.mem_cons_of_mem _ hput⟩
        · rcases List.mem_cons.mp hq with rfl | hq
          · have hin := hrest.keeps q.identity q (by simp)
            rw [hin]
            rfl
          · exact hrest.covers q hq hcov

end

/-! ## Compaction -/

section

variable {store : ObjectStore} {volume : VolumeId} {record : JournalRecord}

/-- What the merged entries of some files are, next to those that were there before. -/
structure Merges (store : ObjectStore) (references : List ObjectRef) (c c' : BlxCompactor) :
    Prop where
  entries : ∀ (k : BlockKey) (e : BlxEntry), c'.newest[k]? = some e →
    (EntryOf store references e ∧ e.key = k) ∨ c.newest[k]? = some e
  newest : ∀ e, EntryOf store references e →
    ∃ e', c'.newest[e.key]? = some e' ∧ e.generation ≤ e'.generation
  older : ∀ (k : BlockKey) (e : BlxEntry), c.newest[k]? = some e →
    ∃ e', c'.newest[k]? = some e' ∧ e.generation ≤ e'.generation

/-- One file is merged in. -/
def mergeFile (store : ObjectStore) (c : BlxCompactor) (r : ObjectRef) : Option BlxCompactor := do
  let bytes ← store r.identity
  ensure (checksum64 bytes = r.objectChecksum)
  c.addObject bytes

variable {c : BlxCompactor} {remote : Remote}

theorem merges_of_mergeFile {c' : BlxCompactor} {r : ObjectRef} {o : BlxObject}
    (ho : FileAt store r o) (h : mergeFile store c r = some c') : Merges store [r] c c' := by
  simp only [mergeFile, ho.stored, Option.bind_eq_bind, Option.bind_some, Option.bind_eq_some_iff,
    ensure_eq_some, exists_const] at h
  obtain ⟨entries, hentries⟩ := BlxObject.exists_contains_of_open ho.opens
  have hnewest := BlxCompactor.newest_addObject ho.opens hentries h.2
  have hentry : ∀ e, EntryOf store [r] e ↔ e ∈ entries := by
    intro e
    constructor
    · rintro ⟨q, hq, o', entries', ho', hentries', he⟩
      rw [List.mem_singleton.mp hq] at ho'
      cases ho'.unique ho
      rwa [hentries.unique hentries']
    · exact fun he => ⟨r, List.mem_cons_self, o, entries, ho, hentries, he⟩
  refine ⟨fun k e he => ?_, fun e he => ?_, fun k e he => ?_⟩
  · rw [hnewest] at he
    exact (Newest.of_getElem?_keepAll he).imp_left fun ⟨hmem, hkey⟩ => ⟨(hentry e).mpr hmem, hkey⟩
  · rw [hnewest]
    exact Newest.exists_getElem?_keepAll ((hentry e).mp he)
  · rw [hnewest]
    exact Newest.exists_getElem?_keepAll_of_getElem? he

variable {references : List ObjectRef}

theorem merges_of_mergeFiles {c' : BlxCompactor} (hst : AllStored store references)
    (h : references.foldlM (mergeFile store) c = some c') : Merges store references c c' := by
  induction references generalizing c with
  | nil =>
    rw [← Option.some.inj h]
    refine ⟨fun _ _ he => .inr he, ?_, fun _ e he => ⟨e, he, le_rfl⟩⟩
    rintro e ⟨r, hr, -⟩
    cases hr
  | cons r references ih =>
    rw [List.foldlM_cons, bind_eq_some] at h
    obtain ⟨next, hnext, hrest⟩ := h
    obtain ⟨o, ho⟩ := hst r List.mem_cons_self
    have hone := merges_of_mergeFile ho hnext
    have htail := ih (fun q hq => hst q (List.mem_cons_of_mem r hq)) hrest
    have hsplit : ∀ e, EntryOf store (r :: references) e ↔
        EntryOf store [r] e ∨ EntryOf store references e := by
      intro e
      rw [← List.singleton_append, entryOf_append]
    refine ⟨fun k e he => ?_, fun e he => ?_, fun k e he => ?_⟩
    · rcases htail.entries k e he with ⟨hmem, hkey⟩ | hold
      · exact .inl ⟨(hsplit e).mpr (.inr hmem), hkey⟩
      · exact (hone.entries k e hold).imp_left fun ⟨hmem, hkey⟩ =>
          ⟨(hsplit e).mpr (.inl hmem), hkey⟩
    · rcases (hsplit e).mp he with hfirst | hlater
      · obtain ⟨e', he', hle⟩ := hone.newest e hfirst
        obtain ⟨e'', he'', hle'⟩ := htail.older _ _ he'
        exact ⟨e'', he'', hle.trans hle'⟩
      · exact htail.newest e hlater
    · obtain ⟨e', he', hle⟩ := hone.older k e he
      obtain ⟨e'', he'', hle'⟩ := htail.older _ _ he'
      exact ⟨e'', he'', hle.trans hle'⟩

/-- A merged group, in any store that has the new objects. -/
theorem compacts_of_group {batch : BatchMeta} {objects : List BlxObject}
    (hst : AllStored store references) (hc : mergeFiles store references = some c)
    (hfinish : c.finish batch true = some objects)
    (hput : ∀ o ∈ objects, remote (.object (ObjectRef.fromBlx o).identity) = some o.bytes) :
    (∀ r ∈ objects.map ObjectRef.fromBlx, (r.WellFormed ∧ ∃ o, FileAt remote.objects r o) ∧
        batch.firstObjectId ≤ r.identity.objectId) ∧
      Compacts (EntryOf store references)
        (EntryOf remote.objects (objects.map ObjectRef.fromBlx)) := by
  have hmerges : Merges store references .default c := merges_of_mergeFiles hst hc
  have hempty : ∀ k : BlockKey, BlxCompactor.default.newest[k]? = none := fun k =>
    ExtTreeMap.getElem?_empty
  have hkeyed : c.Keyed := by
    intro k e he
    rcases hmerges.entries k e he with ⟨-, hkey⟩ | hnone
    · exact hkey
    · rw [hempty] at hnone
      cases hnone
  obtain ⟨hbatch, chunks, hchunks, hmem⟩ := BlxCompactor.contains_of_finish hkeyed hfinish
  have hseq : batch.minSeq ≤ batch.maxSeq := by
    simp only [BlxCompactor.finish, BlxBatchBuilder.newPartitioned, BlxBatchBuilder.new,
      bind_eq_some, Option.map_eq_some_iff, Option.dite_none_right_eq_some] at hfinish
    obtain ⟨_, ⟨_, ⟨hseq, -⟩, -⟩, -⟩ := hfinish
    exact hseq
  have hat : ∀ o ∈ objects, FileAt remote.objects (ObjectRef.fromBlx o) o :=
    fun o ho => ⟨hput o ho, hbatch.opens o ho, rfl⟩
  have hentry : ∀ e, EntryOf remote.objects (objects.map ObjectRef.fromBlx) e ↔
      e ∈ chunks.flatten := by
    intro e
    constructor
    · rintro ⟨r, hr, o, entries, ho, hentries, he⟩
      obtain ⟨o', ho', rfl⟩ := List.mem_map.mp hr
      cases (hat o' ho').unique ho
      obtain ⟨i, hi, rfl⟩ := List.getElem_of_mem ho'
      obtain ⟨hlen, hget⟩ := List.forall₂_iff_get.mp hchunks
      have hci : objects[i].Contains chunks[i] := hget i hi (hlen ▸ hi)
      rw [hentries.unique hci] at he
      exact List.mem_flatten_of_mem (List.getElem_mem _) he
    · intro he
      obtain ⟨chunk, hchunk, he⟩ := List.mem_flatten.mp he
      obtain ⟨i, hi, rfl⟩ := List.getElem_of_mem hchunk
      obtain ⟨hlen, hget⟩ := List.forall₂_iff_get.mp hchunks
      have hci : objects[i].Contains chunks[i] := hget i (hlen ▸ hi) hi
      have hmemi : objects[i] ∈ objects := List.getElem_mem _
      exact ⟨_, List.mem_map_of_mem hmemi, objects[i], chunks[i], hat _ hmemi, hci, he⟩
  refine ⟨fun r hr => ?_, fun e he => ?_, fun e he => ?_⟩
  · obtain ⟨o, ho, rfl⟩ := List.mem_map.mp hr
    refine ⟨⟨ObjectRef.wellFormed_of_batch hbatch hseq ho, o, hat o ho⟩, ?_⟩
    obtain ⟨i, hi⟩ := List.mem_iff_getElem?.mp ho
    have hid := hbatch.objectId i o hi
    rw [UInt64.le_iff_toNat_le]
    show _ ≤ o.header.objectId.toNat
    omega
  · rcases hmerges.entries _ _ ((hmem e).mp ((hentry e).mp he)) with ⟨hold, -⟩ | hnone
    · exact hold
    · rw [hempty] at hnone
      cases hnone
  · obtain ⟨e', he', hle⟩ := hmerges.newest e he
    have hkey := hkeyed _ _ he'
    exact ⟨e', (hentry e').mpr ((hmem e').mpr (by rwa [hkey])), hkey, hle⟩

theorem compactGroups_spec {groups : List (List ObjectRef)} {next : UInt64}
    {puts : List (StoreKey × Bytes)} {files : List ObjectRef}
    (hst : ∀ g ∈ groups, AllStored store g)
    (h : compactGroups store volume record next groups = (puts, some files))
    (hput : ∀ p ∈ puts, remote p.1 = some p.2) :
    (∀ r ∈ files, (r.WellFormed ∧ ∃ o, FileAt remote.objects r o) ∧ next ≤ r.identity.objectId) ∧
      Compacts (EntryOf store groups.flatten) (EntryOf remote.objects files) := by
  induction groups generalizing next puts files with
  | nil =>
    obtain ⟨-, hfiles⟩ := Prod.mk.inj h
    cases hfiles
    refine ⟨by simp, ?_, ?_⟩
    · rintro e ⟨r, hr, -⟩
      cases hr
    · rintro e ⟨r, hr, -⟩
      cases hr
  | cons group groups ih =>
    rw [compactGroups] at h
    split at h
    · cases h
    · rename_i objects hobjects
      split at h
      · cases h
      · rename_i next' hnext
        obtain ⟨rfl, hfiles⟩ := Prod.mk.inj h
        obtain ⟨rest, hrest, rfl⟩ := Option.map_eq_some_iff.mp hfiles
        obtain ⟨c, hc, hfinish⟩ := bind_eq_some.mp hobjects
        have hputs : ∀ o ∈ objects,
            remote (.object (ObjectRef.fromBlx o).identity) = some o.bytes := fun o ho =>
          hput _ (List.mem_append_left _ (List.mem_map_of_mem ho))
        obtain ⟨hfirst, hcompacts⟩ :=
          compacts_of_group (hst group List.mem_cons_self) hc hfinish hputs
        obtain ⟨hlater, hcompacts'⟩ := ih (fun g hg => hst g (List.mem_cons_of_mem group hg))
          (Prod.ext rfl hrest) fun p hp => hput p (List.mem_append_right _ hp)
        have hle : next ≤ next' := by
          rw [UInt64.le_iff_toNat_le, toNat_of_checkedAdd hnext]
          omega
        refine ⟨fun r hr => ?_, fun e he => ?_, fun e he => ?_⟩
        · rcases List.mem_append.mp hr with hr | hr
          · exact hfirst r hr
          · exact ⟨(hlater r hr).1, hle.trans (hlater r hr).2⟩
        · rw [List.flatten_cons, entryOf_append]
          rcases entryOf_append.mp he with he | he
          · exact .inl (hcompacts.sub e he)
          · exact .inr (hcompacts'.sub e he)
        · rw [List.flatten_cons, entryOf_append] at he
          rcases he with he | he
          · obtain ⟨e', he', hrest⟩ := hcompacts.newest e he
            exact ⟨e', entryOf_append.mpr (.inl he'), hrest⟩
          · obtain ⟨e', he', hrest⟩ := hcompacts'.newest e he
            exact ⟨e', entryOf_append.mpr (.inr he'), hrest⟩

/-- A file is put into the group of its partition. -/
theorem mem_foldlM_group {m m' : ExtTreeMap (Nat ×ₗ Nat) (List ObjectRef)}
    (h : references.foldlM
      (fun groups reference =>
        if reference.lastKey.filePartition = reference.firstKey.filePartition then
          let part : Nat ×ₗ Nat := toLex reference.firstKey.filePartition
          some (groups.insert part ((groups[part]?).getD [] ++ [reference]))
        else none) m = some m') (r : ObjectRef) :
    (∃ (k : Nat ×ₗ Nat) (l : List ObjectRef), m'[k]? = some l ∧ r ∈ l) ↔
      r ∈ references ∨ ∃ (k : Nat ×ₗ Nat) (l : List ObjectRef), m[k]? = some l ∧ r ∈ l := by
  induction references generalizing m with
  | nil =>
    rw [← Option.some.inj h]
    simp
  | cons q references ih =>
    rw [List.foldlM_cons, bind_eq_some] at h
    obtain ⟨next, hnext, hrest⟩ := h
    rw [Option.ite_none_right_eq_some] at hnext
    obtain ⟨-, hnext⟩ := hnext
    cases hnext
    set part : Nat ×ₗ Nat := toLex q.firstKey.filePartition
    rw [ih hrest, List.mem_cons]
    have hone : (∃ (k : Nat ×ₗ Nat) (l : List ObjectRef),
        (m.insert part ((m[part]?).getD [] ++ [q]))[k]? = some l ∧ r ∈ l) ↔
        r = q ∨ ∃ (k : Nat ×ₗ Nat) (l : List ObjectRef), m[k]? = some l ∧ r ∈ l := by
      constructor
      · rintro ⟨k, l, hl, hr⟩
        rw [Maps.getElem?_insert] at hl
        split at hl
        · cases hl
          rcases List.mem_append.mp hr with hr | hr
          · cases hold : m[part]? with
            | none => simp [hold] at hr
            | some l => exact .inr ⟨part, l, hold, by simpa [hold] using hr⟩
          · exact .inl (List.mem_singleton.mp hr)
        · exact .inr ⟨k, l, hl, hr⟩
      · rintro (rfl | ⟨k, l, hl, hr⟩)
        · exact ⟨part, _, ExtTreeMap.getElem?_insert_self, by simp⟩
        · by_cases hk : part = k
          · subst hk
            exact ⟨part, _, ExtTreeMap.getElem?_insert_self, by simp [hl, hr]⟩
          · exact ⟨k, l, by rw [Maps.getElem?_insert, if_neg hk, hl], hr⟩
    rw [hone]
    tauto

theorem mem_groupByPartition {groups : List (List ObjectRef)}
    (h : groupByPartition references = some groups) (r : ObjectRef) :
    r ∈ groups.flatten ↔ r ∈ references := by
  simp only [groupByPartition, bind_eq_some, pure_eq_some] at h
  obtain ⟨m, hm, rfl⟩ := h
  have hmem := mem_foldlM_group hm r
  rw [List.mem_flatten]
  constructor
  · rintro ⟨l, hl, hr⟩
    obtain ⟨⟨k, l⟩, hp, rfl⟩ := List.mem_map.mp hl
    have hk := ExtTreeMap.mem_toList_iff_getElem?_eq_some.mp hp
    exact (hmem.mp ⟨k, l, hk, hr⟩).resolve_right (by simp)
  · intro hr
    obtain ⟨k, l, hl, hr⟩ := hmem.mpr (.inl hr)
    exact ⟨l, List.mem_map.mpr ⟨(k, l), ExtTreeMap.mem_toList_iff_getElem?_eq_some.mpr hl, rfl⟩, hr⟩

/-- **Merging an archive's files** makes nothing up and loses no newest entry. -/
theorem compactFiles_spec {files files' : List ObjectRef} {puts : List (StoreKey × Bytes)}
    (hst : AllStored store files) (h : compactFiles store volume record files = (puts, some files'))
    (hput : ∀ p ∈ puts, remote p.1 = some p.2) :
    (∀ r ∈ files', (r.WellFormed ∧ ∃ o, FileAt remote.objects r o) ∧
        ∃ start, compactionObjectIdStart record.seq = some start ∧ start ≤ r.identity.objectId) ∧
      Compacts (EntryOf store files) (EntryOf remote.objects files') := by
  rw [compactFiles] at h
  split at h
  · rename_i groups first hgroups hfirst
    have hmem := mem_groupByPartition hgroups
    have hgroup : ∀ g ∈ groups, AllStored store g := fun g hg r hr =>
      hst r ((hmem r).mp (List.mem_flatten_of_mem hg hr))
    obtain ⟨hall, hcompacts⟩ := compactGroups_spec hgroup h hput
    exact ⟨fun r hr => ⟨(hall r hr).1, first, hfirst, (hall r hr).2⟩,
      fun e he => (entryOf_congr hmem).mp (hcompacts.sub e he),
      fun e he => hcompacts.newest e ((entryOf_congr hmem).mpr he)⟩
  · cases h

end

/-! ## The manifest's files -/

section

variable {files : List ObjectRef} {i : ObjectIdentity} {r : ObjectRef}

omit [Platform] in
theorem of_getElem?_fileMap (h : (fileMap files)[i]? = some r) : r ∈ files ∧ r.identity = i := by
  have hfold : files.foldl (fun m file => m.insert file.identity file)
      (∅ : ExtTreeMap ObjectIdentity ObjectRef) = (files.map fun file => (file.identity, file)).foldl
        (fun m entry => m.insert entry.1 entry.2) ∅ := by
    rw [List.foldl_map]
  rw [fileMap, hfold] at h
  rcases Maps.of_getElem?_foldl_insert h with hmem | hnone
  · obtain ⟨q, hq, heq⟩ := List.mem_map.mp hmem
    obtain ⟨rfl, rfl⟩ := Prod.mk.inj heq
    exact ⟨hq, rfl⟩
  · simp at hnone

omit [Platform] in
theorem exists_getElem?_fileMap (h : r ∈ files) : ∃ q, (fileMap files)[r.identity]? = some q := by
  have hkeep : ∀ (fs : List ObjectRef) (m : ExtTreeMap ObjectIdentity ObjectRef),
      (∃ q, m[r.identity]? = some q) → ∃ q,
        (fs.foldl (fun m file => m.insert file.identity file) m)[r.identity]? = some q := by
    intro fs
    induction fs with
    | nil => exact fun m hm => hm
    | cons f fs ih =>
      intro m hm
      refine ih _ ?_
      rw [Maps.getElem?_insert]
      split
      · exact ⟨f, rfl⟩
      · exact hm
  obtain ⟨before, after, rfl⟩ := List.append_of_mem h
  rw [fileMap, List.foldl_append, List.foldl_cons]
  exact hkeep after _ ⟨r, ExtTreeMap.getElem?_insert_self⟩

/-- The files are told apart by their identities. -/
def OneEach (files : List ObjectRef) : Prop :=
  ∀ r ∈ files, ∀ q ∈ files, r.identity = q.identity → r = q

/-- Files that are in one store are told apart by their identities. -/
theorem AllStored.oneEach {store : ObjectStore} (h : AllStored store files) : OneEach files := by
  intro r hr q hq hid
  obtain ⟨o, ho⟩ := h r hr
  obtain ⟨o', ho'⟩ := h q hq
  have hbytes : o.bytes = o'.bytes :=
    Option.some.inj (ho.stored.symm.trans (hid ▸ ho'.stored))
  have hopen := ho.opens
  rw [hbytes, ho'.opens] at hopen
  rw [← ho.reference, ← ho'.reference, Option.some.inj hopen]

omit [Platform] in
theorem OneEach.mono {files' : List ObjectRef} (h : OneEach files) (hsub : ∀ r ∈ files', r ∈ files) :
    OneEach files' :=
  fun r hr q hq => h r (hsub r hr) q (hsub q hq)

omit [Platform] in
theorem getElem?_fileMap_iff (h : OneEach files) :
    (fileMap files)[i]? = some r ↔ r ∈ files ∧ r.identity = i := by
  refine ⟨of_getElem?_fileMap, ?_⟩
  rintro ⟨hr, rfl⟩
  obtain ⟨q, hq⟩ := exists_getElem?_fileMap hr
  obtain ⟨hmem, hid⟩ := of_getElem?_fileMap hq
  rw [hq, h q hmem r hr hid]

omit [Platform] in
theorem contains_fileMap_iff (h : OneEach files) :
    (fileMap files).contains i = true ↔ ∃ q ∈ files, q.identity = i := by
  rw [ExtTreeMap.contains_eq_isSome_getElem?, Option.isSome_iff_exists]
  simp only [getElem?_fileMap_iff h]

omit [Platform] in
theorem getElem?_foldlM_erase {removed : List ObjectIdentity}
    {m kept : ExtTreeMap ObjectIdentity ObjectRef}
    (h : removed.foldlM (fun files identity =>
      if files.contains identity then some (files.erase identity) else none) m = some kept) :
    kept[i]? = some r ↔ m[i]? = some r ∧ i ∉ removed := by
  induction removed generalizing m with
  | nil =>
    rw [← Option.some.inj h]
    simp
  | cons j removed ih =>
    rw [List.foldlM_cons, bind_eq_some] at h
    obtain ⟨next, hnext, hrest⟩ := h
    rw [Option.ite_none_right_eq_some] at hnext
    obtain ⟨-, hnext⟩ := hnext
    cases hnext
    rw [ih hrest, Maps.getElem?_erase, List.mem_cons, not_or]
    by_cases hj : j = i
    · simp [hj]
    · simp [hj, Ne.symm hj]

omit [Platform] in
theorem getElem?_foldlM_add {added : List ObjectRef} {m all : ExtTreeMap ObjectIdentity ObjectRef}
    (h : added.foldlM (fun files object =>
      if files.contains object.identity then none else some (files.insert object.identity object))
        m = some all) :
    all[i]? = some r ↔ m[i]? = some r ∨ r ∈ added ∧ r.identity = i := by
  induction added generalizing m with
  | nil =>
    rw [← Option.some.inj h]
    simp
  | cons a added ih =>
    rw [List.foldlM_cons, bind_eq_some] at h
    obtain ⟨next, hnext, hrest⟩ := h
    rw [Option.ite_none_left_eq_some] at hnext
    obtain ⟨hfree, hnext⟩ := hnext
    cases hnext
    rw [Bool.not_eq_true, ExtTreeMap.contains_eq_isSome_getElem?, Option.isSome_eq_false_iff,
      Option.isNone_iff_eq_none] at hfree
    rw [ih hrest, Maps.getElem?_insert, List.mem_cons]
    by_cases ha : a.identity = i
    · subst ha
      rw [if_pos rfl, hfree, Option.some.injEq]
      constructor
      · rintro (rfl | ⟨hr, hid⟩)
        · exact .inr ⟨.inl rfl, rfl⟩
        · exact .inr ⟨.inr hr, hid⟩
      · rintro (hnone | ⟨rfl | hr, hid⟩)
        · cases hnone
        · exact .inl rfl
        · exact .inr ⟨hr, hid⟩
    · rw [if_neg ha]
      constructor
      · rintro (hold | ⟨hr, hid⟩)
        · exact .inl hold
        · exact .inr ⟨.inr hr, hid⟩
      · rintro (hold | ⟨rfl | hr, hid⟩)
        · exact .inl hold
        · exact absurd hid ha
        · exact .inr ⟨hr, hid⟩

/-- **The files a manifest stands for**: those it adds, and those of the list it does not remove. -/
theorem mem_currentFiles {m : Manifest} {list : Option CompleteFileList}
    (h : m.currentFiles list = some files) (r : ObjectRef) :
    r ∈ files ↔ r ∈ m.added ∨ (fileMap ((list.map CompleteFileList.objects).getD []))[r.identity]? =
      some r ∧ r.identity ∉ m.removed := by
  simp only [Manifest.currentFiles, bind_eq_some, ensure_eq_some, exists_const, pure_eq_some] at h
  obtain ⟨-, kept, hkept, all, hall, -, -, rfl⟩ := h
  have hid : ∀ (i : ObjectIdentity) (q : ObjectRef), all[i]? = some q → q.identity = i := by
    intro i q hq
    rcases (getElem?_foldlM_add hall).mp hq with hold | ⟨-, hid⟩
    · exact (of_getElem?_fileMap ((getElem?_foldlM_erase hkept).mp hold).1).2
    · exact hid
  have hmem : r ∈ all.toList.map Prod.snd ↔ all[r.identity]? = some r := by
    rw [List.mem_map]
    constructor
    · rintro ⟨⟨i, q⟩, hp, rfl⟩
      have hq := ExtTreeMap.mem_toList_iff_getElem?_eq_some.mp hp
      rwa [hid i q hq]
    · exact fun hr => ⟨(r.identity, r), ExtTreeMap.mem_toList_iff_getElem?_eq_some.mpr hr, rfl⟩
  rw [hmem, getElem?_foldlM_add hall, getElem?_foldlM_erase hkept, or_comm]
  simp [fileMap]

end

/-! ## The manifest -/

/-- The complete list of a manifest, read from the store. -/
def loadList (store : MetadataStore) (volume : VolumeId) :
    Option FileListRef → Option (Option CompleteFileList)
  | none => some none
  | some reference => ((store.lists reference.writerFence reference.listId).bind
      (CompleteFileList.decode reference volume)).map some

/-- What a closure that was read says about the store. -/
structure LoadedFrom (store : MetadataStore) (volume : VolumeId) (pointer : ManifestPtr)
    (closure : ManifestClosure) : Prop where
  manifest : ∃ bytes, store.manifests pointer.fence pointer.seq = some bytes ∧
    Manifest.decode volume bytes = some closure.manifest
  names : closure.manifest.writerFence = pointer.fence ∧
    closure.manifest.journalSeq = pointer.journalSeq
  list : loadList store volume closure.manifest.completeList = some closure.completeList
  files : closure.manifest.currentFiles closure.completeList = some closure.files

theorem loadedFrom_of_load {store : MetadataStore} {volume : VolumeId} {pointer : ManifestPtr}
    {closure : ManifestClosure} (h : loadArchiveMetadata store volume pointer = some closure) :
    LoadedFrom store volume pointer closure := by
  simp only [loadArchiveMetadata, Option.bind_eq_bind, Option.bind_eq_some_iff] at h
  obtain ⟨bytes, hbytes, manifest, hmanifest, h⟩ := h
  cases href : manifest.completeList with
  | none =>
    simp only [href, ManifestClosure.decode, hmanifest, Option.bind_eq_bind, Option.bind_some,
      Option.bind_eq_some_iff, ensure_eq_some, exists_const, pure_eq_some, Prod.mk.injEq] at h
    obtain ⟨-, ⟨hfence, hseq, -⟩, files, hfiles, rfl⟩ := h
    refine ⟨⟨bytes, hbytes, hmanifest⟩, ⟨hfence, hseq⟩, ?_, hfiles⟩
    simp only [href, loadList]
  | some reference =>
    simp only [href, ManifestClosure.decode, hmanifest, Option.bind_eq_bind, Option.bind_some,
      Option.bind_eq_some_iff, Option.map_eq_some_iff, ensure_eq_some, exists_const,
      Option.pure_def, Prod.mk.injEq] at h
    obtain ⟨_, ⟨listBytes, hlistBytes, rfl⟩, -, ⟨hfence, hseq, -⟩, h⟩ := h
    obtain ⟨_, hread, h⟩ := bind_eq_some.mp h
    obtain ⟨list, hlist, rfl⟩ := Option.map_eq_some_iff.mp hread
    obtain ⟨files, hfiles, heq⟩ := bind_eq_some.mp h
    cases heq
    refine ⟨⟨bytes, hbytes, hmanifest⟩, ⟨hfence, hseq⟩, ?_, hfiles⟩
    simp only [href, loadList, hlistBytes, Option.bind_some, hlist, Option.map_some]

/-- A list that was read is read again from a store that has grown. -/
theorem loadList_mono {remote remote' : Remote} {bases : BaseRef → Option BaseManifest}
    {volume : VolumeId} {reference : Option FileListRef} {list : Option CompleteFileList}
    (hle : remote.Le remote')
    (h : loadList (remote.metadata bases) volume reference = some list) :
    loadList (remote'.metadata bases) volume reference = some list := by
  cases reference with
  | none => exact h
  | some reference =>
    simp only [loadList, Option.map_eq_some_iff, Option.bind_eq_some_iff] at h ⊢
    obtain ⟨l, ⟨bytes, hbytes, hdecode⟩, rfl⟩ := h
    exact ⟨l, ⟨bytes, hle _ _ hbytes, hdecode⟩, rfl⟩

/-- The objects of the complete list, if there is one. -/
def ManifestClosure.listed (closure : ManifestClosure) : List ObjectRef :=
  (closure.completeList.map CompleteFileList.objects).getD []

section

variable {store : ObjectStore} {volume : VolumeId} {snapshot : PublishSnapshot}
  {previous : Option ManifestClosure} {files out : List ObjectRef}

/-- What the changes from a list to some files are. -/
structure ChangesFrom (listed files : List ObjectRef) (changes : FileChanges) : Prop where
  added : ∀ r, r ∈ changes.added ↔ r ∈ files ∧ ¬ ∃ q ∈ listed, q.identity = r.identity
  addedNodup : (changes.added.map ObjectRef.identity).Nodup
  removed : ∀ i, i ∈ changes.removed ↔
    (∃ q ∈ listed, q.identity = i) ∧ ¬ ∃ q ∈ files, q.identity = i
  removedNodup : changes.removed.Nodup

omit [Platform] in
/-- The identities of the files of a map are its keys. -/
theorem map_identity_toList (files : List ObjectRef) (p : ObjectIdentity × ObjectRef → Bool) :
    (((fileMap files).toList.filter p).map Prod.snd).map ObjectRef.identity =
      ((fileMap files).toList.filter p).map Prod.fst := by
  rw [List.map_map]
  refine List.map_congr_left fun e he => ?_
  exact (of_getElem?_fileMap
    (ExtTreeMap.mem_toList_iff_getElem?_eq_some.mp (List.mem_filter.mp he).1)).2

omit [Platform] in
theorem nodup_keys (m : ExtTreeMap ObjectIdentity ObjectRef) : (m.toList.map Prod.fst).Nodup :=
  List.pairwise_map.mpr ((Maps.pairwise_toList m).imp fun hlt => hlt.ne)

variable {changes : FileChanges} {closure : ManifestClosure}

theorem changesFrom_of_fileChanges (hone : OneEach (closure.listed ++ files))
    (hchanges : fileChanges volume snapshot.record (some closure) files = some changes) :
    ChangesFrom closure.listed files changes := by
  have hlisted : OneEach closure.listed := hone.mono fun q hq => List.mem_append_left _ hq
  have hfiles : OneEach files := hone.mono fun q hq => List.mem_append_right _ hq
  cases Option.some.inj hchanges
  refine ⟨fun r => ?_, ?_, fun i => ?_, ?_⟩
  · show r ∈ ((fileMap files).toList.filter fun p =>
      !(fileMap closure.listed).contains p.1).map Prod.snd ↔ _
    simp only [List.mem_map, List.mem_filter, Prod.exists, exists_eq_right,
      ExtTreeMap.mem_toList_iff_getElem?_eq_some, getElem?_fileMap_iff hfiles, Bool.not_eq_true',
      ← Bool.not_eq_true, contains_fileMap_iff hlisted]
    constructor
    · rintro ⟨i, ⟨hr, rfl⟩, hnot⟩
      exact ⟨hr, hnot⟩
    · rintro ⟨hr, hnot⟩
      exact ⟨r.identity, ⟨hr, rfl⟩, hnot⟩
  · rw [map_identity_toList]
    exact (nodup_keys _).sublist (List.filter_sublist.map _)
  · show i ∈ ((fileMap closure.listed).toList.map Prod.fst).filter
      (fun identity => !(fileMap files).contains identity) ↔ _
    rw [List.mem_filter, Bool.not_eq_true', ← Bool.not_eq_true, contains_fileMap_iff hfiles]
    refine and_congr_left fun _ => ?_
    simp only [List.mem_map, Prod.exists, exists_and_right, exists_eq_right,
      ExtTreeMap.mem_toList_iff_getElem?_eq_some, getElem?_fileMap_iff hlisted]
  · exact (nodup_keys _).sublist List.filter_sublist

omit [Platform] in
/-- The changes to a list lead from it to the files. -/
theorem ChangesFrom.mem_iff {listed : List ObjectRef} (h : ChangesFrom listed files changes)
    (hone : OneEach (listed ++ files)) (r : ObjectRef) :
    r ∈ changes.added ∨ r ∈ listed ∧ r.identity ∉ changes.removed ↔ r ∈ files := by
  constructor
  · rintro (hr | ⟨hr, hnot⟩)
    · exact ((h.added r).mp hr).1
    · -- a listed file that is not removed is, by its identity, one of the files
      rw [h.removed, not_and, not_not] at hnot
      obtain ⟨q, hq, hid⟩ := hnot ⟨r, hr, rfl⟩
      rwa [← hone q (List.mem_append_right _ hq) r (List.mem_append_left _ hr) hid]
  · intro hr
    by_cases hin : ∃ q ∈ listed, q.identity = r.identity
    · obtain ⟨q, hq, hid⟩ := hin
      have heq : q = r := hone q (List.mem_append_left _ hq) r (List.mem_append_right _ hr) hid
      exact .inr ⟨heq ▸ hq, fun hmem => ((h.removed _).mp hmem).2 ⟨r, hr, rfl⟩⟩
    · exact .inl ((h.added r).mpr ⟨hr, hin⟩)

theorem mem_currentFiles_of_fileChanges {m : Manifest} (hone : OneEach (closure.listed ++ files))
    (hchanges : fileChanges volume snapshot.record (some closure) files = some changes)
    (hadded : m.added = changes.added) (hremoved : m.removed = changes.removed)
    (h : m.currentFiles closure.completeList = some out) (r : ObjectRef) : r ∈ out ↔ r ∈ files := by
  have hlisted : OneEach closure.listed := hone.mono fun q hq => List.mem_append_left _ hq
  rw [mem_currentFiles h, hadded, hremoved]
  rw [show fileMap ((closure.completeList.map CompleteFileList.objects).getD []) =
    fileMap closure.listed from rfl, getElem?_fileMap_iff hlisted, and_iff_left rfl]
  exact (changesFrom_of_fileChanges hone hchanges).mem_iff hone r

theorem mem_of_mem_added {r : ObjectRef} (hone : OneEach (closure.listed ++ files))
    (hchanges : fileChanges volume snapshot.record (some closure) files = some changes)
    (h : r ∈ changes.added) : r ∈ files :=
  (((changesFrom_of_fileChanges hone hchanges).added r).mp h).1

/-- The manifest is about the snapshot's record. -/
structure Manifest.Describes (m : Manifest) (volume : VolumeId) (snapshot : PublishSnapshot) :
    Prop where
  volume : m.volume = volume
  writerFence : m.writerFence = snapshot.record.fence
  journalSeq : m.journalSeq = snapshot.record.seq
  captureSeq : m.captureSeq = snapshot.record.captureSeq
  syncCoveredThrough : m.syncCoveredThrough = snapshot.record.syncCoveredThrough
  recovery : (m.recoveryKind, m.checkpointEpoch, m.vmstateLogicalLength) =
    recoveryMetadata snapshot.record
  config : m.config = snapshot.record.config
  base : m.base = snapshot.base
  postStateChecksum : m.postStateChecksum = snapshot.record.postStateChecksum

/-- What the manifest of some files and its list are. -/
structure ManifestOf (volume : VolumeId) (snapshot : PublishSnapshot)
    (previous : Option ManifestClosure) (files : List ObjectRef) (m : Manifest)
    (newList : Option CompleteFileList) : Prop where
  describes : m.Describes volume snapshot
  added : ∀ r ∈ m.added, r ∈ files
  /-- A new list has the files, and the manifest names it. -/
  new : ∀ l ∈ newList, l.volume = volume ∧ m.completeList = l.reference ∧ (∀ r, r ∈ l.objects ↔ r ∈ files) ∧
    m.added = [] ∧ m.removed = []
  /-- Otherwise the manifest has the changes to the list of the previous one. -/
  old : newList = none → ∃ c ∈ previous, m.completeList = c.manifest.completeList ∧
    ∀ out, m.currentFiles c.completeList = some out → ∀ r, r ∈ out ↔ r ∈ files

theorem manifestOf_archiveManifest {m : Manifest} {newList : Option CompleteFileList}
    (hone : OneEach (((previous.map ManifestClosure.listed).getD []) ++ files))
    (h : archiveManifest volume snapshot previous files = some (m, newList)) :
    ManifestOf volume snapshot previous files m newList := by
  simp only [archiveManifest, Option.bind_eq_bind, Option.bind_eq_some_iff, pure_eq_some,
    Prod.mk.injEq] at h
  obtain ⟨changes, hchanges, recordBytes, -, bounded, hbounded, rfl, rfl⟩ := h
  simp only [boundManifest, Option.bind_eq_bind, Option.bind_eq_some_iff, ensure_eq_some,
    exists_const] at hbounded
  obtain ⟨-, hbounded⟩ := hbounded
  split at hbounded
  · cases hbounded
    cases previous with
    | none =>
      simp only [fileChanges, Option.bind_eq_bind, Option.bind_eq_some_iff,
        pure_eq_some] at hchanges
      obtain ⟨reference, href, rfl⟩ := hchanges
      refine ⟨⟨rfl, rfl, rfl, rfl, rfl, rfl, rfl, rfl, rfl⟩, by simp, ?_, by simp⟩
      rintro l hl
      cases hl
      exact ⟨rfl, href.symm, fun r => Iff.rfl, rfl, rfl⟩
    | some c =>
      have hnew : changes.newList = none ∧ changes.completeList = c.manifest.completeList := by
        cases Option.some.inj hchanges
        exact ⟨rfl, rfl⟩
      refine ⟨⟨rfl, rfl, rfl, rfl, rfl, rfl, rfl, rfl, rfl⟩, ?_, ?_,
        fun _ => ⟨c, rfl, hnew.2, ?_⟩⟩
      · exact fun r hr => mem_of_mem_added hone hchanges hr
      · simp [hnew.1]
      · exact fun out hout => mem_currentFiles_of_fileChanges hone hchanges rfl rfl hout
  · simp only [Option.bind_eq_some_iff, pure_eq_some, ensure_eq_some, exists_const] at hbounded
    obtain ⟨objects, hobjects, reference, href, -, rfl⟩ := hbounded
    cases previous with
    | none =>
      -- there is no list to start from, so a first manifest that is too large has no way out
      simp only [fileChanges, Option.bind_eq_bind, Option.bind_eq_some_iff,
        pure_eq_some] at hchanges
      obtain ⟨reference, -, rfl⟩ := hchanges
      simp [Manifest.currentFiles, ensure] at hobjects
    | some c =>
      refine ⟨⟨rfl, rfl, rfl, rfl, rfl, rfl, rfl, rfl, rfl⟩, by simp, ?_, by simp⟩
      intro l hl
      cases hl
      exact ⟨rfl, href.symm, mem_currentFiles_of_fileChanges hone hchanges rfl rfl hobjects, rfl, rfl⟩

theorem of_metadataPuts {puts : List (StoreKey × Bytes)} {pointer : ManifestPtr}
    (h : metadataPuts volume snapshot previous files = some (puts, pointer)) :
    ∃ m newList bytes, archiveManifest volume snapshot previous files = some (m, newList) ∧
      m.encode = some bytes ∧ pointer = m.pointer bytes ∧
      (.manifest m.writerFence m.archiveSeq, bytes) ∈ puts ∧
      ∀ l ∈ newList, ∃ listBytes, l.encode = some listBytes ∧
        (.fileList l.writerFence l.listId, listBytes) ∈ puts := by
  simp only [metadataPuts, Option.bind_eq_bind, Option.bind_eq_some_iff] at h
  obtain ⟨⟨m, newList⟩, hm, h⟩ := h
  cases newList with
  | none =>
    simp only [Option.bind_some, Option.bind_eq_some_iff, pure_eq_some, Prod.mk.injEq] at h
    obtain ⟨bytes, hbytes, rfl, rfl⟩ := h
    exact ⟨m, none, bytes, hm, hbytes, rfl, by simp, by simp⟩
  | some l =>
    simp only [Option.bind_eq_some_iff, Option.map_eq_some_iff, pure_eq_some, Prod.mk.injEq] at h
    obtain ⟨_, ⟨listBytes, hlist, rfl⟩, bytes, hbytes, rfl, rfl⟩ := h
    refine ⟨m, some l, bytes, hm, hbytes, rfl, by simp, ?_⟩
    intro l' hl'
    cases hl'
    exact ⟨listBytes, hlist, by simp⟩

/-- What a published archive is, next to the snapshot and the files it was made of. -/
structure ArchiveOf (remote : Remote) (volume : VolumeId) (snapshot : PublishSnapshot)
    (files : List ObjectRef) (closure : ManifestClosure) : Prop where
  describes : closure.manifest.Describes volume snapshot
  files : ∀ r, r ∈ closure.files ↔ r ∈ files
  listed : AllStored remote.objects closure.listed

/-- **The manifest leads back to the files it was made for.** -/
theorem archiveOf_of_metadataPuts {remote : Remote} {bases : BaseRef → Option BaseManifest}
    {puts : List (StoreKey × Bytes)} {pointer : ManifestPtr}
    (hst : AllStored remote.objects (((previous.map ManifestClosure.listed).getD []) ++ files))
    (hwf : ∀ r ∈ files, r.WellFormed) (hpages : snapshot.record.config.pages ≠ 0)
    (hprevious : ∀ c ∈ previous,
      loadList (remote.metadata bases) volume c.manifest.completeList = some c.completeList)
    (h : metadataPuts volume snapshot previous files = some (puts, pointer))
    (hput : ∀ p ∈ puts, remote p.1 = some p.2)
    (hclosure : LoadedFrom (remote.metadata bases) volume pointer closure) :
    ArchiveOf remote volume snapshot files closure := by
  obtain ⟨m, newList, bytes, hm, hbytes, rfl, hmput, hlput⟩ := of_metadataPuts h
  have hof := manifestOf_archiveManifest hst.oneEach hm
  have hfiles : AllStored remote.objects files := fun q hq => hst q (List.mem_append_right _ hq)
  have hmanifest : closure.manifest = m := by
    obtain ⟨found, hfound, hdecode⟩ := hclosure.manifest
    have hstored : remote (.manifest m.writerFence m.archiveSeq) = some bytes := hput _ hmput
    have heq : found = bytes := Option.some.inj (hfound.symm.trans hstored)
    have hpages' : m.config.pages ≠ 0 := by rwa [hof.describes.config]
    have hread := Manifest.decode_encode hbytes hpages' fun f hf => hwf f (hof.added f hf)
    rw [hof.describes.volume] at hread
    rw [heq, hread] at hdecode
    exact (Option.some.inj hdecode).symm
  have hlist := hclosure.list
  have hcurrent := hclosure.files
  rw [hmanifest] at hlist hcurrent
  cases newList with
  | some l =>
    obtain ⟨hvolume, href, hobjects, hadded, hremoved⟩ := hof.new l rfl
    obtain ⟨lbytes, hlbytes, hlmem⟩ := hlput l rfl
    have hreference : l.reference = some ⟨l.writerFence, l.listId, checksum64 lbytes⟩ := by
      rw [CompleteFileList.reference, hlbytes, Option.map_some]
    have hstored : remote (.fileList l.writerFence l.listId) = some lbytes := hput _ hlmem
    have hread := CompleteFileList.decode_encode hlbytes hreference
      fun f hf => hwf f ((hobjects f).mp hf)
    rw [hvolume] at hread
    have hloaded : closure.completeList = some l := by
      rw [href, hreference] at hlist
      simp only [loadList, Remote.metadata, hstored, Option.bind_some, hread, Option.map_some,
        Option.some.injEq] at hlist
      exact hlist.symm
    have hlstored : AllStored remote.objects l.objects := fun q hq => hfiles q ((hobjects q).mp hq)
    refine ⟨hmanifest ▸ hof.describes, fun r => ?_, ?_⟩
    · rw [mem_currentFiles hcurrent, hadded, hremoved, hloaded]
      simp only [Option.map_some, Option.getD_some, getElem?_fileMap_iff hlstored.oneEach, hobjects]
      simp
    · rw [ManifestClosure.listed, hloaded]
      exact hlstored
  | none =>
    obtain ⟨c, hc, hsame, hmem⟩ := hof.old rfl
    have hloaded : closure.completeList = c.completeList := by
      rw [hsame, hprevious c hc] at hlist
      exact (Option.some.inj hlist).symm
    rw [hloaded] at hcurrent
    refine ⟨hmanifest ▸ hof.describes, hmem _ hcurrent, ?_⟩
    rw [ManifestClosure.listed, hloaded]
    refine fun q hq => hst q (List.mem_append_left _ ?_)
    rw [Option.mem_def.mp hc]
    exact hq

end

/-! ## The whole attempt -/

section

variable {disk : Disk} {remote remote' : Remote} {bases : BaseRef → Option BaseManifest}
  {volume : VolumeId} {snapshot : PublishSnapshot} {forceCompaction : Bool}

/-- The files of an archive are in the store, and so are those of its list. -/
structure SoundArchive (store : ObjectStore) (closure : ManifestClosure) : Prop where
  wellFormed : ∀ r ∈ closure.files, r.WellFormed
  files : AllStored store closure.files
  listed : AllStored store closure.listed

/-- The files of the previous archive with the record's: what an attempt has uploaded. -/
structure Gathers (disk : Disk) (store : ObjectStore) (volume : VolumeId)
    (snapshot : PublishSnapshot) (previous : Option ManifestClosure) (current : List ObjectRef) :
    Prop where
  keeps : ∀ c ∈ previous, ∀ r ∈ c.files, r ∈ current
  origin : ∀ r ∈ current, (∃ c ∈ previous, r ∈ c.files) ∨ r ∈ snapshot.blxRefs volume ∧
    ∃ o blob, disk.blx[ObjectIdentity.volume volume r.identity.writerFence
      r.identity.objectId]? = some blob ∧ blob.bytes = o.bytes ∧ FileAt store r o
  covers : ∀ r ∈ snapshot.blxRefs volume,
    (∀ c ∈ previous, ¬ (r.identity.writerFence = c.manifest.writerFence ∧
      r.maxSeq ≤ c.manifest.journalSeq)) → ∃ q ∈ current, q.identity = r.identity

/-- What an attempt that gets through leaves in the store. -/
structure Publishes (disk : Disk) (remote : Remote) (bases : BaseRef → Option BaseManifest)
    (volume : VolumeId) (snapshot : PublishSnapshot) (previous : Option ManifestClosure)
    (pointer : ManifestPtr) (current files : List ObjectRef) : Prop where
  gathers : Gathers disk remote.objects volume snapshot previous current
  stored : AllStored remote.objects current
  sound : ∀ r ∈ files, r.WellFormed ∧ ∃ o, FileAt remote.objects r o
  /-- The files are those that were gathered, or merged ones. -/
  merged : ∀ r ∈ files, r ∈ current ∨ ∃ start,
    compactionObjectIdStart snapshot.record.seq = some start ∧ start ≤ r.identity.objectId
  compacts : Compacts (EntryOf remote.objects current) (EntryOf remote.objects files)
  archive : ∀ closure, LoadedFrom (remote.metadata bases) volume pointer closure →
    ArchiveOf remote volume snapshot files closure

variable {previous : Option ManifestClosure}

theorem gathers_of_uploadFiles {current : ExtTreeMap ObjectIdentity ObjectRef}
    {puts : List (StoreKey × Bytes)} {store : ObjectStore}
    (hsound : ∀ c ∈ previous, SoundArchive store c) (hput : ∀ p ∈ puts, remote p.1 = some p.2)
    (h : uploadFiles disk volume
      (previous.map fun c => (c.manifest.writerFence, c.manifest.journalSeq))
      (snapshot.blxRefs volume) (fileMap ((previous.map ManifestClosure.files).getD [])) =
        (puts, some current)) :
    Gathers disk remote.objects volume snapshot previous (current.toList.map Prod.snd) := by
  have hup := uploadFiles_spec h
  have hmem : ∀ r, r ∈ current.toList.map Prod.snd ↔
      ∃ i : ObjectIdentity, current[i]? = some r := by
    intro r
    simp only [List.mem_map, Prod.exists, exists_eq_right,
      ExtTreeMap.mem_toList_iff_getElem?_eq_some]
  refine ⟨fun c hc r hr => ?_, fun r hr => ?_, fun r hr hcov => ?_⟩
  · rw [Option.mem_def.mp hc] at hup
    refine (hmem r).mpr ⟨r.identity, hup.keeps _ _ ?_⟩
    exact (getElem?_fileMap_iff (hsound c hc).files.oneEach).mpr ⟨hr, rfl⟩
  · obtain ⟨i, hi⟩ := (hmem r).mp hr
    rcases hup.added i r hi with hold | ⟨href, rfl, bytes, hread, hin⟩
    · left
      obtain ⟨hfile, -⟩ := of_getElem?_fileMap hold
      cases previous with
      | none => cases hfile
      | some c => exact ⟨c, rfl, hfile⟩
    · obtain ⟨blob, o, hblob, hbytes, hopen, hobytes, hfrom⟩ := readFile_eq_some hread
      refine .inr ⟨href, o, blob, hblob, hbytes.trans hobytes.symm, ?_, ?_, hfrom⟩
      · rw [hobytes]
        exact hput _ hin
      · rwa [hobytes]
  · have hnot : sourceObjectIsCovered (previous.map fun c =>
        (c.manifest.writerFence, c.manifest.journalSeq)) r.identity.writerFence r.maxSeq =
          false := by
      cases previous with
      | none => rfl
      | some c =>
        have hc := hcov c rfl
        simp only [sourceObjectIsCovered, Option.map_some, Option.any_some]
        by_cases hf : r.identity.writerFence = c.manifest.writerFence
        · have hlt : ¬ r.maxSeq ≤ c.manifest.journalSeq := fun hle => hc ⟨hf, hle⟩
          simp [hlt]
        · simp [hf]
    obtain ⟨q, hq⟩ := Option.isSome_iff_exists.mp (hup.covers r hr hnot)
    refine ⟨q, (hmem q).mpr ⟨_, hq⟩, ?_⟩
    rcases hup.added _ q hq with hold | ⟨-, hid, -⟩
    · exact (of_getElem?_fileMap hold).2
    · exact hid

/-- An attempt that gets through, step by step. -/
theorem of_prepareFrom {pointer : ManifestPtr}
    (h : (prepareFrom disk remote volume snapshot forceCompaction previous).pointer = some pointer) :
    ∃ uploads current uploaded merges files puts,
      uploadFiles disk volume
        (previous.map fun c => (c.manifest.writerFence, c.manifest.journalSeq))
        (snapshot.blxRefs volume) (fileMap ((previous.map ManifestClosure.files).getD [])) =
          (uploads, some current) ∧
      remote.putAll uploads = some uploaded ∧
      archiveFiles uploaded.objects volume snapshot forceCompaction (current.toList.map Prod.snd) =
        (merges, some files) ∧
      metadataPuts volume snapshot previous files = some (puts, pointer) ∧
      (prepareFrom disk remote volume snapshot forceCompaction previous).puts =
        uploads ++ merges ++ puts := by
  simp only [prepareFrom] at h ⊢
  split at h
  · rename_i current uploaded hcurrent huploaded
    split at h
    · cases h
    · rename_i puts pointer' hputs
      obtain ⟨files, hfiles, hmeta⟩ := bind_eq_some.mp hputs
      cases h
      exact ⟨_, current, uploaded, _, files, puts, Prod.ext rfl hcurrent, huploaded,
        Prod.ext rfl hfiles, hmeta, rfl⟩
  · cases h

/-- **Publication.**  When all writes of an attempt are in the store, its manifest stands for files
that hold nothing but entries of the previous archive and of the record's files, among them the
newest of every key. -/
theorem publishes_of_prepareFrom {pointer : ManifestPtr} (hpages : snapshot.record.config.pages ≠ 0)
    (hwf : ∀ r ∈ snapshot.record.files, r.WellFormed)
    (hsound : ∀ c ∈ previous, SoundArchive remote.objects c)
    (hlist : ∀ c ∈ previous,
      loadList (remote.metadata bases) volume c.manifest.completeList = some c.completeList)
    (hle : remote.Le remote')
    (hput : ∀ p ∈ (prepareFrom disk remote volume snapshot forceCompaction previous).puts,
      remote' p.1 = some p.2)
    (h : (prepareFrom disk remote volume snapshot forceCompaction previous).pointer =
      some pointer) :
    ∃ current files, Publishes disk remote' bases volume snapshot previous pointer current files := by
  obtain ⟨uploads, current, uploaded, merges, files, puts, hup, huploaded, harchive, hmeta, hputs⟩ :=
    of_prepareFrom h
  rw [hputs] at hput
  have hput₁ : ∀ p ∈ uploads, remote' p.1 = some p.2 := fun p hp =>
    hput p (List.mem_append_left _ (List.mem_append_left _ hp))
  have hput₂ : ∀ p ∈ merges, remote' p.1 = some p.2 := fun p hp =>
    hput p (List.mem_append_left _ (List.mem_append_right _ hp))
  have hput₃ : ∀ p ∈ puts, remote' p.1 = some p.2 := fun p hp =>
    hput p (List.mem_append_right _ hp)
  have hupLe : uploaded.Le remote' := by
    intro key bytes hkey
    rcases Remote.of_putAll huploaded hkey with hold | hmem
    · exact hle _ _ hold
    · exact hput₁ _ hmem
  obtain ⟨hgrown, hthere⟩ := Remote.putAll_eq_some huploaded
  set currentFiles := current.toList.map Prod.snd with hcurrent
  have hgather : Gathers disk uploaded.objects volume snapshot previous currentFiles :=
    gathers_of_uploadFiles hsound hthere hup
  have hgather' : Gathers disk remote'.objects volume snapshot previous currentFiles :=
    gathers_of_uploadFiles hsound hput₁ hup
  have hcurrentWf : ∀ r ∈ currentFiles, r.WellFormed ∧ ∃ o, FileAt uploaded.objects r o := by
    intro r hr
    rcases hgather.origin r hr with ⟨c, hc, hrc⟩ | ⟨href, o, -, -, -, ho⟩
    · obtain ⟨o, ho⟩ := (hsound c hc).files r hrc
      exact ⟨(hsound c hc).wellFormed r hrc, o, ho.mono hgrown.objects⟩
    · exact ⟨hwf r (List.mem_filter.mp href).1, o, ho⟩
  have hcurrentStored : AllStored uploaded.objects currentFiles := fun r hr => (hcurrentWf r hr).2
  have hsame : ∀ e, EntryOf uploaded.objects currentFiles e ↔
      EntryOf remote'.objects currentFiles e := fun e =>
    ⟨fun he => he.mono hupLe.objects fun _ hr => hr,
      fun he => EntryOf.of_mono hcurrentStored hupLe.objects he⟩
  have hfiles : (∀ r ∈ files, (r.WellFormed ∧ ∃ o, FileAt remote'.objects r o) ∧
        (r ∈ currentFiles ∨ ∃ start, compactionObjectIdStart snapshot.record.seq = some start ∧
          start ≤ r.identity.objectId)) ∧
      Compacts (EntryOf remote'.objects currentFiles) (EntryOf remote'.objects files) := by
    rw [archiveFiles] at harchive
    split at harchive
    · obtain ⟨rfl, hfiltered⟩ := Prod.mk.inj harchive
      rw [Option.filter_eq_some_iff] at hfiltered
      obtain ⟨hall, hcompacts⟩ := compactFiles_spec hcurrentStored
        (Prod.ext rfl hfiltered.1) hput₂
      exact ⟨fun r hr => ⟨(hall r hr).1, .inr (hall r hr).2⟩, fun e he => (hsame e).mp (hcompacts.sub e he),
        fun e he => hcompacts.newest e ((hsame e).mpr he)⟩
    · have hsome : currentFiles = files := Option.some.inj (Prod.mk.inj harchive).2
      rw [← hsome]
      refine ⟨fun r hr => ?_, fun e he => he, fun e he => ⟨e, he, rfl, le_rfl⟩⟩
      obtain ⟨hw, o, ho⟩ := hcurrentWf r hr
      exact ⟨⟨hw, o, ho.mono hupLe.objects⟩, .inl hr⟩
  refine ⟨currentFiles, files, hgather', hcurrentStored.mono hupLe.objects,
    fun r hr => (hfiles.1 r hr).1, fun r hr => (hfiles.1 r hr).2, hfiles.2,
    fun closure hclosure => ?_⟩
  refine archiveOf_of_metadataPuts (fun r hr => ?_) (fun r hr => (hfiles.1 r hr).1.1) hpages
    (fun c hc => loadList_mono hle (hlist c hc)) hmeta hput₃ hclosure
  rcases List.mem_append.mp hr with hlisted | hr
  · cases previous with
    | none => cases hlisted
    | some c => exact ((hsound c rfl).listed.mono hle.objects) r hlisted
  · exact (hfiles.1 r hr).1.2

end

end Blockd
