import Blockd.Blx.Batch
import Blockd.Blx.Compact
import Blockd.Engine.Recovery

/-!
# Compaction keeps the visible state

`compactObjects` merges objects into a new batch.  Of every key it keeps the entry of the greatest
generation, in whatever order the objects come, and the new objects show the same blocks as the old
ones: `visibleBlocks` is the map that recovery rebuilds from footers, and `assembleStateChecksum` its
checksum.

Two things can go wrong, and nothing else (`compaction_preserves_iff`).  An object is opened without a
check that a stored block decompresses to a whole page, and the builder then panics on the short one.
And the new batch has to find an object id for every partition that it has a key in, from a first id
that the caller chooses.
-/

set_option autoImplicit false

open Codec
open Std (ExtTreeMap)

namespace Blockd

variable [Platform]

/-! ## The blocks that objects show -/

/-- What a footer says of a block: its key, generation, kind and checksum. -/
abbrev Digest := BlockKey × Gen × EntryKind × UInt64

def Digest.generation (digest : Digest) : Gen := digest.2.1

/-- The newest data blocks of an index, as `materialize_checksums` finds them. -/
def visibleBlocks (index : List Digest) : BlockChecksums :=
  (Newest.keepAll Digest.generation Prod.fst ∅ index).filterMap fun _ digest =>
    if digest.2.2.1 = .data then some (digest.2.1, digest.2.2.2) else none

/-- What the footers of the objects list. -/
def indexOf (objects : List BlxObject) : List Digest :=
  objects.flatMap fun o => o.footer.entries.map FooterEntry.digest

/-- What the footer of a file lists, if it was found. -/
def Found.entriesAt (found : Found) (file : ObjectRef) : List FooterEntry :=
  found.blxFooters[file.identity]?.elim [] BlxFooter.entries

variable {objects : List BlxObject} {parts : List (List BlxEntry)} {retain : Bool}
  {builder : BlxBatchBuilder}

theorem indexOf_eq (h : List.Forall₂ BlxObject.Contains objects parts) :
    indexOf objects = parts.flatten.map BlxEntry.digest := by
  induction h with
  | nil => rfl
  | cons hone _ ih =>
    rw [indexOf, List.flatMap_cons, List.flatten_cons, List.map_append, (stored_of_holds hone).2]
    exact congrArg _ ih

/-! ## What is kept -/

/-- An entry that no other of its key is newer than, and that goes into the new batch. -/
def Kept (retainTombstones : Bool) (entries : List BlxEntry) (e : BlxEntry) : Prop :=
  e ∈ entries ∧ (∀ f ∈ entries, f.key = e.key → f.generation ≤ e.generation) ∧
    BlxCompactor.kept retainTombstones e = true

/-- No two entries of a key have one generation. -/
def DistinctGenerations (entries : List BlxEntry) : Prop :=
  entries.Pairwise fun e f => e.key = f.key → e.generation ≠ f.generation

/-- A block is seen if it is the newest of its key and holds data. -/
theorem getElem?_visibleBlocks {entries : List BlxEntry} (hd : DistinctGenerations entries)
    {k : BlockKey} {v : Gen × UInt64} :
    (visibleBlocks (entries.map BlxEntry.digest))[k]? = some v ↔
      ∃ e ∈ entries, e.digest = (k, v.1, .data, v.2) ∧
        ∀ f ∈ entries, f.key = e.key → f.generation ≤ e.generation := by
  have hindex : (entries.map BlxEntry.digest).Pairwise fun d d' =>
      d.1 = d'.1 → Digest.generation d ≠ Digest.generation d' := List.pairwise_map.mpr hd
  rw [visibleBlocks, ExtTreeMap.getElem?_filterMap', Option.bind_eq_some_iff]
  constructor
  · rintro ⟨digest, hkept, hvisible⟩
    obtain ⟨hmem, rfl, hmax⟩ := (Newest.getElem?_keepAll_eq_some hindex).mp hkept
    obtain ⟨e, he, rfl⟩ := List.mem_map.mp hmem
    rw [Option.ite_none_right_eq_some, Option.some.injEq] at hvisible
    obtain ⟨hkind, rfl⟩ := hvisible
    exact ⟨e, he, congrArg (fun kind => (e.key, e.generation, kind, e.valueChecksum)) hkind,
      fun f hf hkey => hmax f.digest (List.mem_map_of_mem hf) hkey⟩
  · rintro ⟨e, he, hdigest, hmax⟩
    have hkey : e.key = k := congrArg Prod.fst hdigest
    refine ⟨e.digest, (Newest.getElem?_keepAll_eq_some hindex).mpr
      ⟨List.mem_map_of_mem he, hkey, fun d hd hk => ?_⟩, ?_⟩
    · obtain ⟨f, hf, rfl⟩ := List.mem_map.mp hd
      exact hmax f hf (hk.trans hkey.symm)
    · rw [hdigest]
      exact if_pos rfl

/-- **A kept entry for every key shows the same blocks.** -/
theorem visibleBlocks_eq {entries newest : List BlxEntry} (hd : DistinctGenerations entries)
    (hsorted : newest.Pairwise fun e f => e.key < f.key)
    (hkept : ∀ e, e ∈ newest ↔ Kept retain entries e) :
    visibleBlocks (newest.map BlxEntry.digest) = visibleBlocks (entries.map BlxEntry.digest) := by
  have hd' : DistinctGenerations newest := hsorted.imp fun hlt heq => absurd heq hlt.ne
  refine ExtTreeMap.ext_getElem? fun k => Option.ext fun v => ?_
  rw [getElem?_visibleBlocks hd', getElem?_visibleBlocks hd]
  constructor
  · rintro ⟨e, he, hdigest, -⟩
    obtain ⟨hmem, hmax, -⟩ := (hkept e).mp he
    exact ⟨e, hmem, hdigest, hmax⟩
  · rintro ⟨e, he, hdigest, hmax⟩
    have hkind : e.kind = .data := congrArg (fun d => d.2.2.1) hdigest
    refine ⟨e, (hkept e).mpr ⟨he, hmax, ?_⟩, hdigest, fun f hf => hmax f ((hkept f).mp hf).1⟩
    rw [BlxCompactor.kept, hkind, beq_self_eq_true, Bool.or_true]

/-! ## The footers that recovery reads -/

section

variable {newest : ExtTreeMap BlockKey (Gen × Option UInt64)} {kept : ExtTreeMap BlockKey Digest}

/-- What recovery keeps of a block. -/
def Digest.value (digest : Digest) : Gen × Option UInt64 :=
  (digest.2.1, if digest.2.2.1 = .data then some digest.2.2.2 else none)

/-- One entry of a footer, as recovery takes it in. -/
def takeEntry (newest : ExtTreeMap BlockKey (Gen × Option UInt64)) (f : FooterEntry) :
    ExtTreeMap BlockKey (Gen × Option UInt64) :=
  if newest[f.key]?.all fun old => decide (old.1 ≤ f.generation) then
    newest.insert f.key (f.generation, if f.kind = .data then some f.valueChecksum else none)
  else newest

theorem getElem?_takeEntry (h : ∀ k : BlockKey, newest[k]? = kept[k]?.map Digest.value)
    (f : FooterEntry) (k : BlockKey) : (takeEntry newest f)[k]? =
      (Newest.keep Digest.generation Prod.fst kept f.digest)[k]?.map Digest.value := by
  have hall : (newest[f.key]?.all fun old => decide (old.1 ≤ f.generation)) =
      (kept[f.digest.1]?.all fun old => decide (old.generation ≤ Digest.generation f.digest)) := by
    rw [h, Option.all_map]
    rfl
  rw [takeEntry, Newest.keep, hall]
  split
  · have hkey : f.digest.1 = f.key := rfl
    rw [Maps.getElem?_insert, Maps.getElem?_insert, hkey]
    split
    · rfl
    · exact h k
  · exact h k

theorem getElem?_takeEntries (h : ∀ k : BlockKey, newest[k]? = kept[k]?.map Digest.value)
    (entries : List FooterEntry) (k : BlockKey) : (entries.foldl takeEntry newest)[k]? =
      (Newest.keepAll Digest.generation Prod.fst kept
        (entries.map FooterEntry.digest))[k]?.map Digest.value := by
  induction entries generalizing newest kept with
  | nil => exact h k
  | cons f entries ih => exact ih (getElem?_takeEntry h f)

theorem getElem?_takeFiles (found : Found)
    (h : ∀ k : BlockKey, newest[k]? = kept[k]?.map Digest.value) (files : List ObjectRef)
    (k : BlockKey) :
    (files.foldl (fun newest file => match found.blxFooters[file.identity]? with
      | none => newest
      | some footer => footer.entries.foldl takeEntry newest) newest)[k]? =
      (Newest.keepAll Digest.generation Prod.fst kept
        ((files.flatMap found.entriesAt).map FooterEntry.digest))[k]?.map Digest.value := by
  induction files generalizing newest kept with
  | nil => exact h k
  | cons file files ih =>
    rw [List.foldl_cons, List.flatMap_cons, List.map_append, Newest.keepAll_append]
    refine ih fun k => ?_
    rw [Found.entriesAt]
    cases found.blxFooters[file.identity]? with
    | none => exact h k
    | some footer => exact getElem?_takeEntries h footer.entries k

/-- Recovery sees the visible blocks. -/
theorem Found.materializeChecksums_eq (found : Found) (files : List ObjectRef) :
    found.materializeChecksums files =
      visibleBlocks ((files.flatMap found.entriesAt).map FooterEntry.digest) := by
  refine ExtTreeMap.ext_getElem? fun k => ?_
  have hempty : ∀ k : BlockKey, (∅ : ExtTreeMap BlockKey (Gen × Option UInt64))[k]? =
      (∅ : ExtTreeMap BlockKey Digest)[k]?.map Digest.value := fun _ => by simp
  have h := getElem?_takeFiles found hempty files k
  rw [materializeChecksums, visibleBlocks, ExtTreeMap.getElem?_filterMap',
    ExtTreeMap.getElem?_filterMap']
  refine (congrArg (fun entry => Option.bind entry _) h).trans ?_
  rw [Option.bind_map]
  congr 1
  funext digest
  by_cases hkind : digest.2.2.1 = .data
  · simp [Digest.value, hkind]
  · simp [Digest.value, hkind]

/-- The last entry of the greatest generation that the footers of the files list for a key. -/
def Found.LastNewest (found : Found) (files : List ObjectRef) (k : BlockKey) (entry : FooterEntry) :
    Prop :=
  Newest.LastGreatest FooterEntry.generation FooterEntry.key (files.flatMap found.entriesAt) k entry

theorem Found.lastNewest_unique {found : Found} {files : List ObjectRef} {k : BlockKey}
    {entry other : FooterEntry} (h : found.LastNewest files k entry)
    (ho : found.LastNewest files k other) : entry = other :=
  Option.some.inj ((Newest.getElem?_keepAll_iff.mpr h).symm.trans (Newest.getElem?_keepAll_iff.mpr ho))

/-- A block is seen if the last entry of the greatest generation of its key holds data. -/
theorem Found.getElem?_materializeChecksums (found : Found) (files : List ObjectRef) (k : BlockKey)
    (v : Gen × UInt64) : (found.materializeChecksums files)[k]? = some v ↔
      ∃ entry, found.LastNewest files k entry ∧ entry.kind = .data ∧
        v = (entry.generation, entry.valueChecksum) := by
  rw [found.materializeChecksums_eq, visibleBlocks, ExtTreeMap.getElem?_filterMap',
    Option.bind_eq_some_iff]
  constructor
  · rintro ⟨digest, hkept, hvisible⟩
    obtain ⟨entry, rfl, hlast⟩ := Newest.lastGreatest_map.mp (Newest.getElem?_keepAll_iff.mp hkept)
    rw [Option.ite_none_right_eq_some, Option.some.injEq] at hvisible
    exact ⟨entry, hlast, hvisible.1, hvisible.2.symm⟩
  · rintro ⟨entry, hlast, hkind, rfl⟩
    exact ⟨entry.digest, Newest.getElem?_keepAll_iff.mpr (Newest.lastGreatest_map.mpr
      ⟨entry, rfl, hlast⟩), if_pos hkind⟩

/-- **Recovery keeps the last of the newest entries of every key**, and a tombstone there hides the
key: a key has a block exactly if that entry holds data, and none exactly if no footer lists the key
or that entry is a tombstone. -/
theorem materializeChecksums_exact (found : Found) (files : List ObjectRef) (k : BlockKey) :
    (∀ v, (found.materializeChecksums files)[k]? = some v ↔
      ∃ entry, found.LastNewest files k entry ∧ entry.kind = .data ∧
        v = (entry.generation, entry.valueChecksum)) ∧
    ((found.materializeChecksums files)[k]? = none ↔
      (∀ entry ∈ files.flatMap found.entriesAt, entry.key ≠ k) ∨
        ∃ entry, found.LastNewest files k entry ∧ entry.kind = .tombstone) := by
  have hsome := found.getElem?_materializeChecksums files k
  refine ⟨hsome, fun hnone => ?_, fun hhidden => Option.eq_none_iff_forall_ne_some.mpr ?_⟩
  · by_cases hlisted : ∃ entry ∈ files.flatMap found.entriesAt, entry.key = k
    · obtain ⟨entry, hlast⟩ : ∃ entry, found.LastNewest files k entry :=
        Newest.exists_lastGreatest hlisted
      refine .inr ⟨entry, hlast, ?_⟩
      cases hkind : entry.kind with
      | data =>
        rw [(hsome _).mpr ⟨entry, hlast, hkind, rfl⟩] at hnone
        cases hnone
      | tombstone => rfl
    · exact .inl fun entry hmem hkey => hlisted ⟨entry, hmem, hkey⟩
  · intro v hv
    obtain ⟨entry, hlast, hkind, -⟩ := (hsome v).mp hv
    rcases hhidden with hunlisted | ⟨other, hother, htombstone⟩
    · obtain ⟨before, after, hsplit, hkey, -⟩ := hlast
      exact hunlisted entry (by simp [hsplit]) hkey
    · rw [Found.lastNewest_unique hother hlast, hkind] at htombstone
      cases htombstone

end

/-! ## Compaction -/

def compactObjects (batch : BatchMeta) (inputs : List BlxObject) (retainTombstones : Bool) :
    Option (List BlxObject) := do
  let compactor ← inputs.foldlM (fun compactor input => compactor.addObject input.bytes)
    BlxCompactor.default
  compactor.finish batch retainTombstones

namespace BlxCompactor

variable {c : BlxCompactor} {batch : BatchMeta} {retain : Bool}

theorem addObjects_eq {inputs : List BlxObject} {parts : List (List BlxEntry)}
    (hopen : ∀ o ∈ inputs, BlxObject.open o.bytes = some o)
    (hparts : List.Forall₂ BlxObject.Contains inputs parts) :
    inputs.foldlM (fun compactor input => compactor.addObject input.bytes) c =
      some ⟨Newest.keepAll BlxEntry.generation BlxEntry.key c.newest parts.flatten⟩ := by
  induction hparts generalizing c with
  | nil => rfl
  | cons hone _ ih =>
    rw [List.foldlM_cons, addObject_eq (hopen _ List.mem_cons_self) hone, some_bind,
      ih fun o ho => hopen o (List.mem_cons_of_mem _ ho), List.flatten_cons, Newest.keepAll_append]

end BlxCompactor

/-- What a compaction makes of the entries. -/
structure Compacted (retainTombstones : Bool) (inputs : List BlxObject) (entries : List BlxEntry)
    (objects : List BlxObject) (chunks : List (List BlxEntry)) : Prop where
  holds : List.Forall₂ BlxObject.Contains objects chunks
  /-- The newest entry of every key, and no other. -/
  newest : ∀ e, e ∈ chunks.flatten ↔ Kept retainTombstones entries e
  sorted : chunks.flatten.Pairwise fun e f => e.key < f.key
  disjoint : objects.Pairwise fun o p => o.header.lastKey < p.header.firstKey
  onePartition : ∀ o ∈ objects, o.header.firstKey.filePartition = o.header.lastKey.filePartition
  /-- The same blocks are seen, and so the state has the same checksum. -/
  visible : visibleBlocks (indexOf objects) = visibleBlocks (indexOf inputs)
  stateChecksum : assembleStateChecksum (visibleBlocks (indexOf objects)) =
    assembleStateChecksum (visibleBlocks (indexOf inputs))

/-- A partitioned batch that has the kept entries. -/
structure KeptBatch (batch : BatchMeta) (retainTombstones : Bool) (entries : List BlxEntry)
    (builder : BlxBatchBuilder) : Prop where
  batch : builder.batch = batch
  split : builder.splitAtFilePartitions = true
  entries : ∀ e : BlxEntry, builder.entries[e.key]? = some e ↔ Kept retainTombstones entries e

theorem compacted_of_finish {inputs : List BlxObject} {batch : BatchMeta}
    (hparts : List.Forall₂ BlxObject.Contains inputs parts) (hd : DistinctGenerations parts.flatten)
    (h : KeptBatch batch retain parts.flatten builder) (hfinish : builder.finish = some objects) :
    Compacted retain inputs parts.flatten objects builder.chunks := by
  have hholds := BlxBatchBuilder.contains_chunks hfinish
  have hnewest : ∀ e, e ∈ builder.chunks.flatten ↔ Kept retain parts.flatten e := by
    intro e
    rw [builder.mem_chunks, h.entries]
  have hsorted : builder.chunks.flatten.Pairwise fun e f => e.key < f.key := by
    rw [builder.flatten_chunks]
    exact builder.entries_sorted
  have hvisible : visibleBlocks (indexOf objects) = visibleBlocks (indexOf inputs) := by
    rw [indexOf_eq hholds, indexOf_eq hparts]
    exact visibleBlocks_eq hd hsorted hnewest
  refine ⟨hholds, hnewest, hsorted, (builder.finish_batch hfinish).ranges, fun o ho => ?_, hvisible,
    by rw [hvisible]⟩
  obtain ⟨i, hi⟩ := List.mem_iff_getElem?.mp ho
  obtain ⟨-, -, entries, objectId, hchunk, -, hencode⟩ := builder.getElem?_of_finish hfinish hi
  obtain ⟨first, hfirst, last, hlast, -, -, hheader⟩ := keys_of_encodeObject hencode
  rw [hheader]
  exact builder.samePartition_of_mem h.split entries (List.mem_of_getElem? hchunk) first hfirst last
    hlast

/-- The compactor's batch, once the objects have been added. -/
theorem keptBatch_iff {batch : BatchMeta} {entries : List BlxEntry}
    (hd : DistinctGenerations entries) :
    BlxCompactor.BatchOf ⟨Newest.keepAll BlxEntry.generation BlxEntry.key ∅ entries⟩ batch retain
      builder ↔ KeptBatch batch retain entries builder := by
  have hkept : ∀ e : BlxEntry,
      (Newest.keepAll BlxEntry.generation BlxEntry.key ∅ entries)[e.key]? = some e ∧
        BlxCompactor.kept retain e = true ↔ Kept retain entries e := by
    intro e
    rw [Newest.getElem?_keepAll_eq_some hd, Kept, and_assoc, eq_self, true_and]
  constructor
  · intro h
    exact ⟨h.batch, h.split, fun e => (h.entries e).trans (hkept e)⟩
  · intro h
    exact ⟨h.batch, h.split, fun e => (h.entries e).trans (hkept e).symm⟩

/-- **What is compacted is the batch of the kept entries.** -/
theorem compactObjects_eq_some {batch : BatchMeta} {inputs : List BlxObject}
    (hopen : ∀ o ∈ inputs, BlxObject.open o.bytes = some o)
    (hparts : List.Forall₂ BlxObject.Contains inputs parts)
    (hd : DistinctGenerations parts.flatten) : compactObjects batch inputs retain = some objects ↔
      ∃ builder, KeptBatch batch retain parts.flatten builder ∧ builder.finish = some objects := by
  have hkeyed : BlxCompactor.Keyed
      ⟨Newest.keepAll BlxEntry.generation BlxEntry.key ∅ parts.flatten⟩ := by
    intro k e he
    exact ((Newest.getElem?_keepAll_eq_some hd).mp he).2.1
  rw [compactObjects, BlxCompactor.addObjects_eq hopen hparts, some_bind]
  refine (BlxCompactor.finish_eq_some hkeyed).trans (exists_congr fun builder => ?_)
  exact and_congr_left' (keptBatch_iff hd)

/-- **Compaction keeps the visible state**, exactly when the entries it keeps are whole pages and the
new objects find their ids. -/
theorem compaction_preserves_iff (hpages : SystemPages) (batch : BatchMeta)
    (retainTombstones : Bool) (inputs : List BlxObject) (parts : List (List BlxEntry))
    (hopen : ∀ o ∈ inputs, BlxObject.open o.bytes = some o)
    (hparts : List.Forall₂ BlxObject.Contains inputs parts)
    (hd : DistinctGenerations parts.flatten) :
    (∃ objects chunks, compactObjects batch inputs retainTombstones = some objects ∧
      Compacted retainTombstones inputs parts.flatten objects chunks) ↔
      ∃ builder, KeptBatch batch retainTombstones parts.flatten builder ∧
        builder.objectIdsFit = true := by
  constructor
  · rintro ⟨objects, chunks, h, -⟩
    obtain ⟨builder, hkept, hfinish⟩ := (compactObjects_eq_some hopen hparts hd).mp h
    exact ⟨builder, hkept, (builder.exists_finish_iff hpages).mp ⟨objects, hfinish⟩⟩
  · rintro ⟨builder, hkept, hids⟩
    obtain ⟨objects, hfinish⟩ := (builder.exists_finish_iff hpages).mpr hids
    exact ⟨objects, builder.chunks,
      (compactObjects_eq_some hopen hparts hd).mpr ⟨builder, hkept, hfinish⟩,
      compacted_of_finish hparts hd hkept hfinish⟩

/-! ## Batches over many partitions -/

/-- A partitioned batch has a chunk for every partition. -/
theorem BlxBatchBuilder.length_le_chunks (hsplit : builder.splitAtFilePartitions = true)
    {entries : List BlxEntry} (hmem : ∀ e ∈ entries, e ∈ builder.chunks.flatten)
    (hpart : (entries.map fun e => e.key.filePartition).Nodup) :
    entries.length ≤ builder.chunks.length := by
  have hnodup : (entries.map fun e => some e.key.filePartition).Nodup := by
    have h := hpart.map (Option.some_injective _)
    rwa [List.map_map] at h
  have hsub : (entries.map fun e => some e.key.filePartition) ⊆
      builder.chunks.map fun c => c.head?.map fun e => e.key.filePartition := by
    intro p hp
    obtain ⟨e, he, rfl⟩ := List.mem_map.mp hp
    obtain ⟨c, hc, hec⟩ := List.mem_flatten.mp (hmem e he)
    obtain ⟨first, hfirst⟩ := Option.ne_none_iff_exists'.mp
      (mt List.head?_eq_none_iff.mp (List.ne_nil_of_mem hec))
    refine List.mem_map.mpr ⟨c, hc, ?_⟩
    rw [hfirst, Option.map_some,
      builder.samePartition_of_mem hsplit c hc first (List.mem_of_mem_head? hfirst) e hec]
  have hle := (List.subperm_of_subset hnodup hsub).length_le
  rwa [List.length_map, List.length_map] at hle

/-- A deletion marker of a block. -/
def marker (block : UInt32) : BlxEntry := .tombstone ⟨.data, block⟩ 1

theorem BlxBatchBuilder.entries_foldl_addTombstone (builder : BlxBatchBuilder)
    (blocks : List UInt32) :
    (blocks.foldl (fun builder block => builder.addTombstone ⟨.data, block⟩ 1) builder).entries =
      Newest.keepAll BlxEntry.generation BlxEntry.key builder.entries (blocks.map marker) := by
  induction blocks generalizing builder with
  | nil => rfl
  | cons block blocks ih =>
    have hone : (builder.addTombstone ⟨.data, block⟩ 1).entries =
        Newest.keep BlxEntry.generation BlxEntry.key builder.entries (marker block) :=
      entries_insert builder (marker block) trivial
    rw [List.foldl_cons, ih, hone]
    rfl

theorem BlxBatchBuilder.batch_markers (firstObjectId : UInt64) (blocks : List UInt32) :
    (markers firstObjectId blocks).batch = ⟨.volume, 7, 1, firstObjectId, 1, 1, 1, 0, 0⟩ := by
  have hfold : ∀ builder : BlxBatchBuilder,
      (blocks.foldl (fun builder block => builder.addTombstone ⟨.data, block⟩ 1) builder).batch =
        builder.batch := by
    intro builder
    induction blocks generalizing builder with
    | nil => rfl
    | cons block blocks ih => exact (ih _).trans (batch_insert ..)
  exact hfold _

/-- A batch of markers has a marker for each of its blocks. -/
theorem BlxBatchBuilder.getElem?_markers (firstObjectId : UInt64) {blocks : List UInt32}
    {block : UInt32} (h : block ∈ blocks) :
    (markers firstObjectId blocks).entries[(marker block).key]? = some (marker block) := by
  rw [markers, entries_foldl_addTombstone]
  obtain ⟨e, he, -⟩ : ∃ e, (Newest.keepAll BlxEntry.generation BlxEntry.key ∅
      (blocks.map marker))[(marker block).key]? = some e ∧
        (marker block).generation ≤ e.generation :=
    Newest.exists_getElem?_keepAll (List.mem_map_of_mem h)
  rcases Newest.of_getElem?_keepAll he with ⟨hmem, hkey⟩ | hnone
  · obtain ⟨block', -, rfl⟩ := List.mem_map.mp hmem
    obtain rfl : block' = block := congrArg BlockKey.block hkey
    exact he
  · simp at hnone

/-! ## Compacting the objects of one batch -/

namespace BlxBatchBuilder

theorem distinctGenerations (builder : BlxBatchBuilder) :
    DistinctGenerations builder.chunks.flatten := by
  rw [builder.flatten_chunks]
  exact builder.entries_sorted.imp fun hlt heq => absurd heq hlt.ne

/-- Every entry of a batch is kept, as there is no other of its key. -/
theorem kept_iff (builder : BlxBatchBuilder) {e : BlxEntry} :
    Kept true builder.chunks.flatten e ↔ builder.entries[e.key]? = some e := by
  constructor
  · rintro ⟨hmem, -⟩
    exact builder.mem_chunks.mp hmem
  · intro he
    refine ⟨builder.mem_chunks.mpr he, fun f hf hkey => ?_, rfl⟩
    have hf' := builder.mem_chunks.mp hf
    rw [hkey, he] at hf'
    rw [Option.some.inj hf']

end BlxBatchBuilder

/-- A partitioned batch of the entries. -/
def BlxBatchBuilder.holding (batch : BatchMeta) (entries : List BlxEntry)
    (hvalid : ∀ e ∈ entries, e.Valid) (hseq : batch.minSeq ≤ batch.maxSeq) :
    BlxBatchBuilder :=
  ⟨batch, Newest.keepAll BlxEntry.generation BlxEntry.key ∅ entries, true, hseq, fun key e he => by
    rcases Newest.of_getElem?_keepAll he with ⟨hmem, hkey⟩ | hnone
    · exact ⟨hkey, hvalid e hmem⟩
    · simp at hnone⟩

/-- Three blocks in two partitions. -/
def firstBatch : BlxBatchBuilder :=
  .holding ⟨.volume, 7, 1, 1, 1, 1, 1, 0, 0⟩
    [.data ⟨.data, 0⟩ 1 (List.replicate pageSize 1), .data ⟨.data, 1⟩ 1 (List.replicate pageSize 1),
      .data ⟨.data, 4096⟩ 1 (List.replicate pageSize 1)]
    (by simp [BlxEntry.Valid]) le_rfl

/-- The first block is written again and the second one deleted. -/
def laterBatch : BlxBatchBuilder :=
  .holding ⟨.volume, 7, 1, 5, 2, 2, 5, 0, 0⟩
    [.data ⟨.data, 0⟩ 2 (List.replicate pageSize 2), .tombstone ⟨.data, 1⟩ 2]
    (by simp [BlxEntry.Valid]) le_rfl

/-- The entries of both batches as one. -/
def mergedBatch : BlxBatchBuilder :=
  .holding ⟨.volume, 7, 1, 9, 2, 2, 9, 0, 0⟩ (laterBatch.chunks ++ firstBatch.chunks).flatten
    (by
      simp only [List.flatten_append, List.mem_append, BlxBatchBuilder.mem_chunks]
      rintro e (he | he)
      · exact (laterBatch.keyed _ _ he).2
      · exact (firstBatch.keyed _ _ he).2) le_rfl

omit [Platform] in
set_option maxRecDepth 20000 in
theorem compaction_preserves_iff_rewritten :
    letI := storedPlatform
    ∃ inputs parts, (∀ o ∈ inputs, BlxObject.open o.bytes = some o) ∧
      List.Forall₂ BlxObject.Contains inputs parts ∧ DistinctGenerations parts.flatten ∧
      (∃ old ∈ parts.flatten, ∃ new ∈ parts.flatten,
        old.key = new.key ∧ old.generation < new.generation ∧ new.kind = .data) ∧
      ∃ objects chunks, compactObjects ⟨.volume, 7, 1, 9, 2, 2, 9, 0, 0⟩ inputs true = some objects ∧
        Compacted true inputs parts.flatten objects chunks := by
  let _ := storedPlatform
  have hpages : SystemPages := ⟨by decide, by decide⟩
  obtain ⟨olds, holds⟩ := (firstBatch.exists_finish_iff hpages).mpr (by decide +kernel)
  obtain ⟨news, hnews⟩ := (laterBatch.exists_finish_iff hpages).mpr (by decide +kernel)
  have hopen : ∀ o ∈ news ++ olds, BlxObject.open o.bytes = some o := by
    intro o ho
    rcases List.mem_append.mp ho with ho | ho
    · exact (BlxBatchBuilder.finish_batch hnews).opens o ho
    · exact (BlxBatchBuilder.finish_batch holds).opens o ho
  have hparts := List.rel_append (BlxBatchBuilder.contains_chunks hnews)
    (BlxBatchBuilder.contains_chunks holds)
  have hd : DistinctGenerations (laterBatch.chunks ++ firstBatch.chunks).flatten := by
    unfold DistinctGenerations
    decide +kernel
  refine ⟨news ++ olds, _, hopen, hparts, hd, by decide +kernel,
    (compaction_preserves_iff hpages _ true _ _ hopen hparts hd).mpr
      ⟨mergedBatch, ⟨rfl, rfl, fun e => ?_⟩, by decide +kernel⟩⟩
  exact (Newest.getElem?_keepAll_eq_some hd).trans (by simp [Kept, BlxCompactor.kept])

/-- More partitions than `build_replica_archive` has object ids for. -/
def manyBlocks : List UInt32 := (List.range 1026).map fun i => UInt32.ofNat (i * 1024)

/-- The batch that `build_replica_archive` compacts into, under fence 2. -/
def recoveredBatch : BatchMeta :=
  ⟨.volume, 7, 2, 0xFFFFFFFFFFFFFFFF - 1024, 1, 1, 0xFFFFFFFFFFFFFFFF - 1024, 0, 0⟩

omit [Platform] in
theorem nodup_manyBlocks :
    letI := storedPlatform
    ((manyBlocks.map marker).map fun e => e.key.filePartition).Nodup := by
  let _ := storedPlatform
  have hblocks : blocksPerFilePartition = 1024 := by decide
  have hpart : ∀ i < 1026, (marker (UInt32.ofNat (i * 1024))).key.filePartition = (i, 0) := by
    intro i hi
    rw [BlockKey.filePartition_eq, BlockKey.partIndex, hblocks]
    show ((UInt32.ofNat (i * 1024)).toNat / 1024, 0) = (i, 0)
    rw [toNat_ofNat32 (by omega), Nat.mul_div_cancel i (by decide)]
  rw [manyBlocks, List.map_map, List.map_map, List.nodup_iff_pairwise_ne, List.pairwise_map]
  refine List.pairwise_lt_range.imp_of_mem fun {i j} hi hj hlt heq => ?_
  have hij : (i, 0) = (j, 0) :=
    (hpart i (List.mem_range.mp hi)).symm.trans (heq.trans (hpart j (List.mem_range.mp hj)))
  exact hlt.ne (congrArg Prod.fst hij)

omit [Platform] in
/-- **Compaction can fail on valid objects.**  A replica of more than 1025 partitions cannot be made
into an archive: the object ids from `u64::MAX - 1024` on are not enough. -/
theorem not_compaction_preserves : ¬ ∀ [Platform] (_ : SystemPages) (batch : BatchMeta)
    (_ : batch.minSeq ≤ batch.maxSeq) (retainTombstones : Bool) (inputs : List BlxObject)
    (parts : List (List BlxEntry)), (∀ o ∈ inputs, BlxObject.open o.bytes = some o) →
    (∀ o ∈ inputs, o.header.namespaceKind = batch.namespaceKind ∧
      o.header.namespaceId = batch.namespaceId) →
    List.Forall₂ BlxObject.Contains inputs parts → DistinctGenerations parts.flatten →
    ∃ objects chunks, compactObjects batch inputs retainTombstones = some objects ∧
      Compacted retainTombstones inputs parts.flatten objects chunks := by
  intro hall
  let _ := storedPlatform
  have hpages : SystemPages := ⟨by decide, by decide⟩
  have hsource := (BlxBatchBuilder.markers 0 manyBlocks).length_chunks_lt hpages
  obtain ⟨inputs, hinputs⟩ :
      ∃ inputs, (BlxBatchBuilder.markers 0 manyBlocks).finish = some inputs := by
    rw [BlxBatchBuilder.exists_finish_iff hpages, BlxBatchBuilder.objectIdsFit_iff hpages,
      BlxBatchBuilder.batch_markers]
    show 0 + _ ≤ 2 ^ 64
    omega
  have hbatch := BlxBatchBuilder.finish_batch hinputs
  have hparts := BlxBatchBuilder.contains_chunks hinputs
  have hd := (BlxBatchBuilder.markers 0 manyBlocks).distinctGenerations
  obtain ⟨objects, -, hcompact, -⟩ := hall hpages recoveredBatch (by decide) true inputs _
    hbatch.opens (fun o ho => by
      have hfields := hbatch.fields o ho
      rw [BlxBatchBuilder.batch_markers] at hfields
      exact ⟨hfields.1, hfields.2.1⟩) hparts hd
  obtain ⟨builder, hkept, hfinish⟩ := (compactObjects_eq_some hbatch.opens hparts hd).mp hcompact
  -- all markers are kept, each in a partition of its own
  have hmany : (manyBlocks.map marker).length ≤ builder.chunks.length := by
    refine BlxBatchBuilder.length_le_chunks hkept.split (fun e he => ?_) nodup_manyBlocks
    obtain ⟨block, hblock, rfl⟩ := List.mem_map.mp he
    rw [builder.mem_chunks, hkept.entries, BlxBatchBuilder.kept_iff]
    exact BlxBatchBuilder.getElem?_markers 0 hblock
  have hids := (BlxBatchBuilder.objectIdsFit_iff hpages builder).mp
    ((builder.exists_finish_iff hpages).mp ⟨objects, hfinish⟩)
  have hfirst : builder.batch.firstObjectId.toNat = 2 ^ 64 - 1025 := by
    rw [hkept.batch]
    rfl
  rw [List.length_map, manyBlocks, List.length_map, List.length_range] at hmany
  omega

end Blockd
