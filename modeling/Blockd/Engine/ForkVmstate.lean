import Blockd.Engine.ForkAtomic
import Blockd.Engine.Traces

/-!
# A fork's own vmstate

A fork publishes its own files over the objects of its base.  Is the vmstate its head leads to the
one of the fork's last published checkpoint, over every sequence of checkpoints, publications and
restores?

It is, as long as every checkpoint's number is above the generations of the base's VMM entries
(`fork_vmstate`).  The entries of a checkpoint have its journal number as their generation, and the
numbers of a fork start again at 1, so a base with a longer history wins over its fork
(`not_fork_vmstate`).
-/

set_option autoImplicit false

open Codec
open Std (ExtTreeMap)

namespace Blockd

section

variable [Platform]

/-! ## A new fork -/

/-- The base is in the store. -/
structure ForkBase.InStore (b : ForkBase) (bases : BaseRef → Option BaseManifest)
    (remote : Remote) : Prop where
  manifest : bases b.root.asBaseRef = some b.manifest
  objects : AllStored remote.objects b.manifest.objects

namespace Lineage

variable {bases : BaseRef → Option BaseManifest} {b : ForkBase} {s t : Lineage} {volume : VolumeId}
  {stash : StashAssignment} {fence version : UInt64} {remote : Remote}

/-- The first archive of a fork has no files. -/
theorem archiveHolds_child {store : ObjectStore} {written : ObjectIdentity → Option Bytes}
    {closure : ManifestClosure} (hmanifest : closure.manifest = b.childManifest volume fence)
    (hlist : closure.completeList = none) (hfiles : closure.files = []) :
    ArchiveHolds store (fun _ => none) written closure := by
  have hlisted : closure.listed = [] := by rw [ManifestClosure.listed, hlist]; rfl
  refine ⟨⟨by simp [hfiles], fun r hr => ?_, fun r hr => ?_⟩, by simp [hfiles], ?_, ?_, ?_, by simp,
    by simp⟩
  · rw [hfiles] at hr
    cases hr
  · rw [hlisted] at hr
    cases hr
  · rw [hmanifest]
    exact b.pages
  · rw [hmanifest]
    show (0 : JournalSeq).toNat < 2 ^ 31 - 1
    decide
  · rintro e ⟨r, hr, -⟩
    rw [hfiles] at hr
    cases hr

theorem traces_forked (hbase : b.InStore bases remote)
    (hs : forked b volume stash fence version remote = some s) : s.Traces bases b := by
  simp only [forked, bind_eq_some, ensure_eq_some, exists_const, pure_eq_some] at hs
  obtain ⟨recordBytes, hrecord, bytes, hbytes, remote', hput, hversion, rfl⟩ := hs
  obtain ⟨hle, hthere⟩ := Remote.put_eq_some hput
  have hstored := hbase.objects.mono hle.objects
  have hlt : (0 : JournalSeq) < 1 := by decide
  have hfiles : ∀ f ∈ (b.record fence).files, f.WellFormed := by simp [ForkBase.record]
  have hdecode : JournalRecord.decode volume recordBytes = some (b.record fence).durable :=
    (JournalRecord.decode_encode_iff hrecord hfiles).mpr ((validateObjects_none_iff hfiles).mp rfl)
  refine ⟨⟨?_, ?_, b.pages, by simp, by simp, fun i r hi => ?_, fun i blob hi => ?_, fun _ _ => rfl, ?_,
    UInt64.le_iff_toNat_le.mpr (Nat.zero_le _), by simp⟩, ⟨_, rfl, rfl, ?_⟩, by simp, rfl,
    ⟨_, rfl⟩, fun record hlive => ?_, ?_, ?_,
    ⟨hversion.le, by simp, by simp⟩, hstored, by simp⟩
  · refine Primary.inv_of_unwritten rfl rfl rfl rfl fun name found hget => ?_
    rw [Maps.getElem?_insert] at hget
    split at hget
    · rename_i hname
      cases hget
      exact ⟨_, hdecode, hname.symm, rfl, hlt, rfl, rfl⟩
    · simp at hget
  · intro i r hi
    simp [ForkBase.published, ForkBase.claimed, ServedVolume.fresh, VolumeState.fresh] at hi
  · simp [ForkBase.published, ForkBase.claimed, ServedVolume.fresh, VolumeState.fresh] at hi
  · simp at hi
  · rintro _ ⟨⟩
    exact hlt
  · intro remote'' hremote _ closure hclosure
    have hmanifest : closure.manifest = b.childManifest volume fence := by
      obtain ⟨found, hfound, hread⟩ := hclosure.manifest
      have heq : found = bytes := Option.some.inj (hfound.symm.trans (hremote _ _ hthere))
      have hchild := Manifest.decode_encode hbytes b.pages (by simp [ForkBase.childManifest])
      rw [heq] at hread
      exact Option.some.inj (hread.symm.trans hchild)
    have hlist : closure.completeList = none := by
      have hloaded := hclosure.list
      rw [hmanifest] at hloaded
      exact (Option.some.inj hloaded).symm
    have hnone : closure.files = [] := by
      have hcurrent := hclosure.files
      rw [hmanifest, hlist, b.currentFiles_childManifest] at hcurrent
      exact (Option.some.inj hcurrent).symm
    exact ⟨by rw [hmanifest]; rfl, archiveHolds_child hmanifest hlist hnone⟩
  · obtain rfl : b.record fence = record := by
      rcases hlive with hnone | hnone | hbest
      · cases hnone
      · cases hnone
      · exact Option.some.inj hbest
    have hsmall : (0 : JournalSeq).toNat < 2 ^ 31 - 1 := by decide
    exact ⟨hlt, ⟨by simp [ForkBase.record], hfiles, by simp [ForkBase.record], b.pages, hsmall,
      by simp⟩, .inl rfl⟩
  · rw [names, pairwise_names_iff]
    exact ⟨⟨.none_right _, .none_right _, .none_right _, .refl _⟩,
      ⟨.none_left _, .none_left _, .none_left _⟩, ⟨.none_left _, .none_left _⟩, .none_left _⟩
  · exact fun _ => ⟨rfl, rfl⟩

/-! ## Whole runs -/

/-- The number of a checkpoint is above the generations of the base's VMM entries; numbers are far
from running out, and a capture is abandoned only before its first file. -/
def ForkSafe (b : ForkBase) (s : Lineage) : LineageStep → Prop
  | .capture a => s.SafeNumbers a ∧
    ∀ kind checkpoint prepared, a = .reserve kind (some checkpoint) prepared → ∀ e,
      EntryOf s.remote.objects b.manifest.objects e → e.key.space = .vmm →
        e.generation < s.primary.volume.nextSeq
  | _ => True

/-- **One step.** -/
theorem Traces.step (h : s.Traces bases b) {a : LineageStep} (hsafe : ForkSafe b s a)
    (hs : s.step bases a = some t) : t.Traces bases b := by
  cases a with
  | capture a => exact h.capture hsafe.1 hsafe.2 hs
  | reset => exact h.reset hs
  | assign =>
    cases hs
    exact h.assign
  | send => exact h.send hs
  | finishCommit => exact h.finishCommit hs
  | publish => exact h.publish hs
  | put => exact h.put hs
  | publishHead version => exact h.publishHead hs
  | giveUp =>
    cases hs
    exact h.giveUp
  | restore fence version => exact h.restore hs

/-- What the head leads to is the vmstate of the checkpoint that was published last. -/
def OwnVmstate (bases : BaseRef → Option BaseManifest) (s : Lineage) : Prop :=
  ∀ pointer ∈ s.head, ∀ closure objects base,
    loadArchiveMetadata (s.remote.metadata bases) s.primary.id pointer = some closure →
    loadArchiveClosure (s.remote.metadata bases) s.primary.id (some pointer) =
      some (objects, base) →
    ∀ bytes ∈ s.vmstates pointer.name, closure.manifest.recoveryKind = .whole ∧
      loadVmstate s.remote.objects objects closure.manifest.vmstateLogicalLength = some bytes

/-- In the archive's objects, the base's among them, the checkpoint's entries are the newest. -/
theorem Traces.ownVmstate (h : s.Traces bases b) (hbase : bases b.root.asBaseRef = some b.manifest) :
    s.OwnVmstate bases := by
  intro pointer hpointer closure objects base hload hobjects bytes hbytes
  obtain ⟨headPointer, hhead, -, hleads⟩ := h.head
  obtain rfl : headPointer = pointer := Option.some.inj (hhead.symm.trans hpointer)
  have hloaded := loadedFrom_of_load hload
  have hname : closure.name = headPointer.name := Prod.ext hloaded.names.1 hloaded.names.2
  obtain ⟨hreference, hholds⟩ := hleads s.remote (.refl _) (by simp) closure hloaded
  obtain ⟨m, hm, rfl⟩ := (of_loadArchiveClosure hload hobjects).2 _ hreference
  obtain rfl : b.manifest = m := Option.some.inj (hbase.symm.trans hm)
  rw [← hname] at hbytes
  obtain ⟨hwhole, hlength, -⟩ := hholds.whole bytes hbytes
  obtain ⟨blocks, hblocks, hall⟩ := hholds.blocks bytes hbytes
  have hstored : AllStored s.remote.objects (b.manifest.objects ++ closure.files) := by
    intro r hr
    rcases List.mem_append.mp hr with hr | hr
    · exact h.baseStored r hr
    · exact hholds.sound.files r hr
  have hfound : ∀ key padded, (key, padded) ∈ blocks → loadVmmBlock s.remote.objects
      (b.manifest.objects ++ closure.files) key.block = some (closure.name.2, padded) := by
    intro key padded hp
    have hkey : key ∈ blocks.map Prod.fst := List.mem_map_of_mem hp
    rw [(keys_vmmSnapshotBlocks hblocks).2] at hkey
    obtain ⟨block, -, rfl⟩ := List.mem_map.mp hkey
    refine loadVmmBlock_of_newest hstored (entryOf_append.mpr (.inr (hall _ _ hp)))
      fun e he hekey => ?_
    have hvmm : e.key.space = .vmm := by rw [hekey]
    rcases entryOf_append.mp he with he | he
    · exact .inl (h.baseOlder _ _ hbytes e he hvmm)
    · obtain ⟨hle, hown⟩ := hholds.entries e he hvmm
      rcases hle.lt_or_eq with hlt | heq
      · exact .inl hlt
      · right
        have hdata := (hown heq hvmm).2 bytes hbytes blocks hblocks padded (by rw [hekey]; exact hp)
        rw [hdata, hekey]
  exact ⟨hwhole, loadVmstate_of_blocks hblocks hlength hfound⟩

end Lineage

/-- **A fork's own vmstate wins.**  Over every sequence of captures, checkpoints, replications,
publications and restores of a fork, in which every checkpoint has a number above the generations of
the base's VMM entries, the head leads to the vmstate of the checkpoint that was published last. -/
theorem fork_vmstate {bases : BaseRef → Option BaseManifest} {b : ForkBase} {volume : VolumeId}
    {stash : StashAssignment} {fence version : UInt64} {remote : Remote} {s t : Lineage}
    {steps : List LineageStep} (hbase : b.InStore bases remote)
    (hfork : Lineage.forked b volume stash fence version remote = some s)
    (hok : Run.Along (Lineage.step bases) (Lineage.ForkSafe b) s steps)
    (hrun : Run.run (Lineage.step bases) s steps = some t) : t.OwnVmstate bases := by
  have htraces : t.Traces bases b := Run.run_invariant
    (fun s a t (h : s.Traces bases b) hsafe hs => h.step hsafe hs)
    (Lineage.traces_forked hbase hfork) hok hrun
  exact htraces.ownVmstate hbase.manifest

end

/-! ## A base with a history of its own -/

namespace OldBase

attribute [local instance] storedPlatform

def padded (first : UInt8) : Bytes := first :: List.replicate 4095 0

/-- The vmstate block of the base, which its checkpoint numbered `generation` has written. -/
def entry (generation : Gen) : BlxEntry := .data ⟨.vmm, 0⟩ generation (padded 1)

def file (generation : Gen) (layout : Layout) : BlxObject :=
  .single Interrupted.batch 0 0 1 (entry generation) layout

theorem validateObjectRefs_file (generation : Gen) (layout : Layout) :
    validateObjectRefs [.fromBlx (file generation layout)] = true := by
  with_unfolding_all rfl

def base (generation : Gen) (layout : Layout) : ForkBase where
  root := ⟨7, 0, 0, 5⟩
  manifest := ⟨7, 0, 1, 0, .whole, 0, ⟨.memory, 2048⟩, 1, 5, 0, [.fromBlx (file generation layout)]⟩
  named := Interrupted.named_root
  sync_le := by
    show (0 : UInt64) ≤ 1
    decide
  pages := by
    show (2048 : UInt32) ≠ 0
    decide
  valid := validateObjectRefs_file generation layout

def bases (generation : Gen) (layout : Layout) (reference : BaseRef) : Option BaseManifest :=
  if reference = ⟨7, 0, 0, 5⟩ then some (base generation layout).manifest else none

/-- A store with nothing but the base's file. -/
def remote (layout : Layout) : Remote := fun key =>
  if key = .object ⟨.volume, 7, 1, 0⟩ then some layout.bytes else none

/-- The bytes of the base's file. -/
abbrev BaseFile (generation : Gen) (layout : Layout) : Prop :=
  BlxObject.SingleFile Interrupted.batch 0 (entry generation) layout

theorem pagesFit : PagesFit := by
  show 4096 + 1024 ≤ 32 * 1024 * 1024
  decide

theorem length_padded (first : UInt8) : (padded first).length = 4096 := by
  rw [padded, List.length_cons, List.length_replicate]

theorem exists_layout (generation : Gen) : ∃ layout, BaseFile generation layout :=
  BlxObject.exists_single pagesFit (show (entry generation).Valid from length_padded 1)
    Interrupted.batch le_rfl 0

variable {generation : Gen} {layout : Layout}

theorem fileAt (h : BaseFile generation layout) :
    FileAt (remote layout).objects (.fromBlx (file generation layout)) (file generation layout) :=
  ⟨rfl, h.opens, rfl⟩

theorem contains_file (h : BaseFile generation layout) :
    (file generation layout).Contains [entry generation] :=
  .cons ⟨rfl, h.stored⟩ .nil

/-- The fork writes a page and makes a checkpoint. -/
def page : PageId := ⟨2, 1024⟩

def checkpoint : Checkpoint := ⟨2, [2]⟩

def cut : Cut where
  kind := .checkpoint
  epoch := 1
  checkpoint := some checkpoint
  completeMemorySnapshot := false
  seq := 1
  captureSeq := 2
  firstObject := 0
  pages := [(page, 0)]
  rescues := []
  pendingTombstones := []
  flushedPages := [page]

/-- The fork's own vmstate block. -/
def vmmFile (post : UInt64) (layout : Layout) : BlxObject :=
  .single (PageBatchBuilder.batchMeta 2 1 0 1 5 post) 0 0 2 (.data ⟨.vmm, 0⟩ 1 (padded 2)) layout

def pageFile (post : UInt64) (layout : Layout) : BlxObject :=
  .single (PageBatchBuilder.batchMeta 2 1 0 1 5 post) 1 1 2 (.data ⟨.memory, 1024⟩ 0 (padded 0))
    layout

/-- The files of the checkpoint. -/
abbrev ownFiles (post : UInt64) (own : Nat → Layout) : List BlxObject :=
  [vmmFile post (own 0), pageFile post (own 1)]

abbrev ownBlobs (post : UInt64) (own : Nat → Layout) : List BlxBlob :=
  (ownFiles post own).map fun o => o.blob 2 1

/-- The volume of the fork until its checkpoint. -/
def volume (generation : Gen) (layout : Layout) (mutationSeq : UInt64) (nextSeq : JournalSeq)
    (nextObjectId : ObjectId) (nextGen : Gen) : VolumeState :=
  { VolumeState.fresh ⟨.memory, 2048⟩ 1 with
    mutationSeq := mutationSeq
    stateChecksum := 5
    archivedMemoryUsable := true
    nextSeq := nextSeq
    nextObjectId := nextObjectId
    nextGen := nextGen
    bestRecord := some ((base generation layout).record 1)
    recordWrites := (∅ : ExtTreeMap JournalSeq (UInt64 × UInt64)).insert 0 (1, 0)
    pinned := some ((base generation layout).record 1) }

def forkStash : StashAssignment := ⟨1, 2, 1, none, 1⟩

/-- The first manifest of the fork. -/
abbrev child (generation : Gen) (layout : Layout) : Manifest :=
  (base generation layout).childManifest 2 1

/-- The store once the fork has its first manifest. -/
abbrev forkedStore (layout : Layout) (manifestBytes : Bytes) : Remote :=
  Function.update (remote layout) (.manifest 1 0) (some manifestBytes)

/-- The new fork. -/
def start (generation : Gen) (layout : Layout) (recordBytes manifestBytes : Bytes) : Lineage where
  primary := {
    id := 2
    disk := ⟨(∅ : ExtTreeMap (UInt64 ×ₗ JournalSeq) Bytes).insert (toLex (1, 0)) recordBytes, ∅⟩
    volume := volume generation layout 1 1 0 0
    cache := ∅
    captures := 0
    capture := none
    cleanups := [] }
  archiveBase := some ⟨7, 0, 0, 5⟩
  archiveObjects := [.fromBlx (file generation layout)]
  archivedNonDataReset := true
  backed := some ((child generation layout).pointer manifestBytes)
  stash := true
  sending := none
  peerPublished := none
  publishing := none
  remote := forkedStore layout manifestBytes
  head := some ((child generation layout).pointer manifestBytes)
  version := 2
  vmstates := fun _ => none
  written := fun _ => none

theorem forked_eq {recordBytes manifestBytes : Bytes}
    (hrecord : ((base generation layout).record 1).encode 2 = some recordBytes)
    (hmanifest : (child generation layout).encode = some manifestBytes) :
    Lineage.forked (base generation layout) 2 forkStash 1 2 (remote layout) =
      some (start generation layout recordBytes manifestBytes) := by
  have hput : (remote layout).put (.manifest 1 0) manifestBytes =
      some (forkedStore layout manifestBytes) := rfl
  simp only [Lineage.forked, hrecord, hmanifest, hput, some_bind]
  rfl

/-- The fork's own files are a whole batch. -/
abbrev OwnBatch (post : UInt64) (own : Nat → Layout) : Prop :=
  BlxBatch (PageBatchBuilder.batchMeta 2 1 0 1 5 post) (ownFiles post own)

set_option maxRecDepth 20000 in
theorem exists_builder (post : UInt64) : ∃ b,
    [BatchEntry.page page 0 (padded 0), .vmmBlock 0 1 (padded 2)].foldlM PageBatchBuilder.addEntry
      (PageBatchBuilder.newWithChecksums .memory 2 1 0 1 5 post) = some b ∧
    b.builder.chunks = [BlxEntry.data ⟨.vmm, 0⟩ 1 (padded 2),
      BlxEntry.data ⟨.memory, 1024⟩ 0 (padded 0)].map fun e => [e] := by
  have hpage : (PageBatchBuilder.newWithChecksums .memory 2 1 0 1 5 post).addEntry
      (.page page 0 (padded 0)) = some _ :=
    PageBatchBuilder.addEntry_page rfl (length_padded 0) (by with_unfolding_all rfl)
  apply Exists.intro
  constructor
  · rw [List.foldlM_cons, hpage, some_bind, List.foldlM_cons,
      PageBatchBuilder.addEntry_vmmBlock (length_padded 2)]
    rfl
  · with_unfolding_all rfl

set_option maxRecDepth 20000 in
/-- The batch of the checkpoint has two files. -/
theorem exists_batch (generation : Gen) (layout : Layout) : ∃ post own,
    (volume generation layout 2 2 1 1).buildBatch 2 cut (fun _ => padded 0) =
      some (post, ownBlobs post.1 own) ∧ OwnBatch post.1 own := by
  obtain ⟨post, hpost⟩ : ∃ post, (volume generation layout 2 2 1 1).postState cut
    (fun _ => padded 0) = some post := ⟨_, rfl⟩
  obtain ⟨b, hb, hchunks⟩ := exists_builder post.1
  obtain ⟨own, _, rfl, hbuild, hobjects⟩ := VolumeState.exists_buildBatch_single pagesFit hpost
    rfl hb hchunks (show 2 < 2 ^ 32 by decide) (show 0 + 2 ≤ 2 ^ 64 by decide)
  exact ⟨post, own, hbuild, hobjects⟩

/-- The volume once the vmstate is written. -/
abbrev capturedVmm (generation : Gen) (layout : Layout) (post : UInt64 × BlockChecksums)
    (own : Nat → Layout) : VolumeState :=
  (volume generation layout 2 2 1 1).noteChunk (.volume 2 1 0) (vmmFile post.1 (own 0)) [] post

/-- The volume once the files of the checkpoint are written. -/
def captured (generation : Gen) (layout : Layout) (post : UInt64 × BlockChecksums)
    (own : Nat → Layout) : VolumeState :=
  { (capturedVmm generation layout post own).noteChunk (.volume 2 1 1) (pageFile post.1 (own 1))
        [(page, 0, ⟨0, 1, 1, (own 1).offset, (own 1).length⟩)] post with
    vmmBlxFiles := {.volume 2 1 0, .volume 2 1 1} }

abbrev vmmFiles (own : Nat → Layout) : ExtTreeMap ObjectIdentity StoredBlx :=
  (∅ : ExtTreeMap ObjectIdentity StoredBlx).insert (.volume 2 1 0) ⟨1, (own 0).bytes⟩

def files (own : Nat → Layout) : ExtTreeMap ObjectIdentity StoredBlx :=
  (vmmFiles own).insert (.volume 2 1 1) ⟨1, (own 1).bytes⟩

/-- The fork during its checkpoint. -/
def capturing (generation : Gen) (layout : Layout) (recordBytes manifestBytes : Bytes)
    (blx : ExtTreeMap ObjectIdentity StoredBlx) (v : VolumeState) (flushing : Nat)
    (phase : CapturePhase) (written : ObjectIdentity → Option Bytes) : Lineage :=
  { start generation layout recordBytes manifestBytes with
    primary := {
      id := 2
      disk := ⟨(∅ : ExtTreeMap (UInt64 ×ₗ JournalSeq) Bytes).insert (toLex (1, 0)) recordBytes, blx⟩
      volume := v
      cache := (∅ : Cache).insert page ⟨false, flushing⟩
      captures := 1
      capture := some (cut, phase)
      cleanups := [] }
    vmstates := Function.update (fun _ => none) (1, 1) (some [2])
    written := written }

def record (post : UInt64) (own : Nat → Layout) : JournalRecord where
  config := ⟨.memory, 2048⟩
  seq := 1
  fence := 1
  kind := .checkpoint 1 2 1
  captureSeq := 2
  syncCoveredThrough := 0
  postStateChecksum := post
  files := (ownFiles post own).map .fromBlx
  runtimePageIndex := ∅
  migratedFrom := none

set_option maxRecDepth 20000 in
theorem captureRecord_eq (generation : Gen) (layout : Layout) (post : UInt64 × BlockChecksums)
    (own : Nat → Layout) :
    (captured generation layout post own).captureRecord cut post.1 = record post.1 own := by
  with_unfolding_all rfl

def captureSteps : List LineageStep :=
  [.capture (.write page), .capture (.reserve .checkpoint (some checkpoint) []),
    .capture (.drain fun _ => padded 0), .capture .chunk, .capture .chunk, .capture .record]

set_option maxRecDepth 20000 in
theorem exists_run_record (generation : Gen) (layout : Layout) (recordBytes manifestBytes : Bytes) :
    ∃ post own written,
      Run.run (Lineage.step (bases generation layout))
          (start generation layout recordBytes manifestBytes) captureSteps =
        some (capturing generation layout recordBytes manifestBytes (files own)
          (captured generation layout post own) 0
          (.recorded (record post.1 own) (ownBlobs post.1 own)) written) ∧
      OwnBatch post.1 own := by
  obtain ⟨post, own, hbuild, hfiles⟩ := exists_batch generation layout
  have hopen₁ : BlxObject.open (own 0).bytes = some (vmmFile post.1 (own 0)) :=
    hfiles.opens _ List.mem_cons_self
  have hopen₂ : BlxObject.open (own 1).bytes = some (pageFile post.1 (own 1)) :=
    hfiles.opens _ (List.mem_cons_of_mem _ List.mem_cons_self)
  let capturing' := capturing generation layout recordBytes manifestBytes
  let written : ObjectIdentity → Option Bytes :=
    Function.update (fun _ => none) (.volume 2 1 0) (some (own 0).bytes)
  let s₁ := capturing' ∅ (volume generation layout 2 2 1 1) 1
    (.writing post [] (ownBlobs post.1 own)) fun _ => none
  let s₂ := capturing' (vmmFiles own) (capturedVmm generation layout post own) 1
    (.writing post [(vmmFile post.1 (own 0)).blob 2 1] [(pageFile post.1 (own 1)).blob 2 1]) written
  let s₃ := capturing' (files own) { captured generation layout post own with vmmBlxFiles := ∅ } 0
    (.writing post (ownBlobs post.1 own) [])
    (Function.update written (.volume 2 1 1) (some (own 1).bytes))
  have hdrain : Lineage.step (bases generation layout) (capturing' ∅
      (volume generation layout 2 2 1 1) 1 .draining fun _ => none)
      (.capture (.drain fun _ => padded 0)) = some s₁ := by
    show (((volume generation layout 2 2 1 1).buildBatch 2 cut fun _ => padded 0).bind _).bind _ = _
    rw [hbuild]
    rfl
  have hchunk : Lineage.step (bases generation layout) s₁ (.capture .chunk) = some s₂ := by
    show ((BlxObject.open (own 0).bytes).bind _).bind _ = _
    rw [hopen₁]
    rfl
  have hchunk' : Lineage.step (bases generation layout) s₂ (.capture .chunk) = some s₃ := by
    show ((BlxObject.open (own 1).bytes).bind _).bind _ = _
    rw [hopen₂]
    rfl
  refine ⟨post, own, Function.update written (.volume 2 1 1) (some (own 1).bytes), ?_, hfiles⟩
  rw [← captureRecord_eq generation layout]
  exact Run.run_cons_of rfl (Run.run_cons_of rfl (Run.run_cons_of hdrain (Run.run_cons_of hchunk
    (Run.run_cons_of hchunk' (Run.run_cons_of rfl (Run.run_nil _ _))))))

/-- The manifest of the checkpoint. -/
def manifest (recordBytes : Bytes) (post : UInt64) (own : Nat → Layout) : Manifest where
  volume := 2
  writerFence := 1
  journalSeq := 1
  archiveSeq := 1
  captureSeq := 2
  syncCoveredThrough := 0
  recoveryKind := .whole
  checkpointEpoch := 1
  config := ⟨.memory, 2048⟩
  vmstateLogicalLength := 1
  base := some ⟨7, 0, 0, 5⟩
  completeList := none
  postStateChecksum := post
  metadataChecksum := checksum64 recordBytes
  added := (ownFiles post own).map .fromBlx
  removed := []

section

variable {own : Nat → Layout} {post : UInt64} {manifestBytes recordBytes : Bytes}

abbrev ownRefs (post : UInt64) (own : Nat → Layout) : List ObjectRef :=
  (ownFiles post own).map .fromBlx

/-- The files of the fork and of its base. -/
abbrev allRefs (generation : Gen) (layout : Layout) (post : UInt64) (own : Nat → Layout) :
    List ObjectRef :=
  .fromBlx (file generation layout) :: ownRefs post own

/-- The chunks of each of the two batches repeat its fields. -/
theorem fields_allRefs : ∀ o ∈ allRefs generation layout post own,
    ∀ p ∈ allRefs generation layout post own, o.batchKey = p.batchKey →
      o.batchFields = p.batchFields := by
  have hfields : ∀ o ∈ allRefs generation layout post own, o.batchFields =
      if o.identity.namespaceId = 7 then (ObjectRef.fromBlx (file generation layout)).batchFields
      else (ObjectRef.fromBlx (vmmFile post (own 0))).batchFields := by
    simp only [List.map_cons, List.map_nil, List.forall_mem_cons]
    exact ⟨rfl, rfl, rfl, by simp⟩
  intro o ho p hp hkey
  have hnamespace := congrArg (fun key : ObjectIdentity ×ₗ Nat => (ofLex key).1.namespaceId) hkey
  rw [hfields o ho, hfields p hp, show o.identity.namespaceId = _ from hnamespace]
  rfl

set_option maxRecDepth 20000 in
theorem validateObjectRefs_own (post : UInt64) (own : Nat → Layout) :
    validateObjectRefs (ownRefs post own) = true := by
  refine (validateObjects_iff _ (of_decide_eq_true ?_)).mpr ⟨⟨⟨⟨of_decide_eq_true ?_,
    fun o ho p hp => @fields_allRefs 0 (own 0) _ _ o (.tail _ ho) p (.tail _ hp),
    of_decide_eq_true ?_⟩, of_decide_eq_true ?_, of_decide_eq_true ?_⟩, of_decide_eq_true ?_⟩, ?_⟩ <;>
  with_unfolding_all rfl

set_option maxRecDepth 20000 in
/-- Over the base, the files are still few enough. -/
theorem validateObjectRefs_all (generation : Gen) (layout : Layout) (post : UInt64)
    (own : Nat → Layout) : validateObjectRefs (allRefs generation layout post own) = true := by
  refine (validateObjects_iff _ (of_decide_eq_true ?_)).mpr ⟨⟨⟨⟨of_decide_eq_true ?_,
    fields_allRefs, of_decide_eq_true ?_⟩, of_decide_eq_true ?_, of_decide_eq_true ?_⟩,
    of_decide_eq_true ?_⟩, ?_⟩ <;>
  with_unfolding_all rfl

theorem validateFileStateChain_own (post : UInt64) (own : Nat → Layout) :
    validateFileStateChain 5 post (ownRefs post own) = true :=
  validateFileStateChain_of_batch (List.cons_ne_nil _ _) (List.forall_mem_cons.mpr
    ⟨⟨rfl, rfl, rfl, rfl⟩, List.forall_mem_singleton.mpr ⟨rfl, rfl, rfl, rfl⟩⟩)

/-- The archive of the new fork has no files. -/
theorem previousArchive_child (hmanifest : (child generation layout).encode = some manifestBytes) :
    previousArchive (forkedStore layout manifestBytes) (bases generation layout) 2
        (some ((child generation layout).pointer manifestBytes)) =
      some (some ⟨child generation layout, none, []⟩) := by
  have hget : ((forkedStore layout manifestBytes).metadata (bases generation layout)).manifests 1 0 =
    some manifestBytes := rfl
  have hload := loadArchiveMetadata_of_encode hget hmanifest (base generation layout).pages
    (by simp [ForkBase.childManifest]) rfl ((base generation layout).currentFiles_childManifest 2 1)
  exact congrArg (Option.map some) hload

theorem exists_encode_manifest (recordBytes : Bytes) (post : UInt64) (own : Nat → Layout) :
    (manifest recordBytes post own).validateShape = true ∧
      ∃ bytes, (manifest recordBytes post own).encode = some bytes := by
  have hshape : (manifest recordBytes post own).validateShape = true := by
    simp only [Manifest.validateShape, manifest, validateObjectRefs_own]
    rfl
  have hlen : (manifest recordBytes post own).payload.length ≤ 512 := by
    simp [Manifest.payload, Manifest.encodeManifestPrefix, manifest, BaseRef.encode,
      FileListRef.encode, VolumeConfig.encode]
  obtain ⟨bytes, hbytes⟩ := exists_sealFrame magicManifest (manifest recordBytes post own).payload
    (by omega)
  refine ⟨hshape, bytes, Manifest.encode_eq_some.mpr ⟨hshape, ?_, ?_, hbytes, ?_⟩⟩
  · show 2 < 2 ^ 32
    decide
  · show 0 < 2 ^ 32
    decide
  · rw [length_of_sealFrame hbytes, frameHeader, maxManifestBytes]
    omega

/-- What the publication of the checkpoint starts from. -/
abbrev snapshot (generation : Gen) (layout : Layout) (manifestBytes : Bytes) (post : UInt64)
    (own : Nat → Layout) : PublishSnapshot :=
  ⟨record post own, some ⟨7, 0, 0, 5⟩, [.fromBlx (file generation layout)],
    some ((child generation layout).pointer manifestBytes)⟩

/-- The uploads of the fork's files. -/
abbrev ownPuts (own : Nat → Layout) : List (StoreKey × Bytes) :=
  [(.object (.volume 2 1 0), (own 0).bytes), (.object (.volume 2 1 1), (own 1).bytes)]

/-- The table of the fork's files. -/
abbrev current (post : UInt64) (own : Nat → Layout) : ExtTreeMap ObjectIdentity ObjectRef :=
  ((∅ : ExtTreeMap ObjectIdentity ObjectRef).insert (.volume 2 1 0)
    (.fromBlx (vmmFile post (own 0)))).insert (.volume 2 1 1) (.fromBlx (pageFile post (own 1)))

/-- The store with the fork's files. -/
abbrev uploaded (layout : Layout) (own : Nat → Layout) (manifestBytes : Bytes) : Remote :=
  Function.update (Function.update (forkedStore layout manifestBytes) (.object (.volume 2 1 0))
    (some (own 0).bytes)) (.object (.volume 2 1 1)) (some (own 1).bytes)

/-- The plan of the publication: both files, and the manifest. -/
theorem exists_prepareArchive {disk : Disk} (h : OwnBatch post own)
    (hmanifest : (child generation layout).encode = some manifestBytes)
    (hrecord : (record post own).encode 2 = some recordBytes) (hdisk : disk.blx = files own) :
    ∃ bytes, (manifest recordBytes post own).encode = some bytes ∧
      prepareArchive disk (forkedStore layout manifestBytes) (bases generation layout) 2
        (snapshot generation layout manifestBytes post own) false =
        ⟨ownPuts own ++ [(.manifest 1 1, bytes)],
          some ((manifest recordBytes post own).pointer bytes)⟩ := by
  obtain ⟨hshape, bytes, hbytes⟩ := exists_encode_manifest recordBytes post own
  refine ⟨bytes, hbytes, ?_⟩
  have hget : disk.blx[ObjectIdentity.volume 2 1 0]? = some ⟨1, (own 0).bytes⟩ ∧
      disk.blx[ObjectIdentity.volume 2 1 1]? = some ⟨1, (own 1).bytes⟩ := by
    rw [hdisk]
    exact ⟨rfl, rfl⟩
  have hread₁ : readFile disk 2 (.fromBlx (vmmFile post (own 0))) = some (own 0).bytes :=
    readFile_of_open hget.1 (h.opens _ List.mem_cons_self)
  have hread₂ : readFile disk 2 (.fromBlx (pageFile post (own 1))) = some (own 1).bytes :=
    readFile_of_open hget.2 (h.opens _ (List.mem_cons_of_mem _ List.mem_cons_self))
  have huploads : uploadFiles disk 2 (some (1, 0)) (ownRefs post own) ∅ =
      (ownPuts own, some (current post own)) := by
    rw [ownRefs, List.map_cons, uploadFiles_cons_of_read rfl hread₁, List.map_cons,
      uploadFiles_cons_of_read rfl hread₂]
    rfl
  set plan := snapshot generation layout manifestBytes post own with hplan
  let previous : ManifestClosure := ⟨child generation layout, none, []⟩
  have hok : plan.filesOk (ownRefs post own) = true := by
    rw [PublishSnapshot.filesOk, Bool.and_eq_true]
    exact ⟨validateObjectRefs_all generation layout post own, validateFileStateChain_own post own⟩
  have hfiles : ∀ store, archiveFiles store 2 plan false (ownRefs post own) =
      ([], some (ownRefs post own)) := by
    intro store
    rw [archiveFiles, hok]
    rfl
  have hbound : boundManifest (manifest recordBytes post own) none 1 =
      some ⟨manifest recordBytes post own, none⟩ := by
    simp only [boundManifest, hshape, hbytes, ensure_true, Option.isSome_some, if_true,
      Option.bind_eq_bind, Option.bind_some, Option.pure_def]
  have hchanges : fileChanges 2 (record post own) (some previous) (ownRefs post own) =
      some ⟨none, ownRefs post own, [], none⟩ := rfl
  have hmeta : metadataPuts 2 plan (some previous) (ownRefs post own) =
      some ([(.manifest 1 1, bytes)], (manifest recordBytes post own).pointer bytes) := by
    have harchive : archiveManifest 2 plan (some previous) (ownRefs post own) =
        some (manifest recordBytes post own, none) := by
      rw [archiveManifest, hchanges, Option.bind_eq_bind, Option.bind_some, hrecord,
        Option.bind_eq_bind, Option.bind_some]
      show (boundManifest (manifest recordBytes post own) none 1).bind _ = _
      rw [hbound]
      rfl
    simp only [metadataPuts, harchive, hbytes, Option.bind_eq_bind, Option.bind_some]
    rfl
  rw [prepareArchive, previousArchive_child hmanifest]
  show prepareFrom disk _ 2 plan false (some previous) = _
  have hup : uploadFiles disk 2 (some (previous.manifest.writerFence, previous.manifest.journalSeq))
      (plan.blxRefs 2) (fileMap previous.files) = _ := huploads
  have hput : (forkedStore layout manifestBytes).putAll (ownPuts own) =
      some (uploaded layout own manifestBytes) := rfl
  have hlist : (current post own).toList.map Prod.snd = ownRefs post own := rfl
  simp only [prepareFrom, Option.map_some, Option.getD_some, hup, hput, hlist, hfiles,
    Option.bind_some, hmeta]
  rfl

/-- The store once the checkpoint is published. -/
def published (layout : Layout) (own : Nat → Layout) (manifestBytes bytes : Bytes) : Remote :=
  Function.update (uploaded layout own manifestBytes) (.manifest 1 1) (some bytes)

def publishSteps : List LineageStep :=
  [.capture .writeRecord, .capture .commit, .send, .finishCommit, .publish, .put, .put, .put,
    .publishHead 3]

set_option maxRecDepth 20000 in
theorem exists_run_publish {post : UInt64 × BlockChecksums} (h : OwnBatch post.1 own)
    (hmanifest : (child generation layout).encode = some manifestBytes)
    (written : ObjectIdentity → Option Bytes) :
    ∃ recordBytes' bytes t, Run.run (Lineage.step (bases generation layout))
        (capturing generation layout recordBytes manifestBytes (files own)
          (captured generation layout post own) 0
          (.recorded (record post.1 own) (ownBlobs post.1 own)) written)
        publishSteps = some t ∧
      (manifest recordBytes' post.1 own).encode = some bytes ∧ t.primary.id = 2 ∧
      t.head = some ((manifest recordBytes' post.1 own).pointer bytes) ∧
      t.vmstates (1, 1) = some [2] ∧ t.remote = published layout own manifestBytes bytes := by
  obtain ⟨recordBytes', hrecord⟩ : ∃ bytes, (record post.1 own).encode 2 = some bytes :=
    JournalRecord.exists_encode 2 rfl (show 2 ≤ 2 ^ 24 by decide)
  let journals := ((∅ : ExtTreeMap (UInt64 ×ₗ JournalSeq) Bytes).insert (toLex (1, 0))
    recordBytes).insert (toLex (1, 1)) recordBytes'
  have hfilesOf : (⟨journals, files own⟩ : Disk).blx = files own := rfl
  obtain ⟨bytes, hbytes, hplan⟩ := exists_prepareArchive h hmanifest hrecord hfilesOf
  let plan := snapshot generation layout manifestBytes post.1 own
  let pointer := (manifest recordBytes' post.1 own).pointer bytes
  let puts := ownPuts own ++ [(.manifest 1 1, bytes)]
  obtain ⟨s₁, hs₁, hcapture, hstash, hpeer, hid, hdisk, hsame⟩ : ∃ s₁ : Lineage,
      Lineage.step (bases generation layout) (capturing generation layout recordBytes
        manifestBytes (files own) (captured generation layout post own) 0
        (.recorded (record post.1 own) (ownBlobs post.1 own)) written)
        (.capture .writeRecord) = some s₁ ∧
      s₁.primary.capture = some (cut, .durable (record post.1 own)
        (ownBlobs post.1 own)) ∧
      s₁.stash = true ∧ s₁.primary.volume.peerCommittedRecord = none ∧ s₁.primary.id = 2 ∧
      s₁.primary.disk = ⟨journals, files own⟩ ∧
      s₁ = { start generation layout recordBytes manifestBytes with
        primary := s₁.primary
        vmstates := Function.update (fun _ => none) (1, 1) (some [2])
        written := s₁.written } :=
    ⟨_, Lineage.step_capture_of rfl (Primary.writeRecord_of_encode rfl hrecord), rfl, rfl, rfl, rfl,
      rfl, rfl⟩
  obtain ⟨p, hp, hid₂, hdisk₂, hcommitted⟩ := Lineage.exists_run_protect hcapture hstash hpeer
  rw [hid] at hid₂
  rw [hdisk] at hdisk₂
  let s₂ : Lineage := { start generation layout recordBytes manifestBytes with
    primary := p
    vmstates := Function.update (fun _ => none) (1, 1) (some [2])
    written := s₁.written }
  have hs₂ : Run.run (Lineage.step (bases generation layout)) s₁
      [.capture .commit, .send, .finishCommit] = some s₂ := by
    rw [hp, hsame]
    rfl
  have hsnapshot : s₂.publishSnapshot = some plan := by
    show p.volume.peerCommittedRecord.bind _ = _
    rw [hcommitted, Option.bind_some, show s₂.primary.id = 2 from hid₂]
    rfl
  have hplan₂ : prepareArchive s₂.primary.disk s₂.remote (bases generation layout) s₂.primary.id
      plan false = ⟨puts, some pointer⟩ := by
    rw [show s₂.primary.disk = _ from hdisk₂, show s₂.primary.id = 2 from hid₂]
    exact hplan
  obtain ⟨p', hs₃, hid₃⟩ := Lineage.exists_step_publish rfl hsnapshot rfl hplan₂
  let s₄ : Lineage := { s₂ with
    primary := p'
    remote := published layout own manifestBytes bytes
    publishing := some ⟨plan, [], some pointer⟩ }
  have hs₄ : Run.run (Lineage.step (bases generation layout)) _ [.put, .put, .put] = some s₄ :=
    Lineage.run_puts (s := { s₂ with
      primary := p'
      publishing := some ⟨plan, puts, some pointer⟩ }) rfl rfl
  obtain ⟨t, ht, hidt, hhead, hremote, hvmstates⟩ : ∃ t,
      Lineage.step (bases generation layout) s₄ (.publishHead 3) = some t ∧
      t.primary.id = p'.id ∧ t.head = some pointer ∧
      t.remote = published layout own manifestBytes bytes ∧ t.vmstates = s₂.vmstates :=
    Lineage.exists_step_publishHead (show (2 : UInt64) < 3 by decide) rfl
  refine ⟨recordBytes', bytes, t, ?_, hbytes, hidt.trans (hid₃.trans hid₂), hhead, ?_, hremote⟩
  · exact Run.run_cons_of hs₁ (Run.run_append_of hs₂ (Run.run_cons_of hs₃
      (Run.run_append_of hs₄ (Run.run_cons_of ht (Run.run_nil _ _)))))
  · rw [hvmstates]
    rfl

/-- The published manifest leads to the base's file and the fork's own. -/
theorem load_published {bytes : Bytes} (manifestBytes : Bytes) (h : OwnBatch post own)
    (hbytes : (manifest recordBytes post own).encode = some bytes) :
    loadArchiveMetadata (Remote.metadata (published layout own manifestBytes bytes)
        (bases generation layout)) 2 ((manifest recordBytes post own).pointer bytes) =
      some ⟨manifest recordBytes post own, none, ownRefs post own⟩ ∧
    loadArchiveClosure (Remote.metadata (published layout own manifestBytes bytes)
        (bases generation layout)) 2 (some ((manifest recordBytes post own).pointer bytes)) =
      some (allRefs generation layout post own, some ⟨7, 0, 0, 5⟩) := by
  set metadata := Remote.metadata (published layout own manifestBytes bytes)
    (bases generation layout) with hmetadata
  have hpages : (manifest recordBytes post own).config.pages ≠ 0 := by
    show (2048 : UInt32) ≠ 0
    decide
  have hadded : ∀ f ∈ (manifest recordBytes post own).added, f.WellFormed :=
    List.forall_mem_map.mpr fun _ ho => ObjectRef.wellFormed_of_batch h le_rfl ho
  have hcurrent : (manifest recordBytes post own).currentFiles none = some (ownRefs post own) := by
    have hfold : (ownRefs post own).foldlM
        (fun files object => if files.contains object.identity then none
          else some (files.insert object.identity object))
        (∅ : ExtTreeMap ObjectIdentity ObjectRef) = some (current post own) := rfl
    have hlist : (current post own).toList.map Prod.snd = ownRefs post own := rfl
    simp only [Manifest.currentFiles, manifest, Option.map_none, Option.getD_none, List.foldl_nil,
      List.foldlM_nil, Option.bind_none, ensure_true, some_bind, Option.pure_def, hfold, hlist,
      validateObjectRefs_own, Option.map_some, Option.getD_some, validateFileStateChain_own]
    rfl
  have hget : metadata.manifests 1 1 = some bytes := rfl
  have hload := loadArchiveMetadata_of_encode hget hbytes hpages hadded rfl hcurrent
  replace hload : loadArchiveMetadata metadata 2 _ = _ := hload
  refine ⟨hload, ?_⟩
  have hbase : metadata.bases ⟨7, 0, 0, 5⟩ = some (base generation layout).manifest := rfl
  rw [loadArchiveClosure, hload, some_bind]
  simp only [show (manifest recordBytes post own).base = some ⟨7, 0, 0, 5⟩ from rfl,
    hbase, Option.map_some, Option.bind_some, Option.bind_eq_bind]
  rw [show (base generation layout).manifest.objects ++ ownRefs post own =
      allRefs generation layout post own from rfl, validateObjectRefs_all]
  rfl

theorem inStore (hfile : BaseFile generation layout) :
    (base generation layout).InStore (bases generation layout) (remote layout) :=
  ⟨rfl, fun _ hr => ⟨_, List.mem_singleton.mp hr ▸ fileAt hfile⟩⟩

/-- The base's entry is the only one of its file. -/
theorem eq_entry (hfile : BaseFile generation layout) {store : ObjectStore}
    (hstore : ∀ i bytes, (remote layout).objects i = some bytes → store i = some bytes)
    {e : BlxEntry} (he : EntryOf store (base generation layout).manifest.objects e) :
    e = entry generation := by
  obtain ⟨r, hr, o, entries, ho, hentries, hmem⟩ := he
  obtain rfl : r = _ := List.mem_singleton.mp hr
  cases ho.unique ((fileAt hfile).mono hstore)
  cases hentries.unique (contains_file hfile)
  exact List.mem_singleton.mp hmem

/-- The fork's first checkpoint is published. -/
theorem exists_run (generation : Gen) : ∃ (layout : Layout) (own : Nat → Layout) (post : UInt64)
    (recordBytes manifestBytes bytes recordBytes' : Bytes) (t : Lineage),
    BaseFile generation layout ∧ OwnBatch post own ∧
    Lineage.forked (base generation layout) 2 forkStash 1 2 (remote layout) =
      some (start generation layout recordBytes manifestBytes) ∧
    Run.run (Lineage.step (bases generation layout))
      (start generation layout recordBytes manifestBytes) (captureSteps ++ publishSteps) = some t ∧
    (manifest recordBytes' post own).encode = some bytes ∧ t.primary.id = 2 ∧
    t.head = some ((manifest recordBytes' post own).pointer bytes) ∧
    t.vmstates (1, 1) = some [2] ∧ t.remote = published layout own manifestBytes bytes := by
  obtain ⟨layout, hfile⟩ := exists_layout generation
  obtain ⟨recordBytes, hrecord⟩ : ∃ bytes, ((base generation layout).record 1).encode 2 =
      some bytes := JournalRecord.exists_encode 2 rfl (Nat.zero_le _)
  obtain ⟨manifestBytes, hmanifest⟩ := (base generation layout).exists_encode_childManifest 2 1
  obtain ⟨post, own, written, hrun, hbatch⟩ :=
    exists_run_record generation layout recordBytes manifestBytes
  obtain ⟨recordBytes', bytes, t, ht, hrest⟩ := exists_run_publish hbatch hmanifest written
  exact ⟨layout, own, post.1, recordBytes, manifestBytes, bytes, recordBytes', t, hfile, hbatch,
    forked_eq hrecord hmanifest, Run.run_append_of hrun ht, hrest⟩

set_option maxRecDepth 20000 in
/-- A base that was checkpointed before its first number is no danger. -/
theorem along_forkSafe (hfile : BaseFile 0 layout) (recordBytes manifestBytes : Bytes) :
    Run.Along (Lineage.step (bases 0 layout)) (Lineage.ForkSafe (base 0 layout))
      (start 0 layout recordBytes manifestBytes) (captureSteps ++ publishSteps) := by
  refine .cons ⟨trivial, nofun⟩ rfl (.cons ⟨?_, ?_⟩ rfl (.of_forall ?_ _))
  · show 0 ≤ 2 ^ 62 ∧ 1 < 2 ^ 31 - 1
    decide
  · rintro kind checkpoint prepared - e he -
    have hstore : ∀ i bytes, (remote layout).objects i = some bytes →
        (start 0 layout recordBytes manifestBytes).remote.objects i = some bytes := fun _ _ hi => hi
    obtain rfl := eq_entry hfile hstore he
    show (0 : UInt64) < 1
    decide
  · have hsafe : ∀ a ∈ captureSteps.drop 2 ++ publishSteps, ∀ s,
        Lineage.ForkSafe (base 0 layout) s a := by
      simp only [captureSteps, publishSteps, List.drop_succ_cons, List.drop_zero, List.cons_append,
        List.nil_append, List.forall_mem_cons, Lineage.ForkSafe, Lineage.SafeNumbers, reduceCtorEq,
        false_imp_iff, implies_true, and_self, List.not_mem_nil]
    exact hsafe

/-- The base's block is newer than the fork's. -/
theorem loadVmmBlock_base (hfile : BaseFile generation layout) (h : OwnBatch post own)
    (hnewer : 1 < generation) (manifestBytes bytes : Bytes) :
    loadVmmBlock (Remote.objects (published layout own manifestBytes bytes))
        (allRefs generation layout post own) 0 = some (generation, padded 1) := by
  set store := Remote.objects (published layout own manifestBytes bytes) with hobjects
  have hstore : ∀ i found, (remote layout).objects i = some found → store i = some found := by
    intro i found hi
    have hbase : i = ⟨.volume, 7, 1, 0⟩ := by
      by_contra hne
      rw [Remote.objects, remote, if_neg (fun heq => hne (StoreKey.object.inj heq))] at hi
      cases hi
    rw [hbase] at hi ⊢
    exact hi
  have hown : ∀ o ∈ ownFiles post own, FileAt store (.fromBlx o) o ∧
      ∀ f ∈ o.footer.entries, f.generation ≤ 1 := by
    intro o ho
    refine ⟨⟨?_, h.opens o ho, rfl⟩, ?_⟩
    · rcases List.mem_cons.mp ho with rfl | ho
      · rfl
      · rw [List.mem_singleton.mp ho]
        rfl
    · rcases List.mem_cons.mp ho with rfl | ho
      · exact List.forall_mem_singleton.mpr (le_refl (1 : UInt64))
      · rw [List.mem_singleton.mp ho]
        exact List.forall_mem_singleton.mpr (show (0 : UInt64) ≤ 1 by decide)
  have hall : AllStored store (allRefs generation layout post own) :=
    List.forall_mem_cons.mpr ⟨⟨_, (fileAt hfile).mono hstore⟩,
      List.forall_mem_map.mpr fun o ho => ⟨o, (hown o ho).1⟩⟩
  refine loadVmmBlock_of_newest hall ?_ fun e he hkey => ?_
  · exact ⟨_, List.mem_cons_self, _, _, (fileAt hfile).mono hstore, contains_file hfile,
      List.mem_singleton_self _⟩
  · obtain ⟨r, hr, rest⟩ := he
    rcases List.mem_cons.mp hr with rfl | hr
    · exact .inr (eq_entry hfile hstore ⟨_, List.mem_singleton_self _, rest⟩)
    · obtain ⟨o, ho, rfl⟩ := List.mem_map.mp hr
      obtain ⟨o', entries, hat, hentries, hmem⟩ := rest
      cases (hown o ho).1.unique hat
      obtain ⟨f, hf, hholds⟩ := hentries.exists_footer hmem
      have hgeneration : f.generation = e.generation := congrArg (fun d => d.2.1) hholds.digest
      exact .inl (hgeneration ▸ ((hown o ho).2 f hf).trans_lt hnewer)

theorem loadVmstate_base (hfile : BaseFile generation layout) (h : OwnBatch post own)
    (hnewer : 1 < generation) (manifestBytes bytes : Bytes) :
    loadVmstate (Remote.objects (published layout own manifestBytes bytes))
        (allRefs generation layout post own) 1 = some [1] := by
  have hcount : ((1 : UInt64).toNat + pageSize - 1) / pageSize = 1 := rfl
  have hrange : List.range 1 = [0] := rfl
  have hzero : UInt32.ofNat 0 = 0 := rfl
  have hblocks : loadVmmBlocks (Remote.objects (published layout own manifestBytes bytes))
      (allRefs generation layout post own) 1 = some [(generation, padded 1)] := by
    rw [loadVmmBlocks, hcount, hrange, List.mapM_cons, hzero,
      loadVmmBlock_base hfile h hnewer manifestBytes bytes]
    rfl
  rw [loadVmstate_eq, hblocks]
  rfl

end

end OldBase

open OldBase in
/-- **A base with a longer history wins over its fork.**  The base's vmstate block has generation 5,
the fork's first checkpoint has number 1: after its publication the head leads to the base's
vmstate. -/
theorem not_fork_vmstate : ¬ ∀ [Platform] (bases : BaseRef → Option BaseManifest) (b : ForkBase)
    (volume : VolumeId) (stash : StashAssignment) (fence version : UInt64) (remote : Remote)
    (s t : Lineage) (steps : List LineageStep), b.InStore bases remote →
      Lineage.forked b volume stash fence version remote = some s →
      Run.run (Lineage.step bases) s steps = some t → t.OwnVmstate bases := by
  intro hall
  let _ := storedPlatform
  obtain ⟨layout, own, post, recordBytes, manifestBytes, bytes, recordBytes', t, hfile,
    hbatch, hfork, hrun, hbytes, hid, hhead, hvmstate, hremote⟩ := exists_run 5
  obtain ⟨hload, hclosure⟩ := @load_published 5 layout _ _ _ _ manifestBytes hbatch hbytes
  rw [← hremote] at hload hclosure
  rw [← hid] at hload hclosure
  obtain ⟨-, hown⟩ := hall _ _ _ _ _ _ _ _ _ _ (inStore hfile) hfork hrun _ hhead _ _ _ hload
    hclosure [2] hvmstate
  rw [hremote, show (manifest recordBytes' post own).vmstateLogicalLength = 1 from rfl,
    loadVmstate_base hfile hbatch (by decide)] at hown
  have hfirst := congrArg List.head? (Option.some.inj hown)
  exact absurd (Option.some.inj hfirst) (by decide)

open OldBase in
/-- A fork of a base whose vmstate has generation 0. -/
theorem fork_vmstate_young : ∃ (_ : Platform) (bases : BaseRef → Option BaseManifest) (t : Lineage),
    t.head.isSome = true ∧ t.vmstates (1, 1) = some [2] ∧ t.OwnVmstate bases := by
  let _ := storedPlatform
  obtain ⟨layout, own, post, recordBytes, manifestBytes, bytes, recordBytes', t, hfile,
    hbatch, hfork, hrun, hbytes, hid, hhead, hvmstate, hremote⟩ := exists_run 0
  exact ⟨storedPlatform, bases 0 layout, t, by rw [hhead]; rfl, hvmstate, fork_vmstate
    (inStore hfile) hfork (along_forkSafe hfile recordBytes manifestBytes) hrun⟩

end Blockd
