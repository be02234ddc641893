import Blockd.Blx.Compact
import Blockd.Engine.CaptureBatch

/-!
# What the files of a checkpoint hold

A checkpoint puts the vmstate of the paused guest into its batch, block by block, under the record's
own number as their generation.  `VmmBatch` says what that comes to in the finished files: every VMM
entry has the capture's number, a block of the vmstate is there with its bytes, and there is nothing
else under its key (`vmmBatch_of_buildBatch`).
-/

set_option autoImplicit false

open Codec
open Std (ExtTreeMap)

namespace Blockd

/-! ## The entries of a batch -/

theorem BlockKey.fromPage_space_ne_vmm (kind : VolumeKind) (page : PageId) :
    (BlockKey.fromPage kind page).space ≠ .vmm := by
  cases kind <;> simp [BlockKey.fromPage]

/-- A deletion marker of a VMM block has the record's number. -/
theorem of_mem_numberTombstones {seq : JournalSeq} {next last : Gen} {keys : List BlockKey}
    {numbered : List (BlockKey × Gen)} (h : numberTombstones seq next keys = some (numbered, last))
    {key : BlockKey} {generation : Gen} (hmem : (key, generation) ∈ numbered)
    (hvmm : key.space = .vmm) : generation = seq := by
  induction keys generalizing next numbered last with
  | nil =>
    simp only [numberTombstones, Option.some.injEq, Prod.mk.injEq] at h
    rw [← h.1] at hmem
    cases hmem
  | cons k keys ih =>
    rw [numberTombstones] at h
    split at h
    · simp only [bind_eq_some, pure_eq_some, Prod.exists, Prod.mk.injEq] at h
      obtain ⟨rest, last', hrest, rfl, -⟩ := h
      rcases List.mem_cons.mp hmem with heq | hmem
      · exact (Prod.mk.inj heq).2
      · exact ih hrest hmem
    · rename_i hk
      simp only [bind_eq_some, pure_eq_some, Prod.exists, Prod.mk.injEq] at h
      obtain ⟨following, -, rest, last', hrest, rfl, -⟩ := h
      rcases List.mem_cons.mp hmem with heq | hmem
      · obtain ⟨rfl, -⟩ := Prod.mk.inj heq
        exact absurd hvmm hk
      · exact ih hrest hmem

variable [Platform]

namespace PageBatchBuilder

theorem entries_of_addEntries {entries : List BatchEntry} {b b' : PageBatchBuilder}
    (h : entries.foldlM addEntry b = some b') : b'.builder.entries =
      Newest.keepAll BlxEntry.generation BlxEntry.key b.builder.entries
        (entries.map (BatchEntry.toBlx b.kind)) := by
  induction entries generalizing b with
  | nil =>
    cases h
    rfl
  | cons entry entries ih =>
    rw [List.foldlM_cons, bind_eq_some] at h
    obtain ⟨next, hentry, hrest⟩ := h
    obtain ⟨hv, rfl⟩ := addEntry_eq_some hentry
    rw [ih hrest, withBuilder, BlxBatchBuilder.entries_insert]
    rfl

end PageBatchBuilder

namespace VolumeState

variable {v : VolumeState} {volume : VolumeId} {cut : Cut} {read : PageId → Bytes}
  {post : UInt64 × BlockChecksums} {blobs : List BlxBlob}

/-- **The files of a capture hold, for every key, the last of its newest entries.** -/
theorem contains_of_buildBatch (h : v.buildBatch volume cut read = some (post, blobs)) :
    ∃ entries objects chunks, v.batchEntries volume cut read = some entries ∧
      CaptureBatch volume v.fence cut objects ∧
      blobs = objects.map (fun o => o.blob volume v.fence) ∧
      List.Forall₂ BlxObject.Contains objects chunks ∧
      ∀ e, e ∈ chunks.flatten ↔ (Newest.keepAll BlxEntry.generation BlxEntry.key ∅
        (entries.map (BatchEntry.toBlx v.config.kind)))[e.key]? = some e := by
  obtain ⟨entries, builder, objects, hentries, ⟨post', hbuilder⟩, hobjects, hbatch, hblobs⟩ :=
    finished_of_buildBatch h
  obtain ⟨chunks, hflat, hchunks⟩ := BlxBatchBuilder.contains_of_finish hobjects
  refine ⟨entries, objects, chunks, hentries, hbatch, hblobs, hchunks, fun e => ?_⟩
  have hmap := PageBatchBuilder.entries_of_addEntries hbuilder
  rw [hflat, List.mem_map]
  simp only [PageBatchBuilder.newWithChecksums] at hmap
  rw [← hmap]
  constructor
  · rintro ⟨⟨k, e'⟩, hp, rfl⟩
    have hk := ExtTreeMap.mem_toList_iff_getElem?_eq_some.mp hp
    rwa [(builder.builder.keyed k e' hk).1]
  · exact fun he => ⟨(e.key, e), ExtTreeMap.mem_toList_iff_getElem?_eq_some.mpr he, rfl⟩

end VolumeState

/-! ## The blocks of a vmstate -/

/-- An entry of a capture's files, if it is one of a VMM block: it has the capture's number, and under
the key of a block of the vmstate it is that block. -/
def VmmEntry (seq : JournalSeq) (vmstate : Option Bytes) (e : BlxEntry) : Prop :=
  e.key.space = .vmm → e.generation = seq ∧ ∀ bytes ∈ vmstate, ∀ blocks,
    vmmSnapshotBlocks bytes = some blocks → ∀ padded, (e.key, padded) ∈ blocks →
      e = .data e.key seq padded

/-- The files of a capture, as far as VMM blocks go. -/
structure VmmBatch (seq : JournalSeq) (vmstate : Option Bytes) (objects : List BlxObject) :
    Prop where
  entries : ∀ o ∈ objects, ∃ entries, o.Contains entries ∧ ∀ e ∈ entries, VmmEntry seq vmstate e
  blocks : ∀ bytes ∈ vmstate, ∃ blocks, vmmSnapshotBlocks bytes = some blocks ∧
    ∀ key padded, (key, padded) ∈ blocks →
      ∃ o ∈ objects, ∃ entries, o.Contains entries ∧ .data key seq padded ∈ entries

/-- The blocks of a vmstate are numbered from zero. -/
theorem keys_vmmSnapshotBlocks {bytes : Bytes} {blocks : List (BlockKey × Bytes)}
    (h : vmmSnapshotBlocks bytes = some blocks) :
    blocks.length ≤ 2 ^ 32 ∧ blocks.map Prod.fst =
      (List.range blocks.length).map fun block => ⟨.vmm, UInt32.ofNat block⟩ := by
  simp only [vmmSnapshotBlocks, bind_eq_some, ensure_eq_some, exists_const, pure_eq_some] at h
  obtain ⟨hcount, rfl⟩ := h
  rw [List.length_map, List.length_range, List.map_map]
  exact ⟨hcount, rfl⟩

theorem nodup_vmmSnapshotBlocks {bytes : Bytes} {blocks : List (BlockKey × Bytes)}
    (h : vmmSnapshotBlocks bytes = some blocks) : (blocks.map Prod.fst).Nodup := by
  obtain ⟨hcount, hkeys⟩ := keys_vmmSnapshotBlocks h
  rw [hkeys]
  refine List.Nodup.map_on (fun m hm n hn heq => ?_) List.nodup_range
  rw [List.mem_range] at hm hn
  have hblock : UInt32.ofNat m = UInt32.ofNat n := congrArg BlockKey.block heq
  have hnat := congrArg UInt32.toNat hblock
  rwa [toNat_ofNat32 (hm.trans_le hcount), toNat_ofNat32 (hn.trans_le hcount)] at hnat

namespace VolumeState

variable {v : VolumeState} {volume : VolumeId} {cut : Cut} {read : PageId → Bytes}
  {post : UInt64 × BlockChecksums} {blobs : List BlxBlob} {entries : List BatchEntry}

/-- The deletion markers of a cut that are of VMM blocks have its number. -/
def VmmNumbered (cut : Cut) : Prop :=
  ∀ key generation, (key, generation) ∈ cut.pendingTombstones → key.space = .vmm →
    generation = cut.seq

theorem vmmNumbered_of_reserve {v' : VolumeState} {cache : Cache} {kind : CaptureKind}
    {checkpoint : Option Checkpoint} {prepared : List CompactionRescue}
    (h : v.reserve volume cache kind checkpoint prepared = some (v', cut)) : VmmNumbered cut := by
  simp only [reserve, bind_eq_some, ensure_eq_some, pure_eq_some, Prod.exists, Prod.mk.injEq,
    exists_const] at h
  obtain ⟨-, -, nextSeq, -, nextObjectId, -, unread, gen, -, rescues, gen', -, tombstones, gen'',
    htombstones, rfl, rfl⟩ := h
  exact fun key generation hmem hvmm => of_mem_numberTombstones htombstones hmem hvmm

/-- The entries of a batch before the vmstate's: pages, and deletion markers. -/
theorem generation_of_mem_batchEntries {e : BatchEntry} (hcut : VmmNumbered cut)
    (he : e ∈ (batchPages cut read).map (fun p => BatchEntry.page p.1 p.2.1 p.2.2) ++
      cut.pendingTombstones.filterMap fun p => v.tombstoneEntry volume p.1 p.2)
    (hvmm : (e.toBlx v.config.kind).key.space = .vmm) :
    (e.toBlx v.config.kind).generation = cut.seq := by
  rcases List.mem_append.mp he with he | he
  · obtain ⟨p, -, rfl⟩ := List.mem_map.mp he
    exact absurd hvmm (BlockKey.fromPage_space_ne_vmm _ _)
  · obtain ⟨⟨key, generation⟩, hmem, htomb⟩ := List.mem_filterMap.mp he
    simp only [tombstoneEntry] at htomb
    split at htomb
    · rename_i hkey
      cases htomb
      exact hcut key generation hmem hkey
    · obtain ⟨page, -, rfl⟩ := Option.map_eq_some_iff.mp htomb
      exact absurd hvmm (BlockKey.fromPage_space_ne_vmm _ _)

/-- The entries of a checkpoint: the others first, and the blocks of the vmstate at the end. -/
theorem batchEntries_checkpoint {checkpoint : Checkpoint} (hcheckpoint : cut.checkpoint = some checkpoint)
    (hcut : VmmNumbered cut) (h : v.batchEntries volume cut read = some entries) :
    ∃ before blocks, vmmSnapshotBlocks checkpoint.vmstateBytes = some blocks ∧
      entries.map (BatchEntry.toBlx v.config.kind) =
        before ++ blocks.map (fun p => .data p.1 cut.seq p.2) ∧
      ∀ e ∈ before, e.key.space = .vmm → e.generation = cut.seq := by
  simp only [batchEntries, hcheckpoint, vmmEntries, bind_eq_some, pure_eq_some] at h
  obtain ⟨vmm, ⟨blocks, hblocks, rfl⟩, rfl⟩ := h
  obtain ⟨-, hkeys⟩ := keys_vmmSnapshotBlocks hblocks
  rw [← List.append_assoc, List.map_append]
  refine ⟨_, blocks, hblocks, congrArg _ ?_, fun e he hvmm => ?_⟩
  · rw [List.map_map]
    refine List.map_congr_left fun p hp => ?_
    have hkey : p.1 ∈ blocks.map Prod.fst := List.mem_map_of_mem hp
    rw [hkeys] at hkey
    obtain ⟨block, -, hblock⟩ := List.mem_map.mp hkey
    simp only [Function.comp_apply, BatchEntry.toBlx, ← hblock]
  · rw [List.map_append] at he
    rcases List.mem_append.mp he with he | he
    · obtain ⟨entry, hentry, rfl⟩ := List.mem_map.mp he
      exact generation_of_mem_batchEntries hcut hentry hvmm
    · obtain ⟨entry, hentry, rfl⟩ := List.mem_map.mp he
      obtain ⟨key, -, rfl⟩ := List.mem_map.mp hentry
      rfl

/-- A block of the vmstate replaces whatever the batch had under its key. -/
theorem getElem?_of_mem_blocks {before : List BlxEntry} {seq : JournalSeq} {bytes : Bytes}
    {blocks : List (BlockKey × Bytes)} (hblocks : vmmSnapshotBlocks bytes = some blocks)
    (hbefore : ∀ e ∈ before, e.key.space = .vmm → e.generation = seq) {key : BlockKey}
    {padded : Bytes} (hmem : (key, padded) ∈ blocks) :
    (Newest.keepAll BlxEntry.generation BlxEntry.key ∅
      (before ++ blocks.map (fun p => .data p.1 seq p.2)))[key]? = some (.data key seq padded) := by
  have hvmm : key.space = .vmm := by
    have hkey : key ∈ blocks.map Prod.fst := List.mem_map_of_mem hmem
    rw [(keys_vmmSnapshotBlocks hblocks).2] at hkey
    obtain ⟨block, -, rfl⟩ := List.mem_map.mp hkey
    rfl
  have hnodup := nodup_vmmSnapshotBlocks hblocks
  obtain ⟨first, last, rfl⟩ := List.append_of_mem hmem
  rw [List.map_append, List.map_cons, ← List.append_assoc]
  have hlast : ∀ b ∈ last.map (fun p => BlxEntry.data p.1 seq p.2), b.key = key →
      b.generation < seq := by
    intro b hb heq
    obtain ⟨p, hp, rfl⟩ := List.mem_map.mp hb
    rw [List.map_append, List.map_cons, List.nodup_append] at hnodup
    have hnot := (List.nodup_cons.mp hnodup.2.1).1
    exact absurd (List.mem_map.mpr ⟨p, hp, heq⟩) hnot
  refine Newest.getElem?_keepAll_append_cons (a := BlxEntry.data key seq padded) ?_ hlast
  intro b hb hkey
  rcases List.mem_append.mp hb with hb | hb
  · refine (hbefore b hb ?_).le
    rw [hkey]
    exact hvmm
  · obtain ⟨p, -, rfl⟩ := List.mem_map.mp hb
    exact le_rfl

/-- **A checkpoint's files hold its vmstate**, and no other VMM entry of its number. -/
theorem vmmBatch_of_buildBatch (hcut : VmmNumbered cut)
    (h : v.buildBatch volume cut read = some (post, blobs)) :
    ∃ objects, CaptureBatch volume v.fence cut objects ∧
      blobs = objects.map (fun o => o.blob volume v.fence) ∧
      VmmBatch cut.seq (cut.checkpoint.map Checkpoint.vmstateBytes) objects := by
  obtain ⟨entries, objects, chunks, hentries, hbatch, hblobs, hchunks, hmem⟩ :=
    contains_of_buildBatch h
  refine ⟨objects, hbatch, hblobs, ?_⟩
  set items := entries.map (BatchEntry.toBlx v.config.kind) with hitems
  have hitem : ∀ e ∈ chunks.flatten, e ∈ items := by
    intro e he
    rcases Newest.of_getElem?_keepAll ((hmem e).mp he) with ⟨hin, -⟩ | hnone
    · exact hin
    · simp at hnone
  have hobject : ∀ o ∈ objects, ∃ es, o.Contains es ∧ ∀ e ∈ es, e ∈ chunks.flatten := by
    intro o ho
    obtain ⟨i, hi, rfl⟩ := List.getElem_of_mem ho
    obtain ⟨hlen, hget⟩ := List.forall₂_iff_get.mp hchunks
    exact ⟨chunks[i], hget i hi (hlen ▸ hi), fun e he =>
      List.mem_flatten_of_mem (List.getElem_mem _) he⟩
  have hchunk : ∀ e ∈ chunks.flatten, ∃ o ∈ objects, ∃ es, o.Contains es ∧ e ∈ es := by
    intro e he
    obtain ⟨chunk, hc, he⟩ := List.mem_flatten.mp he
    obtain ⟨i, hi, rfl⟩ := List.getElem_of_mem hc
    obtain ⟨hlen, hget⟩ := List.forall₂_iff_get.mp hchunks
    exact ⟨_, List.getElem_mem _, chunks[i], hget i (hlen ▸ hi) hi, he⟩
  cases hcheckpoint : cut.checkpoint with
  | none =>
    simp only [batchEntries, hcheckpoint, pure_eq_some] at hentries
    refine ⟨fun o ho => ?_, by simp⟩
    obtain ⟨es, hes, hsub⟩ := hobject o ho
    refine ⟨es, hes, fun e he hvmm => ⟨?_, by simp⟩⟩
    have hin := hitem e (hsub e he)
    rw [hitems, ← hentries] at hin
    obtain ⟨entry, hentry, rfl⟩ := List.mem_map.mp hin
    exact generation_of_mem_batchEntries hcut hentry hvmm
  | some checkpoint =>
    obtain ⟨before, blocks, hblocks, hsplit, hbefore⟩ :=
      batchEntries_checkpoint hcheckpoint hcut hentries
    rw [← hitems] at hsplit
    have hget : ∀ key padded, (key, padded) ∈ blocks → BlxEntry.data key cut.seq padded ∈
        chunks.flatten := by
      intro key padded hp
      rw [hmem, hsplit]
      exact getElem?_of_mem_blocks hblocks hbefore hp
    refine ⟨fun o ho => ?_, ?_⟩
    · obtain ⟨es, hes, hsub⟩ := hobject o ho
      refine ⟨es, hes, fun e he hvmm => ⟨?_, ?_⟩⟩
      · have hin := hitem e (hsub e he)
        rw [hsplit] at hin
        rcases List.mem_append.mp hin with hin | hin
        · exact hbefore e hin hvmm
        · obtain ⟨p, -, rfl⟩ := List.mem_map.mp hin
          rfl
      · intro bytes hbytes blocks' hblocks' padded hp
        cases hbytes
        rw [hblocks] at hblocks'
        cases hblocks'
        have hkept := (hmem e).mp (hsub e he)
        have hdata := (hmem _).mp (hget e.key padded hp)
        rw [show (BlxEntry.data e.key cut.seq padded).key = e.key from rfl, hkept] at hdata
        exact Option.some.inj hdata
    · intro bytes hbytes
      cases hbytes
      exact ⟨blocks, hblocks, fun key padded hp => hchunk _ (hget key padded hp)⟩

end VolumeState

end Blockd
