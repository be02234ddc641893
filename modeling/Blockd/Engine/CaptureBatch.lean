import Blockd.Blx.Finish
import Blockd.Engine.Capture

/-!
# The batch of a capture

What `reserve` fixes and what `buildBatch` makes of it, stated once for all proofs about captures:
`VolumeState.reserved`, and `VolumeState.captureBatch_of_buildBatch`, by which the files of a
capture are the objects of one finished batch with the capture's number.
-/

set_option autoImplicit false

open Codec
open Std (ExtTreeMap ExtTreeSet)

namespace Blockd

theorem numberFrom_fst {α : Type} {next last : Gen} {items : List α} {numbered : List (α × Gen)}
    (h : numberFrom next items = some (numbered, last)) : numbered.map Prod.fst = items := by
  induction items generalizing next numbered last with
  | nil =>
    simp only [numberFrom, Option.some.injEq, Prod.mk.injEq] at h
    rw [← h.1, List.map_nil]
  | cons item items ih =>
    simp only [numberFrom, bind_eq_some, pure_eq_some, Prod.exists, Prod.mk.injEq] at h
    obtain ⟨following, -, rest, last', hrest, rfl, rfl⟩ := h
    rw [List.map_cons, ih hrest]

/-- The first of the remaining images is the image of the next item. -/
theorem exists_of_cons_eq_map_drop {α β : Type} {f : α → β} {items : List α} {n : Nat} {b : β}
    {bs : List β} (h : b :: bs = (items.drop n).map f) :
    ∃ a, items[n]? = some a ∧ b = f a ∧ bs = (items.drop (n + 1)).map f ∧
      (items.take n).map f ++ [b] = (items.take (n + 1)).map f := by
  have hlt : n < items.length := by
    by_contra hge
    rw [List.drop_of_length_le (Nat.le_of_not_lt hge), List.map_nil] at h
    cases h
  rw [List.drop_eq_getElem_cons hlt, List.map_cons, List.cons.injEq] at h
  refine ⟨items[n], List.getElem?_eq_getElem hlt, h.1, h.2, ?_⟩
  rw [h.1, ← List.take_append_getElem hlt, List.map_append, List.map_singleton]

variable [Platform]

/-! ## The cut -/

namespace VolumeState

variable {v v' : VolumeState} {volume : VolumeId} {cache : Cache} {kind : CaptureKind}
  {checkpoint : Option Checkpoint} {prepared : List CompactionRescue} {cut : Cut}

/-- What a cut leaves in the volume state, and what it fixes. -/
structure Reserved (v : VolumeState) (cache : Cache) (kind : CaptureKind)
    (checkpoint : Option Checkpoint) (v' : VolumeState) (cut : Cut) : Prop where
  state : ∃ nextSeq nextObjectId nextGen,
    v' = { v with nextSeq := nextSeq, nextObjectId := nextObjectId, nextGen := nextGen }
  nextSeq : v'.nextSeq.toNat = v.nextSeq.toNat + 1
  nextObjectId : v.nextObjectId ≤ v'.nextObjectId
  kind : cut.kind = kind
  checkpoint : cut.checkpoint = checkpoint
  seq : cut.seq = v.nextSeq
  captureSeq : cut.captureSeq = v.mutationSeq
  firstObject : cut.firstObject = v.nextObjectId
  flushed : cut.flushedPages = cache.unstablePages
  pages : ∀ page ∈ cache.unstablePages, page ∈ cut.pages.map Prod.fst

theorem reserved (h : v.reserve volume cache kind checkpoint prepared = some (v', cut)) :
    Reserved v cache kind checkpoint v' cut := by
  simp only [reserve, bind_eq_some, ensure_eq_some, pure_eq_some, Prod.exists, Prod.mk.injEq,
    exists_const] at h
  obtain ⟨-, -, nextSeq, hseq, nextObjectId, hobject, unread, gen, hunread, rescues, gen', hrescues,
    tombstones, gen'', htombstones, rfl, rfl⟩ := h
  refine ⟨⟨_, _, _, rfl⟩, toNat_of_checkedAdd hseq, ?_, rfl, rfl, rfl, rfl, rfl, rfl, ?_⟩
  · have := toNat_of_checkedAdd hobject
    rw [UInt64.le_iff_toNat_le]
    show v.nextObjectId.toNat ≤ nextObjectId.toNat
    omega
  · intro page hpage
    rw [numberFrom_fst hunread]
    split
    · rw [ExtTreeSet.mem_toList, ExtTreeSet.mem_ofList, List.contains_eq_mem]
      exact decide_eq_true (List.mem_append_left _ hpage)
    · exact hpage

theorem Reserved.nextSeq_lt (h : Reserved v cache kind checkpoint v' cut) :
    v.nextSeq < v'.nextSeq := by
  rw [UInt64.lt_iff_toNat_lt, h.nextSeq]
  exact Nat.lt_succ_self _

end VolumeState

/-! ## The batch -/

/-- What an entry of a capture is in its files. -/
def BatchEntry.toBlx (kind : VolumeKind) : BatchEntry → BlxEntry
  | .page id generation bytes => .data (BlockKey.fromPage kind id) generation bytes
  | .tombstone id generation => .tombstone (BlockKey.fromPage kind id) generation
  | .vmmTombstone block generation => .tombstone ⟨.vmm, block⟩ generation
  | .vmmBlock block generation bytes => .data ⟨.vmm, block⟩ generation bytes

namespace PageBatchBuilder

/-- Adding entries does not change whose batch it is. -/
def SameBatch (b b' : PageBatchBuilder) : Prop :=
  b'.volume = b.volume ∧ b'.fence = b.fence ∧ b'.builder.batch = b.builder.batch

theorem sameBatch_withBuilder {b : PageBatchBuilder} {builder : BlxBatchBuilder}
    (h : builder.batch = b.builder.batch) : b.SameBatch (b.withBuilder builder h) :=
  ⟨rfl, rfl, h⟩

/-- An entry that is added is inserted. -/
theorem addEntry_eq_some {b b' : PageBatchBuilder} {entry : BatchEntry}
    (h : b.addEntry entry = some b') : ∃ hv, b' = b.withBuilder
      (b.builder.insert (entry.toBlx b.kind) hv) (BlxBatchBuilder.batch_insert ..) := by
  cases entry with
  | page page generation bytes =>
    simp only [addEntry, tryAdd] at h
    split at h
    · split at h
      · cases h
      · rename_i builder hadd
        split at h <;> cases h
        obtain ⟨hv, ⟨⟩⟩ := Option.dite_none_right_eq_some.mp hadd
        exact ⟨hv, rfl⟩
    · cases h
  | tombstone page generation =>
    simp only [addEntry, tryAddTombstone] at h
    split at h
    · split at h <;> cases h
      exact ⟨trivial, rfl⟩
    · cases h
  | vmmTombstone block generation =>
    cases h
    exact ⟨trivial, rfl⟩
  | vmmBlock block generation bytes =>
    simp only [addEntry, addVmmBlock] at h
    split at h
    · cases h
    · rename_i builder hadd
      cases h
      obtain ⟨hv, ⟨⟩⟩ := Option.dite_none_right_eq_some.mp hadd
      exact ⟨hv, rfl⟩

theorem sameBatch_of_addEntries {entries : List BatchEntry} {b b' : PageBatchBuilder}
    (h : entries.foldlM addEntry b = some b') : b.SameBatch b' := by
  induction entries generalizing b with
  | nil =>
    cases h
    exact ⟨rfl, rfl, rfl⟩
  | cons entry entries ih =>
    rw [List.foldlM_cons, bind_eq_some] at h
    obtain ⟨b'', hentry, hrest⟩ := h
    obtain ⟨_, rfl⟩ := addEntry_eq_some hentry
    obtain ⟨hv, hf, hb⟩ := sameBatch_withBuilder (b := b) (BlxBatchBuilder.batch_insert ..)
    obtain ⟨hv', hf', hb'⟩ := ih hrest
    exact ⟨hv'.trans hv, hf'.trans hf, hb'.trans hb⟩

/-- A page of the volume is added if its chunks can be numbered. -/
theorem addEntry_page {b : PageBatchBuilder} {page : PageId} {generation : Gen} {bytes : Bytes}
    (hvolume : page.volume = b.volume) (hlen : bytes.length = pageSize)
    (hfit : (b.builder.insert (.data (BlockKey.fromPage b.kind page) generation bytes)
      hlen).objectIdsFit = true) :
    b.addEntry (.page page generation bytes) = some (b.withBuilder
      (b.builder.insert (.data (BlockKey.fromPage b.kind page) generation bytes) hlen)
      (BlxBatchBuilder.batch_insert ..)) := by
  have hadd : b.builder.addData (BlockKey.fromPage b.kind page) generation bytes =
      some (b.builder.insert (.data (BlockKey.fromPage b.kind page) generation bytes) hlen) :=
    dif_pos hlen
  simp only [addEntry, tryAdd, if_pos hvolume]
  split
  · rename_i hnone
    cases hadd.symm.trans hnone
  · rename_i builder hsome
    cases hadd.symm.trans hsome
    rw [if_pos hfit]
    rfl

theorem addEntry_vmmBlock {b : PageBatchBuilder} {block : UInt32} {generation : Gen} {bytes : Bytes}
    (hlen : bytes.length = pageSize) :
    b.addEntry (.vmmBlock block generation bytes) = some (b.withBuilder
      (b.builder.insert (.data ⟨.vmm, block⟩ generation bytes) hlen)
      (BlxBatchBuilder.batch_insert ..)) := by
  have hadd : b.builder.addData ⟨.vmm, block⟩ generation bytes =
      some (b.builder.insert (.data ⟨.vmm, block⟩ generation bytes) hlen) := dif_pos hlen
  simp only [addEntry, addVmmBlock]
  split
  · rename_i hnone
    cases hadd.symm.trans hnone
  · rename_i builder hsome
    cases hadd.symm.trans hsome
    rfl

end PageBatchBuilder

/-- The blob of an object of a capture. -/
def BlxObject.blob (o : BlxObject) (volume : VolumeId) (fence : UInt64) : BlxBlob :=
  (o.header.objectId, o.bytes, o.footer.pages volume fence o.header.objectId)

/-- The identity of an object of a capture. -/
def BlxObject.identity (o : BlxObject) : ObjectIdentity := (ObjectRef.fromBlx o).identity

namespace VolumeState

variable {v : VolumeState} {volume : VolumeId} {cut : Cut}

/-- The objects of one capture. -/
def CaptureBatch (volume : VolumeId) (fence : UInt64) (cut : Cut) (objects : List BlxObject) :
    Prop :=
  ∃ pre post,
    BlxBatch (PageBatchBuilder.batchMeta volume fence cut.firstObject cut.seq pre post) objects

section

variable {read : PageId → Bytes} {post : UInt64 × BlockChecksums} {blobs : List BlxBlob}

theorem finished_of_buildBatch (h : v.buildBatch volume cut read = some (post, blobs)) :
    ∃ entries builder objects, v.batchEntries volume cut read = some entries ∧
      (∃ post', entries.foldlM PageBatchBuilder.addEntry (.newWithChecksums v.config.kind volume
        v.fence cut.firstObject cut.seq v.stateChecksum post') = some builder) ∧
      builder.builder.finish = some objects ∧ CaptureBatch volume v.fence cut objects ∧
      blobs = objects.map fun o => o.blob volume v.fence := by
  simp only [buildBatch, bind_eq_some, pure_eq_some, Prod.mk.injEq] at h
  obtain ⟨post', -, entries, hentries, builder, hbuilder, blobs', hblobs, -, rfl⟩ := h
  obtain ⟨hvolume, hfence, hbatch⟩ := PageBatchBuilder.sameBatch_of_addEntries hbuilder
  rw [PageBatchBuilder.finish, bind_eq_some] at hblobs
  obtain ⟨objects, hobjects, hblobs⟩ := hblobs
  refine ⟨entries, builder, objects, hentries, ⟨_, hbuilder⟩, hobjects,
    ⟨v.stateChecksum, post'.1, ?_⟩, ?_⟩
  · have hfinish := BlxBatchBuilder.finish_batch hobjects
    rw [hbatch] at hfinish
    exact hfinish
  · rw [← Option.some.inj hblobs, hvolume, hfence]
    rfl

theorem captureBatch_of_buildBatch (h : v.buildBatch volume cut read = some (post, blobs)) :
    ∃ objects, CaptureBatch volume v.fence cut objects ∧
      blobs = objects.map fun o => o.blob volume v.fence := by
  obtain ⟨-, -, objects, -, -, -, hbatch, hblobs⟩ := finished_of_buildBatch h
  exact ⟨objects, hbatch, hblobs⟩

end

/-- The batch of a capture all of whose entries lie in partitions of their own. -/
theorem exists_buildBatch_single (hfit : PagesFit) {read : PageId → Bytes}
    {post : UInt64 × BlockChecksums} {added : List BatchEntry} {b : PageBatchBuilder}
    {entries : List BlxEntry} (hpost : v.postState cut read = some post)
    (hadded : v.batchEntries volume cut read = some added)
    (hb : added.foldlM PageBatchBuilder.addEntry
      (PageBatchBuilder.newWithChecksums v.config.kind volume v.fence cut.firstObject cut.seq
        v.stateChecksum post.1) = some b)
    (hchunks : b.builder.chunks = entries.map fun e => [e]) (hcount : entries.length < 2 ^ 32)
    (hids : cut.firstObject.toNat + entries.length ≤ 2 ^ 64) :
    ∃ layouts : Nat → Layout, ∃ objects, objects = (entries.mapIdx fun i e => BlxObject.single
        (PageBatchBuilder.batchMeta volume v.fence cut.firstObject cut.seq v.stateChecksum post.1)
        (cut.firstObject + UInt64.ofNat i) (UInt32.ofNat i) (UInt32.ofNat entries.length) e
        (layouts i)) ∧
      v.buildBatch volume cut read =
        some (post, objects.map fun o => o.blob volume v.fence) ∧
      BlxBatch (PageBatchBuilder.batchMeta volume v.fence cut.firstObject cut.seq v.stateChecksum
        post.1) objects := by
  obtain ⟨hvolume, hfence, hbatch⟩ := PageBatchBuilder.sameBatch_of_addEntries hb
  have hmeta : b.builder.batch = PageBatchBuilder.batchMeta volume v.fence cut.firstObject cut.seq
      v.stateChecksum post.1 := hbatch
  have hfirst : b.builder.batch.firstObjectId = cut.firstObject := by
    rw [hmeta]
    rfl
  obtain ⟨layouts, hfinish⟩ := b.builder.exists_finish_single hfit hchunks hcount (hfirst ▸ hids)
  have hobjects := BlxBatchBuilder.finish_batch hfinish
  rw [hfirst, hmeta] at hfinish hobjects
  refine ⟨layouts, _, rfl, ?_, hobjects⟩
  simp only [buildBatch, hpost, hadded, hb, PageBatchBuilder.finish, hfinish, some_bind, hvolume,
    hfence]
  rfl

end VolumeState

namespace BlxFooter

omit [Platform] in
/-- The pages of a file are located in it. -/
theorem of_mem_pages {footer : BlxFooter} {volume : VolumeId} {fence : UInt64} {object : ObjectId}
    {page : PageId} {gen : Gen} {loc : PageFileLoc}
    (h : (page, gen, loc) ∈ footer.pages volume fence object) :
    loc.base = 0 ∧ loc.identity page.volume = ObjectIdentity.volume volume fence object := by
  rw [pages, List.mem_filterMap] at h
  obtain ⟨entry, -, h⟩ := h
  split at h
  · rw [Option.map_eq_some_iff] at h
    obtain ⟨page', hpage, heq⟩ := h
    cases heq
    have hvolume : page.volume = volume := by
      rw [BlockKey.toPageId] at hpage
      split at hpage
      · cases hpage
        rfl
      · cases hpage
        rfl
      · cases hpage
    refine ⟨rfl, ?_⟩
    rw [hvolume]
    rfl
  · cases h

end BlxFooter

namespace BlxBatch

variable {batch : BatchMeta} {objects : List BlxObject} {k m : Nat} {o p : BlxObject}

theorem nil : BlxBatch batch [] := by
  constructor <;> simp

/-- References to the objects of one batch agree about it. -/
theorem siblings (hb : BlxBatch batch objects) (ho : objects[k]? = some o)
    (hp : objects[m]? = some p) : (ObjectRef.fromBlx o).Siblings (ObjectRef.fromBlx p) := by
  have hom := List.mem_of_getElem? ho
  have hpm := List.mem_of_getElem? hp
  obtain ⟨-, -, -, homin, homax, -, hopre, hopost⟩ := hb.fields o hom
  obtain ⟨-, -, -, hpmin, hpmax, -, hppre, hppost⟩ := hb.fields p hpm
  have hcount : o.header.chunkCount = p.header.chunkCount :=
    UInt32.toNat_inj.mp ((hb.chunkCount o hom).trans (hb.chunkCount p hpm).symm)
  refine ⟨?_, fun hindex => ?_, fun hlt => ?_⟩
  · simp only [ObjectRef.batchFields, ObjectRef.fromBlx, homin, homax, hopre, hopost, hpmin, hpmax,
      hppre, hppost, hcount]
  · have hkm : k = m := by
      rw [← hb.chunkIndex k o ho, ← hb.chunkIndex m p hp]
      exact congrArg UInt32.toNat hindex
    rw [hkm, hp] at ho
    cases ho
    rfl
  · have hkm : k < m := by
      rw [← hb.chunkIndex k o ho, ← hb.chunkIndex m p hp]
      exact UInt32.lt_iff_toNat_lt.mp hlt
    obtain ⟨hklt, rfl⟩ := List.getElem?_eq_some_iff.mp ho
    obtain ⟨hmlt, rfl⟩ := List.getElem?_eq_some_iff.mp hp
    exact List.pairwise_iff_getElem.mp hb.ranges k m hklt hmlt hkm

end BlxBatch

end Blockd
