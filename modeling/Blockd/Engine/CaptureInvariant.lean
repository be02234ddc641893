import Blockd.Engine.CaptureBatch

/-!
# What captures keep true of the file table

`Primary.Inv` ties the table of files, the page locations, the capture in progress and the pending
cleanups together:

* the table holds whole references, and references of one batch agree (`FileTable`);
* a batch the volume still needs a file of is complete, unless it is the one being written;
* of the batch being written, exactly the first files are in the table, under ids above all others;
* a file that is about to be removed is in no needed batch, or it is all of its batch and archived;
* every record on disk is accepted by the decoder.

Every step of `Primary.captureStep` preserves it under three conditions: a capture is abandoned only
before its first file is written, no file in the table already carries the number a capture takes, and
what is reclaimed from a needed batch is all of it.
-/

set_option autoImplicit false

open Codec
open Std (ExtTreeMap)

namespace Blockd

variable [Platform]

/-! ## Lookups after an update -/

namespace VolumeState

variable {v : VolumeState} {i id : ObjectIdentity} {o : BlxObject} {entries : PageFileEntries}
  {post : UInt64 × BlockChecksums} {cleanup : Cleanup} {r : ObjectRef}

theorem files_noteChunk : (v.noteChunk id o entries post).files i =
    if id = i then some (ObjectRef.fromBlx o) else v.files i :=
  Maps.getElem?_insert ..

theorem files_forget : (v.forget cleanup).files i = some r ↔ v.files i = some r ∧ i ∉ cleanup.blx := by
  rw [files, forget, ExtTreeMap.getElem?_filter']
  simp [Option.filter_eq_some_iff]

/-- A file brings its own pages and markers, and nothing else is needed after it than before. -/
theorem mem_neededBlx_noteChunk {volume : VolumeId} {fence : UInt64}
    (hid : id = ObjectIdentity.volume volume fence o.header.objectId)
    (hentries : entries = o.footer.pages volume fence o.header.objectId)
    (h : i ∈ (v.noteChunk id o entries post).neededBlx) : i = id ∨ i ∈ v.neededBlx := by
  rcases mem_neededBlx.mp h with ⟨page, gen, loc, hloc, hbase, hi⟩ | htomb | hvmm
  · rcases Maps.of_getElem?_foldl_insert hloc with hmem | hold
    · rw [hentries] at hmem
      left
      rw [← hi, hid]
      exact (BlxFooter.of_mem_pages hmem).2
    · exact .inr (mem_neededBlx.mpr (.inl ⟨page, gen, loc, hold, hbase, hi⟩))
  · simp only [noteChunk] at htomb
    split at htomb
    · rcases Finset.mem_insert.mp htomb with rfl | hold
      · exact .inl rfl
      · exact .inr (mem_neededBlx.mpr (.inr (.inl hold)))
    · exact .inr (mem_neededBlx.mpr (.inr (.inl htomb)))
  · exact .inr (mem_neededBlx.mpr (.inr (.inr hvmm)))

theorem mem_neededBlx_noteBatch {volume : VolumeId} {cut : Cut} {blobs : List BlxBlob}
    (h : i ∈ (v.noteBatch volume cut blobs).neededBlx) :
    i ∈ v.neededBlx ∨ i ∈ v.blobIdentities volume blobs := by
  rw [noteBatch] at h
  split at h
  · rcases mem_neededBlx.mp h with hpage | htomb | hvmm
    · exact .inl (mem_neededBlx.mpr (.inl hpage))
    · exact .inl (mem_neededBlx.mpr (.inr (.inl htomb)))
    · exact .inr hvmm
  · exact .inl h

theorem mem_neededBlx_forget (h : i ∈ (v.forget cleanup).neededBlx) : i ∈ v.neededBlx := by
  rcases mem_neededBlx.mp h with hpage | htomb | hvmm
  · exact mem_neededBlx.mpr (.inl hpage)
  · exact mem_neededBlx.mpr (.inr (.inl (Finset.mem_filter.mp htomb).1))
  · exact mem_neededBlx.mpr (.inr (.inr (Finset.mem_filter.mp hvmm).1))

end VolumeState

/-! ## The invariant -/

/-- What the invariant reads of a volume: its files and the counters that number them. -/
structure FileView where
  id : VolumeId
  fence : UInt64
  files : ObjectIdentity → Option ObjectRef
  needed : Finset ObjectIdentity
  blobs : List ObjectIdentity
  backed : Finset ObjectIdentity
  nextSeq : JournalSeq
  nextObjectId : ObjectId

def VolumeState.fileView (v : VolumeState) (id : VolumeId) : FileView where
  id := id
  fence := v.fence
  files := v.files
  needed := v.neededBlx
  blobs := v.blxBlobs.map Prod.fst
  backed := v.backedBlxFiles
  nextSeq := v.nextSeq
  nextObjectId := v.nextObjectId

/-- The number of the batch whose files are still being written. -/
def unfinished : Option (Cut × CapturePhase) → Option JournalSeq
  | some (cut, .draining) => some cut.seq
  | some (cut, .writing ..) => some cut.seq
  | _ => none

namespace FileView

/-- The reference belongs to a batch the volume needs a file of. -/
def NeedsBatch (w : FileView) (r : ObjectRef) : Prop :=
  ∃ i q, w.files i = some q ∧ i ∈ w.needed ∧ q.SameBatch r

/-- The file may go: the volume needs no file of its batch, or it is all of the batch and in the
archive. -/
def Expendable (w : FileView) (i : ObjectIdentity) (r : ObjectRef) : Prop :=
  ¬ w.NeedsBatch r ∨ r.chunkCount = 1 ∧ i ∈ w.backed

omit [Platform] in
theorem Expendable.mono {w w' : FileView} {i : ObjectIdentity} {r : ObjectRef}
    (h : w.Expendable i r) (hneeds : w'.NeedsBatch r → w.NeedsBatch r) (hbacked : w.backed ⊆ w'.backed) :
    w'.Expendable i r :=
  h.imp (mt hneeds) fun ⟨hone, hi⟩ => ⟨hone, hbacked hi⟩

/-- The identity was given out before the capture in progress, or before the next one. -/
def Before (w : FileView) (capture : Option (Cut × CapturePhase)) (i : ObjectIdentity) : Prop :=
  match capture with
  | some (cut, _) => i.objectId < cut.firstObject
  | none => w.nextObjectId.toNat < 2 ^ 64 - 1 → i.objectId < w.nextObjectId

/-- The first `n` of a capture's objects are in the table, and no other file has its number. -/
structure InFlight (w : FileView) (cut : Cut) (objects : List BlxObject) (n : Nat) : Prop where
  batch : VolumeState.CaptureBatch w.id w.fence cut objects
  le : n ≤ objects.length
  present : ∀ k o, k < n → objects[k]? = some o → w.files o.identity = some (ObjectRef.fromBlx o)
  only : ∀ i r, w.files i = some r → r.batchId = cut.seq →
    ∃ k o, k < n ∧ objects[k]? = some o ∧ o.identity = i
  older : ∀ i r, w.files i = some r → r.batchId ≠ cut.seq → i.objectId < cut.firstObject
  seq : cut.seq < w.nextSeq
  first : cut.firstObject ≤ w.nextObjectId

theorem InFlight.last {w : FileView} {cut : Cut} {objects : List BlxObject} {n : Nat}
    (h : w.InFlight cut objects n) {f : BlxObject → BlxBlob} (hlast : [] = (objects.drop n).map f) :
    n = objects.length := by
  have hlen := congrArg List.length hlast
  have hle := h.le
  rw [List.length_nil, List.length_map, List.length_drop] at hlen
  omega

/-- The record of a capture names every file the volume needs, in batches its decoder accepts. -/
structure Recorded (w : FileView) (cut : Cut) (record : JournalRecord) : Prop where
  seq : record.seq = cut.seq
  fence : record.fence = w.fence
  migratedFrom : record.migratedFrom = none
  wellFormed : ∀ f ∈ record.files, f.WellFormed
  own : ∀ f ∈ record.files, f.identity.namespaceKind = .volume
  valid : ValidBatches record.files
  covers : ∀ i r, w.files i = some r → w.NeedsBatch r → r ∈ record.files

/-- Where the capture stands, in terms of its objects. -/
def PhaseOk (w : FileView) (cut : Cut) (objects : List BlxObject) (n : Nat) : CapturePhase → Prop
  | .draining => objects = []
  | .writing _ written remaining =>
    written = (objects.take n).map (fun o => o.blob w.id w.fence) ∧
    remaining = (objects.drop n).map fun o => o.blob w.id w.fence
  | .recorded record blobs =>
    n = objects.length ∧ blobs = objects.map (fun o => o.blob w.id w.fence) ∧
    w.Recorded cut record
  | .durable record blobs =>
    n = objects.length ∧ blobs = objects.map (fun o => o.blob w.id w.fence) ∧
    w.Recorded cut record

/-- The blob reads back as a record of this tenure, under the record's own name. -/
def JournalOk (w : FileView) (name : UInt64 ×ₗ JournalSeq) (bytes : Bytes) : Prop :=
  ∃ record, JournalRecord.decode w.id bytes = some record ∧
    name = toLex (record.fence, record.seq) ∧ record.fence = w.fence ∧
    record.seq < w.nextSeq ∧ record.migratedFrom = none ∧ record.runtimePageIndex = ∅

structure Inv (w : FileView) (records : ExtTreeMap (UInt64 ×ₗ JournalSeq) Bytes)
    (active : Option (Cut × CapturePhase)) (pending : List Cleanup) : Prop where
  table : FileTable w.id w.files
  fence : ∀ i r, w.files i = some r → i.writerFence = w.fence
  seqs : ∀ i r, w.files i = some r → r.minSeq = r.batchId ∧ r.maxSeq = r.batchId
  blobs : ∀ i ∈ w.blobs, ∃ r, w.files i = some r
  journals : ∀ name bytes, records[name]? = some bytes → w.JournalOk name bytes
  capture : ∀ cut phase, active = some (cut, phase) →
    ∃ objects n, w.InFlight cut objects n ∧ w.PhaseOk cut objects n phase
  idle : active = none → ∀ i r, w.files i = some r → w.Before none i
  needed : ∀ i r, w.files i = some r → i ∈ w.needed → unfinished active ≠ some r.batchId →
    Complete w.files r
  cleanups : ∀ c ∈ pending, ∀ i ∈ c.blx, w.Before active i ∧
    ∀ r, w.files i = some r → w.Expendable i r

end FileView

/-- The invariant of a volume and its captures. -/
abbrev Primary.Inv (s : Primary) : Prop :=
  (s.volume.fileView s.id).Inv s.disk.journals s.capture s.cleanups

/-! ### Objects of the capture in progress -/

namespace FileView.InFlight

variable {w : FileView} {cut : Cut} {objects : List BlxObject} {n k : Nat} {o : BlxObject}
  {i : ObjectIdentity} {r : ObjectRef}

theorem identity (h : w.InFlight cut objects n) (ho : o ∈ objects) :
    o.identity = ObjectIdentity.volume w.id w.fence o.header.objectId := by
  obtain ⟨pre, post, hb⟩ := h.batch
  obtain ⟨hkind, hid, hfence, -⟩ := hb.fields o ho
  show ObjectIdentity.mk o.header.namespaceKind o.header.namespaceId o.header.writerFence _ = _
  rw [hkind, hid, hfence]
  rfl

theorem objectId (h : w.InFlight cut objects n) (hk : objects[k]? = some o) :
    o.identity.objectId.toNat = cut.firstObject.toNat + k := by
  obtain ⟨pre, post, hb⟩ := h.batch
  exact hb.objectId k o hk

theorem batchId (h : w.InFlight cut objects n) (ho : o ∈ objects) :
    (ObjectRef.fromBlx o).batchId = cut.seq := by
  obtain ⟨pre, post, hb⟩ := h.batch
  obtain ⟨-, -, -, -, -, hbatch, -⟩ := hb.fields o ho
  exact hbatch

/-- A file that was given out before is not one of the capture. -/
theorem ne_of_before (h : w.InFlight cut objects n) (hk : objects[k]? = some o)
    (hi : i.objectId < cut.firstObject) : o.identity ≠ i := by
  rintro rfl
  have hid := h.objectId hk
  rw [UInt64.lt_iff_toNat_lt] at hi
  omega

/-- A file in the table that was given out before has another number. -/
theorem batchId_ne (h : w.InFlight cut objects n) (hr : w.files i = some r)
    (hi : i.objectId < cut.firstObject) : r.batchId ≠ cut.seq := by
  intro heq
  obtain ⟨k, o, -, ho, hoi⟩ := h.only i r hr heq
  exact h.ne_of_before ho hi hoi

/-- The next object of the capture is not in the table yet. -/
theorem fresh (h : w.InFlight cut objects n) (hk : objects[n]? = some o) :
    w.files o.identity = none := by
  by_contra hne
  obtain ⟨r, hr⟩ := Option.ne_none_iff_exists'.mp hne
  by_cases hseq : r.batchId = cut.seq
  · obtain ⟨m, p, hm, hp, heq⟩ := h.only _ r hr hseq
    have hid := h.objectId hp
    rw [heq, h.objectId hk] at hid
    omega
  · exact h.ne_of_before hk (h.older _ r hr hseq) rfl

/-- A file with the capture's number is one of its objects. -/
theorem eq_fromBlx (h : w.InFlight cut objects n) (hr : w.files i = some r)
    (hseq : r.batchId = cut.seq) :
    ∃ k o, k < n ∧ objects[k]? = some o ∧ o.identity = i ∧ r = ObjectRef.fromBlx o := by
  obtain ⟨k, o, hk, ho, rfl⟩ := h.only i r hr hseq
  refine ⟨k, o, hk, ho, rfl, ?_⟩
  rw [h.present k o hk ho] at hr
  exact (Option.some.inj hr).symm

/-- When all objects are in the table, their batch is complete. -/
theorem complete (h : w.InFlight cut objects objects.length) (hr : w.files i = some r)
    (hseq : r.batchId = cut.seq) : Complete w.files r := by
  obtain ⟨pre, post, hb⟩ := h.batch
  obtain ⟨m, p, -, hp, -, rfl⟩ := h.eq_fromBlx hr hseq
  intro k hk
  have hlt : k < objects.length := by
    rw [← hb.chunkCount p (List.mem_of_getElem? hp)]
    exact hk
  have hget : objects[k]? = some objects[k] := List.getElem?_eq_getElem hlt
  refine ⟨_, _, h.present k _ hlt hget, ⟨?_, ?_⟩, hb.chunkIndex k _ hget⟩
  · obtain ⟨-, -, hfence, -⟩ := hb.fields _ (List.mem_of_getElem? hget)
    obtain ⟨-, -, hfence', -⟩ := hb.fields _ (List.mem_of_getElem? hp)
    exact hfence.trans hfence'.symm
  · rw [h.batchId (List.mem_of_getElem? hget), hseq]

end FileView.InFlight

/-! ## Changes of the files -/

namespace FileView

variable {w : FileView} {records : ExtTreeMap (UInt64 ×ₗ JournalSeq) Bytes}
  {active : Option (Cut × CapturePhase)} {pending : List Cleanup} {cut : Cut}
  {post : UInt64 × BlockChecksums} {written remaining : List BlxBlob} {objects : List BlxObject}
  {n : Nat} {o : BlxObject} {i : ObjectIdentity} {r : ObjectRef}
  {files' : ObjectIdentity → Option ObjectRef} {needed' : Finset ObjectIdentity}
  {blobs' : List ObjectIdentity}

omit [Platform] in
/-- A batch is needed as before, if what is needed now was needed before or is one of the capture's
own files. -/
theorem NeedsBatch.old {w w' : FileView} {seq : JournalSeq} (h : w'.NeedsBatch r)
    (hr : r.batchId ≠ seq)
    (hold : ∀ i q, w'.files i = some q → i ∈ w'.needed →
      (w.files i = some q ∧ i ∈ w.needed) ∨ q.batchId = seq) : w.NeedsBatch r := by
  obtain ⟨i, q, hq, hneed, hsame⟩ := h
  rcases hold i q hq hneed with ⟨hfile, hi⟩ | hseq
  · exact ⟨i, q, hfile, hi, hsame⟩
  · exact absurd (hsame.2.symm.trans hseq) hr

/-- The table with one more file. -/
structure AddsFile (w : FileView) (o : BlxObject) (files' : ObjectIdentity → Option ObjectRef)
    (needed' : Finset ObjectIdentity) (blobs' : List ObjectIdentity) : Prop where
  files : ∀ i, files' i = if o.identity = i then some (ObjectRef.fromBlx o) else w.files i
  needed : ∀ i ∈ needed', i = o.identity ∨ i ∈ w.needed
  blobs : ∀ i ∈ blobs', i = o.identity ∨ i ∈ w.blobs

namespace AddsFile

omit [Platform] in
theorem of_files (h : w.AddsFile o files' needed' blobs') (hi : files' i = some r) :
    (i = o.identity ∧ r = ObjectRef.fromBlx o) ∨ w.files i = some r := by
  rw [h.files] at hi
  split at hi
  · rename_i heq
    exact .inl ⟨heq.symm, (Option.some.inj hi).symm⟩
  · exact .inr hi

omit [Platform] in
theorem self (h : w.AddsFile o files' needed' blobs') :
    files' o.identity = some (ObjectRef.fromBlx o) := by
  rw [h.files, if_pos rfl]

omit [Platform] in
theorem keeps (h : w.AddsFile o files' needed' blobs') (hfresh : w.files o.identity = none)
    (hi : w.files i = some r) : files' i = some r := by
  have hne : o.identity ≠ i := by
    rintro rfl
    rw [hfresh] at hi
    cases hi
  rw [h.files, if_neg hne]
  exact hi

omit [Platform] in
theorem old (h : w.AddsFile o files' needed' blobs') (hfresh : w.files o.identity = none)
    {seq : JournalSeq} (hseq : (ObjectRef.fromBlx o).batchId = seq) (hi : files' i = some r)
    (hneed : i ∈ needed') : (w.files i = some r ∧ i ∈ w.needed) ∨ r.batchId = seq := by
  rcases h.of_files hi with ⟨rfl, rfl⟩ | hold
  · exact .inr hseq
  · rcases h.needed i hneed with rfl | hi
    · rw [hfresh] at hold
      cases hold
    · exact .inl ⟨hold, hi⟩

theorem table (h : w.AddsFile o files' needed' blobs') (ht : FileTable w.id w.files)
    (hflight : w.InFlight cut objects n) (hget : objects[n]? = some o) :
    FileTable w.id files' := by
  obtain ⟨pre, post, hb⟩ := hflight.batch
  have ho := List.mem_of_getElem? hget
  have hwf := ObjectRef.wellFormed_of_batch hb (UInt64.le_refl _) ho
  refine ht.insert rfl ?_ hwf ?_ fun _ _ => h.of_files
  · show o.identity.namespaceKind = .volume ∧ o.identity.namespaceId = w.id
    rw [hflight.identity ho]
    exact ⟨rfl, rfl⟩
  · intro j q hq hsame
    obtain ⟨k, p, -, hp, -, rfl⟩ := hflight.eq_fromBlx hq (hsame.2.symm.trans (hflight.batchId ho))
    exact ⟨hb.siblings hget hp, hb.siblings hp hget⟩

theorem inFlight (h : w.AddsFile o files' needed' blobs') (hflight : w.InFlight cut objects n)
    (hget : objects[n]? = some o) :
    InFlight { w with files := files', needed := needed', blobs := blobs' } cut objects (n + 1) := by
  refine ⟨hflight.batch, (List.getElem?_eq_some_iff.mp hget).1, ?_, ?_, ?_, hflight.seq,
    hflight.first⟩
  · intro k p hk hp
    rcases Nat.lt_succ_iff_lt_or_eq.mp hk with hk | rfl
    · exact h.keeps (hflight.fresh hget) (hflight.present k p hk hp)
    · cases hget.symm.trans hp
      exact h.self
  · intro i r hi heq
    rcases h.of_files hi with ⟨rfl, -⟩ | hi
    · exact ⟨n, o, Nat.lt_succ_self n, hget, rfl⟩
    · obtain ⟨k, p, hk, hp, hpi⟩ := hflight.only i r hi heq
      exact ⟨k, p, Nat.lt_succ_of_lt hk, hp, hpi⟩
  · intro i r hi hne
    rcases h.of_files hi with ⟨-, rfl⟩ | hi
    · exact absurd (hflight.batchId (List.mem_of_getElem? hget)) hne
    · exact hflight.older i r hi hne

end AddsFile

/-- **One more file of the batch is in the table.** -/
theorem Inv.addFile (h : w.Inv records (some (cut, .writing post written remaining)) pending)
    (hflight : w.InFlight cut objects n) (hget : objects[n]? = some o)
    (hadds : w.AddsFile o files' needed' blobs') {written' remaining' : List BlxBlob}
    (hphase : PhaseOk { w with files := files', needed := needed', blobs := blobs' } cut objects
      (n + 1) (.writing post written' remaining')) :
    Inv { w with files := files', needed := needed', blobs := blobs' } records
      (some (cut, .writing post written' remaining')) pending := by
  have ho := List.mem_of_getElem? hget
  have hfresh := hflight.fresh hget
  have hseq := hflight.batchId ho
  refine ⟨hadds.table h.table hflight hget, ?_, ?_, ?_, h.journals, ?_, (fun hne => nomatch hne), ?_, ?_⟩
  · intro i r hi
    rcases hadds.of_files hi with ⟨rfl, -⟩ | hi
    · rw [hflight.identity ho]
      rfl
    · exact h.fence i r hi
  · intro i r hi
    rcases hadds.of_files hi with ⟨-, rfl⟩ | hi
    · obtain ⟨pre, post, hb⟩ := hflight.batch
      obtain ⟨-, -, -, hmin, hmax, hbatch, -⟩ := hb.fields _ ho
      exact ⟨hmin.trans hbatch.symm, hmax.trans hbatch.symm⟩
    · exact h.seqs i r hi
  · intro i hi
    rcases hadds.blobs i hi with rfl | hi
    · exact ⟨_, hadds.self⟩
    · obtain ⟨r, hr⟩ := h.blobs i hi
      exact ⟨r, hadds.keeps hfresh hr⟩
  · rintro _ _ ⟨⟩
    exact ⟨objects, n + 1, hadds.inFlight hflight hget, hphase⟩
  · intro i r hi hneed hne
    rcases hadds.old hfresh hseq hi hneed with ⟨hi', hneed'⟩ | heq
    · intro k hk
      obtain ⟨j, q, hq, hrest⟩ := h.needed i r hi' hneed' hne k hk
      exact ⟨j, q, hadds.keeps hfresh hq, hrest⟩
    · exact absurd (congrArg some heq.symm) hne
  · intro c hc i hi
    obtain ⟨hbefore, hspare⟩ := h.cleanups c hc i hi
    refine ⟨hbefore, fun r hr => ?_⟩
    rcases hadds.of_files hr with ⟨rfl, -⟩ | hr'
    · exact absurd rfl (hflight.ne_of_before hget hbefore)
    · refine (hspare r hr').mono (fun hneeds => ?_) subset_rfl
      exact hneeds.old (hflight.batchId_ne hr' hbefore) fun i q hq hneed =>
        hadds.old hfresh hseq hq hneed

/-- A record keeps covering what the volume needs while fewer files are needed. -/
theorem PhaseOk.mono {w' : FileView} {phase : CapturePhase} (h : w.PhaseOk cut objects n phase)
    (hid : w'.id = w.id) (hfence : w'.fence = w.fence)
    (hsub : ∀ i r, w'.files i = some r → w.files i = some r)
    (hneeds : ∀ r, w'.NeedsBatch r → w.NeedsBatch r) : w'.PhaseOk cut objects n phase := by
  have hrecord : ∀ record, w.Recorded cut record → w'.Recorded cut record := fun record hr =>
    ⟨hr.seq, hr.fence.trans hfence.symm, hr.migratedFrom, hr.wellFormed, hr.own, hr.valid,
      fun i r hi hneed => hr.covers i r (hsub i r hi) (hneeds r hneed)⟩
  cases phase with
  | draining => exact h
  | writing post written remaining =>
    rw [PhaseOk, hid, hfence]
    exact h
  | recorded record blobs =>
    rw [PhaseOk, hid, hfence]
    exact ⟨h.1, h.2.1, hrecord record h.2.2⟩
  | durable record blobs =>
    rw [PhaseOk, hid, hfence]
    exact ⟨h.1, h.2.1, hrecord record h.2.2⟩

/-- A capture is abandoned before any of its files is written. -/
theorem Inv.abandon (h : w.Inv records (some (cut, .writing post [] remaining)) pending) :
    w.Inv records none pending := by
  obtain ⟨objects, n, hflight, hwritten, -⟩ := h.capture cut _ rfl
  have hn : n = 0 := by
    have hlen := congrArg List.length hwritten
    rw [List.length_nil, List.length_map, List.length_take, Nat.min_eq_left hflight.le] at hlen
    exact hlen.symm
  have hseq : ∀ i r, w.files i = some r → r.batchId ≠ cut.seq := by
    intro i r hi heq
    obtain ⟨k, o, hk, -⟩ := hflight.only i r hi heq
    omega
  refine ⟨h.table, h.fence, h.seqs, h.blobs, h.journals, (fun _ _ hne => nomatch hne), ?_, ?_, ?_⟩
  · intro _ i r hi _
    exact (hflight.older i r hi (hseq i r hi)).trans_le hflight.first
  · intro i r hi hneed _
    refine h.needed i r hi hneed fun heq => ?_
    exact hseq i r hi (Option.some.inj heq).symm
  · intro c hc i hi
    obtain ⟨hbefore, hspare⟩ := h.cleanups c hc i hi
    exact ⟨fun _ => lt_of_lt_of_le hbefore hflight.first, hspare⟩

/-- Files that are not in the table may become needed, and any file may cease to be; and files are
archived. -/
theorem Inv.mono_needed (h : w.Inv records active pending) {backed' : Finset ObjectIdentity}
    (hsub : ∀ i r, w.files i = some r → i ∈ needed' → i ∈ w.needed) (hbacked : w.backed ⊆ backed') :
    Inv { w with needed := needed', backed := backed' } records active pending := by
  have hneeds : ∀ r, NeedsBatch { w with needed := needed', backed := backed' } r →
      w.NeedsBatch r := by
    rintro r ⟨i, q, hq, hi, hsame⟩
    exact ⟨i, q, hq, hsub i q hq hi, hsame⟩
  refine ⟨h.table, h.fence, h.seqs, h.blobs, h.journals, ?_, h.idle, ?_, ?_⟩
  · intro cut phase hactive
    obtain ⟨objects, n, hflight, hphase⟩ := h.capture cut phase hactive
    exact ⟨objects, n, ⟨hflight.batch, hflight.le, hflight.present, hflight.only, hflight.older,
      hflight.seq, hflight.first⟩, hphase.mono rfl rfl (fun _ _ hi => hi) hneeds⟩
  · exact fun i r hi hneed => h.needed i r hi (hsub i r hi hneed)
  · intro c hc i hi
    obtain ⟨hbefore, hspare⟩ := h.cleanups c hc i hi
    exact ⟨hbefore, fun r hr => (hspare r hr).mono (hneeds r) hbacked⟩

/-- When all files of a capture are in the table, every needed batch is complete, also if the
capture's own files become needed. -/
theorem Inv.complete (h : w.Inv records (some (cut, .writing post written [])) pending)
    (hsub : ∀ i r, w.files i = some r → i ∈ needed' → i ∈ w.needed ∨ r.batchId = cut.seq)
    (hi : w.files i = some r) (hneed : i ∈ needed') : Complete w.files r := by
  obtain ⟨objects, n, hflight, -, hremaining⟩ := h.capture cut _ rfl
  obtain rfl := hflight.last hremaining
  by_cases hseq : r.batchId = cut.seq
  · exact hflight.complete hi hseq
  · rcases hsub i r hi hneed with hold | heq
    · exact h.needed i r hi hold fun hu => hseq (Option.some.inj hu).symm
    · exact absurd heq hseq

/-- **The record is made**: from here on every needed batch is complete. -/
theorem Inv.record (h : w.Inv records (some (cut, .writing post written [])) pending)
    (hsub : ∀ i r, w.files i = some r → i ∈ needed' → i ∈ w.needed ∨ r.batchId = cut.seq)
    {record : JournalRecord} (hrecord : Recorded { w with needed := needed' } cut record) :
    Inv { w with needed := needed' } records (some (cut, .recorded record written)) pending := by
  obtain ⟨objects, n, hflight, hwritten, hremaining⟩ := h.capture cut _ rfl
  obtain rfl := hflight.last hremaining
  refine ⟨h.table, h.fence, h.seqs, h.blobs, h.journals, ?_, (fun hne => nomatch hne), ?_, ?_⟩
  · rintro _ _ ⟨⟩
    refine ⟨objects, _, ⟨hflight.batch, hflight.le, hflight.present, hflight.only, hflight.older,
      hflight.seq, hflight.first⟩, rfl, ?_, hrecord⟩
    rw [hwritten, List.take_length]
  · exact fun i r hi hneed _ => h.complete hsub hi hneed
  · intro c hc i hi
    obtain ⟨hbefore, hspare⟩ := h.cleanups c hc i hi
    refine ⟨hbefore, fun r hr => (hspare r hr).mono (fun hneed => ?_) subset_rfl⟩
    refine hneed.old (hflight.batchId_ne hr hbefore) fun j q hq hj => ?_
    rcases hsub j q hq hj with hold | heq
    · exact .inl ⟨hq, hold⟩
    · exact .inr heq

/-- The record's blob is on disk, and its decoder accepts it. -/
theorem Inv.writeRecord {record : JournalRecord} {blobs : List BlxBlob} {bytes : Bytes}
    (h : w.Inv records (some (cut, .recorded record blobs)) pending)
    (hbytes : record.encode w.id = some bytes) :
    w.Inv (records.insert (toLex (record.fence, record.seq)) bytes)
      (some (cut, .durable record blobs)) pending := by
  obtain ⟨objects, n, hflight, hn, hblobs, hrecord⟩ := h.capture cut _ rfl
  refine ⟨h.table, h.fence, h.seqs, h.blobs, ?_, ?_, (fun hne => nomatch hne), h.needed,
    h.cleanups⟩
  · intro name bytes' hget
    rw [Maps.getElem?_insert] at hget
    split at hget
    · rename_i hname
      cases hget
      have hdecode := (JournalRecord.decode_encode_iff hbytes hrecord.wellFormed).mpr hrecord.valid
      refine ⟨record.durable, hdecode, hname.symm, hrecord.fence, ?_, hrecord.migratedFrom, rfl⟩
      show record.seq < w.nextSeq
      rw [hrecord.seq]
      exact hflight.seq
    · exact h.journals name bytes' hget
  · rintro _ _ ⟨⟩
    exact ⟨objects, n, hflight, hn, hblobs, hrecord⟩

/-- **The record becomes the newest one**, and what it does not name may be removed. -/
theorem Inv.commit {record : JournalRecord} {blobs : List BlxBlob}
    (h : w.Inv records (some (cut, .durable record blobs)) pending) {next : ObjectId}
    (hnext : w.nextObjectId ≤ next)
    (hlast : ∀ blob ∈ blobs, next.toNat < 2 ^ 64 - 1 → blob.1 < next) {c : Cleanup}
    (hblobs : ∀ i ∈ c.blx, i ∈ w.blobs)
    (hkeeps : ∀ f ∈ record.files, f.identity ∉ c.blx) :
    Inv { w with nextObjectId := next } records none (pending ++ [c]) := by
  obtain ⟨objects, n, hflight, hn, rfl, hrecord⟩ := h.capture cut _ rfl
  have hfirst : cut.firstObject ≤ next := hflight.first.trans hnext
  have hidle : ∀ i r, w.files i = some r → Before { w with nextObjectId := next } none i := by
    intro i r hi hlt
    by_cases hseq : r.batchId = cut.seq
    · obtain ⟨k, o, -, ho, rfl⟩ := hflight.only i r hi hseq
      exact hlast _ (List.mem_map_of_mem (List.mem_of_getElem? ho)) hlt
    · exact (hflight.older i r hi hseq).trans_le hfirst
  refine ⟨h.table, h.fence, h.seqs, h.blobs, h.journals,
    (fun _ _ hne => nomatch hne), fun _ => hidle, h.needed, ?_⟩
  intro c' hc' i hi
  rcases List.mem_append.mp hc' with hold | hnew
  · obtain ⟨hbefore, hspare⟩ := h.cleanups c' hold i hi
    exact ⟨fun _ => lt_of_lt_of_le hbefore hfirst, hspare⟩
  · cases List.mem_singleton.mp hnew
    obtain ⟨r, hr⟩ := h.blobs i (hblobs i hi)
    refine ⟨hidle i r hr, fun r' hr' => .inl fun hneed => ?_⟩
    have hmem := hrecord.covers i r' hr' hneed
    have hid : r'.identity = i := h.table.identity i r' hr'
    exact hkeeps r' hmem (hid ▸ hi)

/-- Deleting blobs takes records away, and leaves a cleanup's files to be forgotten. -/
theorem Inv.delete (h : w.Inv records active pending)
    {records' : ExtTreeMap (UInt64 ×ₗ JournalSeq) Bytes} {pending' : List Cleanup}
    (hrecords : ∀ (name : UInt64 ×ₗ JournalSeq) bytes, records'[name]? = some bytes →
      records[name]? = some bytes)
    (hpending : ∀ c' ∈ pending', ∃ c ∈ pending, c'.blx = c.blx) :
    w.Inv records' active pending' := by
  refine ⟨h.table, h.fence, h.seqs, h.blobs, ?_, h.capture, h.idle, h.needed, ?_⟩
  · exact fun name bytes hget => h.journals name bytes (hrecords name bytes hget)
  · intro c' hc' i hi
    obtain ⟨c, hc, heq⟩ := hpending c' hc'
    exact h.cleanups c hc i (heq ▸ hi)

/-- More files are to go. -/
theorem Inv.select (h : w.Inv records active pending) {c : Cleanup}
    (hc : ∀ i ∈ c.blx, w.Before active i ∧ ∀ r, w.files i = some r → w.Expendable i r) :
    w.Inv records active (pending ++ [c]) :=
  { h with
    cleanups := List.forall_mem_append.mpr ⟨h.cleanups, List.forall_mem_singleton.mpr hc⟩ }

/-- **The files of a cleanup are forgotten**: no needed batch loses a part. -/
theorem Inv.forget (h : w.Inv records active pending) {c : Cleanup} (hc : c ∈ pending)
    (hfiles : ∀ i r, files' i = some r ↔ w.files i = some r ∧ i ∉ c.blx)
    (hneeded : ∀ i ∈ needed', i ∈ w.needed)
    (hblobs : ∀ i ∈ blobs', i ∈ w.blobs ∧ i ∉ c.blx) :
    Inv { w with files := files', needed := needed', blobs := blobs' } records active pending := by
  have hsub : ∀ i r, files' i = some r → w.files i = some r := fun i r hi => ((hfiles i r).mp hi).1
  have hneeds : ∀ r, NeedsBatch { w with files := files', needed := needed', blobs := blobs' } r →
      w.NeedsBatch r := by
    rintro r ⟨i, q, hq, hi, hsame⟩
    exact ⟨i, q, hsub i q hq, hneeded i hi, hsame⟩
  refine ⟨?_, ?_, ?_, ?_, h.journals, ?_, ?_, ?_, ?_⟩
  · exact h.table.mono fun i r hi => ⟨r, hsub i r hi, rfl⟩
  · exact fun i r hi => h.fence i r (hsub i r hi)
  · exact fun i r hi => h.seqs i r (hsub i r hi)
  · intro i hi
    obtain ⟨hold, hnot⟩ := hblobs i hi
    obtain ⟨r, hr⟩ := h.blobs i hold
    exact ⟨r, (hfiles i r).mpr ⟨hr, hnot⟩⟩
  · intro cut phase hactive
    obtain ⟨objects, n, hflight, hphase⟩ := h.capture cut phase hactive
    -- the files of the capture in progress are newer than every cleanup
    have hpresent : ∀ k o, k < n → objects[k]? = some o →
        files' o.identity = some (ObjectRef.fromBlx o) := by
      intro k o hk ho
      refine (hfiles _ _).mpr ⟨hflight.present k o hk ho, fun hmem => ?_⟩
      have hbefore := (h.cleanups c hc _ hmem).1
      rw [hactive] at hbefore
      exact hflight.ne_of_before ho hbefore rfl
    exact ⟨objects, n, ⟨hflight.batch, hflight.le, hpresent,
      fun i r hi => hflight.only i r (hsub i r hi), fun i r hi => hflight.older i r (hsub i r hi),
      hflight.seq, hflight.first⟩, hphase.mono rfl rfl hsub hneeds⟩
  · exact fun hnone i r hi => h.idle hnone i r (hsub i r hi)
  · intro i r hi hneed hne k hk
    obtain ⟨j, q, hq, hsame, hindex⟩ := h.needed i r (hsub i r hi) (hneeded i hneed) hne k hk
    by_cases hmem : j ∈ c.blx
    · -- the batch has one file, and that is still there
      obtain ⟨hone, -⟩ := ((h.cleanups c hc j hmem).2 q hq).resolve_left
        (not_not_intro ⟨i, r, hsub i r hi, hneeded i hneed, hsame.symm⟩)
      have hcount : q.chunkCount = r.chunkCount :=
        congrArg Prod.fst (h.table.siblings j q i r hq (hsub i r hi) hsame).fields
      obtain ⟨-, -, hlt, -⟩ := h.table.wellFormed i r (hsub i r hi)
      rw [← hcount, hone, UInt32.lt_iff_toNat_lt, UInt32.toNat_one] at hlt
      rw [← hcount, hone, UInt32.toNat_one] at hk
      exact ⟨i, r, hi, ⟨rfl, rfl⟩, by omega⟩
    · exact ⟨j, q, (hfiles j q).mpr ⟨hq, hmem⟩, hsame, hindex⟩
  · intro c' hc' i hi
    obtain ⟨hbefore, hspare⟩ := h.cleanups c' hc' i hi
    exact ⟨hbefore, fun r hr => (hspare r (hsub i r hr)).mono (hneeds r) subset_rfl⟩

end FileView

/-! ## One step -/

/-- The ids of a capture's files increase. -/
theorem FileView.InFlight.exists_getLast {w : FileView} {cut : Cut} {objects : List BlxObject}
    {n : Nat} (h : w.InFlight cut objects n) {id : VolumeId} {fence : UInt64} {blob : BlxBlob}
    (hblob : blob ∈ objects.map fun o => o.blob id fence) :
    ∃ last, (objects.map fun o => o.blob id fence).getLast? = some last ∧ blob.1 ≤ last.1 := by
  obtain ⟨o, ho, rfl⟩ := List.mem_map.mp hblob
  obtain ⟨k, hk⟩ := List.mem_iff_getElem?.mp ho
  have hlt : k < objects.length := (List.getElem?_eq_some_iff.mp hk).1
  have hlt' : objects.length - 1 < objects.length := by omega
  have hlast : objects[objects.length - 1]? = some objects[objects.length - 1] :=
    List.getElem?_eq_getElem hlt'
  refine ⟨_, by rw [List.getLast?_map, List.getLast?_eq_getElem?, hlast, Option.map_some], ?_⟩
  have hid := h.objectId hk
  have hid' := h.objectId hlast
  rw [UInt64.le_iff_toNat_le]
  show o.identity.objectId.toNat ≤ (BlxObject.identity _).objectId.toNat
  omega

namespace VolumeState

variable {v : VolumeState} {id : VolumeId} {cut : Cut} {record : JournalRecord}
  {blobs : List BlxBlob}

theorem fileView_noteChunk {identity : ObjectIdentity} {o : BlxObject} {entries : PageFileEntries}
    {post : UInt64 × BlockChecksums} : (v.noteChunk identity o entries post).fileView id =
      { v.fileView id with
        files := (v.noteChunk identity o entries post).files
        needed := (v.noteChunk identity o entries post).neededBlx
        blobs := (v.blxBlobs ++ [(identity, o.bytes.length)]).map Prod.fst } := rfl

theorem fileView_commitRecord : (v.commitRecord id cut record blobs).fileView id =
    { v.fileView id with
      nextObjectId := (v.commitRecord id cut record blobs).nextObjectId } := rfl

theorem nextObjectId_le_commitRecord :
    v.nextObjectId ≤ (v.commitRecord id cut record blobs).nextObjectId := by
  simp only [commitRecord]
  split
  · exact le_rfl
  · exact le_max_left _ _

/-- The next id is above those of the files, unless the ids have run out. -/
theorem lt_nextObjectId_commitRecord {last : BlxBlob} {object : ObjectId}
    (hlast : blobs.getLast? = some last) (hle : object ≤ last.1)
    (hlt : (v.commitRecord id cut record blobs).nextObjectId.toNat < 2 ^ 64 - 1) :
    object < (v.commitRecord id cut record blobs).nextObjectId := by
  simp only [commitRecord, hlast] at hlt ⊢
  set next := UInt64.ofNat (min (last.1.toNat + 1) (2 ^ 64 - 1)) with hnext
  have htoNat : next.toNat = min (last.1.toNat + 1) (2 ^ 64 - 1) := by
    rw [hnext, UInt64.toNat_ofNat', Nat.mod_eq_of_lt (by omega)]
  have hmax : next.toNat ≤ (max v.nextObjectId next).toNat :=
    UInt64.le_iff_toNat_le.mp (le_max_right _ _)
  rw [UInt64.le_iff_toNat_le] at hle
  rw [UInt64.lt_iff_toNat_lt]
  omega

end VolumeState

/-- The record of a volume whose needed batches are complete. -/
theorem VolumeState.recorded {v : VolumeState} {id : VolumeId} {cut : Cut} {post : UInt64}
    (htable : FileTable id v.files)
    (hcomplete : ∀ i r, v.files i = some r → i ∈ v.neededBlx → Complete v.files r) :
    (v.fileView id).Recorded cut (v.captureRecord cut post) := by
  have hfile : ∀ f ∈ v.recoveryFiles, v.files f.identity = some f := by
    intro f hf
    obtain ⟨⟨i, hi⟩, -⟩ := mem_recoveryFiles.mp hf
    rw [htable.identity i f hi]
    exact hi
  refine ⟨rfl, rfl, rfl, ?_, ?_, validBatches_recoveryFiles htable hcomplete, ?_⟩
  · exact fun f hf => htable.wellFormed _ f (hfile f hf)
  · exact fun f hf => (htable.own _ f (hfile f hf)).1
  · exact fun i r hi hneed => mem_recoveryFiles.mpr ⟨⟨i, hi⟩, hneed⟩

theorem VolumeState.fileView_noteBatch {v : VolumeState} {id : VolumeId} {cut : Cut}
    {blobs : List BlxBlob} : (v.noteBatch id cut blobs).fileView id =
      { v.fileView id with needed := (v.noteBatch id cut blobs).neededBlx } := by
  simp only [noteBatch]
  split <;> rfl

namespace Primary

variable {s t : Primary}

/-- A cut: nothing is written yet, and no file has the capture's number. -/
theorem Inv.reserve (h : s.Inv) {kind : CaptureKind} {checkpoint : Option Checkpoint}
    {prepared : List CompactionRescue}
    (hunused : ∀ i r, s.volume.files i = some r → r.batchId ≠ s.volume.nextSeq)
    (hleft : s.volume.nextObjectId.toNat < 2 ^ 64 - 1)
    (hs : s.reserve kind checkpoint prepared = some t) : t.Inv := by
  cases stepped (a := .reserve kind checkpoint prepared) hs with
  | reserve v' cut cache hidle _ hcut =>
  have hr := VolumeState.reserved hcut
  obtain ⟨nextSeq, nextObjectId, nextGen, rfl⟩ := hr.state
  have hseq : s.volume.nextSeq < nextSeq := hr.nextSeq_lt
  have hbefore : ∀ i, (s.volume.fileView s.id).Before s.capture i →
      i.objectId < cut.firstObject := by
    intro i hi
    rw [hidle] at hi
    rw [hr.firstObject]
    exact hi hleft
  refine ⟨h.table, h.fence, h.seqs, h.blobs, ?_, ?_, (fun hne => nomatch hne), ?_, ?_⟩
  · intro name bytes hget
    obtain ⟨record, hdecode, hname, hfence, hlt, hrest⟩ := h.journals name bytes hget
    exact ⟨record, hdecode, hname, hfence, hlt.trans hseq, hrest⟩
  · rintro _ _ ⟨⟩
    refine ⟨[], 0, ⟨⟨0, 0, .nil⟩, le_rfl, nofun, ?_, ?_, ?_, ?_⟩, rfl⟩
    · intro i r hi heq
      rw [hr.seq] at heq
      exact absurd heq (hunused i r hi)
    · intro i r hi _
      exact hbefore i (hidle ▸ h.idle hidle i r hi)
    · rw [hr.seq]
      exact hseq
    · rw [hr.firstObject]
      exact hr.nextObjectId
  · intro i r hi hneed _
    refine h.needed i r hi hneed ?_
    rw [hidle]
    nofun
  · intro c hc i hi
    obtain ⟨hb, hn⟩ := h.cleanups c hc i hi
    exact ⟨hbefore i hb, hn⟩

/-- The batch is built: the objects are known, and none of them is written. -/
theorem Inv.drain (h : s.Inv) {read : PageId → Bytes} (hs : s.drain read = some t) : t.Inv := by
  cases stepped (a := .drain read) hs with | drain cut post blobs hcapture hbuild =>
  obtain ⟨objects, hbatch, hblobs⟩ := VolumeState.captureBatch_of_buildBatch hbuild
  obtain ⟨objects', n, hflight, rfl⟩ := h.capture cut _ hcapture
  have hn : n = 0 := Nat.le_zero.mp hflight.le
  subst hn
  refine ⟨h.table, h.fence, h.seqs, h.blobs, h.journals, ?_, (fun hne => nomatch hne), ?_, ?_⟩
  · rintro _ _ ⟨⟩
    refine ⟨objects, 0, ⟨hbatch, Nat.zero_le _, nofun, ?_, hflight.older, hflight.seq,
      hflight.first⟩, rfl, hblobs⟩
    intro i r hi heq
    obtain ⟨k, o, hk, -⟩ := hflight.only i r hi heq
    exact absurd hk (Nat.not_lt_zero k)
  · intro i r hi hneed hne
    refine h.needed i r hi hneed ?_
    rw [hcapture]
    exact hne
  · intro c hc i hi
    have hold := h.cleanups c hc i hi
    rw [hcapture] at hold
    exact hold

/-- What writing the next file does: it is the next object of the capture, and it opens. -/
theorem Inv.exists_of_chunk (h : s.Inv) (hs : s.chunk = some t) :
    ∃ cut post written remaining objects n o cache,
      s.capture = some (cut, .writing post written (o.blob s.id s.volume.fence :: remaining)) ∧
      (s.volume.fileView s.id).InFlight cut objects n ∧ objects[n]? = some o ∧
      written = (objects.take n).map (fun o => o.blob s.id s.volume.fence) ∧
      remaining = (objects.drop (n + 1)).map (fun o => o.blob s.id s.volume.fence) ∧
      BlxObject.open o.bytes = some o ∧
      t = { s with
        disk := { s.disk with blx := s.disk.blx.insert o.identity ⟨s.captures, o.bytes⟩ }
        volume := s.volume.noteChunk o.identity o
          (o.footer.pages s.id s.volume.fence o.header.objectId) post
        cache := cache
        capture := some (cut,
          .writing post (written ++ [o.blob s.id s.volume.fence]) remaining) } := by
  cases stepped (a := .chunk) hs with
  | chunk cut post written remaining id bytes entries object cache hcapture hopen =>
  obtain ⟨objects, n, hflight, hwritten, hremaining⟩ := h.capture cut _ hcapture
  obtain ⟨o, hget, hblob, hrest, htake⟩ := exists_of_cons_eq_map_drop hremaining
  have ho := List.mem_of_getElem? hget
  obtain ⟨pre, post', hb⟩ := hflight.batch
  obtain ⟨rfl, rfl, rfl⟩ : id = o.header.objectId ∧ bytes = o.bytes ∧
      entries = o.footer.pages s.id s.volume.fence o.header.objectId := by
    simpa [BlxObject.blob, VolumeState.fileView] using hblob
  cases hopen.symm.trans (hb.opens o ho)
  have hid : ObjectIdentity.volume s.id s.volume.fence object.header.objectId =
      object.identity := (hflight.identity ho).symm
  refine ⟨cut, post, written, remaining, objects, n, object, cache, hcapture, hflight, hget,
    hwritten, hrest, hopen, ?_⟩
  rw [hid]
  rfl

/-- One more file of the batch is in the table. -/
theorem Inv.chunk (h : s.Inv) (hs : s.chunk = some t) : t.Inv := by
  obtain ⟨cut, post, written, remaining, objects, n, o, cache, hcapture, hflight, hget, hwritten,
    hrest, -, rfl⟩ := h.exists_of_chunk hs
  have hid := hflight.identity (List.mem_of_getElem? hget)
  have hadds : (s.volume.fileView s.id).AddsFile o
      (s.volume.noteChunk o.identity o
        (o.footer.pages s.id s.volume.fence o.header.objectId) post).files
      (s.volume.noteChunk o.identity o
        (o.footer.pages s.id s.volume.fence o.header.objectId) post).neededBlx
      ((s.volume.blxBlobs ++ [(o.identity, o.bytes.length)]).map Prod.fst) := by
    refine ⟨fun i => VolumeState.files_noteChunk, fun i hi => ?_, fun i hi => ?_⟩
    · exact VolumeState.mem_neededBlx_noteChunk hid rfl hi
    · rw [List.map_append, List.mem_append, List.map_singleton, List.mem_singleton] at hi
      exact hi.symm
  rw [Primary.Inv, hcapture] at h
  simp only [Primary.Inv, VolumeState.fileView_noteChunk]
  refine h.addFile hflight hget hadds ⟨?_, hrest⟩
  rw [hwritten, List.take_add_one, hget, List.map_append]
  rfl

/-- An archived page is located in an object the table does not have. -/
theorem Inv.resolve (h : s.Inv) {page : PageId} {generation : Gen} {location : PageFileLoc}
    {valueChecksum : UInt64} (hs : s.resolve page generation location valueChecksum = some t) :
    t.Inv := by
  cases stepped (a := .resolve page generation location valueChecksum) hs with
  | resolve _ _ hforeign =>
  refine h.mono_needed (fun i r hi hneed => ?_) subset_rfl
  rcases VolumeState.mem_neededBlx.mp hneed with ⟨p, gen, loc, hloc, hbase, hid⟩ | htomb | hvmm
  · rw [Maps.getElem?_insert] at hloc
    split at hloc
    · cases hloc
      rcases hforeign with hne | hne
      · exact absurd hbase hne
      · have hfence := h.fence i r hi
        rw [← hid] at hfence
        exact absurd hfence hne
    · exact VolumeState.mem_neededBlx.mpr (.inl ⟨p, gen, loc, hloc, hbase, hid⟩)
  · exact VolumeState.mem_neededBlx.mpr (.inr (.inl htomb))
  · exact VolumeState.mem_neededBlx.mpr (.inr (.inr hvmm))

/-- No file of the capture in progress is on disk yet. -/
def Unwritten (s : Primary) : Prop :=
  ∀ cut post written remaining, s.capture = some (cut, .writing post written remaining) →
    written = []

theorem Inv.refuse (h : s.Inv) (hnone : s.Unwritten) (hs : s.refuse = some t) : t.Inv := by
  cases stepped (a := .refuse) hs with | refuse cut post written remaining cache hcapture =>
  rw [Primary.Inv, hcapture, hnone _ _ _ _ hcapture] at h
  exact h.abandon

theorem Inv.record (h : s.Inv) (hs : s.record = some t) : t.Inv := by
  cases stepped (a := .record) hs with | record cut post blobs hcapture =>
  rw [Primary.Inv, hcapture] at h
  obtain ⟨objects, n, hflight, hwritten, hremaining⟩ := h.capture cut _ rfl
  have hfiles : (s.volume.noteBatch s.id cut blobs).files = s.volume.files := by
    rw [VolumeState.noteBatch]
    split <;> rfl
  -- the batch becomes needed as a whole if it carries a snapshot
  have hsub : ∀ i r, s.volume.files i = some r →
      i ∈ (s.volume.noteBatch s.id cut blobs).neededBlx →
      i ∈ s.volume.neededBlx ∨ r.batchId = cut.seq := by
    intro i r hi hneed
    rcases VolumeState.mem_neededBlx_noteBatch hneed with hold | hnew
    · exact .inl hold
    · rw [VolumeState.blobIdentities, List.mem_toFinset, List.mem_map] at hnew
      obtain ⟨blob, hblob, rfl⟩ := hnew
      rw [hwritten, List.mem_map] at hblob
      obtain ⟨o, ho, rfl⟩ := hblob
      have hmem := List.mem_of_mem_take ho
      obtain ⟨k, hk⟩ := List.mem_iff_getElem?.mp hmem
      right
      by_contra hne
      exact hflight.ne_of_before hk (hflight.older _ r hi hne) (hflight.identity hmem)
  have hrecord : ((s.volume.noteBatch s.id cut blobs).fileView s.id).Recorded cut
      ((s.volume.noteBatch s.id cut blobs).captureRecord cut post.1) := by
    refine VolumeState.recorded (hfiles ▸ h.table) fun i r hi hneed => ?_
    rw [hfiles] at hi ⊢
    exact h.complete hsub hi hneed
  rw [VolumeState.fileView_noteBatch] at hrecord
  show FileView.Inv ((s.volume.noteBatch s.id cut blobs).fileView s.id) _ _ _
  rw [VolumeState.fileView_noteBatch]
  exact h.record hsub hrecord

theorem Inv.writeRecord (h : s.Inv) (hs : s.writeRecord = some t) : t.Inv := by
  cases stepped (a := .writeRecord) hs with
  | writeRecord cut record blobs bytes hcapture hbytes =>
  rw [Primary.Inv, hcapture] at h
  exact FileView.Inv.writeRecord h hbytes

theorem Inv.commit (h : s.Inv) (hs : s.commit = some t) : t.Inv := by
  cases stepped (a := .commit) hs with | commit cut record blobs pin hcapture =>
  rw [Primary.Inv, hcapture] at h
  obtain ⟨objects, n, hflight, hn, hblobs, hrecord⟩ := h.capture cut _ rfl
  simp only [Primary.Inv, VolumeState.fileView_commitRecord]
  refine FileView.Inv.commit h VolumeState.nextObjectId_le_commitRecord ?_ ?_ ?_
  · intro blob hblob hlt
    obtain ⟨last, hlast, hle⟩ := hflight.exists_getLast (hblobs ▸ hblob)
    exact VolumeState.lt_nextObjectId_commitRecord (hblobs ▸ hlast) hle hlt
  · intro i hi
    exact (List.mem_filter.mp hi).1
  · intro f hf hmem
    have hkeep := (List.mem_filter.mp hmem).2
    rw [decide_eq_true_iff, VolumeState.keepBlx, Finset.mem_union, Finset.mem_union,
      Finset.mem_union] at hkeep
    refine hkeep (.inl (.inl (.inl ?_)))
    exact VolumeState.mem_retentionClosure_of_best rfl hf (hrecord.own f hf)

theorem Inv.delete (h : s.Inv) {n : Nat} (hs : s.delete n = some t) : t.Inv := by
  cases stepped (a := .delete n) hs with | delete name names records blx pin hc =>
  refine FileView.Inv.delete h ?_ ?_
  · intro name' bytes hget
    cases name with
    | journal fence seq =>
      rw [Disk.delete, Maps.getElem?_erase] at hget
      split at hget
      · cases hget
      · exact hget
    | blx identity => exact hget
  · intro c' hc'
    rcases List.mem_or_eq_of_mem_set hc' with hold | rfl
    · exact ⟨c', hold, rfl⟩
    · exact ⟨_, List.mem_of_getElem? hc, rfl⟩

theorem Inv.forget (h : s.Inv) {n : Nat} (hs : s.forget n = some t) : t.Inv := by
  cases stepped (a := .forget n) hs with | forget c hc =>
  have hforget : FileView.Inv ((s.volume.forget c).fileView s.id)
      s.disk.journals s.capture s.cleanups := by
    refine FileView.Inv.forget h (List.mem_of_getElem? hc) (fun i r => VolumeState.files_forget)
      (fun i => VolumeState.mem_neededBlx_forget) fun i hi => ?_
    obtain ⟨blob, hblob, rfl⟩ := List.mem_map.mp hi
    obtain ⟨hmem, hnot⟩ := List.mem_filter.mp hblob
    exact ⟨List.mem_map_of_mem hmem, of_decide_eq_true hnot⟩
  exact hforget.delete (fun _ _ hget => hget)
    fun c' hc' => ⟨c', List.mem_of_mem_eraseIdx hc', rfl⟩

/-- The file may be reclaimed: if a record would still name it, it is all of its batch; and it is not
of the capture in progress, of which the archive has nothing yet. -/
def Reclaimable (s : Primary) (identity : ObjectIdentity) : Prop :=
  (∀ r ∈ s.volume.recoveryFiles, r.identity = identity → r.chunkCount = 1) ∧
  ∀ active ∈ s.capture, identity.objectId < active.1.firstObject

theorem Inv.reclaim (h : s.Inv) {identity : ObjectIdentity} (hok : s.Reclaimable identity)
    (hs : s.reclaim identity = some t) : t.Inv := by
  cases stepped (a := .reclaim identity) hs with | reclaim hblob hbacked =>
  refine h.select (List.forall_mem_singleton.mpr ⟨?_, fun r hr => or_iff_not_imp_left.mpr fun hneeds => ?_⟩)
  · obtain ⟨r, hr⟩ := h.blobs identity hblob
    cases hcapture : s.capture with
    | none => exact h.idle hcapture identity r hr
    | some active => exact hok.2 active hcapture
  · exact ⟨hok.1 r (VolumeState.mem_recoveryFiles.mpr ⟨⟨identity, hr⟩, not_not.mp hneeds⟩)
      (h.table.identity identity r hr), hbacked⟩

end Primary

end Blockd
