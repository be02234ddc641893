import Blockd.Engine.CaptureInvariant

/-!
# Records that captures write are accepted

Over any history of captures of one volume, does every record pass its own decoder?  Encoding
never validates the file list, decoding does, so this is a property of the files `recoveryFiles`
selects: they have to form complete batches.

It holds when a capture is abandoned, if at all, before its first file is written, and what is
reclaimed of a batch that is needed is all of it (`captures_decodable`).  It fails otherwise: the
files an abandoned capture has written stay in the table and in the page locations, the next record
names them, and their batch is never completed (`not_captures_decodable`); and of a batch that has
lost a file to `reclaim_backed_blx_files`, it names the others.
-/

set_option autoImplicit false

open Codec
open Std (ExtTreeMap ExtTreeSet)

namespace Blockd

section

variable [Platform]

/-- What happens to a volume: the steps of its captures, and what its publications do to it. -/
inductive HistoryStep
  | capture (step : CaptureStep)
  | publish (peer : Bool)
  | published
  | giveUp

namespace Primary

/-- One step of a volume's history.  A publication takes the record the passive has, or the newest
one of a volume without a passive, and keeps its files until it ends. -/
def historyStep (s : Primary) : HistoryStep → Option Primary
  | .capture step => s.captureStep step
  | .publish peer =>
    (if peer then s.volume.peerCommittedRecord else s.volume.bestRecord).map fun record =>
      { s with volume := { s.volume with
        publishingBlxFiles := ((record.files.map ObjectRef.identity).filter fun identity =>
          identity.namespaceKind = .volume ∧ identity.namespaceId = s.id).toFinset } }
  | .published => some { s with volume := { s.volume with
      backedBlxFiles := s.volume.backedBlxFiles ∪ s.volume.publishingBlxFiles
      publishingBlxFiles := ∅ } }
  | .giveUp => some { s with volume := { s.volume with publishingBlxFiles := ∅ } }

/-- A volume that has just been attached to its host: it has no file of its own on disk yet, and no
record or the first one of `finish_creation`. -/
structure Attached (s : Primary) : Prop where
  capture : s.capture = none
  cleanups : s.cleanups = []
  files : s.volume.blxRefs = ∅
  blobs : s.volume.blxBlobs = []
  disk : s.disk.blx = ∅
  journals : s.disk.journals = ∅ ∨ (0 < s.volume.nextSeq ∧ ∃ bytes,
    (initialRecord s.volume.config s.volume.fence).encode s.id = some bytes ∧
    s.disk.journals =
      (∅ : ExtTreeMap (UInt64 ×ₗ JournalSeq) Bytes).insert (toLex (s.volume.fence, 0)) bytes)

/-- Every record on disk is accepted by its decoder, and so are the files of a record that is being
written. -/
structure Decodable (s : Primary) : Prop where
  journals : ∀ (name : UInt64 ×ₗ JournalSeq) bytes, s.disk.journals[name]? = some bytes →
    (JournalRecord.decode s.id bytes).isSome = true
  files : ∀ cut record blobs, s.capture = some (cut, .recorded record blobs) →
    validateJournalObjectRefs record.files = true

/-- A capture starts while object ids are left, and is abandoned only before its first file; and no
needed batch is reclaimed in parts. -/
def SafeCapture (s : Primary) : CaptureStep → Prop
  | .reserve .. => s.volume.nextObjectId.toNat < 2 ^ 64 - 1
  | .refuse => s.Unwritten
  | .reclaim identity => s.Reclaimable identity
  | _ => True

def SafeStep (s : Primary) : HistoryStep → Prop
  | .capture step => s.SafeCapture step
  | _ => True

/-- The numbers of all files have been given out. -/
def Numbered (s : Primary) : Prop :=
  ∀ i r, s.volume.files i = some r → r.batchId < s.volume.nextSeq

variable {s t : Primary}

theorem Inv.decodable (h : s.Inv) : s.Decodable := by
  constructor
  · intro name bytes hget
    obtain ⟨record, hdecode, -⟩ := h.journals name bytes hget
    exact Option.isSome_iff_exists.mpr ⟨record, hdecode⟩
  · intro cut record blobs hcapture
    obtain ⟨objects, n, -, -, -, hrecord⟩ := h.capture cut _ hcapture
    rw [validateJournalObjectRefs, (validateObjects_none_iff hrecord.wellFormed).mpr hrecord.valid]

/-- The first record of a volume is accepted. -/
theorem decode_initialRecord {id : VolumeId} {config : VolumeConfig} {fence : UInt64} {bytes : Bytes}
    (h : (initialRecord config fence).encode id = some bytes) :
    JournalRecord.decode id bytes = some (initialRecord config fence) := by
  have hfiles : ∀ f ∈ (initialRecord config fence).files, f.WellFormed := by
    intro f hf
    exact absurd hf List.not_mem_nil
  exact (JournalRecord.decode_encode_iff h hfiles).mpr ((validateObjects_none_iff hfiles).mp rfl)

/-- A volume without files of its own, whose records on disk are all accepted. -/
theorem inv_of_unwritten (hcapture : s.capture = none) (hcleanups : s.cleanups = [])
    (hrefs : s.volume.blxRefs = ∅) (hblobs : s.volume.blxBlobs = [])
    (hjournals : ∀ (name : UInt64 ×ₗ JournalSeq) bytes, s.disk.journals[name]? = some bytes →
      (s.volume.fileView s.id).JournalOk name bytes) : s.Inv := by
  have hfiles : ∀ i r, s.volume.files i ≠ some r := by
    intro i r hi
    rw [VolumeState.files, hrefs, ExtTreeMap.getElem?_empty] at hi
    cases hi
  have hview : (s.volume.fileView s.id).files = fun _ => none := by
    funext i
    exact Option.eq_none_iff_forall_ne_some.mpr (hfiles i)
  refine ⟨hview ▸ .empty, fun i r hi => absurd hi (hfiles i r),
    fun i r hi => absurd hi (hfiles i r), ?_, hjournals, ?_, fun _ i r hi => absurd hi (hfiles i r),
    fun i r hi => absurd hi (hfiles i r), ?_⟩
  · intro i hi
    rw [VolumeState.fileView, hblobs] at hi
    cases hi
  · intro cut phase hactive
    rw [hcapture] at hactive
    cases hactive
  · intro c hc
    rw [hcleanups] at hc
    cases hc

theorem Attached.inv (h : s.Attached) : s.Inv := by
  refine inv_of_unwritten h.capture h.cleanups h.files h.blobs fun name bytes hget => ?_
  rcases h.journals with hnone | ⟨hseq, initial, hencode, hjournals⟩
  · rw [hnone, ExtTreeMap.getElem?_empty] at hget
    cases hget
  · rw [hjournals, Maps.getElem?_insert] at hget
    split at hget
    · rename_i hname
      cases hget
      exact ⟨_, decode_initialRecord hencode, hname.symm, rfl, hseq, rfl, rfl⟩
    · rw [ExtTreeMap.getElem?_empty] at hget
      cases hget

/-! ## Along a run -/

theorem Attached.numbered (h : s.Attached) : s.Numbered := by
  intro i r hi
  rw [VolumeState.files, h.files, ExtTreeMap.getElem?_empty] at hi
  cases hi

/-- Numbers are given out by cuts only, and a new file has the number of its capture. -/
theorem Inv.numbered_captureStep (h : s.Inv) (hnum : s.Numbered) {a : CaptureStep}
    (hs : s.captureStep a = some t) : t.Numbered := by
  have hstep := stepped hs
  cases a with
  | reserve kind checkpoint prepared =>
    cases hstep with | reserve v' cut cache hidle hmemory hcut =>
    have hr := VolumeState.reserved hcut
    obtain ⟨nextSeq, nextObjectId, nextGen, rfl⟩ := hr.state
    exact fun i r hi => (hnum i r hi).trans hr.nextSeq_lt
  | chunk =>
    obtain ⟨cut, post, written, remaining, objects, n, o, cache, -, hflight, hget, -, -, -, rfl⟩ :=
      h.exists_of_chunk hs
    intro i r hi
    rw [VolumeState.files_noteChunk] at hi
    split at hi
    · cases hi
      rw [hflight.batchId (List.mem_of_getElem? hget)]
      exact hflight.seq
    · exact hnum i r hi
  | record =>
    cases hstep
    simp only [Numbered, VolumeState.noteBatch]
    split <;> exact hnum
  | forget n =>
    cases hstep
    exact fun i r hi => hnum i r (VolumeState.files_forget.mp hi).1
  | write | resolve | sync | drain | refuse | writeRecord | commit | delete | reclaim =>
    cases hstep <;> exact hnum

/-- **One step.** -/
theorem Inv.captureStep (h : s.Inv) (hnum : s.Numbered) {a : CaptureStep} (hok : s.SafeCapture a)
    (hs : s.captureStep a = some t) : t.Inv := by
  cases a with
  | write | sync => cases stepped hs <;> exact h
  | resolve page generation location checksum => exact h.resolve hs
  | reserve kind checkpoint prepared =>
    exact h.reserve (fun i r hi => ne_of_lt (hnum i r hi)) hok hs
  | drain read => exact h.drain hs
  | chunk => exact h.chunk hs
  | refuse => exact h.refuse hok hs
  | record => exact h.record hs
  | writeRecord => exact h.writeRecord hs
  | commit => exact h.commit hs
  | delete n => exact h.delete hs
  | forget n => exact h.forget hs
  | reclaim identity => exact h.reclaim hok hs

/-- A publication moves no file, and more of them are archived when it ends. -/
theorem Inv.historyStep (h : s.Inv) (hnum : s.Numbered) {a : HistoryStep} (hok : s.SafeStep a)
    (hs : s.historyStep a = some t) : t.Inv ∧ t.Numbered := by
  cases a with
  | capture step => exact ⟨h.captureStep hnum hok hs, h.numbered_captureStep hnum hs⟩
  | publish peer =>
    obtain ⟨record, -, rfl⟩ := Option.map_eq_some_iff.mp hs
    exact ⟨h, hnum⟩
  | published =>
    cases hs
    exact ⟨h.mono_needed (fun _ _ _ hi => hi) Finset.subset_union_left, hnum⟩
  | giveUp =>
    cases hs
    exact ⟨h, hnum⟩

/-- Every history of safe steps keeps the invariant. -/
theorem Attached.inv_of_run (h : s.Attached) {steps : List HistoryStep}
    (hok : Run.Along Primary.historyStep SafeStep s steps)
    (hrun : Run.run Primary.historyStep s steps = some t) : t.Inv ∧ t.Numbered := by
  have hstep : ∀ (s : Primary) a (t : Primary), s.Inv ∧ s.Numbered → s.SafeStep a →
      s.historyStep a = some t → t.Inv ∧ t.Numbered := fun s a t hi hsafe hs =>
    hi.1.historyStep hi.2 hsafe hs
  exact Run.run_invariant hstep ⟨h.inv, h.numbered⟩ hok hrun

/-- **Records are accepted.**  Over every history of captures of a volume, interleaved with
writes, syncs, lookups in the archive, publications, deletions and reclaims in any way, in which
captures start while object ids are left and are abandoned only before their first file, and no
needed batch is reclaimed in parts, every record on disk is accepted by its decoder, and every
record about to be written names complete batches. -/
theorem captures_decodable {s t : Primary} {steps : List HistoryStep} (h : s.Attached)
    (hok : Run.Along Primary.historyStep SafeStep s steps)
    (hrun : Run.run Primary.historyStep s steps = some t) : t.Decodable :=
  (h.inv_of_run hok hrun).1.decodable

/-- **Cleanup spares what is needed.**  Over the same histories, a file that is about to be deleted
belongs to no batch the volume needs a file of, or it is all of its batch and in the archive; and
every record on disk reads back under its own name, with a number that was given out. -/
theorem captures_keep_needed {s t : Primary} {steps : List HistoryStep} (h : s.Attached)
    (hok : Run.Along Primary.historyStep SafeStep s steps)
    (hrun : Run.run Primary.historyStep s steps = some t) :
    (∀ c ∈ t.cleanups, ∀ i ∈ c.blx, ∀ r, t.volume.files i = some r →
      ¬ (t.volume.fileView t.id).NeedsBatch r ∨
        r.chunkCount = 1 ∧ i ∈ t.volume.backedBlxFiles) ∧
    ∀ name bytes, t.disk.journals[name]? = some bytes →
      (t.volume.fileView t.id).JournalOk name bytes :=
  have hinv := (h.inv_of_run hok hrun).1
  ⟨fun c hc i hi => (hinv.cleanups c hc i hi).2, hinv.journals⟩

/-- A volume is attached to its host by its creation. -/
theorem attached_created {id : VolumeId} {config : VolumeConfig} {fence : UInt64}
    (h : created id config fence = some s) : s.Attached := by
  simp only [created, bind_eq_some, pure_eq_some] at h
  obtain ⟨bytes, hbytes, rfl⟩ := h
  have hseq : (0 : JournalSeq) < 1 := by decide
  exact ⟨rfl, rfl, rfl, rfl, rfl, .inr ⟨hseq, bytes, hbytes, rfl⟩⟩

end Primary

end

/-! ## Captures that are abandoned -/

instance Primary.decidableSafeCapture [Platform] (s : Primary) : ∀ a, Decidable (s.SafeCapture a)
  | .reserve .. => inferInstanceAs (Decidable (s.volume.nextObjectId.toNat < 2 ^ 64 - 1))
  | .reclaim identity =>
    letI : Decidable (∀ r ∈ s.volume.recoveryFiles, r.identity = identity → r.chunkCount = 1) :=
      List.decidableBAll _ _
    letI : Decidable (∀ active ∈ s.capture, identity.objectId < active.1.firstObject) :=
      Option.decidableForallMem _
    inferInstanceAs (Decidable (_ ∧ _))
  | .refuse => decidable_of_iff ((match s.capture with
      | some (_, .writing _ written _) => written.isEmpty
      | _ => true) = true) <| by
    rw [SafeCapture, Unwritten]
    split
    · rename_i written remaining hcapture
      refine ⟨fun hempty _ _ _ _ heq => ?_, fun h => List.isEmpty_iff.mpr (h _ _ _ _ hcapture)⟩
      cases hcapture.symm.trans heq
      exact List.isEmpty_iff.mp hempty
    · rename_i hcapture
      exact iff_of_true rfl fun _ _ _ _ h => absurd h (hcapture _ _ _ _)
  | .write _ | .resolve .. | .sync | .drain _ | .chunk | .record | .writeRecord | .commit
  | .delete _ | .forget _ => .isTrue trivial

instance Primary.decidableSafeStep [Platform] (s : Primary) : ∀ a, Decidable (s.SafeStep a)
  | .capture step => s.decidableSafeCapture step
  | .publish _ | .published | .giveUp => .isTrue trivial

namespace Abandoned

def captures (steps : List CaptureStep) : List HistoryStep := steps.map .capture

/-- The record that is made lists a file whose batch has lost its second one. -/
def isSpoiled [Platform] (s : Primary) : Bool :=
  match s.capture with
  | some (_, .recorded record _) => (record.encode s.id).isSome ∧
      (∀ f ∈ record.files, f.WellFormed) ∧ ∃ o ∈ record.files, 1 < o.chunkCount.toNat ∧
        ∀ p ∈ record.files, p.batchId.toNat = o.batchId.toNat → p.chunkIndex.toNat ≠ 1
  | _ => false

/-- Such a volume is about to write a record that is not accepted. -/
theorem not_decodable [Platform] {s : Primary} (h : isSpoiled s = true) :
    ∃ t, s.captureStep .writeRecord = some t ∧ ¬ t.Decodable := by
  rw [isSpoiled] at h
  split at h
  · rename_i cut record blobs hcapture
    obtain ⟨hsome, hfiles, o, ho, hcount, hmissing⟩ := of_decide_eq_true h
    obtain ⟨bytes, hbytes⟩ := Option.isSome_iff_exists.mp hsome
    refine ⟨_, Primary.writeRecord_of_encode hcapture hbytes, fun hdecodable => ?_⟩
    have hdecode := hdecodable.journals _ bytes ExtTreeMap.getElem?_insert_self
    rw [JournalRecord.decode_encode hbytes hfiles] at hdecode
    split at hdecode
    · rename_i hvalid
      obtain ⟨p, hp, hbatch, hindex⟩ :=
        ((validateObjects_none_iff hfiles).mp hvalid).complete o ho 1 hcount
      exact hmissing p hp (congrArg (fun key => (ofLex key).2) hbatch) hindex
    · cases hdecode
  · cases h

attribute [local instance] storedPlatform

/-- A memory volume that was recovered without its memory.  The blocks it had in the archive, one in
each file partition, are to be deleted. -/
def discarding : Primary where
  id := 1
  disk := ⟨∅, ∅⟩
  volume := { VolumeState.fresh ⟨.memory, 2048⟩ 1 with
    nextSeq := 1
    archivedMemoryUsable := false
    pendingTombstones :=
      ((∅ : ExtTreeSet BlockKey).insert ⟨.memory, 0⟩).insert ⟨.memory, 1024⟩ }
  cache := ∅
  captures := 0
  capture := none
  cleanups := []

/-- The space for the second file of a capture is refused; the next capture writes both of its files
and makes its record. -/
def history : List HistoryStep :=
  captures [.reserve .writeback none [], .drain fun _ => [], .chunk, .refuse,
    .reserve .writeback none [], .drain fun _ => [], .chunk, .chunk, .record]

/-- A memory volume that was restored with its memory and one block of vmstate. -/
def restored : Primary := { discarding with
  volume := { VolumeState.fresh ⟨.memory, 2048⟩ 1 with
    nextSeq := 1
    blockChecksums := (∅ : BlockChecksums).insert ⟨.vmm, 0⟩ (0, 0) } }

/-- A checkpoint without vmstate is abandoned before its file, which says that the block is gone, and
made again.  The file is published, and reclaimed while the next checkpoint is under way. -/
def checkpoints : List HistoryStep :=
  captures [.reserve .checkpoint (some ⟨0, []⟩) [], .drain fun _ => [], .refuse,
    .reserve .checkpoint (some ⟨0, []⟩) [], .drain fun _ => [], .chunk, .record, .writeRecord,
    .commit] ++ [.publish false, .published] ++
  captures [.reserve .checkpoint (some ⟨1, []⟩) [], .reclaim (ObjectIdentity.volume 1 1 0),
    .drain fun _ => [], .delete 1, .forget 1, .record, .writeRecord]

end Abandoned

open Abandoned in
set_option maxRecDepth 20000 in
theorem captures_decodable_reclaimed : letI := storedPlatform
    ∃ t, Run.run Primary.historyStep restored checkpoints = some t ∧ t.disk.journals.size = 2 ∧
      t.Decodable := by
  have hevaluated : letI := storedPlatform
      Run.Along Primary.historyStep Primary.SafeStep restored checkpoints ∧
      ∃ t ∈ Run.run Primary.historyStep restored checkpoints, t.disk.journals.size = 2 := by
    decide +kernel
  let _ := storedPlatform
  obtain ⟨hsafe, t, hrun, hsize⟩ := hevaluated
  exact ⟨t, hrun, hsize, Primary.captures_decodable ⟨rfl, rfl, rfl, rfl, rfl, .inl rfl⟩ hsafe hrun⟩

open Abandoned in
set_option maxRecDepth 20000 in
/-- The one file of a checkpoint is about to go, though the volume needs it. -/
theorem captures_keep_needed_reclaimed : letI := storedPlatform
    ∃ t, Run.run Primary.historyStep restored (checkpoints.take 13) = some t ∧
      (∃ c ∈ t.cleanups, ∃ i ∈ c.blx, i ∈ t.volume.neededBlx ∧ ∃ r, t.volume.files i = some r ∧
        (¬ (t.volume.fileView t.id).NeedsBatch r ∨
          r.chunkCount = 1 ∧ i ∈ t.volume.backedBlxFiles)) ∧
      ∀ name bytes, t.disk.journals[name]? = some bytes →
        (t.volume.fileView t.id).JournalOk name bytes := by
  have hevaluated : letI := storedPlatform
      Run.Along Primary.historyStep Primary.SafeStep restored (checkpoints.take 13) ∧
      ∃ t ∈ Run.run Primary.historyStep restored (checkpoints.take 13),
        ∃ c ∈ t.cleanups, ∃ i ∈ c.blx, i ∈ t.volume.neededBlx ∧
          (t.volume.files i).isSome = true := by
    decide +kernel
  let _ := storedPlatform
  obtain ⟨hsafe, t, hrun, c, hc, i, hi, hneeded, hsome⟩ := hevaluated
  obtain ⟨r, hr⟩ := Option.isSome_iff_exists.mp hsome
  have hkept := Primary.captures_keep_needed ⟨rfl, rfl, rfl, rfl, rfl, .inl rfl⟩ hsafe hrun
  exact ⟨t, hrun, ⟨c, hc, i, hi, hneeded, r, hr, hkept.1 c hc i hi r hr⟩, hkept.2⟩

open Abandoned in
set_option maxRecDepth 20000 in
/-- **Abandoned captures spoil later records.**  A capture that is abandoned after its first file
leaves a batch in the table that is never completed, and a later record that names it is refused by
its decoder. -/
theorem not_captures_decodable :
    ¬ ∀ [Platform] (s t : Primary) (steps : List HistoryStep), s.Attached →
      Run.run Primary.historyStep s steps = some t → t.Decodable := by
  intro h
  have hevaluated : letI := storedPlatform
      (Run.run Primary.historyStep discarding history).any isSpoiled = true := by
    decide +kernel
  let _ := storedPlatform
  obtain ⟨s, hrun, hspoiled⟩ := (Option.any_eq_true _ _).mp hevaluated
  obtain ⟨t, hwrite, hnot⟩ := not_decodable hspoiled
  have hstep : s.historyStep (.capture .writeRecord) = some t := hwrite
  exact hnot (h discarding t _ ⟨rfl, rfl, rfl, rfl, rfl, .inl rfl⟩
    (Run.run_append_of hrun (Run.run_cons_of hstep (Run.run_nil _ _))))

end Blockd
