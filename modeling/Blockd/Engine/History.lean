import Blockd.Engine.CaptureDecodes
import Blockd.Engine.CheckpointBatch
import Blockd.Engine.Lineage

/-!
# What a tenure has written

`Lineage.Tenure` links what a host has of its volume to the volume's history: the files in its table
and on its disk are files the volume has written, under ids that are used once, and the VMM entries
in them are those of the checkpoint with their number.  Facts about the history stay true, whatever
becomes of the files: `HeldRecord` says of a record that its files are in the history, and
`HeldBlocks` that its vmstate is in them.

`Tenure.capture` is the step lemma: one step of a capture, under the conditions of `SafeNumbers`.
-/

set_option autoImplicit false

open Codec
open Std (ExtTreeMap)

namespace Blockd

variable [Platform]

/-! ## The history -/

/-- A file of the volume's history. -/
structure WrittenFile (vmstates : UInt64 × JournalSeq → Option Bytes) (i : ObjectIdentity)
    (o : BlxObject) : Prop where
  opens : BlxObject.open o.bytes = some o
  identity : (ObjectRef.fromBlx o).identity = i
  /-- The ids above are for merged files. -/
  small : i.objectId.toNat < 2 ^ 63
  entries : ∃ entries, o.Contains entries ∧ ∀ e ∈ entries,
    VmmEntry o.header.maxSeq (vmstates (i.writerFence, o.header.maxSeq)) e

/-- The file of a reference is in the history. -/
def InHistory (written : ObjectIdentity → Option Bytes) (r : ObjectRef) : Prop :=
  ∃ o, written r.identity = some o.bytes ∧ BlxObject.open o.bytes = some o ∧
    ObjectRef.fromBlx o = r

/-- A record whose files are all in the history. -/
structure HeldRecord (volume : VolumeId) (vmstates : UInt64 × JournalSeq → Option Bytes)
    (written : ObjectIdentity → Option Bytes) (record : JournalRecord) : Prop where
  own : ∀ r ∈ record.files, r.identity.isOwn volume = true
  wellFormed : ∀ r ∈ record.files, r.WellFormed
  files : ∀ r ∈ record.files, r.maxSeq ≤ record.seq ∧ r.identity.writerFence = record.fence ∧
    InHistory written r
  pages : record.config.pages ≠ 0
  small : record.seq.toNat < 2 ^ 31 - 1
  /-- A checkpoint is one that can be resumed. -/
  whole : ∀ bytes ∈ vmstates (record.fence, record.seq), ∃ epoch length,
    recoveryMetadata record = (.whole, epoch, length) ∧ length.toNat = bytes.length

/-- The vmstate of a record is in files of its own. -/
def HeldBlocks (vmstates : UInt64 × JournalSeq → Option Bytes)
    (written : ObjectIdentity → Option Bytes) (record : JournalRecord) : Prop :=
  ∀ bytes ∈ vmstates (record.fence, record.seq), ∃ blocks,
    vmmSnapshotBlocks bytes = some blocks ∧ ∀ key padded, (key, padded) ∈ blocks →
      ∃ r ∈ record.files, r.maxSeq = record.seq ∧ ∃ o entries, written r.identity = some o.bytes ∧
        BlxObject.open o.bytes = some o ∧ o.Contains entries ∧
        .data key record.seq padded ∈ entries

/-- A history that has gone on: no file is replaced, and what is known of the records up to now does
not change. -/
structure GoesOn (fence : UInt64) (nextSeq : JournalSeq)
    (vmstates vmstates' : UInt64 × JournalSeq → Option Bytes)
    (written written' : ObjectIdentity → Option Bytes) : Prop where
  written : ∀ i bytes, written i = some bytes → written' i = some bytes
  vmstates : ∀ name, name.1 ≠ fence ∨ name.2 < nextSeq → vmstates' name = vmstates name

section

variable {fence : UInt64} {nextSeq : JournalSeq}
  {vmstates vmstates' : UInt64 × JournalSeq → Option Bytes}
  {written written' : ObjectIdentity → Option Bytes} {record : JournalRecord} {r : ObjectRef}

omit [Platform] in
theorem GoesOn.refl : GoesOn fence nextSeq vmstates vmstates written written :=
  ⟨fun _ _ h => h, fun _ _ => rfl⟩

theorem InHistory.mono (h : InHistory written r)
    (hw : ∀ i bytes, written i = some bytes → written' i = some bytes) : InHistory written' r := by
  obtain ⟨o, ho, hrest⟩ := h
  exact ⟨o, hw _ _ ho, hrest⟩

theorem WrittenFile.mono {i : ObjectIdentity} {o : BlxObject} (h : WrittenFile vmstates i o)
    (hgo : GoesOn fence nextSeq vmstates vmstates' written written')
    (hseq : i.writerFence = fence → o.header.maxSeq < nextSeq) : WrittenFile vmstates' i o := by
  refine ⟨h.opens, h.identity, h.small, ?_⟩
  have hname : i.writerFence ≠ fence ∨ o.header.maxSeq < nextSeq := by
    by_cases hf : i.writerFence = fence
    · exact .inr (hseq hf)
    · exact .inl hf
  rw [hgo.vmstates _ hname]
  exact h.entries

theorem HeldRecord.mono {volume : VolumeId} (h : HeldRecord volume vmstates written record)
    (hgo : GoesOn fence nextSeq vmstates vmstates' written written')
    (hseq : record.seq < nextSeq) : HeldRecord volume vmstates' written' record := by
  refine ⟨h.own, h.wellFormed, fun r hr => ?_, h.pages, h.small, ?_⟩
  · obtain ⟨hmax, hfence, hin⟩ := h.files r hr
    exact ⟨hmax, hfence, hin.mono hgo.written⟩
  · rw [hgo.vmstates _ (.inr hseq)]
    exact h.whole

theorem HeldBlocks.mono (h : HeldBlocks vmstates written record)
    (hgo : GoesOn fence nextSeq vmstates vmstates' written written')
    (hseq : record.seq < nextSeq) : HeldBlocks vmstates' written' record := by
  intro bytes hbytes
  rw [hgo.vmstates _ (.inr hseq)] at hbytes
  obtain ⟨blocks, hblocks, hfiles⟩ := h bytes hbytes
  refine ⟨blocks, hblocks, fun key padded hp => ?_⟩
  obtain ⟨r, hr, hmax, o, entries, ho, hrest⟩ := hfiles key padded hp
  exact ⟨r, hr, hmax, o, entries, hgo.written _ _ ho, hrest⟩

end

/-! ## The tenure -/

namespace Lineage

/-- All ids that this tenure has used are below this one. -/
def idBound (s : Lineage) : Nat :=
  match s.primary.capture with
  | none => s.primary.volume.nextObjectId.toNat
  | some (cut, .draining) => cut.firstObject.toNat
  | some (cut, .writing _ written _) => cut.firstObject.toNat + written.length
  | some (cut, .recorded _ blobs) => cut.firstObject.toNat + blobs.length
  | some (cut, .durable _ blobs) => cut.firstObject.toNat + blobs.length

/-- The record of the capture in progress. -/
structure RecordedNow (s : Lineage) (cut : Cut) (record : JournalRecord) : Prop where
  seq : record.seq = cut.seq
  fence : record.fence = s.primary.volume.fence
  covered : record.syncCoveredThrough ≤ record.captureSeq
  captureSeq : record.captureSeq = cut.captureSeq
  held : HeldRecord s.primary.id s.vmstates s.written record
  blocks : HeldBlocks s.vmstates s.written record

/-- What is known of a capture in progress at each point. -/
def PhaseHolds (s : Lineage) (cut : Cut) : CapturePhase → Prop
  | .draining => True
  | .writing _ written remaining => ∃ objects,
    written ++ remaining = objects.map (fun o => o.blob s.primary.id s.primary.volume.fence) ∧
    VolumeState.CaptureBatch s.primary.id s.primary.volume.fence cut objects ∧
    VmmBatch cut.seq (cut.checkpoint.map Checkpoint.vmstateBytes) objects ∧
    ∀ blob ∈ written,
      s.written (ObjectIdentity.volume s.primary.id s.primary.volume.fence blob.1) = some blob.2.1
  | .recorded record _ => s.RecordedNow cut record
  | .durable record _ => s.RecordedNow cut record

/-- What is known of the cut of a capture in progress. -/
structure CutHolds (s : Lineage) (cut : Cut) : Prop where
  vmstate : s.vmstates (s.primary.volume.fence, cut.seq) = cut.checkpoint.map Checkpoint.vmstateBytes
  numbered : VolumeState.VmmNumbered cut
  memory : cut.checkpoint.isSome = true → s.primary.volume.config.kind = .memory
  first : cut.firstObject.toNat ≤ 2 ^ 62
  small : cut.seq.toNat < 2 ^ 31 - 1
  best : ∀ record ∈ s.primary.volume.bestRecord, record.seq < cut.seq
  covered : s.primary.volume.localCoveredThrough ≤ cut.captureSeq
  captureSeq : cut.captureSeq ≤ s.primary.volume.mutationSeq
  next : s.primary.volume.nextSeq.toNat = cut.seq.toNat + 1

/-- The volume's host and the volume's history. -/
structure Tenure (s : Lineage) : Prop where
  inv : s.primary.Inv
  numbered : s.primary.Numbered
  pages : s.primary.volume.config.pages ≠ 0
  files : ∀ i bytes, s.written i = some bytes → ∃ o, o.bytes = bytes ∧
    WrittenFile s.vmstates i o ∧
    (i.writerFence = s.primary.volume.fence → o.header.maxSeq < s.primary.volume.nextSeq)
  ids : ∀ i bytes, s.written i = some bytes → i.writerFence = s.primary.volume.fence →
    i.objectId.toNat < s.idBound
  table : ∀ i r, s.primary.volume.files i = some r → InHistory s.written r
  disk : ∀ (i : ObjectIdentity) blob, s.primary.disk.blx[i]? = some blob →
    s.written i = some blob.bytes
  future : ∀ seq, s.primary.volume.nextSeq ≤ seq →
    s.vmstates (s.primary.volume.fence, seq) = none
  best : ∀ record ∈ s.primary.volume.bestRecord, record.seq < s.primary.volume.nextSeq
  covered : s.primary.volume.localCoveredThrough ≤ s.primary.volume.mutationSeq
  cut : ∀ cut phase, s.primary.capture = some (cut, phase) → s.CutHolds cut ∧ s.PhaseHolds cut phase

/-- A capture starts while numbers and ids are far from running out, and is abandoned only before
its first file; and no needed batch is reclaimed in parts. -/
def SafeNumbers (s : Lineage) : CaptureStep → Prop
  | .reserve .. => s.primary.volume.nextObjectId.toNat ≤ 2 ^ 62 ∧
    s.primary.volume.nextSeq.toNat < 2 ^ 31 - 1
  | .refuse => s.primary.Unwritten
  | .reclaim identity => s.primary.Reclaimable identity
  | _ => True

/-- What a step that is not part of a capture leaves as it is. -/
structure SameTenure (s t : Lineage) : Prop where
  id : t.primary.id = s.primary.id
  fence : t.primary.volume.fence = s.primary.volume.fence
  config : t.primary.volume.config = s.primary.volume.config
  nextSeq : t.primary.volume.nextSeq = s.primary.volume.nextSeq
  nextObjectId : t.primary.volume.nextObjectId = s.primary.volume.nextObjectId
  bestRecord : t.primary.volume.bestRecord = s.primary.volume.bestRecord
  localCoveredThrough :
    t.primary.volume.localCoveredThrough = s.primary.volume.localCoveredThrough
  mutationSeq : s.primary.volume.mutationSeq ≤ t.primary.volume.mutationSeq
  capture : t.primary.capture = s.primary.capture
  files : ∀ i r, t.primary.volume.files i = some r → s.primary.volume.files i = some r
  disk : ∀ (i : ObjectIdentity) blob, t.primary.disk.blx[i]? = some blob →
    s.primary.disk.blx[i]? = some blob
  vmstates : t.vmstates = s.vmstates
  written : t.written = s.written

variable {s t : Lineage}

theorem SameTenure.refl (s : Lineage) : SameTenure s s :=
  ⟨rfl, rfl, rfl, rfl, rfl, rfl, rfl, le_rfl, rfl, fun _ _ h => h, fun _ _ h => h, rfl, rfl⟩

/-- **Steps beside a capture.** -/
theorem Tenure.mono (h : s.Tenure) (hst : SameTenure s t) (hinv : t.primary.Inv) : t.Tenure := by
  refine ⟨hinv, fun i r hi => ?_, ?_, fun i bytes hi => ?_, fun i bytes hi hf => ?_, fun i r hi => ?_,
    fun i blob hi => ?_, fun seq hseq => ?_, fun record hr => ?_, ?_, fun cut phase hc => ?_⟩
  · rw [hst.nextSeq]
    exact h.numbered i r (hst.files i r hi)
  · rw [hst.config]
    exact h.pages
  · rw [hst.written] at hi
    rw [hst.vmstates, hst.fence, hst.nextSeq]
    exact h.files i bytes hi
  · rw [hst.written] at hi
    rw [hst.fence] at hf
    have hbound : t.idBound = s.idBound := by
      simp only [idBound, hst.capture, hst.nextObjectId]
    rw [hbound]
    exact h.ids i bytes hi hf
  · rw [hst.written]
    exact h.table i r (hst.files i r hi)
  · rw [hst.written]
    exact h.disk i blob (hst.disk i blob hi)
  · rw [hst.nextSeq] at hseq
    rw [hst.vmstates, hst.fence]
    exact h.future seq hseq
  · rw [hst.bestRecord] at hr
    rw [hst.nextSeq]
    exact h.best record hr
  · rw [hst.localCoveredThrough]
    exact h.covered.trans hst.mutationSeq
  · rw [hst.capture] at hc
    obtain ⟨hcut, hphase⟩ := h.cut cut phase hc
    refine ⟨⟨?_, hcut.numbered, ?_, hcut.first, hcut.small, ?_, ?_, ?_, ?_⟩, ?_⟩
    · rw [hst.vmstates, hst.fence]
      exact hcut.vmstate
    · rw [hst.config]
      exact hcut.memory
    · rw [hst.bestRecord]
      exact hcut.best
    · rw [hst.localCoveredThrough]
      exact hcut.covered
    · exact hcut.captureSeq.trans hst.mutationSeq
    · rw [hst.nextSeq]
      exact hcut.next
    · have hrecord : ∀ record, s.RecordedNow cut record → t.RecordedNow cut record :=
        fun record hr => ⟨hr.seq, hr.fence.trans hst.fence.symm, hr.covered, hr.captureSeq,
          hst.id ▸ hst.vmstates ▸ hst.written ▸ hr.held, hst.vmstates ▸ hst.written ▸ hr.blocks⟩
      cases phase with
      | draining => exact hphase
      | writing post written remaining =>
        simp only [PhaseHolds, hst.id, hst.fence, hst.written]
        exact hphase
      | recorded record blobs => exact hrecord record hphase
      | durable record blobs => exact hrecord record hphase

/-! ## One step of a capture -/

theorem capture_eq_some {a : CaptureStep} (h : s.capture a = some t) :
    ∃ p, s.primary.captureStep a = some p ∧
      t = { s with primary := p, vmstates := s.noteCut a, written := s.noteFile a } := by
  simp only [capture, bind_eq_some, ensure_eq_some, exists_const, pure_eq_some] at h
  obtain ⟨-, p, hp, rfl⟩ := h
  exact ⟨p, hp, rfl⟩

/-- The history after a cut. -/
theorem goesOn_noteCut (s : Lineage) (a : CaptureStep) :
    GoesOn s.primary.volume.fence s.primary.volume.nextSeq s.vmstates (s.noteCut a) s.written
      s.written := by
  refine ⟨fun _ _ h => h, fun name hname => ?_⟩
  have hne : name ≠ (s.primary.volume.fence, s.primary.volume.nextSeq) := by
    rintro rfl
    rcases hname with hname | hname
    · exact hname rfl
    · exact lt_irrefl _ hname
  unfold noteCut
  split
  · exact Function.update_of_ne hne _ _
  · rfl

variable {p : Primary} {cut : Cut}

/-- A cut: nothing is written yet. -/
theorem Tenure.reserve (h : s.Tenure) {kind : CaptureKind} {checkpoint : Option Checkpoint}
    {prepared : List CompactionRescue} (hsafe : s.SafeNumbers (.reserve kind checkpoint prepared))
    (hs : s.primary.reserve kind checkpoint prepared = some p) (hinv : p.Inv) (hnum : p.Numbered) :
    Tenure { s with
      primary := p
      vmstates := s.noteCut (.reserve kind checkpoint prepared) } := by
  cases Primary.stepped (a := .reserve kind checkpoint prepared) hs with
  | reserve v' cut cache hidle hmemory hcut =>
  have hnumbered := VolumeState.vmmNumbered_of_reserve hcut
  have hr := VolumeState.reserved hcut
  obtain ⟨nextSeq, nextObjectId, nextGen, rfl⟩ := hr.state
  have hseq : s.primary.volume.nextSeq < nextSeq := hr.nextSeq_lt
  have hgo := goesOn_noteCut s (.reserve kind checkpoint prepared)
  have hbound : s.idBound = s.primary.volume.nextObjectId.toNat := by simp only [idBound, hidle]
  refine ⟨hinv, hnum, h.pages, fun i bytes hi => ?_, fun i bytes hi hf => ?_, h.table, h.disk,
    fun seq hle => ?_, fun record hrec => (h.best record hrec).trans hseq, h.covered, ?_⟩
  · obtain ⟨o, ho, hfile, hlt⟩ := h.files i bytes hi
    exact ⟨o, ho, hfile.mono hgo hlt, fun hf => (hlt hf).trans hseq⟩
  · have hid := h.ids i bytes hi hf
    rw [hbound, ← hr.firstObject] at hid
    exact hid
  · have hne : seq ≠ s.primary.volume.nextSeq := (hseq.trans_le hle).ne'
    have hold : s.vmstates (s.primary.volume.fence, seq) = none :=
      h.future seq (hseq.trans_le hle).le
    cases checkpoint with
    | none => exact hold
    | some checkpoint =>
      exact (Function.update_of_ne (fun heq => hne (Prod.mk.inj heq).2) _ _).trans hold
  · rintro _ _ ⟨⟩
    refine ⟨⟨?_, hnumbered, ?_, ?_, ?_, ?_, ?_, ?_, ?_⟩, trivial⟩
    · rw [hr.seq, hr.checkpoint]
      cases checkpoint with
      | none => exact h.future _ le_rfl
      | some checkpoint => exact Function.update_self ..
    · intro hsome
      rw [hr.checkpoint] at hsome
      rw [hsome, eq_comm, Bool.and_eq_true] at hmemory
      exact beq_iff_eq.mp hmemory.1
    · rw [hr.firstObject]
      exact hsafe.1
    · rw [hr.seq]
      exact hsafe.2
    · rw [hr.seq]
      exact h.best
    · rw [hr.captureSeq]
      exact h.covered
    · rw [hr.captureSeq]
    · rw [hr.seq]
      exact hr.nextSeq

/-- The batch is built. -/
theorem Tenure.drain (h : s.Tenure) {read : PageId → Bytes} (hs : s.primary.drain read = some p)
    (hinv : p.Inv) : Tenure { s with primary := p } := by
  cases Primary.stepped (a := .drain read) hs with | drain cut post blobs hcapture hbuild =>
  obtain ⟨hcut, -⟩ := h.cut cut _ hcapture
  obtain ⟨objects, hbatch, hblobs, hvmm⟩ := VolumeState.vmmBatch_of_buildBatch hcut.numbered hbuild
  refine { h with inv := hinv, ids := by simpa [idBound, hcapture] using h.ids, cut := ?_ }
  rintro _ _ ⟨⟩
  exact ⟨{ hcut with }, objects, hblobs, hbatch, hvmm, by simp⟩

/-- The blob of an object determines it. -/
theorem eq_of_blob_eq {o o' : BlxObject} {volume : VolumeId} {fence : UInt64}
    (ho : BlxObject.open o.bytes = some o) (ho' : BlxObject.open o'.bytes = some o')
    (h : o.blob volume fence = o'.blob volume fence) : o = o' := by
  have hbytes : o.bytes = o'.bytes := congrArg (fun blob => blob.2.1) h
  rw [hbytes, ho'] at ho
  exact (Option.some.inj ho).symm

/-- One more file in the history, under an id that was not used before. -/
structure Adds (s : Lineage) (i : ObjectIdentity) (bytes : Bytes) : Prop where
  note : s.noteFile .chunk = Function.update s.written i (some bytes)
  fresh : s.written i = none

section Adds

variable {i j : ObjectIdentity} {bytes bytes' : Bytes}

/-- The id is the next one. -/
theorem Adds.of_next (hnote : s.noteFile .chunk = Function.update s.written i (some bytes))
    (hids : ∀ bytes, s.written i = some bytes → i.objectId.toNat < s.idBound)
    (hnext : i.objectId.toNat = s.idBound) : s.Adds i bytes :=
  ⟨hnote, Option.eq_none_iff_forall_ne_some.mpr fun bytes hi => (hids bytes hi).ne hnext⟩

theorem Adds.self (h : s.Adds i bytes) : s.noteFile .chunk i = some bytes := by
  rw [h.note, Function.update_self]

theorem Adds.keeps (h : s.Adds i bytes) (hj : s.written j = some bytes') :
    s.noteFile .chunk j = some bytes' := by
  rw [h.note, Function.update_of_ne, hj]
  rintro rfl
  rw [h.fresh] at hj
  cases hj

theorem Adds.cases (h : s.Adds i bytes) (hj : s.noteFile .chunk j = some bytes') :
    (j = i ∧ bytes' = bytes) ∨ s.written j = some bytes' := by
  rw [h.note, Function.update_apply] at hj
  split at hj
  · exact .inl ⟨‹_›, (Option.some.inj hj).symm⟩
  · exact .inr hj

end Adds

section Chunk

variable {objects : List BlxObject} {n : Nat} {o : BlxObject}

/-- The next blob of a capture is that of an object of its batch. -/
theorem mem_of_blob {written remaining : List BlxBlob} {volume : VolumeId} {fence : UInt64}
    (hbatch : written ++ o.blob volume fence :: remaining = objects.map fun o => o.blob volume fence)
    (hcaptured : VolumeState.CaptureBatch volume fence cut objects)
    (hopen : BlxObject.open o.bytes = some o) : o ∈ objects := by
  have hin : o.blob volume fence ∈ objects.map fun o => o.blob volume fence := by
    rw [← hbatch]
    simp
  obtain ⟨o', ho', hblob⟩ := List.mem_map.mp hin
  obtain ⟨pre, post, hb⟩ := hcaptured
  exact eq_of_blob_eq (hb.opens o' ho') hopen hblob ▸ ho'

/-- The file of an object of the capture is as the history has to have it. -/
theorem CutHolds.writtenFile (hcut : s.CutHolds cut)
    (hflight : (s.primary.volume.fileView s.primary.id).InFlight cut objects n)
    (hget : objects[n]? = some o) {batch : List BlxObject}
    (hvmm : VmmBatch cut.seq (cut.checkpoint.map Checkpoint.vmstateBytes) batch) (ho : o ∈ batch) :
    WrittenFile s.vmstates o.identity o ∧ o.header.maxSeq = cut.seq := by
  have hmem := List.mem_of_getElem? hget
  have hobjectId := hflight.objectId hget
  obtain ⟨pre, post, hb⟩ := hflight.batch
  have hseq : o.header.maxSeq = cut.seq := (hb.fields o hmem).2.2.2.2.1
  refine ⟨⟨hb.opens o hmem, rfl, ?_, ?_⟩, hseq⟩
  · have hcount := hb.chunkCount o hmem
    have hlt := o.header.chunkCount.toNat_lt
    have hlen := (List.getElem?_eq_some_iff.mp hget).1
    have hfirst := hcut.first
    omega
  · have hvmstate := hcut.vmstate
    rw [hflight.identity hmem, hseq]
    simp only [ObjectIdentity.volume, VolumeState.fileView, hvmstate]
    exact hvmm.entries o ho

end Chunk

/-- One more file is written. -/
theorem Tenure.chunk (h : s.Tenure) (hs : s.primary.chunk = some p) (hinv : p.Inv)
    (hnum : p.Numbered) : Tenure { s with primary := p, written := s.noteFile .chunk } ∧
      ∀ i bytes, s.written i = some bytes → s.noteFile .chunk i = some bytes := by
  obtain ⟨cut, post, written, remaining, objects, n, o, cache, hcapture, hflight, hget, hwritten,
    -, hopen, rfl⟩ := h.inv.exists_of_chunk hs
  obtain ⟨hcut, batch, hbatch, hcaptured, hvmm, hold⟩ := h.cut cut _ hcapture
  have hidentity : o.identity = ObjectIdentity.volume s.primary.id s.primary.volume.fence
      o.header.objectId := hflight.identity (List.mem_of_getElem? hget)
  have hn : written.length = n := by
    rw [hwritten, List.length_map, List.length_take]
    exact Nat.min_eq_left hflight.le
  have hbound : s.idBound = cut.firstObject.toNat + n := by
    simp only [idBound, hcapture, hn]
  have hnext : o.identity.objectId.toNat = s.idBound := (hflight.objectId hget).trans hbound.symm
  have hadds : s.Adds o.identity o.bytes := by
    refine .of_next ?_ (fun bytes hi => h.ids _ bytes hi (by rw [hidentity]; rfl)) hnext
    simp only [noteFile, hcapture, BlxObject.blob, hidentity]
  obtain ⟨hfile, hseq⟩ := hcut.writtenFile hflight hget hvmm (mem_of_blob hbatch hcaptured hopen)
  refine ⟨⟨hinv, hnum, h.pages, fun i bytes hi => ?_, fun i bytes hi hf => ?_, fun i r hi => ?_,
    fun i blob hi => ?_, h.future, h.best, h.covered, ?_⟩, fun _ _ => hadds.keeps⟩
  · rcases hadds.cases hi with ⟨rfl, rfl⟩ | hi
    · refine ⟨o, rfl, hfile, fun _ => ?_⟩
      rw [hseq]
      exact hflight.seq
    · exact h.files i bytes hi
  · simp only [idBound, List.length_append, List.length_singleton, hn]
    rcases hadds.cases hi with ⟨rfl, -⟩ | hi
    · omega
    · have hid := h.ids i bytes hi hf
      omega
  · rw [VolumeState.files_noteChunk] at hi
    split at hi
    · cases hi
      exact ⟨o, hadds.self, hopen, rfl⟩
    · exact (h.table i r hi).mono fun _ _ => hadds.keeps
  · rw [Maps.getElem?_insert] at hi
    split at hi
    · rename_i heq
      cases hi
      rw [← heq]
      exact hadds.self
    · exact hadds.keeps (h.disk i blob hi)
  · rintro _ _ ⟨⟩
    refine ⟨{ hcut with }, batch, ?_, hcaptured, hvmm, fun blob hblob => ?_⟩
    · rw [List.append_assoc]
      exact hbatch
    · rcases List.mem_append.mp hblob with hblob | hblob
      · exact hadds.keeps (hold blob hblob)
      · rw [List.mem_singleton.mp hblob]
        exact (congrArg (s.noteFile .chunk) hidentity.symm).trans hadds.self

/-- The capture is given up before its first file. -/
theorem Tenure.refuse (h : s.Tenure) (hnone : s.primary.Unwritten) (hs : s.primary.refuse = some p)
    (hinv : p.Inv) : Tenure { s with primary := p } := by
  cases Primary.stepped (a := .refuse) hs with | refuse cut post written remaining cache hcapture =>
  have hwritten := hnone _ _ _ _ hcapture
  obtain ⟨objects, n, hflight, -⟩ := h.inv.capture cut _ hcapture
  have hbound : s.idBound = cut.firstObject.toNat := by
    simp only [idBound, hcapture, hwritten, List.length_nil, Nat.add_zero]
  refine ⟨hinv, h.numbered, h.pages, h.files, fun i bytes hi hf => ?_, h.table, h.disk, h.future,
    h.best, h.covered, by simp⟩
  have hid := h.ids i bytes hi hf
  rw [hbound] at hid
  exact hid.trans_le (UInt64.le_iff_toNat_le.mp hflight.first)

/-- The record is on disk. -/
theorem Tenure.writeRecord (h : s.Tenure) (hs : s.primary.writeRecord = some p) (hinv : p.Inv) :
    Tenure { s with primary := p } := by
  cases Primary.stepped (a := .writeRecord) hs with
  | writeRecord cut record blobs bytes hcapture =>
  obtain ⟨hcut, hphase⟩ := h.cut cut _ hcapture
  refine { h with inv := hinv, ids := by simpa only [idBound, hcapture] using h.ids, cut := ?_ }
  rintro _ _ ⟨⟩
  exact ⟨{ hcut with }, { hphase with }⟩

/-- A vmstate has a length that fits the record's field. -/
theorem toNat_length_of_blocks {bytes : Bytes} {blocks : List (BlockKey × Bytes)}
    (h : vmmSnapshotBlocks bytes = some blocks) :
    (UInt64.ofNat bytes.length).toNat = bytes.length := by
  simp only [vmmSnapshotBlocks, bind_eq_some, ensure_eq_some, exists_const] at h
  obtain ⟨hcount, -⟩ := h
  have hsize : 0 < pageSize := lt_of_lt_of_le (by decide) Platform.le_pageSize
  have hlt : pageSize < 2 ^ 32 := Platform.pageSize_lt
  have hdiv := Nat.div_add_mod (bytes.length + pageSize - 1) pageSize
  have hmod := Nat.mod_lt (bytes.length + pageSize - 1) hsize
  have hmul : pageSize * ((bytes.length + pageSize - 1) / pageSize) ≤ (2 ^ 32 - 1) * 2 ^ 32 :=
    Nat.mul_le_mul (by omega) hcount
  rw [UInt64.toNat_ofNat', Nat.mod_eq_of_lt]
  omega

/-- The sync a record covers, of the barriers it has reached. -/
theorem syncCoveredThrough_captureRecord_le {v : VolumeState} (post : UInt64)
    (h : v.localCoveredThrough ≤ cut.captureSeq) :
    (v.captureRecord cut post).syncCoveredThrough ≤ cut.captureSeq := by
  have hfold : ∀ (barriers : List UInt64) (start : UInt64), start ≤ cut.captureSeq →
      (∀ barrier ∈ barriers, barrier ≤ cut.captureSeq) →
        barriers.foldl max start ≤ cut.captureSeq := by
    intro barriers
    induction barriers with
    | nil => exact fun start hstart _ => hstart
    | cons barrier barriers ih =>
      intro start hstart hall
      exact ih _ (max_le hstart (hall barrier List.mem_cons_self))
        fun b hb => hall b (List.mem_cons_of_mem barrier hb)
  refine hfold _ _ h fun barrier hb => ?_
  exact of_decide_eq_true (List.mem_filter.mp hb).2

/-- The last file of a batch changes nothing but where the VMM snapshot is. -/
theorem exists_noteBatch (v : VolumeState) (volume : VolumeId) (cut : Cut) (blobs : List BlxBlob) :
    ∃ files, v.noteBatch volume cut blobs = { v with vmmBlxFiles := files } := by
  rw [VolumeState.noteBatch]
  split
  · exact ⟨_, rfl⟩
  · exact ⟨_, rfl⟩

/-- What the record of a capture names is in the history. -/
theorem Tenure.heldRecord (h : s.Tenure) {phase : CapturePhase} {post : UInt64}
    {blobs : List BlxBlob} (hcapture : s.primary.capture = some (cut, phase))
    (hrecord : ((s.primary.volume.noteBatch s.primary.id cut blobs).fileView s.primary.id).Recorded
      cut ((s.primary.volume.noteBatch s.primary.id cut blobs).captureRecord cut post))
    (hfits : ∀ checkpoint ∈ cut.checkpoint, (vmmSnapshotBlocks checkpoint.vmstateBytes).isSome) :
    HeldRecord s.primary.id s.vmstates s.written
      ((s.primary.volume.noteBatch s.primary.id cut blobs).captureRecord cut post) := by
  obtain ⟨hcut, -⟩ := h.cut cut phase hcapture
  obtain ⟨vmm, hnote⟩ := exists_noteBatch s.primary.volume s.primary.id cut blobs
  rw [hnote] at hrecord ⊢
  refine ⟨fun r hr => ?_, hrecord.wellFormed, fun r hr => ?_, ?_, hcut.small,
    fun bytes hbytes => ?_⟩
  · obtain ⟨⟨i, hi⟩, -⟩ := VolumeState.mem_recoveryFiles.mp hr
    obtain ⟨hkind, hid⟩ := h.inv.table.own i r hi
    rw [h.inv.table.identity i r hi]
    simp [ObjectIdentity.isOwn, hkind, hid, VolumeState.fileView]
  · obtain ⟨⟨i, hi⟩, -⟩ := VolumeState.mem_recoveryFiles.mp hr
    obtain ⟨-, hmax⟩ := h.inv.seqs i r hi
    have hlt := UInt64.lt_iff_toNat_lt.mp (h.numbered i r hi)
    have hnext := hcut.next
    refine ⟨?_, ?_, h.table i r hi⟩
    · rw [hmax, UInt64.le_iff_toNat_le]
      show _ ≤ cut.seq.toNat
      omega
    · rw [h.inv.table.identity i r hi]
      exact h.inv.fence i r hi
  · exact h.pages
  · -- a checkpoint of a memory volume covers what it has captured
    change bytes ∈ s.vmstates (s.primary.volume.fence, cut.seq) at hbytes
    rw [hcut.vmstate, Option.mem_def, Option.map_eq_some_iff] at hbytes
    obtain ⟨checkpoint, hcheckpoint, rfl⟩ := hbytes
    obtain ⟨blocks, hblocks⟩ := Option.isSome_iff_exists.mp (hfits checkpoint hcheckpoint)
    refine ⟨cut.epoch, UInt64.ofNat checkpoint.vmstateBytes.length, ?_,
      toNat_length_of_blocks hblocks⟩
    simp only [recoveryMetadata, VolumeState.captureRecord, VolumeState.recordKind, hcheckpoint]
    refine if_pos ⟨hcut.memory ?_, syncCoveredThrough_captureRecord_le post hcut.covered⟩
    rw [hcheckpoint, Option.isSome_some]

/-- The vmstate of a checkpoint is in the files of its batch, which its record names. -/
theorem Tenure.heldBlocks (h : s.Tenure) {post : UInt64 × BlockChecksums} {blobs : List BlxBlob}
    (hcapture : s.primary.capture = some (cut, .writing post blobs [])) :
    HeldBlocks s.vmstates s.written
      ((s.primary.volume.noteBatch s.primary.id cut blobs).captureRecord cut post.1) := by
  obtain ⟨hcut, batch, hbatch, ⟨pre, post', hb⟩, hvmm, hold⟩ := h.cut cut _ hcapture
  obtain ⟨objects, n, hflight, hwritten, hremaining⟩ := h.inv.capture cut _ hcapture
  rw [List.append_nil] at hbatch
  intro bytes hbytes
  have hname : s.vmstates (((s.primary.volume.noteBatch s.primary.id cut blobs).captureRecord cut
      post.1).fence, cut.seq) = s.vmstates (s.primary.volume.fence, cut.seq) := by
    obtain ⟨vmm, hnote⟩ := exists_noteBatch s.primary.volume s.primary.id cut blobs
    rw [hnote]
    rfl
  change bytes ∈ s.vmstates (_, cut.seq) at hbytes
  rw [hname, hcut.vmstate] at hbytes
  obtain ⟨blocks, hblocks, hentries⟩ := hvmm.blocks bytes hbytes
  refine ⟨blocks, hblocks, fun key padded hp => ?_⟩
  obtain ⟨o, ho, entries, hcontains, hentry⟩ := hentries key padded hp
  have hopen := hb.opens o ho
  have hblob : o.blob s.primary.id s.primary.volume.fence ∈ blobs := by
    rw [hbatch]
    exact List.mem_map_of_mem ho
  -- the object is one of those the invariant knows
  obtain ⟨k, hk⟩ : ∃ k, objects[k]? = some o ∧ k < n := by
    rw [hwritten] at hblob
    obtain ⟨o', ho', heq⟩ := List.mem_map.mp hblob
    obtain ⟨k, hk⟩ := List.mem_iff_getElem?.mp ho'
    have hlt : k < n := by
      have hlen := (List.getElem?_eq_some_iff.mp hk).1
      rw [List.length_take] at hlen
      omega
    rw [List.getElem?_take_of_lt hlt] at hk
    obtain ⟨pre', post'', hb'⟩ := hflight.batch
    have hopen' := hb'.opens o' (List.mem_of_getElem? hk)
    exact ⟨k, eq_of_blob_eq hopen' hopen heq ▸ hk, hlt⟩
  have hidentity := hflight.identity (List.mem_of_getElem? hk.1)
  have hfile := hflight.present k o hk.2 hk.1
  obtain ⟨-, -, -, -, hmax, -⟩ := hb.fields o ho
  refine ⟨ObjectRef.fromBlx o, ?_, hmax, o, entries, ?_, hopen, hcontains, hentry⟩
  · have hsome : cut.checkpoint.isSome = true := by
      obtain ⟨checkpoint, hcheckpoint, -⟩ := Option.map_eq_some_iff.mp hbytes
      rw [hcheckpoint, Option.isSome_some]
    simp only [VolumeState.captureRecord, VolumeState.noteBatch, hsome, if_true]
    refine VolumeState.mem_recoveryFiles.mpr ⟨⟨o.identity, hfile⟩, o.identity, _, hfile, ?_,
      rfl, rfl⟩
    refine VolumeState.mem_neededBlx.mpr (.inr (.inr (List.mem_toFinset.mpr ?_)))
    exact List.mem_map.mpr ⟨_, hblob, hidentity.symm⟩
  · have hwrote : s.written (ObjectIdentity.volume s.primary.id s.primary.volume.fence
        o.header.objectId) = some o.bytes := hold _ hblob
    rw [← show o.identity = ObjectIdentity.volume s.primary.id s.primary.volume.fence
      o.header.objectId from hidentity] at hwrote
    exact hwrote

/-- The record is made. -/
theorem Tenure.record (h : s.Tenure) (hs : s.primary.record = some p) (hinv : p.Inv)
    (hnum : p.Numbered) : Tenure { s with primary := p } := by
  cases Primary.stepped (a := .record) hs with | record cut post blobs hcapture =>
  obtain ⟨hcut, batch, hbatch, hcaptured, hvmm, hold⟩ := h.cut cut _ hcapture
  obtain ⟨objects, n, hflight, hn, hblobs, hrecord⟩ := hinv.capture cut _ rfl
  have hfits : ∀ checkpoint ∈ cut.checkpoint,
      (vmmSnapshotBlocks checkpoint.vmstateBytes).isSome := by
    intro checkpoint hcheckpoint
    obtain ⟨blocks, hblocks, -⟩ := hvmm.blocks checkpoint.vmstateBytes
      (Option.map_eq_some_iff.mpr ⟨checkpoint, hcheckpoint, rfl⟩)
    exact Option.isSome_iff_exists.mpr ⟨blocks, hblocks⟩
  have hheld := h.heldRecord hcapture hrecord hfits
  have hvmstate := h.heldBlocks hcapture
  obtain ⟨vmm, hnote⟩ := exists_noteBatch s.primary.volume s.primary.id cut blobs
  simp only [hnote] at hinv hnum hheld hvmstate ⊢
  refine { h with
    inv := hinv, numbered := hnum, ids := by simpa only [idBound, hcapture] using h.ids, cut := ?_ }
  rintro _ _ ⟨⟩
  exact ⟨{ hcut with }, rfl, rfl, syncCoveredThrough_captureRecord_le post.1 hcut.covered, rfl,
    hheld, hvmstate⟩

/-- The next id is above those of the batch. -/
theorem le_nextObjectId_commitRecord {v : VolumeState} {id : VolumeId} {record : JournalRecord}
    {blobs : List BlxBlob} {objects : List BlxObject}
    (hbatch : VolumeState.CaptureBatch id v.fence cut objects)
    (hnext : cut.firstObject ≤ v.nextObjectId) (hfirst : cut.firstObject.toNat ≤ 2 ^ 62)
    (hblobs : blobs = objects.map fun o => o.blob id v.fence) :
    cut.firstObject.toNat + blobs.length ≤
      (v.commitRecord id cut record blobs).nextObjectId.toNat := by
  have hold : cut.firstObject.toNat ≤ (v.commitRecord id cut record blobs).nextObjectId.toNat :=
    UInt64.le_iff_toNat_le.mp (hnext.trans VolumeState.nextObjectId_le_commitRecord)
  have hlength : blobs.length = objects.length := by rw [hblobs, List.length_map]
  rcases Nat.eq_zero_or_pos objects.length with hzero | hpos
  · omega
  · -- the last id of the batch is far from the end, so the next one does not saturate
    have hlt : objects.length - 1 < objects.length := by omega
    have hget : objects[objects.length - 1]? = some objects[objects.length - 1] :=
      List.getElem?_eq_getElem hlt
    obtain ⟨pre, post, hb⟩ := hbatch
    have hid : (objects[objects.length - 1]).header.objectId.toNat =
        cut.firstObject.toNat + (objects.length - 1) := hb.objectId _ _ hget
    have hcount := hb.chunkCount _ (List.mem_of_getElem? hget)
    have hcount' := (objects[objects.length - 1]).header.chunkCount.toNat_lt
    have hlast : blobs.getLast? = some ((objects[objects.length - 1]).blob id v.fence) := by
      rw [List.getLast?_eq_getElem?, hlength, hblobs, List.getElem?_map, hget, Option.map_some]
    by_cases hleft : (v.commitRecord id cut record blobs).nextObjectId.toNat < 2 ^ 64 - 1
    · have hlater := UInt64.lt_iff_toNat_lt.mp
        (VolumeState.lt_nextObjectId_commitRecord hlast le_rfl hleft)
      simp only [BlxObject.blob] at hlater
      omega
    · omega

/-- The record becomes the newest one. -/
theorem Tenure.commit (h : s.Tenure) (hs : s.primary.commit = some p) (hinv : p.Inv)
    (hnum : p.Numbered) : Tenure { s with primary := p } := by
  cases Primary.stepped (a := .commit) hs with | commit cut record blobs pin hcapture =>
  obtain ⟨hcut, hphase⟩ := h.cut cut _ hcapture
  obtain ⟨objects, n, hflight, hn, hblobs, hrecord⟩ := h.inv.capture cut _ hcapture
  have hbound : s.idBound = cut.firstObject.toNat + blobs.length := by
    simp only [idBound, hcapture]
  refine ⟨hinv, hnum, h.pages, h.files, fun i bytes hi hf => ?_, h.table, h.disk, h.future, ?_, ?_,
    by simp⟩
  · have hid := h.ids i bytes hi hf
    rw [hbound] at hid
    refine hid.trans_le ?_
    exact le_nextObjectId_commitRecord hflight.batch hflight.first hcut.first hblobs
  · rintro _ ⟨⟩
    rw [hphase.seq]
    exact hflight.seq
  · calc record.syncCoveredThrough ≤ record.captureSeq := hphase.covered
      _ = cut.captureSeq := hphase.captureSeq
      _ ≤ s.primary.volume.mutationSeq := hcut.captureSeq

/-! ## Every step of a capture -/

/-- A record of this tenure, whose vmstate is in its files. -/
structure OwnRecord (s : Lineage) (record : JournalRecord) : Prop where
  fence : record.fence = s.primary.volume.fence
  seq : record.seq < s.primary.volume.nextSeq
  later : ∀ old ∈ s.primary.volume.bestRecord, old.seq < record.seq
  held : HeldRecord s.primary.id s.vmstates s.written record
  blocks : HeldBlocks s.vmstates s.written record

/-- What one step of a capture does to the volume's history. -/
structure Captures (s t : Lineage) : Prop where
  tenure : t.Tenure
  goesOn : GoesOn s.primary.volume.fence s.primary.volume.nextSeq s.vmstates t.vmstates s.written
    t.written
  id : t.primary.id = s.primary.id
  fence : t.primary.volume.fence = s.primary.volume.fence
  nextSeq : s.primary.volume.nextSeq ≤ t.primary.volume.nextSeq
  peer : t.primary.volume.peerCommittedRecord = s.primary.volume.peerCommittedRecord
  best : t.primary.volume.bestRecord = s.primary.volume.bestRecord ∨
    ∃ record, t.primary.volume.bestRecord = some record ∧ s.OwnRecord record

/-- A step beside a capture. -/
theorem Tenure.captures_of_same (h : s.Tenure) (hst : SameTenure s { s with primary := p })
    (hinv : p.Inv) (hpeer : p.volume.peerCommittedRecord = s.primary.volume.peerCommittedRecord) :
    Captures s { s with primary := p } :=
  ⟨h.mono hst hinv, .refl, hst.id, hst.fence, hst.nextSeq.ge, hpeer, .inl hst.bestRecord⟩

omit [Platform] in
/-- A blob that is deleted is not replaced. -/
theorem getElem?_blx_delete {disk : Disk} {name : BlobName} {i : ObjectIdentity} {blob : StoredBlx}
    (h : (disk.delete name).blx[i]? = some blob) : disk.blx[i]? = some blob := by
  cases name with
  | journal fence seq => exact h
  | blx identity =>
    rw [Disk.delete, Maps.getElem?_erase] at h
    split at h
    · cases h
    · exact h

/-- The steps beside a capture leave the files, the numbers and the records alone. -/
theorem SameTenure.of_captureStep {a : CaptureStep} (ha : a.isBeside = true)
    (hp : s.primary.captureStep a = some p) : SameTenure s { s with primary := p } ∧
      p.volume.peerCommittedRecord = s.primary.volume.peerCommittedRecord := by
  cases Primary.stepped hp with
  | write mutationSeq hmutation =>
    have hle : s.primary.volume.mutationSeq ≤ mutationSeq := by
      rw [UInt64.le_iff_toNat_le, toNat_of_checkedAdd hmutation]
      omega
    exact ⟨{ SameTenure.refl s with mutationSeq := hle }, rfl⟩
  | resolve | wait | answer | reclaim => exact ⟨{ SameTenure.refl s with }, rfl⟩
  | delete =>
    exact ⟨{ SameTenure.refl s with disk := fun i blob hi => getElem?_blx_delete hi }, rfl⟩
  | forget =>
    exact ⟨{ SameTenure.refl s with
      files := fun i r hi => (VolumeState.files_forget.mp hi).1 }, rfl⟩
  | reserve | drain | chunk | refuse | record | writeRecord | commit => cases ha

/-- **One step of a capture.** -/
theorem Tenure.capture (h : s.Tenure) {a : CaptureStep} (hsafe : s.SafeNumbers a)
    (hs : s.capture a = some t) : Captures s t := by
  obtain ⟨p, hp, rfl⟩ := capture_eq_some hs
  have hok : s.primary.SafeCapture a := by
    cases a with
    | reserve kind checkpoint prepared => exact hsafe.1.trans_lt (by decide)
    | refuse | reclaim => exact hsafe
    | _ => trivial
  have hinv := h.inv.captureStep h.numbered hok hp
  have hnum := h.inv.numbered_captureStep h.numbered hp
  cases a with
  | write | resolve | sync | delete | forget | reclaim =>
    obtain ⟨hst, hpeer⟩ := SameTenure.of_captureStep rfl hp
    exact h.captures_of_same hst hinv hpeer
  | reserve kind checkpoint prepared =>
    have ht := h.reserve hsafe hp hinv hnum
    cases Primary.stepped hp with | reserve v' cut cache hidle hmemory hcut =>
    have hr := VolumeState.reserved hcut
    obtain ⟨nextSeq, nextObjectId, nextGen, rfl⟩ := hr.state
    exact ⟨ht, goesOn_noteCut s _, rfl, rfl, hr.nextSeq_lt.le, rfl, .inl rfl⟩
  | drain read =>
    have ht := h.drain hp hinv
    cases Primary.stepped hp
    exact ⟨ht, .refl, rfl, rfl, le_rfl, rfl, .inl rfl⟩
  | chunk =>
    obtain ⟨ht, hkeeps⟩ := h.chunk hp hinv hnum
    obtain ⟨cut, post, written, remaining, objects, n, o, cache, -, -, -, -, -, -, rfl⟩ :=
      h.inv.exists_of_chunk hp
    exact ⟨ht, ⟨hkeeps, fun _ _ => rfl⟩, rfl, rfl, le_rfl, rfl, .inl rfl⟩
  | refuse =>
    have ht := h.refuse hsafe hp hinv
    cases Primary.stepped hp
    exact ⟨ht, .refl, rfl, rfl, le_rfl, rfl, .inl rfl⟩
  | record =>
    have ht := h.record hp hinv hnum
    cases Primary.stepped hp with | record cut post blobs hcapture =>
    obtain ⟨vmm, hnote⟩ := exists_noteBatch s.primary.volume s.primary.id cut blobs
    simp only [hnote] at ht ⊢
    exact ⟨ht, .refl, rfl, rfl, le_rfl, rfl, .inl rfl⟩
  | writeRecord =>
    have ht := h.writeRecord hp hinv
    cases Primary.stepped hp
    exact ⟨ht, .refl, rfl, rfl, le_rfl, rfl, .inl rfl⟩
  | commit =>
    have ht := h.commit hp hinv hnum
    cases Primary.stepped hp with | commit cut record blobs pin hcapture =>
    obtain ⟨hcut, hphase⟩ := h.cut cut _ hcapture
    have hnext : record.seq < s.primary.volume.nextSeq := by
      have hnat := hcut.next
      rw [hphase.seq, UInt64.lt_iff_toNat_lt]
      omega
    refine ⟨ht, .refl, rfl, rfl, le_rfl, rfl, .inr ⟨record, rfl, hphase.fence, hnext, ?_,
      hphase.held, hphase.blocks⟩⟩
    rw [hphase.seq]
    exact hcut.best

end Lineage

end Blockd
