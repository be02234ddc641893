import Blockd.Engine.ReconcileLoop
import Blockd.Engine.Traces

/-!
# References after a recovery

A recovered volume makes references to the files on its disk anew: from their bytes, if the scan
returns them, or else from their headers and footers alone, and then without the checksum of the
whole file.  Every later record lists its files with these references, and a publication refuses a
file whose bytes are not what the record says.

`Lineage.restarted` is a volume that its host serves again after a recovery, and `localStep` is
what the host does with it from then on; the hydration of a migrated volume is left out.
`recovered_refs_exact` shows that the references are exact if the scan returns bytes.  With a scan
that returns lengths, the first record after the recovery names a file with a checksum of zero
(`not_recovered_refs_exact`).
-/

set_option autoImplicit false

open Codec
open Std (ExtTreeMap)

namespace Blockd

section

variable [Platform]

/-! ## A volume that is served again -/

/-- The blobs as the running volume has them.  The two copies of a record are one. -/
def VolumeBlobs.disk (blobs : VolumeBlobs) (volume : VolumeId) : Disk where
  journals := (blobs.copies.filter fun (fence, seq, bytes) =>
      (readJournal volume fence seq bytes).isSome).foldl
    (fun journals (fence, seq, bytes) => journals.insert (toLex (fence, seq)) bytes) ∅
  blx := (blobs.files.map fun (fence, object, bytes) =>
      (ObjectIdentity.volume volume fence object, (⟨0, bytes⟩ : StoredBlx))).foldl
    (fun blx file => blx.insert file.1 file.2) ∅

/-- The disk is faithful to its names: a file that can be opened is the one it is named as, and so
are the files that a record lists, as far as they are there. -/
structure VolumeBlobs.Faithful (blobs : VolumeBlobs) (volume : VolumeId) : Prop where
  named : ∀ (fence : UInt64) (object : ObjectId) (bytes : Bytes) (o : BlxObject),
    blobs.blx[toLex (fence, object)]? = some bytes → BlxObject.open bytes = some o →
      (ObjectRef.fromBlx o).identity = ObjectIdentity.volume volume fence object
  listed : ∀ record, blobs.HasRecord volume record → ∀ r ∈ record.files, ∀ bytes,
    blobs.blx[toLex (r.identity.writerFence, r.identity.objectId)]? = some bytes →
      ∃ o, BlxObject.open bytes = some o ∧ ObjectRef.fromBlx o = r

omit [Platform] in
/-- An own identity is given by its fence and object id. -/
theorem ObjectIdentity.volume_of_isOwn {i : ObjectIdentity} {volume : VolumeId}
    (h : i.isOwn volume = true) : ObjectIdentity.volume volume i.writerFence i.objectId = i := by
  obtain ⟨hkind, hid⟩ := of_decide_eq_true h
  rw [← hid, ObjectIdentity.volume, ← hkind]

def LineageStep.isRestore : LineageStep → Bool
  | .restore .. => true
  | _ => false

namespace Lineage

/-- The volume on the host that has recovered it, once the head has confirmed it. -/
def restarted (volume : VolumeId) (blobs : VolumeBlobs) (v : ServedVolume) (remote : Remote)
    (version : UInt64) : Lineage where
  primary := {
    id := volume
    disk := blobs.disk volume
    volume := v.toVolumeState
    cache := ∅
    captures := 0
    capture := none
    cleanups := [] }
  archiveBase := v.archiveBase
  archiveObjects := v.archiveObjects
  archivedNonDataReset := v.archivedNonDataReset
  backed := v.backed
  stash := v.stashAssignment.isSome
  sending := none
  peerPublished := none
  publishing := none
  remote := remote
  head := v.backed
  version := version
  vmstates := fun _ => none
  written := fun i => (blobs.disk volume).blx[i]?.map StoredBlx.bytes

/-- What the host does that serves the volume. -/
def localStep (bases : BaseRef → Option BaseManifest) (s : Lineage) (a : LineageStep) :
    Option Lineage :=
  if a.isRestore then none else s.step bases a

/-- The record that a capture has made. -/
def made (s : Lineage) : Option JournalRecord :=
  match s.primary.capture with
  | some (_, .recorded record _) | some (_, .durable record _) => some record
  | _ => none

/-- A record names the files as they were written, and so does the one a publication takes: no file
that is on the disk is refused. -/
structure ExactRefs (s : Lineage) : Prop where
  records : ∀ record ∈ s.made, ∀ r ∈ record.files, InHistory s.written r
  snapshots : ∀ snapshot, s.publishSnapshot = some snapshot →
    ∀ r ∈ snapshot.blxRefs s.primary.id, ∀ blob, s.primary.disk.blx[r.identity]? = some blob →
      readFile s.primary.disk s.primary.id r = some blob.bytes

/-! ## The invariant -/

/-- If the file is known it is the one that is named, and no file of this tenure can still become
it. -/
structure Kept (s : Lineage) (r : ObjectRef) : Prop where
  names : ∀ bytes, s.written r.identity = some bytes →
    ∃ o, BlxObject.open bytes = some o ∧ ObjectRef.fromBlx o = r
  settled : (s.written r.identity).isSome = true ∨
    r.identity.writerFence ≠ s.primary.volume.fence

/-- The files of a batch, as they are written. -/
def BatchBlobs (s : Lineage) (cut : Cut) (blobs : List BlxBlob) : Prop :=
  ∃ objects, blobs = objects.map (fun o => o.blob s.primary.id s.primary.volume.fence) ∧
    VolumeState.CaptureBatch s.primary.id s.primary.volume.fence cut objects

def PhaseRefs (s : Lineage) (cut : Cut) : CapturePhase → Prop
  | .draining => True
  | .writing _ written remaining => s.BatchBlobs cut (written ++ remaining)
  | .recorded record blobs => s.BatchBlobs cut blobs ∧ ∀ r ∈ record.files, InHistory s.written r
  | .durable record blobs => s.BatchBlobs cut blobs ∧ ∀ r ∈ record.files, InHistory s.written r

structure CutRefs (s : Lineage) (cut : Cut) (phase : CapturePhase) : Prop where
  next : cut.firstObject ≤ s.primary.volume.nextObjectId
  first : cut.firstObject.toNat ≤ 2 ^ 62
  phase : s.PhaseRefs cut phase

/-- The table, the disk and the records agree with the files that were written, and ids are used
once. -/
structure RefsInv (s : Lineage) : Prop where
  table : ∀ i r, s.primary.volume.files i = some r → r.identity = i ∧ InHistory s.written r
  disk : ∀ (i : ObjectIdentity) blob, s.primary.disk.blx[i]? = some blob →
    s.written i = some blob.bytes
  ids : ∀ i bytes, s.written i = some bytes → i.writerFence = s.primary.volume.fence →
    i.objectId.toNat < s.idBound
  held : ∀ record, s.Live record → ∀ r ∈ record.files, s.Kept r
  cut : ∀ cut phase, s.primary.capture = some (cut, phase) → s.CutRefs cut phase

variable {bases : BaseRef → Option BaseManifest} {s t : Lineage}

/-- A file that was written under its name settles the reference. -/
theorem Kept.of_inHistory {r : ObjectRef} (h : InHistory s.written r) : s.Kept r := by
  obtain ⟨o, hwritten, hopen, hfrom⟩ := h
  refine ⟨fun bytes hbytes => ⟨o, ?_, hfrom⟩, .inl (by rw [hwritten]; rfl)⟩
  rw [← Option.some.inj (hwritten.symm.trans hbytes)]
  exact hopen

/-- Only files of this tenure are added. -/
theorem Kept.mono {r : ObjectRef} (h : s.Kept r)
    (hfence : t.primary.volume.fence = s.primary.volume.fence)
    (hwritten : ∀ i, t.written i = s.written i ∨
      s.written i = none ∧ i.writerFence = s.primary.volume.fence) : t.Kept r := by
  have hsame : t.written r.identity = s.written r.identity := by
    rcases hwritten r.identity with heq | ⟨hnone, hown⟩
    · exact heq
    · rcases h.settled with hsome | hne
      · rw [hnone] at hsome
        cases hsome
      · exact absurd hown hne
  refine ⟨?_, ?_⟩
  · rw [hsame]
    exact h.names
  · rw [hsame, hfence]
    exact h.settled

/-- **Steps beside a capture.** -/
theorem RefsInv.mono (h : s.RefsInv) (hst : SameTenure s t)
    (hlive : ∀ record, t.Live record → s.Live record) : t.RefsInv := by
  have hphase : ∀ cut phase, s.PhaseRefs cut phase → t.PhaseRefs cut phase := by
    intro cut phase hphase
    cases phase <;>
      simp only [PhaseRefs, BatchBlobs, hst.id, hst.fence, hst.written] at hphase ⊢ <;> exact hphase
  refine ⟨fun i r hi => ?_, fun i blob hi => ?_, fun i bytes hi hf => ?_, fun record hr r hmem => ?_,
    fun cut phase hc => ?_⟩
  · rw [hst.written]
    exact h.table i r (hst.files i r hi)
  · rw [hst.written]
    exact h.disk i blob (hst.disk i blob hi)
  · have hbound : t.idBound = s.idBound := by
      simp only [idBound, hst.capture, hst.nextObjectId]
    rw [hst.written] at hi
    rw [hst.fence] at hf
    rw [hbound]
    exact h.ids i bytes hi hf
  · refine (h.held record (hlive record hr) r hmem).mono hst.fence fun i => .inl ?_
    rw [hst.written]
  · rw [hst.capture] at hc
    obtain ⟨hnext, hfirst, hrefs⟩ := h.cut cut phase hc
    refine ⟨?_, hfirst, hphase cut phase hrefs⟩
    rw [hst.nextObjectId]
    exact hnext

/-! ## One step of a capture -/

variable {p : Primary}

theorem RefsInv.reserve (h : s.RefsInv) {kind : CaptureKind} {checkpoint : Option Checkpoint}
    {prepared : List CompactionRescue} (hids : s.primary.volume.nextObjectId.toNat ≤ 2 ^ 62)
    (hs : s.primary.reserve kind checkpoint prepared = some p) : RefsInv { s with
      primary := p
      vmstates := s.noteCut (.reserve kind checkpoint prepared) } := by
  cases Primary.stepped (a := .reserve kind checkpoint prepared) hs with
  | reserve v' cut cache hidle _ hcut =>
  have hr := VolumeState.reserved hcut
  obtain ⟨nextSeq, nextObjectId, nextGen, rfl⟩ := hr.state
  refine ⟨h.table, h.disk, by simpa only [idBound, hidle, hr.firstObject] using h.ids,
    fun record hlive r hmem => ?_, ?_⟩
  · exact (h.held record hlive r hmem).mono rfl fun _ => .inl rfl
  · rintro _ _ ⟨⟩
    refine ⟨?_, ?_, trivial⟩
    · rw [hr.firstObject]
      exact hr.nextObjectId
    · rw [hr.firstObject]
      exact hids

theorem RefsInv.drain (h : s.RefsInv) {read : PageId → Bytes} (hs : s.primary.drain read = some p) :
    RefsInv { s with primary := p } := by
  cases Primary.stepped (a := .drain read) hs with | drain cut post blobs hcapture hbuild =>
  obtain ⟨objects, hbatch, hblobs⟩ := VolumeState.captureBatch_of_buildBatch hbuild
  obtain ⟨hnext, hfirst, -⟩ := h.cut cut _ hcapture
  refine ⟨h.table, h.disk, by simpa [idBound, hcapture] using h.ids,
    fun record hlive r hmem => ?_, ?_⟩
  · exact (h.held record hlive r hmem).mono rfl fun _ => .inl rfl
  · rintro _ _ ⟨⟩
    exact ⟨hnext, hfirst, objects, hblobs, hbatch⟩

/-- A file of the batch is written, under the next id. -/
theorem RefsInv.chunk (h : s.RefsInv) (hs : s.primary.chunk = some p) :
    RefsInv { s with primary := p, written := s.noteFile .chunk } := by
  cases Primary.stepped (a := .chunk) hs with
  | chunk cut post written remaining id bytes entries object cache hcapture hopen =>
  obtain ⟨hnext, hfirst, objects, hblobs, hbatch⟩ := h.cut cut _ hcapture
  set identity := ObjectIdentity.volume s.primary.id s.primary.volume.fence id with hidentity
  -- the file is the next one of the batch
  obtain ⟨o, hget, ho⟩ : ∃ o, objects[written.length]? = some o ∧
      o.blob s.primary.id s.primary.volume.fence = (id, bytes, entries) := by
    have hat := congrArg (fun l : List BlxBlob => l[written.length]?) hblobs
    simp only [List.getElem?_map, List.getElem?_append_right le_rfl, Nat.sub_self,
      List.getElem?_cons_zero] at hat
    exact Option.map_eq_some_iff.mp hat.symm
  have hmem := List.mem_of_getElem? hget
  have hin : identity = o.identity ∧ o = object ∧
      identity.objectId.toNat = cut.firstObject.toNat + written.length := by
    obtain ⟨pre, post', hb⟩ := hbatch
    simp only [BlxObject.blob, Prod.mk.injEq] at ho
    obtain ⟨rfl, rfl, -⟩ := ho
    obtain ⟨hkind, hvolume, hfence, -⟩ := hb.fields o hmem
    refine ⟨?_, Option.some.inj ((hb.opens o hmem).symm.trans hopen), hb.objectId _ _ hget⟩
    show identity = ⟨o.header.namespaceKind, o.header.namespaceId, o.header.writerFence,
      o.header.objectId⟩
    rw [hkind, hvolume, hfence]
    rfl
  obtain ⟨hself, rfl, hnumber⟩ := hin
  have hbytes := BlxObject.bytes_of_open hopen
  have hbound : s.idBound = cut.firstObject.toNat + written.length := by
    simp only [idBound, hcapture]
  have hnote : s.noteFile .chunk = Function.update s.written identity (some bytes) := by
    simp only [noteFile, hcapture]
    rfl
  have hadds : s.Adds identity bytes :=
    .of_next hnote (fun bytes hi => h.ids _ bytes hi rfl) (hnumber.trans hbound.symm)
  have hgrows : ∀ i, s.noteFile .chunk i = s.written i ∨
      s.written i = none ∧ i.writerFence = s.primary.volume.fence := by
    intro i
    rw [hnote, Function.update_apply]
    split
    · rename_i heq
      exact .inr ⟨heq ▸ hadds.fresh, heq ▸ rfl⟩
    · exact .inl rfl
  refine ⟨fun i r hi => ?_, fun i blob hi => ?_, fun i bytes' hi hf => ?_, fun record hlive r hr => ?_,
    ?_⟩
  · rw [VolumeState.files_noteChunk] at hi
    split at hi
    · rename_i heq
      obtain rfl := Option.some.inj hi
      refine ⟨heq ▸ hself.symm, o, ?_, ?_, rfl⟩
      · show s.noteFile .chunk o.identity = _
        rw [← hself, hadds.self, hbytes]
      · rw [hbytes]
        exact hopen
    · obtain ⟨hid, hin⟩ := h.table i r hi
      exact ⟨hid, hin.mono fun _ _ => hadds.keeps⟩
  · rw [Maps.getElem?_insert] at hi
    split at hi
    · rename_i heq
      obtain rfl := Option.some.inj hi
      rw [← heq]
      exact hadds.self
    · exact hadds.keeps (h.disk i blob hi)
  · simp only [idBound, List.length_append, List.length_singleton]
    rcases hadds.cases hi with ⟨rfl, -⟩ | hi
    · omega
    · have hid := h.ids i bytes' hi hf
      omega
  · exact (h.held record hlive r hr).mono rfl hgrows
  · rintro _ _ ⟨⟩
    refine ⟨hnext, hfirst, objects, ?_, hbatch⟩
    rw [List.append_assoc]
    exact hblobs

/-- The capture is given up before its first file. -/
theorem RefsInv.refuse (h : s.RefsInv) (hnone : s.primary.Unwritten)
    (hs : s.primary.refuse = some p) : RefsInv { s with primary := p } := by
  cases Primary.stepped (a := .refuse) hs with | refuse cut post written remaining cache hcapture =>
  obtain ⟨hnext, -, -⟩ := h.cut cut _ hcapture
  have hbound : s.idBound = cut.firstObject.toNat := by
    simp only [idBound, hcapture, hnone _ _ _ _ hcapture, List.length_nil, Nat.add_zero]
  refine ⟨h.table, h.disk, fun i bytes hi hf => ?_, fun record hlive r hr => ?_, by simp⟩
  · have hid := h.ids i bytes hi hf
    rw [hbound] at hid
    exact hid.trans_le (UInt64.le_iff_toNat_le.mp hnext)
  · exact (h.held record hlive r hr).mono rfl fun _ => .inl rfl

/-- The files of the record are in the table. -/
theorem RefsInv.record (h : s.RefsInv) (hs : s.primary.record = some p) :
    RefsInv { s with primary := p } := by
  cases Primary.stepped (a := .record) hs with | record cut post blobs hcapture =>
  obtain ⟨hnext, hfirst, hblobs⟩ := h.cut cut _ hcapture
  obtain ⟨vmm, hnote⟩ := exists_noteBatch s.primary.volume s.primary.id cut blobs
  simp only [hnote]
  refine ⟨h.table, h.disk, by simpa only [idBound, hcapture] using h.ids,
    fun record hlive r hr => ?_, ?_⟩
  · exact (h.held record hlive r hr).mono rfl fun _ => .inl rfl
  · rintro _ _ ⟨⟩
    rw [PhaseRefs, List.append_nil] at hblobs
    refine ⟨hnext, hfirst, hblobs, fun r hr => ?_⟩
    obtain ⟨⟨i, hi⟩, -⟩ := VolumeState.mem_recoveryFiles.mp hr
    exact (h.table i r hi).2

theorem RefsInv.writeRecord (h : s.RefsInv) (hs : s.primary.writeRecord = some p) :
    RefsInv { s with primary := p } := by
  cases Primary.stepped (a := .writeRecord) hs with
  | writeRecord cut record blobs bytes hcapture =>
  obtain ⟨hnext, hfirst, hrecord⟩ := h.cut cut _ hcapture
  refine ⟨h.table, h.disk, by simpa only [idBound, hcapture] using h.ids,
    fun record hlive r hr => ?_, ?_⟩
  · exact (h.held record hlive r hr).mono rfl fun _ => .inl rfl
  · rintro _ _ ⟨⟩
    exact ⟨hnext, hfirst, hrecord⟩

/-- The record becomes the newest one. -/
theorem RefsInv.commit (h : s.RefsInv) (hs : s.primary.commit = some p) :
    RefsInv { s with primary := p } := by
  cases Primary.stepped (a := .commit) hs with | commit cut record blobs pin hcapture =>
  obtain ⟨hnext, hfirst, ⟨objects, hblobs, hbatch⟩, hfiles⟩ := h.cut cut _ hcapture
  have hbound : s.idBound = cut.firstObject.toNat + blobs.length := by
    simp only [idBound, hcapture]
  refine ⟨h.table, h.disk, fun i bytes hi hf => ?_, fun made hlive r hr => ?_, by simp⟩
  · have hid := h.ids i bytes hi hf
    rw [hbound] at hid
    exact hid.trans_le (le_nextObjectId_commitRecord hbatch hnext hfirst hblobs)
  · rcases hlive with hpeer | hsending | hbest
    · exact (h.held made (.inl hpeer) r hr).mono rfl fun _ => .inl rfl
    · exact (h.held made (.inr (.inl hsending)) r hr).mono rfl fun _ => .inl rfl
    · obtain rfl : record = made := Option.some.inj hbest
      exact .of_inHistory (hfiles r hr)

/-- A capture starts while ids are far from running out, and is abandoned only before its first
file. -/
def SafeIds (s : Lineage) : CaptureStep → Prop
  | .reserve .. => s.primary.volume.nextObjectId.toNat ≤ 2 ^ 62
  | .refuse => s.primary.Unwritten
  | _ => True

/-- **One step of a capture.** -/
theorem RefsInv.capture (h : s.RefsInv) {a : CaptureStep} (hsafe : s.SafeIds a)
    (hs : s.capture a = some t) : t.RefsInv := by
  obtain ⟨p, hp, rfl⟩ := capture_eq_some hs
  cases a with
  | write | resolve | sync | delete | forget | reclaim =>
    obtain ⟨hst, hpeer⟩ := SameTenure.of_captureStep rfl hp
    refine h.mono hst fun record hlive => ?_
    rcases hlive with hlive | hsending | hbest
    · exact .inl (hpeer ▸ hlive)
    · exact .inr (.inl hsending)
    · exact .inr (.inr (hst.bestRecord ▸ hbest))
  | reserve kind checkpoint prepared => exact h.reserve hsafe hp
  | drain read => exact h.drain hp
  | chunk => exact h.chunk hp
  | refuse => exact h.refuse hsafe hp
  | record => exact h.record hp
  | writeRecord => exact h.writeRecord hp
  | commit => exact h.commit hp

/-! ## The other steps -/

/-- The steps of captures are safe. -/
def CapturesSafely (s : Lineage) : LineageStep → Prop
  | .capture a => s.SafeIds a
  | _ => True

/-- All other steps leave the files, the numbers and the disk alone, and make no record. -/
theorem sameTenure_of_step {a : LineageStep} (hlocal : a.isRestore = false)
    (hcapture : ∀ c, a ≠ .capture c) (hs : s.step bases a = some t) :
    SameTenure s t ∧ ∀ record, t.Live record → s.Live record := by
  cases a with
  | capture c => exact absurd rfl (hcapture c)
  | restore => cases hlocal
  | reset =>
    simp only [step, Lineage.reset] at hs
    split at hs
    · obtain rfl := Option.some.inj hs
      exact ⟨.refl s, fun _ => id⟩
    · obtain ⟨volume, hvolume, rfl⟩ := Option.map_eq_some_iff.mp hs
      obtain ⟨gen, checksum, rfl⟩ := exists_resetArchivedNonData hvolume
      exact ⟨{ SameTenure.refl s with }, fun _ => id⟩
  | assign =>
    obtain rfl := Option.some.inj hs
    refine ⟨{ SameTenure.refl s with }, fun record hlive => ?_⟩
    rcases hlive with hpeer | hsending | hbest
    · cases hpeer
    · cases hsending
    · exact .inr (.inr hbest)
  | send =>
    simp only [step, Lineage.send, bind_eq_some, ensure_eq_some, exists_const, pure_eq_some] at hs
    obtain ⟨-, sent, hsent, rfl⟩ := hs
    refine ⟨{ SameTenure.refl s with }, fun record hlive => ?_⟩
    rcases hlive with hpeer | hsending | hbest
    · exact .inl hpeer
    · exact .inr (.inr (hsent.trans hsending))
    · exact .inr (.inr hbest)
  | finishCommit =>
    simp only [step, Lineage.finishCommit, bind_eq_some] at hs
    obtain ⟨sent, hsent, hs⟩ := hs
    split at hs
    · obtain rfl := Option.some.inj hs
      refine ⟨{ SameTenure.refl s with }, fun record hlive => ?_⟩
      rcases hlive with hpeer | hsending | hbest
      · exact .inr (.inl (hsent.trans hpeer))
      · cases hsending
      · exact .inr (.inr hbest)
    · obtain rfl := Option.some.inj hs
      refine ⟨{ SameTenure.refl s with }, fun record hlive => ?_⟩
      rcases hlive with hpeer | hsending | hbest
      · exact .inl hpeer
      · cases hsending
      · exact .inr (.inr hbest)
  | publish =>
    simp only [step, Lineage.publish, bind_eq_some, ensure_eq_some, exists_const,
      pure_eq_some] at hs
    obtain ⟨-, snapshot, -, -, rfl⟩ := hs
    exact ⟨{ SameTenure.refl s with }, fun _ => id⟩
  | put =>
    simp only [step, Lineage.put] at hs
    split at hs
    · obtain ⟨remote, -, rfl⟩ := Option.map_eq_some_iff.mp hs
      exact ⟨{ SameTenure.refl s with }, fun _ => id⟩
    · cases hs
  | publishHead version =>
    simp only [step, Lineage.publishHead] at hs
    split at hs
    · simp only [bind_eq_some, pure_eq_some] at hs
      obtain ⟨-, -, rfl⟩ := hs
      exact ⟨{ SameTenure.refl s with }, fun _ => id⟩
    · cases hs
  | giveUp =>
    obtain rfl := Option.some.inj hs
    exact ⟨{ SameTenure.refl s with }, fun _ => id⟩

/-- **One step of the host.** -/
theorem RefsInv.localStep (h : s.RefsInv) {a : LineageStep} (hsafe : s.CapturesSafely a)
    (hs : s.localStep bases a = some t) : t.RefsInv := by
  rw [Lineage.localStep] at hs
  split at hs
  · cases hs
  rename_i hlocal
  by_cases hcapture : ∃ c, a = .capture c
  · obtain ⟨c, rfl⟩ := hcapture
    exact h.capture hsafe hs
  · obtain ⟨hst, hlive⟩ := sameTenure_of_step (by simpa using hlocal)
      (fun c hc => hcapture ⟨c, hc⟩) hs
    exact h.mono hst hlive

/-- What the invariant says about the references that are used. -/
theorem RefsInv.exactRefs (h : s.RefsInv) : s.ExactRefs where
  records := by
    intro record hrecord
    rw [made] at hrecord
    split at hrecord
    · rename_i cut made blobs hcapture
      obtain rfl : made = record := Option.some.inj hrecord
      exact (h.cut cut _ hcapture).phase.2
    · rename_i cut made blobs hcapture
      obtain rfl : made = record := Option.some.inj hrecord
      exact (h.cut cut _ hcapture).phase.2
    · cases hrecord
  snapshots := by
    intro snapshot hsnapshot r hr blob hblob
    have hlive : s.Live snapshot.record := by
      simp only [publishSnapshot, Option.bind_eq_bind, Option.pure_def] at hsnapshot
      split at hsnapshot
      · obtain ⟨record, hrecord, heq⟩ := bind_eq_some.mp hsnapshot
        exact .inl (hrecord.trans (congrArg (some ∘ PublishSnapshot.record) (Option.some.inj heq)))
      · obtain ⟨record, hrecord, heq⟩ := bind_eq_some.mp hsnapshot
        exact .inr (.inr (hrecord.trans
          (congrArg (some ∘ PublishSnapshot.record) (Option.some.inj heq))))
    obtain ⟨hmem, hown⟩ := List.mem_filter.mp hr
    obtain ⟨o, hopen, hfrom⟩ := (h.held _ hlive r hmem).names _ (h.disk _ _ hblob)
    rw [readFile, ObjectIdentity.volume_of_isOwn hown, hblob]
    simp only [some_bind, hopen, hfrom, ensure_true, Option.pure_def]

end Lineage

/-! ## The recovered volume -/

omit [Platform] in
theorem Disk.lt_of_maxAfter {numbers : List UInt64} {next n : UInt64}
    (h : maxAfter numbers = some next) (hn : n ∈ numbers) : n < next := by
  have hfold : ∀ (l : List UInt64) (m : UInt64),
      l.foldlM (fun greatest n => (checkedAdd n 1).map (max greatest)) m = some next →
        m ≤ next ∧ ∀ n ∈ l, n < next := by
    intro l
    induction l with
    | nil =>
      intro m hm
      exact ⟨(Option.some.inj hm).le, by simp⟩
    | cons a l ih =>
      intro m hm
      rw [List.foldlM_cons, bind_eq_some] at hm
      obtain ⟨_, hmax, hrest⟩ := hm
      obtain ⟨after, hafter, rfl⟩ := Option.map_eq_some_iff.mp hmax
      obtain ⟨hle, hl⟩ := ih _ hrest
      have hlt : a < after := by
        rw [UInt64.lt_iff_toNat_lt, toNat_of_checkedAdd hafter]
        exact Nat.lt_succ_self _
      refine ⟨(le_max_left _ _).trans hle, fun n hn => ?_⟩
      rcases List.mem_cons.mp hn with rfl | hn
      · exact hlt.trans_le ((le_max_right _ _).trans hle)
      · exact hl n hn
  exact (hfold numbers 0 h).2 n hn

namespace VolumeBlobs

variable {blobs : VolumeBlobs} {volume : VolumeId}

/-- The running volume has every file under its name. -/
theorem getElem?_disk_blx (volume : VolumeId) {fence : UInt64} {object : ObjectId} {bytes : Bytes}
    (h : blobs.blx[toLex (fence, object)]? = some bytes) :
    (blobs.disk volume).blx[ObjectIdentity.volume volume fence object]? = some ⟨0, bytes⟩ := by
  refine Maps.getElem?_foldl_insert_of_mem ?_ ?_
  · rw [files, List.map_map, List.pairwise_map]
    refine (Maps.pairwise_toList blobs.blx).imp fun {p q} hlt heq => hlt.ne ?_
    simp only [Function.comp_apply, ObjectIdentity.volume, ObjectIdentity.mk.injEq] at heq
    exact congrArg toLex (Prod.ext heq.2.2.1 heq.2.2.2)
  · rw [files, List.map_map]
    exact List.mem_map.mpr ⟨(toLex (fence, object), bytes),
      ExtTreeMap.mem_toList_iff_getElem?_eq_some.mpr h, rfl⟩

/-- Every file of the running volume has a name. -/
theorem exists_of_getElem?_disk_blx {i : ObjectIdentity} {blob : StoredBlx}
    (h : (blobs.disk volume).blx[i]? = some blob) : ∃ fence object,
      i = ObjectIdentity.volume volume fence object ∧
      blobs.blx[toLex (fence, object)]? = some blob.bytes := by
  rcases Maps.of_getElem?_foldl_insert h with hmem | hnone
  · simp only [files, List.map_map, List.mem_map, Function.comp_apply, Prod.mk.injEq] at hmem
    obtain ⟨⟨name, bytes⟩, hmem, rfl, rfl⟩ := hmem
    exact ⟨_, _, rfl, ExtTreeMap.mem_toList_iff_getElem?_eq_some.mp hmem⟩
  · simp at hnone

/-- The next id is above those of all files. -/
theorem lt_maxObjectId_of_scan {mode : ScanMode} {found : ScanFound}
    (h : blobs.scan mode volume = some found) {fence : UInt64} {object : ObjectId} {bytes : Bytes}
    (hfile : blobs.blx[toLex (fence, object)]? = some bytes) : object < found.maxObjectId := by
  simp only [scan, bind_eq_some, pure_eq_some] at h
  obtain ⟨_, -, maxObjectId, hmax, rfl⟩ := h
  refine Disk.lt_of_maxAfter hmax (List.mem_map.mpr ⟨(fence, object, bytes), ?_, rfl⟩)
  exact List.mem_map.mpr ⟨_, ExtTreeMap.mem_toList_iff_getElem?_eq_some.mpr hfile, rfl⟩

end VolumeBlobs

namespace ScanFound

variable {found : ScanFound} {volume : VolumeId} {chosen : JournalRecord} {watermark : UInt64}

@[simp] theorem blxRefs_recovered :
    (found.recovered volume chosen watermark).blxRefs = found.blxRefs := by
  rw [recovered]
  split <;> rfl

@[simp] theorem nextObjectId_recovered :
    (found.recovered volume chosen watermark).nextObjectId = found.maxObjectId := by
  rw [recovered]
  split <;> rfl

@[simp] theorem peerCommittedRecord_recovered :
    (found.recovered volume chosen watermark).peerCommittedRecord = none := by
  rw [recovered]
  split <;> rfl

end ScanFound

/-- **A volume that was recovered from the bytes of its files.** -/
theorem Lineage.refsInv_restarted {blobs : VolumeBlobs} {volume : VolumeId} {v : ServedVolume}
    {version : UInt64} {head : HeadRecord} {closure : List ObjectRef × Option BaseRef}
    {remote : Remote} (hfaithful : blobs.Faithful volume) (hinstalls : blobs.Installs .bytes volume v) :
    (Lineage.restarted volume blobs (v.attachHead volume version head closure) remote
      version).RefsInv := by
  obtain ⟨found, hscan, hrecover⟩ := hinstalls
  obtain ⟨record, hrestores⟩ := VolumeBlobs.restores_of_recover hscan hrecover
  obtain ⟨chosen, -, -, rfl⟩ := ScanFound.recover_eq_installed hrecover
  set watermark := max (found.usableWatermark volume) found.durabilityWatermark
  obtain rfl : chosen = record :=
    Option.some.inj (ScanFound.bestRecord_recovered.symm.trans hrestores.best)
  refine ⟨fun i r hi => ?_, fun i blob hi => ?_, fun i bytes hi hf => ?_, fun record hlive r hr => ?_,
    nofun⟩
  · -- what the scan has read of a file is what is in it
    have hget : found.blxRefs[i]? = some r := by
      rw [← ScanFound.blxRefs_recovered]
      exact hi
    rw [(VolumeBlobs.scan_eq_some hscan).2, ExtTreeMap.getElem?_map, Option.map_eq_some_iff] at hget
    obtain ⟨blx, hblx, rfl⟩ := hget
    obtain ⟨fence, object, bytes, rfl, hbytes, hread⟩ := VolumeBlobs.of_getElem?_readable hblx
    obtain ⟨o, hopen, rfl⟩ := Option.map_eq_some_iff.mp hread
    have hname := hfaithful.named fence object bytes o hbytes hopen
    refine ⟨hname, o, ?_, ?_, rfl⟩
    · show Option.map _ ((blobs.disk volume).blx[(ObjectRef.fromBlx o).identity]?) = _
      rw [hname, VolumeBlobs.getElem?_disk_blx volume hbytes, BlxObject.bytes_of_open hopen]
      rfl
    · rw [BlxObject.bytes_of_open hopen]
      exact hopen
  · exact Option.map_eq_some_iff.mpr ⟨blob, hi, rfl⟩
  · obtain ⟨blob, hblob, rfl⟩ := Option.map_eq_some_iff.mp hi
    obtain ⟨fence, object, rfl, hbytes⟩ := VolumeBlobs.exists_of_getElem?_disk_blx hblob
    show object.toNat < (found.recovered volume chosen watermark).nextObjectId.toNat
    rw [ScanFound.nextObjectId_recovered]
    exact UInt64.lt_iff_toNat_lt.mp (VolumeBlobs.lt_maxObjectId_of_scan hscan hbytes)
  · obtain rfl : chosen = record := by
      rcases hlive with hpeer | hsending | hbest
      · exact nomatch ScanFound.peerCommittedRecord_recovered.symm.trans hpeer
      · nomatch hsending
      · exact Option.some.inj (hrestores.best.symm.trans hbest)
    refine ⟨fun bytes hwritten => ?_, ?_⟩
    · obtain ⟨blob, hblob, rfl⟩ := Option.map_eq_some_iff.mp hwritten
      obtain ⟨fence, object, hid, hbytes⟩ := VolumeBlobs.exists_of_getElem?_disk_blx hblob
      refine hfaithful.listed chosen hrestores.onDisk r hr _ ?_
      rw [hid]
      exact hbytes
    · rcases hrestores.files r hr with ⟨hown, bytes, -, hbytes, -⟩ | ⟨-, holder⟩
      · left
        show (Option.map _ ((blobs.disk volume).blx[r.identity]?)).isSome = true
        have hget := VolumeBlobs.getElem?_disk_blx volume hbytes
        rw [ObjectIdentity.volume_of_isOwn hown] at hget
        rw [hget]
        rfl
      · right
        show r.identity.writerFence ≠ (found.recovered volume chosen watermark).fence
        rw [ScanFound.fence_recovered]
        exact holder.ne

/-- **The references a volume uses after a recovery are exact**, if the scan returns the bytes of the
files. -/
theorem recovered_refs_exact {bases : BaseRef → Option BaseManifest} {blobs : VolumeBlobs}
    {volume : VolumeId} {v : ServedVolume} {version : UInt64} {head : HeadRecord}
    {closure : List ObjectRef × Option BaseRef} {remote : Remote} {steps : List LineageStep}
    {t : Lineage} (hfaithful : blobs.Faithful volume) (hinstalls : blobs.Installs .bytes volume v)
    (hsafe : Run.Along (Lineage.localStep bases) Lineage.CapturesSafely
      (.restarted volume blobs (v.attachHead volume version head closure) remote version) steps)
    (hrun : Run.run (Lineage.localStep bases)
      (.restarted volume blobs (v.attachHead volume version head closure) remote version) steps =
        some t) : t.ExactRefs :=
  (Run.run_invariant (fun _ _ _ h hok hs => h.localStep hok hs)
    (Lineage.refsInv_restarted hfaithful hinstalls) hsafe hrun).exactRefs

/-! ## A file that no record lists -/

/-- The batch of a file with one deletion marker. -/
def orphanBatch : BatchMeta := ⟨.volume, 7, 1, 0, 1, 1, 0, 0, 0⟩

def orphanEntry : BlxEntry := .tombstone ⟨.data, 0⟩ 0

/-- A new volume, and a file whose record was not written any more. -/
def orphaned (record file : Bytes) : VolumeBlobs where
  journals := (∅ : ExtTreeMap (UInt64 ×ₗ JournalSeq ×ₗ Bool) Bytes).insert
    (toLex (1, toLex (0, false))) record
  blx := (∅ : ExtTreeMap (UInt64 ×ₗ ObjectId) Bytes).insert (toLex (1, 0)) file
  handoff := none

/-- A checkpoint right after the recovery. -/
def orphanSteps : List LineageStep :=
  [.capture (.reserve .checkpoint none []), .capture (.drain fun _ => []), .capture .record]

/-- The volume after its recovery. -/
def orphanState (record file : Bytes) (v : ServedVolume) : Lineage :=
  .restarted 7 (orphaned record file) (v.attachHead 7 4 confirming ([], none)) (fun _ => none) 4

end

section

attribute [local instance] storedPlatform

/-- The bytes of the file. -/
def orphanFile : Bytes :=
  ((encodeObject orphanBatch 0 0 1 [orphanEntry]).map BlxObject.bytes).getD []

/-- The bytes of the volume's first record. -/
def orphanRecord : Bytes := ((initialRecord ⟨.data, 1⟩ 1).encode 7).getD []

/-- The volume that the recovery installs, and what it becomes with the checkpoint. -/
def orphanRun (mode : ScanMode) : Option (ServedVolume × Lineage) :=
  ((orphaned orphanRecord orphanFile).install mode 7).bind fun v =>
    (Run.run (Lineage.localStep fun _ => none) (orphanState orphanRecord orphanFile v)
      orphanSteps).map fun t => (v, t)

theorem of_orphanRun {mode : ScanMode} {v : ServedVolume} {t : Lineage}
    (h : orphanRun mode = some (v, t)) :
    (orphaned orphanRecord orphanFile).Installs mode 7 v ∧
    Run.run (Lineage.localStep fun _ => none) (orphanState orphanRecord orphanFile v) orphanSteps =
      some t := by
  obtain ⟨v', hv, hrest⟩ := bind_eq_some.mp h
  obtain ⟨t', hrun, heq⟩ := Option.map_eq_some_iff.mp hrest
  obtain ⟨rfl, rfl⟩ := Prod.mk.inj heq
  exact ⟨VolumeBlobs.installs_of_install hv, hrun⟩

set_option maxRecDepth 20000 in
/-- The file has the name that its header gives, and no record lists a file. -/
theorem orphaned_faithful : (orphaned orphanRecord orphanFile).Faithful 7 := by
  have hopens : (BlxObject.open orphanFile).all (fun o =>
      decide ((ObjectRef.fromBlx o).identity = ObjectIdentity.volume 7 1 0)) = true := by
    decide +kernel
  have hrecords : (((orphaned orphanRecord orphanFile).decoded 7).all
      fun found => found.1.files.isEmpty) = true := by
    decide +kernel
  refine ⟨fun fence object file o hget hopen => ?_, fun record hrecord r hr => ?_⟩
  · rw [orphaned, Maps.getElem?_insert] at hget
    split at hget
    · rename_i heq
      obtain ⟨rfl, rfl⟩ := Prod.mk.inj (toLex.injective heq)
      obtain rfl := Option.some.inj hget
      exact of_decide_eq_true ((Option.all_eq_true _ _).mp hopens o hopen)
    · simp at hget
  · rw [← VolumeBlobs.mem_decoded] at hrecord
    obtain ⟨found, hfound, rfl⟩ := List.mem_map.mp hrecord
    rw [List.isEmpty_iff.mp (List.all_eq_true.mp hrecords found hfound)] at hr
    cases hr

/-- Ids are left for the checkpoint. -/
theorem along_orphanSteps {v : ServedVolume} (hobject : v.nextObjectId = 1) :
    Run.Along (Lineage.localStep fun _ => none) Lineage.CapturesSafely
      (orphanState orphanRecord orphanFile v) orphanSteps := by
  refine ⟨?_, fun _ _ => ⟨trivial, fun _ _ => ⟨trivial, fun _ _ => trivial⟩⟩⟩
  show v.nextObjectId.toNat ≤ 2 ^ 62
  rw [hobject]
  decide

set_option maxRecDepth 20000 in
/-- The bytes of the file are read, and the record names it as it is. -/
theorem recovered_refs_exact_orphaned :
    letI := storedPlatform
    ∃ (o : BlxObject) (bytes : Bytes) (v : ServedVolume) (t : Lineage) (record : JournalRecord),
      (orphaned bytes o.bytes).Installs .bytes 7 v ∧
      Run.run (Lineage.localStep fun _ => none) (orphanState bytes o.bytes v) orphanSteps = some t ∧
      t.made = some record ∧ .fromBlx o ∈ record.files ∧ t.ExactRefs := by
  have hevaluated : ((orphanRun .bytes).any fun (v, t) => v.nextObjectId = 1 ∧
      (t.made.any fun record => (BlxObject.open orphanFile).any fun o =>
        o.bytes = orphanFile ∧ .fromBlx o ∈ record.files) = true) = true := by
    decide +kernel
  obtain ⟨⟨v, t⟩, hvt, hchecks⟩ := (Option.any_eq_true _ _).mp hevaluated
  obtain ⟨hobject, hmade⟩ := of_decide_eq_true hchecks
  obtain ⟨record, hrecord, hfile⟩ := (Option.any_eq_true _ _).mp hmade
  obtain ⟨o, -, hfiles⟩ := (Option.any_eq_true _ _).mp hfile
  obtain ⟨hbytes, hmem⟩ := of_decide_eq_true hfiles
  obtain ⟨hinstalls, hrun⟩ := of_orphanRun hvt
  refine ⟨o, orphanRecord, v, t, record, hbytes ▸ hinstalls, hbytes ▸ hrun, hrecord, hmem, ?_⟩
  exact recovered_refs_exact orphaned_faithful hinstalls (along_orphanSteps hobject) hrun

end

set_option maxRecDepth 20000 in
/-- **Only the length of the file is read, and the record names it with a checksum of zero.** -/
theorem not_recovered_refs_exact : ¬ ∀ [Platform] (bases : BaseRef → Option BaseManifest)
    (blobs : VolumeBlobs) (mode : ScanMode) (volume : VolumeId) (v : ServedVolume)
    (version : UInt64) (head : HeadRecord) (closure : List ObjectRef × Option BaseRef)
    (remote : Remote) (steps : List LineageStep) (t : Lineage), blobs.Faithful volume →
    blobs.Installs mode volume v →
    Run.Along (Lineage.localStep bases) Lineage.CapturesSafely
      (.restarted volume blobs (v.attachHead volume version head closure) remote version) steps →
    Run.run (Lineage.localStep bases)
      (.restarted volume blobs (v.attachHead volume version head closure) remote version) steps =
        some t → t.ExactRefs := by
  intro h
  have hevaluated : letI := storedPlatform
      ((orphanRun .lengths).any fun (v, t) => v.nextObjectId = 1 ∧
        (t.made.any fun record => record.files.any fun r => (t.written r.identity).all fun bytes =>
          (BlxObject.open bytes).all fun o => ObjectRef.fromBlx o ≠ r) = true) = true := by
    decide +kernel
  let _ := storedPlatform
  obtain ⟨⟨v, t⟩, hvt, hchecks⟩ := (Option.any_eq_true _ _).mp hevaluated
  obtain ⟨hobject, hmade⟩ := of_decide_eq_true hchecks
  obtain ⟨record, hrecord, hfile⟩ := (Option.any_eq_true _ _).mp hmade
  obtain ⟨r, hr, hwrong⟩ := List.any_eq_true.mp hfile
  obtain ⟨hinstalls, hrun⟩ := of_orphanRun hvt
  have hexact := h _ _ _ _ _ _ _ _ _ _ _ orphaned_faithful hinstalls
    (along_orphanSteps hobject) hrun
  obtain ⟨o, hwritten, hopen, hfrom⟩ := hexact.records record hrecord r hr
  have hne := (Option.all_eq_true _ _).mp ((Option.all_eq_true _ _).mp hwrong _ hwritten) o hopen
  exact of_decide_eq_true hne hfrom

end Blockd
