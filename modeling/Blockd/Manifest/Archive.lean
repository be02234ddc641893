import Blockd.Head
import Blockd.Journal

/-!
# The archive's metadata

`manifest.rs`: what a volume's archive consists of.  A manifest names the base it is built on, a
complete list of the volume's own files, and the changes since that list; `currentFiles` puts them
together.  A head points to a manifest by its name and the checksum of its bytes.

* `Manifest.decode_encode`, `CompleteFileList.decode_encode`, `BaseRoot.decode_encode`,
  `BaseManifest.decode_encode` — what is written reads back;
* `validateFileStateChain` — the state checksums of the batches fit together;
* `boundManifest` — a manifest that is too large is replaced by one with a new complete list.
-/

set_option autoImplicit false

open Codec
open Std (ExtTreeMap)

namespace Blockd

def magicFileList : UInt32 := magicOf 'B' 'L' 'F' 'L'
def magicManifest : UInt32 := magicOf 'B' 'L' 'M' 'F'
def magicBaseManifest : UInt32 := magicOf 'B' 'L' 'B' 'M'
def magicBaseRoot : UInt32 := magicOf 'B' 'L' 'B' 'R'
def maxManifestBytes : Nat := 256 * 1024
def maxMetadataObjectBytes : Nat := 64 * 1024 * 1024
def formatVersion : UInt16 := 1

/-! ## References -/

/-- An immutable base, and the checksum of the state it holds. -/
structure BaseRef where
  baseId : UInt64
  manifestId : UInt64
  manifestChecksum : UInt64
  postStateChecksum : UInt64
  deriving DecidableEq, Repr

structure FileListRef where
  writerFence : UInt64
  listId : UInt64
  checksum : UInt64
  deriving DecidableEq, Repr

/-- What a restore gets: the machine as it was, or only its disk. -/
inductive RecoveryKind where
  | whole
  | diskOnly
  deriving DecidableEq, Repr

namespace RecoveryKind

def toByte : RecoveryKind → UInt8
  | whole => 0
  | diskOnly => 1

def decode (value : UInt8) : Option RecoveryKind :=
  if value = 0 then some whole else if value = 1 then some diskOnly else none

@[simp] theorem decode_toByte (k : RecoveryKind) : decode k.toByte = some k := by
  cases k <;> rfl

end RecoveryKind

/-- An optional reference has a fixed size: absent, its fields are zero. -/
def BaseRef.encode : Option BaseRef → Bytes
  | none => encU8 0 ++ encU64 0 ++ encU64 0 ++ encU64 0 ++ encU64 0
  | some r =>
    encU8 1 ++ encU64 r.baseId ++ encU64 r.manifestId ++ encU64 r.manifestChecksum ++
      encU64 r.postStateChecksum

def BaseRef.ofFields (tag : UInt8) (r : BaseRef) : Option (Option BaseRef) :=
  if tag = 0 ∧ r = ⟨0, 0, 0, 0⟩ then some none else if tag = 1 then some (some r) else none

def BaseRef.decode : Dec (Option BaseRef) := do
  let tag ← Dec.u8
  let baseId ← Dec.u64
  let manifestId ← Dec.u64
  let manifestChecksum ← Dec.u64
  let postStateChecksum ← Dec.u64
  Dec.ofOption (ofFields tag ⟨baseId, manifestId, manifestChecksum, postStateChecksum⟩)

theorem BaseRef.reads (r : Option BaseRef) : Reads decode (encode r) r := by
  cases r with
  | none =>
    simp only [encode, List.append_assoc]
    refine Reads.bind (Reads.u8 0) (Reads.bind (Reads.u64 0) (Reads.bind (Reads.u64 0) ?_))
    exact Reads.bind (Reads.u64 0) (Reads.bind_last (Reads.u64 0) (Reads.ofOption rfl))
  | some r =>
    simp only [encode, List.append_assoc]
    refine Reads.bind (Reads.u8 1) (Reads.bind (Reads.u64 _) (Reads.bind (Reads.u64 _) ?_))
    exact Reads.bind (Reads.u64 _) (Reads.bind_last (Reads.u64 _) (Reads.ofOption rfl))

def FileListRef.encode : Option FileListRef → Bytes
  | none => encU8 0 ++ encU64 0 ++ encU64 0 ++ encU64 0
  | some r => encU8 1 ++ encU64 r.writerFence ++ encU64 r.listId ++ encU64 r.checksum

def FileListRef.ofFields (tag : UInt8) (r : FileListRef) : Option (Option FileListRef) :=
  if tag = 0 ∧ r = ⟨0, 0, 0⟩ then some none else if tag = 1 then some (some r) else none

def FileListRef.decode : Dec (Option FileListRef) := do
  let tag ← Dec.u8
  let writerFence ← Dec.u64
  let listId ← Dec.u64
  let checksum ← Dec.u64
  Dec.ofOption (ofFields tag ⟨writerFence, listId, checksum⟩)

theorem FileListRef.reads (r : Option FileListRef) : Reads decode (encode r) r := by
  cases r with
  | none =>
    simp only [encode, List.append_assoc]
    refine Reads.bind (Reads.u8 0) (Reads.bind (Reads.u64 0) ?_)
    exact Reads.bind (Reads.u64 0) (Reads.bind_last (Reads.u64 0) (Reads.ofOption rfl))
  | some r =>
    simp only [encode, List.append_assoc]
    refine Reads.bind (Reads.u8 1) (Reads.bind (Reads.u64 _) ?_)
    exact Reads.bind (Reads.u64 _) (Reads.bind_last (Reads.u64 _) (Reads.ofOption rfl))

theorem BaseRef.length_encode (r : Option BaseRef) : (BaseRef.encode r).length = 33 := by
  cases r <;> rfl

theorem FileListRef.length_encode (r : Option FileListRef) :
    (FileListRef.encode r).length = 25 := by
  cases r <;> rfl

/-- The volume's shape as manifests write it; unlike a journal's it has a spare byte. -/
def VolumeConfig.encode (c : VolumeConfig) : Bytes :=
  encU8 c.kind.toByte ++ encU8 0 ++ encU32 c.pages

def VolumeConfig.decode : Dec VolumeConfig := do
  let kind ← Dec.ofOption (VolumeKind.decode (← Dec.u8))
  let spare ← Dec.u8
  Dec.require (spare == 0)
  let pages ← Dec.u32
  Dec.require (pages != 0)
  return ⟨kind, pages⟩

theorem VolumeConfig.reads {c : VolumeConfig} (h : c.pages ≠ 0) : Reads decode c.encode c := by
  simp only [encode, List.append_assoc]
  refine Reads.bind (Reads.u8 _) (Reads.ofOption_bind c.kind.decode_toByte ?_)
  refine Reads.bind (Reads.u8 0) (Reads.require_bind rfl ?_)
  exact Reads.bind_last (Reads.u32 _) (Reads.require_bind (bne_iff_ne.mpr h) (Reads.pure _))

/-! ## State checksums -/

/-- The state checksums before and after each batch. -/
abbrev StateBatches := ExtTreeMap (UInt64 ×ₗ UInt64) (UInt64 × UInt64)

def insertStateBatch (batches : StateBatches) (file : ObjectRef) : Option StateBatches :=
  let key := toLex (file.maxSeq, file.batchId)
  let state := (file.preStateChecksum, file.postStateChecksum)
  if batches[key]?.all (· == state) then some (batches.insert key state) else none

/-- Do the batches, in order, lead from the base's state to the manifest's?  A batch that leaves the
checksum as it was is a compaction, and stands for the whole state. -/
def validateFileStateChain (baseChecksum postStateChecksum : UInt64) (files : List ObjectRef) :
    Bool :=
  match files.foldlM insertStateBatch (∅ : StateBatches) with
  | none => false
  | some batches =>
    match batches.toList.map Prod.snd with
    | [] => postStateChecksum == baseChecksum
    | (pre, post) :: rest =>
      if rest.isEmpty && pre == post && post == postStateChecksum then true
      else if pre != post && pre != baseChecksum then false
      else
        rest.foldlM (fun checksum batch => if batch.1 == checksum then some batch.2 else none)
          post == some postStateChecksum

/-- The files of one batch lead from the state before it to the state after it. -/
theorem validateFileStateChain_of_batch {pre post maxSeq batchId : UInt64} {files : List ObjectRef}
    (hne : files ≠ []) (h : ∀ f ∈ files, f.maxSeq = maxSeq ∧ f.batchId = batchId ∧
      f.preStateChecksum = pre ∧ f.postStateChecksum = post) :
    validateFileStateChain pre post files = true := by
  let key : UInt64 ×ₗ UInt64 := toLex (maxSeq, batchId)
  let one : StateBatches := (∅ : StateBatches).insert key (pre, post)
  have hinsert : ∀ (batches : StateBatches), (∀ p ∈ batches[key]?, p = (pre, post)) →
      ∀ f ∈ files, insertStateBatch batches f = some (batches.insert key (pre, post)) := by
    intro batches hold f hf
    obtain ⟨hseq, hid, hpre, hpost⟩ := h f hf
    rw [insertStateBatch, hseq, hid, hpre, hpost]
    refine if_pos ?_
    rw [Option.all_eq_true]
    intro p hp
    exact beq_iff_eq.mpr (hold p hp)
  have hone : one.insert key (pre, post) = one := by
    refine ExtTreeMap.ext_getElem? fun k => ?_
    rw [Maps.getElem?_insert]
    split
    · rename_i hk
      rw [← hk]
      exact ExtTreeMap.getElem?_insert_self.symm
    · rfl
  have hfold : ∀ rest : List ObjectRef, (∀ f ∈ rest, f ∈ files) →
      rest.foldlM insertStateBatch one = some one := by
    intro rest
    induction rest with
    | nil => exact fun _ => rfl
    | cons f rest ih =>
      intro hrest
      rw [List.foldlM_cons, hinsert one ?_ f (hrest f List.mem_cons_self), hone, some_bind]
      · exact ih fun g hg => hrest g (List.mem_cons_of_mem _ hg)
      · intro p hp
        rw [ExtTreeMap.getElem?_insert_self] at hp
        exact (Option.some.inj hp).symm
  obtain ⟨f, rest, rfl⟩ := List.exists_cons_of_ne_nil hne
  have hbatches : (f :: rest).foldlM insertStateBatch (∅ : StateBatches) = some one := by
    rw [List.foldlM_cons, hinsert ∅ (by simp) f List.mem_cons_self, some_bind]
    exact hfold rest fun g hg => List.mem_cons_of_mem _ hg
  have hlist : one.toList.map Prod.snd = [(pre, post)] := rfl
  rw [validateFileStateChain, hbatches]
  simp only [hlist]
  by_cases hpre : pre = post
  · simp [hpre]
  · simp [hpre]

/-- The loop over the files goes through when the files of a batch agree on its states, and collects
the states of every batch. -/
theorem foldlM_insertStateBatch {files : List ObjectRef} {start out : StateBatches} :
    files.foldlM insertStateBatch start = some out ↔ ∀ k v, out[k]? = some v ↔
      start[k]? = some v ∨ ∃ f ∈ files, toLex (f.maxSeq, f.batchId) = k ∧
        (f.preStateChecksum, f.postStateChecksum) = v := by
  induction files generalizing start with
  | nil =>
    simp only [List.foldlM_nil, pure_eq_some, List.not_mem_nil, false_and, exists_false, or_false]
    refine ⟨fun h k v => h ▸ Iff.rfl, fun h => ExtTreeMap.ext_getElem? fun k => Option.ext fun v => ?_⟩
    exact (h k v).symm
  | cons f files ih =>
    rw [List.foldlM_cons, insertStateBatch]
    by_cases hfits : start[toLex (f.maxSeq, f.batchId)]?.all
        (· == (f.preStateChecksum, f.postStateChecksum)) = true
    · rw [if_pos hfits, some_bind, ih]
      refine forall₂_congr fun k v => iff_congr Iff.rfl ?_
      rw [Maps.getElem?_insert, List.exists_mem_cons_iff, ← or_assoc]
      refine or_congr_left ?_
      by_cases hk : toLex (f.maxSeq, f.batchId) = k
      · subst hk
        rw [if_pos rfl, Option.some.injEq, and_iff_right rfl]
        refine ⟨.inr, fun h => h.elim (fun hold => ?_) id⟩
        rw [hold, Option.all_some, beq_iff_eq] at hfits
        exact hfits.symm
      · rw [if_neg hk, or_iff_left fun h => hk h.1]
    · rw [if_neg hfits, Option.bind_eq_bind, Option.bind_none]
      refine iff_of_false nofun fun h => hfits ?_
      rw [Option.all_eq_true]
      intro v hv
      have hold := (h _ v).mpr (.inl hv)
      rw [(h _ _).mpr (.inr ⟨f, List.mem_cons_self, rfl, rfl⟩), Option.some.injEq] at hold
      exact beq_iff_eq.mpr hold.symm

/-- The chain is one of the files, however they are ordered. -/
theorem validateFileStateChain_congr {files files' : List ObjectRef}
    (h : ∀ f, f ∈ files ↔ f ∈ files') (baseChecksum postStateChecksum : UInt64) :
    validateFileStateChain baseChecksum postStateChecksum files =
      validateFileStateChain baseChecksum postStateChecksum files' := by
  have hfold : files.foldlM insertStateBatch (∅ : StateBatches) =
      files'.foldlM insertStateBatch ∅ := by
    refine Option.ext fun out => ?_
    rw [foldlM_insertStateBatch, foldlM_insertStateBatch]
    simp only [h]
  rw [validateFileStateChain, validateFileStateChain, hfold]

/-! ## File lists -/

structure CompleteFileList where
  volume : VolumeId
  writerFence : UInt64
  listId : UInt64
  objects : List ObjectRef
  deriving DecidableEq

namespace CompleteFileList

/-- The list without its own checksum. -/
def content (l : CompleteFileList) : Bytes :=
  encU16 formatVersion ++ encU64 l.volume ++ encU64 l.writerFence ++ encU64 l.listId ++
  encU32 (UInt32.ofNat l.objects.length) ++ l.objects.flatMap ObjectRef.encode

def payload (l : CompleteFileList) : Bytes := l.content ++ encU64 (checksum64 l.content)

variable [Platform]

def encode (l : CompleteFileList) : Option Bytes := do
  ensure (validateObjectRefs l.objects = true)
  ensure (l.objects.length < 2 ^ 32)
  let bytes ← sealFrame magicFileList l.payload
  ensure (bytes.length ≤ maxMetadataObjectBytes)
  return bytes

def reference (l : CompleteFileList) : Option FileListRef :=
  l.encode.map fun bytes => ⟨l.writerFence, l.listId, checksum64 bytes⟩

def payloadDec (expected : FileListRef) (volume : VolumeId) : Dec CompleteFileList := do
  let version ← Dec.u16
  Dec.require (version == formatVersion)
  let owner ← Dec.u64
  Dec.require (owner == volume)
  let writerFence ← Dec.u64
  let listId ← Dec.u64
  Dec.require (writerFence == expected.writerFence && listId == expected.listId)
  let count ← Dec.u32
  let objects ← Dec.repeatN ObjectRef.decodeFrom count.toNat
  let stored ← Dec.u64
  Dec.finish
  let list : CompleteFileList := ⟨volume, writerFence, listId, objects⟩
  Dec.require (checksum64 list.content == stored)
  Dec.require (validateObjectRefs objects)
  return list

def decode (expected : FileListRef) (volume : VolumeId) (bytes : Bytes) :
    Option CompleteFileList := do
  ensure (bytes.length ≤ maxMetadataObjectBytes ∧ checksum64 bytes = expected.checksum)
  let payload ← openFrame magicFileList bytes
  (payloadDec expected volume).decode payload

variable {l : CompleteFileList}

theorem encode_eq_some {bytes : Bytes} :
    l.encode = some bytes ↔ validateObjectRefs l.objects = true ∧ l.objects.length < 2 ^ 32 ∧
      sealFrame magicFileList l.payload = some bytes ∧ bytes.length ≤ maxMetadataObjectBytes := by
  simp only [encode, bind_eq_some, ensure_eq_some, exists_const, pure_eq_some]
  constructor
  · rintro ⟨hv, hc, b, hs, hl, rfl⟩
    exact ⟨hv, hc, hs, hl⟩
  · rintro ⟨hv, hc, hs, hl⟩
    exact ⟨hv, hc, bytes, hs, hl, rfl⟩

theorem decodes_payload {expected : FileListRef}
    (hname : (expected.writerFence, expected.listId) = (l.writerFence, l.listId))
    (hvalid : validateObjectRefs l.objects = true) (hcount : l.objects.length < 2 ^ 32)
    (hfiles : ∀ f ∈ l.objects, f.WellFormed) :
    Decodes (payloadDec expected l.volume) l.payload l := by
  obtain ⟨hf, hi⟩ := Prod.mk.inj hname
  have hlen : (UInt32.ofNat l.objects.length).toNat = l.objects.length := toNat_ofNat32 hcount
  simp only [payload, content, List.append_assoc]
  refine Decodes.bind (Reads.u16 _) (Decodes.require_bind rfl ?_)
  refine Decodes.bind (Reads.u64 _) (Decodes.require_bind (beq_self_eq_true _) ?_)
  refine Decodes.bind (Reads.u64 _) (Decodes.bind (Reads.u64 _) ?_)
  refine Decodes.require_bind (by simp [hf, hi]) (Decodes.bind (Reads.u32 _) ?_)
  rw [hlen]
  refine Decodes.bind (Reads.repeatN l.objects fun f hf => ObjectRef.reads (hfiles f hf)) ?_
  refine Decodes.bind_last (Reads.u64 _) (Decodes.finish_bind ?_)
  refine Decodes.require_bind ?_ (Decodes.require_bind hvalid (Decodes.pure _))
  simp only [content, List.append_assoc, beq_self_eq_true]

/-- **A file list reads back through its own reference.** -/
theorem decode_encode {bytes : Bytes} {expected : FileListRef} (h : l.encode = some bytes)
    (href : l.reference = some expected) (hfiles : ∀ f ∈ l.objects, f.WellFormed) :
    decode expected l.volume bytes = some l := by
  rw [reference, h, Option.map_some, Option.some.injEq] at href
  subst href
  obtain ⟨hvalid, hcount, hseal, hlen⟩ := encode_eq_some.mp h
  have hpayload : (payloadDec ⟨l.writerFence, l.listId, checksum64 bytes⟩ l.volume).decode
      l.payload = some l := (decodes_payload rfl hvalid hcount hfiles).decode
  simp only [decode, openFrame_sealFrame hseal, hpayload, ensure, hlen, and_self,
    Option.bind_eq_bind, if_true, Option.bind_some]

end CompleteFileList

/-! ## Manifests -/

structure Manifest where
  volume : VolumeId
  writerFence : UInt64
  /-- The record of which this is the archive. -/
  journalSeq : UInt64
  /-- The number of this publication. -/
  archiveSeq : UInt64
  captureSeq : UInt64
  syncCoveredThrough : UInt64
  recoveryKind : RecoveryKind
  checkpointEpoch : Epoch
  config : VolumeConfig
  vmstateLogicalLength : UInt64
  base : Option BaseRef
  completeList : Option FileListRef
  postStateChecksum : UInt64
  /-- Checksum of the journal record's bytes. -/
  metadataChecksum : UInt64
  added : List ObjectRef
  removed : List ObjectIdentity
  deriving DecidableEq

namespace Manifest

/-- The pointer to a manifest with these bytes. -/
def pointer (m : Manifest) (encoded : Bytes) : ManifestPtr :=
  ⟨m.writerFence, m.journalSeq, m.archiveSeq, m.captureSeq, checksum64 encoded⟩

variable [Platform]

def encodeManifestPrefix (m : Manifest) : Bytes :=
  encU16 formatVersion ++ encU64 m.volume ++ encU64 m.writerFence ++ encU64 m.journalSeq ++
  encU64 m.archiveSeq ++ encU64 m.captureSeq ++ encU64 m.syncCoveredThrough ++
  encU8 m.recoveryKind.toByte ++ encU64 m.checkpointEpoch ++ encU32 pageSizeField ++
  m.config.encode ++ encU64 m.vmstateLogicalLength ++ BaseRef.encode m.base ++
  FileListRef.encode m.completeList ++ encU64 m.postStateChecksum ++ encU64 m.metadataChecksum

def payload (m : Manifest) : Bytes :=
  encodeManifestPrefix m ++
  encU32 (UInt32.ofNat m.added.length) ++ m.added.flatMap ObjectRef.encode ++
  encU32 (UInt32.ofNat m.removed.length) ++ m.removed.flatMap ObjectIdentity.encode

/-- `validate_manifest_shape`. -/
def validateShape (m : Manifest) : Bool :=
  decide (m.syncCoveredThrough ≤ m.captureSeq) && !(m.completeList.isNone && !m.removed.isEmpty) &&
  validateObjectRefs m.added && decide (m.added.map ObjectRef.identity).Nodup &&
  decide m.removed.Nodup && m.added.all fun object => !m.removed.contains object.identity

/-- The bytes of a manifest, if it is not too large; a manifest of the wrong shape has none. -/
def encode (m : Manifest) : Option Bytes := do
  ensure (m.validateShape = true)
  ensure (m.added.length < 2 ^ 32)
  ensure (m.removed.length < 2 ^ 32)
  let bytes ← sealFrame magicManifest m.payload
  ensure (bytes.length ≤ maxManifestBytes)
  return bytes

/-- The manifest up to its change arrays. -/
def decodeManifestPrefix (volume : VolumeId) : Dec Manifest := do
  let version ← Dec.u16
  Dec.require (version == formatVersion)
  let owner ← Dec.u64
  Dec.require (owner == volume)
  let writerFence ← Dec.u64
  let journalSeq ← Dec.u64
  let archiveSeq ← Dec.u64
  let captureSeq ← Dec.u64
  let syncCoveredThrough ← Dec.u64
  let recoveryKind ← Dec.ofOption (RecoveryKind.decode (← Dec.u8))
  let checkpointEpoch ← Dec.u64
  let size ← Dec.u32
  Dec.require (size == pageSizeField)
  let config ← VolumeConfig.decode
  let vmstateLogicalLength ← Dec.u64
  let base ← BaseRef.decode
  let completeList ← FileListRef.decode
  let postStateChecksum ← Dec.u64
  let metadataChecksum ← Dec.u64
  return ⟨volume, writerFence, journalSeq, archiveSeq, captureSeq, syncCoveredThrough, recoveryKind,
    checkpointEpoch, config, vmstateLogicalLength, base, completeList, postStateChecksum,
    metadataChecksum, [], []⟩

def payloadDec (volume : VolumeId) : Dec Manifest := do
  let manifest ← decodeManifestPrefix volume
  let addedCount ← Dec.u32
  let added ← Dec.repeatN ObjectRef.decodeFrom addedCount.toNat
  let removedCount ← Dec.u32
  let removed ← Dec.repeatN ObjectIdentity.decode removedCount.toNat
  Dec.finish
  return { manifest with added, removed }

def decode (volume : VolumeId) (bytes : Bytes) : Option Manifest := do
  ensure (bytes.length ≤ maxManifestBytes)
  let payload ← openFrame magicManifest bytes
  let manifest ← (payloadDec volume).decode payload
  ensure (manifest.validateShape = true)
  return manifest

/-- The files of the archive: the complete list with the changes applied. -/
def currentFiles (m : Manifest) (completeList : Option CompleteFileList) :
    Option (List ObjectRef) := do
  ensure (m.completeList = completeList.bind CompleteFileList.reference ∧
    m.completeList.isSome = completeList.isSome)
  let listed := (completeList.map CompleteFileList.objects).getD []
  let start := listed.foldl (fun files object => files.insert object.identity object)
    (∅ : ExtTreeMap ObjectIdentity ObjectRef)
  let kept ← m.removed.foldlM
    (fun files identity => if files.contains identity then some (files.erase identity) else none)
    start
  let files ← m.added.foldlM
    (fun files object =>
      if files.contains object.identity then none else some (files.insert object.identity object))
    kept
  let files := files.toList.map Prod.snd
  ensure (validateObjectRefs files = true)
  ensure (validateFileStateChain ((m.base.map BaseRef.postStateChecksum).getD 0)
    m.postStateChecksum files = true)
  return files

variable {m : Manifest}

theorem encode_eq_some {bytes : Bytes} :
    m.encode = some bytes ↔ m.validateShape = true ∧ m.added.length < 2 ^ 32 ∧
      m.removed.length < 2 ^ 32 ∧ sealFrame magicManifest m.payload = some bytes ∧
      bytes.length ≤ maxManifestBytes := by
  simp only [encode, bind_eq_some, ensure_eq_some, exists_const, pure_eq_some, ← and_assoc,
    exists_eq_right]

theorem reads_manifestPrefix (hpages : m.config.pages ≠ 0) :
    Reads (decodeManifestPrefix m.volume) m.encodeManifestPrefix
      { m with added := [], removed := [] } := by
  simp only [encodeManifestPrefix, List.append_assoc]
  refine Reads.bind (Reads.u16 _) (Reads.require_bind rfl ?_)
  refine Reads.bind (Reads.u64 _) (Reads.require_bind (beq_self_eq_true _) ?_)
  refine Reads.bind (Reads.u64 _) (Reads.bind (Reads.u64 _) (Reads.bind (Reads.u64 _) ?_))
  refine Reads.bind (Reads.u64 _) (Reads.bind (Reads.u64 _) (Reads.bind (Reads.u8 _) ?_))
  refine Reads.ofOption_bind m.recoveryKind.decode_toByte (Reads.bind (Reads.u64 _) ?_)
  refine Reads.bind (Reads.u32 _) (Reads.require_bind (beq_self_eq_true _) ?_)
  refine Reads.bind (VolumeConfig.reads hpages) (Reads.bind (Reads.u64 _) ?_)
  refine Reads.bind (BaseRef.reads _) (Reads.bind (FileListRef.reads _) ?_)
  exact Reads.bind (Reads.u64 _) (Reads.bind_last (Reads.u64 _) (Reads.pure _))

theorem decodes_payload (hpages : m.config.pages ≠ 0) (hadded : m.added.length < 2 ^ 32)
    (hremoved : m.removed.length < 2 ^ 32) (hfiles : ∀ f ∈ m.added, f.WellFormed) :
    Decodes (payloadDec m.volume) m.payload m := by
  have ha : (UInt32.ofNat m.added.length).toNat = m.added.length := toNat_ofNat32 hadded
  have hr : (UInt32.ofNat m.removed.length).toNat = m.removed.length := toNat_ofNat32 hremoved
  simp only [payload, List.append_assoc]
  refine Decodes.bind (reads_manifestPrefix hpages) (Decodes.bind (Reads.u32 _) ?_)
  rw [ha]
  refine Decodes.bind (Reads.repeatN m.added fun f hf => ObjectRef.reads (hfiles f hf)) ?_
  refine Decodes.bind (Reads.u32 _) ?_
  rw [hr]
  refine Decodes.bind_last (Reads.repeatN m.removed fun i _ => ObjectIdentity.reads i) ?_
  exact Decodes.finish_bind (Decodes.pure _)

/-- **A manifest reads back as it was written.** -/
theorem decode_encode {bytes : Bytes} (h : m.encode = some bytes) (hpages : m.config.pages ≠ 0)
    (hfiles : ∀ f ∈ m.added, f.WellFormed) : decode m.volume bytes = some m := by
  obtain ⟨hshape, hadded, hremoved, hseal, hlen⟩ := encode_eq_some.mp h
  have hpayload := (decodes_payload hpages hadded hremoved hfiles).decode
  simp only [decode, openFrame_sealFrame hseal, hpayload, ensure, hlen, hshape,
    Option.bind_eq_bind, if_true, Option.bind_some]
  rfl

/-- A manifest without changes is small. -/
theorem exists_encode_of_unchanged (hadded : m.added = []) (hremoved : m.removed = [])
    (hsync : m.syncCoveredThrough ≤ m.captureSeq) : ∃ bytes, m.encode = some bytes := by
  have hlen : m.payload.length = 159 := by
    simp only [payload, encodeManifestPrefix, VolumeConfig.encode, List.length_append, length_encU8,
      length_encU16, length_encU32, length_encU64, BaseRef.length_encode, FileListRef.length_encode,
      hadded, hremoved, List.flatMap_nil, List.length_nil]
  have hshape : m.validateShape = true := by
    simp only [validateShape, hadded, hremoved, hsync, decide_true, List.isEmpty_nil, Bool.not_true,
      Bool.and_false, Bool.not_false, List.map_nil, List.nodup_nil, List.all_nil, Bool.and_true,
      Bool.true_and]
    rfl
  obtain ⟨bytes, hseal⟩ := exists_sealFrame magicManifest m.payload (by omega)
  refine ⟨bytes, encode_eq_some.mpr ⟨hshape, by simp [hadded], by simp [hremoved], hseal, ?_⟩⟩
  rw [length_of_sealFrame hseal, hlen]
  decide

end Manifest

/-- A manifest with the list it names and the files they stand for. -/
structure ManifestClosure where
  manifest : Manifest
  completeList : Option CompleteFileList
  files : List ObjectRef

section

variable [Platform]

def ManifestClosure.decode (volume : VolumeId) (pointer : ManifestPtr) (manifestBytes : Bytes)
    (completeListBytes : Option Bytes) : Option ManifestClosure := do
  ensure (checksum64 manifestBytes = pointer.checksum)
  let manifest ← Manifest.decode volume manifestBytes
  ensure ((manifest.writerFence, manifest.journalSeq, manifest.archiveSeq, manifest.captureSeq) =
    (pointer.fence, pointer.journalSeq, pointer.seq, pointer.captureSeq))
  let completeList ←
    match manifest.completeList, completeListBytes with
    | none, none => some none
    | some reference, some bytes => (CompleteFileList.decode reference volume bytes).map some
    | _, _ => none
  let files ← manifest.currentFiles completeList
  return ⟨manifest, completeList, files⟩

/-- A manifest without a file list reads back, through its own pointer, with its files. -/
theorem ManifestClosure.decode_encode {m : Manifest} {bytes : Bytes} {files : List ObjectRef}
    (h : m.encode = some bytes) (hpages : m.config.pages ≠ 0) (hadded : ∀ f ∈ m.added, f.WellFormed)
    (hlist : m.completeList = none) (hfiles : m.currentFiles none = some files) :
    ManifestClosure.decode m.volume (m.pointer bytes) bytes none = some ⟨m, none, files⟩ := by
  simp only [decode, Manifest.pointer, Manifest.decode_encode h hpages hadded, hlist, hfiles,
    ensure_true, some_bind, Option.pure_def]

/-- What `bound_manifest` returns: the manifest, and the list that had to be made for it. -/
structure BoundedManifest where
  manifest : Manifest
  newCompleteList : Option CompleteFileList

/-- Enforce the limit of a manifest's size.  One that fits is left alone; otherwise the files it
stands for become a new complete list and both change arrays are cleared. -/
def boundManifest (m : Manifest) (currentCompleteList : Option CompleteFileList)
    (newListId : UInt64) : Option BoundedManifest := do
  ensure (m.validateShape = true)
  if m.encode.isSome then return ⟨m, none⟩
  else
    let objects ← m.currentFiles currentCompleteList
    let list : CompleteFileList := ⟨m.volume, m.writerFence, newListId, objects⟩
    let reference ← list.reference
    let manifest := { m with completeList := some reference, added := [], removed := [] }
    ensure (manifest.encode.isSome = true)
    return ⟨manifest, some list⟩

end

/-! ## Bases -/

structure BaseRoot where
  baseId : UInt64
  manifestId : UInt64
  manifestChecksum : UInt64
  postStateChecksum : UInt64
  deriving DecidableEq, Repr

namespace BaseRoot

def asBaseRef (r : BaseRoot) : BaseRef :=
  ⟨r.baseId, r.manifestId, r.manifestChecksum, r.postStateChecksum⟩

def payload (r : BaseRoot) : Bytes :=
  encU16 formatVersion ++ encU64 r.baseId ++ encU64 r.manifestId ++ encU64 r.manifestChecksum ++
  encU64 r.postStateChecksum

def encode (r : BaseRoot) : Option Bytes := sealFrame magicBaseRoot r.payload

def payloadDec (baseId : UInt64) : Dec BaseRoot := do
  let version ← Dec.u16
  Dec.require (version == formatVersion)
  let owner ← Dec.u64
  Dec.require (owner == baseId)
  let manifestId ← Dec.u64
  let manifestChecksum ← Dec.u64
  let postStateChecksum ← Dec.u64
  Dec.finish
  return ⟨baseId, manifestId, manifestChecksum, postStateChecksum⟩

def decode (baseId : UInt64) (bytes : Bytes) : Option BaseRoot := do
  let payload ← openFrame magicBaseRoot bytes
  (payloadDec baseId).decode payload

theorem decodes_payload (r : BaseRoot) : Decodes (payloadDec r.baseId) r.payload r := by
  simp only [payload, List.append_assoc]
  refine Decodes.bind (Reads.u16 _) (Decodes.require_bind rfl ?_)
  refine Decodes.bind (Reads.u64 _) (Decodes.require_bind (beq_self_eq_true _) ?_)
  refine Decodes.bind (Reads.u64 _) (Decodes.bind (Reads.u64 _) ?_)
  exact Decodes.bind_last (Reads.u64 _) (Decodes.finish_bind (Decodes.pure _))

end BaseRoot

/-- The root a reference to a base stands for. -/
def BaseRef.root (r : BaseRef) : BaseRoot :=
  ⟨r.baseId, r.manifestId, r.manifestChecksum, r.postStateChecksum⟩

structure BaseManifest where
  baseId : UInt64
  manifestId : UInt64
  captureSeq : UInt64
  syncCoveredThrough : UInt64
  recoveryKind : RecoveryKind
  checkpointEpoch : Epoch
  config : VolumeConfig
  vmstateLogicalLength : UInt64
  postStateChecksum : UInt64
  metadataChecksum : UInt64
  objects : List ObjectRef

namespace BaseManifest

variable [Platform]

def payload (m : BaseManifest) : Bytes :=
  encU16 formatVersion ++ encU64 m.baseId ++ encU64 m.manifestId ++ encU64 m.captureSeq ++
  encU64 m.syncCoveredThrough ++ encU8 m.recoveryKind.toByte ++ encU64 m.checkpointEpoch ++
  encU32 pageSizeField ++ m.config.encode ++ encU64 m.vmstateLogicalLength ++
  encU64 m.postStateChecksum ++ encU64 m.metadataChecksum ++
  encU32 (UInt32.ofNat m.objects.length) ++ m.objects.flatMap ObjectRef.encode

def encode (m : BaseManifest) : Option Bytes := do
  ensure (validateObjectRefs m.objects = true)
  ensure (m.syncCoveredThrough ≤ m.captureSeq)
  ensure (m.objects.length < 2 ^ 32)
  let bytes ← sealFrame magicBaseManifest m.payload
  ensure (bytes.length ≤ maxMetadataObjectBytes)
  return bytes

/-- The root that names a manifest by the checksum of its bytes. -/
def root (m : BaseManifest) : Option BaseRoot :=
  m.encode.map fun bytes => ⟨m.baseId, m.manifestId, checksum64 bytes, m.postStateChecksum⟩

def payloadDec (root : BaseRoot) : Dec BaseManifest := do
  let version ← Dec.u16
  Dec.require (version == formatVersion)
  let baseId ← Dec.u64
  Dec.require (baseId == root.baseId)
  let manifestId ← Dec.u64
  Dec.require (manifestId == root.manifestId)
  let captureSeq ← Dec.u64
  let syncCoveredThrough ← Dec.u64
  let recoveryKind ← Dec.ofOption (RecoveryKind.decode (← Dec.u8))
  let checkpointEpoch ← Dec.u64
  let size ← Dec.u32
  Dec.require (size == pageSizeField)
  let config ← VolumeConfig.decode
  let vmstateLogicalLength ← Dec.u64
  let postStateChecksum ← Dec.u64
  let metadataChecksum ← Dec.u64
  let count ← Dec.u32
  let objects ← Dec.repeatN ObjectRef.decodeFrom count.toNat
  Dec.finish
  Dec.require (decide (syncCoveredThrough ≤ captureSeq))
  Dec.require (postStateChecksum == root.postStateChecksum)
  Dec.require (validateObjectRefs objects)
  return ⟨root.baseId, root.manifestId, captureSeq, syncCoveredThrough, recoveryKind,
    checkpointEpoch, config, vmstateLogicalLength, postStateChecksum, metadataChecksum, objects⟩

def decode (root : BaseRoot) (bytes : Bytes) : Option BaseManifest := do
  ensure (bytes.length ≤ maxMetadataObjectBytes ∧ checksum64 bytes = root.manifestChecksum)
  let payload ← openFrame magicBaseManifest bytes
  (payloadDec root).decode payload

theorem encode_eq_some {m : BaseManifest} {bytes : Bytes} :
    m.encode = some bytes ↔ validateObjectRefs m.objects = true ∧
      m.syncCoveredThrough ≤ m.captureSeq ∧ m.objects.length < 2 ^ 32 ∧
      sealFrame magicBaseManifest m.payload = some bytes ∧
      bytes.length ≤ maxMetadataObjectBytes := by
  simp only [encode, bind_eq_some, ensure_eq_some, exists_const, pure_eq_some, ← and_assoc,
    exists_eq_right]

theorem decodes_payload {m : BaseManifest} {root : BaseRoot} (hbase : root.baseId = m.baseId)
    (hid : root.manifestId = m.manifestId) (hpost : root.postStateChecksum = m.postStateChecksum)
    (hpages : m.config.pages ≠ 0) (hvalid : validateObjectRefs m.objects = true)
    (hsync : m.syncCoveredThrough ≤ m.captureSeq) (hcount : m.objects.length < 2 ^ 32)
    (hfiles : ∀ f ∈ m.objects, f.WellFormed) : Decodes (payloadDec root) m.payload m := by
  have hlen : (UInt32.ofNat m.objects.length).toNat = m.objects.length := toNat_ofNat32 hcount
  simp only [payload, List.append_assoc, payloadDec, hbase, hid, hpost]
  refine Decodes.bind (Reads.u16 _) (Decodes.require_bind rfl ?_)
  refine Decodes.bind (Reads.u64 _) (Decodes.require_bind (beq_self_eq_true _) ?_)
  refine Decodes.bind (Reads.u64 _) (Decodes.require_bind (beq_self_eq_true _) ?_)
  refine Decodes.bind (Reads.u64 _) (Decodes.bind (Reads.u64 _) (Decodes.bind (Reads.u8 _) ?_))
  refine Decodes.ofOption_bind m.recoveryKind.decode_toByte (Decodes.bind (Reads.u64 _) ?_)
  refine Decodes.bind (Reads.u32 _) (Decodes.require_bind (beq_self_eq_true _) ?_)
  refine Decodes.bind (VolumeConfig.reads hpages) (Decodes.bind (Reads.u64 _) ?_)
  refine Decodes.bind (Reads.u64 _) (Decodes.bind (Reads.u64 _) (Decodes.bind (Reads.u32 _) ?_))
  rw [hlen]
  refine Decodes.bind_last (Reads.repeatN m.objects fun f hf => ObjectRef.reads (hfiles f hf)) ?_
  refine Decodes.finish_bind (Decodes.require_bind (decide_eq_true hsync) ?_)
  exact Decodes.require_bind (beq_self_eq_true _) (Decodes.require_bind hvalid (Decodes.pure _))

end BaseManifest

end Blockd
