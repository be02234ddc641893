import Blockd.Protocol

/-!
# The passive replica's spool

`replica_spool.rs`: an append-only file of checksummed frames.  A receiver appends artifact frames
followed by a commit footer; a scan after a restart takes the frames one by one, stops at a torn
tail, and refuses a spool whose frames contradict each other.

The scan is compositional: `scanLoop_append` says that scanning a spool with one more frame is
scanning the spool and then taking the frame, and `scanLoop_torn` that a strict prefix of a frame at
the end is left alone.
-/

set_option autoImplicit false

open Codec
open Std (ExtTreeMap)

namespace Blockd

def magicReplicaArtifact : UInt32 := magicOf 'B' 'R' 'A' '1'
def magicReplicaCommit : UInt32 := magicOf 'B' 'R' 'C' '1'

/-- Whose spool it is: the primary, its volume and the epoch of the assignment. -/
structure ReplicaKey where
  source : HostId
  volume : VolumeId
  assignmentEpoch : UInt64
  deriving DecidableEq, Repr

structure ReplicaArtifactFrame where
  owner : ReplicaKey
  artifact : ReplicaArtifact
  checksum : UInt32
  bytes : Bytes
  deriving DecidableEq, Repr

structure ReplicaCommitFrame where
  owner : ReplicaKey
  info : ReplicaCommitInfo
  required : List ReplicaArtifact
  record : Bytes
  deriving DecidableEq, Repr

/-! ## Frames -/

namespace ReplicaKey

def encode (k : ReplicaKey) : Bytes :=
  encU16 2 ++ encU32 k.source ++ encU64 k.volume ++ encU64 k.assignmentEpoch

def decode : Dec ReplicaKey := do
  let version ← Dec.u16
  Dec.require (version == 2)
  let source ← Dec.u32
  let volume ← Dec.u64
  let assignmentEpoch ← Dec.u64
  return ⟨source, volume, assignmentEpoch⟩

theorem reads (k : ReplicaKey) : Reads decode k.encode k := by
  simp only [encode, List.append_assoc]
  refine Reads.bind (Reads.u16 2) (Reads.require_bind rfl (Reads.bind (Reads.u32 _) ?_))
  exact Reads.bind (Reads.u64 _) (Reads.bind_last (Reads.u64 _) (Reads.pure _))

end ReplicaKey

variable [Platform]

/-- The bytes are a BLX object of the volume under the artifact's name. -/
def verifyArtifact (volume : VolumeId) (artifact : ReplicaArtifact) (bytes : Bytes) : Bool :=
  match artifact, scanPageFile bytes with
  | .blx fence object, some (gotVolume, gotFence, gotObject, _) =>
    (gotVolume, gotFence, gotObject) == (volume, fence, object)
  | _, none => false

/-- The bytes are a journal record that reaches exactly as far as the commit says. -/
def verifyRecord (volume : VolumeId) (info : ReplicaCommitInfo) (bytes : Bytes) : Bool :=
  match JournalRecord.decode volume bytes with
  | some record => record.commitInfo == info
  | none => false

/-- Each artifact is greater than the one before it. -/
def requiredSorted (required : List ReplicaArtifact) : Bool :=
  (required.zip required.tail).all fun pair => decide (pair.1 < pair.2)

def artifactPayload (owner : ReplicaKey) (artifact : ReplicaArtifact) (checksum : UInt32)
    (bytes : Bytes) : Bytes :=
  owner.encode ++ artifact.encode ++ encU32 checksum ++ encU32 (UInt32.ofNat bytes.length) ++ bytes

/-- The frame of an artifact; refused, or a panic for a frame of 4 GiB, where it is `none`. -/
def sealVerifiedReplicaArtifact (owner : ReplicaKey) (artifact : ReplicaArtifact)
    (checksum : UInt32) (bytes : Bytes) : Option Bytes := do
  ensure (verifyArtifact owner.volume artifact bytes = true)
  ensure (bytes.length < 2 ^ 32)
  sealFrame magicReplicaArtifact (artifactPayload owner artifact checksum bytes)

def commitPayload (owner : ReplicaKey) (info : ReplicaCommitInfo)
    (required : List ReplicaArtifact) (record : Bytes) : Bytes :=
  owner.encode ++ info.encode ++ encU32 (UInt32.ofNat required.length) ++
  required.flatMap ReplicaArtifact.encode ++ encU32 (UInt32.ofNat record.length) ++ record

def sealReplicaCommit (owner : ReplicaKey) (info : ReplicaCommitInfo)
    (required : List ReplicaArtifact) (record : Bytes) : Option Bytes := do
  ensure (requiredSorted required = true)
  ensure (verifyRecord owner.volume info record = true)
  ensure (required.length < 2 ^ 32 ∧ record.length < 2 ^ 32)
  sealFrame magicReplicaCommit (commitPayload owner info required record)

variable {frame : Bytes} {owner : ReplicaKey}

theorem sealVerifiedReplicaArtifact_eq_some {artifact : ReplicaArtifact} {checksum : UInt32}
    {bytes : Bytes} : sealVerifiedReplicaArtifact owner artifact checksum bytes = some frame ↔
      verifyArtifact owner.volume artifact bytes = true ∧ bytes.length < 2 ^ 32 ∧
      sealFrame magicReplicaArtifact (artifactPayload owner artifact checksum bytes) =
        some frame := by
  simp only [sealVerifiedReplicaArtifact, bind_eq_some, ensure_eq_some, exists_const]

theorem sealReplicaCommit_eq_some {info : ReplicaCommitInfo} {required : List ReplicaArtifact}
    {record : Bytes} : sealReplicaCommit owner info required record = some frame ↔
      requiredSorted required = true ∧ verifyRecord owner.volume info record = true ∧
      (required.length < 2 ^ 32 ∧ record.length < 2 ^ 32) ∧
      sealFrame magicReplicaCommit (commitPayload owner info required record) = some frame := by
  simp only [sealReplicaCommit, bind_eq_some, ensure_eq_some, exists_const]

def artifactDec : Dec ReplicaArtifactFrame := do
  let owner ← ReplicaKey.decode
  let artifact ← ReplicaArtifact.decode
  let checksum ← Dec.u32
  let len ← Dec.u32
  let bytes ← Dec.bytes len.toNat
  Dec.finish
  Dec.require (crc32c bytes == checksum)
  Dec.require (verifyArtifact owner.volume artifact bytes)
  return ⟨owner, artifact, checksum, bytes⟩

def openArtifact (frame : Bytes) : Option ReplicaArtifactFrame := do
  let payload ← openFrame magicReplicaArtifact frame
  artifactDec.decode payload

/-- The most artifacts `open_commit` accepts in one commit; sealing a commit does not check it. -/
def maxRequiredArtifacts : Nat := 1000000

def commitDec : Dec ReplicaCommitFrame := do
  let owner ← ReplicaKey.decode
  let info ← ReplicaCommitInfo.decode
  let count ← Dec.u32
  Dec.require (decide (count.toNat ≤ maxRequiredArtifacts))
  let required ← Dec.repeatN ReplicaArtifact.decode count.toNat
  Dec.require (requiredSorted required)
  let len ← Dec.u32
  let record ← Dec.bytes len.toNat
  Dec.finish
  Dec.require (verifyRecord owner.volume info record)
  return ⟨owner, info, required, record⟩

def openCommit (frame : Bytes) : Option ReplicaCommitFrame := do
  let payload ← openFrame magicReplicaCommit frame
  commitDec.decode payload

/-- **An artifact frame opens to what was sealed.** -/
theorem openArtifact_seal {artifact : ReplicaArtifact} {checksum : UInt32} {bytes : Bytes}
    (hcrc : crc32c bytes = checksum)
    (h : sealVerifiedReplicaArtifact owner artifact checksum bytes = some frame) :
    openArtifact frame = some ⟨owner, artifact, checksum, bytes⟩ := by
  obtain ⟨hverify, hlen, hseal⟩ := sealVerifiedReplicaArtifact_eq_some.mp h
  rw [openArtifact, openFrame_sealFrame hseal, some_bind]
  refine Decodes.decode ?_
  simp only [artifactPayload, List.append_assoc]
  refine Decodes.bind owner.reads (Decodes.bind artifact.reads ?_)
  refine Decodes.bind (Reads.u32 _) (Decodes.bind (Reads.u32 _) ?_)
  refine Decodes.bind_last (Reads.bytes_of_length (toNat_ofNat32 hlen).symm) ?_
  refine Decodes.finish_bind (Decodes.require_bind (beq_iff_eq.mpr hcrc) ?_)
  exact Decodes.require_bind hverify (Decodes.pure _)

/-- **A commit frame opens to what was sealed**, unless it requires more artifacts than a reader
accepts. -/
theorem openCommit_seal {info : ReplicaCommitInfo} {required : List ReplicaArtifact}
    {record : Bytes} (hcount : required.length ≤ maxRequiredArtifacts)
    (h : sealReplicaCommit owner info required record = some frame) :
    openCommit frame = some ⟨owner, info, required, record⟩ := by
  obtain ⟨hsorted, hverify, ⟨hreq, hrec⟩, hseal⟩ := sealReplicaCommit_eq_some.mp h
  rw [openCommit, openFrame_sealFrame hseal, some_bind]
  refine Decodes.decode ?_
  simp only [commitPayload, List.append_assoc]
  refine Decodes.bind owner.reads (Decodes.bind info.reads (Decodes.bind (Reads.u32 _) ?_))
  rw [toNat_ofNat32 hreq]
  refine Decodes.require_bind (decide_eq_true hcount) ?_
  refine Decodes.bind (Reads.repeatN _ fun a _ => a.reads) (Decodes.require_bind hsorted ?_)
  refine Decodes.bind (Reads.u32 _) ?_
  refine Decodes.bind_last (Reads.bytes_of_length (toNat_ofNat32 hrec).symm) ?_
  exact Decodes.finish_bind (Decodes.require_bind hverify (Decodes.pure _))

/-! ## The scan -/

structure ReplicaSpoolScan where
  validLen : Nat
  truncatedTail : Bool
  artifacts : ExtTreeMap ReplicaArtifact ReplicaArtifactFrame
  /-- Artifacts appended after the last commit footer that covered them. -/
  uncommittedArtifacts : Finset ReplicaArtifact
  commits : List ReplicaCommitFrame
  /-- The owner every frame so far has named. -/
  identity : Option ReplicaKey

namespace ReplicaSpoolScan

def start : ReplicaSpoolScan := ⟨0, false, ∅, ∅, [], none⟩

/-- All frames of a spool name the same owner. -/
def checkIdentity (s : ReplicaSpoolScan) (incoming : ReplicaKey) : Option ReplicaSpoolScan := do
  ensure (∀ existing ∈ s.identity, existing = incoming)
  return { s with identity := some incoming }

/-- An artifact is new, or a repetition of what the spool already holds. -/
def artifactFrame (s : ReplicaSpoolScan) (frame : ReplicaArtifactFrame) :
    Option ReplicaSpoolScan := do
  let s ← s.checkIdentity frame.owner
  match s.artifacts[frame.artifact]? with
  | none =>
    return { s with
      uncommittedArtifacts := insert frame.artifact s.uncommittedArtifacts
      artifacts := s.artifacts.insert frame.artifact frame }
  | some existing =>
    ensure (existing.checksum = frame.checksum ∧ existing.bytes = frame.bytes)
    return s

/-- The order the scan holds commits to: how much they cover, then their sequence number. -/
def syncOrder (info : ReplicaCommitInfo) : Nat ×ₗ Nat :=
  toLex (info.syncCoveredThrough.toNat, info.seq.toNat)

/-- A commit needs its artifacts in the spool and may not fall behind the commit before it. -/
def commitFrame (s : ReplicaSpoolScan) (commit : ReplicaCommitFrame) :
    Option ReplicaSpoolScan := do
  let s ← s.checkIdentity commit.owner
  ensure (∀ artifact ∈ commit.required, s.artifacts.contains artifact = true)
  ensure (∀ previous ∈ s.commits.getLast?, syncOrder previous.info ≤ syncOrder commit.info)
  if s.commits.getLast? = some commit then return s
  else
    return { s with
      uncommittedArtifacts := s.uncommittedArtifacts \ commit.required.toFinset
      commits := s.commits ++ [commit] }

end ReplicaSpoolScan

/-- The length of the frame at the front, if all of it is there. -/
def framedLen (bytes : Bytes) : Option Nat :=
  if bytes.length < frameHeader then none
  else
    let len := frameHeader + leNat (slice bytes 4 8)
    if len ≤ bytes.length then some len else none

/-- What the magic number at the front of a frame announces. -/
inductive SpoolFrame where
  | artifact
  | commit
  | unknown
  deriving DecidableEq, Repr

def spoolFrame (frame : Bytes) : SpoolFrame :=
  let magic := UInt32.ofNat (leNat (frame.take 4))
  if magic = magicReplicaArtifact then .artifact
  else if magic = magicReplicaCommit then .commit
  else .unknown

/-- One round of the scan on a frame with a known magic number. -/
def scanFrame (s : ReplicaSpoolScan) (frame : Bytes) : Option ReplicaSpoolScan := do
  let s ← match spoolFrame frame with
    | .artifact => do s.artifactFrame (← openArtifact frame)
    | .commit => do s.commitFrame (← openCommit frame)
    | .unknown => none
  return { s with validLen := s.validLen + frame.length }

/-- The loop of the scan over what is left of the spool.  A frame has at least twelve bytes, so the
length of the spool is enough fuel. -/
def scanLoop : Nat → Bytes → ReplicaSpoolScan → Option ReplicaSpoolScan
  | _, [], s => some s
  | 0, _ :: _, _ => none
  | fuel + 1, b :: bs, s =>
    match framedLen (b :: bs) with
    | none => some { s with truncatedTail := true }
    | some len =>
      if spoolFrame ((b :: bs).take len) = .unknown then some { s with truncatedTail := true }
      else (scanFrame s ((b :: bs).take len)).bind fun t => scanLoop fuel ((b :: bs).drop len) t

/-- The scan of what is left of a spool. -/
def scanFrom (s : ReplicaSpoolScan) (rest : Bytes) : Option ReplicaSpoolScan :=
  scanLoop rest.length rest s

def scanReplicaSpool (bytes : Bytes) : Option ReplicaSpoolScan :=
  scanFrom ReplicaSpoolScan.start bytes

/-! ## Scanning frame by frame -/

section Framing

omit [Platform]

theorem framedLen_bounds {bytes : Bytes} {len : Nat} (h : framedLen bytes = some len) :
    frameHeader ≤ len ∧ len ≤ bytes.length := by
  simp only [framedLen] at h
  split at h
  · cases h
  · split at h
    · rename_i hle
      rw [← Option.some.inj h]
      exact ⟨Nat.le_add_right _ _, hle⟩
    · cases h

/-- The bytes of the header do not change when bytes are appended. -/
theorem slice_append_left (bytes rest : Bytes) (start : Nat) {stop : Nat}
    (h : stop ≤ bytes.length) : slice (bytes ++ rest) start stop = slice bytes start stop := by
  rw [slice, slice]
  by_cases hs : start ≤ bytes.length
  · rw [List.drop_append_of_le_length hs, List.take_append_of_le_length]
    rw [List.length_drop]
    omega
  · have hzero : stop - start = 0 := by omega
    rw [hzero, List.take_zero, List.take_zero]

theorem framedLen_append {bytes : Bytes} {len : Nat} (h : framedLen bytes = some len)
    (rest : Bytes) : framedLen (bytes ++ rest) = some len := by
  simp only [framedLen] at h ⊢
  split at h
  · cases h
  · rename_i hlt
    rw [frameHeader] at hlt
    have hslice : slice (bytes ++ rest) 4 8 = slice bytes 4 8 :=
      slice_append_left bytes rest 4 (by omega)
    split at h
    · rename_i hle
      rw [if_neg (by rw [List.length_append, frameHeader]; omega), hslice,
        if_pos (by rw [List.length_append]; omega)]
      exact h
    · cases h

variable {magic : UInt32} {payload frame : Bytes}

theorem slice_sealFrame (h : sealFrame magic payload = some frame) :
    slice frame 4 8 = encU32 (UInt32.ofNat payload.length) ∧ frame.take 4 = encU32 magic ∧
      payload.length < 2 ^ 32 := by
  rw [sealFrame] at h
  split at h
  · rename_i hlt
    rw [← Option.some.inj h]
    refine ⟨?_, ?_, hlt⟩
    · have hslice := slice_append (encU32 magic) (encU32 (UInt32.ofNat payload.length))
        (encU32 (crc32c payload) ++ payload)
      rwa [length_encU32, length_encU32, ← List.append_assoc] at hslice
    · rw [List.append_assoc, List.append_assoc, List.take_append_of_le_length (by simp)]
      exact List.take_of_length_le (by simp)
  · cases h

/-- **A sealed frame is taken whole**, whatever follows it. -/
theorem framedLen_sealFrame (h : sealFrame magic payload = some frame) (rest : Bytes) :
    framedLen (frame ++ rest) = some frame.length := by
  obtain ⟨hslice, -, hlt⟩ := slice_sealFrame h
  have hlen := length_of_sealFrame h
  refine framedLen_append ?_ rest
  simp only [framedLen, hslice]
  rw [if_neg (by omega), encU32, leNat_leBytes_of_lt (UInt32.toNat_lt _), toNat_ofNat32 hlt,
    if_pos (by omega), hlen]

/-- A strict prefix of a sealed frame is not taken for a frame. -/
theorem framedLen_take (h : sealFrame magic payload = some frame) {n : Nat}
    (hn : n < frame.length) : framedLen (frame.take n) = none := by
  obtain ⟨hslice, -, hlt⟩ := slice_sealFrame h
  have hlen := length_of_sealFrame h
  have htake : (frame.take n).length = n := List.length_take_of_le hn.le
  simp only [framedLen]
  split
  · rfl
  · rename_i hge
    rw [htake, frameHeader] at hge
    have hslice' : slice (frame.take n) 4 8 = slice frame 4 8 := by
      have happ : slice (frame.take n ++ frame.drop n) 4 8 = slice (frame.take n) 4 8 :=
        slice_append_left _ _ 4 (by omega)
      rw [← happ, List.take_append_drop]
    rw [hslice', hslice, encU32, leNat_leBytes_of_lt (UInt32.toNat_lt _), toNat_ofNat32 hlt,
      if_neg (by omega)]

theorem magic_sealFrame (h : sealFrame magic payload = some frame) :
    UInt32.ofNat (leNat (frame.take 4)) = magic := by
  rw [(slice_sealFrame h).2.1, encU32, leNat_leBytes_of_lt (UInt32.toNat_lt _),
    UInt32.ofNat_toNat]

end Framing

theorem spoolFrame_artifact {artifact : ReplicaArtifact} {checksum : UInt32} {bytes : Bytes}
    (h : sealVerifiedReplicaArtifact owner artifact checksum bytes = some frame) :
    spoolFrame frame = .artifact := by
  rw [spoolFrame, magic_sealFrame (sealVerifiedReplicaArtifact_eq_some.mp h).2.2]
  rfl

theorem spoolFrame_commit {info : ReplicaCommitInfo} {required : List ReplicaArtifact}
    {record : Bytes} (h : sealReplicaCommit owner info required record = some frame) :
    spoolFrame frame = .commit := by
  rw [spoolFrame, magic_sealFrame (sealReplicaCommit_eq_some.mp h).2.2.2]
  rfl

section Loop

variable {s t : ReplicaSpoolScan} {rest : Bytes}

/-- Any fuel that covers the bytes gives the same scan. -/
theorem scanLoop_fuel {fuel fuel' : Nat} (h : rest.length ≤ fuel) (h' : rest.length ≤ fuel') :
    scanLoop fuel rest s = scanLoop fuel' rest s := by
  induction fuel generalizing fuel' rest s with
  | zero =>
    rw [List.length_eq_zero_iff.mp (Nat.le_zero.mp h)]
    simp [scanLoop]
  | succ fuel ih =>
    cases rest with
    | nil => simp [scanLoop]
    | cons b bs =>
      cases fuel' with
      | zero => simp at h'
      | succ fuel' =>
        simp only [scanLoop]
        cases hlen : framedLen (b :: bs) with
        | none => rfl
        | some len =>
          have hbounds := framedLen_bounds hlen
          rw [frameHeader] at hbounds
          have hdrop : ((b :: bs).drop len).length ≤ fuel ∧
              ((b :: bs).drop len).length ≤ fuel' := by
            rw [List.length_drop]
            omega
          have hcont : (fun t => scanLoop fuel ((b :: bs).drop len) t) =
              fun t => scanLoop fuel' ((b :: bs).drop len) t :=
            funext fun t => ih hdrop.1 hdrop.2
          simp only [hcont]

theorem scanFrom_nil : scanFrom s [] = some s := by
  rw [scanFrom, scanLoop]

/-- One round of the scan, on a frame that is all there. -/
theorem scanFrom_frame {len : Nat} (hlen : framedLen rest = some len)
    (hknown : spoolFrame (rest.take len) ≠ .unknown) :
    scanFrom s rest = (scanFrame s (rest.take len)).bind fun t => scanFrom t (rest.drop len) := by
  obtain ⟨hpos, hle⟩ := framedLen_bounds hlen
  cases rest with
  | nil => simp [frameHeader] at hpos hle; omega
  | cons b bs =>
    rw [scanFrom, List.length_cons, scanLoop, hlen]
    simp only [if_neg hknown]
    refine congrArg _ (funext fun t => scanLoop_fuel ?_ le_rfl)
    rw [frameHeader] at hpos
    rw [List.length_drop, List.length_cons]
    omega

/-- Where no whole frame of a known kind follows, the scan stops and says so. -/
theorem scanFrom_stop (hne : rest ≠ [])
    (h : ∀ len, framedLen rest = some len → spoolFrame (rest.take len) = .unknown) :
    scanFrom s rest = some { s with truncatedTail := true } := by
  cases rest with
  | nil => exact absurd rfl hne
  | cons b bs =>
    rw [scanFrom, List.length_cons, scanLoop]
    cases hlen : framedLen (b :: bs) with
    | none => rfl
    | some len => simp only [if_pos (h len hlen)]

/-- **Scanning on.**  A spool that was scanned to its end can be continued with more bytes. -/
theorem scanFrom_append (h : scanFrom s rest = some t) (ht : t.truncatedTail = false)
    (more : Bytes) : scanFrom s (rest ++ more) = scanFrom t more := by
  induction hn : rest.length using Nat.strong_induction_on generalizing rest s with
  | _ n ih =>
    by_cases hne : rest = []
    · subst hne
      rw [scanFrom_nil, Option.some.injEq] at h
      rw [List.nil_append, h]
    · by_cases hstop : ∀ len, framedLen rest = some len → spoolFrame (rest.take len) = .unknown
      · rw [scanFrom_stop hne hstop, Option.some.injEq] at h
        rw [← h] at ht
        cases ht
      · push Not at hstop
        obtain ⟨len, hlen, hknown⟩ := hstop
        obtain ⟨hpos, hle⟩ := framedLen_bounds hlen
        have hmore : (rest ++ more).take len = rest.take len := List.take_append_of_le_length hle
        rw [scanFrom_frame hlen hknown, Option.bind_eq_some_iff] at h
        obtain ⟨u, hu, h⟩ := h
        rw [scanFrom_frame (framedLen_append hlen more) (by rwa [hmore]), hmore, hu,
          Option.bind_some, List.drop_append_of_le_length hle]
        refine ih _ ?_ h rfl
        rw [frameHeader] at hpos
        rw [← hn, List.length_drop]
        omega

variable {frame : Bytes}

/-- **Scanning on with one frame.** -/
theorem scanFrom_append_frame {magic : UInt32} {payload : Bytes} (h : scanFrom s rest = some t)
    (ht : t.truncatedTail = false) (hseal : sealFrame magic payload = some frame)
    (hknown : magic = magicReplicaArtifact ∨ magic = magicReplicaCommit) :
    scanFrom s (rest ++ frame) = scanFrame t frame := by
  have hlen : framedLen frame = some frame.length := by
    have h := framedLen_sealFrame hseal []
    rwa [List.append_nil] at h
  have hkind : spoolFrame (frame.take frame.length) ≠ .unknown := by
    rw [List.take_length, spoolFrame, magic_sealFrame hseal]
    rcases hknown with rfl | rfl <;> decide
  rw [scanFrom_append h ht, scanFrom_frame hlen hkind, List.take_length, List.drop_length]
  cases scanFrame t frame with
  | none => rfl
  | some u => exact scanFrom_nil

/-- **A torn append** is left alone: the scan stops where it began. -/
theorem scanFrom_append_torn {magic : UInt32} {payload : Bytes} (h : scanFrom s rest = some t)
    (ht : t.truncatedTail = false) (hseal : sealFrame magic payload = some frame) {n : Nat}
    (hpos : 0 < n) (hn : n < frame.length) :
    scanFrom s (rest ++ frame.take n) = some { t with truncatedTail := true } := by
  have hne : frame.take n ≠ [] := by
    intro h0
    have := List.length_take_of_le hn.le
    rw [h0, List.length_nil] at this
    omega
  rw [scanFrom_append h ht]
  refine scanFrom_stop hne fun len hlen => ?_
  rw [framedLen_take hseal hn] at hlen
  cases hlen

/-- The round on the frame of a new artifact. -/
theorem scanFrame_artifact {a : ReplicaArtifactFrame} (hkind : spoolFrame frame = .artifact)
    (hopen : openArtifact frame = some a) (hid : ∀ k ∈ s.identity, k = a.owner)
    (hnew : s.artifacts[a.artifact]? = none) : scanFrame s frame = some
      { s with
        identity := some a.owner
        uncommittedArtifacts := insert a.artifact s.uncommittedArtifacts
        artifacts := s.artifacts.insert a.artifact a
        validLen := s.validLen + frame.length } := by
  have hident : s.checkIdentity a.owner = some { s with identity := some a.owner } := by
    rw [ReplicaSpoolScan.checkIdentity, ensure, if_pos hid]
    rfl
  simp only [scanFrame, hkind, hopen, some_bind, ReplicaSpoolScan.artifactFrame, hident, hnew,
    Option.pure_def]

/-- The round on the frame of a commit that is not the last one again. -/
theorem scanFrame_commit {c : ReplicaCommitFrame} (hkind : spoolFrame frame = .commit)
    (hopen : openCommit frame = some c) (hid : ∀ k ∈ s.identity, k = c.owner)
    (hreq : ∀ artifact ∈ c.required, s.artifacts.contains artifact = true)
    (horder : ∀ previous ∈ s.commits.getLast?,
      ReplicaSpoolScan.syncOrder previous.info ≤ ReplicaSpoolScan.syncOrder c.info)
    (hnew : s.commits.getLast? ≠ some c) : scanFrame s frame = some
      { s with
        identity := some c.owner
        uncommittedArtifacts := s.uncommittedArtifacts \ c.required.toFinset
        commits := s.commits ++ [c]
        validLen := s.validLen + frame.length } := by
  have hident : s.checkIdentity c.owner = some { s with identity := some c.owner } := by
    rw [ReplicaSpoolScan.checkIdentity, ensure, if_pos hid]
    rfl
  simp only [scanFrame, hkind, hopen, some_bind, ReplicaSpoolScan.commitFrame, hident, ensure,
    if_pos hreq, if_pos horder, if_neg hnew, Option.pure_def]

end Loop

/-! ## The commit of a bare record -/

/-- The record of a volume that has never been written to. -/
def bareRecord (fence seq : UInt64) : JournalRecord :=
  { config := ⟨.memory, 1⟩
    seq := seq
    fence := fence
    kind := .commit
    captureSeq := 0
    syncCoveredThrough := 0
    postStateChecksum := 0
    files := []
    runtimePageIndex := ∅
    migratedFrom := none }

/-- What the commit of a record without files covers. -/
structure BareCut where
  fence : UInt64
  seq : UInt64
  sync : UInt64
  capture : UInt64

namespace BareCut

def info (c : BareCut) : ReplicaCommitInfo := ⟨c.fence, c.seq, c.sync⟩

def record (c : BareCut) : JournalRecord :=
  { bareRecord c.fence c.seq with captureSeq := c.capture, syncCoveredThrough := c.sync }

theorem length_encode (c : BareCut) (volume : VolumeId) :
    ∃ bytes, c.record.encode volume = some bytes ∧ bytes.length = 111 := by
  have hlen : (c.record.payload volume).length = 99 := by
    simp [record, bareRecord, JournalRecord.payload, RecordKind.encode, MigrationSource.encode]
  obtain ⟨bytes, hseal⟩ := exists_sealFrame magicJournal (c.record.payload volume)
    (by rw [hlen]; decide)
  refine ⟨bytes, JournalRecord.encode_eq_some.mpr ⟨rfl, by simp [record, bareRecord], hseal⟩, ?_⟩
  rw [length_of_sealFrame hseal, hlen, frameHeader]

theorem decode_encode (c : BareCut) (volume : VolumeId) :
    JournalRecord.decode volume ((c.record.encode volume).getD []) = some c.record := by
  obtain ⟨bytes, henc, -⟩ := c.length_encode volume
  rw [henc, Option.getD_some, JournalRecord.decode_encode henc (fun f hf => by cases hf)]
  rfl

/-- The commit can be sealed. -/
theorem exists_seal (c : BareCut) (key : ReplicaKey) (required : List ReplicaArtifact)
    (hsorted : requiredSorted required = true) (hfew : required.length ≤ 1) :
    ∃ frame, sealReplicaCommit key c.info required ((c.record.encode key.volume).getD []) =
        some frame ∧ frame.length = 177 + 17 * required.length := by
  obtain ⟨bytes, henc, hlen⟩ := c.length_encode key.volume
  have hdec := c.decode_encode key.volume
  rw [henc, Option.getD_some] at hdec
  have hverify : verifyRecord key.volume c.info bytes = true := by
    simp [verifyRecord, hdec, JournalRecord.commitInfo, record, bareRecord, info]
  have hartifact : ∀ a : ReplicaArtifact, a.encode.length = 17 := fun _ => rfl
  have hpayload : (commitPayload key c.info required bytes).length =
      165 + 17 * required.length := by
    simp only [commitPayload, ReplicaKey.encode, ReplicaCommitInfo.encode, List.length_append,
      length_encU16, length_encU32, length_encU64, length_flatMap_of_length hartifact, hlen]
    omega
  obtain ⟨frame, hseal⟩ := exists_sealFrame magicReplicaCommit
    (commitPayload key c.info required bytes) (by rw [hpayload]; omega)
  refine ⟨frame, ?_, ?_⟩
  · rw [henc, Option.getD_some, sealReplicaCommit_eq_some]
    exact ⟨hsorted, hverify, ⟨by omega, by rw [hlen]; decide⟩, hseal⟩
  · rw [length_of_sealFrame hseal, hpayload, frameHeader]
    omega

end BareCut

/-- A commit of a bare record can be sealed. -/
theorem exists_seal_bare (key : ReplicaKey) (fence seq : UInt64) (required : List ReplicaArtifact)
    (hsorted : requiredSorted required = true) (hfew : required.length ≤ 1) :
    ∃ frame, sealReplicaCommit key ⟨fence, seq, 0⟩ required
        (((bareRecord fence seq).encode key.volume).getD []) = some frame ∧
      frame.length = 177 + 17 * required.length :=
  BareCut.exists_seal ⟨fence, seq, 0, 0⟩ key required hsorted hfew

end Blockd
