import Blockd.Protocol

/-!
# The head record

`head.rs`: one small object per archived volume that says which host runs the volume, where its
newest backup is and which peer keeps its passive stash.  Every update goes through the store's
compare-and-swap.

`decode_encode` is the round trip: a head that satisfies `Valid` reads back as it was.
-/

set_option autoImplicit false

open Codec

namespace Blockd

def magicHead : UInt32 := magicOf 'B' 'H' 'D' '1'

def maxRetiredStashes : Nat := 8

/-- Pointer to the newest backed-up manifest. -/
structure ManifestPtr where
  fence : UInt64
  /-- The journal record the manifest represents. -/
  journalSeq : JournalSeq
  /-- The archive-publication sequence, which advances on its own. -/
  seq : JournalSeq
  captureSeq : UInt64
  /-- Binds the pointer to the exact bytes of the manifest. -/
  checksum : UInt64
  deriving DecidableEq, Repr

/-- Durable placement of the passive stash. -/
structure StashAssignment where
  /-- Epoch used by new writes: the transition peer's while one is being seeded. -/
  assignmentEpoch : UInt64
  activePeer : HostId
  /-- The epoch of the active peer's spool. -/
  activeAssignmentEpoch : UInt64
  transitionPeer : Option HostId
  membershipEpoch : UInt64
  deriving DecidableEq, Repr

/-- A former active peer, still a recovery source and a cleanup target. -/
structure RetiredStash where
  peer : HostId
  assignmentEpoch : UInt64
  through : ReplicaCommitInfo
  deriving DecidableEq, Repr

structure HeadRecord where
  volume : VolumeId
  /-- The host assigned to run this volume. -/
  holder : HostId
  /-- The holder's fence: the version of the head that its claim returned. -/
  fence : UInt64
  manifest : Option ManifestPtr
  stash : Option StashAssignment
  retiredStashes : List RetiredStash
  deriving DecidableEq, Repr

/-! ## Byte form -/

namespace ManifestPtr

def encode (p : ManifestPtr) : Bytes :=
  encU64 p.fence ++ encU64 p.journalSeq ++ encU64 p.seq ++ encU64 p.captureSeq ++
  encU64 p.checksum

def decode : Dec ManifestPtr := do
  let fence ← Dec.u64
  let journalSeq ← Dec.u64
  let seq ← Dec.u64
  let captureSeq ← Dec.u64
  let checksum ← Dec.u64
  return ⟨fence, journalSeq, seq, captureSeq, checksum⟩

theorem reads (p : ManifestPtr) : Reads decode p.encode p := by
  simp only [encode, List.append_assoc]
  refine Reads.bind (Reads.u64 _) (Reads.bind (Reads.u64 _) (Reads.bind (Reads.u64 _) ?_))
  exact Reads.bind (Reads.u64 _) (Reads.bind_last (Reads.u64 _) (Reads.pure _))

theorem decode_exact : Exact decode encode fun _ => True := by
  refine Exact.of_reads (fun p _ => p.reads) (Accepts.bind Exact.u64 fun fence _ => ?_)
  refine Accepts.bind Exact.u64 fun journal _ => Accepts.bind Exact.u64 fun seq _ => ?_
  refine Accepts.bind Exact.u64 fun capture _ => Accepts.bind Exact.u64 fun checksum _ => ?_
  refine Accepts.pure fun _ => ⟨?_, trivial⟩
  simp only [encode, List.append_assoc, List.append_nil]

end ManifestPtr

namespace StashAssignment

/-- What `decode` demands: a replacement is another peer, and without one the active peer's epoch
is the epoch of new writes. -/
def Valid (s : StashAssignment) : Prop :=
  s.transitionPeer ≠ some s.activePeer ∧
  (s.transitionPeer = none → s.activeAssignmentEpoch = s.assignmentEpoch)

instance (s : StashAssignment) : Decidable s.Valid := inferInstanceAs (Decidable (_ ∧ _))

def encode (s : StashAssignment) : Bytes :=
  encU64 s.assignmentEpoch ++ encU32 s.activePeer ++ encU64 s.activeAssignmentEpoch ++
  encOption encU32 s.transitionPeer ++ encU64 s.membershipEpoch

def decode : Dec StashAssignment := do
  let assignmentEpoch ← Dec.u64
  let activePeer ← Dec.u32
  let activeAssignmentEpoch ← Dec.u64
  let transitionPeer ← Dec.option Dec.u32
  let membershipEpoch ← Dec.u64
  let stash : StashAssignment :=
    ⟨assignmentEpoch, activePeer, activeAssignmentEpoch, transitionPeer, membershipEpoch⟩
  Dec.require (decide stash.Valid)
  return stash

theorem reads {s : StashAssignment} (h : s.Valid) : Reads decode s.encode s := by
  simp only [encode, List.append_assoc]
  refine Reads.bind (Reads.u64 _) (Reads.bind (Reads.u32 _) (Reads.bind (Reads.u64 _) ?_))
  refine Reads.bind (Reads.option _ fun p _ => Reads.u32 p) ?_
  exact Reads.bind_last (Reads.u64 _) (Reads.require_bind (decide_eq_true h) (Reads.pure _))

theorem decode_exact : Exact decode encode Valid := by
  refine Exact.of_reads (fun s hs => reads hs) (Accepts.bind Exact.u64 fun epoch _ => ?_)
  refine Accepts.bind Exact.u32 fun active _ => Accepts.bind Exact.u64 fun activeEpoch _ => ?_
  refine Accepts.bind (Exact.option Exact.u32) fun transition _ => ?_
  refine Accepts.bind Exact.u64 fun membership _ => Accepts.require_bind fun hvalid => ?_
  refine Accepts.pure fun _ => ⟨?_, of_decide_eq_true hvalid⟩
  simp only [encode, List.append_assoc, List.append_nil]

end StashAssignment

namespace RetiredStash

def encode (r : RetiredStash) : Bytes :=
  encU32 r.peer ++ encU64 r.assignmentEpoch ++ r.through.encode

def decode : Dec RetiredStash := do
  let peer ← Dec.u32
  let assignmentEpoch ← Dec.u64
  let through ← ReplicaCommitInfo.decode
  return ⟨peer, assignmentEpoch, through⟩

theorem reads (r : RetiredStash) : Reads decode r.encode r := by
  simp only [encode, List.append_assoc]
  refine Reads.bind (Reads.u32 _) (Reads.bind (Reads.u64 _) ?_)
  exact Reads.bind_last r.through.reads (Reads.pure _)

theorem decode_exact : Exact decode encode fun _ => True := by
  refine Exact.of_reads (fun r _ => r.reads) (Accepts.bind Exact.u32 fun peer _ => ?_)
  refine Accepts.bind Exact.u64 fun epoch _ => ?_
  refine Accepts.bind ReplicaCommitInfo.decode_exact fun through _ => ?_
  refine Accepts.pure fun _ => ⟨?_, trivial⟩
  simp only [encode, List.append_assoc, List.append_nil]

@[simp] theorem length_encode (r : RetiredStash) : r.encode.length = 36 := by
  simp [encode, ReplicaCommitInfo.encode]

end RetiredStash

namespace HeadRecord

/-- The heads that survive encoding: a well-formed stash and a bounded history. -/
def Valid (h : HeadRecord) : Prop :=
  (∀ s ∈ h.stash, s.Valid) ∧ h.retiredStashes.length ≤ maxRetiredStashes

def payload (h : HeadRecord) : Bytes :=
  encU16 4 ++ encU64 h.volume ++ encU32 h.holder ++ encU64 h.fence ++
  encOption ManifestPtr.encode h.manifest ++ encOption StashAssignment.encode h.stash ++
  encU8 (UInt8.ofNat h.retiredStashes.length) ++ h.retiredStashes.flatMap RetiredStash.encode

def encode (h : HeadRecord) : Option Bytes := do
  ensure (h.retiredStashes.length ≤ maxRetiredStashes)
  sealFrame magicHead h.payload

def payloadDec (volume : VolumeId) : Dec HeadRecord := do
  let version ← Dec.u16
  Dec.require (version == 4)
  let owner ← Dec.u64
  Dec.require (owner == volume)
  let holder ← Dec.u32
  let fence ← Dec.u64
  let manifest ← Dec.option ManifestPtr.decode
  let stash ← Dec.option StashAssignment.decode
  let count ← Dec.u8
  Dec.require (decide (count.toNat ≤ maxRetiredStashes))
  let retiredStashes ← Dec.repeatN RetiredStash.decode count.toNat
  Dec.finish
  return ⟨volume, holder, fence, manifest, stash, retiredStashes⟩

def decode (volume : VolumeId) (bytes : Bytes) : Option HeadRecord := do
  let payload ← openFrame magicHead bytes
  (payloadDec volume).decode payload

theorem decodes_payload {h : HeadRecord} (hv : h.Valid) :
    Decodes (payloadDec h.volume) h.payload h := by
  have hcount : (UInt8.ofNat h.retiredStashes.length).toNat = h.retiredStashes.length := by
    have hle := hv.2
    rw [maxRetiredStashes] at hle
    rw [UInt8.toNat_ofNat', Nat.mod_eq_of_lt (by omega)]
  simp only [payload, List.append_assoc]
  refine Decodes.bind (Reads.u16 4) (Decodes.require_bind rfl ?_)
  refine Decodes.bind (Reads.u64 _) (Decodes.require_bind (beq_self_eq_true _) ?_)
  refine Decodes.bind (Reads.u32 _) (Decodes.bind (Reads.u64 _) ?_)
  refine Decodes.bind (Reads.option _ fun p _ => p.reads) ?_
  refine Decodes.bind (Reads.option _ fun s hs => StashAssignment.reads (hv.1 s hs)) ?_
  refine Decodes.bind (Reads.u8 _) ?_
  rw [hcount]
  refine Decodes.require_bind (decide_eq_true hv.2) ?_
  refine Decodes.bind_last (Reads.repeatN _ fun r _ => r.reads) ?_
  exact Decodes.finish_bind (Decodes.pure _)

theorem payloadDec_exact (volume : VolumeId) :
    DecodesExactly (payloadDec volume) payload fun h => h.volume = volume ∧ h.Valid := by
  refine DecodesExactly.of_decodes ?_ ?_
  · rintro h ⟨rfl, hv⟩
    exact decodes_payload hv
  · refine Accepts.expect_bind Exact.u16 (Accepts.expect_bind Exact.u64 ?_)
    refine Accepts.bind Exact.u32 fun holder _ => Accepts.bind Exact.u64 fun fence _ => ?_
    refine Accepts.bind (Exact.option ManifestPtr.decode_exact) fun manifest _ => ?_
    refine Accepts.bind (Exact.option StashAssignment.decode_exact) fun stash hstash => ?_
    refine Accepts.bind Exact.u8 fun count _ => Accepts.require_bind fun hcount => ?_
    refine Accepts.bind (RetiredStash.decode_exact.repeatN _) fun retired hretired => ?_
    refine Accepts.finish_bind (Accepts.pure fun rest hrest => ⟨hrest, ?_, rfl, hstash, ?_⟩)
    · simp only [payload, hretired.1, UInt8.ofNat_toNat, List.append_assoc, List.append_nil]
    · exact hretired.1 ▸ of_decide_eq_true hcount

/-- A valid head can be encoded. -/
theorem exists_encode {h : HeadRecord} (hv : h.Valid) : ∃ bytes, h.encode = some bytes := by
  have hmanifest : (encOption ManifestPtr.encode h.manifest).length ≤ 41 := by
    rcases h.manifest with _ | p <;> simp [encOption, ManifestPtr.encode]
  have hstash : (encOption StashAssignment.encode h.stash).length ≤ 34 := by
    rcases h.stash with _ | ⟨e, a, ae, t, m⟩
    · simp [encOption]
    · rcases t with _ | t <;> simp [encOption, StashAssignment.encode]
  have hretired := length_flatMap_of_length RetiredStash.length_encode h.retiredStashes
  have hlen : h.payload.length < 2 ^ 32 := by
    have hcount := hv.2
    rw [maxRetiredStashes] at hcount
    simp only [payload, List.length_append, length_encU8, length_encU16, length_encU32,
      length_encU64, hretired]
    omega
  obtain ⟨bytes, hbytes⟩ := exists_sealFrame magicHead h.payload hlen
  refine ⟨bytes, ?_⟩
  rw [encode, ensure, if_pos hv.2]
  exact hbytes

/-- **A head is read from its own bytes and from no others**, and exactly the valid heads are
read. -/
theorem decode_eq_some {volume : VolumeId} {bytes : Bytes} {h : HeadRecord} :
    decode volume bytes = some h ↔ h.encode = some bytes ∧ h.volume = volume ∧ h.Valid := by
  simp only [decode, encode, bind_eq_some, ensure_eq_some, exists_const, openFrame_eq_some,
    payloadDec_exact volume _ _]
  constructor
  · rintro ⟨payload, hseal, hpayload, hvolume, hv⟩
    rw [hpayload] at hseal
    exact ⟨⟨hv.2, hseal⟩, hvolume, hv⟩
  · rintro ⟨⟨-, hseal⟩, hvolume, hv⟩
    exact ⟨h.payload, hseal, rfl, hvolume, hv⟩

end HeadRecord

end Blockd
