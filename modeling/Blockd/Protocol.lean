import Blockd.Journal

/-!
# Artifacts and commit points of a passive replica

The parts of `protocol.rs` that the passive spool and the head share, with their byte form from
`replica_wire.rs`: the name of an immutable artifact, and the frontier a commit reaches.  Both are
compared field by field in the order of their fields.
-/

set_option autoImplicit false

open Codec

namespace Blockd

/-- Typed identity of an immutable artifact placed in a passive peer's spool. -/
inductive ReplicaArtifact where
  | blx (fence : UInt64) (object : ObjectId)
  deriving DecidableEq, Repr

namespace ReplicaArtifact

def code : ReplicaArtifact → Nat ×ₗ Nat
  | .blx fence object => toLex (fence.toNat, object.toNat)

theorem code_injective : Function.Injective code := by
  rintro ⟨f, o⟩ ⟨g, p⟩ h
  simpa [code, UInt64.toNat_inj] using h

instance : LinearOrder ReplicaArtifact := LinearOrder.lift' code code_injective

def encode : ReplicaArtifact → Bytes
  | .blx fence object => encU8 0 ++ encU64 fence ++ encU64 object

def decode : Dec ReplicaArtifact := do
  let tag ← Dec.u8
  Dec.require (tag == 0)
  let fence ← Dec.u64
  let object ← Dec.u64
  return .blx fence object

theorem reads (a : ReplicaArtifact) : Reads decode a.encode a := by
  obtain ⟨fence, object⟩ := a
  simp only [encode, List.append_assoc]
  refine Reads.bind (Reads.u8 0) (Reads.require_bind rfl (Reads.bind (Reads.u64 _) ?_))
  exact Reads.bind_last (Reads.u64 _) (Reads.pure _)

end ReplicaArtifact

/-- How far a commit reaches.  The order of the fields is the order of their significance. -/
structure ReplicaCommitInfo where
  writerFence : UInt64
  seq : JournalSeq
  syncCoveredThrough : UInt64
  deriving DecidableEq, Repr

namespace ReplicaCommitInfo

def code (i : ReplicaCommitInfo) : Nat ×ₗ Nat ×ₗ Nat :=
  toLex (i.writerFence.toNat, toLex (i.seq.toNat, i.syncCoveredThrough.toNat))

theorem code_injective : Function.Injective code := by
  rintro ⟨f, s, c⟩ ⟨f', s', c'⟩ h
  simpa [code, UInt64.toNat_inj] using h

instance : LinearOrder ReplicaCommitInfo := LinearOrder.lift' code code_injective

def encode (i : ReplicaCommitInfo) : Bytes :=
  encU64 i.writerFence ++ encU64 i.seq ++ encU64 i.syncCoveredThrough

def decode : Dec ReplicaCommitInfo := do
  let writerFence ← Dec.u64
  let seq ← Dec.u64
  let syncCoveredThrough ← Dec.u64
  return ⟨writerFence, seq, syncCoveredThrough⟩

theorem reads (i : ReplicaCommitInfo) : Reads decode i.encode i := by
  simp only [encode, List.append_assoc]
  refine Reads.bind (Reads.u64 _) (Reads.bind (Reads.u64 _) ?_)
  exact Reads.bind_last (Reads.u64 _) (Reads.pure _)

theorem decode_exact : Exact decode encode fun _ => True := by
  refine Exact.of_reads (fun i _ => i.reads) (Accepts.bind Exact.u64 fun fence _ => ?_)
  refine Accepts.bind Exact.u64 fun seq _ => Accepts.bind Exact.u64 fun sync _ => ?_
  refine Accepts.pure fun _ => ⟨?_, trivial⟩
  simp only [encode, List.append_assoc, List.append_nil]

end ReplicaCommitInfo

def JournalRecord.commitInfo (r : JournalRecord) : ReplicaCommitInfo :=
  ⟨r.fence, r.seq, r.syncCoveredThrough⟩

end Blockd
