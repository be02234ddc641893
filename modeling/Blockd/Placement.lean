import Mathlib
import Blockd.Types

/-!
# Where the passives go

`placement.rs`: every host of a roster other than the primary is a candidate for the passive of a
volume, and a hash of the volume and the hosts puts the candidates in an order that every host
computes alike.  The order is a list to try, never a set to replicate to.
-/

set_option autoImplicit false

open Codec

namespace Blockd

/-- `placement_hash`: FNV-1a over the little-endian fields, then the SplitMix64 finalizer. -/
def placementHash (membershipEpoch : UInt64) (primary : HostId) (volume : VolumeId)
    (candidate : HostId) : UInt64 :=
  let hash := (encU64 membershipEpoch ++ encU32 primary ++ encU64 volume ++ encU32 candidate).foldl
    (fun hash byte => (hash ^^^ byte.toUInt64) * 0x00000100000001B3) 0xCBF29CE484222325
  let mixed := hash + 0x9E3779B97F4A7C15
  let mixed := (mixed ^^^ (mixed >>> 30)) * 0xBF58476D1CE4E5B9
  let mixed := (mixed ^^^ (mixed >>> 27)) * 0x94D049BB133111EB
  mixed ^^^ (mixed >>> 31)

/-- The order of `rank_stash_candidates`: the greater score first, then the smaller host. -/
def RanksBefore (a b : UInt64 × HostId) : Prop := b.1 < a.1 ∨ a.1 = b.1 ∧ a.2 ≤ b.2

instance : DecidableRel RanksBefore := fun _ _ => inferInstanceAs (Decidable (_ ∨ _))

/-- Every eligible peer, in the order in which they are tried. -/
def rankStashCandidates (membershipEpoch : UInt64) (primary : HostId) (volume : VolumeId)
    (roster : List HostId) : List HostId :=
  (((roster.filter (· ≠ primary)).map fun candidate =>
    (placementHash membershipEpoch primary volume candidate, candidate)).insertionSort
      RanksBefore).map Prod.snd

section

variable (membershipEpoch : UInt64) (primary : HostId) (volume : VolumeId) (roster : List HostId)

/-- The ranking leaves out the primary and nothing else. -/
theorem rankStashCandidates_perm :
    (rankStashCandidates membershipEpoch primary volume roster).Perm
      (roster.filter (· ≠ primary)) := by
  refine ((List.perm_insertionSort RanksBefore _).map Prod.snd).trans ?_
  rw [List.map_map]
  exact .of_eq (List.map_id' _)

@[simp] theorem mem_rankStashCandidates {candidate : HostId} :
    candidate ∈ rankStashCandidates membershipEpoch primary volume roster ↔
      candidate ∈ roster ∧ candidate ≠ primary := by
  simp [(rankStashCandidates_perm membershipEpoch primary volume roster).mem_iff]

/-! ### The order of the candidates

Two hosts never tie, since an equal score is decided by the host itself.  So there is one way only to
put a set of candidates in order. -/

instance : IsTrans (UInt64 × HostId) RanksBefore where
  trans a b c hab hbc := by
    simp only [RanksBefore, UInt64.lt_iff_toNat_lt, ← UInt64.toNat_inj, UInt32.le_iff_toNat_le]
      at hab hbc ⊢
    omega

instance : Std.Antisymm RanksBefore where
  antisymm a b hab hba := by
    simp only [RanksBefore, UInt64.lt_iff_toNat_lt, ← UInt64.toNat_inj, UInt32.le_iff_toNat_le]
      at hab hba
    exact Prod.ext (UInt64.toNat_inj.mp (by omega)) (UInt32.toNat_inj.mp (by omega))

instance : Std.Total RanksBefore where
  total a b := by
    simp only [RanksBefore, UInt64.lt_iff_toNat_lt, ← UInt64.toNat_inj, UInt32.le_iff_toNat_le]
    omega

/-- Scored candidates in order are the ranking of any roster with these candidates. -/
theorem rankStashCandidates_eq_map {ranked : List (UInt64 × HostId)}
    (hsorted : ranked.Pairwise RanksBefore)
    (hperm : ranked.Perm ((roster.filter (· ≠ primary)).map fun candidate =>
      (placementHash membershipEpoch primary volume candidate, candidate))) :
    rankStashCandidates membershipEpoch primary volume roster = ranked.map Prod.snd := by
  have hunique := ((List.perm_insertionSort RanksBefore _).trans hperm.symm).eq_of_pairwise'
    (List.pairwise_insertionSort RanksBefore _) hsorted
  rw [rankStashCandidates, hunique]

theorem rankStashCandidates_congr {other : List HostId} (hperm : other.Perm roster) :
    rankStashCandidates membershipEpoch primary volume other =
      rankStashCandidates membershipEpoch primary volume roster :=
  rankStashCandidates_eq_map membershipEpoch primary volume other
    (List.pairwise_insertionSort RanksBefore _)
    ((List.perm_insertionSort RanksBefore _).trans ((hperm.filter _).map _).symm)

/-- Without a member, the ranking is what is left of the ranking with it. -/
theorem rankStashCandidates_filter (member : HostId) :
    rankStashCandidates membershipEpoch primary volume (roster.filter (· ≠ member)) =
      (rankStashCandidates membershipEpoch primary volume roster).filter (· ≠ member) := by
  let ranked := ((roster.filter (· ≠ primary)).map fun candidate =>
    (placementHash membershipEpoch primary volume candidate, candidate)).insertionSort RanksBefore
  have hsorted : (ranked.filter fun entry => entry.2 ≠ member).Pairwise RanksBefore :=
    (List.pairwise_insertionSort RanksBefore _).filter _
  rw [rankStashCandidates_eq_map membershipEpoch primary volume _ hsorted]
  · rw [rankStashCandidates, List.filter_map]
    rfl
  · refine ((List.perm_insertionSort RanksBefore _).filter _).trans (.of_eq ?_)
    rw [List.filter_map, List.filter_filter, List.filter_filter]
    congr 2
    funext candidate
    exact Bool.and_comm _ _

/-- **The laws of the ranking.**  Each entry of the roster other than the primary is ranked once, the
order of the roster does not matter, and a member that leaves or joins does not change the order of
the others. -/
theorem stash_ranking_laws :
    (rankStashCandidates membershipEpoch primary volume roster).Perm
      (roster.filter (· ≠ primary)) ∧
    (roster.Nodup → ∀ candidate,
      (rankStashCandidates membershipEpoch primary volume roster).count candidate =
        if candidate ∈ roster ∧ candidate ≠ primary then 1 else 0) ∧
    (∀ other, other.Perm roster → rankStashCandidates membershipEpoch primary volume other =
      rankStashCandidates membershipEpoch primary volume roster) ∧
    (∀ member, rankStashCandidates membershipEpoch primary volume (roster.filter (· ≠ member)) =
      (rankStashCandidates membershipEpoch primary volume roster).filter (· ≠ member)) ∧
    ∀ member ∉ roster,
      (rankStashCandidates membershipEpoch primary volume (member :: roster)).filter (· ≠ member) =
        rankStashCandidates membershipEpoch primary volume roster := by
  have hperm := rankStashCandidates_perm membershipEpoch primary volume roster
  refine ⟨hperm, fun hnodup candidate => ?_, fun other hother =>
    rankStashCandidates_congr _ _ _ _ hother, fun member =>
    rankStashCandidates_filter .., fun member hmember => ?_⟩
  · have hranked := hperm.nodup_iff.mpr (hnodup.filter _)
    split_ifs with hcandidate
    · exact List.count_eq_one_of_mem hranked ((mem_rankStashCandidates ..).mpr hcandidate)
    · exact List.count_eq_zero.mpr fun hmem => hcandidate ((mem_rankStashCandidates ..).mp hmem)
  · have hself : (member :: roster).filter (· ≠ member) = roster := by
      rw [List.filter_cons_of_neg (by simp), List.filter_eq_self]
      intro host hhost
      exact decide_eq_true fun heq => hmember (heq ▸ hhost)
    rw [← rankStashCandidates_filter, hself]

end

/-- `ClusterPlacementConfig`: the members of the cluster as a host knows them.  Its roster comes from
a `ClusterPlacement`, whose `validate` asks for members in strictly increasing order. -/
structure ClusterPlacementConfig where
  membershipEpoch : UInt64
  roster : List HostId
  sorted : roster.Pairwise (· < ·)

namespace ClusterPlacementConfig

variable (placement : ClusterPlacementConfig) (primary : HostId) (volume : VolumeId)

/-- The candidates of a volume of this primary. -/
def candidates : List HostId :=
  rankStashCandidates placement.membershipEpoch primary volume placement.roster

theorem nodup_candidates : (placement.candidates primary volume).Nodup :=
  (rankStashCandidates_perm ..).nodup_iff.mpr
    ((placement.sorted.imp fun hlt => UInt32.ne_of_lt hlt).filter _)

theorem length_candidates_le : (placement.candidates primary volume).length ≤ 2 ^ 32 := by
  have hnodup := (placement.nodup_candidates primary volume).map fun _ _ => UInt32.toNat_inj.mp
  have hsub : ((placement.candidates primary volume).map UInt32.toNat) ⊆ List.range (2 ^ 32) := by
    intro n hn
    obtain ⟨host, -, rfl⟩ := List.mem_map.mp hn
    exact List.mem_range.mpr host.toNat_lt
  have hle := (hnodup.subperm hsub).length_le
  rwa [List.length_map, List.length_range] at hle

end ClusterPlacementConfig

end Blockd
