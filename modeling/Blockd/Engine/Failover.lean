import Blockd.Engine.HeadUpdates
import Blockd.Placement

/-!
# Replacing a passive that fails

A replication that gives up its target calls `transition_stash`, which proposes the next candidate of
the roster as the transition peer; once that peer has the newest commit, `activate_stash` makes it
the active peer and retires the former one, until that one acknowledges its release.

`Failover` is a primary whose passives fail one after another and never come back, so that no
release is ever acknowledged.  Its epochs map cyclically onto the candidates, and no candidate is
used up.  What does run out is the list of retired peers: `failover_proposes` says that a replacement
is found while that list has room, `not_failover_proposes` that none is found once it is full.  A
pending transition is proposed again as it is, so a transition peer that fails is never replaced
(`target_never_replaced`, `not_target_replaced`).
-/

set_option autoImplicit false

namespace Blockd

/-- The primary of a volume, as far as it looks for passives. -/
structure Failover where
  host : HostId
  volume : VolumeId
  cache : HeadCache

inductive FailoverStep where
  /-- A replication gives up its target: `transition_stash`, with the placement of the moment. -/
  | transition (placement : ClusterPlacementConfig) (version : UInt64)
  /-- The transition peer has the commit `info`: `activate_stash`. -/
  | activate (info : ReplicaCommitInfo) (version : UInt64)

namespace Failover

/-- A volume that has just been created. -/
def created (host : HostId) (volume : VolumeId) (fence version : UInt64)
    (placement : ClusterPlacementConfig) : Option Failover :=
  (placement.candidates host volume).head?.map fun peer =>
    ⟨host, volume, ⟨fence, some version, none,
      some (initialStash peer placement.membershipEpoch), []⟩⟩

/-- The proposal of the primary with a given placement. -/
def proposal (s : Failover) (placement : ClusterPlacementConfig) : Option StashAssignment :=
  transitionProposal s.cache (placement.candidates s.host s.volume)

/-- The assignment that `cas_assignment` has written is taken over. -/
def adopt (s : Failover) (version : UInt64) (assignment : StashAssignment)
    (retired : List RetiredStash) : Failover :=
  { s with cache := s.cache.adoptAssignment version assignment retired }

def step (s : Failover) : FailoverStep → Option Failover
  | .transition placement version =>
    (s.proposal placement).map fun assignment =>
      s.adopt version assignment s.cache.retiredStashes
  | .activate info version =>
    s.cache.stashAssignment.bind fun current =>
      current.transitionPeer.bind fun target =>
        (activationProposal s.cache target current.assignmentEpoch info).map fun next =>
          s.adopt version next.1 next.2

end Failover

/-! ## The next candidate -/

/-- Among `n` consecutive numbers there is one of every residue. -/
theorem exists_add_mod_eq {n i : Nat} (hi : i < n) (e : Nat) : ∃ k < n, (e + k) % n = i := by
  have he : e % n < n := Nat.mod_lt e (by omega)
  refine ⟨(i + (n - e % n)) % n, Nat.mod_lt _ (by omega), ?_⟩
  calc (e + (i + (n - e % n)) % n) % n
      = (e % n + (i + (n - e % n))) % n := by rw [Nat.add_mod_mod, Nat.mod_add_mod]
    _ = (i + n) % n := by congr 1; omega
    _ = i := by rw [Nat.add_mod_right, Nat.mod_eq_of_lt hi]

variable {candidates : List HostId} {current : StashAssignment}

theorem nextCandidate_spec {fuel : Nat} {epoch : UInt64} {next : UInt64 × HostId}
    (h : nextCandidate candidates current fuel epoch = some next) :
    next.2 ∈ candidates ∧ next.2 ≠ current.activePeer ∧
      next.1.toNat ≤ epoch.toNat + fuel := by
  induction fuel generalizing epoch with
  | zero => nomatch h
  | succ fuel ih =>
    simp only [nextCandidate, Option.bind_eq_bind, Option.bind_eq_some_iff] at h
    obtain ⟨later, hadd, candidate, hget, h⟩ := h
    have hlater : later.toNat = epoch.toNat + 1 := toNat_of_checkedAdd hadd
    split at h
    case isTrue hfree =>
      obtain rfl := Option.some.inj h
      exact ⟨List.mem_of_getElem? hget, hfree.1, by show later.toNat ≤ _; omega⟩
    case isFalse =>
      obtain ⟨hmem, hne, hle⟩ := ih h
      exact ⟨hmem, hne, by omega⟩

/-- The epochs after `epoch` visit the candidates in turn, so a free one that is `k` places ahead is
found. -/
theorem exists_nextCandidate {candidate : HostId} (hnone : current.transitionPeer = none)
    (hfree : candidate ≠ current.activePeer) {fuel k : Nat} {epoch : UInt64} (hk : k < fuel)
    (hroom : epoch.toNat + fuel < 2 ^ 64)
    (hget : candidates[(epoch.toNat + k) % candidates.length]? = some candidate) :
    ∃ next, nextCandidate candidates current fuel epoch = some next := by
  induction fuel generalizing epoch k with
  | zero => exact absurd hk (Nat.not_lt_zero k)
  | succ fuel ih =>
    have hone : (1 : UInt64).toNat = 1 := rfl
    have hadd : checkedAdd epoch 1 = some (epoch + 1) := if_pos (by omega)
    have hnext : (epoch + 1).toNat = epoch.toNat + 1 := toNat_of_checkedAdd hadd
    have hindex : (epoch + 1 - 1).toNat = epoch.toNat := by rw [UInt64.add_sub_cancel]
    have hlength : 0 < candidates.length :=
      List.length_pos_of_mem (List.mem_of_getElem? hget)
    have hfirst := List.getElem?_eq_getElem (Nat.mod_lt epoch.toNat hlength)
    simp only [nextCandidate, hadd, hindex, hfirst, Option.bind_eq_bind, Option.bind_some]
    split
    case isTrue => exact ⟨_, rfl⟩
    case isFalse hused =>
      -- the candidate in front is not the free one
      have hpos : k ≠ 0 := by
        rintro rfl
        rw [Nat.add_zero, hfirst, Option.some.injEq] at hget
        refine hused ⟨hget ▸ hfree, ?_⟩
        rw [hnone]
        rintro ⟨⟩
      refine ih (k := k - 1) (by omega) (by omega) ?_
      rwa [hnext, Nat.add_assoc, Nat.add_sub_cancel' (by omega)]

/-- **A replacement is found** when the list of retired peers has room, no transition is pending, the
epochs do not run out and there is a candidate besides the active peer. -/
theorem exists_transitionProposal {c : HeadCache} (hstash : c.stashAssignment = some current)
    (hroom : c.retiredStashes.length < maxRetiredStashes) (hnone : current.transitionPeer = none)
    (hepoch : current.assignmentEpoch.toNat + candidates.length < 2 ^ 64)
    {candidate : HostId} (hmem : candidate ∈ candidates)
    (hfree : candidate ≠ current.activePeer) :
    ∃ epoch peer, current.assignmentEpoch < epoch ∧
      epoch.toNat ≤ current.assignmentEpoch.toNat + candidates.length ∧
      peer ∈ candidates ∧ peer ≠ current.activePeer ∧
      transitionProposal c candidates =
        some { current with assignmentEpoch := epoch, transitionPeer := some peer } := by
  obtain ⟨i, hi, rfl⟩ := List.mem_iff_getElem.mp hmem
  obtain ⟨k, hk, hmod⟩ := exists_add_mod_eq hi current.assignmentEpoch.toNat
  obtain ⟨⟨epoch, peer⟩, hnext⟩ := exists_nextCandidate hnone hfree hk hepoch
    (by rw [hmod, List.getElem?_eq_getElem hi])
  obtain ⟨hpeer, hne, hle⟩ := nextCandidate_spec hnext
  refine ⟨epoch, peer, lt_of_nextCandidate hnext, hle, hpeer, hne, ?_⟩
  rw [transitionProposal, if_neg (not_le_of_gt hroom), hstash]
  simp [hnone, hnext]

/-! ## Runs -/

/-- The peers that have been replaced, with the one that is being replaced. -/
def Failover.replaced (s : Failover) (current : StashAssignment) : Nat :=
  s.cache.retiredStashes.length + if current.transitionPeer.isSome then 1 else 0

/-- What holds of the assignment in every run: each replacement takes at most one turn through the
candidates, and each activation retires a peer of an epoch that was not retired before. -/
structure Failover.Settled (s : Failover) (current : StashAssignment) : Prop where
  stash : s.cache.stashAssignment = some current
  bound : s.replaced current ≤ maxRetiredStashes
  epoch : current.assignmentEpoch.toNat ≤ 1 + 2 ^ 32 * s.replaced current
  active : current.activeAssignmentEpoch ≤ current.assignmentEpoch
  pending : current.transitionPeer.isSome →
    current.activeAssignmentEpoch < current.assignmentEpoch
  fresh : ∀ r ∈ s.cache.retiredStashes, r.assignmentEpoch < current.activeAssignmentEpoch
  primary : current.activePeer ≠ s.host
  target : ∀ peer ∈ current.transitionPeer, peer ≠ s.host

namespace Failover

variable {s t : Failover} {placement : ClusterPlacementConfig}

theorem Settled.created {host : HostId} {volume : VolumeId} {fence version : UInt64}
    (h : Failover.created host volume fence version placement = some s) :
    ∃ current, s.Settled current := by
  obtain ⟨peer, hpeer, rfl⟩ := Option.map_eq_some_iff.mp h
  have hmem := (mem_rankStashCandidates ..).mp (List.mem_of_head? hpeer)
  exact ⟨_, rfl, Nat.zero_le _, Nat.le_add_right 1 _, le_rfl, nofun, nofun, hmem.2, nofun⟩

/-- One step of `transition_stash`: a pending transition is proposed again, and otherwise the next
candidate. -/
theorem Settled.transition (h : s.Settled current) {assignment : StashAssignment}
    (hp : s.proposal placement = some assignment) (version : UInt64) :
    (s.adopt version assignment s.cache.retiredStashes).Settled assignment := by
  rw [proposal, transitionProposal, Option.ite_none_left_eq_some, h.stash,
    Option.bind_some] at hp
  obtain ⟨hroom, hp⟩ := hp
  by_cases hsome : current.transitionPeer.isSome
  · rw [if_pos hsome] at hp
    obtain rfl := Option.some.inj hp
    exact { h with stash := rfl }
  · rw [if_neg hsome] at hp
    obtain ⟨next, hnext, rfl⟩ := Option.map_eq_some_iff.mp hp
    obtain ⟨hmem, -, hle⟩ := nextCandidate_spec hnext
    have hlt := lt_of_nextCandidate hnext
    have hlength := placement.length_candidates_le s.host s.volume
    have hold : s.replaced current = s.cache.retiredStashes.length := by simp [replaced, hsome]
    have hnew : (s.adopt version { current with
        assignmentEpoch := next.1, transitionPeer := some next.2 } s.cache.retiredStashes).replaced
          { current with assignmentEpoch := next.1, transitionPeer := some next.2 } =
        s.cache.retiredStashes.length + 1 := rfl
    have hepoch := h.epoch
    rw [hold] at hepoch
    refine ⟨rfl, ?_, ?_, h.active.trans hlt.le, fun _ => lt_of_le_of_lt h.active hlt, h.fresh,
      h.primary, ?_⟩
    · rw [hnew]
      omega
    · rw [hnew]
      show next.1.toNat ≤ _
      omega
    · rintro peer ⟨⟩
      exact ((mem_rankStashCandidates ..).mp hmem).2

/-- One step of `activate_stash`. -/
theorem activationProposal_settled (h : s.Settled current) {target : HostId}
    (htarget : current.transitionPeer = some target) (info : ReplicaCommitInfo) :
    activationProposal s.cache target current.assignmentEpoch info =
      some (⟨current.assignmentEpoch, target, current.assignmentEpoch, none,
        current.membershipEpoch⟩, s.cache.retiredStashes ++ [current.former info]) := by
  have hnew : current.former info ∉ s.cache.retiredStashes := fun hmem =>
    absurd (h.fresh _ hmem) (lt_irrefl _)
  rw [activationProposal, h.stash, Option.bind_some, if_neg (by simp [htarget]), if_neg hnew]

theorem Settled.activate (h : s.Settled current) {target : HostId}
    (htarget : current.transitionPeer = some target) (info : ReplicaCommitInfo)
    (version : UInt64) :
    (s.adopt version ⟨current.assignmentEpoch, target, current.assignmentEpoch, none,
        current.membershipEpoch⟩ (s.cache.retiredStashes ++ [current.former info])).Settled
      ⟨current.assignmentEpoch, target, current.assignmentEpoch, none,
        current.membershipEpoch⟩ := by
  have hsome : current.transitionPeer.isSome := by rw [htarget]; rfl
  have hold : s.replaced current = s.cache.retiredStashes.length + 1 := by
    rw [replaced, if_pos hsome]
  have hlength : (s.cache.retiredStashes ++ [current.former info]).length =
      s.cache.retiredStashes.length + 1 := by simp
  refine ⟨rfl, ?_, ?_, le_rfl, nofun, fun r hr => ?_, h.target target htarget, nofun⟩
  · exact (hlength.trans hold.symm).trans_le h.bound
  · show current.assignmentEpoch.toNat ≤
      1 + 2 ^ 32 * (s.cache.retiredStashes ++ [current.former info]).length
    rw [hlength, ← hold]
    exact h.epoch
  · rcases List.mem_append.mp hr with hr | hr
    · exact lt_of_lt_of_le (h.fresh r hr) h.active
    · obtain rfl := List.mem_singleton.mp hr
      exact h.pending hsome

theorem step_activate (h : s.Settled current) {info : ReplicaCommitInfo} {version : UInt64}
    (hst : s.step (.activate info version) = some t) :
    ∃ target, current.transitionPeer = some target ∧
      t = s.adopt version ⟨current.assignmentEpoch, target, current.assignmentEpoch, none,
        current.membershipEpoch⟩ (s.cache.retiredStashes ++ [current.former info]) := by
  rw [step, h.stash, Option.bind_some] at hst
  obtain ⟨target, htarget, hst⟩ := Option.bind_eq_some_iff.mp hst
  rw [activationProposal_settled h htarget] at hst
  exact ⟨target, htarget, (Option.some.inj hst).symm⟩

theorem Settled.exists_activate (h : s.Settled current) {target : HostId}
    (htarget : current.transitionPeer = some target) (info : ReplicaCommitInfo)
    (version : UInt64) : ∃ t, s.step (.activate info version) = some t := by
  rw [Failover.step, h.stash, Option.bind_some, htarget, Option.bind_some,
    activationProposal_settled h htarget]
  exact ⟨_, rfl⟩

theorem Settled.step {a : FailoverStep} (h : ∃ current, s.Settled current)
    (hst : s.step a = some t) : ∃ current, t.Settled current := by
  obtain ⟨current, h⟩ := h
  match a with
  | .transition placement version =>
    obtain ⟨assignment, hp, rfl⟩ := Option.map_eq_some_iff.mp hst
    exact ⟨_, h.transition hp version⟩
  | .activate info version =>
    obtain ⟨target, htarget, rfl⟩ := step_activate h hst
    exact ⟨_, h.activate htarget info version⟩

theorem settled_of_run {host : HostId} {volume : VolumeId} {fence version : UInt64} {start : Failover}
    (hstart : created host volume fence version placement = some start)
    {steps : List FailoverStep} (hrun : Run.run Failover.step start steps = some s) :
    ∃ current, s.Settled current :=
  Run.run_invariant_of_step (fun _ _ _ h hst => Settled.step h hst) (Settled.created hstart) hrun

/-- In a run the epochs do not run out while the list of retired peers has room. -/
theorem Settled.exists_proposal (h : s.Settled current)
    (hroom : s.cache.retiredStashes.length < maxRetiredStashes)
    (hnone : current.transitionPeer = none) (placement : ClusterPlacementConfig)
    {candidate : HostId} (hmem : candidate ∈ placement.roster) (hhost : candidate ≠ s.host)
    (hfree : candidate ≠ current.activePeer) :
    ∃ epoch peer, current.assignmentEpoch < epoch ∧ peer ≠ current.activePeer ∧ peer ≠ s.host ∧
      s.proposal placement =
        some { current with assignmentEpoch := epoch, transitionPeer := some peer } := by
  have hlength := placement.length_candidates_le s.host s.volume
  have hepoch : current.assignmentEpoch.toNat +
      (placement.candidates s.host s.volume).length < 2 ^ 64 := by
    have hle := h.epoch
    have hbound := h.bound
    rw [maxRetiredStashes] at hbound
    omega
  obtain ⟨epoch, peer, hlt, -, hpeer, hne, hp⟩ := exists_transitionProposal h.stash hroom hnone
    hepoch ((mem_rankStashCandidates ..).mpr ⟨hmem, hhost⟩) hfree
  exact ⟨epoch, peer, hlt, hne, ((mem_rankStashCandidates ..).mp hpeer).2, hp⟩

/-- A pending transition is proposed again: it leaves room in the list of retired peers. -/
theorem Settled.proposal_pending (h : s.Settled current) (hsome : current.transitionPeer.isSome)
    (placement : ClusterPlacementConfig) : s.proposal placement = some current := by
  have hbound := h.bound
  rw [replaced, if_pos hsome] at hbound
  rw [proposal, transitionProposal, if_neg (by omega), h.stash, Option.bind_some, if_pos hsome]

/-- So it stays pending through any number of failures. -/
theorem Settled.retried (h : s.Settled current) (hsome : current.transitionPeer.isSome)
    {failures : List (ClusterPlacementConfig × UInt64)}
    (hrun : Run.run Failover.step s (failures.map fun f => .transition f.1 f.2) = some t) :
    t.Settled current := by
  induction failures generalizing s with
  | nil =>
    obtain rfl := Option.some.inj hrun
    exact h
  | cons f failures ih =>
    rw [List.map_cons, Run.run_cons, Failover.step, h.proposal_pending hsome f.1, Option.map_some,
      Option.bind_some] at hrun
    exact ih (h.transition (h.proposal_pending hsome f.1) f.2) hrun

end Failover

/-! ## The results -/

/-- **Failover goes on** while the list of retired peers has room: whatever failed before, a candidate
besides the primary and the active peer is proposed at a later epoch, and its activation keeps the
list within its bound. -/
theorem failover_proposes (host : HostId) (volume : VolumeId) (fence version : UInt64)
    (first : ClusterPlacementConfig) (start s : Failover) (steps : List FailoverStep)
    (hstart : Failover.created host volume fence version first = some start)
    (hrun : Run.run Failover.step start steps = some s)
    (hroom : s.cache.retiredStashes.length < maxRetiredStashes)
    (current : StashAssignment) (hcurrent : s.cache.stashAssignment = some current)
    (hnone : current.transitionPeer = none)
    (placement : ClusterPlacementConfig)
    (hcandidate : ∃ candidate ∈ placement.roster,
      candidate ≠ s.host ∧ candidate ≠ current.activePeer) :
    ∃ assignment peer, s.proposal placement = some assignment ∧
      current.assignmentEpoch < assignment.assignmentEpoch ∧
      assignment.transitionPeer = some peer ∧ peer ≠ current.activePeer ∧ peer ≠ s.host ∧
      ∀ info v w, ∃ t, Run.run Failover.step s [.transition placement v, .activate info w] = some t ∧
        t.cache.retiredStashes.length ≤ maxRetiredStashes := by
  obtain ⟨known, h⟩ := Failover.settled_of_run hstart hrun
  obtain rfl : current = known := Option.some.inj (hcurrent.symm.trans h.stash)
  obtain ⟨candidate, hmem, hhost, hfree⟩ := hcandidate
  obtain ⟨epoch, peer, hlt, hne, hprimary, hp⟩ :=
    h.exists_proposal hroom hnone placement hmem hhost hfree
  refine ⟨_, peer, hp, hlt, rfl, hne, hprimary, fun info v w => ?_⟩
  have hnext := h.transition hp v
  obtain ⟨t, ht⟩ := hnext.exists_activate rfl info w
  obtain ⟨last, hlast⟩ := Failover.Settled.step ⟨_, hnext⟩ ht
  refine ⟨t, ?_, (Nat.le_add_right _ _).trans hlast.bound⟩
  rw [Run.run_cons, Failover.step, hp, Option.map_some, Option.bind_some, Run.run_cons, ht]
  rfl

/-- A cluster of three hosts. -/
def threeMembers : ClusterPlacementConfig := ⟨1, [1, 2, 3], by decide⟩

/-- So many passives in a row fail and are replaced. -/
def failures (n : Nat) : List FailoverStep :=
  (List.replicate n [.transition threeMembers 2, .activate ⟨1, 1, 0⟩ 3]).flatten

theorem failover_proposes_seven : ∃ s current,
    (Failover.created 1 7 1 1 threeMembers).bind (Run.run Failover.step · (failures 7)) = some s ∧
      s.cache.stashAssignment = some current ∧ s.cache.retiredStashes.length = 7 ∧
      ∃ assignment peer, s.proposal threeMembers = some assignment ∧
        current.assignmentEpoch < assignment.assignmentEpoch ∧
        assignment.transitionPeer = some peer ∧ peer ≠ current.activePeer ∧ peer ≠ s.host ∧
        ∀ info v w, ∃ t,
          Run.run Failover.step s [.transition threeMembers v, .activate info w] = some t ∧
            t.cache.retiredStashes.length ≤ maxRetiredStashes := by
  have hrun : ∃ start ∈ Failover.created 1 7 1 1 threeMembers,
      ∃ s ∈ Run.run Failover.step start (failures 7), s.host = 1 ∧
        s.cache.retiredStashes.length = 7 ∧ ∃ current ∈ s.cache.stashAssignment,
          current.activePeer = 2 ∧ current.transitionPeer = none := by
    decide +kernel
  obtain ⟨start, hstart, s, hs, hhost, hretired, current, hcurrent, hactive, hnone⟩ := hrun
  refine ⟨s, current, Option.bind_eq_some_iff.mpr ⟨start, hstart, hs⟩, hcurrent, hretired, ?_⟩
  exact failover_proposes 1 7 1 1 threeMembers start s (failures 7) hstart hs
    (by rw [hretired]; decide) current hcurrent hnone threeMembers
    ⟨3, by decide, by rw [hhost]; decide, by rw [hactive]; decide⟩

/-- **Failover can be exhausted.**  Eight former peers that never acknowledge their release fill the
list, and the next failure finds no replacement. -/
theorem not_failover_proposes : ¬ ∀ (host : HostId) (volume : VolumeId) (fence version : UInt64)
    (first : ClusterPlacementConfig) (start s : Failover) (steps : List FailoverStep),
    Failover.created host volume fence version first = some start →
    Run.run Failover.step start steps = some s →
    ∀ current, s.cache.stashAssignment = some current → ∀ placement : ClusterPlacementConfig,
      (∃ candidate ∈ placement.roster, candidate ≠ s.host ∧ candidate ≠ current.activePeer) →
      ∃ assignment peer, s.proposal placement = some assignment ∧
        current.assignmentEpoch < assignment.assignmentEpoch ∧
        assignment.transitionPeer = some peer ∧ peer ≠ current.activePeer ∧ peer ≠ s.host ∧
        ∀ info v w, ∃ t,
          Run.run Failover.step s [.transition placement v, .activate info w] = some t ∧
            t.cache.retiredStashes.length ≤ maxRetiredStashes := by
  have hrun : ∃ start ∈ Failover.created 1 7 1 1 threeMembers,
      ∃ s ∈ Run.run Failover.step start (failures 8), s.host = 1 ∧
        s.proposal threeMembers = none ∧ ∃ current ∈ s.cache.stashAssignment,
          current.activePeer = 3 := by
    decide +kernel
  obtain ⟨start, hstart, s, hs, hhost, hnone, current, hcurrent, hactive⟩ := hrun
  intro hall
  obtain ⟨assignment, peer, hp, -⟩ := hall 1 7 1 1 threeMembers start s (failures 8) hstart hs
    current hcurrent threeMembers ⟨2, by decide, by rw [hhost]; decide, by rw [hactive]; decide⟩
  exact nomatch hnone.symm.trans hp

/-- Two candidates besides the primary and a peer. -/
def ClusterPlacementConfig.OffersTwo (placement : ClusterPlacementConfig) (host active : HostId) :
    Prop :=
  ∃ a ∈ placement.roster, ∃ b ∈ placement.roster, a ≠ b ∧ a ≠ host ∧ b ≠ host ∧ a ≠ active ∧
    b ≠ active

/-- **A replacement target is never replaced.**  From every state reached with a transition pending to
a target, however often the replication to it fails and whatever the roster is then, the proposal is
the pending assignment as it is, so no other peer is ever named. -/
theorem target_never_replaced (host : HostId) (volume : VolumeId) (fence version : UInt64)
    (first : ClusterPlacementConfig) (start s t : Failover) (steps : List FailoverStep)
    (hstart : Failover.created host volume fence version first = some start)
    (hrun : Run.run Failover.step start steps = some s)
    (current : StashAssignment) (hcurrent : s.cache.stashAssignment = some current)
    (target : HostId) (htarget : current.transitionPeer = some target)
    (failures : List (ClusterPlacementConfig × UInt64))
    (hfailures : Run.run Failover.step s (failures.map fun f => .transition f.1 f.2) = some t)
    (placement : ClusterPlacementConfig) :
    t.proposal placement = some current ∧
      ¬ ∃ assignment peer, t.proposal placement = some assignment ∧
        current.assignmentEpoch < assignment.assignmentEpoch ∧
        assignment.transitionPeer = some peer ∧ peer ≠ target ∧ peer ≠ current.activePeer ∧
        peer ≠ t.host := by
  obtain ⟨known, h⟩ := Failover.settled_of_run hstart hrun
  obtain rfl : current = known := Option.some.inj (hcurrent.symm.trans h.stash)
  have hsome : current.transitionPeer.isSome := by rw [htarget]; rfl
  have hagain := (h.retried hsome hfailures).proposal_pending hsome placement
  refine ⟨hagain, ?_⟩
  rintro ⟨assignment, peer, hp, hlt, -⟩
  obtain rfl := Option.some.inj (hagain.symm.trans hp)
  exact lt_irrefl _ hlt

/-- A cluster of four hosts. -/
def fourMembers : ClusterPlacementConfig := ⟨1, [1, 2, 3, 4], by decide⟩

theorem target_never_replaced_twice : ∃ s t current,
    (Failover.created 1 7 1 1 fourMembers).bind
        (Run.run Failover.step · [.transition fourMembers 2]) = some s ∧
      s.cache.stashAssignment = some current ∧ current.transitionPeer = some 4 ∧
      Run.run Failover.step s [.transition fourMembers 3, .transition threeMembers 4] = some t ∧
      t.proposal fourMembers = some current ∧
      ¬ ∃ assignment peer, t.proposal fourMembers = some assignment ∧
        current.assignmentEpoch < assignment.assignmentEpoch ∧
        assignment.transitionPeer = some peer ∧ peer ≠ 4 ∧ peer ≠ current.activePeer ∧
        peer ≠ t.host := by
  have hrun : ∃ start ∈ Failover.created 1 7 1 1 fourMembers,
      ∃ s ∈ Run.run Failover.step start [.transition fourMembers 2],
        (∃ current ∈ s.cache.stashAssignment, current.transitionPeer = some 4) ∧
        (Run.run Failover.step s [.transition fourMembers 3, .transition threeMembers 4]).isSome := by
    decide +kernel
  obtain ⟨start, hstart, s, hs, ⟨current, hcurrent, htarget⟩, hsome⟩ := hrun
  obtain ⟨t, ht⟩ := Option.isSome_iff_exists.mp hsome
  exact ⟨s, t, current, Option.bind_eq_some_iff.mpr ⟨start, hstart, hs⟩, hcurrent, htarget, ht,
    target_never_replaced 1 7 1 1 fourMembers start s t _ hstart hs current hcurrent 4 htarget
      [(fourMembers, 3), (threeMembers, 4)] ht fourMembers⟩

/-- **A pending replacement is not replaced.**  `transition_stash` proposes it again, with the same
peer at the same epoch. -/
theorem not_target_replaced : ¬ ∀ (host : HostId) (volume : VolumeId) (fence version : UInt64)
    (first : ClusterPlacementConfig) (start s : Failover) (steps : List FailoverStep),
    Failover.created host volume fence version first = some start →
    Run.run Failover.step start steps = some s →
    ∀ current, s.cache.stashAssignment = some current →
    ∀ target, current.transitionPeer = some target →
    ∀ placement : ClusterPlacementConfig, placement.OffersTwo s.host current.activePeer →
      ∃ assignment peer, s.proposal placement = some assignment ∧
        current.assignmentEpoch < assignment.assignmentEpoch ∧
        assignment.transitionPeer = some peer ∧ peer ≠ target ∧ peer ≠ current.activePeer ∧
        peer ≠ s.host := by
  have hrun : ∃ start ∈ Failover.created 1 7 1 1 fourMembers,
      ∃ s ∈ Run.run Failover.step start [.transition fourMembers 2], s.host = 1 ∧
        ∃ current ∈ s.cache.stashAssignment, current.activePeer = 3 ∧
          current.transitionPeer = some 4 ∧ s.proposal fourMembers = some current := by
    decide +kernel
  obtain ⟨start, hstart, s, hs, hhost, current, hcurrent, hactive, htarget, hagain⟩ := hrun
  intro hall
  obtain ⟨assignment, peer, hp, hlt, -⟩ := hall 1 7 1 1 fourMembers start s _ hstart hs current
    hcurrent 4 htarget fourMembers
    ⟨2, by decide, 4, by decide, by decide, by rw [hhost]; decide, by rw [hhost]; decide,
      by rw [hactive]; decide, by rw [hactive]; decide⟩
  obtain rfl := Option.some.inj (hagain.symm.trans hp)
  exact lt_irrefl _ hlt

end Blockd
