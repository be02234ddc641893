import Mathlib
import Blockd.Lib.Run
import Blockd.Types

/-!
# Node identities

`bootstrap` (`runtime/cluster.rs`) gives a data directory its place in the cluster.  It agrees on the
cluster's id, draws a token and writes it down, and claims the first host id from the token's start
that no other token has; then it writes the host id down.  Claims are created on the condition that
there is none, and never change.

A create may take effect long after its process is gone.  A file is replaced by a rename, which is
visible before the directory is synced and may be undone by a power loss until then; every start
syncs the directory before it reads the file.  A step may fail at any time (`NodeEvent.stop`), so the
checks that only refuse to go on (a temporary file, local state without an identity, another store)
are left out, as is the wire format of the three records.

A directory passes a host id only when another token has it, and sends a claim only while its token
is durable.  So it has one claim at most (`NodeInv.claim_unique`), and `node_identities` follows.
-/

set_option autoImplicit false

namespace Blockd

/-! ## Records -/

abbrev NodeToken := BitVec 128

structure NodeClaim where
  clusterId : UInt64
  host : HostId
  token : NodeToken
  deriving DecidableEq, Repr

structure IdentityFile where
  clusterId : UInt64
  token : NodeToken
  host : Option HostId
  deriving DecidableEq, Repr

def IdentityFile.claim (i : IdentityFile) (host : HostId) : NodeClaim :=
  ⟨i.clusterId, host, i.token⟩

def maxHostIdProbes : Nat := 4096

/-- The first four bytes of the token are where the search starts. -/
def probedHost (token : NodeToken) (offset : Nat) : HostId :=
  ⟨token.setWidth 32⟩ + UInt32.ofNat offset

/-- What the object store has. -/
structure NodeStore where
  cluster : Option UInt64
  claims : HostId → Option NodeClaim

/-- Where a bootstrap is: what it does next. -/
inductive Bootstrap where
  | idle
  | findCluster
  /-- The cluster's metadata is being created. -/
  | createCluster (clusterId : UInt64)
  /-- Another process has created it. -/
  | clusterTaken
  | checkCluster (identity : IdentityFile)
  | writeIdentity (identity : IdentityFile)
  /-- The file is renamed, and the directory not synced yet. -/
  | renamed (identity : IdentityFile)
  | verifyClaim (identity : IdentityFile) (host : HostId)
  | probe (identity : IdentityFile) (offset : Nat)
  | createClaim (identity : IdentityFile) (offset : Nat)
  | claimTaken (identity : IdentityFile) (offset : Nat)

structure NodeDirectory where
  visible : Option IdentityFile
  /-- What a power loss leaves. -/
  durable : Option IdentityFile
  /-- The directory's lock lets one process in. -/
  process : Bootstrap

structure NodeWorld (δ : Type) where
  store : NodeStore
  /-- Every create that was sent, whether it took effect or not. -/
  clusterPuts : List UInt64
  claimPuts : List NodeClaim
  dirs : δ → NodeDirectory
  /-- History: what each bootstrap returned. -/
  obtained : List (δ × UInt64 × HostId)

inductive NodeEvent (δ : Type) where
  | start (d : δ)
  /-- The next step succeeds, with what it draws. -/
  | go (d : δ) (token : NodeToken) (random : UInt64)
  /-- A create is answered with a conflict. -/
  | conflict (d : δ)
  /-- The process crashes or fails; an answer that is lost is a failure. -/
  | stop (d : δ)
  /-- The machine crashes; an unsynced rename may be kept. -/
  | powerLoss (d : δ) (kept : Bool)
  | landCluster (clusterId : UInt64)
  | landClaim (claim : NodeClaim)

/-! ## Steps -/

/-- What follows from the claim that is found at a probed host id. -/
def NodeStore.found (s : NodeStore) (i : IdentityFile) (offset : Nat) : Bootstrap :=
  let host := probedHost i.token offset
  if s.claims host = some (i.claim host) then .writeIdentity { i with host := some host }
  else .probe i (offset + 1)

namespace NodeWorld

variable {δ : Type} [DecidableEq δ]

def init : NodeWorld δ := ⟨⟨none, fun _ => none⟩, [], [], fun _ => ⟨none, none, .idle⟩, []⟩

def set (w : NodeWorld δ) (d : δ) (dir : NodeDirectory) : NodeWorld δ :=
  { w with dirs := Function.update w.dirs d dir }

def enter (w : NodeWorld δ) (d : δ) (process : Bootstrap) : NodeWorld δ :=
  w.set d { w.dirs d with process }

/-- The directory gets a token, which no other directory draws. -/
def draw (owner : NodeToken → δ) (w : NodeWorld δ) (d : δ) (clusterId : UInt64)
    (token : NodeToken) : Option (NodeWorld δ) :=
  if owner token = d then some (w.enter d (.writeIdentity ⟨clusterId, token, none⟩)) else none

def go (owner : NodeToken → δ) (w : NodeWorld δ) (d : δ) (token : NodeToken) (random : UInt64) :
    Bootstrap → Option (NodeWorld δ)
  | .idle => none
  | .findCluster =>
    match w.store.cluster with
    | some found => w.draw owner d found token
    | none =>
      let id := max random 1
      some { w.enter d (.createCluster id) with clusterPuts := id :: w.clusterPuts }
  | .createCluster id => if w.store.cluster = some id then w.draw owner d id token else none
  | .clusterTaken =>
    match w.store.cluster with
    | some found => w.draw owner d found token
    | none => some (w.enter d .idle)
  | .checkCluster i =>
    if w.store.cluster = some i.clusterId then
      match i.host with
      | some host => some (w.enter d (.verifyClaim i host))
      | none => some (w.enter d (.probe i 0))
    else some (w.enter d .idle)
  | .writeIdentity i => some (w.set d ⟨some i, (w.dirs d).durable, .renamed i⟩)
  | .renamed i =>
    let dir := w.dirs d
    match i.host with
    | some host => some { w.set d ⟨dir.visible, dir.visible, .idle⟩ with
        obtained := (d, i.clusterId, host) :: w.obtained }
    | none => some (w.set d ⟨dir.visible, dir.visible, .probe i 0⟩)
  | .verifyClaim i host =>
    if w.store.claims host = some (i.claim host) then
      some { w.enter d .idle with obtained := (d, i.clusterId, host) :: w.obtained }
    else some (w.enter d .idle)
  | .probe i offset =>
    if offset < maxHostIdProbes then
      match w.store.claims (probedHost i.token offset) with
      | some _ => some (w.enter d (w.store.found i offset))
      | none => some { w.enter d (.createClaim i offset) with
          claimPuts := i.claim (probedHost i.token offset) :: w.claimPuts }
    else some (w.enter d .idle)
  | .createClaim i offset =>
    let host := probedHost i.token offset
    if w.store.claims host = some (i.claim host) then
      some (w.enter d (.writeIdentity { i with host := some host }))
    else none
  | .claimTaken i offset => some (w.enter d (w.store.found i offset))

def step (owner : NodeToken → δ) (w : NodeWorld δ) : NodeEvent δ → Option (NodeWorld δ)
  | .start d =>
    let dir := w.dirs d
    match dir.process, dir.visible with
    | .idle, none => some (w.set d ⟨none, none, .findCluster⟩)
    | .idle, some i => some (w.set d ⟨some i, some i, .checkCluster i⟩)
    | _, _ => none
  | .go d token random => w.go owner d token random (w.dirs d).process
  | .conflict d =>
    match (w.dirs d).process with
    | .createCluster _ =>
      if w.store.cluster.isSome then some (w.enter d .clusterTaken) else none
    | .createClaim i offset =>
      if (w.store.claims (probedHost i.token offset)).isSome then
        some (w.enter d (.claimTaken i offset))
      else none
    | _ => none
  | .stop d => some (w.enter d .idle)
  | .powerLoss d kept =>
    let dir := w.dirs d
    let file := if kept then dir.visible else dir.durable
    some (w.set d ⟨file, file, .idle⟩)
  | .landCluster id =>
    if id ∈ w.clusterPuts ∧ w.store.cluster = none then
      some { w with store := { w.store with cluster := some id } }
    else none
  | .landClaim claim =>
    if claim ∈ w.claimPuts ∧ w.store.claims claim.host = none then
      some { w with store := { w.store with
        claims := Function.update w.store.claims claim.host (some claim) } }
    else none

end NodeWorld

/-! ## What is kept -/

/-- Nothing that is stored changes. -/
structure NodeStore.Grows (s s' : NodeStore) : Prop where
  cluster : ∀ id, s.cluster = some id → s'.cluster = some id
  claims : ∀ host c, s.claims host = some c → s'.claims host = some c

/-- Other tokens have every host id before the offset. -/
def Passed (s : NodeStore) (token : NodeToken) (offset : Nat) : Prop :=
  ∀ k < offset, ∃ c, s.claims (probedHost token k) = some c ∧ c.token ≠ token

/-- The token would survive a power loss. -/
def NodeDirectory.Held (dir : NodeDirectory) (token : NodeToken) : Prop :=
  ∃ j ∈ dir.durable, j.token = token

section

variable {δ : Type} (owner : NodeToken → δ)

structure IdentityOk (s : NodeStore) (d : δ) (i : IdentityFile) : Prop where
  cluster : s.cluster = some i.clusterId
  owned : owner i.token = d
  claimed : ∀ host ∈ i.host, s.claims host = some (i.claim host)

def ProcessOk (s : NodeStore) (d : δ) (dir : NodeDirectory) : Bootstrap → Prop
  | .idle => True
  | .findCluster | .createCluster _ | .clusterTaken => dir.durable = none
  | .checkCluster i | .verifyClaim i _ => IdentityOk owner s d i ∧ dir.Held i.token
  | .writeIdentity i => IdentityOk owner s d i ∧ ∀ j ∈ dir.durable, j.token = i.token
  | .renamed i =>
    (IdentityOk owner s d i ∧ ∀ j ∈ dir.durable, j.token = i.token) ∧ dir.visible = some i
  | .probe i offset | .createClaim i offset =>
    IdentityOk owner s d i ∧ dir.Held i.token ∧ Passed s i.token offset
  | .claimTaken i offset =>
    (IdentityOk owner s d i ∧ dir.Held i.token ∧ Passed s i.token offset) ∧
      (s.claims (probedHost i.token offset)).isSome

structure DirOk (s : NodeStore) (d : δ) (dir : NodeDirectory) : Prop where
  visible : ∀ i ∈ dir.visible, IdentityOk owner s d i
  durable : ∀ j ∈ dir.durable, IdentityOk owner s d j
  kept : ∀ j ∈ dir.durable, ∃ i ∈ dir.visible, i.token = j.token
  process : ProcessOk owner s d dir dir.process

/-- A claim that was sent: its token is durable, and it could not have gone to an earlier host id. -/
structure NodeClaimOk (s : NodeStore) (dirs : δ → NodeDirectory) (c : NodeClaim) : Prop where
  cluster : s.cluster = some c.clusterId
  held : (dirs (owner c.token)).Held c.token
  probed : ∃ offset, c.host = probedHost c.token offset ∧ Passed s c.token offset

structure NodeInv (w : NodeWorld δ) : Prop where
  dirs : ∀ d, DirOk owner w.store d (w.dirs d)
  puts : ∀ c ∈ w.claimPuts, NodeClaimOk owner w.store w.dirs c
  claims : ∀ host c, w.store.claims host = some c → c.host = host ∧
    NodeClaimOk owner w.store w.dirs c
  obtained : ∀ e ∈ w.obtained, w.store.cluster = some e.2.1 ∧
    ∃ token, owner token = e.1 ∧ w.store.claims e.2.2 = some ⟨e.2.1, e.2.2, token⟩

variable {owner} {s s' : NodeStore} {d : δ} {dir : NodeDirectory} {w w' : NodeWorld δ}
  {i : IdentityFile}

theorem Passed.grows {token : NodeToken} {offset : Nat} (h : Passed s token offset)
    (hg : s.Grows s') : Passed s' token offset := fun k hk => by
  obtain ⟨c, hc, hne⟩ := h k hk
  exact ⟨c, hg.claims _ _ hc, hne⟩

theorem IdentityOk.grows (h : IdentityOk owner s d i) (hg : s.Grows s') : IdentityOk owner s' d i :=
  ⟨hg.cluster _ h.cluster, h.owned, fun host hhost => hg.claims _ _ (h.claimed host hhost)⟩

theorem ProcessOk.grows {process : Bootstrap} (h : ProcessOk owner s d dir process)
    (hg : s.Grows s') : ProcessOk owner s' d dir process := by
  match process, h with
  | .idle, h | .findCluster, h | .createCluster _, h | .clusterTaken, h => exact h
  | .checkCluster i, h | .verifyClaim i _, h | .writeIdentity i, h => exact ⟨h.1.grows hg, h.2⟩
  | .renamed i, h => exact ⟨⟨h.1.1.grows hg, h.1.2⟩, h.2⟩
  | .probe i offset, h | .createClaim i offset, h =>
    exact ⟨h.1.grows hg, h.2.1, h.2.2.grows hg⟩
  | .claimTaken i offset, h =>
    obtain ⟨c, hc⟩ := Option.isSome_iff_exists.mp h.2
    exact ⟨⟨h.1.1.grows hg, h.1.2.1, h.1.2.2.grows hg⟩, by rw [hg.claims _ _ hc]; rfl⟩

theorem DirOk.grows (h : DirOk owner s d dir) (hg : s.Grows s') : DirOk owner s' d dir :=
  ⟨fun i hi => (h.visible i hi).grows hg, fun j hj => (h.durable j hj).grows hg, h.kept,
    h.process.grows hg⟩

/-- A directory whose file is durable. -/
theorem DirOk.synced {file : Option IdentityFile} {process : Bootstrap}
    (hfile : ∀ i ∈ file, IdentityOk owner s d i)
    (hp : ProcessOk owner s d ⟨file, file, process⟩ process) :
    DirOk owner s d ⟨file, file, process⟩ :=
  ⟨hfile, hfile, fun j hj => ⟨j, hj, rfl⟩, hp⟩

theorem NodeDirectory.Held.token_eq {token : NodeToken} (h : dir.Held token) :
    ∀ j ∈ dir.durable, j.token = token := by
  obtain ⟨j, hj, rfl⟩ := h
  exact fun j' hj' => congrArg _ (Option.mem_unique hj' hj)

/-- The store grows by what was sent. -/
theorem NodeInv.grow (h : NodeInv owner w) (hg : w.store.Grows s) (hnew : ∀ host c,
    s.claims host = some c → w.store.claims host = some c ∨
      c.host = host ∧ NodeClaimOk owner w.store w.dirs c) :
    NodeInv owner { w with store := s } := by
  have hclaim : ∀ c, NodeClaimOk owner w.store w.dirs c → NodeClaimOk owner s w.dirs c := by
    rintro c ⟨hcluster, hheld, offset, hhost, hpassed⟩
    exact ⟨hg.cluster _ hcluster, hheld, offset, hhost, hpassed.grows hg⟩
  refine ⟨fun d => (h.dirs d).grows hg, fun c hc => hclaim c (h.puts c hc),
    fun host c hc => ?_, fun e he => ?_⟩
  · obtain ⟨hhost, hok⟩ := (hnew host c hc).elim (h.claims host c) id
    exact ⟨hhost, hclaim c hok⟩
  · obtain ⟨hcluster, token, howned, hc⟩ := h.obtained e he
    exact ⟨hg.cluster _ hcluster, token, howned, hg.claims _ _ hc⟩

/-- A bootstrap returns a host id that the directory's token has. -/
theorem NodeInv.obtain (h : NodeInv owner w) {host : HostId} (hi : IdentityOk owner w.store d i)
    (hc : w.store.claims host = some (i.claim host)) :
    NodeInv owner { w with obtained := (d, i.clusterId, host) :: w.obtained } := by
  refine ⟨h.dirs, h.puts, h.claims, fun e he => ?_⟩
  rcases List.mem_cons.mp he with rfl | he
  · exact ⟨hi.cluster, i.token, hi.owned, hc⟩
  · exact h.obtained e he

variable [DecidableEq δ]

/-- One directory changes, and keeps the token that was durable. -/
theorem NodeInv.set (h : NodeInv owner w) (hdir : DirOk owner w.store d dir)
    (hheld : ∀ token, (w.dirs d).Held token → dir.Held token) : NodeInv owner (w.set d dir) := by
  have hclaim : ∀ c, NodeClaimOk owner w.store w.dirs c →
      NodeClaimOk owner w.store (Function.update w.dirs d dir) c := by
    rintro c ⟨hcluster, hold, hprobed⟩
    refine ⟨hcluster, ?_, hprobed⟩
    by_cases howner : owner c.token = d
    · rw [howner, Function.update_self]
      exact hheld _ (howner ▸ hold)
    · rwa [Function.update_of_ne howner]
  refine ⟨fun d' => ?_, fun c hc => hclaim c (h.puts c hc),
    fun host c hc => (h.claims host c hc).imp_right (hclaim c), h.obtained⟩
  show DirOk owner w.store d' (Function.update w.dirs d dir d')
  by_cases hd : d' = d
  · rw [hd, Function.update_self]
    exact hdir
  · rw [Function.update_of_ne hd]
    exact h.dirs d'

theorem NodeInv.enter (h : NodeInv owner w) {process : Bootstrap}
    (hp : ProcessOk owner w.store d { w.dirs d with process } process) :
    NodeInv owner (w.enter d process) :=
  h.set ⟨(h.dirs d).visible, (h.dirs d).durable, (h.dirs d).kept, hp⟩ fun _ hheld => hheld

theorem NodeInv.draw (h : NodeInv owner w) {id : UInt64} {token : NodeToken}
    (hid : w.store.cluster = some id) (hnone : (w.dirs d).durable = none)
    (hdraw : w.draw owner d id token = some w') : NodeInv owner w' := by
  obtain ⟨howned, hdraw⟩ := Option.ite_none_right_eq_some.mp hdraw
  obtain rfl := Option.some.inj hdraw
  exact h.enter ⟨⟨hid, howned, fun _ hhost => nomatch hhost⟩,
    fun j hj => nomatch hnone.symm.trans hj⟩

/-- Either the claim at the host id is the directory's own, or another token has it. -/
theorem NodeInv.found (h : NodeInv owner w) {offset : Nat}
    (hp : IdentityOk owner w.store d i ∧ (w.dirs d).Held i.token ∧ Passed w.store i.token offset)
    {c : NodeClaim} (hc : w.store.claims (probedHost i.token offset) = some c) :
    NodeInv owner (w.enter d (w.store.found i offset)) := by
  obtain ⟨hi, hheld, hpassed⟩ := hp
  rw [NodeStore.found]
  split
  case isTrue hown =>
    refine h.enter ⟨⟨hi.cluster, hi.owned, fun host hhost => ?_⟩, hheld.token_eq⟩
    obtain rfl := Option.some.inj hhost
    exact hown
  case isFalse hother =>
    refine h.enter ⟨hi, hheld, fun k hk => ?_⟩
    rcases Nat.lt_succ_iff_lt_or_eq.mp hk with hk | rfl
    · exact hpassed k hk
    · refine ⟨c, hc, fun htoken => hother ?_⟩
      obtain ⟨hhost, hok⟩ := h.claims _ c hc
      have hcluster := Option.some.inj (hok.cluster.symm.trans hi.cluster)
      rw [hc, IdentityFile.claim, ← hhost, ← hcluster, ← htoken]

/-- **Every successful step of a bootstrap keeps the invariant**: one case for each place. -/
theorem NodeInv.go (h : NodeInv owner w) {token : NodeToken} {random : UInt64} {process : Bootstrap}
    (hp : ProcessOk owner w.store d (w.dirs d) process)
    (hgo : w.go owner d token random process = some w') : NodeInv owner w' := by
  cases process with
  | idle => nomatch hgo
  | findCluster =>
    simp only [NodeWorld.go] at hgo
    split at hgo
    case h_1 found hid => exact h.draw hid hp hgo
    case h_2 =>
      obtain rfl := Option.some.inj hgo
      have hset : NodeInv owner (w.enter d (.createCluster (max random 1))) := h.enter hp
      exact ⟨hset.dirs, hset.puts, hset.claims, hset.obtained⟩
  | createCluster id =>
    simp only [NodeWorld.go] at hgo
    obtain ⟨hid, hgo⟩ := Option.ite_none_right_eq_some.mp hgo
    exact h.draw hid hp hgo
  | clusterTaken =>
    simp only [NodeWorld.go] at hgo
    split at hgo
    case h_1 found hid => exact h.draw hid hp hgo
    case h_2 => exact Option.some.inj hgo ▸ h.enter trivial
  | checkCluster i =>
    simp only [NodeWorld.go] at hgo
    split at hgo
    case isTrue =>
      split at hgo
      case h_1 => exact Option.some.inj hgo ▸ h.enter hp
      case h_2 => exact Option.some.inj hgo ▸ h.enter ⟨hp.1, hp.2, fun _ hk => nomatch hk⟩
    case isFalse => exact Option.some.inj hgo ▸ h.enter trivial
  | writeIdentity i =>
    simp only [NodeWorld.go] at hgo
    refine Option.some.inj hgo ▸ h.set ⟨fun j hj => Option.some.inj hj ▸ hp.1, (h.dirs d).durable,
      fun j hj => ⟨i, rfl, (hp.2 j hj).symm⟩, hp, rfl⟩ fun _ hheld => hheld
  | renamed i =>
    simp only [NodeWorld.go] at hgo
    obtain ⟨⟨hi, htoken⟩, hvisible⟩ := hp
    have hheld : ∀ t, (w.dirs d).Held t → ∀ process,
        NodeDirectory.Held ⟨(w.dirs d).visible, (w.dirs d).visible, process⟩ t := by
      rintro t ⟨j, hj, rfl⟩ process
      exact ⟨i, hvisible, (htoken j hj).symm⟩
    split at hgo
    case h_1 host hhost =>
      obtain rfl := Option.some.inj hgo
      have hidle : DirOk owner w.store d ⟨(w.dirs d).visible, (w.dirs d).visible, .idle⟩ :=
        DirOk.synced (h.dirs d).visible trivial
      exact (h.set hidle fun t ht => hheld t ht _).obtain hi (hi.claimed host hhost)
    case h_2 =>
      exact Option.some.inj hgo ▸ h.set (DirOk.synced (h.dirs d).visible
        ⟨hi, ⟨i, hvisible, rfl⟩, fun _ hk => nomatch hk⟩) fun t ht => hheld t ht _
  | verifyClaim i host =>
    simp only [NodeWorld.go] at hgo
    split at hgo
    case isTrue hc =>
      obtain rfl := Option.some.inj hgo
      have hidle : NodeInv owner (w.enter d .idle) := h.enter trivial
      exact hidle.obtain hp.1 hc
    case isFalse => exact Option.some.inj hgo ▸ h.enter trivial
  | probe i offset =>
    simp only [NodeWorld.go] at hgo
    split at hgo
    case isFalse => exact Option.some.inj hgo ▸ h.enter trivial
    case isTrue =>
      split at hgo
      case h_1 c hc => exact Option.some.inj hgo ▸ h.found hp hc
      case h_2 =>
        obtain rfl := Option.some.inj hgo
        have hset : NodeInv owner (w.enter d (.createClaim i offset)) := h.enter hp
        refine ⟨hset.dirs, fun c hc => ?_, hset.claims, hset.obtained⟩
        rcases List.mem_cons.mp hc with rfl | hc
        · refine ⟨hp.1.cluster, ?_, offset, rfl, hp.2.2⟩
          show (Function.update w.dirs d _ (owner i.token)).Held i.token
          rw [hp.1.owned, Function.update_self]
          exact hp.2.1
        · exact hset.puts c hc
  | createClaim i offset =>
    simp only [NodeWorld.go] at hgo
    obtain ⟨hc, hgo⟩ := Option.ite_none_right_eq_some.mp hgo
    have hfound := h.found hp hc
    rw [NodeStore.found, if_pos hc] at hfound
    exact Option.some.inj hgo ▸ hfound
  | claimTaken i offset =>
    simp only [NodeWorld.go] at hgo
    obtain ⟨c, hc⟩ := Option.isSome_iff_exists.mp hp.2
    exact Option.some.inj hgo ▸ h.found hp.1 hc

/-- **Every event keeps the invariant.** -/
theorem NodeInv.step (h : NodeInv owner w) {event : NodeEvent δ}
    (hstep : w.step owner event = some w') : NodeInv owner w' := by
  cases event with
  | go d token random => exact h.go (h.dirs d).process hstep
  | stop d => exact Option.some.inj hstep ▸ h.enter trivial
  | start d =>
    simp only [NodeWorld.step] at hstep
    have hkept := (h.dirs d).kept
    split at hstep
    case h_1 hidle hvisible =>
      -- no file, so there was no durable one
      have hnone : ∀ t, ¬ (w.dirs d).Held t := by
        rintro t ⟨j, hj, -⟩
        obtain ⟨i, hi, -⟩ := hkept j hj
        exact nomatch hvisible.symm.trans hi
      exact Option.some.inj hstep ▸ h.set (DirOk.synced (fun _ hi => nomatch hi) rfl)
        fun t ht => absurd ht (hnone t)
    case h_2 i hidle hvisible =>
      have hi := (h.dirs d).visible i hvisible
      refine Option.some.inj hstep ▸ h.set (DirOk.synced (fun j hj => Option.some.inj hj ▸ hi)
        ⟨hi, i, rfl, rfl⟩) fun t ⟨j, hj, ht⟩ => ?_
      obtain ⟨i', hi', htoken⟩ := hkept j hj
      exact ⟨i', hvisible.symm.trans hi', htoken.trans ht⟩
    case h_3 => nomatch hstep
  | conflict d =>
    have hp := (h.dirs d).process
    simp only [NodeWorld.step] at hstep
    split at hstep
    case h_1 id hprocess =>
      obtain ⟨-, hstep⟩ := Option.ite_none_right_eq_some.mp hstep
      rw [hprocess] at hp
      exact Option.some.inj hstep ▸ h.enter hp
    case h_2 i offset hprocess =>
      obtain ⟨hsome, hstep⟩ := Option.ite_none_right_eq_some.mp hstep
      rw [hprocess] at hp
      exact Option.some.inj hstep ▸ h.enter ⟨hp, hsome⟩
    case h_3 => nomatch hstep
  | powerLoss d kept =>
    have hd := h.dirs d
    refine Option.some.inj hstep ▸ h.set (DirOk.synced ?_ trivial) fun t ⟨j, hj, ht⟩ => ?_
    · cases kept
      · exact hd.durable
      · exact hd.visible
    · cases kept
      · exact ⟨j, hj, ht⟩
      · obtain ⟨i, hi, htoken⟩ := hd.kept j hj
        exact ⟨i, hi, htoken.trans ht⟩
  | landCluster id =>
    obtain ⟨⟨-, hnone⟩, hstep⟩ := Option.ite_none_right_eq_some.mp hstep
    refine Option.some.inj hstep ▸ h.grow ⟨fun id' hid' => ?_, fun _ _ hc => hc⟩
      fun _ _ hc => .inl hc
    exact nomatch hnone.symm.trans hid'
  | landClaim claim =>
    obtain ⟨⟨hsent, hnone⟩, hstep⟩ := Option.ite_none_right_eq_some.mp hstep
    refine Option.some.inj hstep ▸ h.grow ⟨fun _ hid => hid, fun host c hc => ?_⟩
      fun host c hc => ?_
    · have hne : host ≠ claim.host := by
        rintro rfl
        exact nomatch hnone.symm.trans hc
      exact (Function.update_of_ne hne _ _).trans hc
    · by_cases hhost : host = claim.host
      · subst hhost
        have hself : Function.update w.store.claims claim.host (some claim) claim.host = some c := hc
        rw [Function.update_self, Option.some.injEq] at hself
        exact .inr (hself ▸ ⟨rfl, h.puts _ hsent⟩)
      · exact .inl ((Function.update_of_ne hhost _ _).symm.trans hc)

omit [DecidableEq δ] in
/-- A token has one claim: the later of two would have passed the earlier. -/
theorem NodeInv.claim_unique (h : NodeInv owner w) {c c' : NodeClaim} {host host' : HostId}
    (hc : w.store.claims host = some c) (hc' : w.store.claims host' = some c')
    (htoken : c.token = c'.token) : host = host' := by
  obtain ⟨rfl, -, -, k, hk, hpassed⟩ := h.claims host c hc
  obtain ⟨rfl, -, -, k', hk', hpassed'⟩ := h.claims host' c' hc'
  rcases Nat.lt_trichotomy k k' with hlt | rfl | hlt
  · obtain ⟨other, hother, hne⟩ := hpassed' k hlt
    rw [← htoken, ← hk] at hother
    exact absurd (congrArg NodeClaim.token (Option.some.inj (hother.symm.trans hc)))
      (htoken ▸ hne)
  · rw [hk, hk', htoken]
  · obtain ⟨other, hother, hne⟩ := hpassed k' hlt
    rw [htoken, ← hk'] at hother
    exact absurd (congrArg NodeClaim.token (Option.some.inj (hother.symm.trans hc')))
      (htoken ▸ hne)

/-- **Node identities are unique and stable**, whatever the directories, crashes and late writes: no
two directories get one host id, no directory gets two, and all get one cluster id. -/
theorem node_identities (owner : NodeToken → δ) (events : List (NodeEvent δ)) {w : NodeWorld δ}
    (hrun : Run.run (NodeWorld.step owner) NodeWorld.init events = some w) :
    ∀ e ∈ w.obtained, ∀ e' ∈ w.obtained,
      (e.2.2 = e'.2.2 → e.1 = e'.1) ∧ (e.1 = e'.1 → e.2.2 = e'.2.2) ∧ e.2.1 = e'.2.1 := by
  have hinit : NodeInv owner NodeWorld.init :=
    ⟨fun _ => DirOk.synced (fun _ hi => (nomatch hi)) trivial, List.forall_mem_nil _,
      fun _ _ hc => (nomatch hc), List.forall_mem_nil _⟩
  have hinv : NodeInv owner w :=
    Run.run_invariant_of_step (fun _ _ _ h hstep => h.step hstep) hinit hrun
  intro e he e' he'
  obtain ⟨hcluster, token, howned, hc⟩ := hinv.obtained e he
  obtain ⟨hcluster', token', howned', hc'⟩ := hinv.obtained e' he'
  refine ⟨fun hhost => ?_, fun hd => ?_, Option.some.inj (hcluster.symm.trans hcluster')⟩
  · rw [hhost, hc', Option.some.injEq] at hc
    have htoken : token' = token := congrArg NodeClaim.token hc
    rw [← howned, ← howned', htoken]
  · -- both tokens are the durable one of the directory
    have hheld := (hinv.claims _ _ hc).2.held
    have hheld' := (hinv.claims _ _ hc').2.held
    rw [howned, hd] at hheld
    rw [howned'] at hheld'
    obtain ⟨j, hj, hjtoken⟩ := hheld
    exact hinv.claim_unique hc hc' (hjtoken.symm.trans (hheld'.token_eq j hj))

end

/-- Directories 0 and 1 start at the same host id.  The first claim lands after its process has
crashed, and the other directory goes on to the next host id. -/
def lateClaim : List (NodeEvent Bool) :=
  let go (d : Bool) : NodeEvent Bool := .go d (if d then 1#128 <<< 127 else 0) 5
  [.start false, go false, .landCluster 5, go false, go false, go false, go false, .stop false,
    .landClaim ⟨5, 0, 0⟩, .start true, go true, go true, go true, go true, go true,
    .landClaim ⟨5, 1, 1#128 <<< 127⟩, go true, go true, go true, .start false, go false, go false,
    go false, go false]

theorem node_identities_late_claim : ∃ w,
    Run.run (NodeWorld.step fun token => token.msb) NodeWorld.init lateClaim = some w ∧
    w.obtained = [(false, 5, 0), (true, 5, 1)] ∧
    ∀ e ∈ w.obtained, ∀ e' ∈ w.obtained,
      (e.2.2 = e'.2.2 → e.1 = e'.1) ∧ (e.1 = e'.1 → e.2.2 = e'.2.2) ∧ e.2.1 = e'.2.1 := by
  have hsome : ((Run.run (NodeWorld.step fun token => token.msb) NodeWorld.init lateClaim).map
      NodeWorld.obtained) = some [(false, 5, 0), (true, 5, 1)] := by decide +kernel
  obtain ⟨w, hrun, hobtained⟩ := Option.map_eq_some_iff.mp hsome
  exact ⟨w, hrun, hobtained, node_identities _ _ hrun⟩

end Blockd
