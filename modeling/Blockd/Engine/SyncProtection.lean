import Blockd.Engine.Protection

/-!
# What stands behind an acknowledged sync

The watermark of a volume state is safe on one condition: whatever raises it has to be covered, and
stay so.  `Secured` is the invariant that carries this through a run.  Its floor `f` is what every
manifest from now on covers; beside it stand the cuts of the present tenure in the spools that the
head is writing to.  Commits and releases move cuts, and publications raise the floor.

The head itself moves when a conditional write takes effect, which the host learns later or not at
all.  So the invariant speaks of every write that still can (`WriteOk`): it keeps the manifest or puts
in one that reaches the floor, and it keeps the assignment or puts in one that covers what has to stay
covered.  A volume state whose cached version is the head's mirrors the head; one that is behind knows
at least which publication and which change of the assignment it has under way.

This module has the invariant, the steps of one volume state and its messages.  `Engine.SyncHeads`
has the head tasks, `Engine.SyncTenure` the steps that begin a tenure, and `Engine.SyncCoverage` the
runs.
-/

set_option autoImplicit false

namespace Blockd

/-! ## The order of commits -/

theorem ReplicaCommitInfo.writerFence_le {a b : ReplicaCommitInfo} (h : a ≤ b) :
    a.writerFence ≤ b.writerFence := by
  have hcode : a.code ≤ b.code := h
  rcases (Prod.Lex.le_iff.mp hcode) with hlt | ⟨heq, -⟩
  · exact UInt64.le_of_lt hlt
  · exact UInt64.le_iff_toNat_le.mpr heq.le

theorem ReplicaCommitInfo.lt_of_seq_lt {a b : ReplicaCommitInfo} (hf : a.writerFence = b.writerFence)
    (hs : a.seq < b.seq) : a < b := by
  show a.code < b.code
  exact Prod.Lex.lt_iff.mpr (.inr ⟨congrArg UInt64.toNat hf, Prod.Lex.lt_iff.mpr (.inl hs)⟩)

/-! ## Coverage -/

namespace Ground

/-- Covered now and by every later manifest: below the floor `f`, or in one of the spools. -/
def CoversBy (g : Ground) (serving : List (HostId × UInt64)) (f barrier : UInt64) : Prop :=
  (g.head.manifest.isSome ∧ barrier ≤ f) ∨
    ∃ x ∈ serving, ∃ cut, g.spools x.1 ⟨g.head.holder, g.volume, x.2⟩ = some cut ∧
      cut.writerFence = g.tenure ∧ barrier ≤ cut.syncCoveredThrough

/-- The spools are those of the peers that are being written to. -/
def Covers (g : Ground) (f barrier : UInt64) : Prop := g.CoversBy g.head.serving f barrier

variable {g : Ground} {serving serving' : List (HostId × UInt64)} {f f' b b' : UInt64}

theorem CoversBy.mono (h : g.CoversBy serving f b) (hb : b' ≤ b) : g.CoversBy serving f b' := by
  rcases h with ⟨hm, hle⟩ | ⟨x, hx, cut, hcut, hf, hle⟩
  · exact .inl ⟨hm, hb.trans hle⟩
  · exact .inr ⟨x, hx, cut, hcut, hf, hb.trans hle⟩

theorem CoversBy.of_subset (h : g.CoversBy serving f b) (hsub : serving ⊆ serving') :
    g.CoversBy serving' f b :=
  h.imp_right fun ⟨x, hx, hcut⟩ => ⟨x, hsub hx, hcut⟩

theorem CoversBy.of_floor (h : g.CoversBy serving f b) (hf : f ≤ f') : g.CoversBy serving f' b :=
  h.imp_left fun ⟨hm, hle⟩ => ⟨hm, hle.trans hf⟩

/-- A later head of the tenure covers what the spools do. -/
theorem CoversBy.withHead {version : UInt64} {head : HeadRecord} (h : g.CoversBy serving f b)
    (ht : ({ g with version, head } : Ground).tenure = g.tenure)
    (hholder : head.holder = g.head.holder)
    (hsome : g.head.manifest.isSome → head.manifest.isSome) :
    ({ g with version, head } : Ground).CoversBy serving f b := by
  rcases h with ⟨hm, hle⟩ | ⟨x, hx, cut, hcut, hf, hle⟩
  · exact .inl ⟨hsome hm, hle⟩
  · rw [← hholder] at hcut
    exact .inr ⟨x, hx, cut, hcut, hf.trans ht.symm, hle⟩

theorem mem_peers_of_mem_serving {head : HeadRecord} {x : HostId × UInt64}
    (hx : x ∈ head.serving) : x.1 ∈ head.peers :=
  List.mem_append_left _ (List.mem_map_of_mem hx)

theorem Covers.covered {syncOf : ManifestPtr → UInt64} (h : g.Covers f b)
    (hf : ∀ pointer ∈ g.head.manifest, f ≤ syncOf pointer) : g.Covered syncOf b := by
  rcases h with ⟨hm, hle⟩ | ⟨x, hx, cut, hcut, -, hle⟩
  · obtain ⟨pointer, hp⟩ := Option.isSome_iff_exists.mp hm
    exact .inl ⟨pointer, hp, hle.trans (hf pointer hp)⟩
  · exact .inr ⟨x.1, mem_peers_of_mem_serving hx, _, rfl, cut, hcut, hle⟩

/-! ## The records of a tenure -/

/-- Records belong to the present tenure or to an earlier one, those of the present one to its
holder, and there a later record covers what an earlier one does. -/
structure Lineage (g : Ground) : Prop where
  tenure_ne : g.tenure ≠ 0
  tenure_le : g.tenure ≤ g.version
  le : ∀ x ∈ g.records, x.2.writerFence ≤ g.tenure
  holder : ∀ x ∈ g.records, x.2.writerFence = g.tenure → x.1 = g.head.holder
  mono : ∀ x ∈ g.records, ∀ y ∈ g.records, x.2.writerFence = g.tenure →
    y.2.writerFence = g.tenure → x.2 ≤ y.2 →
      x.2.syncCoveredThrough ≤ y.2.syncCoveredThrough

/-- The record is the newest of the present tenure. -/
def Newest (g : Ground) (info : ReplicaCommitInfo) : Prop :=
  ∀ x ∈ g.records, x.2.writerFence = g.tenure → x.2 ≤ info

theorem Lineage.sync_le (h : g.Lineage) {host host' : HostId} {a b : ReplicaCommitInfo}
    (ha : (host, a) ∈ g.records) (hb : (host', b) ∈ g.records) (hab : a ≤ b)
    (hfence : a.writerFence = g.tenure) :
    b.writerFence = g.tenure ∧ a.syncCoveredThrough ≤ b.syncCoveredThrough := by
  have hb' : b.writerFence = g.tenure :=
    UInt64.le_antisymm (h.le _ hb) (hfence ▸ ReplicaCommitInfo.writerFence_le hab)
  exact ⟨hb', h.mono _ ha _ hb hfence hb' hab⟩

/-- The same holder goes on with its tenure. -/
theorem Lineage.withHead (hl : g.Lineage) {version : UInt64} {head : HeadRecord}
    (ht : ({ g with version, head } : Ground).tenure = g.tenure)
    (hholder : head.holder = g.head.holder) (hle : g.version ≤ version) :
    ({ g with version, head } : Ground).Lineage := by
  refine ⟨?_, ?_, ?_, ?_, ?_⟩
  · rw [ht]; exact hl.tenure_ne
  · rw [ht]; exact hl.tenure_le.trans hle
  · rw [ht]; exact hl.le
  · rw [ht]; exact fun x hx hf => (hl.holder x hx hf).trans hholder.symm
  · rw [ht]; exact hl.mono

end Ground

/-! ## The invariant -/

/-- Without a transition the epoch is the active peer's. -/
def StashAssignment.Steady (stash : StashAssignment) : Prop :=
  stash.transitionPeer = none → stash.assignmentEpoch = stash.activeAssignmentEpoch

namespace ProtectedVolume

/-- The commits that a volume state knows of. -/
def infos (p : ProtectedVolume) : List ReplicaCommitInfo :=
  p.best.info :: (p.replication.map ReplicationRun.info).toList ++ p.peerCommitted.toList ++
    (p.publication.map Publication.commit).toList ++ p.peerPublished.toList

/-- The publication that is in its head task. -/
def publishes (p : ProtectedVolume) : Option HeadTask :=
  (p.publication.bind Publication.task).map TaskState.task

/-- The change of the assignment that is under way, with the target of its replication. -/
def proposes (p : ProtectedVolume) : Option ((HostId × UInt64) × HeadTask) :=
  p.replication.bind fun r => r.change.map fun c => ((r.target, r.assignmentEpoch), c.task.task)

/-- The barriers that have to stay covered: those in `owed`, and what the watermark has reached once
the volume is protected. -/
def Needs (p : ProtectedVolume) (owed : List UInt64) (barrier : UInt64) : Prop :=
  barrier ∈ owed ∨ (p.ready = true ∨ p.incoming.isSome ∨ p.peerCommitted.isSome) ∧
    barrier ≤ p.syncAckThrough

end ProtectedVolume

section Invariant

variable (syncOf : ManifestPtr → UInt64) (owed : List UInt64)

/-- The calls that a slot is for. -/
def HeadSlot.Runs (task : HeadTask) : HeadSlot → Prop
  | .publication => ∃ pointer, task = .publishHead pointer
  | .assignment => ∃ a retired, task = .casAssignment a retired
  | .removal _ => ∃ retired, task = .removeRetiredStash retired

/-- A change of the assignment: what it proposes is in the head already, or it covers what has to
stay covered. -/
def ChangeOk (g : Ground) (f : UInt64) (host : HostId) (p : ProtectedVolume)
    (x : HostId × UInt64) (task : HeadTask) : Prop :=
  ∃ a retired, task = .casAssignment a retired ∧ a.Steady ∧
    (∀ e ∈ retired, (host, e.through) ∈ g.records) ∧ x ∈ a.serving ∧
    (g.head.stash = some a ∨ ∀ b, p.Needs owed b → g.CoversBy a.serving f b)

/-- The volume state of the holder. -/
structure CurrentOk (g : Ground) (f : UInt64) (host : HostId) (p : ProtectedVolume) : Prop where
  holder : g.head.holder = host
  /-- Only a change of the assignment that is under way can leave the cached one behind. -/
  stash : p.proposes = none → p.cache.stashAssignment = g.head.stash
  mirrors : p.cache.headVersion = some g.version → p.cache = g.head.cached g.tenure g.version
  retired : ∀ e ∈ p.cache.retiredStashes, (host, e.through) ∈ g.records
  incoming : ∀ claim ∈ p.incoming, claim.holder = host ∧
    ∀ e ∈ claim.retiredStashes, (host, e.through) ∈ g.records
  best_fence : p.best.info.writerFence = g.tenure
  newest : g.Newest p.best.info
  acks : p.syncAckThrough ≤ p.best.info.syncCoveredThrough
  floor : f ≤ p.best.info.syncCoveredThrough
  acked : ∀ b ∈ owed, b ≤ p.syncAckThrough
  covers : ∀ b, p.Needs owed b → g.Covers f b
  run : ∀ r ∈ p.replication, r.info.writerFence = g.tenure ∧
    (r.target, r.assignmentEpoch) ∈ g.head.serving ∧
    p.syncAckThrough ≤ r.info.syncCoveredThrough ∧ f ≤ r.info.syncCoveredThrough ∧
    (∀ c ∈ p.peerCommitted, c.syncCoveredThrough ≤ r.info.syncCoveredThrough) ∧
    ∀ q ∈ p.publication, q.commit.syncCoveredThrough ≤ r.info.syncCoveredThrough
  committed : ∀ c ∈ p.peerCommitted, c.writerFence = g.tenure ∧ f ≤ c.syncCoveredThrough ∧
    ∀ q ∈ p.publication, q.commit.syncCoveredThrough ≤ c.syncCoveredThrough
  publication : ∀ q ∈ p.publication, q.commit.writerFence = g.tenure ∧
    f ≤ q.commit.syncCoveredThrough ∧
    ∀ x ∈ q.task, ∃ pointer, x.task = .publishHead pointer ∧
      syncOf pointer = q.commit.syncCoveredThrough
  change : ∀ x task, p.proposes = some (x, task) → ChangeOk owed g f host p x task
  /-- An activation has been answered by its target. -/
  activates : ∀ r ∈ p.replication, ∀ c ∈ r.change, c.activates = true →
    g.CoversBy [(r.target, r.assignmentEpoch)] f r.info.syncCoveredThrough

structure VolumeOk (g : Ground) (f : UInt64) (host : HostId) (p : ProtectedVolume) : Prop where
  made : ∀ i ∈ p.infos, (host, i) ∈ g.records
  published : ∀ c ∈ p.peerPublished, p.cache.headVersion.isSome ∧
    (c.writerFence = g.tenure → g.head.manifest.isSome ∧ c.syncCoveredThrough ≤ f)
  fence_le : p.cache.fence ≤ g.tenure
  version_le : ∀ v ∈ p.cache.headVersion, v ≤ g.version
  known : p.cache.headVersion = some g.version → p.cache.fence = g.tenure
  holds : p.cache.headVersion.isSome → g.head.holder = host → p.cache.fence = g.tenure
  tasks : ∀ slot x, p.headTask slot = some x → slot.Runs x.task ∧ p.cache.headVersion.isSome ∧
    ∀ round v found, x.phase = .served round v found → v ≤ g.version
  incoming : p.incoming.isSome → p.cache.headVersion.isSome
  pending : ∀ b ∈ p.pendingSyncs, p.syncAckThrough < b
  current : p.OfTenure g.tenure → CurrentOk syncOf owed g f host p

/-- A conditional write of the head that can still take effect.  It is the holder's, and it changes
what its task is to change. -/
structure WriteOk (g : Ground) (volumes : HostId → Option ProtectedVolume) (f : UInt64)
    (head : HeadRecord) : Prop where
  made : ∃ x ∈ g.records, x.2.writerFence = g.tenure
  holder : head.holder = g.head.holder
  fence : head.fence = g.tenure
  retired : ∀ e ∈ head.retiredStashes, (g.head.holder, e.through) ∈ g.records
  manifest : head.manifest = g.head.manifest ∨ ∃ pointer, head.manifest = some pointer ∧
    f ≤ syncOf pointer ∧ ∀ p, volumes g.head.holder = some p → p.cache.headVersion.isSome →
      p.publishes = some (.publishHead pointer)
  stash : head.stash = g.head.stash ∨ ∃ a, head.stash = some a ∧ a.Steady ∧
    (∀ b ∈ owed, g.CoversBy a.serving f b) ∧
    ∀ p, volumes g.head.holder = some p → p.cache.headVersion.isSome →
      ∃ x retired, p.proposes = some (x, .casAssignment a retired)

/-- A claim that is not in the journal yet and that the head still stands for: nobody has written a
record of its tenure. -/
structure FreshClaim (g : Ground) (f : UInt64) (host : HostId) (c : LandedClaim) : Prop where
  head : g.head = c.head
  version : g.version = c.version
  holder : g.head.holder = host
  none : ∀ x ∈ g.records, x.2.writerFence ≠ g.tenure
  floor : f ≤ c.offer.cut.info.syncCoveredThrough
  covers : g.Covers f c.offer.cut.info.syncCoveredThrough
  acked : ∀ b ∈ owed, b ≤ c.offer.cut.info.syncCoveredThrough

structure ClaimOk (g : Ground) (f : UInt64) (host : HostId) (c : LandedClaim) : Prop where
  le : c.version ≤ g.tenure
  holds : g.head.holder = host → c.version = g.tenure
  retired : ∀ e ∈ c.head.retiredStashes, (host, e.through) ∈ g.records
  fresh : c.version = g.tenure → FreshClaim owed g f host c

/-- The write has not taken effect and expects the present version. -/
def Protection.Live (s : Protection) (r : Cas.Request UInt64 StoredHead) : Prop :=
  r.landed = none ∧ r.expected = s.version

structure Secured (s : Protection) (f : UInt64) : Prop where
  lineage : s.toGround.Lineage
  manifest : ∀ pointer ∈ s.head.manifest, f ≤ syncOf pointer
  steady : ∀ stash ∈ s.head.stash, stash.Steady
  retired : ∀ e ∈ s.head.retiredStashes, (s.head.holder, e.through) ∈ s.records
  spools : ∀ peer key c, s.spools peer key = some c → (key.source, c) ∈ s.records
  commits : ∀ m ∈ s.commits, (m.key.source, m.info) ∈ s.records
  replies : ∀ m ∈ s.replies, (m.key.source, m.info) ∈ s.records
  replied : ∀ m ∈ s.replies, m.info.writerFence = s.tenure →
    (∃ c, s.spools m.peer m.key = some c ∧ m.info ≤ c) ∨
      s.head.manifest.isSome ∧ m.info.syncCoveredThrough ≤ f
  releases : ∀ m ∈ s.releases, s.tenure ≤ m.info.writerFence →
    (m.key.source, m.info) ∈ s.records ∧ s.head.manifest.isSome ∧ m.info.syncCoveredThrough ≤ f
  volumes : ∀ host p, s.volumes host = some p → VolumeOk syncOf owed s.toGround f host p
  saved : ∀ host d, s.saved host = some d → (host, d.best.info) ∈ s.records
  saved_newest : ∀ host d, s.saved host = some d → d.best.info.writerFence = s.tenure →
    s.toGround.Newest d.best.info ∧ f ≤ d.best.info.syncCoveredThrough ∧
      ∀ b ∈ owed, b ≤ d.best.info.syncCoveredThrough
  claims : ∀ host c, s.claims host = some c → ClaimOk owed s.toGround f host c
  acked : ∀ b ∈ owed, s.toGround.Covers f b
  expected : ∀ r ∈ s.object.requests, r.expected ≤ s.version
  writes : ∀ r ∈ s.object.requests, s.Live r →
    WriteOk syncOf owed s.toGround s.volumes f r.value.head

end Invariant

variable {host peer : HostId} {p q : ProtectedVolume} {m : SpoolMessage} {version f f' : UInt64}
  {d : SavedVolume} {syncOf : ManifestPtr → UInt64} {owed : List UInt64} {s t : Protection}
  {g : Ground} {volumes : HostId → Option ProtectedVolume} {head : HeadRecord}

theorem forall_update_some {α : Type} {R : HostId → α → Prop} {m : HostId → Option α}
    (h : ∀ x q, m x = some q → R x q) {p : α} (hp : R host p) (x : HostId) (q : α)
    (hq : Function.update m host (some p) x = some q) : R x q := by
  by_cases hx : x = host
  · subst hx
    rw [Function.update_self, Option.some.injEq] at hq
    exact hq ▸ hp
  · rw [Function.update_of_ne hx] at hq
    exact h x q hq

theorem of_update_none {α : Type} {m : HostId → Option α} {x : HostId} {q : α}
    (hq : Function.update m host none x = some q) : x ≠ host ∧ m x = some q := by
  by_cases hx : x = host
  · rw [hx, Function.update_self] at hq
    cases hq
  · rw [Function.update_of_ne hx] at hq
    exact ⟨hx, hq⟩

/-! ## What a volume state knows -/

namespace ProtectedVolume

theorem mem_infos {i : ReplicaCommitInfo} :
    i ∈ p.infos ↔ i = p.best.info ∨ (∃ r ∈ p.replication, r.info = i) ∨ i ∈ p.peerCommitted ∨
      (∃ q ∈ p.publication, q.commit = i) ∨ i ∈ p.peerPublished := by
  simp [infos, Option.mem_def, eq_comm]

/-- What holds of every commit, source by source. -/
theorem forall_infos {P : ReplicaCommitInfo → Prop} (hbest : P p.best.info)
    (hrun : ∀ r ∈ p.replication, P r.info) (hcommitted : ∀ c ∈ p.peerCommitted, P c)
    (hpublication : ∀ q ∈ p.publication, P q.commit) (hpublished : ∀ c ∈ p.peerPublished, P c) :
    ∀ i ∈ p.infos, P i := by
  intro i hi
  rcases mem_infos.mp hi with rfl | ⟨r, hr, rfl⟩ | hc | ⟨q, hq, rfl⟩ | hp
  · exact hbest
  · exact hrun r hr
  · exact hcommitted i hc
  · exact hpublication q hq
  · exact hpublished i hp

theorem publishes_eq_some {task : HeadTask} :
    p.publishes = some task ↔ ∃ q ∈ p.publication, ∃ x ∈ q.task, x.task = task := by
  simp [publishes, Option.mem_def, Option.bind_eq_some_iff, Option.map_eq_some_iff]

theorem proposes_eq_some {x : HostId × UInt64} {task : HeadTask} :
    p.proposes = some (x, task) ↔ ∃ r ∈ p.replication, ∃ c ∈ r.change,
      (r.target, r.assignmentEpoch) = x ∧ c.task.task = task := by
  simp [proposes, Option.mem_def, Option.bind_eq_some_iff, Option.map_eq_some_iff]

/-- A volume state with fewer reasons needs no more. -/
theorem Needs.mono {b : UInt64} (h : q.Needs owed b) (hack : q.syncAckThrough = p.syncAckThrough)
    (hs : q.ready = true ∨ q.incoming.isSome ∨ q.peerCommitted.isSome →
      p.ready = true ∨ p.incoming.isSome ∨ p.peerCommitted.isSome) : p.Needs owed b :=
  h.imp_right fun ⟨hq, hb⟩ => ⟨hs hq, hb.trans hack.le⟩

end ProtectedVolume

theorem ChangeOk.mono {owed' : List UInt64} {spools : HostId → ReplicaKey → SpoolCut}
    {x : HostId × UInt64} {task : HeadTask} (h : ChangeOk owed g f host p x task)
    (hmono : ∀ serving b, q.Needs owed' b → p.Needs owed b ∧
      (g.CoversBy serving f b → { g with spools }.CoversBy serving f' b)) :
    ChangeOk owed' { g with spools } f' host q x task := by
  obtain ⟨a, retired, htask, hsteady, hmade, hserving, hor⟩ := h
  refine ⟨a, retired, htask, hsteady, hmade, hserving, hor.imp_right fun hn b hb => ?_⟩
  exact (hmono _ b hb).2 (hn b (hmono a.serving b hb).1)

section Volume

variable (h : VolumeOk syncOf owed g f host p)
include h

theorem VolumeOk.best : (host, p.best.info) ∈ g.records :=
  h.made _ (ProtectedVolume.mem_infos.mpr (.inl rfl))

theorem VolumeOk.made_run : ∀ r ∈ p.replication, (host, r.info) ∈ g.records := fun r hr =>
  h.made _ (ProtectedVolume.mem_infos.mpr (.inr (.inl ⟨r, hr, rfl⟩)))

theorem VolumeOk.made_committed : ∀ c ∈ p.peerCommitted, (host, c) ∈ g.records := fun c hc =>
  h.made c (ProtectedVolume.mem_infos.mpr (.inr (.inr (.inl hc))))

theorem VolumeOk.made_publication : ∀ q ∈ p.publication, (host, q.commit) ∈ g.records := fun q hq =>
  h.made _ (ProtectedVolume.mem_infos.mpr (.inr (.inr (.inr (.inl ⟨q, hq, rfl⟩)))))

theorem VolumeOk.made_published : ∀ c ∈ p.peerPublished, (host, c) ∈ g.records := fun c hc =>
  h.made c (ProtectedVolume.mem_infos.mpr (.inr (.inr (.inr (.inr hc)))))

/-- The holder has a record of its tenure. -/
theorem VolumeOk.exists_record (hc : CurrentOk syncOf owed g f host p) :
    ∃ x ∈ g.records, x.2.writerFence = g.tenure :=
  ⟨_, h.best, hc.best_fence⟩

end Volume

/-- Everything a volume state has committed in the present tenure is below its newest record. -/
theorem CurrentOk.sync_le_best (hc : CurrentOk syncOf owed g f host p) (hl : g.Lineage)
    (h : VolumeOk syncOf owed g f host p) {x : HostId} {i : ReplicaCommitInfo}
    (hi : (x, i) ∈ g.records) (hfence : i.writerFence = g.tenure) :
    i.syncCoveredThrough ≤ p.best.info.syncCoveredThrough :=
  (hl.sync_le hi h.best (hc.newest _ hi hfence) hfence).2

/-! ## Steps of one volume state -/

/-- A write that can still take effect only looks at the volume state of the holder. -/
theorem WriteOk.withVolumes (h : WriteOk syncOf owed g volumes f head)
    {next : HostId → Option ProtectedVolume}
    (hold : ∀ r, next g.head.holder = some r → r.cache.headVersion.isSome →
      volumes g.head.holder = some r) : WriteOk syncOf owed g next f head :=
  { h with
    manifest := h.manifest.imp_right fun ⟨pointer, hm, hf, hlink⟩ =>
      ⟨pointer, hm, hf, fun r hr hs => hlink r (hold r hr hs) hs⟩
    stash := h.stash.imp_right fun ⟨a, ha, hsteady, hcov, hlink⟩ =>
      ⟨a, ha, hsteady, hcov, fun r hr hs => hlink r (hold r hr hs) hs⟩ }

/-- It asks the holder for the task it comes from, until the head has what it puts in. -/
theorem WriteOk.setVolume (h : WriteOk syncOf owed g volumes f head) (hp : volumes host = some p)
    (hsome : q.cache.headVersion.isSome → p.cache.headVersion.isSome)
    (hpub : g.head.holder = host → ∀ pointer, p.publishes = some (.publishHead pointer) →
      g.head.manifest = some pointer ∨ q.publishes = p.publishes)
    (hprop : g.head.holder = host → ∀ x a retired, p.proposes = some (x, .casAssignment a retired) →
      g.head.stash = some a ∨ q.proposes = p.proposes) :
    WriteOk syncOf owed g (Function.update volumes host (some q)) f head := by
  by_cases hx : g.head.holder = host ∧ q.cache.headVersion.isSome
  · -- the holder goes on as `q`
    have hq : ∀ r, Function.update volumes host (some q) g.head.holder = some r → r = q := by
      intro r hr
      rw [hx.1, Function.update_self] at hr
      exact (Option.some.inj hr).symm
    have hp' : volumes g.head.holder = some p := hx.1 ▸ hp
    refine { h with manifest := ?_, stash := ?_ }
    · rcases h.manifest with hm | ⟨pointer, hm, hf, hlink⟩
      · exact .inl hm
      · have htask := hlink p hp' (hsome hx.2)
        rcases hpub hx.1 pointer htask with heq | heq
        · exact .inl (hm.trans heq.symm)
        · exact .inr ⟨pointer, hm, hf, fun r hr _ => hq r hr ▸ heq.trans htask⟩
    · rcases h.stash with hs | ⟨a, ha, hsteady, hcov, hlink⟩
      · exact .inl hs
      · obtain ⟨x, retired, htask⟩ := hlink p hp' (hsome hx.2)
        rcases hprop hx.1 x a retired htask with heq | heq
        · exact .inl (ha.trans heq.symm)
        · exact .inr ⟨a, ha, hsteady, hcov, fun r hr _ => ⟨x, retired, hq r hr ▸ heq.trans htask⟩⟩
  · refine h.withVolumes fun r hr hs => ?_
    by_cases hh : g.head.holder = host
    · rw [hh, Function.update_self] at hr
      cases hr
      exact absurd ⟨hh, hs⟩ hx
    · rwa [Function.update_of_ne hh] at hr

/-- **A step of one volume state.**  A task that it no longer has under way has put into the head what
it was to put in. -/
theorem Secured.modify (h : Secured syncOf owed s f) (hp : s.volumes host = some p)
    (hq : VolumeOk syncOf owed s.toGround f host q)
    (hsome : q.cache.headVersion.isSome → p.cache.headVersion.isSome)
    (hpub : s.head.holder = host → ∀ pointer, p.publishes = some (.publishHead pointer) →
      s.head.manifest = some pointer ∨ q.publishes = p.publishes)
    (hprop : s.head.holder = host → ∀ x a retired, p.proposes = some (x, .casAssignment a retired) →
      s.head.stash = some a ∨ q.proposes = p.proposes) :
    Secured syncOf owed (s.setVolume host q) f :=
  { h with
    volumes := forall_update_some h.volumes hq
    writes := fun r hr hl => (h.writes r hr hl).setVolume hp hsome hpub hprop }

/-- The usual case: its tasks stay under way. -/
theorem Secured.update (h : Secured syncOf owed s f) (hp : s.volumes host = some p)
    (hq : VolumeOk syncOf owed s.toGround f host q)
    (hsome : q.cache.headVersion.isSome → p.cache.headVersion.isSome)
    (hpub : q.publishes = p.publishes) (hprop : q.proposes = p.proposes) :
    Secured syncOf owed (s.setVolume host q) f :=
  h.modify hp hq hsome (fun _ _ _ => .inr hpub) fun _ _ _ _ _ => .inr hprop

theorem VolumeOk.handleSync (h : VolumeOk syncOf owed g f host p) :
    VolumeOk syncOf owed g f host p.handleSync.1 := by
  unfold ProtectedVolume.handleSync
  split
  · exact h
  case isFalse hlt =>
    exact { h with
      pending := List.forall_mem_append.mpr
        ⟨h.pending, List.forall_mem_singleton.mpr (UInt64.not_le.mp hlt)⟩
      current := fun hv => { h.current hv with } }

/-- A replication has no change of the assignment under way. -/
theorem ProtectedVolume.proposes_of_change {r : ReplicationRun} (hr : p.replication = some r)
    (hnone : r.change = none) : p.proposes = none := by
  simp [proposes, hr, hnone]

theorem VolumeOk.replicate (h : VolumeOk syncOf owed g f host p) (hl : g.Lineage)
    (hsteady : ∀ stash ∈ g.head.stash, stash.Steady) {r : ReplicationRun}
    (hr : p.replicationRun = some r) :
    p.replication = none ∧ r.change = none ∧
      VolumeOk syncOf owed g f host { p with replication := some r } := by
  obtain ⟨stash, hstash, hr⟩ := Option.bind_eq_some_iff.mp hr
  obtain ⟨⟨hidle, -⟩, rfl⟩ := Option.ite_some_none_eq_some.mp hr
  refine ⟨hidle, rfl, { h with
    made := ProtectedVolume.forall_infos h.best (fun r hr => Option.some.inj hr ▸ h.best)
      h.made_committed h.made_publication h.made_published
    tasks := fun slot x hx => ?_
    current := fun hv => ?_ }⟩
  · cases slot with
    | assignment => cases hx
    | publication => exact h.tasks .publication x hx
    | removal i => exact h.tasks (.removal i) x hx
  · have hc := h.current hv
    have hcached := hc.stash (by simp [ProtectedVolume.proposes, hidle])
    refine { hc with
      stash := fun _ => hcached
      run := fun r hr => ?_
      change := fun x task hx => by simp [ProtectedVolume.proposes] at hx
      activates := fun r hr c hcr => by cases hr; cases hcr }
    obtain rfl := Option.some.inj hr
    refine ⟨hc.best_fence, ?_, hc.acks, hc.floor, fun c hpc => ?_, fun q hq => ?_⟩
    · -- without a transition the epoch is the active peer's
      rw [hcached] at hstash
      have hst := hsteady stash hstash
      simp only [HeadRecord.serving, hstash, Option.map_some, Option.getD_some,
        StashAssignment.serving]
      cases htp : stash.transitionPeer with
      | none => simp [hst htp]
      | some peer => simp
    · exact hc.sync_le_best hl h (h.made_committed c hpc) (hc.committed c hpc).1
    · exact hc.sync_le_best hl h (h.made_publication q hq) (hc.publication q hq).1

theorem VolumeOk.snapshot (h : VolumeOk syncOf owed g f host p) {commit : ReplicaCommitInfo}
    (hpc : p.peerCommitted = some commit) (base : Option ManifestPtr) :
    VolumeOk syncOf owed g f host { p with publication := some ⟨commit, base, none⟩ } := by
  refine { h with
    made := ProtectedVolume.forall_infos h.best h.made_run h.made_committed
      (fun q hq => Option.some.inj hq ▸ h.made_committed commit hpc) h.made_published
    tasks := fun slot x hx => ?_
    current := fun hv => ?_ }
  · cases slot with
    | publication => cases hx
    | assignment => exact h.tasks .assignment x hx
    | removal i => exact h.tasks (.removal i) x hx
  · have hc := h.current hv
    have hcommit := hc.committed commit hpc
    refine { hc with run := fun r hr => ?_, committed := fun c hc' => ?_, publication := ?_ }
    · obtain ⟨hfence, hserving, hack, hfloor, hcommitted, -⟩ := hc.run r hr
      refine ⟨hfence, hserving, hack, hfloor, hcommitted, fun q hq => ?_⟩
      obtain rfl := Option.some.inj hq
      exact hcommitted _ hpc
    · obtain rfl : commit = c := Option.some.inj (hpc.symm.trans hc')
      refine ⟨hcommit.1, hcommit.2.1, fun q hq => ?_⟩
      obtain rfl := Option.some.inj hq
      exact le_rfl
    · intro q hq
      obtain rfl := Option.some.inj hq
      exact ⟨hcommit.1, hcommit.2.1, fun x hx => by cases hx⟩

/-- The end of a replication, with or without success. -/
theorem VolumeOk.endRun (h : VolumeOk syncOf owed g f host p)
    (hstash : p.OfTenure g.tenure → p.cache.stashAssignment = g.head.stash) :
    VolumeOk syncOf owed g f host { p with replication := none } := by
  refine { h with
    made := ProtectedVolume.forall_infos h.best (fun _ hr => by cases hr) h.made_committed
      h.made_publication h.made_published
    tasks := fun slot x hx => ?_
    current := fun hv => { h.current hv with
      stash := fun _ => hstash hv
      run := fun r hr => by cases hr
      change := fun x task hx => by cases hx
      activates := fun r hr => by cases hr } }
  cases slot with
  | assignment => cases hx
  | publication => exact h.tasks .publication x hx
  | removal i => exact h.tasks (.removal i) x hx

theorem VolumeOk.finish (h : VolumeOk syncOf owed g f host p) (hl : g.Lineage) {r : ReplicationRun}
    (hr : p.replication = some r) (serving : Bool)
    (hstash : p.OfTenure g.tenure → p.cache.stashAssignment = g.head.stash)
    (hcov : p.OfTenure g.tenure → g.Covers f r.info.syncCoveredThrough) :
    VolumeOk syncOf owed g f host (p.finishPrimaryCommit r.info serving).1 := by
  have hrun : (host, r.info) ∈ g.records := h.made_run r hr
  have hend := h.endRun hstash
  -- first what does not depend on `serving`
  have hq : VolumeOk syncOf owed g f host
      { p with
        replication := none
        peerCommitted :=
          if p.peerCommitted.all (fun committed => decide (committed ≤ r.info)) then some r.info
          else p.peerCommitted } := by
    refine { hend with
      made := ProtectedVolume.forall_infos h.best (fun _ hr' => by cases hr') (fun c hc => ?_)
        h.made_publication h.made_published
      current := fun hv => ?_ }
    · dsimp only at hc
      split at hc
      · exact Option.some.inj hc ▸ hrun
      · exact h.made_committed c hc
    · have hc := h.current hv
      obtain ⟨hfence, -, hack, hfloor, -, hpub⟩ := hc.run r hr
      refine { hend.current hv with
        covers := fun b hb => ?_
        run := fun r' hr' => by cases hr'
        committed := fun c hc' => ?_
        change := fun x task hx => by cases hx }
      · rcases hb with hb | ⟨-, hb⟩
        · exact hc.covers b (.inl hb)
        · exact (hcov hv).mono (hb.trans hack)
      · dsimp only at hc'
        split at hc'
        · obtain rfl := Option.some.inj hc'
          exact ⟨hfence, hfloor, hpub⟩
        · exact hc.committed c hc'
  cases serving with
  | false => exact hq
  | true =>
    refine { hq with pending := fun b hb => ?_, current := fun hv => ?_ }
    · have hb' : p.syncAckThrough < b ∧ r.info.syncCoveredThrough < b := by
        simpa using (List.mem_filter.mp hb).2
      exact max_lt hb'.1 hb'.2
    · have hc := h.current hv
      obtain ⟨hfence, -, hack, -⟩ := hc.run r hr
      have hmax : max p.syncAckThrough r.info.syncCoveredThrough = r.info.syncCoveredThrough :=
        max_eq_right hack
      refine { hq.current hv with
        acks := hmax.trans_le (hc.sync_le_best hl h hrun hfence)
        acked := fun b hb => (hc.acked b hb).trans (le_max_left _ _)
        covers := fun b hb => ?_
        run := fun r' hr' => by cases hr'
        change := fun x task hx => by cases hx }
      rcases hb with hb | ⟨-, hb⟩
      · exact hc.covers b (.inl hb)
      · exact (hcov hv).mono (hb.trans hmax.le)

/-- **A reply is worth what it says.**  The target still has the commit, or every manifest from now
on covers it. -/
theorem Secured.covers_of_answered (h : Secured syncOf owed s f) (hp : s.volumes host = some p)
    (hv : p.OfTenure s.tenure) {r : ReplicationRun} (hr : p.replication = some r)
    (hm : m ∈ s.replies) (ha : r.answered s.volume host m = true) :
    s.toGround.CoversBy [(r.target, r.assignmentEpoch)] f r.info.syncCoveredThrough := by
  have hvol := h.volumes host p hp
  have hc := hvol.current hv
  simp only [ReplicationRun.answered, Bool.and_eq_true, beq_iff_eq, decide_eq_true_eq] at ha
  obtain ⟨⟨hpeer, hkey⟩, hle⟩ := ha
  have hrun : (host, r.info) ∈ s.records := hvol.made_run r hr
  obtain ⟨hfence, hsync⟩ := h.lineage.sync_le hrun (h.replies m hm) hle (hc.run r hr).1
  rcases h.replied m hm hfence with ⟨c, hcut, hmc⟩ | ⟨hman, hf⟩
  · obtain ⟨hcf, hcs⟩ := h.lineage.sync_le (h.replies m hm) (h.spools _ _ c hcut) hmc hfence
    rw [hpeer, hkey] at hcut
    exact .inr ⟨_, List.mem_singleton_self _, c, by rw [hc.holder]; exact hcut, hcf, hsync.trans hcs⟩
  · exact .inl ⟨hman, hsync.trans hf⟩

/-- What the target of a replication has counts: the head is writing to it. -/
theorem CurrentOk.covers_run (hc : CurrentOk syncOf owed g f host p) {r : ReplicationRun}
    (hr : p.replication = some r) {b : UInt64}
    (h : g.CoversBy [(r.target, r.assignmentEpoch)] f b) : g.Covers f b :=
  h.of_subset (List.cons_subset.mpr ⟨(hc.run r hr).2.1, List.nil_subset _⟩)

theorem Secured.finish (h : Secured syncOf owed s f) (hp : s.volumes host = some p)
    {r : ReplicationRun} (hr : p.replication = some r) (hnone : r.change = none)
    (hm : m ∈ s.replies) (ha : r.answered s.volume host m = true) (serving : Bool) :
    Secured syncOf owed (s.setVolume host (p.finishPrimaryCommit r.info serving).1) f := by
  have hvol := h.volumes host p hp
  have hidle := ProtectedVolume.proposes_of_change hr hnone
  refine h.update hp (hvol.finish h.lineage hr serving (fun hv => (hvol.current hv).stash hidle)
    fun hv => (hvol.current hv).covers_run hr (h.covers_of_answered hp hv hr hm ha)) ?_ ?_ ?_
  · cases serving <;> exact id
  · cases serving <;> rfl
  · rw [hidle]
    cases serving <;> rfl

/-! ## Messages -/

theorem Secured.sendCommit (h : Secured syncOf owed s f)
    (hm : (m.key.source, m.info) ∈ s.records) :
    Secured syncOf owed { s with commits := s.commits ++ [m] } f :=
  { h with commits := List.forall_mem_append.mpr ⟨h.commits, List.forall_mem_singleton.mpr hm⟩ }

theorem Secured.reply (h : Secured syncOf owed s f) {key : ReplicaKey} {info : ReplicaCommitInfo}
    (hcut : s.spools peer key = some info) :
    Secured syncOf owed { s with replies := s.replies ++ [⟨peer, key, info⟩] } f :=
  { h with
    replies := List.forall_mem_append.mpr
      ⟨h.replies, List.forall_mem_singleton.mpr (h.spools peer key info hcut)⟩
    replied := List.forall_mem_append.mpr
      ⟨h.replied, List.forall_mem_singleton.mpr fun _ => .inl ⟨info, hcut, le_rfl⟩⟩ }

theorem ProtectedVolume.mem_releases {epoch : UInt64} {through : ReplicaCommitInfo}
    (h : (peer, epoch, through) ∈ p.releases) :
    ∃ info, p.peerPublished = some info ∧ through ≤ info ∧
      (through = info ∨ ∃ e ∈ p.cache.retiredStashes, e.through = through) := by
  unfold ProtectedVolume.releases at h
  cases hpub : p.peerPublished with
  | none => simp [hpub] at h
  | some info =>
    simp only [hpub] at h
    split at h
    case isFalse => cases h
    refine ⟨info, rfl, ?_⟩
    rcases List.mem_append.mp h with h | h
    · simp only [Option.mem_toList, Option.map_eq_some_iff, Prod.mk.injEq] at h
      obtain ⟨-, -, -, -, rfl⟩ := h
      exact ⟨le_rfl, .inl rfl⟩
    · obtain ⟨e, he, heq⟩ := List.mem_map.mp h
      simp only [Prod.mk.injEq] at heq
      obtain ⟨-, -, rfl⟩ := heq
      have hmem := List.mem_filter.mp he
      exact ⟨by simpa using hmem.2, .inr ⟨e, hmem.1, rfl⟩⟩

/-- A record of the present tenure is its holder's, whose volume state is then of the tenure. -/
theorem Secured.ofTenure (h : Secured syncOf owed s f) (hp : s.volumes host = some p)
    (hsome : p.cache.headVersion.isSome) {i : ReplicaCommitInfo} (hi : (host, i) ∈ s.records)
    (hf : i.writerFence = s.tenure) : p.OfTenure s.tenure :=
  ⟨hsome, (h.volumes host p hp).holds hsome (h.lineage.holder _ hi hf).symm⟩

theorem Secured.release (h : Secured syncOf owed s f) {epoch : UInt64} {through : ReplicaCommitInfo}
    (hp : s.volumes host = some p) (hmem : (peer, epoch, through) ∈ p.releases) : Secured syncOf owed
      { s with releases := s.releases ++ [⟨peer, ⟨host, s.volume, epoch⟩, through⟩] } f := by
  have hvol := h.volumes host p hp
  obtain ⟨info, hpub, hle, hthrough⟩ := ProtectedVolume.mem_releases hmem
  have hinfo : (host, info) ∈ s.records := hvol.made_published info hpub
  obtain ⟨hsome, hpublished⟩ := hvol.published info hpub
  refine { h with
    releases := List.forall_mem_append.mpr
      ⟨h.releases, List.forall_mem_singleton.mpr fun hten => ?_⟩ }
  -- a release of the present tenure is the holder's, and what it names is archived
  have hfi : info.writerFence = s.tenure := UInt64.le_antisymm (h.lineage.le _ hinfo)
    (UInt64.le_trans hten (ReplicaCommitInfo.writerFence_le hle))
  have hc := hvol.current (h.ofTenure hp hsome hinfo hfi)
  have hmade : (host, through) ∈ s.records := by
    rcases hthrough with rfl | ⟨e, he, rfl⟩
    · exact hinfo
    · exact hc.retired e he
  have hft : through.writerFence = s.tenure := UInt64.le_antisymm (h.lineage.le _ hmade) hten
  obtain ⟨-, hsync⟩ := h.lineage.sync_le hmade hinfo hle hft
  obtain ⟨hman, hfloor⟩ := hpublished hfi
  exact ⟨hmade, hman, hsync.trans hfloor⟩

/-! ## Deliveries -/

section Spools

variable {spools : HostId → ReplicaKey → SpoolCut}
  (hcov : ∀ serving b, g.CoversBy serving f b → { g with spools }.CoversBy serving f b)
include hcov

/-- Volume states only ask of the spools that they cover what they did. -/
theorem VolumeOk.withSpools (h : VolumeOk syncOf owed g f host p) :
    VolumeOk syncOf owed { g with spools } f host p := by
  refine { h with current := fun hv => ?_ }
  have hc := h.current hv
  refine { hc with
    covers := fun b hb => hcov _ _ (hc.covers b hb)
    change := fun x task hx => (hc.change x task hx).mono fun serving b hb => ⟨hb, hcov serving b⟩
    activates := fun r hr c hcr hact => hcov _ _ (hc.activates r hr c hcr hact) }

theorem WriteOk.withSpools (h : WriteOk syncOf owed g volumes f head) :
    WriteOk syncOf owed { g with spools } volumes f head :=
  { h with
    stash := h.stash.imp_right fun ⟨a, ha, hsteady, hn, hlink⟩ =>
      ⟨a, ha, hsteady, fun b hb => hcov _ _ (hn b hb), hlink⟩ }

theorem ClaimOk.withSpools {c : LandedClaim} (h : ClaimOk owed g f host c) :
    ClaimOk owed { g with spools } f host c :=
  { h with fresh := fun hv => { h.fresh hv with covers := hcov _ _ (h.fresh hv).covers } }

end Spools

theorem Protection.spools_setSpool (peer : HostId) (key : ReplicaKey) (cut : SpoolCut) (x : HostId)
    (k : ReplicaKey) :
    (s.setSpool peer key cut).spools x k = if x = peer ∧ k = key then cut else s.spools x k := by
  by_cases hx : x = peer
  · subst hx
    by_cases hk : k = key
    · subst hk
      simp [Protection.setSpool]
    · simp [Protection.setSpool, hk]
  · simp [Protection.setSpool, hx]

/-- What a new cut in one spool has to meet: it is a record of its source, and what the spool
covered is covered by it or by the floor. -/
theorem Secured.setSpool (h : Secured syncOf owed s f) {key : ReplicaKey} {cut : SpoolCut}
    (hmade : ∀ c, cut = some c → (key.source, c) ∈ s.records)
    (hkeep : ∀ k, s.spools peer key = some k → k.writerFence = s.tenure →
      (∃ c, cut = some c ∧ k ≤ c) ∨ s.head.manifest.isSome ∧ k.syncCoveredThrough ≤ f) :
    Secured syncOf owed (s.setSpool peer key cut) f := by
  have hspools := fun c => h.spools peer key c
  have hcov : ∀ serving b, s.toGround.CoversBy serving f b →
      (s.setSpool peer key cut).toGround.CoversBy serving f b := by
    rintro serving b (hfloor | ⟨x, hx, k, hk, hf, hle⟩)
    · exact .inl hfloor
    · by_cases hxk : x.1 = peer ∧ (⟨s.head.holder, s.volume, x.2⟩ : ReplicaKey) = key
      · obtain ⟨rfl, rfl⟩ := hxk
        rcases hkeep k hk hf with ⟨c, rfl, hkc⟩ | ⟨hman, hfl⟩
        · obtain ⟨hcf, hcs⟩ := h.lineage.sync_le (hspools k hk) (hmade c rfl) hkc hf
          exact .inr ⟨x, hx, c, (Protection.spools_setSpool ..).trans (if_pos ⟨rfl, rfl⟩), hcf,
            hle.trans hcs⟩
        · exact .inl ⟨hman, hle.trans hfl⟩
      · exact .inr ⟨x, hx, k, ((Protection.spools_setSpool ..).trans (if_neg hxk)).trans hk, hf, hle⟩
  refine { h with
    lineage := { h.lineage with }
    spools := fun x k c hc => ?_
    replied := fun m hm hf => ?_
    volumes := fun x q hq => (h.volumes x q hq).withSpools hcov
    claims := fun x c hc => (h.claims x c hc).withSpools hcov
    acked := fun b hb => hcov _ _ (h.acked b hb)
    writes := fun r hr hl => (h.writes r hr hl).withSpools hcov }
  · rw [Protection.spools_setSpool] at hc
    split at hc
    case isTrue hxk =>
      obtain ⟨rfl, rfl⟩ := hxk
      exact hmade c hc
    case isFalse => exact h.spools x k c hc
  · rcases h.replied m hm hf with ⟨k, hk, hmk⟩ | hfloor
    · by_cases hxk : m.peer = peer ∧ m.key = key
      · obtain ⟨rfl, rfl⟩ := hxk
        obtain ⟨hkf, hks⟩ := h.lineage.sync_le (h.replies m hm) (hspools k hk) hmk hf
        rcases hkeep k hk hkf with ⟨c, rfl, hkc⟩ | ⟨hman, hfl⟩
        · exact .inl ⟨c, (Protection.spools_setSpool ..).trans (if_pos ⟨rfl, rfl⟩), hmk.trans hkc⟩
        · exact .inr ⟨hman, hks.trans hfl⟩
      · exact .inl ⟨k, ((Protection.spools_setSpool ..).trans (if_neg hxk)).trans hk, hmk⟩
    · exact .inr hfloor

theorem Secured.deliverCommit (h : Secured syncOf owed s f) (hm : m ∈ s.commits) :
    Secured syncOf owed (s.setSpool m.peer m.key ((s.spools m.peer m.key).commit m.info)) f := by
  refine h.setSpool (fun c hc => ?_) fun k hk _ => .inl (SpoolCut.le_commit m.info hk)
  rcases SpoolCut.commit_eq_some hc with hold | ⟨rfl, -⟩
  · exact h.spools _ _ c hold
  · exact h.commits m hm

theorem Secured.deliverRelease (h : Secured syncOf owed s f) (hm : m ∈ s.releases) :
    Secured syncOf owed (s.setSpool m.peer m.key ((s.spools m.peer m.key).release m.info)) f := by
  refine h.setSpool (fun c hc => h.spools _ _ c (SpoolCut.release_eq_some.mp hc).1)
    fun k hk hf => ?_
  by_cases hlt : m.info < k
  · exact .inl ⟨k, SpoolCut.release_eq_some.mpr ⟨hk, hlt⟩, le_rfl⟩
  · -- the release reaches the cut, so the floor has reached what the cut covers
    have hle : k ≤ m.info := le_of_not_gt hlt
    obtain ⟨hmade, hman, hfloor⟩ :=
      h.releases m hm (hf ▸ ReplicaCommitInfo.writerFence_le hle)
    obtain ⟨-, hsync⟩ := h.lineage.sync_le (h.spools _ _ k hk) hmade hle hf
    exact .inr ⟨hman, hsync.trans hfloor⟩

end Blockd
