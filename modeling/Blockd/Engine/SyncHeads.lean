import Blockd.Engine.SyncProtection

/-!
# Head tasks under the invariant

A head task sends a head that it builds from the volume state, and later takes something over into it:
the head it has written, or one that it has read again.  `Secured.send` and `Secured.land` carry the
invariant of `Engine.SyncProtection` over the write, which may take effect at any time.

What a task takes over is another matter.  The tasks of one volume state do not tell each other what
they have seen, and `HearsHead` says what has to hold: a task that takes over the present version of
the head takes over all of it, and when a change of the assignment reports success, the head has what
was proposed.  Under that condition `Secured.headEvent` is the step of a task.
-/

set_option autoImplicit false

namespace Blockd

variable {host peer : HostId} {p q : ProtectedVolume} {m : SpoolMessage} {version f f' : UInt64}
  {syncOf : ManifestPtr → UInt64} {owed : List UInt64} {s t : Protection} {g : Ground}
  {volumes : HostId → Option ProtectedVolume} {head : HeadRecord}

/-! ## Writes -/

/-- The task is the one that its volume state has under way. -/
def ProtectedVolume.Runs (p : ProtectedVolume) : HeadTask → Prop
  | .publishHead pointer => p.publishes = some (.publishHead pointer)
  | .casAssignment a retired => ∃ x, p.proposes = some (x, .casAssignment a retired)
  | .removeRetiredStash _ => True

theorem ProtectedVolume.runs_headTask {slot : HeadSlot} {x : TaskState}
    (hx : p.headTask slot = some x) (hrun : slot.Runs x.task) : p.Runs x.task := by
  cases slot with
  | publication =>
    obtain ⟨pointer, htask⟩ := hrun
    rw [htask]
    exact (congrArg (Option.map TaskState.task) hx).trans (congrArg some htask)
  | assignment =>
    obtain ⟨a, retired, htask⟩ := hrun
    obtain ⟨c, hc, rfl⟩ := Option.map_eq_some_iff.mp hx
    obtain ⟨r, hr, hc⟩ := Option.bind_eq_some_iff.mp hc
    rw [htask]
    exact ⟨_, proposes_eq_some.mpr ⟨r, hr, c, hc, rfl, htask⟩⟩
  | removal i =>
    obtain ⟨retired, htask⟩ := hrun
    rw [htask]
    trivial

/-- A head that a task of the holder builds from the head as it is. -/
theorem VolumeOk.writeOk (h : VolumeOk syncOf owed g f host p) (hp : volumes host = some p)
    (hv : p.cache.headVersion = some g.version) {task : HeadTask} (htask : p.Runs task) :
    WriteOk syncOf owed g volumes f (task.head g.volume host p.cache) := by
  have hc := h.current ⟨hv ▸ rfl, h.known hv⟩
  have hcache := hc.mirrors hv
  have hown : ∀ r, volumes g.head.holder = some r → r = p := fun r hr =>
    Option.some.inj (hr.symm.trans (hc.holder.symm ▸ hp))
  have hmade : ∀ e ∈ p.cache.retiredStashes, (g.head.holder, e.through) ∈ g.records :=
    hc.holder.symm ▸ hc.retired
  have hmanifest : p.cache.backed = g.head.manifest := congrArg HeadCache.backed hcache
  have hstash : p.cache.stashAssignment = g.head.stash := congrArg HeadCache.stashAssignment hcache
  cases task with
  | publishHead pointer =>
    obtain ⟨q, hq, x, hx, hxt⟩ := ProtectedVolume.publishes_eq_some.mp htask
    obtain ⟨-, hfloor, hptr⟩ := hc.publication q hq
    obtain ⟨pointer', heq, hsync⟩ := hptr x hx
    cases hxt.symm.trans heq
    exact ⟨h.exists_record hc, hc.holder.symm, h.known hv, hmade,
      .inr ⟨pointer, rfl, hfloor.trans hsync.ge, fun r hr _ => hown r hr ▸ htask⟩, .inl hstash⟩
  | casAssignment a retired =>
    obtain ⟨x, hx⟩ := htask
    obtain ⟨a', retired', heq, hsteady, hret, -, hor⟩ := hc.change x _ hx
    cases heq
    refine ⟨h.exists_record hc, hc.holder.symm, h.known hv, hc.holder.symm ▸ hret, .inl hmanifest, ?_⟩
    rcases hor with hsame | hcov
    · exact .inl hsame.symm
    · exact .inr ⟨a, rfl, hsteady, fun b hb => hcov b (.inl hb),
        fun r hr _ => ⟨x, retired, hown r hr ▸ hx⟩⟩
  | removeRetiredStash retired =>
    exact ⟨h.exists_record hc, hc.holder.symm, h.known hv,
      fun e he => hmade e (List.mem_of_mem_filter he), .inl hmanifest, .inl hstash⟩

/-- **A conditional write is sent.** -/
theorem Secured.send (h : Secured syncOf owed s f) {v : UInt64} (hle : v ≤ s.version)
    {st : StoredHead}
    (hw : v = s.version → WriteOk syncOf owed s.toGround s.volumes f st.head) :
    Secured syncOf owed { s with object := s.object.send v st } f := by
  refine { h with expected := fun r hr => ?_, writes := fun r hr hl => ?_ }
  · rcases List.mem_append.mp hr with hr | hr
    · exact h.expected r hr
    · rw [List.mem_singleton.mp hr]
      exact hle
  · rcases List.mem_append.mp hr with hr | hr
    · exact h.writes r hr hl
    · rw [List.mem_singleton.mp hr] at hl ⊢
      exact hw hl.2

theorem Secured.sendTask (h : Secured syncOf owed s f) (hp : s.volumes host = some p) {v : UInt64}
    (hv : p.cache.headVersion = some v) {task : HeadTask} (htask : p.Runs task) :
    Secured syncOf owed { s with
      object := s.object.send v ⟨task.head s.volume host p.cache, .task task⟩ } f :=
  have hvol := h.volumes host p hp
  h.send (hvol.version_le v hv) fun heq => hvol.writeOk hp (hv.trans (congrArg some heq)) htask

/-- A volume state that has stopped leaves its writes behind. -/
theorem WriteOk.drop (h : WriteOk syncOf owed g volumes f head) (host : HostId) :
    WriteOk syncOf owed g (Function.update volumes host none) f head := by
  refine h.withVolumes fun r hr _ => ?_
  by_cases hh : g.head.holder = host
  · rw [hh, Function.update_self] at hr
    cases hr
  · rwa [Function.update_of_ne hh] at hr

theorem Secured.drop (h : Secured syncOf owed s f) (host : HostId) :
    Secured syncOf owed { s with volumes := Function.update s.volumes host none } f :=
  { h with
    volumes := fun x p hp => h.volumes x p (of_update_none hp).2
    writes := fun r hr hl => (h.writes r hr hl).drop host }

/-! ## What a task hears -/

/-- The volume state takes over the head: the present version whole, and no older one under the
present tenure. -/
def Protection.TakesOver (s : Protection) (p : ProtectedVolume) (cache : HeadCache) : Prop :=
  p.cache.fence = s.tenure ∨ cache.headVersion = some s.version →
    cache = s.head.cached s.tenure s.version

theorem ProtectedVolume.mem_hear {cache : HeadCache} {c : ReplicaCommitInfo}
    (h : c ∈ (p.hear cache).peerCommitted) : c ∈ p.peerCommitted := by
  unfold hear at h
  dsimp only at h
  split at h
  · exact h
  · cases h

theorem ProtectedVolume.Needs.of_hear {cache : HeadCache} {b : UInt64}
    (h : (p.hear cache).Needs owed b) : p.Needs owed b := by
  refine h.mono rfl fun hs => ?_
  rcases hs with hs | hs | hs
  · exact .inl hs
  · exact .inr (.inl hs)
  · obtain ⟨c, hc⟩ := Option.isSome_iff_exists.mp hs
    exact .inr (.inr (Option.isSome_iff_exists.mpr ⟨c, mem_hear hc⟩))

theorem Secured.hear (h : Secured syncOf owed s f) (hp : s.volumes host = some p)
    (hsome : p.cache.headVersion.isSome) {cache : HeadCache} (hfence : cache.fence = p.cache.fence)
    {v : UInt64} (hv : cache.headVersion = some v) (hle : v ≤ s.version)
    (htake : s.TakesOver p cache) : Secured syncOf owed (s.setVolume host (p.hear cache)) f := by
  have hvol := h.volumes host p hp
  refine h.update hp { hvol with
    made := ProtectedVolume.forall_infos hvol.best hvol.made_run
      (fun c hc => hvol.made_committed c (ProtectedVolume.mem_hear hc)) hvol.made_publication
      hvol.made_published
    published := fun c hc => ⟨hv ▸ rfl, (hvol.published c hc).2⟩
    fence_le := hfence ▸ hvol.fence_le
    version_le := fun w hw => Option.some.inj (hv.symm.trans hw) ▸ hle
    known := fun hw => congrArg HeadCache.fence (htake (.inr hw))
    holds := fun _ hh => hfence.trans (hvol.holds hsome hh)
    incoming := fun _ => hv ▸ rfl
    tasks := fun slot x hx =>
      have hx' := hvol.tasks slot x hx
      ⟨hx'.1, hv ▸ rfl, hx'.2.2⟩
    current := fun hcur => ?_ } (fun _ => hsome) rfl rfl
  have hc := hvol.current ⟨hsome, hfence.symm.trans hcur.2⟩
  have hcache := htake (.inl (hfence.symm.trans hcur.2))
  refine { hc with
    stash := fun _ => congrArg HeadCache.stashAssignment hcache
    mirrors := fun _ => hcache
    retired := fun e he => ?_
    covers := fun b hb => hc.covers b hb.of_hear
    run := fun r hr => ?_
    committed := fun c hcc => hc.committed c (ProtectedVolume.mem_hear hcc)
    change := fun x task hx => (hc.change x task hx).mono fun _ _ hb => ⟨hb.of_hear, id⟩ }
  · have heq : cache.retiredStashes = s.head.retiredStashes :=
      congrArg HeadCache.retiredStashes hcache
    exact hc.holder ▸ h.retired e (heq ▸ he)
  · obtain ⟨hrf, hrs, hra, hrl, hrc, hrp⟩ := hc.run r hr
    exact ⟨hrf, hrs, hra, hrl, fun c hcc => hrc c (ProtectedVolume.mem_hear hcc), hrp⟩

/-! ## Phases -/

namespace ProtectedVolume

theorem publishes_setPhase (phase : Phase) (slot : HeadSlot) :
    (p.setPhase phase slot).publishes = p.publishes := by
  cases slot with
  | publication =>
    cases hq : p.publication with
    | none => simp [publishes, setPhase, hq]
    | some q => cases hx : q.task <;> simp [publishes, setPhase, hq, hx]
  | assignment => rfl
  | removal i => rfl

theorem proposes_setPhase (phase : Phase) (slot : HeadSlot) :
    (p.setPhase phase slot).proposes = p.proposes := by
  cases slot with
  | publication => rfl
  | assignment =>
    cases hr : p.replication with
    | none => simp [proposes, setPhase, hr]
    | some r => cases hc : r.change <;> simp [proposes, setPhase, hr, hc]
  | removal i => rfl

theorem headTask_setPhase {phase : Phase} {slot slot' : HeadSlot} {x : TaskState}
    (h : (p.setPhase phase slot).headTask slot' = some x) :
    ∃ y, p.headTask slot' = some y ∧ x.task = y.task ∧ (x = y ∨ x.phase = phase) := by
  cases slot with
  | publication =>
    cases slot' with
    | publication =>
      cases hq : p.publication with
      | none => simp [headTask, setPhase, hq] at h
      | some q =>
        obtain ⟨y, hy, rfl⟩ : ∃ y, q.task = some y ∧ { y with phase } = x := by
          simpa [headTask, setPhase, hq] using h
        exact ⟨y, by simp [headTask, hq, hy], rfl, .inr rfl⟩
    | assignment => exact ⟨x, h, rfl, .inl rfl⟩
    | removal j => exact ⟨x, h, rfl, .inl rfl⟩
  | assignment =>
    cases slot' with
    | publication => exact ⟨x, h, rfl, .inl rfl⟩
    | assignment =>
      cases hr : p.replication with
      | none => simp [headTask, setPhase, hr] at h
      | some r =>
        obtain ⟨c, hc, rfl⟩ : ∃ c, r.change = some c ∧ { c.task with phase } = x := by
          simpa [headTask, setPhase, hr] using h
        exact ⟨c.task, by simp [headTask, hr, hc], rfl, .inr rfl⟩
    | removal j => exact ⟨x, h, rfl, .inl rfl⟩
  | removal i =>
    cases slot' with
    | publication => exact ⟨x, h, rfl, .inl rfl⟩
    | assignment => exact ⟨x, h, rfl, .inl rfl⟩
    | removal j =>
      have hj : (p.removals.modify i ({ · with phase }))[j]? = some x := h
      rw [List.getElem?_modify] at hj
      obtain ⟨y, hy, heq⟩ := Option.map_eq_some_iff.mp hj
      refine ⟨y, hy, ?_⟩
      split at heq
      · exact ⟨heq ▸ rfl, .inr (heq ▸ rfl)⟩
      · exact ⟨heq ▸ rfl, .inl heq.symm⟩

end ProtectedVolume

/-- What the commits of a volume state are does not depend on where its tasks are. -/
theorem CurrentOk.setPhase (hc : CurrentOk syncOf owed g f host p) (phase : Phase) (slot : HeadSlot) :
    CurrentOk syncOf owed g f host (p.setPhase phase slot) := by
  cases slot with
  | removal i => exact { hc with }
  | publication =>
    have hpub : ∀ q ∈ (p.setPhase phase .publication).publication, ∃ q' ∈ p.publication,
        q'.commit = q.commit ∧ ∀ x ∈ q.task, ∃ y ∈ q'.task, y.task = x.task := by
      intro q hq
      obtain ⟨q', hq', rfl⟩ := Option.map_eq_some_iff.mp hq
      refine ⟨q', hq', rfl, fun x hx => ?_⟩
      obtain ⟨y, hy, rfl⟩ := Option.map_eq_some_iff.mp hx
      exact ⟨y, hy, rfl⟩
    refine { hc with run := fun r hr => ?_, committed := fun c hcc => ?_, publication := fun q hq => ?_ }
    · obtain ⟨hrf, hrs, hra, hrl, hrc, hrp⟩ := hc.run r hr
      refine ⟨hrf, hrs, hra, hrl, hrc, fun q hq => ?_⟩
      obtain ⟨q', hq', heq, -⟩ := hpub q hq
      exact heq ▸ hrp q' hq'
    · obtain ⟨hcf, hcl, hcp⟩ := hc.committed c hcc
      refine ⟨hcf, hcl, fun q hq => ?_⟩
      obtain ⟨q', hq', heq, -⟩ := hpub q hq
      exact heq ▸ hcp q' hq'
    · obtain ⟨q', hq', heq, htask⟩ := hpub q hq
      obtain ⟨hqf, hql, hqx⟩ := hc.publication q' hq'
      refine ⟨heq ▸ hqf, heq ▸ hql, fun x hx => ?_⟩
      obtain ⟨y, hy, hyx⟩ := htask x hx
      obtain ⟨pointer, hptr, hsync⟩ := hqx y hy
      exact ⟨pointer, hyx.symm.trans hptr, heq ▸ hsync⟩
  | assignment =>
    have hprop := p.proposes_setPhase phase .assignment
    refine { hc with
      stash := fun hnone => hc.stash (hprop ▸ hnone)
      run := fun r hr => ?_
      change := fun x task hx => hc.change x task (hprop ▸ hx)
      activates := fun r hr c hcr hact => ?_ }
    · obtain ⟨r', hr', rfl⟩ := Option.map_eq_some_iff.mp hr
      exact hc.run r' hr'
    · obtain ⟨r', hr', rfl⟩ := Option.map_eq_some_iff.mp hr
      obtain ⟨c', hc', rfl⟩ := Option.map_eq_some_iff.mp hcr
      exact hc.activates r' hr' c' hc' hact

theorem Secured.setPhase (h : Secured syncOf owed s f) (hp : s.volumes host = some p) (phase : Phase)
    (hphase : ∀ round v found, phase = .served round v found → v ≤ s.version) (slot : HeadSlot) :
    Secured syncOf owed (s.setVolume host (p.setPhase phase slot)) f := by
  have hvol := h.volumes host p hp
  have hcache : (p.setPhase phase slot).cache = p.cache := by cases slot <;> rfl
  have hinfos : (p.setPhase phase slot).infos = p.infos := by
    cases slot <;> simp [ProtectedVolume.infos, ProtectedVolume.setPhase, Function.comp_def]
  have hrest : (p.setPhase phase slot).incoming = p.incoming ∧
      (p.setPhase phase slot).peerPublished = p.peerPublished ∧
      (p.setPhase phase slot).pendingSyncs = p.pendingSyncs ∧
      (p.setPhase phase slot).syncAckThrough = p.syncAckThrough := by
    cases slot <;> exact ⟨rfl, rfl, rfl, rfl⟩
  refine h.update hp {
    made := hinfos ▸ hvol.made
    published := hrest.2.1 ▸ hcache ▸ hvol.published
    fence_le := hcache ▸ hvol.fence_le
    version_le := hcache ▸ hvol.version_le
    known := hcache ▸ hvol.known
    holds := hcache ▸ hvol.holds
    tasks := fun slot' x hx => ?_
    incoming := hrest.1 ▸ hcache ▸ hvol.incoming
    pending := hrest.2.2.1 ▸ hrest.2.2.2 ▸ hvol.pending
    current := fun hv => (hvol.current (by rw [ProtectedVolume.OfTenure, hcache] at hv; exact hv)).setPhase
      phase slot } (by rw [hcache]; exact id) (p.publishes_setPhase phase slot)
      (p.proposes_setPhase phase slot)
  obtain ⟨y, hy, htask, hxy⟩ := ProtectedVolume.headTask_setPhase hx
  obtain ⟨hkind, hsome, hserved⟩ := hvol.tasks slot' y hy
  refine ⟨htask ▸ hkind, hcache ▸ hsome, fun round v found hxp => ?_⟩
  rcases hxy with rfl | heq
  · exact hserved round v found hxp
  · exact hphase round v found (heq.symm.trans hxp)

/-! ## The end of a task -/

theorem Secured.removed (h : Secured syncOf owed s f) (hp : s.volumes host = some p) (i : Nat) :
    Secured syncOf owed (s.setVolume host { p with removals := p.removals.eraseIdx i }) f := by
  have hvol := h.volumes host p hp
  refine h.update hp { hvol with
    tasks := fun slot x hx => ?_
    current := fun hv => { hvol.current hv with } } id rfl rfl
  cases slot with
  | publication => exact hvol.tasks .publication x hx
  | assignment => exact hvol.tasks .assignment x hx
  | removal j =>
    obtain ⟨k, hk⟩ :=
      List.mem_iff_getElem?.mp (List.mem_of_mem_eraseIdx (List.mem_of_getElem? hx))
    exact hvol.tasks (.removal k) x hk

/-- **An assignment is adopted.**  The head has what was proposed, so a transition ends the
replication, and the commit of an activation counts. -/
theorem Secured.finishedAssignment (h : Secured syncOf owed s f) (hp : s.volumes host = some p)
    (hsome : p.cache.headVersion.isSome) (serving : Bool)
    (hstash : p.OfTenure s.tenure → p.cache.stashAssignment = s.head.stash)
    (hhead : p.OfTenure s.tenure → ∀ x a retired, p.proposes = some (x, .casAssignment a retired) →
      s.head.stash = some a) :
    Secured syncOf owed (s.setVolume host (p.finished serving .assignment).1) f := by
  have hvol := h.volumes host p hp
  have hput : s.head.holder = host → ∀ x a retired,
      p.proposes = some (x, .casAssignment a retired) → s.head.stash = some a := fun hh =>
    hhead ⟨hsome, hvol.holds hsome hh⟩
  unfold ProtectedVolume.finished
  dsimp only
  split
  case h_1 target epoch info task hr =>
    refine h.modify hp (hvol.finish h.lineage hr serving hstash fun hv => ?_) (fun _ => hsome)
      (fun _ _ _ => .inr ?_) fun hh x a retired hx => .inl (hput hh x a retired hx)
    · exact (hvol.current hv).covers_run hr ((hvol.current hv).activates _ hr _ rfl rfl)
    · cases serving <;> rfl
  case h_2 =>
    exact h.modify hp (hvol.endRun hstash) (fun _ => hsome) (fun _ _ _ => .inr rfl)
      fun hh x a retired hx => .inl (hput hh x a retired hx)

/-- The floor rises to what the manifest covers. -/
theorem Secured.raise (h : Secured syncOf owed s f) (hff : f ≤ f')
    (hman : ∀ pointer ∈ s.head.manifest, f' ≤ syncOf pointer)
    (hrecord : ∃ x ∈ s.records, x.2.writerFence = s.tenure)
    (hsaved : ∀ x ∈ s.records, x.2.writerFence = s.tenure → s.toGround.Newest x.2 →
      f' ≤ x.2.syncCoveredThrough)
    (hcur : ∀ x p, s.volumes x = some p → CurrentOk syncOf owed s.toGround f x p →
      CurrentOk syncOf owed s.toGround f' x p)
    (hw : ∀ r ∈ s.object.requests, s.Live r → r.value.head.manifest = s.head.manifest) :
    Secured syncOf owed s f' :=
  { h with
    manifest := hman
    replied := fun m hm hf => (h.replied m hm hf).imp_right fun hr => ⟨hr.1, hr.2.trans hff⟩
    releases := fun m hm hf =>
      have hr := h.releases m hm hf
      ⟨hr.1, hr.2.1, hr.2.2.trans hff⟩
    volumes := fun x p hp =>
      have hvol := h.volumes x p hp
      { hvol with
        published := fun c hc => ⟨(hvol.published c hc).1, fun hf =>
          have hr := (hvol.published c hc).2 hf
          ⟨hr.1, hr.2.trans hff⟩⟩
        current := fun hv => hcur x p hp (hvol.current hv) }
    saved_newest := fun x d hd hf =>
      have hr := h.saved_newest x d hd hf
      ⟨hr.1, hsaved _ (h.saved x d hd) hf hr.1, hr.2.2⟩
    claims := fun x c hc =>
      { h.claims x c hc with
        fresh := fun hv => by
          obtain ⟨y, hy, hyf⟩ := hrecord
          exact absurd hyf (((h.claims x c hc).fresh hv).none y hy) }
    acked := fun b hb => (h.acked b hb).of_floor hff
    writes := fun r hr hl =>
      have hwr := h.writes r hr hl
      { hwr with
        manifest := .inl (hw r hr hl)
        stash := hwr.stash.imp_right fun ⟨a, ha, hsteady, hcov, hlink⟩ =>
          ⟨a, ha, hsteady, fun b hb => (hcov b hb).of_floor hff, hlink⟩ } }

/-- A higher floor that everything the holder has under way reaches. -/
theorem CurrentOk.raise (hc : CurrentOk syncOf owed g f host p) (hff : f ≤ f')
    (hbest : f' ≤ p.best.info.syncCoveredThrough)
    (hrun : ∀ r ∈ p.replication, f' ≤ r.info.syncCoveredThrough)
    (hcommitted : ∀ c ∈ p.peerCommitted, f' ≤ c.syncCoveredThrough)
    (hpub : ∀ q ∈ p.publication, f' ≤ q.commit.syncCoveredThrough) :
    CurrentOk syncOf owed g f' host p := by
  refine { hc with
    floor := hbest
    covers := fun b hb => (hc.covers b hb).of_floor hff
    run := fun r hr => ?_
    committed := fun c hcc => ?_
    publication := fun q hq => ?_
    change := fun x task hx => (hc.change x task hx).mono fun _ _ hb => ⟨hb, (·.of_floor hff)⟩
    activates := fun r hr c hcr hact => (hc.activates r hr c hcr hact).of_floor hff }
  · obtain ⟨hrf, hrs, hra, -, hrc, hrp⟩ := hc.run r hr
    exact ⟨hrf, hrs, hra, hrun r hr, hrc, hrp⟩
  · obtain ⟨hcf, -, hcp⟩ := hc.committed c hcc
    exact ⟨hcf, hcommitted c hcc, hcp⟩
  · obtain ⟨hqf, -, hqx⟩ := hc.publication q hq
    exact ⟨hqf, hpub q hq, hqx⟩

/-- The publication of the holder is in the head: the floor rises to it. -/
theorem Secured.raisePublished (h : Secured syncOf owed s f) (hp : s.volumes host = some p)
    (hv : p.OfTenure s.tenure) {q : Publication} (hq : p.publication = some q)
    {pointer : ManifestPtr} (htask : p.publishes = some (.publishHead pointer))
    (hhead : s.head.manifest = some pointer) :
    Secured syncOf owed s q.commit.syncCoveredThrough := by
  have hvol := h.volumes host p hp
  have hc := hvol.current hv
  obtain ⟨hqf, hfloor, hptr⟩ := hc.publication q hq
  obtain ⟨q', hq', x, hx, hxt⟩ := ProtectedVolume.publishes_eq_some.mp htask
  obtain rfl : q = q' := Option.some.inj (hq.symm.trans hq')
  obtain ⟨pointer', heq, hsync⟩ := hptr x hx
  cases hxt.symm.trans heq
  have hmade := hvol.made_publication q hq
  refine h.raise hfloor (fun m hm => ?_) (hvol.exists_record hc) (fun x hx hf hnew => ?_)
    (fun x r hr hcr => ?_) fun r hr hl => ?_
  · obtain rfl := Option.some.inj (hhead.symm.trans hm)
    exact hsync.ge
  · exact (h.lineage.sync_le hmade hx (hnew _ hmade hqf) hqf).2
  · obtain rfl : host = x := hc.holder.symm.trans hcr.holder
    obtain rfl : p = r := Option.some.inj (hp.symm.trans hr)
    refine hc.raise hfloor (hc.sync_le_best h.lineage hvol hmade hqf)
      (fun r hr => (hc.run r hr).2.2.2.2.2 q hq) (fun c hcc => (hc.committed c hcc).2.2 q hq)
      fun q' hq' => ?_
    exact (congrArg (·.commit.syncCoveredThrough) (Option.some.inj (hq.symm.trans hq'))).le
  · rcases (h.writes r hr hl).manifest with hsame | ⟨m, hm, -, hlink⟩
    · exact hsame
    · have hlast := hlink p (hc.holder.symm ▸ hp) hv.1
      rw [htask, Option.some.injEq, HeadTask.publishHead.injEq] at hlast
      rw [hm, hhead, hlast]

/-- **A publication is adopted.** -/
theorem Secured.finishedPublication (h : Secured syncOf owed s f) (hp : s.volumes host = some p)
    {pointer : ManifestPtr} (serving : Bool) (htask : p.publishes = some (.publishHead pointer))
    (hhead : p.OfTenure s.tenure → s.head.manifest = some pointer) :
    ∃ f', Secured syncOf owed (s.setVolume host (p.finished serving .publication).1) f' := by
  obtain ⟨q, hq, x, hx, hxt⟩ := ProtectedVolume.publishes_eq_some.mp htask
  have hsome : p.cache.headVersion.isSome :=
    ((h.volumes host p hp).tasks .publication x (by
      rw [ProtectedVolume.headTask, Option.mem_def.mp hq]; exact hx)).2.1
  -- what is left of the volume state when the floor is `fl`
  have hq' : ∀ fl, VolumeOk syncOf owed s.toGround fl host p →
      (q.commit.writerFence = s.tenure → s.head.manifest.isSome ∧ q.commit.syncCoveredThrough ≤ fl) →
      VolumeOk syncOf owed s.toGround fl host (p.finished serving .publication).1 := by
    intro fl hvol hpub
    refine { hvol with
      made := ProtectedVolume.forall_infos hvol.best hvol.made_run hvol.made_committed
        (fun _ hq => by cases hq) fun c hc => ?_
      published := fun c hc => ?_
      tasks := fun slot x hx => ?_
      current := fun hv =>
        have hc := hvol.current hv
        { hc with
          run := fun r hr =>
            have hr' := hc.run r hr
            ⟨hr'.1, hr'.2.1, hr'.2.2.1, hr'.2.2.2.1, hr'.2.2.2.2.1, fun _ hq => by cases hq⟩
          committed := fun c hcc =>
            have hc' := hc.committed c hcc
            ⟨hc'.1, hc'.2.1, fun _ hq => by cases hq⟩
          publication := fun _ hq => by cases hq } }
    · rw [ProtectedVolume.finished, Option.mem_def.mp hq] at hc
      dsimp only at hc
      split at hc
      · exact Option.some.inj hc ▸ hvol.made_publication q hq
      · exact hvol.made_published c hc
    · rw [ProtectedVolume.finished, Option.mem_def.mp hq] at hc
      dsimp only at hc
      split at hc
      · exact ⟨hsome, Option.some.inj hc ▸ hpub⟩
      · exact hvol.published c hc
    · cases slot with
      | publication => cases hx
      | assignment => exact hvol.tasks .assignment x hx
      | removal i => exact hvol.tasks (.removal i) x hx
  by_cases hv : p.OfTenure s.tenure
  · have hman := hhead hv
    have hsec := h.raisePublished hp hv hq htask hman
    refine ⟨q.commit.syncCoveredThrough, hsec.modify hp
      (hq' _ (hsec.volumes host p hp) fun _ => ⟨hman ▸ rfl, le_rfl⟩) (fun _ => hsome)
      (fun _ m hm => .inl ?_) fun _ _ _ _ _ => .inr rfl⟩
    cases htask.symm.trans hm
    exact hman
  · -- the head has gone on without this volume state
    have hne : s.head.holder ≠ host := fun hh =>
      hv ⟨hsome, (h.volumes host p hp).holds hsome hh⟩
    refine ⟨f, h.modify hp (hq' f (h.volumes host p hp) fun hf => ?_) (fun _ => hsome)
      (fun hh => absurd hh hne) fun hh => absurd hh hne⟩
    exact absurd (h.lineage.holder _ ((h.volumes host p hp).made_publication q hq) hf).symm hne

/-! ## Calls -/

namespace Protection

theorem volumes_setVolume (s : Protection) (host : HostId) (p : ProtectedVolume) :
    (s.setVolume host p).volumes host = some p := by
  simp [setVolume]

theorem setVolume_setVolume (s : Protection) (host : HostId) (p q : ProtectedVolume) :
    (s.setVolume host p).setVolume host q = s.setVolume host q := by
  simp [setVolume]

theorem setVolume_self (hp : s.volumes host = some p) : s.setVolume host p = s := by
  rw [setVolume, ← hp, Function.update_eq_self]

theorem call_eq_some {task : HeadTask} {base : HeadCache} {put : TaskState → ProtectedVolume}
    (h : s.call host p task base put = some t) : ∃ v round request, p.cache.headVersion = some v ∧
      { s with object := s.object.send v ⟨task.head s.volume host p.cache, .task task⟩ }.setVolume host
        (put ⟨task, base, .writing round request⟩) = t := by
  unfold call at h
  cases hv : p.cache.headVersion with
  | none =>
    -- without a version there is nothing to write
    have hdone : ∃ outcome, ((s.system host p []).startRound task).2 = .done outcome := by
      have hnone : (s.system host p []).cache.headVersion = none := hv
      cases task with
      | publishHead pointer => simp [HeadSystem.startRound, HeadSystem.sendRound, hnone, HeadTask.isPublish]
      | casAssignment a retired =>
        simp [HeadSystem.startRound, HeadSystem.sendRound, hnone, HeadTask.isPublish]
      | removeRetiredStash retired =>
        rw [HeadSystem.startRound]
        split <;> simp [HeadSystem.sendRound, hnone, HeadTask.isPublish]
    obtain ⟨outcome, hdone⟩ := hdone
    split at h
    case h_1 hw =>
      rw [hw] at hdone
      cases hdone
    case h_2 => cases h
  | some v =>
    rcases HeadSystem.startRound_cases (s := s.system host p []) hv task with ⟨-, -, he⟩ | he
    · rw [he] at h
      cases h
    · rw [he] at h
      exact ⟨v, _, _, rfl, Option.some.inj h⟩

theorem acked_call {task : HeadTask} {base : HeadCache} {put : TaskState → ProtectedVolume}
    (h : s.call host p task base put = some t) : t.acked = s.acked := by
  obtain ⟨v, round, request, -, rfl⟩ := call_eq_some h
  rfl

end Protection

/-- **A head task is called.**  The volume state has it under way, and its first write is sent. -/
theorem Secured.call (h : Secured syncOf owed s f) (hp : s.volumes host = some p) {task : HeadTask}
    {base : HeadCache} {put : TaskState → ProtectedVolume}
    (hcall : s.call host p task base put = some t) (hcache : ∀ x, (put x).cache = p.cache)
    (hq : ∀ x : TaskState, x.task = task → (∀ round v found, x.phase ≠ .served round v found) →
      p.cache.headVersion.isSome → VolumeOk syncOf owed s.toGround f host (put x) ∧ (put x).Runs task)
    (hpub : ∀ x pointer, p.publishes = some (.publishHead pointer) →
      (put x).publishes = p.publishes)
    (hprop : ∀ x y, p.proposes = some y → (put x).proposes = p.proposes) :
    Secured syncOf owed t f := by
  obtain ⟨v, round, request, hv, rfl⟩ := Protection.call_eq_some hcall
  have hsome : p.cache.headVersion.isSome := hv ▸ rfl
  obtain ⟨hvol, hruns⟩ := hq ⟨task, base, .writing round request⟩ rfl (by simp) hsome
  have hmod := h.modify hp hvol (fun _ => hsome) (fun _ pointer hx => .inr (hpub _ pointer hx))
    fun _ x a retired hx => .inr (hprop _ _ hx)
  have hsend := hmod.sendTask (s.volumes_setVolume host _)
    ((congrArg HeadCache.headVersion (hcache _)).trans hv) hruns
  rw [hcache] at hsend
  exact hsend

section Calls

variable {r : ReplicationRun} {x : TaskState} {a : StashAssignment} {retired : List RetiredStash}

/-- A change of the assignment begins. -/
theorem VolumeOk.beginChange (h : VolumeOk syncOf owed g f host p) (hr : p.replication = some r)
    (hx : x.task = .casAssignment a retired)
    (hphase : ∀ round v found, x.phase ≠ .served round v found)
    (hsome : p.cache.headVersion.isSome) (activates : Bool)
    (hok : CurrentOk syncOf owed g f host p → a.Steady ∧
      (∀ e ∈ retired, (host, e.through) ∈ g.records) ∧ (r.target, r.assignmentEpoch) ∈ a.serving ∧
      (∀ b, p.Needs owed b → g.CoversBy a.serving f b) ∧
      (activates = true →
        g.CoversBy [(r.target, r.assignmentEpoch)] f r.info.syncCoveredThrough)) :
    VolumeOk syncOf owed g f host
      { p with replication := some { r with change := some ⟨activates, x⟩ } } := by
  refine { h with
    made := ProtectedVolume.forall_infos h.best
      (fun r' hr' => Option.some.inj hr' ▸ h.made_run r hr) h.made_committed h.made_publication
      h.made_published
    tasks := fun slot y hy => ?_
    current := fun hv => ?_ }
  · cases slot with
    | publication => exact h.tasks .publication y hy
    | removal i => exact h.tasks (.removal i) y hy
    | assignment =>
      obtain rfl : x = y := Option.some.inj hy
      exact ⟨⟨a, retired, hx⟩, hsome, fun round v found hxp => absurd hxp (hphase round v found)⟩
  · have hc := h.current hv
    obtain ⟨hsteady, hmade, hserving, hcov, hact⟩ := hok hc
    refine { hc with
      stash := fun hnone => by simp [ProtectedVolume.proposes] at hnone
      run := fun r' hr' => Option.some.inj hr' ▸ hc.run r hr
      change := fun y task hy => ?_
      activates := fun r' hr' c hcr hca => ?_ }
    · obtain ⟨rfl, rfl⟩ : (r.target, r.assignmentEpoch) = y ∧ x.task = task := by
        simpa [ProtectedVolume.proposes] using hy
      exact ⟨a, retired, hx, hsteady, hmade, hserving, .inr hcov⟩
    · obtain rfl := Option.some.inj hr'
      obtain rfl := Option.some.inj hcr
      exact hact hca

theorem HeadCache.serving_transitionProposal {c : HeadCache} {candidates : List HostId}
    (h : transitionProposal c candidates = some a) :
    a.transitionPeer.isSome ∧ ∃ current, c.stashAssignment = some current ∧
      current.serving ⊆ a.serving := by
  unfold transitionProposal at h
  obtain ⟨-, h⟩ := Option.ite_none_left_eq_some.mp h
  obtain ⟨current, hcur, h⟩ := Option.bind_eq_some_iff.mp h
  split at h
  case isTrue hsome =>
    obtain rfl := Option.some.inj h
    exact ⟨hsome, current, hcur, List.Subset.refl _⟩
  case isFalse hnone =>
    obtain ⟨next, -, rfl⟩ := Option.map_eq_some_iff.mp h
    refine ⟨rfl, current, hcur, ?_⟩
    have hnone' : current.transitionPeer = none := by simpa using hnone
    simp [StashAssignment.serving, hnone']

/-- `transition_stash`: the peers that are written to stay. -/
theorem Secured.transition (h : Secured syncOf owed s f) (hp : s.volumes host = some p)
    (hr : p.replication = some r) (hnone : r.change = none) {candidates : List HostId}
    (ha : transitionProposal p.cache candidates = some a)
    (hcall : s.call host p (.casAssignment a p.cache.retiredStashes) p.cache
      (fun task => { p with replication := some { r with change := some ⟨false, task⟩ } }) = some t) :
    Secured syncOf owed t f := by
  have hvol := h.volumes host p hp
  have hidle := ProtectedVolume.proposes_of_change hr hnone
  obtain ⟨hsome, current, hcur, hserving⟩ := HeadCache.serving_transitionProposal ha
  refine h.call hp hcall (fun _ => rfl) (fun x hx hphase hv => ⟨?_, ?_⟩) (fun _ _ _ => rfl)
    fun x y hy => by cases hidle.symm.trans hy
  · refine hvol.beginChange hr hx hphase hv false fun hc => ?_
    have hhead : s.head.serving = current.serving := by
      have hst : s.head.stash = some current := (hc.stash hidle).symm.trans hcur
      rw [HeadRecord.serving, hst]
      rfl
    refine ⟨fun hno => ?_, hc.retired, hserving (hhead ▸ (hc.run r hr).2.1),
      fun b hb => (hc.covers b hb).of_subset (show s.head.serving ⊆ _ from hhead ▸ hserving),
      fun hact => by cases hact⟩
    rw [hno] at hsome
    cases hsome
  · exact ⟨_, ProtectedVolume.proposes_eq_some.mpr ⟨_, rfl, _, rfl, rfl, hx⟩⟩

/-- `activate_stash`: the transition peer has the record of the replication, so it covers what the
watermark of the volume does. -/
theorem Secured.activate (h : Secured syncOf owed s f) (hp : s.volumes host = some p)
    (hr : p.replication = some r) (hnone : r.change = none) (hm : m ∈ s.replies)
    (hans : r.answered s.volume host m = true)
    (ha : activationProposal p.cache r.target r.assignmentEpoch r.info = some (a, retired))
    (hcall : s.call host p (.casAssignment a retired) p.cache
      (fun task => { p with replication := some { r with change := some ⟨true, task⟩ } }) = some t) :
    Secured syncOf owed t f := by
  have hvol := h.volumes host p hp
  have hidle := ProtectedVolume.proposes_of_change hr hnone
  obtain ⟨current, -, ha⟩ := Option.bind_eq_some_iff.mp ha
  obtain ⟨-, ha⟩ := Option.ite_none_left_eq_some.mp ha
  cases ha
  refine h.call hp hcall (fun _ => rfl) (fun x hx hphase hv => ⟨?_, ?_⟩) (fun _ _ _ => rfl)
    fun x y hy => by cases hidle.symm.trans hy
  · refine hvol.beginChange hr hx hphase hv true fun hc => ?_
    have hcov := h.covers_of_answered hp ⟨hv, ?_⟩ hr hm hans
    · refine ⟨fun _ => rfl, fun e he => ?_, List.mem_cons_self, fun b hb => ?_, fun _ => hcov⟩
      · -- the former active peer is retired with the record of the replication
        split at he
        · exact hc.retired e he
        · exact List.forall_mem_append.mpr
            ⟨hc.retired, List.forall_mem_singleton.mpr (hvol.made_run r hr)⟩ e he
      · have hb' : b ≤ p.syncAckThrough := hb.elim (hc.acked b) And.right
        exact (hcov.mono (hb'.trans (hc.run r hr).2.2.1)).of_subset
          (List.cons_subset.mpr ⟨List.mem_cons_self, List.nil_subset _⟩)
    · exact hvol.holds hv hc.holder
  · exact ⟨_, ProtectedVolume.proposes_eq_some.mpr ⟨_, rfl, _, rfl, rfl, hx⟩⟩

theorem Secured.publish (h : Secured syncOf owed s f) (hp : s.volumes host = some p)
    {q : Publication} (hq : p.publication = some q) (hnone : q.task = none) {pointer : ManifestPtr}
    (hsync : syncOf pointer = q.commit.syncCoveredThrough) {base : HeadCache}
    (hcall : s.call host p (.publishHead pointer) base
      (fun task => { p with publication := some { q with task := some task } }) = some t) :
    Secured syncOf owed t f := by
  have hvol := h.volumes host p hp
  have hidle : p.publishes = none := by simp [ProtectedVolume.publishes, hq, hnone]
  refine h.call hp hcall (fun _ => rfl) (fun x hx hphase hv => ⟨?_, ?_⟩)
    (fun x pointer hy => by cases hidle.symm.trans hy) fun _ _ _ => rfl
  · refine { hvol with
      made := ProtectedVolume.forall_infos hvol.best hvol.made_run hvol.made_committed
        (fun q' hq' => Option.some.inj hq' ▸ hvol.made_publication q hq) hvol.made_published
      tasks := fun slot y hy => ?_
      current := fun hcur => ?_ }
    · cases slot with
      | assignment => exact hvol.tasks .assignment y hy
      | removal i => exact hvol.tasks (.removal i) y hy
      | publication =>
        obtain rfl : x = y := Option.some.inj hy
        exact ⟨⟨pointer, hx⟩, hv, fun round v found hxp => absurd hxp (hphase round v found)⟩
    · have hc := hvol.current hcur
      refine { hc with run := fun r hr => ?_, committed := fun c hcc => ?_, publication := ?_ }
      · obtain ⟨hrf, hrs, hra, hrl, hrc, hrp⟩ := hc.run r hr
        exact ⟨hrf, hrs, hra, hrl, hrc, fun q' hq' => Option.some.inj hq' ▸ hrp q hq⟩
      · obtain ⟨hcf, hcl, hcp⟩ := hc.committed c hcc
        exact ⟨hcf, hcl, fun q' hq' => Option.some.inj hq' ▸ hcp q hq⟩
      · intro q' hq'
        obtain rfl := Option.some.inj hq'
        obtain ⟨hqf, hql, -⟩ := hc.publication q hq
        exact ⟨hqf, hql, fun y hy => ⟨pointer, Option.some.inj hy ▸ hx, hsync⟩⟩
  · exact ProtectedVolume.publishes_eq_some.mpr ⟨_, rfl, _, rfl, hx⟩

theorem Secured.removeRetired (h : Secured syncOf owed s f) (hp : s.volumes host = some p)
    {entry : RetiredStash}
    (hcall : s.call host p (.removeRetiredStash entry) p.cache
      (fun task => { p with removals := p.removals ++ [task] }) = some t) :
    Secured syncOf owed t f := by
  have hvol := h.volumes host p hp
  refine h.call hp hcall (fun _ => rfl) (fun x hx hphase hv => ⟨?_, trivial⟩) (fun _ _ _ => rfl)
    fun _ _ _ => rfl
  refine { hvol with
    tasks := fun slot y hy => ?_
    current := fun hcur => { hvol.current hcur with } }
  cases slot with
  | publication => exact hvol.tasks .publication y hy
  | assignment => exact hvol.tasks .assignment y hy
  | removal i =>
    rcases List.mem_append.mp (List.mem_of_getElem? hy) with hold | hnew
    · obtain ⟨k, hk⟩ := List.mem_iff_getElem?.mp hold
      exact hvol.tasks (.removal k) y hk
    · obtain rfl := List.mem_singleton.mp hnew
      exact ⟨⟨entry, hx⟩, hv, fun round v found hxp => absurd hxp (hphase round v found)⟩

end Calls

/-! ## Events -/

/-- What a change of the assignment proposes. -/
def HeadTask.proposed : HeadTask → Option StashAssignment
  | .casAssignment a _ => some a
  | _ => none

/-- What the event of a head task brings into the volume state is the head as it is, and a change of
the assignment succeeds only if it is in the head. -/
def Protection.HearsHead (s : Protection) (host : HostId) (slot : HeadSlot) (event : HeadEvent) :
    Prop :=
  event = .ok ∨ event = .found → ∀ p ∈ s.volumes host, ∀ x ∈ p.headTask slot,
    ∀ system ∈ (s.system host p [x]).act event.toStep, system.stopped = false →
      s.TakesOver p system.cache ∧
      (p.cache.fence = s.tenure → ∀ x' ∈ system.tasks.head?, x'.phase = .done .succeeded →
        ∀ a ∈ x.task.proposed, s.head.stash = some a)

namespace ProtectedVolume

theorem hear_self (p : ProtectedVolume) : p.hear p.cache = p := by
  simp [hear]

/-- A task that waits only changes its phase. -/
theorem advance_wait {slot : HeadSlot} {cache : HeadCache} {phase : Phase} (serving : Bool)
    (hphase : phase ≠ .done .succeeded) :
    p.advance slot cache phase serving = ((p.hear cache).setPhase phase slot, []) := by
  unfold advance
  split
  · exact absurd rfl hphase
  · rfl

end ProtectedVolume

section Events

variable {slot : HeadSlot} {x : TaskState} {serving : Bool}

/-- A task ends with the head in the volume state. -/
theorem Secured.finished (h : Secured syncOf owed s f) (serving : Bool)
    (hp : s.volumes host = some p) (hx : p.headTask slot = some x)
    (hcache : p.cache.fence = s.tenure → p.cache = s.head.cached s.tenure s.version)
    (hpub : ∀ pointer, x.task = .publishHead pointer → p.cache.backed = some pointer)
    (hprop : p.cache.fence = s.tenure → ∀ a ∈ x.task.proposed, s.head.stash = some a) :
    ∃ f', Secured syncOf owed (s.setVolume host (p.finished serving slot).1) f' := by
  obtain ⟨hrun, hsome, -⟩ := (h.volumes host p hp).tasks slot x hx
  cases slot with
  | publication =>
    obtain ⟨pointer, htask⟩ := hrun
    refine h.finishedPublication hp serving
      ((congrArg (Option.map TaskState.task) hx).trans (congrArg some htask)) fun hv => ?_
    exact (congrArg HeadCache.backed (hcache hv.2)).symm.trans (hpub pointer htask)
  | assignment =>
    refine ⟨f, h.finishedAssignment hp hsome serving
      (fun hv => congrArg HeadCache.stashAssignment (hcache hv.2)) fun hv y a retired hy => ?_⟩
    obtain ⟨c, hc, rfl⟩ := Option.map_eq_some_iff.mp hx
    obtain ⟨r, hr, hc⟩ := Option.bind_eq_some_iff.mp hc
    obtain ⟨r', hr', c', hc', -, htask⟩ := ProtectedVolume.proposes_eq_some.mp hy
    obtain rfl : r = r' := Option.some.inj (hr.symm.trans hr')
    obtain rfl : c = c' := Option.some.inj (hc.symm.trans hc')
    exact hprop hv.2 a (by rw [htask]; rfl)
  | removal i => exact ⟨f, h.removed hp i⟩

/-- A publication that ends has put its pointer into the volume state. -/
theorem HeadTask.onFound_finish {task : HeadTask} {round : Round} {c : HeadCache} {v : UInt64}
    {found : HeadRecord} {outcome : Outcome}
    (h : (task.onFound round c v found).2 = .finish outcome) : outcome = .succeeded ∧
      ∀ pointer, task = .publishHead pointer →
        (task.onFound round c v found).1.backed = some pointer := by
  cases task with
  | publishHead pointer =>
    rw [onFound] at h ⊢
    split at h
    case isTrue hany =>
      cases h
      rw [if_pos hany]
      exact ⟨rfl, fun _ heq => by cases heq; rfl⟩
    case isFalse => cases h
  | casAssignment a retired =>
    rw [onFound] at h
    refine ⟨?_, fun _ heq => by cases heq⟩
    split at h
    · cases h; rfl
    · split at h
      · cases h
      · cases h; rfl
  | removeRetiredStash retired =>
    rw [onFound] at h
    refine ⟨?_, fun _ heq => by cases heq⟩
    dsimp only at h
    split at h
    · cases h
    · cases h; rfl

/-- What a volume state of the host is told when one of its replications succeeds. -/
def Protection.Finishes (s t : Protection) (host : HostId) (serving : Bool) : Prop :=
  ∃ (p q : ProtectedVolume) (info : ReplicaCommitInfo), s.volumes host = some p ∧
    q.cache.fence = p.cache.fence ∧ q.cache.headVersion.isSome ∧ t.toGround = s.toGround ∧
    t.volumes host = some (q.finishPrimaryCommit info serving).1 ∧
    t.acked = s.acked ++ (q.finishPrimaryCommit info serving).2

/-- A task of the volume state goes on with `cache` in phase `phase`. -/
theorem Protection.absorb_setPhase (object : Cas.Object UInt64 StoredHead) (cache : HeadCache)
    (phase : Phase) :
    s.absorb host p slot serving ({ s.system host p [x] with object, cache }.setPhase 0 phase) =
      some { { s with object }.setVolume host (p.advance slot cache phase serving).1 with
        acked := s.acked ++ (p.advance slot cache phase serving).2 } :=
  rfl

/-- After an event of a head task nobody is answered, or an activation has succeeded. -/
def TaskOk (syncOf : ManifestPtr → UInt64) (owed : List UInt64) (s t : Protection) (host : HostId)
    (serving : Bool) : Prop :=
  ∃ f, Secured syncOf owed t f ∧ (t.acked = s.acked ∨ s.Finishes t host serving)

section Absorb

variable {cache : HeadCache} (h : Secured syncOf owed (s.setVolume host (p.hear cache)) f)
include h

/-- A task that has taken something over waits. -/
theorem Secured.absorb_wait {phase : Phase} (hne : phase ≠ .done .succeeded)
    (hphase : ∀ round v found, phase = .served round v found → v ≤ s.version)
    (hst : s.absorb host p slot serving
      ({ s.system host p [x] with cache }.setPhase 0 phase) = some t) :
    TaskOk syncOf owed s t host serving := by
  obtain rfl := Option.some.inj ((Protection.absorb_setPhase s.object cache phase).symm.trans hst)
  have hnext := h.setPhase (s.volumes_setVolume host _) phase hphase slot
  rw [Protection.setVolume_setVolume] at hnext
  rw [ProtectedVolume.advance_wait serving hne]
  exact ⟨f, { hnext with }, .inl (List.append_nil _)⟩

/-- A task that has taken something over starts another round: it sends its head again, or a removal
finds that its entry is gone. -/
theorem Secured.absorb_resume (hx : p.headTask slot = some x)
    (hst : s.absorb host p slot serving ({ s.system host p [x] with cache }.resume 0 x.task) = some t) :
    TaskOk syncOf owed s t host serving := by
  have hp := s.volumes_setVolume host (p.hear cache)
  obtain ⟨hrun, hsome, -⟩ := (h.volumes host _ hp).tasks slot x hx
  obtain ⟨v, hv⟩ := Option.isSome_iff_exists.mp hsome
  rw [HeadSystem.resume] at hst
  rcases HeadSystem.startRound_cases (s := { s.system host p [x] with cache }) hv x.task with
    ⟨retired, htask, he⟩ | he
  · obtain ⟨i, rfl⟩ : ∃ i, slot = .removal i := by
      cases slot with
      | removal i => exact ⟨i, rfl⟩
      | publication =>
        obtain ⟨pointer, htask'⟩ := hrun
        cases htask.symm.trans htask'
      | assignment =>
        obtain ⟨a, retired', htask'⟩ := hrun
        cases htask.symm.trans htask'
    rw [he] at hst
    obtain rfl := Option.some.inj ((Protection.absorb_setPhase s.object cache _).symm.trans hst)
    have hnext := h.removed hp i
    rw [Protection.setVolume_setVolume] at hnext
    exact ⟨f, { hnext with }, .inl (List.append_nil _)⟩
  · have hsent := h.sendTask hp hv (ProtectedVolume.runs_headTask hx hrun)
    rw [he] at hst
    obtain rfl := Option.some.inj ((Protection.absorb_setPhase _ cache _).symm.trans hst)
    rw [ProtectedVolume.advance_wait serving (by rintro ⟨⟩)]
    refine ⟨f, ?_, .inl (List.append_nil _)⟩
    have hnext := hsent.setPhase hp (.writing ⟨x.task.head s.volume host cache,
      cache.stashAssignment, cache.retiredStashes⟩ s.object.requests.length) (by rintro _ _ _ ⟨⟩) slot
    rw [Protection.setVolume, Protection.setVolume, Function.update_idem] at hnext
    exact { hnext with }

/-- A task that has taken the head over succeeds. -/
theorem Secured.absorb_finish (hp : s.volumes host = some p) (hx : p.headTask slot = some x)
    (hfence : cache.fence = p.cache.fence) (hv : cache.headVersion.isSome)
    (hcache : cache.fence = s.tenure → cache = s.head.cached s.tenure s.version)
    (hpub : ∀ pointer, x.task = .publishHead pointer → cache.backed = some pointer)
    (hprop : cache.fence = s.tenure → ∀ a ∈ x.task.proposed, s.head.stash = some a)
    (hst : s.absorb host p slot serving
      ({ s.system host p [x] with cache }.setPhase 0 (.done .succeeded)) = some t) :
    TaskOk syncOf owed s t host serving := by
  obtain rfl := Option.some.inj ((Protection.absorb_setPhase s.object cache _).symm.trans hst)
  obtain ⟨f', hnext⟩ := h.finished serving (s.volumes_setVolume host _) hx hcache hpub hprop
  rw [Protection.setVolume_setVolume] at hnext
  refine ⟨f', { hnext with }, ?_⟩
  have hadv : p.advance slot cache (.done .succeeded) serving =
    (p.hear cache).finished serving slot := rfl
  rw [hadv]
  cases slot with
  | publication => exact .inl (List.append_nil _)
  | removal i => exact .inl (List.append_nil _)
  | assignment =>
    rw [ProtectedVolume.finished]
    split
    case h_1 target epoch info task hr =>
      refine .inr ⟨p, p.hear cache, info, hp, hfence, hv, rfl, ?_, rfl⟩
      exact s.volumes_setVolume host _
    case h_2 => exact .inl (List.append_nil _)

end Absorb

theorem HeadSystem.resume_keeps {s : HeadSystem} {v : UInt64} (hv : s.cache.headVersion = some v)
    (i : Nat) (task : HeadTask) :
    (s.resume i task).cache = s.cache ∧ (s.resume i task).stopped = s.stopped := by
  unfold HeadSystem.resume
  rcases HeadSystem.startRound_cases hv task with ⟨-, -, he⟩ | he <;> rw [he] <;> exact ⟨rfl, rfl⟩

/-- What reading the head again leads to. -/
theorem HeadSystem.found_cases (s : HeadSystem) (i : Nat) (task : HeadTask) (round : Round)
    (version : UInt64) (head : HeadRecord) :
    let heard : HeadSystem := { s with cache := (task.onFound round s.cache version head).1 }
    (s.found i task round version head).stopped = true ∨
    (∃ outcome, (task.onFound round s.cache version head).2 = .finish outcome ∧
      s.found i task round version head = heard.setPhase i (.done outcome)) ∨
    ((task.onFound round s.cache version head).2 = .again ∧
      s.found i task round version head = heard.resume i task) ∨
    ((task.onFound round s.cache version head).2 = .delay ∧
      s.found i task round version head = heard.setPhase i .delayed) := by
  intro heard
  unfold HeadSystem.found
  split
  · exact .inl rfl
  · dsimp only
    split
    case h_1 outcome hnext => exact .inr (.inl ⟨outcome, hnext, rfl⟩)
    case h_2 hnext => exact .inr (.inr (.inl ⟨hnext, rfl⟩))
    case h_3 hnext => exact .inr (.inr (.inr ⟨hnext, rfl⟩))

section Event

variable (h : Secured syncOf owed s f) (hp : s.volumes host = some p) (hx : p.headTask slot = some x)
  {system : HeadSystem} (hst : s.absorb host p slot serving system = some t)
include h hp hx hst

/-- The write of the task is answered, which takes the head over. -/
theorem Secured.headOk (hok : s.HearsHead host slot .ok)
    (hact : (s.system host p [x]).act (.ok 0) = some system) : TaskOk syncOf owed s t host serving := by
  obtain ⟨-, hsome, -⟩ := (h.volumes host p hp).tasks slot x hx
  cases HeadSystem.event_of_act hact with
  | failed ha => rcases ha with heq | heq <;> cases heq
  | ok ht hv =>
    obtain rfl := Option.some.inj ht
    obtain ⟨htake, hprop⟩ := hok (.inl rfl) p hp _ hx _ hact rfl
    have hsec := h.hear hp hsome (HeadTask.fence_onOk ..) (HeadTask.headVersion_onOk ..)
      (Cas.Object.le_of_created hv) htake
    refine hsec.absorb_finish hp hx (HeadTask.fence_onOk ..) ?_ (fun hf => ?_) ?_ (fun hf => ?_) hst
    · exact (congrArg Option.isSome (HeadTask.headVersion_onOk ..)).trans rfl
    · exact htake (.inl ((HeadTask.fence_onOk ..).symm.trans hf))
    · rintro pointer htask
      dsimp only at htask
      rw [htask]
      rfl
    · exact hprop ((HeadTask.fence_onOk ..).symm.trans hf) _ rfl rfl

/-- The task looks at the head that it was served. -/
theorem Secured.headFound (hok : s.HearsHead host slot .found)
    (hact : (s.system host p [x]).act (.found 0) = some system) :
    TaskOk syncOf owed s t host serving := by
  obtain ⟨-, hsome, hserved⟩ := (h.volumes host p hp).tasks slot x hx
  cases HeadSystem.event_of_act hact with
  | failed ha => rcases ha with heq | heq <;> cases heq
  | @found _ task base round version found ht =>
    obtain rfl := Option.some.inj ht
    have hle : version ≤ s.version := hserved _ _ _ rfl
    rcases HeadSystem.found_cases (s.system host p [⟨task, base, .served round version found⟩]) 0
      task round version found.head with hstop | hfound
    · obtain rfl := Option.some.inj ((if_pos hstop).symm.trans hst)
      exact ⟨f, h.drop host, .inl rfl⟩
    have hcache : (task.onFound round p.cache version found.head).1.fence = p.cache.fence :=
      HeadTask.fence_onFound ..
    have hversion : (task.onFound round p.cache version found.head).1.headVersion = some version :=
      HeadTask.headVersion_onFound ..
    have hsec := h.hear hp hsome hcache hversion hle
    rcases hfound with ⟨outcome, hnext, he⟩ | ⟨-, he⟩ | ⟨-, he⟩
    · obtain ⟨rfl, hpub⟩ := HeadTask.onFound_finish hnext
      rw [he] at hst hact
      obtain ⟨htake, hprop⟩ := hok (.inr rfl) p hp _ hx _ hact rfl
      refine (hsec htake).absorb_finish hp hx hcache (hversion ▸ rfl) (fun hf => ?_) hpub
        (fun hf => ?_) hst
      · exact htake (.inl (hcache.symm.trans hf))
      · exact hprop (hcache.symm.trans hf) _ rfl rfl
    · rw [he] at hst hact
      obtain ⟨hkeep, hstop⟩ := HeadSystem.resume_keeps (s := { s.system host p
        [⟨task, base, .served round version found⟩] with
        cache := (task.onFound round p.cache version found.head).1 }) hversion 0 task
      obtain ⟨htake, -⟩ := hok (.inr rfl) p hp _ hx _ hact hstop
      exact (hsec ((congrArg (s.TakesOver p) hkeep).mp htake)).absorb_resume hx hst
    · rw [he] at hst hact
      obtain ⟨htake, -⟩ := hok (.inr rfl) p hp _ hx _ hact rfl
      exact (hsec htake).absorb_wait (by rintro ⟨⟩) (by rintro _ _ _ ⟨⟩) hst

end Event

/-- **An event of a head task.** -/
theorem Secured.headEvent (h : Secured syncOf owed s f) {event : HeadEvent}
    (hok : s.HearsHead host slot event) (hst : s.headEvent host slot event serving = some t) :
    TaskOk syncOf owed s t host serving := by
  simp only [Protection.headEvent, Option.bind_eq_some_iff] at hst
  obtain ⟨p, hp, x, hx, system, hact, hst⟩ := hst
  -- a task that takes nothing over leaves the volume state as it is
  have hself : Secured syncOf owed (s.setVolume host (p.hear p.cache)) f := by
    rw [ProtectedVolume.hear_self, Protection.setVolume_self hp]
    exact h
  cases event with
  | ok => exact h.headOk hp hx hst hok hact
  | found => exact h.headFound hp hx hst hok hact
  | conflict | unknown =>
    cases HeadSystem.event_of_act hact with
    | failed ha =>
      rcases ha with heq | heq <;> cases heq
      exact hself.absorb_wait (by rintro ⟨⟩) (by rintro _ _ _ ⟨⟩) hst
  | serve =>
    cases HeadSystem.event_of_act hact with
    | serve ht =>
      refine hself.absorb_wait (by rintro ⟨⟩) (fun _ _ _ heq => ?_) hst
      cases heq
      exact le_rfl
    | failed ha => rcases ha with heq | heq <;> cases heq
  | getUnavailable =>
    cases HeadSystem.event_of_act hact with
    | getUnavailable => exact hself.absorb_wait (by rintro ⟨⟩) (by rintro _ _ _ ⟨⟩) hst
    | failed ha => rcases ha with heq | heq <;> cases heq
  | retry =>
    cases HeadSystem.event_of_act hact with
    | failed ha => rcases ha with heq | heq <;> cases heq
    | retry ht =>
      obtain rfl := Option.some.inj ht
      exact hself.absorb_resume hx hst

end Events

/-! ## Writes that take effect -/

section Land

variable (hw : WriteOk syncOf owed g volumes f head) (hl : g.Lineage)
include hw

include hl in
theorem WriteOk.tenure (version : UInt64) :
    ({ g with version, head } : Ground).tenure = g.tenure :=
  (if_neg (hw.fence.trans_ne hl.tenure_ne)).trans hw.fence

theorem WriteOk.isSome_manifest (hsome : g.head.manifest.isSome) : head.manifest.isSome := by
  rcases hw.manifest with hm | ⟨pointer, hm, -⟩
  · rwa [hm]
  · rw [hm]
    rfl

include hl in
/-- The spools of an assignment cover under the new head what they covered. -/
theorem WriteOk.coversBy {serving : List (HostId × UInt64)} {b : UInt64}
    (h : g.CoversBy serving f b) (version : UInt64) :
    ({ g with version, head } : Ground).CoversBy serving f b :=
  h.withHead (hw.tenure hl version) hw.holder hw.isSome_manifest

/-- What the write makes of the assignment, for the volume state that sent it. -/
theorem WriteOk.stash_cases (hc : CurrentOk syncOf owed g f host p) (hp : volumes host = some p)
    (hsome : p.cache.headVersion.isSome) : head.stash = g.head.stash ∨
      ∃ x a retired, head.stash = some a ∧ p.proposes = some (x, .casAssignment a retired) ∧
        x ∈ a.serving ∧ ∀ b, p.Needs owed b → g.CoversBy a.serving f b := by
  rcases hw.stash with hsame | ⟨a, ha, -, -, hlink⟩
  · exact .inl hsame
  · obtain ⟨x, retired, hx⟩ := hlink p (hc.holder.symm ▸ hp) hsome
    obtain ⟨a', retired', htask, -, -, hserving, hor⟩ := hc.change x _ hx
    cases htask
    rcases hor with hhead | hcov
    · exact .inl (ha.trans hhead.symm)
    · exact .inr ⟨x, a, retired, ha, hx, hserving, hcov⟩

include hl in
theorem CurrentOk.land (hc : CurrentOk syncOf owed g f host p) (hp : volumes host = some p)
    (hsome : p.cache.headVersion.isSome) (hle : ∀ v ∈ p.cache.headVersion, v ≤ g.version)
    (hlt : g.version < version) : CurrentOk syncOf owed { g with version, head } f host p := by
  have ht := hw.tenure hl version
  have hcases := hw.stash_cases hc hp hsome
  -- the peers that are written to are as they were, or those that the volume state has proposed
  have hserving : head.stash = g.head.stash → head.serving = g.head.serving := fun hs => by
    rw [HeadRecord.serving, hs, HeadRecord.serving]
  have hproposed : ∀ a : StashAssignment, head.stash = some a → head.serving = a.serving :=
    fun a ha => by rw [HeadRecord.serving, ha]; rfl
  refine { hc with
    holder := hw.holder.trans hc.holder
    stash := fun hnone => ?_
    mirrors := fun hv => absurd (hle version hv) (not_le_of_gt hlt)
    best_fence := hc.best_fence.trans ht.symm
    newest := fun x hx hf => hc.newest x hx (hf.trans ht)
    covers := fun b hb => ?_
    run := fun r hr => ?_
    committed := fun c hcc => ?_
    publication := fun q hq => ?_
    change := fun y task hy => ?_
    activates := fun r hr c hcr hact => hw.coversBy hl (hc.activates r hr c hcr hact) version }
  · rcases hcases with hs | ⟨x, a, retired, -, hx, -⟩
    · exact (hc.stash hnone).trans hs.symm
    · cases hnone.symm.trans hx
  · show ({ g with version, head } : Ground).CoversBy head.serving f b
    rcases hcases with hs | ⟨x, a, retired, ha, -, -, hcov⟩
    · rw [hserving hs]
      exact hw.coversBy hl (hc.covers b hb) version
    · rw [hproposed a ha]
      exact hw.coversBy hl (hcov b hb) version
  · obtain ⟨hrf, hrs, hrest⟩ := hc.run r hr
    refine ⟨hrf.trans ht.symm, ?_, hrest⟩
    rcases hcases with hs | ⟨x, a, retired, ha, hx, hxa, -⟩
    · exact (hserving hs).symm ▸ hrs
    · obtain ⟨r', hr', c, -, rfl, -⟩ := ProtectedVolume.proposes_eq_some.mp hx
      obtain rfl : r = r' := Option.some.inj (hr.symm.trans hr')
      exact (hproposed a ha).symm ▸ hxa
  · obtain ⟨hcf, hrest⟩ := hc.committed c hcc
    exact ⟨hcf.trans ht.symm, hrest⟩
  · obtain ⟨hqf, hrest⟩ := hc.publication q hq
    exact ⟨hqf.trans ht.symm, hrest⟩
  · obtain ⟨a', retired', htask, hsteady, hmade, hyserving, hor⟩ := hc.change y task hy
    refine ⟨a', retired', htask, hsteady, hmade, hyserving, ?_⟩
    rcases hcases with hs | ⟨x, a, retired, ha, hx, -⟩
    · exact hor.imp hs.trans fun hn b hb => hw.coversBy hl (hn b hb) version
    · cases hy.symm.trans hx
      cases htask
      exact .inl ha

include hl in
theorem VolumeOk.land (h : VolumeOk syncOf owed g f host p) (hp : volumes host = some p)
    (hlt : g.version < version) : VolumeOk syncOf owed { g with version, head } f host p := by
  have ht := hw.tenure hl version
  refine {
    made := h.made
    published := fun c hc => ⟨(h.published c hc).1, fun hf => ?_⟩
    fence_le := h.fence_le.trans ht.ge
    version_le := fun v hv => (h.version_le v hv).trans hlt.le
    known := fun hv => absurd (h.version_le version hv) (not_le_of_gt hlt)
    holds := fun hs hh => (h.holds hs (hw.holder.symm.trans hh)).trans ht.symm
    tasks := fun slot x hx => ?_
    incoming := h.incoming
    pending := h.pending
    current := fun hv => ?_ }
  · obtain ⟨hm, hb⟩ := (h.published c hc).2 (hf.trans ht)
    exact ⟨hw.isSome_manifest hm, hb⟩
  · obtain ⟨hrun, hs, hserved⟩ := h.tasks slot x hx
    exact ⟨hrun, hs, fun round v found hxp => (hserved round v found hxp).trans hlt.le⟩
  · exact (h.current ⟨hv.1, hv.2.trans ht⟩).land hw hl hp hv.1 h.version_le hlt

end Land

/-- **A write takes effect.**  The tenure goes on, whether its sender has heard of it or not. -/
theorem Secured.land (h : Secured syncOf owed s f) {i : Nat} {object : Cas.Object UInt64 StoredHead}
    (ho : s.object.land i version = some object) : Secured syncOf owed { s with object } f := by
  obtain ⟨r, hr, hexp, hlog, hreq⟩ := Cas.Object.land_eq_some ho
  obtain ⟨rfl, hvalue, hlt⟩ := Cas.Object.eq_of_log_cons hlog
  have hw := h.writes r (List.mem_of_getElem? hr) ⟨Cas.Object.landed_of_land hr ho, hexp⟩
  rw [← hvalue] at hw
  have ht := hw.tenure h.lineage object.version
  have hexpected : ∀ r' ∈ object.requests, r'.expected ≤ s.version := fun r' hr' => by
    rcases List.mem_or_eq_of_mem_set (hreq ▸ hr') with hr' | rfl
    · exact h.expected r' hr'
    · exact hexp.le
  refine { h with
    lineage := h.lineage.withHead ht hw.holder hlt.le
    manifest := fun pointer hptr => ?_
    steady := fun stash hst => ?_
    retired := fun e he => hw.holder.symm ▸ hw.retired e he
    replied := fun m hm hf => (h.replied m hm (hf.trans ht)).imp_right fun hr =>
      ⟨hw.isSome_manifest hr.1, hr.2⟩
    releases := fun m hm hf => ?_
    volumes := fun x p hp => (h.volumes x p hp).land hw h.lineage hp hlt
    saved_newest := fun x d hd hf => ?_
    claims := fun x c hx => ?_
    acked := fun b hb => ?_
    expected := fun r' hr' => (hexpected r' hr').trans hlt.le
    writes := fun r' hr' hl => absurd (hl.2.symm.le.trans (hexpected r' hr')) (not_le_of_gt hlt) }
  · rcases hw.manifest with hm | ⟨pointer', hm, hf, -⟩
    · exact h.manifest pointer (hm ▸ hptr)
    · obtain rfl := Option.some.inj (hm.symm.trans hptr)
      exact hf
  · rcases hw.stash with hs | ⟨a, ha, hsteady, -⟩
    · exact h.steady stash (hs ▸ hst)
    · obtain rfl := Option.some.inj (ha.symm.trans hst)
      exact hsteady
  · obtain ⟨hmade, hman, hfloor⟩ := h.releases m hm (ht.symm.trans_le hf)
    exact ⟨hmade, hw.isSome_manifest hman, hfloor⟩
  · obtain ⟨hnew, hrest⟩ := h.saved_newest x d hd (hf.trans ht)
    exact ⟨fun y hy hyf => hnew y hy (hyf.trans ht), hrest⟩
  · have hcl := h.claims x c hx
    refine ⟨hcl.le.trans ht.ge, fun hh => (hcl.holds (hw.holder.symm.trans hh)).trans ht.symm,
      hcl.retired, fun hv => ?_⟩
    -- a claim without a record has sent nothing
    obtain ⟨y, hy, hyf⟩ := hw.made
    exact absurd hyf ((hcl.fresh (hv.trans ht)).none y hy)
  · show ({ s with object } : Protection).toGround.CoversBy object.value.head.serving f b
    rcases hw.stash with hs | ⟨a, ha, -, hcov, -⟩
    · rw [HeadRecord.serving, hs]
      exact hw.coversBy h.lineage (h.acked b hb) object.version
    · rw [HeadRecord.serving, ha]
      exact hw.coversBy h.lineage (hcov b hb) object.version

end Blockd
