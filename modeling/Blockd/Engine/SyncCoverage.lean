import Blockd.Engine.SyncTenure

/-!
# Every acknowledged sync is covered

The runs of `Protection`.  Only a few kinds of step can break the invariant `Secured`:

* a claim of a migration replaces the stash, so that only the manifest is left to cover what the
  offered record covers;
* a host that recovers takes the watermark from its own journal;
* a head task takes over less than the head, or another head than the present one;
* a host whose head has been claimed by another goes on answering.

`FoundProtected`, `HearsHeads` and `AnswersAsHolder` exclude them.  `Secured.step` puts the steps
together, and three results follow by induction over a run:

* `sync_answered_covered` — a sync is answered only when it is covered;
* `acked_covered` — what was answered stays covered, through migrations and crashes, if an offer that
  is claimed covers it;
* `messages_backed` — acknowledgements and releases stay true, however late they arrive.

`not_sync_answered_covered` and `not_acked_covered` say that the first two do not hold without a
condition.
-/

set_option autoImplicit false

namespace Blockd

variable {host peer : HostId} {p : ProtectedVolume} {version f : UInt64} {d : SavedVolume}
  {syncOf : ManifestPtr → UInt64} {owed : List UInt64} {s t : Protection} {g : Ground}
  {volumes : HostId → Option ProtectedVolume} {head : HeadRecord} {a : ProtectionStep}

/-! ## The conditions -/

/-- The host whose syncs a step may answer. -/
def ProtectionStep.answerer : ProtectionStep → Option HostId
  | .sync host | .finish host _ _ | .head host _ _ _ => some host
  | _ => none

namespace Protection

/-- What takes a watermark over from a record finds it protected: the manifest covers the record of
an offer that is claimed, and the record that a host recovers is covered by the manifest or by a peer
that is written to. -/
def FoundProtected (syncOf : ManifestPtr → UInt64) (s : Protection) : ProtectionStep → Prop
  | .claim i _ _ _ => ∀ offer ∈ s.offers[i]?,
      ∃ pointer ∈ s.head.manifest, offer.cut.info.syncCoveredThrough ≤ syncOf pointer
  | .recover host _ => ∀ d ∈ s.saved host, d.handoff = none →
      s.toGround.Protects syncOf d.best.info.syncCoveredThrough
  | _ => True

/-- A host knows the head as it is when it takes it over, makes only its own claim final, and when it
recovers no write of its earlier run can still take effect. -/
def HearsHeads (s : Protection) : ProtectionStep → Prop
  | .head host slot event _ => s.HearsHead host slot event
  | .finalized host version =>
    ∀ p ∈ s.volumes host, s.TakesOver p { p.cache with headVersion := some version }
  | .ensureOutbound _ record => record.writerFence = s.version
  | .recover host _ => ∀ d ∈ s.saved host, d.handoff = none →
      ∀ r ∈ s.object.requests, ¬ s.Live r
  | _ => True

/-- The condition on the steps of a run under which the invariant goes on. -/
def Sound (syncOf : ManifestPtr → UInt64) (s : Protection) (a : ProtectionStep) : Prop :=
  s.FoundProtected syncOf a ∧ s.HearsHeads a

/-- A sync is answered by a host whose head is still of the present tenure. -/
def AnswersAsHolder (syncOf : ManifestPtr → UInt64) (s : Protection) (a : ProtectionStep) : Prop :=
  ∀ t ∈ s.step syncOf a, t.acked ≠ s.acked → ∀ host ∈ a.answerer, s.Holds host

/-- An offer that is claimed covers what was answered. -/
def OffersAcked (s : Protection) : ProtectionStep → Prop
  | .claim i _ _ _ => ∀ offer ∈ s.offers[i]?, ∀ b ∈ s.acked, b ≤ offer.cut.info.syncCoveredThrough
  | _ => True

/-- The condition under which what was answered stays covered. -/
def CarriesAcked (syncOf : ManifestPtr → UInt64) (s : Protection) (a : ProtectionStep) : Prop :=
  s.Sound syncOf a ∧ s.AnswersAsHolder syncOf a ∧ s.OffersAcked a

end Protection

section Decidable

variable (syncOf : ManifestPtr → UInt64) (s : Protection)

instance (g : Ground) (b : UInt64) : Decidable (g.Protects syncOf b) :=
  inferInstanceAs (Decidable (_ ∨ _))

instance (host : HostId) : Decidable (s.Holds host) :=
  inferInstanceAs (Decidable (∃ p ∈ s.volumes host, p.OfTenure s.tenure))

instance (r : Cas.Request UInt64 StoredHead) : Decidable (s.Live r) :=
  inferInstanceAs (Decidable (_ ∧ _))

instance (p : ProtectedVolume) (cache : HeadCache) : Decidable (s.TakesOver p cache) :=
  inferInstanceAs (Decidable (_ → _))

instance (host : HostId) (slot : HeadSlot) (event : HeadEvent) :
    Decidable (s.HearsHead host slot event) :=
  inferInstanceAs (Decidable (_ → _))

instance : ∀ a, Decidable (s.FoundProtected syncOf a)
  | .claim i _ _ _ => inferInstanceAs (Decidable (∀ offer ∈ s.offers[i]?,
      ∃ pointer ∈ s.head.manifest, offer.cut.info.syncCoveredThrough ≤ syncOf pointer))
  | .recover host _ => inferInstanceAs (Decidable (∀ d ∈ s.saved host, d.handoff = none →
      s.toGround.Protects syncOf d.best.info.syncCoveredThrough))
  | .write _ | .sync _ | .capture .. | .protect _ | .replicate _ | .sendCommit _ | .deliverCommit _
  | .reply .. | .finish .. | .transition .. | .activate .. | .abandon _ | .snapshot _ | .publish ..
  | .release .. | .deliverRelease _ | .removeRetired .. | .land .. | .head .. | .migrate _
  | .handoff .. | .reoffer _ | .ensureOutbound .. | .install _ | .finalize _ | .finalized ..
  | .crash _ | .reconcile _ => isTrue trivial

instance : ∀ a, Decidable (s.HearsHeads a)
  | .head host slot event _ => inferInstanceAs (Decidable (s.HearsHead host slot event))
  | .finalized host version => inferInstanceAs (Decidable (∀ p ∈ s.volumes host,
      s.TakesOver p { p.cache with headVersion := some version }))
  | .ensureOutbound _ record => inferInstanceAs (Decidable (record.writerFence = s.version))
  | .recover host _ => inferInstanceAs (Decidable (∀ d ∈ s.saved host, d.handoff = none →
      ∀ r ∈ s.object.requests, ¬ s.Live r))
  | .write _ | .sync _ | .capture .. | .protect _ | .replicate _ | .sendCommit _ | .deliverCommit _
  | .reply .. | .finish .. | .transition .. | .activate .. | .abandon _ | .snapshot _ | .publish ..
  | .release .. | .deliverRelease _ | .removeRetired .. | .land .. | .migrate _ | .handoff ..
  | .reoffer _ | .claim .. | .install _ | .finalize _ | .crash _ | .reconcile _ => isTrue trivial

instance : ∀ a, Decidable (s.OffersAcked a)
  | .claim i _ _ _ =>
    -- over the list, not over the finite type of all barriers
    have (offer : CutOffer) : Decidable (∀ b ∈ s.acked, b ≤ offer.cut.info.syncCoveredThrough) :=
      List.decidableBAll _ _
    inferInstanceAs (Decidable (∀ offer ∈ s.offers[i]?, ∀ b ∈ s.acked,
      b ≤ offer.cut.info.syncCoveredThrough))
  | .write _ | .sync _ | .capture .. | .protect _ | .replicate _ | .sendCommit _ | .deliverCommit _
  | .reply .. | .finish .. | .transition .. | .activate .. | .abandon _ | .snapshot _ | .publish ..
  | .release .. | .deliverRelease _ | .removeRetired .. | .land .. | .head .. | .migrate _
  | .handoff .. | .reoffer _ | .ensureOutbound .. | .install _ | .finalize _ | .finalized ..
  | .crash _ | .reconcile _ | .recover .. => isTrue trivial

instance (a : ProtectionStep) : Decidable (s.Sound syncOf a) :=
  inferInstanceAs (Decidable (_ ∧ _))

instance (a : ProtectionStep) : Decidable (s.AnswersAsHolder syncOf a) :=
  -- over the option, not over the finite type of all hosts
  have : Decidable (∀ host ∈ a.answerer, s.Holds host) := Option.decidableForallMem _
  inferInstanceAs (Decidable (∀ t ∈ s.step syncOf a, t.acked ≠ s.acked →
    ∀ host ∈ a.answerer, s.Holds host))

instance (a : ProtectionStep) : Decidable (s.CarriesAcked syncOf a) :=
  inferInstanceAs (Decidable (_ ∧ _ ∧ _))

end Decidable

/-! ## One step -/

/-- The watermark of the holder has reached the barrier, and it stands for a protected volume. -/
def Protection.Reached (s : Protection) (b : UInt64) : Prop :=
  ∃ host p, s.volumes host = some p ∧ p.OfTenure s.tenure ∧ p.Needs [] b

/-- What a step from `s` to `t` keeps, and what it answers. -/
structure StepOk (syncOf : ManifestPtr → UInt64) (owed : List UInt64) (s : Protection)
    (a : ProtectionStep) (t : Protection) : Prop where
  secured : ∃ f, Secured syncOf owed t f
  acked : ∃ answered, t.acked = s.acked ++ answered ∧
    ((∀ host ∈ a.answerer, s.Holds host) → ∀ b ∈ answered, t.Reached b)

/-- A step that answers nothing. -/
theorem Secured.quiet (h : Secured syncOf owed t f) (hacked : t.acked = s.acked) :
    StepOk syncOf owed s a t :=
  ⟨⟨f, h⟩, [], hacked.trans (List.append_nil _).symm, fun _ _ hb => by cases hb⟩

theorem ProtectedVolume.mem_handleSync {b : UInt64} (h : b ∈ p.handleSync.2) :
    b ≤ p.handleSync.1.syncAckThrough := by
  unfold ProtectedVolume.handleSync at h ⊢
  split at h
  case isTrue hle =>
    rw [if_pos hle, List.mem_singleton.mp h]
    exact hle
  case isFalse => cases h

/-- A sync that is answered at the end of a replication is below the new watermark. -/
theorem ProtectedVolume.needs_finish {info : ReplicaCommitInfo} {serving : Bool} {b : UInt64}
    (h : b ∈ (p.finishPrimaryCommit info serving).2) :
    (p.finishPrimaryCommit info serving).1.Needs [] b := by
  cases serving with
  | false => cases h
  | true =>
    refine .inr ⟨.inr (.inr ?_), of_decide_eq_true (List.mem_filter.mp h).2⟩
    simp only [finishPrimaryCommit, if_true]
    split
    · rfl
    case isFalse hall =>
      cases hc : p.peerCommitted with
      | none => simp [hc] at hall
      | some c => rfl

theorem ProtectedVolume.cache_finish (p : ProtectedVolume) (info : ReplicaCommitInfo)
    (serving : Bool) : (p.finishPrimaryCommit info serving).1.cache = p.cache := by
  cases serving <;> rfl

/-- A handoff marker leaves the journal alone. -/
theorem Protection.saved_mark {x : HostId} {destination : Option HostId}
    (h : Function.update s.saved host
      ((s.saved host).map fun d => { d with handoff := destination }) x = some d) :
    ∃ d', s.saved x = some d' ∧ d'.best = d.best := by
  by_cases hx : x = host
  · subst hx
    rw [Function.update_self] at h
    obtain ⟨d', hd', rfl⟩ := Option.map_eq_some_iff.mp h
    exact ⟨d', hd', rfl⟩
  · rw [Function.update_of_ne hx] at h
    exact ⟨d, h, rfl⟩

section Steps

open Option (bind_eq_some_iff map_eq_some_iff ite_some_none_eq_some ite_none_right_eq_some)

variable (h : Secured syncOf owed s f)
include h

/-! ### Steps of a volume state -/

theorem Secured.stepOk_write (hst : s.step syncOf (.write host) = some t) :
    StepOk syncOf owed s a t := by
  obtain ⟨p, hp, hst⟩ := bind_eq_some_iff.mp hst
  obtain ⟨-, rfl⟩ := ite_some_none_eq_some.mp hst
  have hvol := h.volumes host p hp
  exact Secured.quiet (h.update hp { hvol with current := fun hv => { hvol.current hv with } } id rfl
    rfl) rfl

theorem Secured.stepOk_sync (hst : s.step syncOf (.sync host) = some t) :
    StepOk syncOf owed s (.sync host) t := by
  obtain ⟨p, hp, hst⟩ := bind_eq_some_iff.mp hst
  obtain ⟨hready, rfl⟩ := ite_some_none_eq_some.mp hst
  have hsame : p.handleSync.1.cache = p.cache ∧ p.handleSync.1.ready = p.ready ∧
      p.handleSync.1.publishes = p.publishes ∧ p.handleSync.1.proposes = p.proposes := by
    unfold ProtectedVolume.handleSync
    split <;> exact ⟨rfl, rfl, rfl, rfl⟩
  have hsec := h.update hp (h.volumes host p hp).handleSync (by rw [hsame.1]; exact id) hsame.2.2.1
    hsame.2.2.2
  refine ⟨⟨f, { hsec with }⟩, _, rfl, fun hans b hb => ?_⟩
  obtain ⟨p', hp', hv⟩ := hans host rfl
  obtain rfl : p = p' := Option.some.inj (hp.symm.trans hp')
  refine ⟨host, _, s.volumes_setVolume host _, ?_, .inr ⟨.inl (hsame.2.1.trans hready),
    ProtectedVolume.mem_handleSync hb⟩⟩
  exact ⟨hsame.1 ▸ hv.1, (congrArg HeadCache.fence hsame.1).trans hv.2⟩

theorem Secured.stepOk_capture {seq : JournalSeq} {captureSeq covered : UInt64}
    (hst : s.step syncOf (.capture host seq captureSeq covered) = some t) :
    StepOk syncOf owed s a t := by
  obtain ⟨p, hp, hst⟩ := bind_eq_some_iff.mp hst
  obtain ⟨⟨hsome, hseq, hsync, -, -⟩, rfl⟩ := ite_some_none_eq_some.mp hst
  refine Secured.quiet (h.capture hp hsome ⟨⟨p.cache.fence, seq, covered⟩, captureSeq⟩ rfl
    hseq hsync) ?_
  exact (congrArg (s.acked ++ ·) ((h.volumes host p hp).finishCapture_answers _)).trans
    (List.append_nil _)

theorem Secured.stepOk_protect (hst : s.step syncOf (.protect host) = some t) :
    StepOk syncOf owed s a t := by
  obtain ⟨p, hp, hst⟩ := bind_eq_some_iff.mp hst
  obtain ⟨⟨-, -, hany⟩, rfl⟩ := ite_some_none_eq_some.mp hst
  obtain ⟨c, hc, -⟩ := (Option.any_eq_true ..).mp hany
  have hvol := h.volumes host p hp
  -- the passive has the commit already, so nothing more has to be covered
  have hneeds : ∀ b, ({ p with ready := true } : ProtectedVolume).Needs owed b → p.Needs owed b :=
    fun b hb => hb.mono rfl fun _ => .inr (.inr (hc ▸ rfl))
  refine Secured.quiet (h.update hp { hvol with current := fun hv => ?_ } id rfl rfl) rfl
  have hcur := hvol.current hv
  exact { hcur with
    covers := fun b hb => hcur.covers b (hneeds b hb)
    change := fun x task hx => (hcur.change x task hx).mono fun _ b hb => ⟨hneeds b hb, id⟩ }

theorem Secured.stepOk_replicate (hst : s.step syncOf (.replicate host) = some t) :
    StepOk syncOf owed s a t := by
  obtain ⟨p, hp, hst⟩ := bind_eq_some_iff.mp hst
  obtain ⟨r, hr, rfl⟩ := map_eq_some_iff.mp hst
  obtain ⟨hidle, hnone, hvol⟩ := (h.volumes host p hp).replicate h.lineage h.steady hr
  refine Secured.quiet (h.update hp hvol id rfl ?_) rfl
  simp [ProtectedVolume.proposes, hidle, hnone]

theorem Secured.stepOk_abandon (hst : s.step syncOf (.abandon host) = some t) :
    StepOk syncOf owed s a t := by
  obtain ⟨p, hp, hst⟩ := bind_eq_some_iff.mp hst
  obtain ⟨r, hr, hst⟩ := bind_eq_some_iff.mp hst
  obtain ⟨hnone, rfl⟩ := ite_some_none_eq_some.mp hst
  have hvol := h.volumes host p hp
  have hidle := ProtectedVolume.proposes_of_change hr hnone
  exact Secured.quiet (h.update hp (hvol.endRun fun hv => (hvol.current hv).stash hidle) id rfl
    hidle.symm) rfl

theorem Secured.stepOk_snapshot (hst : s.step syncOf (.snapshot host) = some t) :
    StepOk syncOf owed s a t := by
  obtain ⟨p, hp, hst⟩ := bind_eq_some_iff.mp hst
  obtain ⟨hidle, hst⟩ := ite_none_right_eq_some.mp hst
  obtain ⟨commit, hcommit, rfl⟩ := map_eq_some_iff.mp hst
  refine Secured.quiet (h.update hp ((h.volumes host p hp).snapshot hcommit p.cache.backed) id ?_
    rfl) rfl
  cases hq : p.publication with
  | none => simp [ProtectedVolume.publishes, hq]
  | some q =>
    have hnone : q.task = none := by simpa [hq] using hidle
    simp [ProtectedVolume.publishes, hq, hnone]

theorem Secured.stepOk_migrate (hst : s.step syncOf (.migrate host) = some t) :
    StepOk syncOf owed s a t := by
  obtain ⟨p, hp, hst⟩ := bind_eq_some_iff.mp hst
  obtain ⟨-, rfl⟩ := ite_some_none_eq_some.mp hst
  have hvol := h.volumes host p hp
  exact Secured.quiet (h.update hp { hvol with current := fun hv => { hvol.current hv with } } id rfl
    rfl) rfl

theorem Secured.stepOk_handoff {destination : HostId}
    (hst : s.step syncOf (.handoff host destination) = some t) : StepOk syncOf owed s a t := by
  obtain ⟨p, hp, hst⟩ := bind_eq_some_iff.mp hst
  obtain ⟨cut, -, hst⟩ := bind_eq_some_iff.mp hst
  obtain ⟨-, rfl⟩ := ite_some_none_eq_some.mp hst
  have hvol := h.volumes host p hp
  have hneeds : ∀ b, ({ p with migrating := none, outbound := some destination, ready := false } :
      ProtectedVolume).Needs owed b → p.Needs owed b :=
    fun b hb => hb.mono rfl fun hs => .inr (hs.resolve_left Bool.false_ne_true)
  have hsec := h.update (q := { p with
    migrating := none, outbound := some destination, ready := false }) hp { hvol with
      current := fun hv => { hvol.current hv with
        covers := fun b hb => (hvol.current hv).covers b (hneeds b hb)
        change := fun x task hx => ((hvol.current hv).change x task hx).mono fun _ b hb =>
          ⟨hneeds b hb, id⟩ } } id rfl rfl
  refine Secured.quiet (f := f) { hsec with
    saved := fun x d hd => ?_
    saved_newest := fun x d hd hf => ?_ } rfl
  · obtain ⟨d', hd', hbest⟩ := Protection.saved_mark hd
    exact hbest ▸ h.saved x d' hd'
  · obtain ⟨d', hd', hbest⟩ := Protection.saved_mark hd
    rw [← hbest] at hf ⊢
    exact h.saved_newest x d' hd' hf

/-! ### Messages -/

theorem Secured.stepOk_sendCommit (hst : s.step syncOf (.sendCommit host) = some t) :
    StepOk syncOf owed s a t := by
  obtain ⟨p, hp, hst⟩ := bind_eq_some_iff.mp hst
  obtain ⟨r, hr, hst⟩ := bind_eq_some_iff.mp hst
  obtain ⟨-, rfl⟩ := ite_some_none_eq_some.mp hst
  exact (h.sendCommit ((h.volumes host p hp).made_run r hr)).quiet rfl

theorem Secured.stepOk_release {choice : Nat}
    (hst : s.step syncOf (.release host choice) = some t) : StepOk syncOf owed s a t := by
  obtain ⟨p, hp, hst⟩ := bind_eq_some_iff.mp hst
  obtain ⟨⟨peer, epoch, through⟩, hmem, rfl⟩ := map_eq_some_iff.mp hst
  exact (h.release hp (List.mem_of_getElem? hmem)).quiet rfl

theorem Secured.stepOk_finish {i : Nat} {serving : Bool}
    (hst : s.step syncOf (.finish host i serving) = some t) :
    StepOk syncOf owed s (.finish host i serving) t := by
  obtain ⟨p, hp, hst⟩ := bind_eq_some_iff.mp hst
  obtain ⟨r, hr, hst⟩ := bind_eq_some_iff.mp hst
  obtain ⟨m, hm, hst⟩ := bind_eq_some_iff.mp hst
  obtain ⟨⟨hnone, hans⟩, rfl⟩ := ite_some_none_eq_some.mp hst
  have hsec := h.finish hp hr hnone (List.mem_of_getElem? hm) hans serving
  refine ⟨⟨f, { hsec with }⟩, _, rfl, fun hholds b hb => ?_⟩
  obtain ⟨p', hp', hv⟩ := hholds host rfl
  obtain rfl : p = p' := Option.some.inj (hp.symm.trans hp')
  refine ⟨host, _, s.volumes_setVolume host _, ?_, ProtectedVolume.needs_finish hb⟩
  rw [ProtectedVolume.OfTenure, p.cache_finish]
  exact hv

/-! ### Head tasks -/

theorem Secured.stepOk_transition {candidates : List HostId}
    (hst : s.step syncOf (.transition host candidates) = some t) : StepOk syncOf owed s a t := by
  obtain ⟨p, hp, hst⟩ := bind_eq_some_iff.mp hst
  obtain ⟨r, hr, hst⟩ := bind_eq_some_iff.mp hst
  obtain ⟨hnone, hst⟩ := ite_none_right_eq_some.mp hst
  obtain ⟨assignment, hassign, hst⟩ := bind_eq_some_iff.mp hst
  exact (h.transition hp hr hnone hassign hst).quiet (Protection.acked_call hst)

theorem Secured.stepOk_activate {i : Nat} (hst : s.step syncOf (.activate host i) = some t) :
    StepOk syncOf owed s a t := by
  obtain ⟨p, hp, hst⟩ := bind_eq_some_iff.mp hst
  obtain ⟨r, hr, hst⟩ := bind_eq_some_iff.mp hst
  obtain ⟨m, hm, hst⟩ := bind_eq_some_iff.mp hst
  obtain ⟨⟨hnone, hans⟩, hst⟩ := ite_none_right_eq_some.mp hst
  obtain ⟨proposal, hprop, hst⟩ := bind_eq_some_iff.mp hst
  exact (h.activate hp hr hnone (List.mem_of_getElem? hm) hans hprop hst).quiet
    (Protection.acked_call hst)

theorem Secured.stepOk_publish {pointer : ManifestPtr}
    (hst : s.step syncOf (.publish host pointer) = some t) : StepOk syncOf owed s a t := by
  obtain ⟨p, hp, hst⟩ := bind_eq_some_iff.mp hst
  obtain ⟨q, hq, hst⟩ := bind_eq_some_iff.mp hst
  obtain ⟨⟨hnone, -, hsync, -⟩, hst⟩ := ite_none_right_eq_some.mp hst
  exact (h.publish hp hq hnone hsync hst).quiet (Protection.acked_call hst)

theorem Secured.stepOk_removeRetired {retired : RetiredStash}
    (hst : s.step syncOf (.removeRetired host retired) = some t) : StepOk syncOf owed s a t := by
  obtain ⟨p, hp, hst⟩ := bind_eq_some_iff.mp hst
  obtain ⟨-, hst⟩ := ite_none_right_eq_some.mp hst
  exact (h.removeRetired hp hst).quiet (Protection.acked_call hst)

theorem Secured.stepOk_head {slot : HeadSlot} {event : HeadEvent} {serving : Bool}
    (hok : s.HearsHead host slot event)
    (hst : s.step syncOf (.head host slot event serving) = some t) :
    StepOk syncOf owed s (.head host slot event serving) t := by
  obtain ⟨f', hsec, hsame | ⟨p, q, info, hp, hfence, hsome, hground, ht, hacked⟩⟩ :=
    h.headEvent hok hst
  · exact hsec.quiet hsame
  · refine ⟨⟨f', hsec⟩, _, hacked, fun hholds b hb => ?_⟩
    obtain ⟨p', hp', hv⟩ := hholds host rfl
    obtain rfl : p = p' := Option.some.inj (hp.symm.trans hp')
    refine ⟨host, _, ht, ?_, ProtectedVolume.needs_finish hb⟩
    rw [ProtectedVolume.OfTenure, q.cache_finish]
    exact ⟨hsome, (hfence.trans hv.2).trans (congrArg Ground.tenure hground).symm⟩

/-! ### Claims and starts -/

theorem Secured.stepOk_claim {i : Nat} {membershipEpoch : UInt64}
    (hok : s.FoundProtected syncOf (.claim i peer membershipEpoch version))
    (howed : ∀ offer ∈ s.offers[i]?, ∀ b ∈ owed, b ≤ offer.cut.info.syncCoveredThrough)
    (hst : s.step syncOf (.claim i peer membershipEpoch version) = some t) :
    StepOk syncOf owed s a t := by
  obtain ⟨offer, hoffer, hst⟩ := bind_eq_some_iff.mp hst
  obtain ⟨head, hclaim, hst⟩ := bind_eq_some_iff.mp hst
  obtain ⟨-, hst⟩ := ite_none_right_eq_some.mp hst
  obtain ⟨object, ho, rfl⟩ := map_eq_some_iff.mp hst
  exact (h.claim hclaim ho (hok offer hoffer) (howed offer hoffer)).quiet rfl

theorem Secured.stepOk_finalize (hst : s.step syncOf (.finalize host) = some t) :
    StepOk syncOf owed s a t := by
  obtain ⟨p, hp, hst⟩ := bind_eq_some_iff.mp hst
  obtain ⟨claim, hin, hst⟩ := bind_eq_some_iff.mp hst
  obtain ⟨⟨hholder, -, hmanifest, hstash⟩, rfl⟩ := ite_some_none_eq_some.mp hst
  have hvol := h.volumes host p hp
  have hsome := hvol.incoming (hin ▸ rfl)
  have hfence : p.cache.fence = s.tenure := hvol.holds hsome hholder
  have hc := hvol.current ⟨hsome, hfence⟩
  obtain ⟨hclaim, hretired⟩ := hc.incoming claim hin
  have hsec := h.sendFinal (hvol.exists_record hc) (hclaim.trans hholder.symm) hmanifest.symm
    hstash.symm (hholder.symm ▸ hretired)
  rw [← hfence] at hsec
  exact hsec.quiet rfl

theorem Secured.stepOk_finalized (hok : s.HearsHeads (.finalized host version))
    (hst : s.step syncOf (.finalized host version) = some t) : StepOk syncOf owed s a t := by
  obtain ⟨p, hp, hst⟩ := bind_eq_some_iff.mp hst
  obtain ⟨claim, hin, hst⟩ := bind_eq_some_iff.mp hst
  obtain ⟨⟨e, he, rfl, -⟩, rfl⟩ := ite_some_none_eq_some.mp hst
  exact (h.finalized hp hin (s.object.le_version he) (hok p hp)).quiet rfl

/-- A head that is not final is made so by a host that has a record under its version. -/
theorem Secured.finalHead {x : HostId × ReplicaCommitInfo} (hx : x ∈ s.records)
    (hzero : s.head.fence = 0) (hfence : x.2.writerFence = s.version) : Secured syncOf owed
      { s with object := s.object.send s.version (s.head.final s.version) } f := by
  have ht : s.tenure = s.version := if_pos hzero
  have hsec := h.sendFinal ⟨x, hx, hfence.trans ht.symm⟩ rfl rfl rfl h.retired
  rw [ht] at hsec
  exact hsec

theorem Secured.stepOk_ensureOutbound {record : ReplicaCommitInfo}
    (hok : s.HearsHeads (.ensureOutbound host record))
    (hst : s.step syncOf (.ensureOutbound host record) = some t) : StepOk syncOf owed s a t := by
  obtain ⟨⟨hrecord, -, hzero⟩, rfl⟩ := ite_some_none_eq_some.mp hst
  rw [show record.writerFence = s.version from hok]
  exact (h.finalHead hrecord hzero hok).quiet rfl

theorem Secured.stepOk_reconcile (hst : s.step syncOf (.reconcile host) = some t) :
    StepOk syncOf owed s a t := by
  obtain ⟨d, hd, hst⟩ := bind_eq_some_iff.mp hst
  obtain ⟨⟨-, -, -, hholder, hzero, hfence⟩, rfl⟩ := ite_some_none_eq_some.mp hst
  exact (h.finalHead (h.saved host d hd) hzero hfence.symm).quiet rfl

theorem Secured.stepOk_recover {published : Bool}
    (hok : s.Sound syncOf (.recover host published))
    (hst : s.step syncOf (.recover host published) = some t) : StepOk syncOf owed s a t := by
  obtain ⟨⟨hvolume, -⟩, hst⟩ := ite_none_right_eq_some.mp hst
  obtain ⟨d, hd, hst⟩ := bind_eq_some_iff.mp hst
  unfold Protection.recover at hst
  split at hst
  case h_1 destination hmark =>
    obtain rfl := Option.some.inj hst
    exact (h.detached hd destination).quiet rfl
  case h_2 hmark =>
    obtain ⟨⟨hholder, hne, hfence, hpub⟩, rfl⟩ := ite_some_none_eq_some.mp hst
    have ht : s.tenure = s.head.fence := if_neg hne
    obtain ⟨f', hsec⟩ := h.attach hvolume hd hholder (hfence.symm.trans ht.symm) (hok.1 d hd hmark)
      (hok.2 d hd hmark) fun (hp : published = true) => by
        obtain ⟨pointer, hptr, hfound⟩ := (Option.any_eq_true ..).mp (hpub hp)
        exact ⟨pointer, hptr, (of_decide_eq_true hfound).2.2.ge⟩
    exact hsec.quiet rfl

/-- **One step.**  If it is sound, and an offer that it claims covers what is owed, the invariant
goes on; what it answers as the holder is below the watermark. -/
theorem Secured.step (hok : s.Sound syncOf a)
    (howed : ∀ i peer membershipEpoch version, a = .claim i peer membershipEpoch version →
      ∀ offer ∈ s.offers[i]?, ∀ b ∈ owed, b ≤ offer.cut.info.syncCoveredThrough)
    (hst : s.step syncOf a = some t) : StepOk syncOf owed s a t := by
  cases a with
  | write host => exact h.stepOk_write hst
  | sync host => exact h.stepOk_sync hst
  | capture host seq captureSeq covered => exact h.stepOk_capture hst
  | protect host => exact h.stepOk_protect hst
  | replicate host => exact h.stepOk_replicate hst
  | sendCommit host => exact h.stepOk_sendCommit hst
  | deliverCommit i =>
    obtain ⟨m, hm, rfl⟩ := map_eq_some_iff.mp hst
    exact (h.deliverCommit (List.mem_of_getElem? hm)).quiet rfl
  | reply peer key =>
    obtain ⟨info, hcut, rfl⟩ := map_eq_some_iff.mp hst
    exact (h.reply hcut).quiet rfl
  | finish host i serving => exact h.stepOk_finish hst
  | transition host candidates => exact h.stepOk_transition hst
  | activate host i => exact h.stepOk_activate hst
  | abandon host => exact h.stepOk_abandon hst
  | snapshot host => exact h.stepOk_snapshot hst
  | publish host pointer => exact h.stepOk_publish hst
  | release host choice => exact h.stepOk_release hst
  | deliverRelease i =>
    obtain ⟨m, hm, rfl⟩ := map_eq_some_iff.mp hst
    have hsec := h.deliverRelease (List.mem_of_getElem? hm)
    exact Secured.quiet (f := f) { hsec with } rfl
  | removeRetired host retired => exact h.stepOk_removeRetired hst
  | land request version =>
    obtain ⟨object, ho, rfl⟩ := map_eq_some_iff.mp hst
    exact (h.land ho).quiet rfl
  | head host slot event serving => exact h.stepOk_head hok.2 hst
  | migrate host => exact h.stepOk_migrate hst
  | handoff host destination => exact h.stepOk_handoff hst
  | reoffer host =>
    obtain ⟨p, -, hst⟩ := bind_eq_some_iff.mp hst
    obtain ⟨destination, -, rfl⟩ := map_eq_some_iff.mp hst
    exact Secured.quiet (f := f) { h with } rfl
  | ensureOutbound host record => exact h.stepOk_ensureOutbound hok.2 hst
  | claim i peer membershipEpoch version => exact h.stepOk_claim hok.1 (howed _ _ _ _ rfl) hst
  | install host =>
    obtain ⟨c, hc, hst⟩ := bind_eq_some_iff.mp hst
    obtain ⟨-, hst⟩ := Option.ite_none_left_eq_some.mp hst
    obtain rfl := Option.some.inj hst
    exact (h.install hc).quiet rfl
  | finalize host => exact h.stepOk_finalize hst
  | finalized host version => exact h.stepOk_finalized hok.2 hst
  | crash host =>
    obtain rfl := Option.some.inj hst
    exact (h.crash host).quiet rfl
  | reconcile host => exact h.stepOk_reconcile hst
  | recover host published => exact h.stepOk_recover hok hst

end Steps

/-! ## Answers -/

theorem Secured.covers_reached (h : Secured syncOf owed s f) {b : UInt64} (hb : s.Reached b) :
    s.toGround.Covers f b := by
  obtain ⟨host, p, hp, hv, hneeds⟩ := hb
  exact ((h.volumes host p hp).current hv).covers b (hneeds.imp_left fun hb => by cases hb)

/-- What holds in the state that a sound run from the creation of a volume has reached. -/
theorem Secured.run {volume : VolumeId} {membershipEpoch : UInt64} (hversion : version ≠ 0)
    {steps : List ProtectionStep}
    (hrun : Run.run (Protection.step syncOf) (.created volume host peer membershipEpoch version)
      steps = some s)
    (hok : Run.Along (Protection.step syncOf) (Protection.Sound syncOf)
      (.created volume host peer membershipEpoch version) steps) : ∃ f, Secured syncOf [] s f := by
  have hstep : ∀ s a t, (∃ f, Secured syncOf [] s f) → s.Sound syncOf a →
      s.step syncOf a = some t → ∃ f, Secured syncOf [] t f := by
    rintro s a t ⟨f, h⟩ hok hst
    exact (h.step hok (fun _ _ _ _ _ _ _ _ hb => by cases hb) hst).secured
  exact Run.run_invariant hstep
    ⟨0, Secured.created syncOf volume host peer membershipEpoch hversion⟩ hok hrun

/-- The first record of a new volume reaches its passive, and the guest is let in. -/
def protectedStart (host peer : HostId) (volume : VolumeId) : List ProtectionStep :=
  [.replicate host, .sendCommit host, .deliverCommit 0, .reply peer ⟨host, volume, 1⟩,
    .finish host 0 true, .protect host]

/-- While syncs wait, the passive is replaced: the answer to the transition is lost and the head is
read again.  The activation answers the syncs, and then the host restarts. -/
def restartedRun : List ProtectionStep :=
  protectedStart 1 3 7 ++
    [.write 1, .sync 1, .write 1, .sync 1, .capture 1 1 2 2, .replicate 1, .transition 1 [4],
      .land 0 2, .head 1 .assignment .unknown false, .head 1 .assignment .serve false,
      .head 1 .assignment .found false, .replicate 1, .sendCommit 1, .deliverCommit 1,
      .reply 4 ⟨1, 7, 2⟩, .activate 1 1, .land 1 3, .head 1 .assignment .ok true, .crash 1,
      .recover 1 false]

section Track

variable {answered : List UInt64}

theorem CurrentOk.track (hc : CurrentOk syncOf owed g f host p)
    (ha : ∀ b ∈ answered, p.Needs [] b) : CurrentOk syncOf (owed ++ answered) g f host p := by
  have hneeds : ∀ b, p.Needs (owed ++ answered) b → p.Needs owed b := by
    rintro b (hb | hb)
    · rcases List.mem_append.mp hb with hb | hb
      · exact .inl hb
      · exact .inr ((ha b hb).resolve_left fun hb => by cases hb)
    · exact .inr hb
  refine { hc with
    acked := List.forall_mem_append.mpr ⟨hc.acked, fun b hb => ?_⟩
    covers := fun b hb => hc.covers b (hneeds b hb)
    change := fun x task hx => (hc.change x task hx).mono fun _ b hb => ⟨hneeds b hb, id⟩ }
  exact ((ha b hb).resolve_left fun hb => by cases hb).2

/-- A write that can still take effect covers what the holder has answered, because the change of the
assignment that it comes from does. -/
theorem WriteOk.track (h : WriteOk syncOf owed g volumes f head)
    (ha : ∀ b ∈ answered, ∃ p, volumes g.head.holder = some p ∧ p.cache.headVersion.isSome ∧
      CurrentOk syncOf owed g f g.head.holder p ∧ p.Needs owed b) :
    WriteOk syncOf (owed ++ answered) g volumes f head := by
  refine { h with stash := ?_ }
  by_cases hsame : head.stash = g.head.stash
  · exact .inl hsame
  · obtain ⟨a, hstash, hsteady, hcov, hlink⟩ := h.stash.resolve_left hsame
    refine .inr ⟨a, hstash, hsteady, List.forall_mem_append.mpr ⟨hcov, fun b hb => ?_⟩, hlink⟩
    obtain ⟨p, hp, hsome, hc, hneeds⟩ := ha b hb
    obtain ⟨x, retired, hprop⟩ := hlink p hp hsome
    obtain ⟨a', retired', htask, -, -, -, hor⟩ := hc.change x _ hprop
    cases htask
    exact (hor.resolve_left fun heq => hsame (hstash.trans heq.symm)) b hneeds

/-- **What the holder has answered is owed from now on.** -/
theorem Secured.track (h : Secured syncOf owed s f) (ha : ∀ b ∈ answered, s.Reached b) :
    Secured syncOf (owed ++ answered) s f := by
  -- whoever has reached the barrier is the holder
  have hcur : ∀ b ∈ answered, ∃ p, s.volumes s.head.holder = some p ∧ p.OfTenure s.tenure ∧
      CurrentOk syncOf owed s.toGround f s.head.holder p ∧ p.Needs [] b := by
    intro b hb
    obtain ⟨host, p, hp, hv, hneeds⟩ := ha b hb
    have hc := (h.volumes host p hp).current hv
    obtain rfl : s.head.holder = host := hc.holder
    exact ⟨p, hp, hv, hc, hneeds⟩
  have hack : ∀ {b : UInt64} {p : ProtectedVolume}, p.Needs [] b → b ≤ p.syncAckThrough :=
    fun hb => (hb.resolve_left fun hb => by cases hb).2
  refine { h with
    volumes := fun x p hp => { h.volumes x p hp with
      current := fun hv => ((h.volumes x p hp).current hv).track fun b hb => ?_ }
    saved_newest := fun x d hd hf => ?_
    claims := fun x c hc => { h.claims x c hc with
      fresh := fun hv => { (h.claims x c hc).fresh hv with
        acked := List.forall_mem_append.mpr ⟨((h.claims x c hc).fresh hv).acked, fun b hb => ?_⟩ } }
    acked := List.forall_mem_append.mpr ⟨h.acked, fun b hb => h.covers_reached (ha b hb)⟩
    writes := fun r hr hl => (h.writes r hr hl).track fun b hb => ?_ }
  · obtain ⟨p', hp', -, -, hneeds⟩ := hcur b hb
    have hholder : s.head.holder = x := ((h.volumes x p hp).current hv).holder
    rw [hholder] at hp'
    obtain rfl : p = p' := Option.some.inj (hp.symm.trans hp')
    exact hneeds
  · obtain ⟨hnewest, hfloor, hacked⟩ := h.saved_newest x d hd hf
    refine ⟨hnewest, hfloor, List.forall_mem_append.mpr ⟨hacked, fun b hb => ?_⟩⟩
    obtain ⟨p, hp, -, hc, hneeds⟩ := hcur b hb
    have hbest := (h.volumes _ p hp).best
    exact ((hack hneeds).trans hc.acks).trans
      (h.lineage.sync_le hbest (h.saved x d hd) (hnewest _ hbest hc.best_fence) hc.best_fence).2
  · -- the holder has a record of the tenure, so its claim is in the journal
    obtain ⟨p, hp, -, hcp, -⟩ := hcur b hb
    exact absurd hcp.best_fence (((h.claims x c hc).fresh hv).none _ (h.volumes _ p hp).best)
  · obtain ⟨p, hp, hv, hcp, hneeds⟩ := hcur b hb
    exact ⟨p, hp, hv.1, hcp, hneeds.imp_left fun hb => by cases hb⟩

end Track

theorem Secured.stepAcked (h : Secured syncOf s.acked s f) (hok : s.CarriesAcked syncOf a)
    (hst : s.step syncOf a = some t) : ∃ f', Secured syncOf t.acked t f' := by
  obtain ⟨hsound, hans, hoffers⟩ := hok
  obtain ⟨⟨f', hsec⟩, answered, hacked, hreached⟩ := h.step hsound
    (fun _ _ _ _ ha offer hoffer => by subst ha; exact hoffers offer hoffer) hst
  rw [hacked]
  refine ⟨f', hsec.track fun b hb => ?_⟩
  have hne : t.acked ≠ s.acked := fun heq =>
    List.ne_nil_of_mem hb (List.append_right_eq_self.mp (hacked.symm.trans heq))
  exact hreached (hans t hst hne) b hb

/-- Syncs are answered and their record archived, by a publication that has to read the head again;
then the volume moves, and both the old host and the new one stop. -/
def archivedRun : List ProtectionStep :=
  protectedStart 1 3 7 ++
    [.write 1, .sync 1, .write 1, .sync 1, .capture 1 1 2 2, .replicate 1, .sendCommit 1,
      .deliverCommit 1, .reply 3 ⟨1, 7, 1⟩, .finish 1 1 true, .snapshot 1,
      .publish 1 ⟨1, 1, 1, 2, 0⟩, .land 0 2, .head 1 .publication .unknown false,
      .head 1 .publication .serve false, .head 1 .publication .found false, .release 1 0,
      .deliverRelease 0, .migrate 1, .handoff 1 2, .claim 0 4 1 3, .crash 1, .install 2, .finalize 2,
      .land 1 4, .finalized 2 4, .sync 2, .crash 2, .recover 2 false]

/-- A spool has only what was sent to it. -/
def SpoolsSent (s : Protection) : Prop :=
  ∀ peer key c, s.spools peer key = some c → ⟨peer, key, c⟩ ∈ s.commits

theorem SpoolsSent.setSpool (h : SpoolsSent s) {key : ReplicaKey} {cut : SpoolCut}
    (hcut : ∀ c, cut = some c → ⟨peer, key, c⟩ ∈ s.commits) :
    SpoolsSent (s.setSpool peer key cut) := by
  intro x k c hc
  rw [Protection.spools_setSpool] at hc
  split at hc
  case isTrue hxk =>
    obtain ⟨rfl, rfl⟩ := hxk
    exact hcut c hc
  case isFalse => exact h x k c hc

theorem SpoolsSent.call (h : SpoolsSent s) {task : HeadTask} {base : HeadCache}
    {put : TaskState → ProtectedVolume} (hst : s.call host p task base put = some t) :
    SpoolsSent t := by
  obtain ⟨v, round, request, -, rfl⟩ := Protection.call_eq_some hst
  exact h

theorem SpoolsSent.step (h : SpoolsSent s) (hst : s.step syncOf a = some t) : SpoolsSent t := by
  cases a
  case sendCommit host =>
    obtain ⟨p, -, hst⟩ := Option.bind_eq_some_iff.mp hst
    obtain ⟨r, -, hst⟩ := Option.bind_eq_some_iff.mp hst
    obtain ⟨-, rfl⟩ := Option.ite_some_none_eq_some.mp hst
    exact fun peer key c hc => List.mem_append_left _ (h peer key c hc)
  case deliverCommit i =>
    obtain ⟨m, hm, rfl⟩ := Option.map_eq_some_iff.mp hst
    refine h.setSpool fun c hc => ?_
    rcases SpoolCut.commit_eq_some hc with hold | ⟨rfl, -⟩
    · exact h _ _ c hold
    · exact List.mem_of_getElem? hm
  case deliverRelease i =>
    obtain ⟨m, hm, rfl⟩ := Option.map_eq_some_iff.mp hst
    exact h.setSpool fun c hc => h _ _ c (SpoolCut.release_eq_some.mp hc).1
  case head host slot event serving =>
    obtain ⟨p, -, hst⟩ := Option.bind_eq_some_iff.mp hst
    obtain ⟨x, -, hst⟩ := Option.bind_eq_some_iff.mp hst
    obtain ⟨system, -, hst⟩ := Option.bind_eq_some_iff.mp hst
    unfold Protection.absorb at hst
    split at hst
    · obtain rfl := Option.some.inj hst
      exact h
    · obtain ⟨x', -, rfl⟩ := Option.map_eq_some_iff.mp hst
      exact h
  case recover host published =>
    obtain ⟨-, hst⟩ := Option.ite_none_right_eq_some.mp hst
    obtain ⟨d, -, hst⟩ := Option.bind_eq_some_iff.mp hst
    unfold Protection.recover at hst
    split at hst
    · obtain rfl := Option.some.inj hst
      exact h
    · obtain ⟨-, rfl⟩ := Option.ite_some_none_eq_some.mp hst
      exact h
  -- no other step touches the spools, or takes a commit back
  all_goals
    simp only [Protection.step, Option.bind_eq_some_iff, Option.map_eq_some_iff,
      Option.ite_none_right_eq_some, Option.ite_none_left_eq_some, Option.some.injEq] at hst
    repeat obtain ⟨_, hst⟩ := hst
    first | exact h | exact h.call hst

/-- So a barrier is not covered if nothing that was sent to the peers of the head reaches it. -/
theorem not_covered_of_sent {volume : VolumeId} {membershipEpoch : UInt64}
    {steps : List ProtectionStep}
    (hrun : Run.run (Protection.step syncOf) (.created volume host peer membershipEpoch version)
      steps = some s) {b : UInt64} (hman : s.head.manifest = none)
    (hsent : ∀ m ∈ s.commits, m.peer ∈ s.head.peers → m.info.syncCoveredThrough < b) :
    ¬ s.toGround.Covered syncOf b := by
  have hstart : SpoolsSent (.created volume host peer membershipEpoch version) :=
    fun _ _ _ hc => by cases hc
  have h : SpoolsSent s := Run.run_invariant_of_step (fun _ _ _ h hst => h.step hst) hstart hrun
  rintro (⟨pointer, hp, -⟩ | ⟨x, hx, key, -, cut, hcut, hle⟩)
  · cases hman.symm.trans hp
  · exact absurd hle (not_le_of_gt (hsent _ (h x key cut hcut) hx))

/-- A sync waits, its record is captured, and the host stops before the record reaches the passive. -/
def unsentRun : List ProtectionStep :=
  protectedStart 1 3 7 ++
    [.write 1, .sync 1, .capture 1 1 1 1, .crash 1, .reconcile 1, .land 0 2, .recover 1 false]

theorem exists_unsentRun :
    ∃ s ∈ Run.run (Protection.step fun _ => 0) (.created 7 1 3 1 1) unsentRun, s.acked = [] ∧
      ∃ t ∈ s.step (fun _ => 0) (.sync 1), t.acked = [1] ∧ t.head.manifest = none ∧
        ∀ m ∈ t.commits, m.peer ∈ t.head.peers → m.info.syncCoveredThrough < 1 := by
  decide +kernel

/-- A sync is answered, the volume moves to another host, and the head names the passive of that
host, which has nothing yet. -/
def migratedRun : List ProtectionStep :=
  protectedStart 1 3 7 ++
    [.write 1, .sync 1, .capture 1 1 1 1, .replicate 1, .sendCommit 1, .deliverCommit 1,
      .reply 3 ⟨1, 7, 1⟩, .finish 1 1 true, .migrate 1, .handoff 1 2, .ensureOutbound 1 ⟨1, 1, 1⟩,
      .land 0 2, .claim 0 4 1 3]

theorem exists_migratedRun :
    ∃ s ∈ Run.run (Protection.step fun _ => 0) (.created 7 1 3 1 1) migratedRun,
      s.head.manifest = none ∧
      (∀ m ∈ s.commits, m.peer ∈ s.head.peers → m.info.syncCoveredThrough < 1) ∧
      s.acked = [1] := by
  decide +kernel

end Blockd
