import Blockd.Engine.SyncHeads

/-!
# Records, claims and starts

The steps that begin or continue a tenure: a capture and an installed claim add a record to the
journal, a claim takes the head, and a host that stops comes back with what its journal has.

Nothing of the old tenure survives a claim but the manifest, so that `Secured.claim` asks it to cover
the offered record.  Nothing of the old volume state survives a stop but the journal, so that
`Secured.attach` asks for a record that is protected already.
-/

set_option autoImplicit false

namespace Blockd

variable {host peer : HostId} {p q : ProtectedVolume} {version f f' : UInt64}
  {d : SavedVolume} {syncOf : ManifestPtr → UInt64} {owed : List UInt64} {s : Protection}
  {g : Ground} {volumes : HostId → Option ProtectedVolume} {head : HeadRecord}

/-! ## New records -/

def Ground.addRecord (g : Ground) (host : HostId) (i : ReplicaCommitInfo) : Ground :=
  { g with records := g.records ++ [(host, i)] }

section Records

variable {i : ReplicaCommitInfo}

/-- A new record of the present tenure is its holder's, and comes after all the others. -/
def Ground.Extends (g : Ground) (host : HostId) (i : ReplicaCommitInfo) : Prop :=
  i.writerFence = g.tenure → host = g.head.holder ∧
    ∀ x ∈ g.records, x.2.writerFence = g.tenure →
      x.2 < i ∧ x.2.syncCoveredThrough ≤ i.syncCoveredThrough

theorem Ground.Lineage.addRecord (hl : g.Lineage) (hle : i.writerFence ≤ g.tenure)
    (hnew : g.Extends host i) : (g.addRecord host i).Lineage := by
  refine { hl with
    le := List.forall_mem_append.mpr ⟨hl.le, List.forall_mem_singleton.mpr hle⟩
    holder := List.forall_mem_append.mpr
      ⟨hl.holder, List.forall_mem_singleton.mpr fun hf => (hnew hf).1⟩
    mono := ?_ }
  · intro x hx y hy hxf hyf hxy
    rcases List.mem_append.mp hx with hx | hx <;> rcases List.mem_append.mp hy with hy | hy
    · exact hl.mono x hx y hy hxf hyf hxy
    · rw [List.mem_singleton.mp hy] at hyf ⊢
      exact ((hnew hyf).2 x hx hxf).2
    · rw [List.mem_singleton.mp hx] at hxf hxy
      exact absurd hxy (not_le_of_gt ((hnew hxf).2 y hy hyf).1)
    · rw [List.mem_singleton.mp hx, List.mem_singleton.mp hy]

theorem Ground.Newest.addRecord {info : ReplicaCommitInfo} (h : g.Newest info)
    (hi : i.writerFence ≠ g.tenure) : (g.addRecord host i).Newest info :=
  List.forall_mem_append.mpr ⟨h, List.forall_mem_singleton.mpr fun hf => absurd hf hi⟩

/-- A record that comes after all the others is the newest. -/
theorem Ground.newest_addRecord
    (h : ∀ x ∈ g.records, x.2.writerFence = g.tenure → x.2 ≤ i) : (g.addRecord host i).Newest i :=
  List.forall_mem_append.mpr ⟨h, List.forall_mem_singleton.mpr fun _ => le_rfl⟩

/-- The volume state of the holder, when there is another record. -/
theorem CurrentOk.addRecord {x : HostId} (hc : CurrentOk syncOf owed g f x p)
    (hnew : (g.addRecord host i).Newest p.best.info) :
    CurrentOk syncOf owed (g.addRecord host i) f x p := by
  refine { hc with
    retired := fun e he => List.mem_append_left _ (hc.retired e he)
    incoming := fun c hcl =>
      ⟨(hc.incoming c hcl).1, fun e he => List.mem_append_left _ ((hc.incoming c hcl).2 e he)⟩
    newest := hnew
    change := fun y task hy => ?_ }
  obtain ⟨a, retired, htask, hsteady, hmade, hrest⟩ := hc.change y task hy
  exact ⟨a, retired, htask, hsteady, fun e he => List.mem_append_left _ (hmade e he), hrest⟩

theorem VolumeOk.addRecord {x : HostId} (h : VolumeOk syncOf owed g f x p)
    (hi : i.writerFence = g.tenure → g.head.holder ≠ x) :
    VolumeOk syncOf owed (g.addRecord host i) f x p := by
  refine { h with
    made := fun c hc => List.mem_append_left _ (h.made c hc)
    current := fun hv => ?_ }
  have hc := h.current hv
  exact hc.addRecord (hc.newest.addRecord fun hf => hi hf hc.holder)

theorem WriteOk.addRecord (h : WriteOk syncOf owed g volumes f head) (host : HostId)
    (i : ReplicaCommitInfo) : WriteOk syncOf owed (g.addRecord host i) volumes f head :=
  { h with
    made := by
      obtain ⟨x, hx, hf⟩ := h.made
      exact ⟨x, List.mem_append_left _ hx, hf⟩
    retired := fun e he => List.mem_append_left _ (h.retired e he) }

end Records

/-- **A record goes to the journal**, with the volume state that has it. -/
theorem Secured.addRecord (h : Secured syncOf owed s f) {claims : HostId → Option LandedClaim}
    {acked : List UInt64} (hle : d.best.info.writerFence ≤ s.tenure)
    (hnew : s.toGround.Extends host d.best.info)
    (hq : VolumeOk syncOf owed (s.toGround.addRecord host d.best.info) f host q)
    (hfloor : d.best.info.writerFence = s.tenure → f ≤ d.best.info.syncCoveredThrough ∧
      ∀ b ∈ owed, b ≤ d.best.info.syncCoveredThrough)
    (hclaims : ∀ x c, claims x = some c → s.claims x = some c ∧
      (c.version = s.tenure → d.best.info.writerFence ≠ s.tenure))
    (hw : ∀ r ∈ s.object.requests, s.Live r →
      WriteOk syncOf owed s.toGround (Function.update s.volumes host (some q)) f r.value.head) :
    Secured syncOf owed { (s.setVolume host q).save host d with
      records := s.records ++ [(host, d.best.info)], claims, acked } f := by
  have hleft : ∀ {x : HostId × ReplicaCommitInfo}, x ∈ s.records →
      x ∈ s.records ++ [(host, d.best.info)] := fun hx => List.mem_append_left _ hx
  refine { h with
    lineage := h.lineage.addRecord hle hnew
    retired := fun e he => hleft (h.retired e he)
    spools := fun x k c hc => hleft (h.spools x k c hc)
    commits := fun m hm => hleft (h.commits m hm)
    replies := fun m hm => hleft (h.replies m hm)
    releases := fun m hm hf =>
      have hr := h.releases m hm hf
      ⟨hleft hr.1, hr.2⟩
    volumes := fun x r hr => ?_
    saved := forall_update_some (fun x d' hd' => hleft (h.saved x d' hd'))
      (List.mem_append_right _ (List.mem_singleton_self _))
    saved_newest := fun x d' hd' hf => ?_
    claims := fun x c hx => ?_
    writes := fun r hr hl => (hw r hr hl).addRecord host d.best.info }
  · by_cases hx : x = host
    · subst hx
      obtain rfl : q = r := by simpa [Protection.setVolume, Protection.save] using hr
      exact hq
    · have hr' : s.volumes x = some r := by
        simpa [Protection.setVolume, Protection.save, hx] using hr
      exact (h.volumes x r hr').addRecord fun hf hx' => hx (hx'.symm.trans (hnew hf).1.symm)
  · by_cases hx : x = host
    · subst hx
      obtain rfl : d = d' := by simpa [Protection.setVolume, Protection.save] using hd'
      exact ⟨Ground.newest_addRecord fun y hy hyf => ((hnew hf).2 y hy hyf).1.le, hfloor hf⟩
    · have hd'' : s.saved x = some d' := by
        simpa [Protection.setVolume, Protection.save, hx] using hd'
      obtain ⟨hnewest, hrest⟩ := h.saved_newest x d' hd'' hf
      refine ⟨hnewest.addRecord fun hif => hx ?_, hrest⟩
      exact (h.lineage.holder _ (h.saved x d' hd'') hf).trans (hnew hif).1.symm
  · obtain ⟨hc, hne⟩ := hclaims x c hx
    have hcl := h.claims x c hc
    exact { hcl with
      retired := fun e he => hleft (hcl.retired e he)
      fresh := fun hv => { hcl.fresh hv with
        none := List.forall_mem_append.mpr
          ⟨(hcl.fresh hv).none, List.forall_mem_singleton.mpr (hne hv)⟩ } }

/-- A pending sync is ahead of the watermark, so a capture that ends answers none. -/
theorem VolumeOk.finishCapture_answers (h : VolumeOk syncOf owed g f host p) (cut : JournalCut) :
    (p.finishCapture cut).2 = [] :=
  List.filter_eq_nil_iff.mpr fun b hb => by simpa using h.pending b hb

theorem Secured.capture (h : Secured syncOf owed s f) (hp : s.volumes host = some p)
    (hsome : p.cache.headVersion.isSome) (cut : JournalCut)
    (hfence : cut.info.writerFence = p.cache.fence) (hseq : p.best.info.seq < cut.info.seq)
    (hsync : p.best.info.syncCoveredThrough ≤ cut.info.syncCoveredThrough) {handoff : Option HostId}
    {acked : List UInt64} :
    Secured syncOf owed { (s.setVolume host (p.finishCapture cut).1).save host ⟨cut, handoff⟩ with
      records := s.records ++ [(host, cut.info)], acked } f := by
  have hvol := h.volumes host p hp
  have hmade : ∀ c ∈ (p.finishCapture cut).1.infos, (host, c) ∈ s.records ++ [(host, cut.info)] := by
    have hold : ∀ {c}, (host, c) ∈ s.records → (host, c) ∈ s.records ++ [(host, cut.info)] :=
      fun hc => List.mem_append_left _ hc
    exact ProtectedVolume.forall_infos (List.mem_append_right _ (List.mem_singleton_self _))
      (fun r hr => hold (hvol.made_run r hr)) (fun c hc => hold (hvol.made_committed c hc))
      (fun q hq => hold (hvol.made_publication q hq)) fun c hc => hold (hvol.made_published c hc)
  have hpending : ∀ b ∈ (p.finishCapture cut).1.pendingSyncs, p.syncAckThrough < b :=
    fun b hb => hvol.pending b (List.mem_filter.mp hb).1
  have hw : ∀ r ∈ s.object.requests, s.Live r → WriteOk syncOf owed s.toGround
      (Function.update s.volumes host (some (p.finishCapture cut).1)) f r.value.head :=
    fun r hr hl => (h.writes r hr hl).setVolume hp id (fun _ _ _ => .inr rfl)
      fun _ _ _ _ _ => .inr rfl
  by_cases hcur : p.cache.fence = s.tenure
  · have hc := hvol.current ⟨hsome, hcur⟩
    have hif : cut.info.writerFence = s.tenure := hfence.trans hcur
    have hafter : ∀ x ∈ s.records, x.2.writerFence = s.tenure →
        x.2 < cut.info ∧ x.2.syncCoveredThrough ≤ cut.info.syncCoveredThrough := by
      intro x hx hf
      refine ⟨lt_of_le_of_lt (hc.newest x hx hf) ?_, ?_⟩
      · exact ReplicaCommitInfo.lt_of_seq_lt (hc.best_fence.trans hif.symm) hseq
      · exact (hc.sync_le_best h.lineage hvol hx hf).trans hsync
    refine h.addRecord (d := ⟨cut, handoff⟩) hif.le (fun _ => ⟨hc.holder.symm, hafter⟩) ?_
      (fun _ => ⟨hc.floor.trans hsync, fun b hb => ((hc.acked b hb).trans hc.acks).trans hsync⟩)
      (fun x c hx => ⟨hx, fun hcv => ?_⟩) hw
    · refine { hvol with made := hmade, pending := hpending, current := fun _ => ?_ }
      have hnew : CurrentOk syncOf owed s.toGround f host { p with best := cut, pendingSyncs :=
          (p.finishCapture cut).1.pendingSyncs } → CurrentOk syncOf owed
            (s.toGround.addRecord host cut.info) f host (p.finishCapture cut).1 := fun hc' =>
        hc'.addRecord (Ground.newest_addRecord fun x hx hf => (hafter x hx hf).1.le)
      exact hnew { hc with
        best_fence := hif
        newest := fun x hx hf => (hafter x hx hf).1.le
        acks := hc.acks.trans hsync
        floor := hc.floor.trans hsync }
    · exact absurd hc.best_fence (((h.claims x c hx).fresh hcv).none _ hvol.best)
  · -- the head has gone on without this volume state: its record is of an earlier tenure
    have hne : cut.info.writerFence ≠ s.tenure := fun hf => hcur (hfence.symm.trans hf)
    refine h.addRecord (d := ⟨cut, handoff⟩) (hfence ▸ hvol.fence_le) (fun hf => absurd hf hne) ?_
      (fun hf => absurd hf hne) (fun x c hx => ⟨hx, fun _ => hne⟩) hw
    exact { hvol with made := hmade, pending := hpending, current := fun hv => absurd hv.2 hcur }

/-- A volume state that has just been installed has no head task. -/
theorem ProtectedVolume.headTask_ne {p : ProtectedVolume} (hr : p.replication = none)
    (hp : p.publication = none) (hm : p.removals = []) {slot : HeadSlot} {x : TaskState} :
    p.headTask slot ≠ some x := by
  cases slot <;> simp [headTask, hr, hp, hm]

theorem Secured.install (h : Secured syncOf owed s f) {c : LandedClaim} (hc : s.claims host = some c)
    {handoff : Option HostId} :
    Secured syncOf owed { (s.setVolume host c.installed).save host ⟨c.record, handoff⟩ with
      claims := Function.update s.claims host none
      records := s.records ++ [(host, c.record.info)] } f := by
  have hcl := h.claims host c hc
  have hnew : s.toGround.Extends host c.record.info := fun hf =>
    ⟨(hcl.fresh hf).holder.symm, fun x hx hxf => absurd hxf ((hcl.fresh hf).none x hx)⟩
  refine h.addRecord (d := ⟨c.record, handoff⟩) hcl.le hnew ?_
    (fun hf => ⟨(hcl.fresh hf).floor, (hcl.fresh hf).acked⟩) (fun x c' hx => ?_) fun r hr hl => ?_
  · refine {
      made := List.forall_mem_singleton.mpr (List.mem_append_right _ (List.mem_singleton_self _))
      published := fun i hi => by cases hi
      fence_le := hcl.le
      version_le := fun v hv => Option.some.inj hv ▸ hcl.le.trans h.lineage.tenure_le
      known := fun hv => ?_
      holds := fun _ hh => hcl.holds hh
      tasks := fun _ _ hx => absurd hx (ProtectedVolume.headTask_ne rfl rfl rfl)
      incoming := fun _ => rfl
      pending := fun b hb => by cases hb
      current := fun hv => ?_ }
    · -- a claim that the head has left behind is of an earlier version
      exact UInt64.le_antisymm hcl.le
        (h.lineage.tenure_le.trans_eq (Option.some.inj hv).symm)
    · have hfresh := hcl.fresh hv.2
      have hhead := hfresh.head
      exact {
        holder := hfresh.holder
        stash := fun _ => congrArg HeadRecord.stash hhead.symm
        mirrors := fun _ => by
          show c.head.cached c.version c.version = s.head.cached s.tenure s.version
          rw [← hhead, ← hfresh.version]
          exact congrArg (s.head.cached · s.version) (hfresh.version.trans hv.2)
        retired := fun e he => List.mem_append_left _ (hcl.retired e he)
        incoming := fun claim hclaim => by
          obtain rfl := Option.some.inj hclaim
          exact ⟨hhead ▸ hfresh.holder, fun e he => List.mem_append_left _ (hcl.retired e he)⟩
        best_fence := hv.2
        newest := Ground.newest_addRecord fun x hx hf => absurd hf (hfresh.none x hx)
        acks := le_rfl
        floor := hfresh.floor
        acked := hfresh.acked
        covers := fun b hb => hb.elim (fun hb => hfresh.covers.mono (hfresh.acked b hb))
          fun hb => hfresh.covers.mono hb.2
        run := fun r hr => by cases hr
        committed := fun i hi => by cases hi
        publication := fun q hq => by cases hq
        change := fun x task hx => by cases hx
        activates := fun r hr => by cases hr }
  · obtain ⟨hxh, hx⟩ := of_update_none hx
    refine ⟨hx, fun hv hf => hxh ?_⟩
    exact ((h.claims x c' hx).fresh hv).holder.symm.trans (hcl.fresh hf).holder
  · have hw := h.writes r hr hl
    by_cases hh : s.head.holder = host
    · -- nothing has been sent under a claim without a record
      obtain ⟨y, hy, hyf⟩ := hw.made
      exact absurd hyf ((hcl.fresh (hcl.holds hh)).none y hy)
    · refine hw.withVolumes fun r hr _ => ?_
      exact (Function.update_of_ne hh (some c.installed) s.volumes).symm.trans hr

/-! ## Claims -/

theorem migrationClaim_keeps {volume : VolumeId} {source : HostId} {offered : UInt64}
    {stash : StashAssignment} {head claim : HeadRecord}
    (h : migrationClaim volume host source offered stash version head = some claim) :
    claim.holder = host ∧ claim.fence = 0 ∧ claim.manifest = head.manifest ∧
      (claim.stash = head.stash ∨ claim.stash = some stash) ∧
      (claim.retiredStashes = [] ∨
        head.holder = host ∧ claim.retiredStashes = head.retiredStashes) := by
  simp only [migrationClaim, Option.ite_none_left_eq_some] at h
  obtain ⟨-, -, h⟩ := h
  split at h
  case isTrue hlocal =>
    obtain rfl := Option.some.inj h
    refine ⟨rfl, rfl, rfl, ?_, .inr ⟨hlocal, rfl⟩⟩
    cases head.stash with
    | none => exact .inr rfl
    | some old => exact .inl rfl
  case isFalse =>
    obtain rfl := Option.some.inj h
    exact ⟨rfl, rfl, rfl, .inr rfl, .inl rfl⟩

/-- **A claim begins a tenure.**  All that is left of the old one is the manifest: it has to cover
what the offered record does.  Writes under the old tenure can no longer take effect. -/
theorem Secured.claim (h : Secured syncOf owed s f) {offer : CutOffer} {membershipEpoch : UInt64}
    {head : HeadRecord}
    (hclaim : migrationClaim s.volume offer.destination offer.source offer.cut.info.writerFence
      (initialStash peer membershipEpoch) s.version s.head = some head)
    {object : Cas.Object UInt64 StoredHead}
    (ho : s.object.replace version ⟨head, .claim⟩ = some object)
    (hman : ∃ pointer ∈ s.head.manifest, offer.cut.info.syncCoveredThrough ≤ syncOf pointer)
    (howed : ∀ b ∈ owed, b ≤ offer.cut.info.syncCoveredThrough) :
    Secured syncOf owed { s with
        object
        volumes := Function.update s.volumes offer.destination none
        claims := Function.update s.claims offer.destination (some ⟨offer, version, head⟩) }
      offer.cut.info.syncCoveredThrough := by
  obtain ⟨hlog, hreq⟩ := Cas.Object.replace_eq_some ho
  obtain ⟨rfl, hvalue, hlt⟩ := Cas.Object.eq_of_log_cons hlog
  obtain rfl : object.value.head = head := congrArg StoredHead.head hvalue
  obtain ⟨hholder, hzero, hmanifest, hstash, hretired⟩ := migrationClaim_keeps hclaim
  obtain ⟨pointer, hptr, hle⟩ := hman
  have hsome : object.value.head.manifest.isSome :=
    hmanifest ▸ Option.isSome_iff_exists.mpr ⟨pointer, hptr⟩
  have ht : ({ s with object } : Protection).tenure = object.version := if_pos hzero
  have htlt : s.tenure < ({ s with object } : Protection).tenure :=
    (lt_of_le_of_lt h.lineage.tenure_le hlt).trans_eq ht.symm
  have hold : ∀ x ∈ s.records, x.2.writerFence < ({ s with object } : Protection).tenure :=
    fun x hx => lt_of_le_of_lt (h.lineage.le x hx) htlt
  have hret : ∀ e ∈ object.value.head.retiredStashes, (offer.destination, e.through) ∈ s.records := by
    intro e he
    rcases hretired with hnil | ⟨hsame, hkept⟩
    · rw [hnil] at he
      cases he
    · exact hsame ▸ h.retired e (hkept ▸ he)
  have hcov : ∀ b, b ≤ offer.cut.info.syncCoveredThrough →
      ({ s with object } : Protection).toGround.Covers offer.cut.info.syncCoveredThrough b :=
    fun b hb => .inl ⟨hsome, hb⟩
  refine { h with
    lineage := ?_
    manifest := fun ptr hptr' => ?_
    steady := fun stash hst => ?_
    retired := fun e he => hholder.symm ▸ hret e he
    replied := fun m hm hf => absurd hf (hold _ (h.replies m hm)).ne
    releases := fun m hm hf => ?_
    volumes := fun x p hp => ?_
    saved_newest := fun x d hd hf => absurd hf (hold _ (h.saved x d hd)).ne
    claims := fun x c hc => ?_
    acked := fun b hb => hcov b (howed b hb)
    expected := fun r hr => (h.expected r (hreq ▸ hr)).trans hlt.le
    writes := fun r hr hl =>
      absurd (hl.2.symm.le.trans (h.expected r (hreq ▸ hr))) (not_le_of_gt hlt) }
  · exact {
      tenure_ne := fun h0 => UInt64.not_lt_zero (htlt.trans_eq h0)
      tenure_le := ht.le
      le := fun x hx => (hold x hx).le
      holder := fun x hx hf => absurd hf (hold x hx).ne
      mono := fun x hx _ _ hxf => absurd hxf (hold x hx).ne }
  · obtain rfl : pointer = ptr := Option.some.inj (hptr.symm.trans (hmanifest ▸ hptr'))
    exact hle
  · rcases hstash with hst' | hst'
    · exact h.steady stash (hst' ▸ hst)
    · obtain rfl := Option.some.inj (hst'.symm.trans hst)
      exact fun _ => rfl
  · -- no release is of the new tenure
    obtain ⟨hmade, -⟩ := h.releases m hm (htlt.le.trans hf)
    exact absurd hf (not_le_of_gt (hold _ hmade))
  · obtain ⟨hx, hp⟩ := of_update_none hp
    have hvol := h.volumes x p hp
    have hlt' : p.cache.fence < ({ s with object } : Protection).tenure :=
      lt_of_le_of_lt hvol.fence_le htlt
    exact { hvol with
      published := fun c hc => ⟨(hvol.published c hc).1, fun hf =>
        absurd hf (hold _ (hvol.made_published c hc)).ne⟩
      fence_le := hlt'.le
      version_le := fun v hv => (hvol.version_le v hv).trans hlt.le
      known := fun hv => absurd (hvol.version_le _ hv) (not_le_of_gt hlt)
      holds := fun _ hh => absurd (hh.symm.trans hholder) hx
      tasks := fun slot y hy =>
        have hy' := hvol.tasks slot y hy
        ⟨hy'.1, hy'.2.1, fun round v found hyp => (hy'.2.2 round v found hyp).trans hlt.le⟩
      current := fun hv => absurd hv.2 hlt'.ne }
  · by_cases hx : x = offer.destination
    · subst hx
      obtain rfl : ⟨offer, object.version, object.value.head⟩ = c := by simpa using hc
      exact ⟨ht.ge, fun _ => ht.symm, hret, fun _ => {
        head := rfl
        version := rfl
        holder := hholder
        none := fun y hy => (hold y hy).ne
        floor := le_rfl
        covers := hcov _ le_rfl
        acked := howed }⟩
    · have hcl := h.claims x c (by simpa [hx] using hc)
      have hlt' := lt_of_le_of_lt hcl.le htlt
      exact ⟨hlt'.le, fun hh => absurd (hh.symm.trans hholder) hx, hcl.retired,
        fun hv => absurd hv hlt'.ne⟩

/-- A claim that nobody has finalized sends its last write. -/
theorem Secured.sendFinal (h : Secured syncOf owed s f)
    (hrecord : ∃ x ∈ s.records, x.2.writerFence = s.tenure) {claim : HeadRecord}
    (hholder : claim.holder = s.head.holder) (hmanifest : claim.manifest = s.head.manifest)
    (hstash : claim.stash = s.head.stash)
    (hretired : ∀ e ∈ claim.retiredStashes, (s.head.holder, e.through) ∈ s.records) :
    Secured syncOf owed { s with object := s.object.send s.version (claim.final s.tenure) } f :=
  h.send le_rfl fun _ => ⟨hrecord, hholder, rfl, hretired, .inl hmanifest, .inl hstash⟩

/-- An inbound migration has finalized the head. -/
theorem Secured.finalized (h : Secured syncOf owed s f) (hp : s.volumes host = some p)
    {claim : HeadRecord} (hin : p.incoming = some claim) (hle : version ≤ s.version)
    (htake : s.TakesOver p { p.cache with headVersion := some version }) :
    Secured syncOf owed (s.setVolume host
      { p with
        cache := { p.cache with headVersion := some version }
        incoming := none
        ready := true }) f := by
  have hvol := h.volumes host p hp
  have hsome := hvol.incoming (hin ▸ rfl)
  refine h.update hp { hvol with
    published := fun c hc => ⟨rfl, (hvol.published c hc).2⟩
    version_le := fun w hw => Option.some.inj hw ▸ hle
    known := fun hw => congrArg HeadCache.fence (htake (.inr hw))
    holds := fun _ hh => hvol.holds hsome hh
    tasks := fun slot x hx =>
      have hx' := hvol.tasks slot x hx
      ⟨hx'.1, rfl, hx'.2.2⟩
    incoming := fun hno => by cases hno
    current := fun hv => ?_ } (fun _ => hsome) rfl rfl
  have hc := hvol.current ⟨hsome, hv.2⟩
  have hcache := htake (.inl hv.2)
  have hserved : p.ready = true ∨ p.incoming.isSome ∨ p.peerCommitted.isSome :=
    .inr (.inl (hin ▸ rfl))
  refine { hc with
    stash := fun _ => congrArg HeadCache.stashAssignment hcache
    mirrors := fun _ => hcache
    incoming := fun _ hno => by cases hno
    covers := fun b hb => hc.covers b (hb.mono rfl fun _ => hserved)
    change := fun x task hx => (hc.change x task hx).mono fun _ _ hb =>
      ⟨hb.mono rfl fun _ => hserved, id⟩ }

/-! ## Hosts that stop and start -/

theorem Secured.crash (h : Secured syncOf owed s f) (host : HostId) :
    Secured syncOf owed { s with
      volumes := Function.update s.volumes host none
      claims := Function.update s.claims host none } f :=
  { h.drop host with claims := fun x c hc => h.claims x c (of_update_none hc).2 }

/-- A volume state that a starting host puts into its place. -/
theorem Secured.start (h : Secured syncOf owed s f) (hq : VolumeOk syncOf owed s.toGround f host q)
    (hquiet : q.cache.headVersion.isSome → ∀ r ∈ s.object.requests, ¬ s.Live r) :
    Secured syncOf owed (s.setVolume host q) f :=
  { h with
    volumes := forall_update_some h.volumes hq
    writes := fun r hr hl => (h.writes r hr hl).withVolumes fun r' hr' hs => by
      have hr'' : Function.update s.volumes host (some q) s.head.holder = some r' := hr'
      by_cases hh : s.head.holder = host
      · rw [hh, Function.update_self] at hr''
        cases hr''
        exact absurd hl (hquiet hs r hr)
      · rwa [Function.update_of_ne hh] at hr'' }

/-- A volume that was handed off comes back without the head. -/
theorem Secured.detached (h : Secured syncOf owed s f) (hd : s.saved host = some d)
    (destination : HostId) : Secured syncOf owed (s.setVolume host
      { ProtectedVolume.start ⟨d.best.info.writerFence, none, none, none, []⟩ d.best with
        outbound := some destination }) f := by
  refine h.start {
    made := List.forall_mem_singleton.mpr (h.saved host d hd)
    published := fun i hi => by cases hi
    fence_le := h.lineage.le _ (h.saved host d hd)
    version_le := fun v hv => by cases hv
    known := fun hv => by cases hv
    holds := fun hs => by cases hs
    tasks := fun _ _ hx => absurd hx (ProtectedVolume.headTask_ne rfl rfl rfl)
    incoming := fun hs => by cases hs
    pending := fun b hb => by cases hb
    current := fun hv => by cases hv.1 } fun hs => by cases hs

/-- The floor after a recovery: the manifest, where it covers the record that was found. -/
theorem Secured.exists_floor (h : Secured syncOf owed s f) (hd : s.saved host = some d)
    (hfence : d.best.info.writerFence = s.tenure)
    (hprot : s.toGround.Protects syncOf d.best.info.syncCoveredThrough) :
    ∃ f', f ≤ f' ∧ f' ≤ d.best.info.syncCoveredThrough ∧
      (∀ pointer ∈ s.head.manifest, f' ≤ syncOf pointer) ∧
      s.toGround.Covers f' d.best.info.syncCoveredThrough ∧
      ((∃ pointer ∈ s.head.manifest, d.best.info.syncCoveredThrough ≤ syncOf pointer) →
        d.best.info.syncCoveredThrough ≤ f') := by
  have hf := (h.saved_newest host d hd hfence).2.1
  by_cases hman : ∃ pointer ∈ s.head.manifest, d.best.info.syncCoveredThrough ≤ syncOf pointer
  · obtain ⟨pointer, hptr, hle⟩ := hman
    refine ⟨d.best.info.syncCoveredThrough, hf, le_rfl, fun ptr hptr' => ?_, ?_, fun _ => le_rfl⟩
    · obtain rfl := Option.some.inj (hptr.symm.trans hptr')
      exact hle
    · exact .inl ⟨Option.isSome_iff_exists.mpr ⟨pointer, hptr⟩, le_rfl⟩
  · refine ⟨f, le_rfl, hf, h.manifest, ?_, fun hm => absurd hm hman⟩
    rcases hprot with hm | ⟨x, hx, c, hc, hcf, hle⟩
    · exact absurd hm hman
    · exact .inr ⟨x, hx, c, hc, hcf, hle⟩

/-- **Recovery goes on with the tenure.**  The watermark is that of the record in the journal, which
has to be protected already, and no write of the time before can still take effect. -/
theorem Secured.attach (h : Secured syncOf owed s f) (hvolume : s.volumes host = none)
    (hd : s.saved host = some d) (hholder : s.head.holder = host)
    (hfence : d.best.info.writerFence = s.tenure)
    (hprot : s.toGround.Protects syncOf d.best.info.syncCoveredThrough)
    (hquiet : ∀ r ∈ s.object.requests, ¬ s.Live r) {published : Bool}
    (hpub : published = true →
      ∃ pointer ∈ s.head.manifest, d.best.info.syncCoveredThrough ≤ syncOf pointer) :
    ∃ f', Secured syncOf owed (s.setVolume host
      { ProtectedVolume.start (s.head.cached d.best.info.writerFence s.version) d.best with
        peerPublished := if published then some d.best.info else none
        ready := true }) f' := by
  obtain ⟨f', hff, hfb, hman, hcov, hmax⟩ := h.exists_floor hd hfence hprot
  have hmade := h.saved host d hd
  obtain ⟨hnewest, -, hacked⟩ := h.saved_newest host d hd hfence
  have hraised : Secured syncOf owed s f' := by
    refine h.raise hff hman ⟨_, hmade, hfence⟩ (fun x hx hf hnew => ?_) (fun x p hp hc => ?_)
      fun r hr hl => absurd hl (hquiet r hr)
    · exact hfb.trans (h.lineage.sync_le hmade hx (hnew _ hmade hfence) hfence).2
    · rw [← hc.holder] at hp
      cases (hholder ▸ hvolume : s.volumes s.head.holder = none).symm.trans hp
  refine ⟨f', hraised.start {
    made := ProtectedVolume.forall_infos hmade (fun _ hr => by cases hr) (fun _ hc => by cases hc)
      (fun _ hq => by cases hq) fun c hc => ?_
    published := fun i hi => ⟨rfl, fun _ => ?_⟩
    fence_le := hfence.le
    version_le := fun v hv => (Option.some.inj hv).symm.le
    known := fun _ => hfence
    holds := fun _ _ => hfence
    tasks := fun _ _ hx => absurd hx (ProtectedVolume.headTask_ne rfl rfl rfl)
    incoming := fun hs => by cases hs
    pending := fun b hb => by cases hb
    current := fun _ => {
      holder := hholder
      stash := fun _ => rfl
      mirrors := fun _ => congrArg (s.head.cached · s.version) hfence
      retired := fun e he => hholder ▸ h.retired e he
      incoming := fun _ hc => by cases hc
      best_fence := hfence
      newest := hnewest
      acks := le_rfl
      floor := hfb
      acked := hacked
      covers := fun b hb => hb.elim (hraised.acked b) fun hb => hcov.mono hb.2
      run := fun r hr => by cases hr
      committed := fun c hc => by cases hc
      publication := fun q hq => by cases hq
      change := fun x task hx => by cases hx
      activates := fun r hr => by cases hr } } fun _ => hquiet⟩
  · cases published with
    | false => cases hc
    | true => exact Option.some.inj hc ▸ hmade
  · cases published with
    | false => cases hi
    | true =>
      obtain rfl := Option.some.inj hi
      obtain ⟨pointer, hptr, hle⟩ := hpub rfl
      exact ⟨Option.isSome_iff_exists.mpr ⟨pointer, hptr⟩, hmax ⟨pointer, hptr, hle⟩⟩

/-- A volume that has just been created. -/
theorem Secured.created (syncOf : ManifestPtr → UInt64) (volume : VolumeId) (host peer : HostId)
    (membershipEpoch : UInt64) (hv : version ≠ 0) :
    Secured syncOf [] (.created volume host peer membershipEpoch version) 0 := by
  have ht : (Protection.created volume host peer membershipEpoch version).tenure = version := by
    simp [Protection.tenure, Ground.tenure, HeadRecord.effectiveFence, Protection.toGround,
      Protection.created, Protection.head, Protection.version, Cas.Object.create, newHead]
  have hrec : ∀ x ∈ (Protection.created volume host peer membershipEpoch version).records,
      x = (host, ⟨version, 0, 0⟩) := fun x hx => List.mem_singleton.mp hx
  refine {
    lineage := {
      tenure_ne := fun h0 => hv (ht.symm.trans h0)
      tenure_le := ht.le
      le := fun x hx => by rw [hrec x hx]; exact ht.ge
      holder := fun x hx _ => by rw [hrec x hx]; rfl
      mono := fun x hx y hy _ _ _ => by rw [hrec x hx, hrec y hy] }
    manifest := fun _ hp => by cases hp
    steady := fun stash hst => by cases hst; exact fun _ => rfl
    retired := fun _ he => by cases he
    spools := fun _ _ _ hc => by cases hc
    commits := fun _ hm => by cases hm
    replies := fun _ hm => by cases hm
    replied := fun _ hm => by cases hm
    releases := fun _ hm => by cases hm
    volumes := forall_update_some (fun _ _ hp => by cases hp) ?_
    saved := forall_update_some (fun _ _ hp => by cases hp) (List.mem_singleton_self _)
    saved_newest := forall_update_some (fun _ _ hp => by cases hp) fun _ =>
      ⟨fun x hx _ => by rw [hrec x hx], le_rfl, fun _ hb => by cases hb⟩
    claims := fun _ _ hc => by cases hc
    acked := fun _ hb => by cases hb
    expected := fun _ hr => by cases hr
    writes := fun _ hr => by cases hr }
  exact {
    made := List.forall_mem_singleton.mpr (List.mem_singleton_self _)
    published := fun i hi => by cases hi
    fence_le := ht.ge
    version_le := fun v hv => (Option.some.inj hv).symm.le
    known := fun _ => ht.symm
    holds := fun _ _ => ht.symm
    tasks := fun _ _ hx => absurd hx (ProtectedVolume.headTask_ne rfl rfl rfl)
    incoming := fun hs => by cases hs
    pending := fun b hb => by cases hb
    current := fun _ => {
      holder := rfl
      stash := fun _ => rfl
      mirrors := fun _ => congrArg (HeadRecord.cached _ · _) ht.symm
      retired := fun _ he => by cases he
      incoming := fun _ hc => by cases hc
      best_fence := ht.symm
      newest := fun x hx _ => by rw [hrec x hx]; exact le_rfl
      acks := le_rfl
      floor := le_rfl
      acked := fun _ hb => by cases hb
      covers := fun b hb => by
        rcases hb with hb | ⟨hb | hb | hb, -⟩ <;> cases hb
      run := fun r hr => by cases hr
      committed := fun c hc => by cases hc
      publication := fun q hq => by cases hq
      change := fun x task hx => by cases hx
      activates := fun r hr => by cases hr } }

end Blockd
