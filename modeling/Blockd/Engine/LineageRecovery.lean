import Blockd.Engine.ReconcileLoop

/-!
# Recovery among the records of several tenures

A host that has held a volume more than once may find records of several fences on its disk.  Which
of them is the right one only the head can say: the one of the fence that the head has for this host.
`recover_local` decides before the head is read.  It takes the newest record, by what it captured,
whatever its fence is, and the reconciliation gives the volume up if that was the wrong one.

* `Recovering.step` — the loop of the reconciliation over a store that answers with the head it has,
  or not at all, and applies writes or loses them;
* `lineage_recovered` — the newest record of the head's fence is recovered and served exactly if no
  record of another fence outranks it; among equals the one of the greater fence is taken;
* `not_lineage_recovered` — an older tenure that had captured more gets in the way.
-/

set_option autoImplicit false

open Codec
open Std (ExtTreeMap)

namespace Blockd

variable [Platform]

/-! ## Reconciliation over one head -/

/-- The loop, and the head in the store. -/
structure Recovering where
  loop : Reconciling
  version : UInt64
  head : HeadRecord

inductive RecoveryEvent where
  | get
  | getUnavailable
  | put (version : UInt64)
  /-- The write takes effect, and its answer is lost. -/
  | putUnknown (version : UInt64)
  /-- The write is lost. -/
  | putLost
  deriving DecidableEq, Repr

namespace Recovering

section

variable (store : MetadataStore) (placement : Placement) (volume : VolumeId) (host : HostId)

def step (s : Recovering) : RecoveryEvent → Option Recovering
  | .get =>
    (s.loop.step volume host (.get (.found s.version (some s.head)) (some placement)
      (loadArchiveClosure store volume s.head.manifest))).map fun loop => { s with loop }
  | .getUnavailable =>
    (s.loop.step volume host (.get .unavailable (some placement) none)).map fun loop =>
      { s with loop }
  | .put version => do
    let head ← s.loop.phase.written
    let loop ← s.loop.step volume host (.put (.ok version))
    return ⟨loop, version, head⟩
  | .putUnknown version => do
    let head ← s.loop.phase.written
    let loop ← s.loop.step volume host (.put .unavailable)
    return ⟨loop, version, head⟩
  | .putLost =>
    (s.loop.step volume host (.put .unavailable)).map fun loop => { s with loop }

end

/-- A recovered volume, and the head that the store has. -/
def start (v : ServedVolume) (version : UInt64) (head : HeadRecord) : Recovering :=
  ⟨.start v, version, head⟩

/-- The volume is served as it was recovered. -/
def Serves (v : ServedVolume) (s : Recovering) : Prop :=
  ∃ w, s.loop.served = some w ∧ w.ready = true ∧ w.bestRecord = v.bestRecord ∧ w.fence = v.fence

/-- The volume has not been given up, and its reconciliation can be completed, if it is not. -/
structure Recovers (store : MetadataStore) (placement : Placement) (volume : VolumeId)
    (host : HostId) (v : ServedVolume) (s : Recovering) : Prop where
  held : s.loop.served.isSome = true
  finished : s.loop.phase = .finished → s.Serves v
  completes : ∃ events t, Run.run (step store placement volume host) s events = some t ∧ t.Serves v

end Recovering

/-! ## The right record -/

namespace ScanFound

/-- A usable record of the fence that no other such record outranks. -/
structure NewestOf (found : ScanFound) (volume : VolumeId) (fence : UInt64)
    (record : JournalRecord) : Prop where
  mem : record ∈ found.records
  usable : found.recordUsable volume record = true
  lineage : record.fence = fence
  newest : ∀ other ∈ found.records, found.recordUsable volume other = true →
    other.fence = fence → Found.recordRank other ≤ Found.recordRank record

/-- Nothing but records of other fences may be in the way: the newest record of the fence captured
every sync that is covered, the state it may carry is its own, and the volume was not handed over. -/
structure Intact (found : ScanFound) (volume : VolumeId) (fence : UInt64) : Prop where
  covered : ∀ record, found.NewestOf volume fence record →
    found.durabilityWatermark ≤ record.captureSeq
  agrees : ∀ record watermark, found.NewestOf volume fence record →
    found.contradicts record watermark = false
  handoff : found.handoff = none

/-- How the records of several fences are ranked: by what they captured, then by their fence. -/
def tenureRank (record : JournalRecord) : (UInt64 ×ₗ JournalSeq) ×ₗ UInt64 :=
  toLex (Found.recordRank record, record.fence)

/-- No usable record of another fence outranks the newest one of this fence. -/
def Foremost (found : ScanFound) (volume : VolumeId) (fence : UInt64) : Prop :=
  ∀ record, found.NewestOf volume fence record → ∀ other ∈ found.records,
    found.recordUsable volume other = true → other.fence ≠ fence →
    tenureRank other < tenureRank record

end ScanFound

/-- The head is this host's at the fence, its archive can be read, and its membership is known. -/
structure HeadRecord.Confirms (store : MetadataStore) (placement : Placement) (volume : VolumeId)
    (host : HostId) (version fence : UInt64) (head : HeadRecord) : Prop where
  holder : head.holder = host
  tenure : head.effectiveFence version = fence
  positive : fence ≠ 0
  archive : (loadArchiveClosure store volume head.manifest).isSome = true
  stash : ∃ stash, head.stash = some stash ∧ stash.membershipEpoch ≤ placement.membershipEpoch

/-- The head has no newer state than the records of the fence. -/
def HeadRecord.NotAhead (head : HeadRecord) (found : ScanFound) (volume : VolumeId)
    (fence : UInt64) : Prop :=
  ∀ record, found.NewestOf volume fence record → ∀ manifest ∈ head.manifest,
    (toLex (manifest.captureSeq, manifest.journalSeq) : UInt64 ×ₗ UInt64) ≤ Found.recordRank record

/-- Recovery takes the newest record of the fence, and the reconciliation serves it. -/
def VolumeBlobs.LineageRecovered (store : MetadataStore) (placement : Placement)
    (volume : VolumeId) (host : HostId) (blobs : VolumeBlobs) (mode : ScanMode) (version : UInt64)
    (head : HeadRecord) : Prop :=
  ∃ found v record, blobs.scan mode volume = some found ∧ found.recover volume = .installed v ∧
    v.bestRecord = some record ∧ found.NewestOf volume (head.effectiveFence version) record ∧
    ∀ events s, Run.run (Recovering.step store placement volume host) (.start v version head)
      events = some s → s.Recovers store placement volume host v

namespace ScanFound

variable {found : ScanFound} {volume : VolumeId} {fence : UInt64}

/-- A list of records that has one of the fence has a newest one. -/
theorem exists_newestOf {record : JournalRecord} (hmem : record ∈ found.records)
    (husable : found.recordUsable volume record = true) (hfence : record.fence = fence) :
    ∃ newest, found.NewestOf volume fence newest := by
  set usable := found.records.filter fun r => found.recordUsable volume r && r.fence == fence
    with husables
  have hrecord : record ∈ usable := by
    simp [husables, List.mem_filter, hmem, husable, hfence]
  obtain ⟨newest, hnewest⟩ : ∃ newest, Newest.pick Found.recordRank usable = some newest := by
    rw [← Option.ne_none_iff_exists', Ne, Newest.pick_eq_none]
    exact List.ne_nil_of_mem hrecord
  obtain ⟨hin, hle⟩ := Newest.pick_eq_some hnewest
  simp only [husables, List.mem_filter, Bool.and_eq_true, beq_iff_eq] at hin hle
  exact ⟨newest, hin.1, hin.2.1, hin.2.2, fun other ho hu hf => hle other ⟨ho, hu, hf⟩⟩

/-- The record that is taken is the newest of its fence, and no usable one outranks it. -/
theorem chosen_eq_some {blobs : VolumeBlobs} {mode : ScanMode}
    (hscan : blobs.scan mode volume = some found) {chosen : JournalRecord}
    (h : found.chosen volume = some chosen) : found.NewestOf volume chosen.fence chosen ∧
      ∀ other ∈ found.records, found.recordUsable volume other = true →
        tenureRank other ≤ tenureRank chosen := by
  have hsorted : found.records.Pairwise fun a b => a.fence ≤ b.fence := by
    rw [(VolumeBlobs.scan_eq_some hscan).1]
    exact VolumeBlobs.pairwise_decoded
  rw [Found.chosen, Newest.pick_eq_pick_lex (hsorted.filter _)] at h
  obtain ⟨hin, hle⟩ := Newest.pick_eq_some h
  obtain ⟨hmem, husable⟩ := List.mem_filter.mp hin
  have houtranks : ∀ other ∈ found.records, found.recordUsable volume other = true →
      tenureRank other ≤ tenureRank chosen :=
    fun other ho hu => hle other (List.mem_filter.mpr ⟨ho, hu⟩)
  exact ⟨⟨hmem, husable, rfl, fun other ho hu _ =>
    (Prod.Lex.toLex_le_toLex.mp (houtranks other ho hu)).elim le_of_lt fun heq => heq.1.le⟩,
    houtranks⟩

/-- **The record that is taken is of the fence** exactly if no other outranks the newest of it. -/
theorem foremost_iff {blobs : VolumeBlobs} {mode : ScanMode}
    (hscan : blobs.scan mode volume = some found) {record : JournalRecord}
    (hrecord : found.NewestOf volume fence record) :
    found.Foremost volume fence ↔ ∃ chosen ∈ found.chosen volume, chosen.fence = fence := by
  constructor
  · intro hforemost
    obtain ⟨chosen, hchosen⟩ : ∃ chosen, found.chosen volume = some chosen := by
      rw [← Option.ne_none_iff_exists', Ne, Found.chosen, Newest.pick_eq_none]
      exact List.ne_nil_of_mem (List.mem_filter.mpr ⟨hrecord.mem, hrecord.usable⟩)
    obtain ⟨hnewest, hle⟩ := chosen_eq_some hscan hchosen
    refine ⟨chosen, hchosen, by_contra fun hne => ?_⟩
    exact (hforemost record hrecord chosen hnewest.mem hnewest.usable hne).not_ge
      (hle record hrecord.mem hrecord.usable)
  · rintro ⟨chosen, hchosen, rfl⟩ record hrecord other ho hu hne
    obtain ⟨hnewest, hle⟩ := chosen_eq_some hscan hchosen
    -- two newest records of the fence have one rank
    have hrank : tenureRank chosen = tenureRank record := by
      rw [tenureRank, tenureRank, hrecord.lineage, le_antisymm
        (hrecord.newest chosen hnewest.mem hnewest.usable rfl)
        (hnewest.newest record hrecord.mem hrecord.usable hrecord.lineage)]
    refine lt_of_le_of_ne (hrank ▸ hle other ho hu) fun heq => hne ?_
    exact (congrArg (fun rank => (ofLex rank).2) heq).trans hrecord.lineage

/-- It is installed. -/
theorem recover_of_chosen (hintact : found.Intact volume fence) {chosen : JournalRecord}
    (hchosen : found.chosen volume = some chosen) (hnewest : found.NewestOf volume fence chosen) :
    found.recover volume = .installed (found.recovered volume chosen
      (max (found.usableWatermark volume) found.durabilityWatermark)) := by
  rw [recover, hchosen]
  dsimp only
  rw [if_neg (not_lt.mpr (hintact.covered chosen hnewest)), hintact.agrees _ _ hnewest,
    if_neg Bool.false_ne_true]

end ScanFound

namespace Recovering

variable {store : MetadataStore} {placement : Placement} {volume : VolumeId} {host : HostId}
  {v : ServedVolume} {s t : Recovering}

/-- The store has a head that confirms the volume. -/
def Holds (store : MetadataStore) (placement : Placement) (volume : VolumeId) (host : HostId)
    (v : ServedVolume) (version : UInt64) (head : HeadRecord) : Prop :=
  head.Confirms store placement volume host version v.fence ∧ v.behind head = false

/-- Until the loop is over the volume is as it was recovered; what is written over the head is the
head with its fence. -/
def Pending (store : MetadataStore) (placement : Placement) (volume : VolumeId) (host : HostId)
    (v : ServedVolume) (s : Recovering) : Prop :=
  s.loop.served = some v ∧ Holds store placement volume host v s.version s.head ∧
    (s.loop.phase = .reading ∨
      s.head.fence = 0 ∧ s.loop.phase = .finalizing { s.head with fence := v.fence })

/-- A claim that is finalized still confirms the volume, at any version. -/
theorem Holds.finalized {version version' : UInt64} {head : HeadRecord}
    (h : Holds store placement volume host v version head) :
    Holds store placement volume host v version' { head with fence := v.fence } := by
  obtain ⟨hconfirms, hbehind⟩ := h
  refine ⟨⟨hconfirms.holder, ?_, hconfirms.positive, hconfirms.archive, hconfirms.stash⟩, hbehind⟩
  exact if_neg hconfirms.positive

/-- A read finds a claim to be finalized, or the head that the volume is served under. -/
theorem Pending.get (h : s.Pending store placement volume host v) (hout : v.outbound = none)
    (hphase : s.loop.phase = .reading) :
    ∃ t, s.step store placement volume host .get = some t ∧
      ((t.Pending store placement volume host v ∧ s.head.fence = 0 ∧
        t.loop.phase = .finalizing { t.head with fence := v.fence }) ∨
      (s.head.fence ≠ 0 ∧ t.loop.phase = .finished ∧ t.Serves v)) := by
  obtain ⟨hserved, ⟨hconfirms, hbehind⟩, -⟩ := h
  obtain ⟨closure, hclosure⟩ := Option.isSome_iff_exists.mp hconfirms.archive
  obtain ⟨⟨served, phase, known⟩, version, head⟩ := s
  obtain rfl : served = some v := hserved
  obtain rfl : phase = .reading := hphase
  have hstep : ∀ decision, v.reconcile volume host (some placement.membershipEpoch)
      (Placement.initialStash (some placement)) version head true = decision →
      step store placement volume host ⟨⟨some v, .reading, known⟩, version, head⟩ .get =
        some ⟨Reconciling.decided ⟨some v, .reading, some (version, head)⟩ v volume version head
          (some closure) decision, version, head⟩ := by
    rintro decision rfl
    simp only [step, Reconciling.step, Reconciling.got, hclosure, Option.map_some,
      Option.isSome_some]
  by_cases hzero : head.fence = 0
  · have hversion : v.fence = version := by
      rw [← hconfirms.tenure, HeadRecord.effectiveFence, if_pos hzero]
    have hfinalize : v.reconcile volume host (some placement.membershipEpoch)
        (Placement.initialStash (some placement)) version head true =
        .finalize { head with fence := version } := by
      unfold ServedVolume.reconcile
      exact if_pos ⟨hconfirms.holder, hzero, hversion⟩
    refine ⟨_, hstep _ hfinalize, .inl ⟨⟨rfl, ⟨hconfirms, hbehind⟩, .inr ⟨hzero, ?_⟩⟩, hzero, ?_⟩⟩
    all_goals rw [hversion]; rfl
  · have hfence : head.fence = v.fence := by
      rw [← hconfirms.tenure, HeadRecord.effectiveFence, if_neg hzero]
    obtain ⟨stash, hstash, hmembership⟩ := hconfirms.stash
    have hattach : v.reconcile volume host (some placement.membershipEpoch)
        (Placement.initialStash (some placement)) version head true = .attach :=
      ServedVolume.reconcile_eq_attach hconfirms.holder hfence hzero hstash hmembership hbehind
    refine ⟨_, hstep _ hattach, .inr ⟨hzero, rfl, _, rfl, ?_, rfl, rfl⟩⟩
    simp [ServedVolume.attachHead, hout]

/-- A write that is answered, or takes effect without an answer, finalizes the claim. -/
theorem Pending.written (h : s.Pending store placement volume host v) (version : UInt64)
    {loop : Reconciling} (hloop : loop.served = some v ∧ loop.phase = .reading) :
    Pending store placement volume host v ⟨loop, version, { s.head with fence := v.fence }⟩ :=
  ⟨hloop.1, h.2.1.finalized, .inl hloop.2⟩

/-- **One event.**  The volume is not given up. -/
theorem Pending.step (h : s.Pending store placement volume host v) (hout : v.outbound = none)
    {e : RecoveryEvent} (hs : s.step store placement volume host e = some t) :
    t.Pending store placement volume host v ∨ (t.loop.phase = .finished ∧ t.Serves v) := by
  obtain ⟨hserved, hholds, hphase | ⟨hzero, hphase⟩⟩ := id h
  · cases e with
    | get =>
      obtain ⟨t', ht', ⟨hpending, -⟩ | ⟨-, hdone⟩⟩ := h.get hout hphase
      · exact .inl (Option.some.inj (ht'.symm.trans hs) ▸ hpending)
      · exact .inr (Option.some.inj (ht'.symm.trans hs) ▸ hdone)
    | getUnavailable =>
      simp only [Recovering.step, Reconciling.step, Reconciling.got, hserved, hphase, Option.map_some,
        Option.some.injEq] at hs
      exact .inl (hs ▸ ⟨hserved, hholds, .inl hphase⟩)
    | put | putUnknown | putLost => simp [Recovering.step, Reconciling.step, hserved, hphase,
        LoopPhase.written] at hs
  · cases e with
    | get | getUnavailable => simp [Recovering.step, Reconciling.step, hserved, hphase] at hs
    | put version =>
      simp only [Recovering.step, Reconciling.step, hserved, hphase, LoopPhase.written, some_bind,
        Reconciling.wrote, Option.isNone_some, Bool.false_eq_true, if_false, pure_eq_some] at hs
      exact .inl (hs ▸ h.written version ⟨rfl, rfl⟩)
    | putUnknown version =>
      simp only [Recovering.step, Reconciling.step, hserved, hphase, LoopPhase.written, some_bind,
        Option.isNone_some, Bool.false_eq_true, if_false, pure_eq_some] at hs
      exact .inl (hs ▸ h.written version ⟨rfl, rfl⟩)
    | putLost =>
      simp only [Recovering.step, Reconciling.step, hserved, hphase, LoopPhase.written,
        Option.isNone_some, Bool.false_eq_true, if_false, Option.map_some, Option.some.injEq] at hs
      exact .inl (hs ▸ ⟨rfl, hholds, .inl rfl⟩)

/-- Once it is over, nothing more happens. -/
theorem step_finished (h : s.loop.phase = .finished) (e : RecoveryEvent) :
    s.step store placement volume host e = none := by
  obtain ⟨⟨served, phase, known⟩, version, head⟩ := s
  obtain rfl : phase = .finished := h
  cases served <;> cases e <;> rfl

/-- A read that finds a finalized head is the last one. -/
theorem Pending.completes_get (h : s.Pending store placement volume host v)
    (hout : v.outbound = none) (hphase : s.loop.phase = .reading) (hfinal : s.head.fence ≠ 0) :
    ∃ t, Run.run (Recovering.step store placement volume host) s [.get] = some t ∧ t.Serves v := by
  obtain ⟨t, ht, ⟨-, hzero, -⟩ | ⟨-, -, hserves⟩⟩ := h.get hout hphase
  · exact absurd hzero hfinal
  · exact ⟨t, Run.run_cons_of ht rfl, hserves⟩

/-- A claim is finalized and the head is read once more. -/
theorem Pending.completes_put (h : s.Pending store placement volume host v)
    (hout : v.outbound = none)
    (hphase : s.loop.phase = .finalizing { s.head with fence := v.fence }) :
    ∃ t, Run.run (Recovering.step store placement volume host) s [.put v.fence, .get] = some t ∧
      t.Serves v := by
  obtain ⟨hserved, ⟨hconfirms, -⟩, -⟩ := id h
  obtain ⟨⟨served, phase, known⟩, version, head⟩ := s
  obtain rfl : served = some v := hserved
  obtain rfl : phase = .finalizing { head with fence := v.fence } := hphase
  have hpending : Pending store placement volume host v
      ⟨⟨some v, .reading, some (v.fence, { head with fence := v.fence })⟩, v.fence,
        { head with fence := v.fence }⟩ := h.written v.fence ⟨rfl, rfl⟩
  obtain ⟨t, ht, hserves⟩ := hpending.completes_get hout rfl hconfirms.positive
  exact ⟨t, Run.run_cons_of rfl ht, hserves⟩

theorem Pending.recovers (h : s.Pending store placement volume host v) (hout : v.outbound = none) :
    s.Recovers store placement volume host v := by
  obtain ⟨hserved, -, hphase⟩ := id h
  refine ⟨by rw [hserved]; rfl, fun hfinished => ?_, ?_⟩
  · rcases hphase with hphase | ⟨-, hphase⟩ <;> exact nomatch hphase.symm.trans hfinished
  · rcases hphase with hphase | ⟨-, hphase⟩
    · obtain ⟨t, ht, ⟨hpending, hzero, hphase'⟩ | ⟨-, -, hserves⟩⟩ := h.get hout hphase
      · obtain ⟨u, hu, hserves⟩ := hpending.completes_put hout hphase'
        exact ⟨_, u, Run.run_cons_of ht hu, hserves⟩
      · exact ⟨[.get], t, Run.run_cons_of ht rfl, hserves⟩
    · obtain ⟨t, ht, hserves⟩ := h.completes_put hout hphase
      exact ⟨_, t, ht, hserves⟩

/-- **Every run of the reconciliation.** -/
theorem Pending.run (h : s.Pending store placement volume host v) (hout : v.outbound = none)
    {events : List RecoveryEvent}
    (hrun : Run.run (Recovering.step store placement volume host) s events = some t) :
    t.Recovers store placement volume host v := by
  have hstep : ∀ s e t, (s.Pending store placement volume host v ∨
      (s.loop.phase = .finished ∧ s.Serves v)) →
      Recovering.step store placement volume host s e = some t →
      t.Pending store placement volume host v ∨ (t.loop.phase = .finished ∧ t.Serves v) := by
    rintro s e t (hpending | ⟨hfinished, -⟩) hs
    · exact hpending.step hout hs
    · rw [step_finished hfinished] at hs
      cases hs
  have hinv := Run.run_invariant_of_step hstep (.inl h) hrun
  rcases hinv with hpending | ⟨-, hserves⟩
  · exact hpending.recovers hout
  · obtain ⟨w, hw, -⟩ := id hserves
    exact ⟨by rw [hw]; rfl, fun _ => hserves, [], t, rfl, hserves⟩

end Recovering

/-- A store with no metadata. -/
def bareStore : MetadataStore := ⟨fun _ _ => none, fun _ _ => none, fun _ => none⟩

/-- A disk without migration states and handoff, whose records cover no sync. -/
theorem ScanFound.intact_of {found : ScanFound} (volume : VolumeId) (fence : UInt64)
    (h : found.durabilityWatermark = 0 ∧ found.handoff.isNone = true ∧
      found.migrationStates.isEmpty = true) : found.Intact volume fence := by
  refine ⟨fun r hr => ?_, fun r watermark hr => ?_, Option.isNone_iff_eq_none.mp h.2.1⟩
  · rw [h.1]
    exact UInt64.zero_le
  · rw [ScanFound.contradicts, ExtTreeMap.isEmpty_iff.mp h.2.2]
    simp

/-- The head of a tenure that has published nothing. -/
def tenureHead (fence : UInt64) : HeadRecord := ⟨7, 1, fence, none, some (initialStash 2 0), []⟩

end Blockd
