import Mathlib
import Blockd.Engine.ReplicaRefinement

/-!
# A spool that is cut anywhere

A crash, a full device or a short read can leave any prefix of a spool.  `SpoolLog` is a passive
together with the frames it has appended to its present spool.  `spool_cut_exact` says what the scan
makes of the first `n` bytes of these frames, for every `n`: it ends at the last boundary between
frames that is not past the cut and has exactly the artifacts and commits of the frames before it.

The condition is the one of `spool_reproduces_memory`, and `not_spool_cut_exact` is a spool that
cannot be scanned even when nothing of it is missing.
-/

set_option autoImplicit false

open Codec
open Std (ExtTreeMap)

namespace Blockd

/-! ## Boundaries -/

section Boundaries

variable {α : Type}

/-- Where the first `k` parts end. -/
def boundary (parts : List (List α)) (k : Nat) : Nat := (parts.take k).flatten.length

theorem boundary_succ {parts : List (List α)} {part : List α} {k : Nat}
    (h : parts[k]? = some part) : boundary parts (k + 1) = boundary parts k + part.length := by
  rw [boundary, List.take_add_one, h, Option.toList_some, List.flatten_append, List.length_append,
    List.flatten_singleton, boundary]

theorem boundary_mono (parts : List (List α)) {j k : Nat} (h : j ≤ k) :
    boundary parts j ≤ boundary parts k := by
  have hsub : (parts.take j).flatten <+: (parts.take k).flatten := by
    obtain ⟨d, rfl⟩ := Nat.exists_eq_add_of_le h
    rw [List.take_add, List.flatten_append]
    exact List.prefix_append _ _
  exact hsub.length_le

/-- A cut comes after the last part or inside one. -/
theorem exists_boundary (parts : List (List α)) (n : Nat) :
    ∃ k ≤ parts.length, boundary parts k ≤ n ∧
      (k = parts.length ∨
        ∃ part, parts[k]? = some part ∧ n < boundary parts k + part.length) := by
  induction parts generalizing n with
  | nil => exact ⟨0, le_rfl, Nat.zero_le n, .inl rfl⟩
  | cons part parts ih =>
    by_cases hle : part.length ≤ n
    · obtain ⟨k, hk, hn, hlast⟩ := ih (n - part.length)
      have hcons : boundary (part :: parts) (k + 1) = part.length + boundary parts k := by
        simp [boundary]
      refine ⟨k + 1, Nat.succ_le_succ hk, by omega, hlast.imp (congrArg (· + 1)) ?_⟩
      rintro ⟨next, hnext, hlt⟩
      exact ⟨next, hnext, by omega⟩
    · exact ⟨0, Nat.zero_le _, Nat.zero_le n, .inr ⟨part, rfl, by simp [boundary]; omega⟩⟩

/-- The boundary before a cut is the greatest one. -/
theorem isGreatest_boundary {parts : List (List α)} {n k : Nat} (hk : k ≤ parts.length)
    (hn : boundary parts k ≤ n)
    (hlast : k = parts.length ∨
      ∃ part, parts[k]? = some part ∧ n < boundary parts k + part.length) :
    IsGreatest {b | b ≤ n ∧ ∃ j ≤ parts.length, b = boundary parts j} (boundary parts k) := by
  refine ⟨⟨hn, k, hk, rfl⟩, ?_⟩
  rintro _ ⟨hb, j, hj, rfl⟩
  rcases hlast with rfl | ⟨part, hpart, hlt⟩
  · exact boundary_mono parts hj
  · by_cases hjk : j ≤ k
    · exact boundary_mono parts hjk
    · have hle := boundary_mono parts (Nat.lt_of_not_le hjk)
      rw [boundary_succ hpart] at hle
      omega

/-- What a cut leaves: the parts before it, and the front of the next one. -/
theorem take_flatten {parts : List (List α)} {part : List α} {n k : Nat}
    (hpart : parts[k]? = some part) (hn : boundary parts k ≤ n)
    (hlt : n < boundary parts k + part.length) :
    parts.flatten.take n = (parts.take k).flatten ++ part.take (n - boundary parts k) := by
  have hsplit : parts.flatten = (parts.take k).flatten ++ (part ++ (parts.drop (k + 1)).flatten) := by
    obtain ⟨hk, rfl⟩ := List.getElem?_eq_some_iff.mp hpart
    rw [← List.flatten_cons, ← List.flatten_append, List.getElem_cons_drop, List.take_append_drop]
  rw [hsplit, List.take_append, List.take_of_length_le hn]
  refine congrArg _ (List.take_append_of_le_length ?_)
  show n - boundary parts k ≤ part.length
  omega

end Boundaries

/-! ## The frames of a spool -/

variable [Platform]

/-- A passive, with the frames of its present spool in the order it appended them. -/
structure SpoolLog where
  passive : Passive
  frames : List Bytes

inductive SpoolEvent where
  | deliver (message : ReplicaMessage) (env : Surroundings)
  | restart

/-- The frame that a message adds to the spool. -/
def Passive.appendedFrame (config : PassiveConfig) (key : ReplicaKey) (p : Passive)
    (env : Surroundings) (message : ReplicaMessage) : Option Bytes :=
  match p.react config key env message with
  | .append frame _ =>
    if (p.appendPlan config env frame.length).isSome ∧ env.reserved ∧ env.appended then some frame
    else none
  | _ => none

namespace SpoolLog

def empty : SpoolLog := ⟨Passive.empty, []⟩

def step (config : PassiveConfig) (key : ReplicaKey) (s : SpoolLog) : SpoolEvent → Option SpoolLog
  | .deliver message env =>
    let passive := s.passive.deliver config key env message
    some
      { passive
        -- a spool that has been released has no frames
        frames := if passive.replica.isNone then []
          else s.frames ++ (s.passive.appendedFrame config key env message).toList }
  | .restart => some { s with passive := recoverReplicaBlobs key s.passive.spool }

/-- The condition of `spool_reproduces_memory`. -/
def EventOk (config : PassiveConfig) (key : ReplicaKey) (s : SpoolLog) : SpoolEvent → Prop
  | .deliver message env => MessageOk config key s.passive env message
  | .restart => True

end SpoolLog

/-- The scan has what the frames have. -/
structure Lists (frames : List Bytes) (scan : ReplicaSpoolScan) : Prop where
  validLen : scan.validLen = frames.flatten.length
  commits : scan.commits = frames.filterMap openCommit
  artifacts : ∀ (artifact : ReplicaArtifact) (frame : ReplicaArtifactFrame),
    scan.artifacts[artifact]? = some frame ↔
      frame ∈ frames.filterMap openArtifact ∧ frame.artifact = artifact

omit [Platform] in
/-- A frame opens under its own magic number only. -/
theorem openFrame_of_ne {magic other : UInt32} {payload frame : Bytes}
    (h : sealFrame magic payload = some frame) (hne : magic ≠ other) :
    openFrame other frame = none := by
  rw [Option.eq_none_iff_forall_ne_some]
  intro found hfound
  have hother := magic_sealFrame (openFrame_eq_some.mp hfound)
  exact hne ((magic_sealFrame h).symm.trans hother)

theorem openCommit_artifact {key : ReplicaKey} {artifact : ReplicaArtifact} {checksum : UInt32}
    {bytes frame : Bytes}
    (h : sealVerifiedReplicaArtifact key artifact checksum bytes = some frame) :
    openCommit frame = none := by
  rw [openCommit, openFrame_of_ne (sealVerifiedReplicaArtifact_eq_some.mp h).2.2 (by decide)]
  rfl

theorem openArtifact_commit {key : ReplicaKey} {info : ReplicaCommitInfo}
    {required : List ReplicaArtifact} {record frame : Bytes}
    (h : sealReplicaCommit key info required record = some frame) : openArtifact frame = none := by
  rw [openArtifact, openFrame_of_ne (sealReplicaCommit_eq_some.mp h).2.2.2 (by decide)]
  rfl

section

variable {key : ReplicaKey} {r : ReplicaState} {scan : ReplicaSpoolScan} {frames : List Bytes}

theorem Lists.empty : Lists [] ReplicaSpoolScan.start :=
  ⟨rfl, rfl, fun artifact frame => by simp [ReplicaSpoolScan.start]⟩

/-- One more artifact, which the spool does not have. -/
theorem Lists.put (h : Lists frames scan) {frame : Bytes} {a : ReplicaArtifactFrame}
    (hnew : scan.artifacts[a.artifact]? = none) (hopen : openArtifact frame = some a)
    (hother : openCommit frame = none) (identity : Option ReplicaKey)
    (uncommitted : Finset ReplicaArtifact) :
    Lists (frames ++ [frame])
      { scan with
        identity
        uncommittedArtifacts := uncommitted
        artifacts := scan.artifacts.insert a.artifact a
        validLen := scan.validLen + frame.length } := by
  refine ⟨?_, ?_, fun artifact found => ?_⟩
  · show scan.validLen + frame.length = _
    rw [h.validLen, List.flatten_append, List.flatten_singleton, List.length_append]
  · show scan.commits = _
    simp [h.commits, hother]
  · show (scan.artifacts.insert a.artifact a)[artifact]? = some found ↔ _
    rw [Maps.getElem?_insert, List.filterMap_append, List.mem_append, or_and_right,
      ← h.artifacts artifact found]
    simp only [List.filterMap_cons, hopen, List.filterMap_nil, List.mem_singleton]
    by_cases heq : a.artifact = artifact
    · subst heq
      simp only [if_true, hnew, Option.some.injEq, reduceCtorEq, false_or]
      exact ⟨fun hf => hf ▸ ⟨rfl, rfl⟩, fun hf => hf.1.symm⟩
    · rw [if_neg heq]
      exact ⟨.inl, fun hf => hf.elim id fun hf => absurd (hf.1 ▸ hf.2) heq⟩

/-- One more commit. -/
theorem Lists.commit (h : Lists frames scan) {frame : Bytes} {c : ReplicaCommitFrame}
    (hopen : openCommit frame = some c) (hother : openArtifact frame = none)
    (identity : Option ReplicaKey) (uncommitted : Finset ReplicaArtifact) :
    Lists (frames ++ [frame])
      { scan with
        identity
        uncommittedArtifacts := uncommitted
        commits := scan.commits ++ [c]
        validLen := scan.validLen + frame.length } := by
  refine ⟨?_, ?_, fun artifact found => ?_⟩
  · show scan.validLen + frame.length = _
    rw [h.validLen, List.flatten_append, List.flatten_singleton, List.length_append]
  · show scan.commits ++ [c] = _
    simp [h.commits, hopen]
  · simp [h.artifacts artifact found, hother]

/-- **The scan lists the frame that a message appends.** -/
theorem Appends.lists {p : Passive} {message : ReplicaMessage} {frame : Bytes}
    {update : ReplicaState → ReplicaState}
    (h : Appends key (p.replica.getD ReplicaState.default) message frame update)
    (hok : p.Readable message)
    (hagree : Agrees key (p.replica.getD ReplicaState.default) scan) (hlists : Lists frames scan) :
    ∃ scan', scanFrame scan frame = some scan' ∧ scan'.truncatedTail = scan.truncatedTail ∧
      Lists (frames ++ [frame]) scan' := by
  cases h with
  | put hnew hcrc hseal =>
    obtain ⟨hnone, hscan⟩ := hagree.scanFrame_put hnew hcrc hseal
    exact ⟨_, hscan, rfl, hlists.put hnone (openArtifact_seal hcrc hseal)
      (openCommit_artifact hseal) _ _⟩
  | commit hcomplete hlater hseal =>
    refine ⟨_, hagree.scanFrame_commit hcomplete hok.1 hlater (fun known hknown => ?_) hseal, rfl,
      hlists.commit (openCommit_seal hok.1 hseal) (openArtifact_commit hseal) _ _⟩
    exact hok.2 known (committed_getD p ▸ hknown)

end

/-! ## Runs -/

/-- The files of the passive are the frames, each of them is a whole frame, and the scan lists the
first `k` of them, for every `k`. -/
structure SpoolLog.Logged (key : ReplicaKey) (s : SpoolLog) : Prop where
  inv : PassiveInv key s.passive
  files : combined s.passive.spool = s.frames.flatten
  framed : ∀ frame ∈ s.frames, ∃ magic payload, sealFrame magic payload = some frame
  lists : ∀ k ≤ s.frames.length, ∃ scan, scanReplicaSpool (s.frames.take k).flatten = some scan ∧
    scan.truncatedTail = false ∧ Lists (s.frames.take k) scan

namespace SpoolLog

variable {config : PassiveConfig} {key : ReplicaKey} {s t : SpoolLog} {env : Surroundings}
  {message : ReplicaMessage}

theorem Logged.empty (key : ReplicaKey) : empty.Logged key := by
  refine ⟨PassiveInv.empty key, rfl, nofun, fun k hk => ⟨ReplicaSpoolScan.start, ?_, rfl, ?_⟩⟩
  · rw [Nat.le_zero.mp hk]
    rfl
  · rw [Nat.le_zero.mp hk]
    exact Lists.empty

/-- The steps that append nothing and drop nothing. -/
theorem Logged.same (h : s.Logged key) {p : Passive} (hinv : PassiveInv key p)
    (hspool : p.spool = s.passive.spool) : ({ s with passive := p } : SpoolLog).Logged key :=
  ⟨hinv, hspool ▸ h.files, h.framed, h.lists⟩

/-- A restart reads its files and leaves them alone. -/
theorem spool_recover {p : Passive} (h : PassiveInv key p) :
    (recoverReplicaBlobs key p.spool).spool = p.spool := by
  cases hr : p.replica with
  | none => rw [h.absent hr, recover_empty]
  | some r =>
    have hs := h.spooled
    rw [hr, Option.getD_some] at hs
    obtain ⟨r', hrec, -, -⟩ := recover_spooled hs (h.present r hr)
    rw [hrec]

/-- One more frame. -/
theorem Logged.append (h : s.Logged key) (hok : s.passive.Readable message) {frame : Bytes}
    {update : ReplicaState → ReplicaState} {p : Passive}
    (happ : Appends key (s.passive.replica.getD ReplicaState.default) message frame update)
    (hinv : PassiveInv key p) (hfiles : combined p.spool = combined s.passive.spool ++ frame) :
    (⟨p, s.frames ++ [frame]⟩ : SpoolLog).Logged key := by
  obtain ⟨magic, payload, hseal, hknown⟩ : ∃ magic payload, sealFrame magic payload = some frame ∧
      (magic = magicReplicaArtifact ∨ magic = magicReplicaCommit) := by
    cases happ with
    | put hnew hcrc hseal => exact ⟨_, _, (sealVerifiedReplicaArtifact_eq_some.mp hseal).2.2, .inl rfl⟩
    | commit hcomplete hlater hseal =>
      exact ⟨_, _, (sealReplicaCommit_eq_some.mp hseal).2.2.2, .inr rfl⟩
  refine ⟨hinv, ?_, fun f hf => ?_, fun k hk => ?_⟩
  · rw [hfiles, h.files, List.flatten_append, List.flatten_singleton]
  · rcases List.mem_append.mp hf with hf | hf
    · exact h.framed f hf
    · exact List.mem_singleton.mp hf ▸ ⟨magic, payload, hseal⟩
  · by_cases hlt : k ≤ s.frames.length
    · rw [List.take_append_of_le_length hlt]
      exact h.lists k hlt
    · -- all frames: the scan of the old ones takes the new one
      have hall : (s.frames ++ [frame]).length ≤ k := by
        rw [List.length_append, List.length_singleton]
        omega
      obtain ⟨scan, hscan, htail, hlists⟩ := h.lists s.frames.length le_rfl
      rw [List.take_length] at hscan hlists
      obtain ⟨known, hscan', -, hagree⟩ := h.inv.spooled.scan
      rw [h.files, hscan, Option.some.injEq] at hscan'
      obtain ⟨scan', htake, htail', hlists'⟩ := happ.lists hok (hscan' ▸ hagree) hlists
      rw [List.take_of_length_le hall, List.flatten_append, List.flatten_singleton,
        scanReplicaSpool, scanFrom_append_frame hscan htail hseal hknown]
      exact ⟨scan', htake, htail'.trans htail, hlists'⟩

theorem Logged.deliver (h : s.Logged key) (hok : MessageOk config key s.passive env message)
    (hst : s.step config key (.deliver message env) = some t) : t.Logged key := by
  obtain rfl := Option.some.inj hst
  have hinv : PassiveInv key (s.passive.deliver config key env message) := h.inv.deliver hok
  by_cases hnone : (s.passive.deliver config key env message).replica = none
  · -- nothing is left, and nothing is in the files
    simp only [hnone, Option.isNone_none, if_true]
    refine ⟨hinv, ?_, nofun, ?_⟩
    · rw [hinv.absent hnone]
      rfl
    · exact (Logged.empty key).lists
  simp only [Option.isNone_iff_eq_none, hnone, if_false]
  unfold Passive.appendedFrame
  cases hreact : s.passive.react config key env message with
  | answer =>
    have hsame : s.passive.deliver config key env message = s.passive := by
      rw [Passive.deliver, hreact]
    simpa [hsame] using h
  | touch artifact =>
    simp only [Option.toList_none, List.append_nil]
    refine h.same hinv ?_
    rw [Passive.deliver, hreact]
  | drop currentGeneration =>
    simp only [Option.toList_none, List.append_nil]
    refine h.same hinv ?_
    obtain ⟨⟨through, rfl⟩, r, hr, rfl⟩ := react_drop hreact
    rw [Passive.deliver, hreact] at hnone ⊢
    cases hfail : env.deleteFailedAfter with
    | none => simp [hfail] at hnone
    | some count =>
      -- a delete that fails has not deleted anything
      simp [hok count hfail, eraseBelow]
  | append frame update =>
    have hdeliver : s.passive.deliver config key env message =
        s.passive.append config env frame update := by
      rw [Passive.deliver, hreact]
    simp only
    split
    case isTrue hdone =>
      obtain ⟨hroom, hreserved, happended⟩ := hdone
      obtain ⟨⟨generation, rotated⟩, hplan⟩ := Option.isSome_iff_exists.mp hroom
      refine h.append (hok.readable hreact hroom hreserved) (react_appends hreact) hinv ?_
      rw [hdeliver, Passive.append, hplan]
      simp only [hreserved, happended, Bool.and_self, if_true]
      exact combined_appendFile frame
        (newest_of_plan h.inv.spooled.newest (appendPlan_generation hplan))
    case isFalse hrefused =>
      simp only [Option.toList_none, List.append_nil]
      refine h.same hinv ?_
      rw [hdeliver, Passive.append]
      split
      · rfl
      · rename_i generation rotated hplan
        rw [if_neg]
        rw [Bool.and_eq_true]
        exact fun hdone => hrefused ⟨by rw [hplan]; rfl, hdone⟩

/-- One step. -/
theorem Logged.step (h : s.Logged key) {a : SpoolEvent} (hok : s.EventOk config key a)
    (hst : s.step config key a = some t) : t.Logged key := by
  cases a with
  | deliver message env => exact h.deliver hok hst
  | restart =>
    obtain rfl := Option.some.inj hst
    exact h.same h.inv.restart (spool_recover h.inv)

end SpoolLog

/-- The scan of the first `n` bytes of the frames finds what the whole frames among those bytes hold,
and ends where the last of them ends. -/
def CutExact (frames : List Bytes) (n : Nat) : Prop :=
  ∃ k scan, k ≤ frames.length ∧
    IsGreatest {b | b ≤ n ∧ ∃ j ≤ frames.length, b = boundary frames j} (boundary frames k) ∧
    scanReplicaSpool (frames.flatten.take n) = some scan ∧
    scan.validLen = boundary frames k ∧
    scan.commits = (frames.take k).filterMap openCommit ∧
    ∀ (artifact : ReplicaArtifact) (frame : ReplicaArtifactFrame),
      scan.artifacts[artifact]? = some frame ↔
        frame ∈ (frames.take k).filterMap openArtifact ∧ frame.artifact = artifact

/-- **A cut spool is read exactly.**  From the first `n` bytes of the frames that a passive has
accepted the scan takes the frames that lie wholly before the cut, and ends where the last of them
ends. -/
theorem spool_cut_exact (config : PassiveConfig) (key : ReplicaKey) (events : List SpoolEvent)
    (s : SpoolLog)
    (hok : Run.Along (SpoolLog.step config key) (SpoolLog.EventOk config key) .empty events)
    (hrun : Run.run (SpoolLog.step config key) .empty events = some s) (n : Nat) :
    CutExact s.frames n := by
  have h : s.Logged key :=
    Run.run_invariant (fun _ _ _ h hok hst => SpoolLog.Logged.step h hok hst) (.empty key) hok hrun
  obtain ⟨k, hk, hn, hlast⟩ := exists_boundary s.frames n
  obtain ⟨scan, hscan, htail, hlists⟩ := h.lists k hk
  have hgreatest := isGreatest_boundary hk hn hlast
  rcases hlast with rfl | ⟨frame, hframe, hlt⟩
  · -- nothing is missing
    rw [List.take_length] at hscan
    have hall : s.frames.flatten.take n = s.frames.flatten := by
      rw [boundary, List.take_length] at hn
      exact List.take_of_length_le hn
    exact ⟨_, scan, le_rfl, hgreatest, by rw [hall, hscan], hlists.validLen, hlists.commits,
      hlists.artifacts⟩
  · rw [CutExact, take_flatten hframe hn hlt]
    by_cases hzero : n = boundary s.frames k
    · rw [hzero, Nat.sub_self, List.take_zero, List.append_nil]
      exact ⟨k, scan, hk, hzero ▸ hgreatest, hscan, hlists.validLen, hlists.commits,
        hlists.artifacts⟩
    · -- the cut is inside a frame
      obtain ⟨magic, payload, hseal⟩ := h.framed frame (List.mem_of_getElem? hframe)
      exact ⟨k, _, hk, hgreatest,
        scanFrom_append_torn hscan htail hseal (by omega) (by omega), hlists.validLen,
        hlists.commits, hlists.artifacts⟩

/-- Two bare commits, the second under a newer fence. -/
def twoCommits (first second : UInt64) : List SpoolEvent :=
  [.deliver (bareCommit exampleKey.volume 1 first) (calm exampleConfig exampleKey),
    .deliver (bareCommit exampleKey.volume 2 second) (calm exampleConfig exampleKey)]

instance SpoolLog.decidableEventOk (config : PassiveConfig) (key : ReplicaKey) (s : SpoolLog) :
    ∀ event, Decidable (s.EventOk config key event)
  | .deliver message env => decidableMessageOk config key s.passive env message
  | .restart => .isTrue trivial

omit [Platform] in
set_option maxRecDepth 20000 in
theorem spool_cut_exact_two_commits :
    letI := storedPlatform
    ∃ s, Run.run (SpoolLog.step exampleConfig exampleKey) .empty (twoCommits 5 6) = some s ∧
      s.frames.length = 2 ∧ ∀ n, CutExact s.frames n := by
  have hevaluated : letI := storedPlatform
      Run.Along (SpoolLog.step exampleConfig exampleKey)
        (SpoolLog.EventOk exampleConfig exampleKey) .empty (twoCommits 5 6) ∧
      ((Run.run (SpoolLog.step exampleConfig exampleKey) .empty (twoCommits 5 6)).any fun s =>
        s.frames.length = 2) = true := by
    decide +kernel
  let _ := storedPlatform
  obtain ⟨s, hrun, hframes⟩ := (Option.any_eq_true _ _).mp hevaluated.2
  exact ⟨s, hrun, of_decide_eq_true hframes,
    spool_cut_exact exampleConfig exampleKey (twoCommits 5 6) s hevaluated.1 hrun⟩

omit [Platform] in
set_option maxRecDepth 20000 in
/-- **A spool is not always read exactly.**  The passive accepts a commit under a newer fence that the
scan refuses, and then nothing of the spool can be read. -/
theorem not_spool_cut_exact : ¬ ∀ [Platform] (config : PassiveConfig) (key : ReplicaKey)
    (events : List SpoolEvent) (s : SpoolLog),
    Run.run (SpoolLog.step config key) .empty events = some s → ∀ n, CutExact s.frames n := by
  have hevaluated : letI := storedPlatform
      ((SpoolLog.empty.step exampleConfig exampleKey (.deliver (bareCommit exampleKey.volume 1 5)
        (calm exampleConfig exampleKey))).any fun s =>
          decide (s.passive.replica.bind ReplicaState.committed = some ⟨1, 5, 0⟩) &&
        (sealReplicaCommit exampleKey ⟨2, 4, 0⟩ [] (((bareRecord 2 4).encode 7).getD [])).any
          fun frame => (Run.run (SpoolLog.step exampleConfig exampleKey) s
            ((twoCommits 5 4).drop 1)).any fun t => t.frames = s.frames ++ [frame]) = true := by
    decide +kernel
  intro hall
  let _ := storedPlatform
  obtain ⟨s, hfirst, hchecks⟩ := (Option.any_eq_true _ _).mp hevaluated
  obtain ⟨hknown, hsealed⟩ := Bool.and_eq_true_iff.mp hchecks
  obtain ⟨frame, hseal, hlast⟩ := (Option.any_eq_true _ _).mp hsealed
  obtain ⟨t, hsecond, hframes⟩ := (Option.any_eq_true _ _).mp hlast
  have hlogged : s.Logged exampleKey :=
    SpoolLog.Logged.deliver (.empty exampleKey) (messageOk_first _ _ _ _ _ _) hfirst
  obtain ⟨k, scan, -, -, hscan, -⟩ := hall exampleConfig exampleKey (twoCommits 5 4) t
    (Run.run_cons_of hfirst hsecond) t.frames.flatten.length
  rw [List.take_length, of_decide_eq_true hframes, List.flatten_append, List.flatten_singleton,
    ← hlogged.files, hlogged.inv.scan_behind (of_decide_eq_true hknown) (by decide) (by decide)
      hseal] at hscan
  cases hscan

end Blockd
