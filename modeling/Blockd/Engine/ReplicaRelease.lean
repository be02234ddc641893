import Blockd.Engine.CaptureBatch
import Blockd.Engine.ReplicaRefinement

/-!
# Releasing a spool

`ReplicaInbox::release` deletes the generation files of a spool in their order, the oldest first,
and forgets the replica when all of them are gone.  A passive that stops between two of the deletes
starts again from the files that are left.

What a passive has told its source survives restarts as long as a stop inside a release finds
either all files or none (`release_durable`).  Otherwise it does not (`not_release_durable`): the
files that are left can name artifacts that are gone, the scan refuses them, and the passive starts
with no replica but leaves the files where they are.  The next commit under the same key starts a
new spool at generation zero, in front of the old files, is acknowledged, and is lost at the next
restart.
-/

set_option autoImplicit false

open Codec
open Std (ExtTreeMap)

namespace Blockd

section

variable [Platform]

/-! ## Runs with stops inside a release -/

/-- What happens to a passive, stops inside a release included: `deleted` generations are gone. -/
inductive ReleaseLabel where
  | passive (label : PassiveLabel)
  | crashRelease (through : ReplicaCommitInfo) (env : Surroundings) (deleted : Nat)
  deriving DecidableEq, Repr

def releaseStep (config : PassiveConfig) (key : ReplicaKey) (p : Passive) :
    ReleaseLabel → Option Passive
  | .passive label => passiveStep config key p label
  | .crashRelease through env deleted =>
    match p.react config key env (.release through) with
    | .drop currentGeneration =>
      some (recoverReplicaBlobs key (eraseBelow p.spool (min deleted (currentGeneration + 1))))
    | _ => none

/-- A restart gives back what the passive has told its source, and nothing else. -/
def Durable (key : ReplicaKey) (p : Passive) : Prop :=
  (recoverReplicaBlobs key p.spool).replica.map ReplicaState.view =
    p.replica.map ReplicaState.view

/-- The other events are as the scan expects them. -/
def MessagesOk (config : PassiveConfig) (key : ReplicaKey) (p : Passive) : ReleaseLabel → Prop
  | .passive label => PassiveOk config key p label
  | .crashRelease .. => True

/-- A stop inside a release finds all generation files, or none. -/
def ReleaseOk (config : PassiveConfig) (key : ReplicaKey) (p : Passive) : ReleaseLabel → Prop
  | .passive label => PassiveOk config key p label
  | .crashRelease _ _ deleted =>
    deleted = 0 ∨ ∀ r ∈ p.replica, r.currentGeneration < deleted

variable {config : PassiveConfig} {key : ReplicaKey} {p p' : Passive}

variable {n : Nat} {r : ReplicaState}

theorem PassiveInv.releaseStep {label : ReleaseLabel} (h : PassiveInv key p)
    (hok : ReleaseOk config key p label) (hstep : releaseStep config key p label = some p') :
    PassiveInv key p' := by
  cases label with
  | passive label => exact h.step hok hstep
  | crashRelease through env deleted =>
    rw [Blockd.releaseStep] at hstep
    split at hstep
    · rename_i currentGeneration hreact
      cases hstep
      obtain ⟨-, r, hr, rfl⟩ := react_drop hreact
      rcases hok with rfl | hall
      · exact h.restart
      · have hlt := hall r hr
        rw [Nat.min_eq_right hlt, h.spooled.eraseBelow_eq_empty (by rw [hr]; exact Nat.lt_succ_self _),
          recover_empty]
        exact PassiveInv.empty key
    · cases hstep

/-- **Releases are crash safe** when a stop inside a release finds all generation files or none of
them: along every such run a restart gives back exactly what the passive has told its source. -/
theorem release_durable (config : PassiveConfig) (key : ReplicaKey) (labels : List ReleaseLabel)
    (p : Passive)
    (hok : Run.Along (Blockd.releaseStep config key) (ReleaseOk config key) Passive.empty labels)
    (hrun : Run.run (Blockd.releaseStep config key) Passive.empty labels = some p) :
    Durable key p :=
  (Run.run_invariant (fun _ _ _ h hok hstep => PassiveInv.releaseStep h hok hstep)
    (PassiveInv.empty key) hok hrun).reproduces.2

/-! ## A commit whose artifacts are gone -/

/-- The scan refuses a commit that names an artifact the spool does not hold. -/
theorem scanFrame_missing {scan : ReplicaSpoolScan} {info : ReplicaCommitInfo}
    {required : List ReplicaArtifact} {record frame : Bytes} (h : Agrees key r scan)
    {artifact : ReplicaArtifact} (hmem : artifact ∈ required)
    (hmissing : r.artifacts[artifact]? = none) (hcount : required.length ≤ maxRequiredArtifacts)
    (hseal : sealReplicaCommit key info required record = some frame) :
    scanFrame scan frame = none := by
  have hscan : scan.artifacts[artifact]? = none := by
    have hmap := h.artifacts artifact
    rw [hmissing] at hmap
    exact Option.map_eq_none_iff.mp hmap.symm
  refine scanFrame_refused hcount hseal fun hcomplete => ?_
  have hcontains := hcomplete artifact hmem
  rw [ExtTreeMap.contains_eq_isSome_getElem?, hscan] at hcontains
  cases hcontains

/-- A spool that the scan refuses is left alone. -/
theorem recover_refused {spool : ExtTreeMap Nat Bytes}
    (hscan : scanReplicaSpool (combined spool) = none) :
    recoverReplicaBlobs key spool = ⟨none, spool⟩ := by
  rw [recoverReplicaBlobs]
  split
  · rfl
  · simp only [hscan]

variable (config key) in
/-- A passive that holds the artifact, and whose current file is full, takes such a commit into its
next generation. -/
theorem deliver_requiring (fence seq : UInt64) (artifact : ReplicaArtifact)
    (hr : p.replica = some r) (hepoch : key.assignmentEpoch ≠ 0)
    (hroom : r.bytes + 194 ≤ config.spoolCapacityBytes) (hwritten : r.currentFileBytes ≠ 0)
    (hfull : maxReplicaSpoolGenerationBytes < r.currentFileBytes + 194)
    (hart : r.artifacts.contains artifact = true)
    (hnew : ∀ known ∈ r.committed, known < ⟨fence, seq, 0⟩) :
    ∃ frame, sealReplicaCommit key ⟨fence, seq, 0⟩ [artifact]
        (((bareRecord fence seq).encode key.volume).getD []) = some frame ∧
      p.deliver config key (calm config key) (.commit ⟨fence, seq, 0⟩ [artifact]
          (((bareRecord fence seq).encode key.volume).getD [])) =
        ⟨some ((r.appended (r.currentGeneration + 1) true 194).withCommit ⟨fence, seq, 0⟩ [artifact]
            (((bareRecord fence seq).encode key.volume).getD [])),
          appendFile p.spool (r.currentGeneration + 1) frame⟩ := by
  obtain ⟨frame, hseal, (hlen : frame.length = 194)⟩ :=
    exists_seal_bare key fence seq [artifact] rfl le_rfl
  have hcomplete : [artifact].all (fun a => p.replica.any fun r => r.artifacts.contains a) =
      true := by
    rw [hr]
    simpa using hart
  have hreact := react_requiring config hseal hepoch (by rwa [hr]) hcomplete
  have hplan : p.appendPlan config (calm config key) 194 =
      some (r.currentGeneration + 1, true) := by
    simp only [Passive.appendPlan, hr, calm, Option.map_some, Option.getD_some]
    rw [if_neg (by omega), decide_eq_true (by omega), bne_iff_ne.mpr hwritten]
    rfl
  refine ⟨frame, hseal, ?_⟩
  simp only [Passive.deliver, hreact, Passive.append, hlen, hplan, hr]
  rfl

/-- A calm passive with nothing uncommitted lets go of its spool. -/
theorem react_release {info : ReplicaCommitInfo} (hepoch : key.assignmentEpoch ≠ 0)
    (hr : p.replica = some r) (hcommitted : r.committed = some info)
    (huncommitted : r.uncommittedArtifacts = ∅) :
    p.react config key (calm config key) (.release info) = .drop r.currentGeneration := by
  have hauth := authorized_calm config p hepoch
  simp [Passive.react, Passive.onRelease, hauth, hr, hcommitted, huncommitted]

/-! ## Filling a file -/

omit [Platform] in
theorem commitInfo_lt {fence sync : UInt64} {a b : JournalSeq} (h : a < b) :
    (⟨fence, a, sync⟩ : ReplicaCommitInfo) < ⟨fence, b, sync⟩ := by
  show ReplicaCommitInfo.code _ < ReplicaCommitInfo.code _
  rw [ReplicaCommitInfo.code, ReplicaCommitInfo.code, Prod.Lex.toLex_lt_toLex,
    Prod.Lex.toLex_lt_toLex]
  exact .inr ⟨rfl, .inl (UInt64.lt_iff_toNat_lt.mp h)⟩

omit [Platform] in
theorem syncOrder_le {fence sync : UInt64} {a b : JournalSeq} (h : a < b) :
    ReplicaSpoolScan.syncOrder ⟨fence, a, sync⟩ ≤ ReplicaSpoolScan.syncOrder ⟨fence, b, sync⟩ := by
  rw [ReplicaSpoolScan.syncOrder, ReplicaSpoolScan.syncOrder, Prod.Lex.toLex_le_toLex]
  exact .inr ⟨rfl, (UInt64.lt_iff_toNat_lt.mp h).le⟩

/-- What `n` bare commits make of a replica that had no commit. -/
structure Filled (r : ReplicaState) (n : Nat) (r' : ReplicaState) : Prop where
  artifacts : r'.artifacts = r.artifacts
  uncommitted : r'.uncommittedArtifacts = r.uncommittedArtifacts
  generation : r'.currentGeneration = r.currentGeneration
  bytes : r'.bytes = r.bytes + 177 * n
  file : r'.currentFileBytes = r.currentFileBytes + 177 * n
  committed : ∀ known ∈ r'.committed, known = ⟨1, UInt64.ofNat n, 0⟩

omit [Platform] in
theorem ofNat_lt_succ (hn : n + 1 < 2 ^ 64) : UInt64.ofNat n < UInt64.ofNat (n + 1) := by
  rw [UInt64.lt_iff_toNat_lt, UInt64.toNat_ofNat', UInt64.toNat_ofNat', Nat.mod_eq_of_lt hn,
    Nat.mod_eq_of_lt (by omega)]
  exact Nat.lt_succ_self n

omit [Platform] in
theorem Filled.lt_next {r' : ReplicaState} (h : Filled r n r') (hn : n + 1 < 2 ^ 64) :
    ∀ known ∈ r'.committed, known < (⟨1, UInt64.ofNat (n + 1), 0⟩ : ReplicaCommitInfo) := by
  intro known hknown
  rw [h.committed known hknown]
  exact commitInfo_lt (ofNat_lt_succ hn)

variable (config key) in
/-- Bare commits fill the current file of a passive up to its bound. -/
theorem exists_fill (n : Nat) (hepoch : key.assignmentEpoch ≠ 0) (h : PassiveInv key p)
    (hr : p.replica = some r) (hcommitted : r.committed = none)
    (hroom : r.bytes + 177 * n ≤ config.spoolCapacityBytes) (hn : n < 2 ^ 64)
    (hfile : n ≠ 0 → r.currentFileBytes + 177 * n ≤ maxReplicaSpoolGenerationBytes) :
    ∃ labels p' r', Run.run (Blockd.releaseStep config key) p labels = some p' ∧
      Run.Along (Blockd.releaseStep config key) (MessagesOk config key) p labels ∧ PassiveInv key p' ∧
      p'.replica = some r' ∧ Filled r n r' := by
  induction n with
  | zero =>
    refine ⟨[], p, r, rfl, trivial, h, hr, rfl, rfl, rfl, rfl, rfl, fun known hknown => ?_⟩
    rw [hcommitted] at hknown
    cases hknown
  | succ n ih =>
    have hfits := hfile (Nat.succ_ne_zero n)
    obtain ⟨labels, q, u, hrun, hok, hinv, hu, hfill⟩ :=
      ih (by omega) (by omega) (fun _ => by omega)
    have hbytes := hfill.bytes
    have hcur := hfill.file
    have hget : q.replica.getD ReplicaState.default = u := by rw [hu, Option.getD_some]
    obtain ⟨frame, -, hdeliver⟩ := deliver_bareCommit config key 1 (UInt64.ofNat (n + 1)) hget
      hepoch (by omega) (by omega) (hfill.lt_next hn)
    have hmessage : MessageOk config key q (calm config key)
        (bareCommit key.volume 1 (UInt64.ofNat (n + 1))) := by
      refine fun _ => ⟨by decide, fun known hknown => ?_⟩
      rw [hu, Option.bind_some] at hknown
      rw [hfill.committed known hknown]
      exact syncOrder_le (ofNat_lt_succ hn)
    have hinv' : PassiveInv key (q.deliver config key (calm config key) _) := hinv.deliver hmessage
    rw [hdeliver] at hinv'
    have hlast : Run.Along (Blockd.releaseStep config key) (MessagesOk config key) q [.passive (.deliver
        (bareCommit key.volume 1 (UInt64.ofNat (n + 1))) (calm config key))] :=
      ⟨hmessage, fun _ _ => trivial⟩
    refine ⟨_, _, _, ?_, hok.append hrun hlast, hinv', rfl, hfill.artifacts, ?_,
      hfill.generation, ?_, ?_, ?_⟩
    · rw [Run.run_append, hrun, Option.bind_some, Run.run_cons, Blockd.releaseStep, passiveStep,
        hdeliver]
      rfl
    · show u.uncommittedArtifacts \ ∅ = _
      rw [Finset.sdiff_empty, hfill.uncommitted]
    · show u.bytes + 177 = _
      omega
    · show u.currentFileBytes + 177 = _
      omega
    · rintro known ⟨⟩
      rfl

end

/-! ## The files that are left behind

The spool holds an artifact in generation zero, and its newest commit, which needs that artifact,
is the only frame of generation one. -/

namespace Leftover

attribute [local instance] storedPlatform

def artifact : ReplicaArtifact := .blx 1 0

/-- A BLX file of volume 7 under the artifact's name. -/
def artifactFile : Bytes :=
  (((PageBatchBuilder.newWithChecksums .data 7 1 0 1 0 0).addVmmTombstone 0 0).finish.bind
    fun files => files.head?.map fun file => file.2.1).getD []

set_option maxRecDepth 20000 in
/-- The artifact is put into an empty spool. -/
theorem exists_put : ∃ message p r, Passive.empty.deliver exampleConfig exampleKey
      (calm exampleConfig exampleKey) message = p ∧
    MessageOk exampleConfig exampleKey Passive.empty (calm exampleConfig exampleKey) message ∧
    p.replica = some r ∧
    r.artifacts.contains artifact = true ∧ r.uncommittedArtifacts = {artifact} ∧
    r.committed = none ∧ r.currentGeneration = 0 ∧ r.bytes = r.currentFileBytes ∧
    0 < r.currentFileBytes ∧ r.currentFileBytes ≤ 2 ^ 28 := by
  have hevaluated : ((Passive.empty.deliver exampleConfig exampleKey (calm exampleConfig exampleKey)
      (.put artifact (crc32c artifactFile) artifactFile)).replica.any fun r =>
        r.artifacts.contains artifact = true ∧ r.uncommittedArtifacts = {artifact} ∧
        r.committed = none ∧ r.currentGeneration = 0 ∧ r.bytes = r.currentFileBytes ∧
        0 < r.currentFileBytes ∧ r.currentFileBytes ≤ 2 ^ 28) = true := by
    decide +kernel
  obtain ⟨r, hr, hchecks⟩ := (Option.any_eq_true _ _).mp hevaluated
  exact ⟨.put artifact (crc32c artifactFile) artifactFile, _, r, rfl, trivial, hr,
    of_decide_eq_true hchecks⟩

variable {frame : Bytes}

/-- A file that needs the artifact, and nothing in front of it, cannot be read back. -/
theorem recover_leftover {seq : JournalSeq}
    (hseal : sealReplicaCommit exampleKey ⟨1, seq, 0⟩ [artifact]
      (((bareRecord 1 seq).encode exampleKey.volume).getD []) = some frame) :
    recoverReplicaBlobs exampleKey ((∅ : ExtTreeMap Nat Bytes).insert 1 frame) =
      ⟨none, (∅ : ExtTreeMap Nat Bytes).insert 1 frame⟩ := by
  obtain ⟨scan, hscan, htail, hagree⟩ := (PassiveInv.empty exampleKey).spooled.scan
  have hmissing := scanFrame_missing hagree List.mem_cons_self rfl (by decide) hseal
  have hnone : scanReplicaSpool frame = none := by
    have happend := scanFrom_append_frame hscan htail
      (sealReplicaCommit_eq_some.mp hseal).2.2.2 (.inr rfl)
    rw [hmissing] at happend
    exact happend
  have hcombined : combined ((∅ : ExtTreeMap Nat Bytes).insert 1 frame) = frame :=
    List.append_nil frame
  exact recover_refused (by rw [hcombined, hnone])

/-- A new commit in front of that file is lost at the next restart. -/
theorem not_durable_leftover {seq : JournalSeq}
    (hseal : sealReplicaCommit exampleKey ⟨1, seq, 0⟩ [artifact]
      (((bareRecord 1 seq).encode exampleKey.volume).getD []) = some frame) :
    ¬ Durable exampleKey (Passive.deliver exampleConfig exampleKey
      ⟨none, (∅ : ExtTreeMap Nat Bytes).insert 1 frame⟩ (calm exampleConfig exampleKey)
      (bareCommit exampleKey.volume 1 (seq + 1))) := by
  obtain ⟨frame', hseal', hdeliver⟩ := deliver_bareCommit exampleConfig exampleKey 1 (seq + 1)
    (p := ⟨none, (∅ : ExtTreeMap Nat Bytes).insert 1 frame⟩) (r := ReplicaState.default) rfl
    (by decide) (by decide) (by decide) (by intro k hk; cases hk)
  obtain ⟨frame'', hseal'', hfirst⟩ := deliver_bareCommit exampleConfig exampleKey 1 (seq + 1)
    (p := Passive.empty) (r := ReplicaState.default) rfl
    (by decide) (by decide) (by decide) (by intro k hk; cases hk)
  cases hseal'.symm.trans hseal''
  have hinv : PassiveInv exampleKey (Passive.empty.deliver exampleConfig exampleKey
      (calm exampleConfig exampleKey) (bareCommit exampleKey.volume 1 (seq + 1))) :=
    (PassiveInv.empty exampleKey).deliver (messageOk_first _ _ _ _ _ _)
  rw [hfirst] at hinv
  obtain ⟨scan, hscan, htail, hagree⟩ := hinv.spooled.scan
  have hmissing := scanFrame_missing hagree List.mem_cons_self rfl (by decide) hseal
  have hspool : combined (appendFile (∅ : ExtTreeMap Nat Bytes) 0 frame') = frame' :=
    List.append_nil frame'
  have hnone : scanReplicaSpool (frame' ++ frame) = none := by
    have happend := scanFrom_append_frame hscan htail
      (sealReplicaCommit_eq_some.mp hseal).2.2.2 (.inr rfl)
    rw [hmissing] at happend
    rw [← hspool]
    exact happend
  have hcombined : combined (appendFile ((∅ : ExtTreeMap Nat Bytes).insert 1 frame)
      ReplicaState.default.currentGeneration frame') = frame' ++ frame := by
    show frame' ++ (frame ++ []) = _
    rw [List.append_nil]
  rw [hdeliver, Durable, recover_refused (by rw [hcombined, hnone])]
  rintro ⟨⟩

/-- The release of a spool whose only commit is alone in generation one stops after its first
delete. -/
theorem releaseStep_leftover {q : Passive} {r : ReplicaState} {info : ReplicaCommitInfo}
    (hinv : PassiveInv exampleKey q) (hr : q.replica = some r)
    (hcommitted : r.committed = some info) (huncommitted : r.uncommittedArtifacts = ∅)
    (hgeneration : r.currentGeneration = 1) (hfile : q.spool[1]? = some frame) :
    Blockd.releaseStep exampleConfig exampleKey q
        (.crashRelease info (calm exampleConfig exampleKey) 1) =
      some (recoverReplicaBlobs exampleKey ((∅ : ExtTreeMap Nat Bytes).insert 1 frame)) := by
  have hreact : q.react exampleConfig exampleKey (calm exampleConfig exampleKey) (.release info) =
      .drop 1 := by
    rw [react_release (by decide) hr hcommitted huncommitted, hgeneration]
  have hleft : eraseBelow q.spool 1 = (∅ : ExtTreeMap Nat Bytes).insert 1 frame := by
    refine ExtTreeMap.ext_getElem? fun g => ?_
    rw [getElem?_eraseBelow, ExtTreeMap.getElem?_insert]
    rcases Nat.lt_trichotomy g 1 with hlt | rfl | hgt
    · rw [if_pos hlt, if_neg (by simp; omega), ExtTreeMap.getElem?_empty]
    · rw [if_neg (by decide), hfile]
      rfl
    · rw [if_neg (by omega), if_neg (by simp; omega), ExtTreeMap.getElem?_empty]
      cases hg : q.spool[g]? with
      | none => rfl
      | some file =>
        have hle := hinv.spooled.newest g file hg
        rw [hr, Option.getD_some, hgeneration] at hle
        omega
  simp only [Blockd.releaseStep, hreact]
  rw [show min 1 (1 + 1) = 1 from rfl, hleft]

/-- The spool of which that release is: one artifact, as many bare commits as fit behind it, and the
commit that needs the artifact. -/
theorem exists_two_generations : ∃ labels q r info frame seq,
    Run.run (Blockd.releaseStep exampleConfig exampleKey) Passive.empty labels = some q ∧
    Run.Along (Blockd.releaseStep exampleConfig exampleKey)
      (MessagesOk exampleConfig exampleKey) Passive.empty labels ∧
    PassiveInv exampleKey q ∧ q.replica = some r ∧ r.committed = some info ∧
    r.uncommittedArtifacts = ∅ ∧ r.currentGeneration = 1 ∧ q.spool[1]? = some frame ∧
    sealReplicaCommit exampleKey ⟨1, seq, 0⟩ [artifact]
      (((bareRecord 1 seq).encode exampleKey.volume).getD []) = some frame := by
  obtain ⟨put, p, r, hput, hputOk, hr, hart, hunc, hnone, hgen, hbytes, hpos, hle⟩ := exists_put
  have hinv : PassiveInv exampleKey p := hput ▸ (PassiveInv.empty exampleKey).deliver hputOk
  have hcapacity : exampleConfig.spoolCapacityBytes = 2 ^ 40 := rfl
  have hmax : maxReplicaSpoolGenerationBytes = 2 ^ 26 := rfl
  obtain ⟨n, hn⟩ : ∃ n, n = (2 ^ 26 - r.currentFileBytes) / 177 := ⟨_, rfl⟩
  obtain ⟨labels, q, u, hrun, hok, hinv', hu, hfill⟩ := exists_fill exampleConfig exampleKey n
    (by decide) hinv hr hnone (by omega) (by omega) (fun _ => by omega)
  have hfillBytes := hfill.bytes
  have hfillFile := hfill.file
  obtain ⟨frame, hseal, hdeliver⟩ := deliver_requiring exampleConfig exampleKey 1
    (UInt64.ofNat (n + 1)) artifact hu (by decide) (by omega) (by omega) (by omega)
    (by rw [hfill.artifacts, hart]) (hfill.lt_next (by omega))
  have hmessage : MessageOk exampleConfig exampleKey q (calm exampleConfig exampleKey)
      (.commit ⟨1, UInt64.ofNat (n + 1), 0⟩ [artifact]
        (((bareRecord 1 (UInt64.ofNat (n + 1))).encode exampleKey.volume).getD [])) := by
    refine fun _ => ⟨by decide, fun known hknown => ?_⟩
    rw [hu, Option.bind_some] at hknown
    rw [hfill.committed known hknown]
    exact syncOrder_le (ofNat_lt_succ (by omega))
  have hinv'' : PassiveInv exampleKey (q.deliver exampleConfig exampleKey
    (calm exampleConfig exampleKey) _) := hinv'.deliver hmessage
  rw [hdeliver] at hinv''
  have hfirst : Run.Along (Blockd.releaseStep exampleConfig exampleKey)
      (MessagesOk exampleConfig exampleKey) Passive.empty
      [.passive (.deliver put (calm exampleConfig exampleKey))] := ⟨hputOk, fun _ _ => trivial⟩
  have hlast : Run.Along (Blockd.releaseStep exampleConfig exampleKey)
      (MessagesOk exampleConfig exampleKey) q
      [.passive (.deliver (.commit ⟨1, UInt64.ofNat (n + 1), 0⟩ [artifact]
        (((bareRecord 1 (UInt64.ofNat (n + 1))).encode exampleKey.volume).getD []))
        (calm exampleConfig exampleKey))] := ⟨hmessage, fun _ _ => trivial⟩
  have hput' : Run.run (Blockd.releaseStep exampleConfig exampleKey) Passive.empty
      [.passive (.deliver put (calm exampleConfig exampleKey))] = some p := by
    rw [Run.run_cons, Blockd.releaseStep, passiveStep, hput]
    rfl
  refine ⟨_, _, _, _, frame, UInt64.ofNat (n + 1), ?_,
    hfirst.append hput' (hok.append hrun hlast), hinv'', rfl, rfl, ?_, ?_, ?_, hseal⟩
  · rw [Run.run_append, hput', Option.bind_some, Run.run_append, hrun, Option.bind_some,
      Run.run_cons, Blockd.releaseStep, passiveStep, hdeliver]
    rfl
  · show u.uncommittedArtifacts \ {artifact} = ∅
    rw [hfill.uncommitted, hunc, sdiff_self]
    rfl
  · show u.currentGeneration + 1 = 1
    rw [hfill.generation, hgen]
  · show (appendFile q.spool (u.currentGeneration + 1) frame)[1]? = some frame
    have hnew : q.spool[1]? = none := by
      cases hg : q.spool[1]? with
      | none => rfl
      | some file =>
        have hle := hinv'.spooled.newest 1 file hg
        rw [hu, Option.getD_some, hfill.generation, hgen] at hle
        omega
    rw [hfill.generation, hgen, appendFile, hnew]
    exact ExtTreeMap.getElem?_insert_self

/-- The commit that is lost comes after the restart, so it is one acknowledged since. -/
theorem exists_run_lost : ∃ labels p,
    Run.run (Blockd.releaseStep exampleConfig exampleKey) Passive.empty labels = some p ∧
    Run.Along (Blockd.releaseStep exampleConfig exampleKey)
      (MessagesOk exampleConfig exampleKey) Passive.empty labels ∧
    ¬ Durable exampleKey p := by
  obtain ⟨labels, q, r, info, frame, seq, hrun, hok, hinv, hr, hcommitted, hunc, hgen, hfile,
    hseal⟩ := exists_two_generations
  have hstop := releaseStep_leftover hinv hr hcommitted hunc hgen hfile
  rw [recover_leftover hseal] at hstop
  refine ⟨labels ++ [.crashRelease info (calm exampleConfig exampleKey) 1,
    .passive (.deliver (bareCommit exampleKey.volume 1 (seq + 1))
      (calm exampleConfig exampleKey))], _, ?_, hok.append hrun ?_, not_durable_leftover hseal⟩
  · rw [Run.run_append, hrun, Option.bind_some, Run.run_cons, hstop]
    rfl
  · refine ⟨trivial, fun p hp => ?_⟩
    rw [hstop] at hp
    cases hp
    exact ⟨fun _ => ⟨by decide, fun known hknown => by cases hknown⟩, fun _ _ => trivial⟩

instance decidableReleaseOk (config : PassiveConfig) (key : ReplicaKey) (p : Passive) :
    ∀ label, Decidable (ReleaseOk config key p label)
  | .passive label => decidablePassiveOk config key p label
  | .crashRelease .. => inferInstanceAs (Decidable (_ ∨ _))

def oneFile : List ReleaseLabel :=
  [.passive (.deliver (bareCommit exampleKey.volume 1 5) (calm exampleConfig exampleKey)),
    .crashRelease ⟨1, 5, 0⟩ (calm exampleConfig exampleKey) 1,
    .passive (.deliver (bareCommit exampleKey.volume 1 6) (calm exampleConfig exampleKey))]

set_option maxRecDepth 20000 in
/-- A release of a one-file spool that stops after its delete, and a commit after the restart. -/
theorem release_durable_one_file : ∃ p,
    Run.run (Blockd.releaseStep exampleConfig exampleKey) Passive.empty oneFile = some p ∧
      p.replica.bind ReplicaState.committed = some ⟨1, 6, 0⟩ ∧ Durable exampleKey p := by
  have hevaluated :
      Run.Along (Blockd.releaseStep exampleConfig exampleKey)
        (ReleaseOk exampleConfig exampleKey) Passive.empty oneFile ∧
      ((Run.run (Blockd.releaseStep exampleConfig exampleKey) Passive.empty oneFile).any fun p =>
        p.replica.bind ReplicaState.committed = some ⟨1, 6, 0⟩) = true := by
    decide +kernel
  obtain ⟨p, hrun, hcommitted⟩ := (Option.any_eq_true _ _).mp hevaluated.2
  exact ⟨p, hrun, of_decide_eq_true hcommitted,
    release_durable exampleConfig exampleKey oneFile p hevaluated.1 hrun⟩

end Leftover

/-- **Releases are not crash safe**: a passive that stops between the two deletes of a release
acknowledges a later commit and loses it. -/
theorem not_release_durable : ¬ ∀ [Platform] (config : PassiveConfig) (key : ReplicaKey)
    (labels : List ReleaseLabel) (p : Passive),
    Run.Along (Blockd.releaseStep config key) (MessagesOk config key) Passive.empty labels →
    Run.run (Blockd.releaseStep config key) Passive.empty labels = some p → Durable key p := by
  intro h
  obtain ⟨labels, p, hrun, hok, hlost⟩ := Leftover.exists_run_lost
  exact hlost (@h storedPlatform exampleConfig exampleKey labels p hok hrun)

end Blockd
