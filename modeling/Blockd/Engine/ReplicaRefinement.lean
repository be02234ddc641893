import Blockd.Engine.Replica

/-!
# The spool refines the memory of a passive

The invariant behind `Reproduces`: the files scan to the end (`Spooled`), and what they scan to
agrees with the state in memory (`Agrees`).  Every message a passive accepts keeps it
(`PassiveInv.deliver`), and so does a restart, also one that cuts an append short
(`PassiveInv.crash`).
-/

set_option autoImplicit false

open Codec
open Std (ExtTreeMap)

namespace Blockd

/-! ## Files -/

theorem getElem?_appendFile (spool : ExtTreeMap Nat Bytes) (n g : Nat) (bytes : Bytes) :
    (appendFile spool n bytes)[g]? =
      if n = g then some ((spool[n]?).getD [] ++ bytes) else spool[g]? :=
  Maps.getElem?_insert ..

variable {spool : ExtTreeMap Nat Bytes} {key : ReplicaKey} {r : ReplicaState} {p : Passive}

variable {n : Nat}

/-- The newest file comes last. -/
theorem combined_eq_of_max {file : Bytes} (hn : spool[n]? = some file)
    (h : ∀ g f, spool[g]? = some f → g ≤ n) :
    combined spool = combined (spool.erase n) ++ file := by
  rw [combined, Maps.toList_eq_of_max hn h, List.map_append, List.flatten_append, ← combined]
  simp

theorem erase_insert_eq (spool : ExtTreeMap Nat Bytes) (n : Nat) (file : Bytes) :
    (spool.insert n file).erase n = spool.erase n := by
  refine ExtTreeMap.ext_getElem? fun g => ?_
  rw [Maps.getElem?_erase, Maps.getElem?_erase, Maps.getElem?_insert]
  split <;> rfl

theorem combined_insert (file : Bytes) (h : ∀ g f, spool[g]? = some f → g ≤ n) :
    combined (spool.insert n file) = combined (spool.erase n) ++ file := by
  have hn : (spool.insert n file)[n]? = some file := by rw [Maps.getElem?_insert, if_pos rfl]
  rw [combined_eq_of_max hn, erase_insert_eq]
  intro g f hg
  rw [Maps.getElem?_insert] at hg
  split at hg
  · omega
  · exact h g f hg

/-- **Appending to the newest file appends to the spool.** -/
theorem combined_appendFile (bytes : Bytes) (h : ∀ g f, spool[g]? = some f → g ≤ n) :
    combined (appendFile spool n bytes) = combined spool ++ bytes := by
  rw [appendFile, combined_insert _ h]
  cases hn : spool[n]? with
  | none =>
    have hsame : spool.erase n = spool := by
      refine ExtTreeMap.ext_getElem? fun g => ?_
      rw [Maps.getElem?_erase]
      split
      · rename_i heq
        rw [← heq, hn]
      · rfl
    rw [hsame, Option.getD_none, List.nil_append]
  | some file => rw [combined_eq_of_max hn h, Option.getD_some, List.append_assoc]

theorem getElem?_eraseBelow (spool : ExtTreeMap Nat Bytes) (count g : Nat) :
    (eraseBelow spool count)[g]? = if g < count then none else spool[g]? := by
  induction count with
  | zero => rw [eraseBelow, if_neg (Nat.not_lt_zero g)]
  | succ count ih =>
    rw [eraseBelow, Maps.getElem?_erase, ih]
    by_cases heq : count = g
    · rw [if_pos heq, if_pos (by omega)]
    · rw [if_neg heq]
      by_cases hlt : g < count
      · rw [if_pos hlt, if_pos (by omega)]
      · rw [if_neg hlt, if_neg (by omega)]

theorem boundaries_append (l : List (Nat × Bytes)) (generation start : Nat) (file : Bytes) :
    boundaries (l ++ [(generation, file)]) start = boundaries l start ++
      [(generation, start + (l.map Prod.snd).flatten.length, file.length)] := by
  induction l generalizing start with
  | nil => simp [boundaries]
  | cons e l ih =>
    obtain ⟨g, f⟩ := e
    simp [boundaries, ih, Nat.add_assoc]

theorem boundaries_le (l : List (Nat × Bytes)) (start : Nat) :
    ∀ b ∈ boundaries l start, b.2.1 + b.2.2 ≤ start + (l.map Prod.snd).flatten.length := by
  induction l generalizing start with
  | nil => simp [boundaries]
  | cons e l ih =>
    obtain ⟨g, f⟩ := e
    intro b hb
    simp only [List.map_cons, List.flatten_cons, List.length_append]
    rcases List.mem_cons.mp hb with rfl | hb
    · show start + f.length ≤ _
      omega
    · have := ih (start + f.length) b hb
      omega

/-! ## The invariant -/

/-- A scan and a state in memory describe the same spool of `key`. -/
structure Agrees (key : ReplicaKey) (r : ReplicaState) (scan : ReplicaSpoolScan) : Prop where
  artifacts : ∀ a : ReplicaArtifact, r.artifacts[a]? =
    (scan.artifacts[a]?).map fun f : ReplicaArtifactFrame => (f.checksum, f.bytes)
  owners : ∀ (a : ReplicaArtifact) (f : ReplicaArtifactFrame), scan.artifacts[a]? = some f →
    f.owner = key
  identity : ∀ k ∈ scan.identity, k = key
  committed : r.committed = scan.commits.getLast?.map ReplicaCommitFrame.info
  record : r.committedRecord = scan.commits.getLast?.map ReplicaCommitFrame.record
  commitOwner : ∀ c ∈ scan.commits.getLast?, c.owner = key
  bytes : r.bytes = scan.validLen

/-- A scan that names no other owner agrees with the state made of it. -/
theorem agrees_ofScan {scan : ReplicaSpoolScan} (h : Agrees key r scan)
    (generation fileBytes : Nat) :
    Agrees key (ReplicaState.ofScan key scan generation fileBytes) scan := by
  have hcut : (scan.commits.getLast?.filter fun commit => commit.owner == key) =
      scan.commits.getLast? := by
    cases hc : scan.commits.getLast? with
    | none => rfl
    | some c => rw [Option.filter_some, if_pos (beq_iff_eq.mpr (h.commitOwner c hc))]
  refine ⟨fun a => ?_, h.owners, h.identity, ?_, ?_, h.commitOwner, rfl⟩
  · simp only [ReplicaState.ofScan, ExtTreeMap.getElem?_filterMap']
    cases ha : scan.artifacts[a]? with
    | none => rfl
    | some f => simp [h.owners a f ha]
  · simp only [ReplicaState.ofScan, hcut]
  · simp only [ReplicaState.ofScan, hcut]

/-- States that agree with the same scan show the same view, but for the generation. -/
theorem view_eq_of_agrees {r' : ReplicaState} {scan : ReplicaSpoolScan} (h : Agrees key r scan)
    (h' : Agrees key r' scan) (hgen : r.currentGeneration = r'.currentGeneration) :
    r.view = r'.view := by
  have hart : r.artifacts = r'.artifacts :=
    ExtTreeMap.ext_getElem? fun a => (h.artifacts a).trans (h'.artifacts a).symm
  rw [ReplicaState.view, ReplicaState.view, hart, h.committed, h'.committed, h.record, h'.record,
    h.bytes, h'.bytes, hgen]

variable [Platform]

/-- The files of a spool, with the state in memory that belongs to them. -/
structure Spooled (key : ReplicaKey) (r : ReplicaState) (spool : ExtTreeMap Nat Bytes) :
    Prop where
  scan : ∃ scan, scanReplicaSpool (combined spool) = some scan ∧ scan.truncatedTail = false ∧
    Agrees key r scan
  newest : ∀ (g : Nat) (f : Bytes), spool[g]? = some f → g ≤ r.currentGeneration
  current : ((spool[r.currentGeneration]?).getD []).length = r.currentFileBytes
  bytes : r.bytes = (combined spool).length

/-- A passive with no state has no files; one with a state has the file it writes to. -/
structure PassiveInv (key : ReplicaKey) (p : Passive) : Prop where
  spooled : Spooled key (p.replica.getD ReplicaState.default) p.spool
  absent : p.replica = none → p.spool = ∅
  present : ∀ r ∈ p.replica, (p.spool[r.currentGeneration]?).isSome

/-- Deleting every generation up to the current one leaves nothing. -/
theorem Spooled.eraseBelow_eq_empty {key : ReplicaKey} {r : ReplicaState}
    {spool : ExtTreeMap Nat Bytes} (h : Spooled key r spool) {n : Nat}
    (hn : r.currentGeneration < n) : eraseBelow spool n = ∅ := by
  refine ExtTreeMap.ext_getElem? fun g => ?_
  rw [getElem?_eraseBelow, ExtTreeMap.getElem?_empty]
  split
  · rfl
  · rename_i hge
    cases hg : spool[g]? with
    | none => rfl
    | some file =>
      have hle := h.newest g file hg
      omega

/-- **Recovery of a spool that scans to its end.** -/
theorem recover_spooled (h : Spooled key r spool) (hcur : (spool[r.currentGeneration]?).isSome) :
    ∃ r', recoverReplicaBlobs key spool = ⟨some r', spool⟩ ∧ Spooled key r' spool ∧
      r'.view = r.view := by
  obtain ⟨scan, hscan, htail, hagree⟩ := h.scan
  obtain ⟨file, hfile⟩ := Option.isSome_iff_exists.mp hcur
  have hlast : spool.toList.getLast? = some (r.currentGeneration, file) := by
    rw [Maps.toList_eq_of_max hfile h.newest, List.getLast?_concat]
  have hlen : file.length = r.currentFileBytes := by
    have := h.current
    rwa [hfile, Option.getD_some] at this
  have hagree' := agrees_ofScan hagree r.currentGeneration file.length
  refine ⟨ReplicaState.ofScan key scan r.currentGeneration file.length, ?_, ?_, ?_⟩
  · simp only [recoverReplicaBlobs, hlast, hscan, htail, Bool.false_eq_true, if_false]
  · refine ⟨⟨scan, hscan, htail, hagree'⟩, h.newest, ?_, ?_⟩
    · show ((spool[r.currentGeneration]?).getD []).length = file.length
      rw [hfile, Option.getD_some]
    · rw [hagree'.bytes, ← hagree.bytes, h.bytes]
  · exact view_eq_of_agrees hagree' hagree rfl

theorem recover_empty (key : ReplicaKey) : recoverReplicaBlobs key ∅ = ⟨none, ∅⟩ := rfl

/-- The invariant gives the property. -/
theorem PassiveInv.reproduces (h : PassiveInv key p) : Reproduces key p := by
  obtain ⟨scan, hscan, htail, -⟩ := h.spooled.scan
  refine ⟨⟨scan, hscan, htail⟩, ?_⟩
  cases hr : p.replica with
  | none => rw [h.absent hr, recover_empty]
  | some r =>
    have hs := h.spooled
    rw [hr, Option.getD_some] at hs
    obtain ⟨r', hrec, -, hview⟩ := recover_spooled hs (h.present r hr)
    rw [hrec, Option.map_some, Option.map_some, hview]

/-! ## Taking one more frame -/

section Frames

variable {key : ReplicaKey} {r r' : ReplicaState} {scan : ReplicaSpoolScan}

variable {frame : Bytes}

section Put

variable {artifact : ReplicaArtifact} {checksum : UInt32} {bytes : Bytes} (h : Agrees key r scan)
  (hnew : r.artifacts[artifact]? = none) (hcrc : crc32c bytes = checksum)
  (hseal : sealVerifiedReplicaArtifact key artifact checksum bytes = some frame)
include h hnew hcrc hseal

/-- The round of the scan on the frame of a new artifact. -/
theorem Agrees.scanFrame_put :
    scan.artifacts[artifact]? = none ∧
      scanFrame scan frame = some
        { scan with
          identity := some key
          uncommittedArtifacts := insert artifact scan.uncommittedArtifacts
          artifacts := scan.artifacts.insert artifact ⟨key, artifact, checksum, bytes⟩
          validLen := scan.validLen + frame.length } := by
  have hnone : scan.artifacts[artifact]? = none := by
    have := h.artifacts artifact
    rw [hnew] at this
    exact Option.map_eq_none_iff.mp this.symm
  exact ⟨hnone, scanFrame_artifact (spoolFrame_artifact hseal) (openArtifact_seal hcrc hseal)
    h.identity hnone⟩

/-- **The scan takes the frame of a new artifact.** -/
theorem Agrees.put
    (hart : r'.artifacts = r.artifacts.insert artifact (checksum, bytes))
    (hcommit : r'.committed = r.committed) (hrecord : r'.committedRecord = r.committedRecord)
    (hbytes : r'.bytes = r.bytes + frame.length) :
    ∃ scan', scanFrame scan frame = some scan' ∧ scan'.truncatedTail = scan.truncatedTail ∧
      Agrees key r' scan' := by
  refine ⟨_, (h.scanFrame_put hnew hcrc hseal).2, rfl, ?_⟩
  refine ⟨fun a => ?_, fun a f hf => ?_, ?_, ?_, ?_, h.commitOwner, ?_⟩
  · rw [hart, Maps.getElem?_insert, Maps.getElem?_insert, h.artifacts a]
    split <;> rfl
  · rw [Maps.getElem?_insert] at hf
    split at hf
    · rw [← Option.some.inj hf]
    · exact h.owners a f hf
  · intro k hk
    exact (Option.some.inj hk).symm
  · rw [hcommit, h.committed]
  · rw [hrecord, h.record]
  · rw [hbytes, h.bytes]

end Put

variable {info : ReplicaCommitInfo} {required : List ReplicaArtifact}

section Commit

variable {record : Bytes} (h : Agrees key r scan)
  (hcomplete : ∀ a ∈ required, r.artifacts.contains a = true)
  (hcount : required.length ≤ maxRequiredArtifacts) (hlater : ∀ known ∈ r.committed, known < info)
  (horder : ∀ known ∈ r.committed,
    ReplicaSpoolScan.syncOrder known ≤ ReplicaSpoolScan.syncOrder info)
  (hseal : sealReplicaCommit key info required record = some frame)
include h hcomplete hcount hlater horder hseal

/-- The round of the scan on the frame of a commit that does not fall behind the one before it. -/
theorem Agrees.scanFrame_commit : scanFrame scan frame = some
      { scan with
        identity := some key
        uncommittedArtifacts := scan.uncommittedArtifacts \ required.toFinset
        commits := scan.commits ++ [⟨key, info, required, record⟩]
        validLen := scan.validLen + frame.length } := by
  have hlast : ∀ c ∈ scan.commits.getLast?, c.info ∈ r.committed := by
    intro c hc
    rw [h.committed, Option.mem_def.mp hc]
    rfl
  have hreq : ∀ a ∈ required, scan.artifacts.contains a = true := by
    intro a ha
    have hmem := hcomplete a ha
    rw [ExtTreeMap.contains_eq_isSome_getElem?] at hmem ⊢
    rw [h.artifacts a, Option.isSome_map] at hmem
    exact hmem
  have hnew : scan.commits.getLast? ≠ some ⟨key, info, required, record⟩ := by
    intro heq
    exact lt_irrefl info (hlater info (hlast _ heq))
  exact Blockd.scanFrame_commit (spoolFrame_commit hseal) (openCommit_seal hcount hseal)
    h.identity hreq (fun c hc => horder c.info (hlast c hc)) hnew

/-- **The scan takes the frame of a commit** that does not fall behind the one before it. -/
theorem Agrees.commit
    (hart : r'.artifacts = r.artifacts) (hcommit : r'.committed = some info)
    (hrecord : r'.committedRecord = some record) (hbytes : r'.bytes = r.bytes + frame.length) :
    ∃ scan', scanFrame scan frame = some scan' ∧ scan'.truncatedTail = scan.truncatedTail ∧
      Agrees key r' scan' := by
  refine ⟨_, h.scanFrame_commit hcomplete hcount hlater horder hseal, rfl, ?_⟩
  refine ⟨fun a => ?_, h.owners, ?_, ?_, ?_, ?_, ?_⟩
  · rw [hart, h.artifacts a]
  · intro k hk
    exact (Option.some.inj hk).symm
  · rw [hcommit, List.getLast?_concat]
    rfl
  · rw [hrecord, List.getLast?_concat]
    rfl
  · intro c hc
    rw [List.getLast?_concat] at hc
    rw [← Option.some.inj hc]
  · rw [hbytes, h.bytes]

end Commit

/-- A commit whose round fails: the scan asks for its artifacts and for the order of the commits. -/
theorem scanFrame_refused {record : Bytes} (hcount : required.length ≤ maxRequiredArtifacts)
    (hseal : sealReplicaCommit key info required record = some frame)
    (hno : (∀ a ∈ required, scan.artifacts.contains a = true) → ¬ ∀ c ∈ scan.commits.getLast?,
      ReplicaSpoolScan.syncOrder c.info ≤ ReplicaSpoolScan.syncOrder info) :
    scanFrame scan frame = none := by
  have hrefused : scan.commitFrame ⟨key, info, required, record⟩ = none := by
    rw [Option.eq_none_iff_forall_ne_some]
    intro s hs
    simp only [ReplicaSpoolScan.commitFrame, ReplicaSpoolScan.checkIdentity, Option.bind_eq_bind,
      Option.bind_eq_some_iff, ensure_eq_some, pure_eq_some] at hs
    obtain ⟨_, ⟨-, -, rfl⟩, -, hcomplete, -, horder, -⟩ := hs
    exact hno hcomplete horder
  simp only [scanFrame, spoolFrame_commit hseal, openCommit_seal hcount hseal, hrefused,
    Option.bind_eq_bind, Option.bind_some, Option.bind_none]

/-- A commit that falls behind the one before it in the order of the scan is refused. -/
theorem scanFrame_behind {known : ReplicaCommitInfo} {record : Bytes} (h : Agrees key r scan)
    (hknown : known ∈ r.committed)
    (hbehind : ReplicaSpoolScan.syncOrder info < ReplicaSpoolScan.syncOrder known)
    (hcount : required.length ≤ maxRequiredArtifacts)
    (hseal : sealReplicaCommit key info required record = some frame) :
    scanFrame scan frame = none := by
  obtain ⟨last, hlast, rfl⟩ : ∃ last, scan.commits.getLast? = some last ∧ last.info = known := by
    have hcommitted := h.committed
    rw [Option.mem_def.mp hknown] at hcommitted
    exact Option.map_eq_some_iff.mp hcommitted.symm
  exact scanFrame_refused hcount hseal fun _ horder => (horder last hlast).not_gt hbehind

end Frames

/-! ## What a message appends -/

/-- What an append has to satisfy: the frame is whole, the scan takes it, and the update of the
memory leaves the accounting of the files alone. -/
structure AppendSpec (key : ReplicaKey) (r : ReplicaState) (frame : Bytes)
    (update : ReplicaState → ReplicaState) : Prop where
  framed : ∃ magic payload, sealFrame magic payload = some frame ∧
    (magic = magicReplicaArtifact ∨ magic = magicReplicaCommit)
  scans : ∀ (generation : Nat) (rotated : Bool) (scan : ReplicaSpoolScan), Agrees key r scan →
    ∃ scan', scanFrame scan frame = some scan' ∧ scan'.truncatedTail = scan.truncatedTail ∧
      Agrees key (update (r.appended generation rotated frame.length)) scan'
  files : ∀ r : ReplicaState, (update r).currentGeneration = r.currentGeneration ∧
    (update r).currentFileBytes = r.currentFileBytes ∧ (update r).bytes = r.bytes

/-- What a message makes a passive append: the frame of an artifact it does not have, or of a commit
that is complete and newer than its newest one. -/
inductive Appends (key : ReplicaKey) (r : ReplicaState) :
    ReplicaMessage → Bytes → (ReplicaState → ReplicaState) → Prop
  | put {artifact : ReplicaArtifact} {checksum : UInt32} {bytes frame : Bytes}
      (hnew : r.artifacts[artifact]? = none) (hcrc : crc32c bytes = checksum)
      (hseal : sealVerifiedReplicaArtifact key artifact checksum bytes = some frame) :
      Appends key r (.put artifact checksum bytes) frame
        fun r => r.withArtifact artifact checksum bytes
  | commit {info : ReplicaCommitInfo} {required : List ReplicaArtifact} {record frame : Bytes}
      (hcomplete : ∀ a ∈ required, r.artifacts.contains a = true)
      (hlater : ∀ known ∈ r.committed, known < info)
      (hseal : sealReplicaCommit key info required record = some frame) :
      Appends key r (.commit info required record) frame
        fun r => r.withCommit info required record

section React

variable {config : PassiveConfig} {key : ReplicaKey} {p : Passive} {env : Surroundings}
  {frame : Bytes} {update : ReplicaState → ReplicaState}

omit [Platform] in
theorem committed_getD (p : Passive) :
    (p.replica.getD ReplicaState.default).committed = p.replica.bind ReplicaState.committed := by
  cases p.replica <;> rfl

variable (key p) in
/-- What a message can make a passive do.  Only a put touches an artifact, and only a release drops
the spool. -/
inductive Reacts : ReplicaMessage → Reaction → Prop
  | answer {message : ReplicaMessage} : Reacts message .answer
  | touch {artifact : ReplicaArtifact} {checksum : UInt32} {bytes : Bytes} :
      Reacts (.put artifact checksum bytes) (.touch artifact)
  | append {message : ReplicaMessage} {frame : Bytes} {update : ReplicaState → ReplicaState}
      (happends : Appends key (p.replica.getD ReplicaState.default) message frame update) :
      Reacts message (.append frame update)
  | drop {through committed : ReplicaCommitInfo} {r : ReplicaState} (hr : p.replica = some r)
      (hcommitted : r.committed = some committed) (hle : committed ≤ through)
      (huncommitted : r.uncommittedArtifacts = ∅) :
      Reacts (.release through) (.drop r.currentGeneration)

variable (config key p env) in
theorem Passive.reacts (message : ReplicaMessage) :
    Reacts key p message (p.react config key env message) := by
  cases message with
  | put artifact checksum bytes =>
    simp only [Passive.react, Passive.onPut]
    split
    · exact .answer
    · rename_i hauth
      rw [not_or, not_not] at hauth
      split
      · exact .answer
      · rename_i frame hseal
        split
        · split
          · exact .touch
          · exact .answer
        · rename_i hnone
          refine .append (.put ?_ hauth.2 hseal)
          cases hr : p.replica with
          | none => simp [ReplicaState.default]
          | some r => rwa [hr, Option.bind_some] at hnone
  | commit info required record =>
    simp only [Passive.react, Passive.onCommit]
    split
    · exact .answer
    · split
      · exact .answer
      · rename_i frame hseal
        split
        · exact .answer
        · rename_i hcomplete
          split
          · exact .answer
          · rename_i hlater
            refine .append (.commit (fun a ha => ?_) (fun known hknown => ?_) hseal)
            · rw [Bool.not_eq_false, List.all_eq_true] at hcomplete
              have hmem := hcomplete a ha
              cases hr : p.replica with
              | none => simp [hr] at hmem
              | some r => simpa [hr] using hmem
            · rw [committed_getD] at hknown
              rw [Option.mem_def.mp hknown, Option.any_some, decide_eq_true_eq] at hlater
              exact lt_of_not_ge hlater
  | release through =>
    simp only [Passive.react, Passive.onRelease]
    split
    · exact .answer
    · split
      · exact .answer
      · rename_i r hr
        split
        · rename_i hdrop
          rw [Bool.and_eq_true, Option.any_eq_true, decide_eq_true_eq] at hdrop
          obtain ⟨⟨committed, hcommitted, hle⟩, huncommitted⟩ := hdrop
          exact .drop hr hcommitted (of_decide_eq_true hle) huncommitted
        · exact .answer

variable {message : ReplicaMessage}

theorem react_appends (h : p.react config key env message = .append frame update) :
    Appends key (p.replica.getD ReplicaState.default) message frame update := by
  cases h ▸ p.reacts config key env message with
  | append happends => exact happends

theorem MessageOk.readable (hok : MessageOk config key p env message)
    (h : p.react config key env message = .append frame update)
    (hplan : (p.appendPlan config env frame.length).isSome) (hreserved : env.reserved = true) :
    p.Readable message := by
  cases message with
  | put | release => trivial
  | commit => exact hok (by simp only [Passive.accepts, h, hplan, hreserved, Bool.and_self])

/-- **Whatever an accepted message appends, the scan takes.** -/
theorem Appends.spec (h : Appends key (p.replica.getD ReplicaState.default) message frame update)
    (hok : p.Readable message) :
    AppendSpec key (p.replica.getD ReplicaState.default) frame update := by
  cases h with
  | put hnew hcrc hseal =>
    refine ⟨?_, fun generation rotated scan hagree => ?_, fun r => ⟨rfl, rfl, rfl⟩⟩
    · exact ⟨_, _, (sealVerifiedReplicaArtifact_eq_some.mp hseal).2.2, .inl rfl⟩
    · exact hagree.put hnew hcrc hseal rfl rfl rfl rfl
  | commit hcomplete hlater hseal =>
    refine ⟨?_, fun generation rotated scan hagree => ?_, fun r => ⟨rfl, rfl, rfl⟩⟩
    · exact ⟨_, _, (sealReplicaCommit_eq_some.mp hseal).2.2.2, .inr rfl⟩
    · refine hagree.commit hcomplete hok.1 hlater (fun known hknown => ?_) hseal rfl rfl rfl rfl
      exact hok.2 known (committed_getD p ▸ hknown)

/-- Only a release drops a spool, and it drops all of its generations. -/
theorem react_drop {currentGeneration : Nat}
    (h : p.react config key env message = .drop currentGeneration) :
    (∃ through, message = .release through) ∧
      ∃ r, p.replica = some r ∧ r.currentGeneration = currentGeneration := by
  cases h ▸ p.reacts config key env message with
  | drop hr => exact ⟨⟨_, rfl⟩, _, hr, rfl⟩

end React

/-! ## Steps -/

section Steps

variable {config : PassiveConfig} {key : ReplicaKey} {p : Passive} {env : Surroundings}
  {r : ReplicaState} {spool : ExtTreeMap Nat Bytes}

variable {generation : Nat} {rotated : Bool}

omit [Platform] in
/-- An append goes to the newest file, or starts the next one. -/
theorem appendPlan_generation {additional : Nat}
    (h : p.appendPlan config env additional = some (generation, rotated)) :
    generation = if rotated then (p.replica.getD ReplicaState.default).currentGeneration + 1
      else (p.replica.getD ReplicaState.default).currentGeneration := by
  have hgen : (p.replica.map ReplicaState.currentGeneration).getD 0 =
      (p.replica.getD ReplicaState.default).currentGeneration := by
    cases p.replica <;> rfl
  simp only [Passive.appendPlan, hgen] at h
  split at h
  · cases h
  · rw [Option.some.injEq, Prod.mk.injEq] at h
    obtain ⟨hg, hrot⟩ := h
    rw [hrot] at hg
    exact hg.symm

omit [Platform] in
theorem newest_of_plan
    (hnew : ∀ (g : Nat) (f : Bytes), spool[g]? = some f → g ≤ r.currentGeneration)
    (hgen : generation = if rotated then r.currentGeneration + 1 else r.currentGeneration) :
    ∀ (g : Nat) (f : Bytes), spool[g]? = some f → g ≤ generation := by
  intro g f hg
  have := hnew g f hg
  rw [hgen]
  split <;> omega

/-- The accounting of the files follows an append. -/
theorem Spooled.files_append (h : Spooled key r spool)
    (hgen : generation = if rotated then r.currentGeneration + 1 else r.currentGeneration)
    (bytes : Bytes) : (r.appended generation rotated bytes.length).currentGeneration = generation ∧
    (∀ (g : Nat) (f : Bytes), (appendFile spool generation bytes)[g]? = some f →
      g ≤ generation) ∧
    (((appendFile spool generation bytes)[generation]?).getD []).length =
      (r.appended generation rotated bytes.length).currentFileBytes ∧
    (r.appended generation rotated bytes.length).bytes =
      (combined (appendFile spool generation bytes)).length := by
  have hnew := newest_of_plan h.newest hgen
  refine ⟨?_, fun g f hg => ?_, ?_, ?_⟩
  · show (if rotated then generation else r.currentGeneration) = generation
    rw [hgen]
    split <;> rfl
  · rw [getElem?_appendFile] at hg
    split at hg
    · omega
    · exact hnew g f hg
  · rw [getElem?_appendFile, if_pos rfl, Option.getD_some, List.length_append]
    show _ = (if rotated then 0 else r.currentFileBytes) + bytes.length
    cases rotated with
    | true =>
      -- a new generation: no file has that number yet
      rw [if_pos rfl] at hgen ⊢
      have hnone : spool[generation]? = none := by
        cases hg : spool[generation]? with
        | none => rfl
        | some f =>
          have := h.newest generation f hg
          omega
      rw [hnone]
      rfl
    | false =>
      rw [if_neg Bool.false_ne_true] at hgen ⊢
      rw [hgen, h.current]
  · rw [combined_appendFile bytes hnew, List.length_append, ← h.bytes]
    rfl

variable {frame : Bytes} {update : ReplicaState → ReplicaState}

/-- **One more frame in the spool.** -/
theorem Spooled.append (h : Spooled key r spool) (hspec : AppendSpec key r frame update)
    (hgen : generation = if rotated then r.currentGeneration + 1 else r.currentGeneration) :
    Spooled key (update (r.appended generation rotated frame.length))
      (appendFile spool generation frame) := by
  obtain ⟨scan, hscan, htail, hagree⟩ := h.scan
  obtain ⟨magic, payload, hseal, hknown⟩ := hspec.framed
  obtain ⟨scan', htake, htail', hagree'⟩ := hspec.scans generation rotated scan hagree
  obtain ⟨hcur, hfile, hbytes⟩ := hspec.files (r.appended generation rotated frame.length)
  obtain ⟨hcurgen, hnew, hlen, htotal⟩ := h.files_append hgen frame
  refine ⟨⟨scan', ?_, htail'.trans htail, hagree'⟩, ?_, ?_, ?_⟩
  · rw [combined_appendFile frame (newest_of_plan h.newest hgen), ← htake]
    exact scanFrom_append_frame hscan htail hseal hknown
  · rw [hcur, hcurgen]
    exact hnew
  · rw [hcur, hcurgen, hfile, hlen]
  · rw [hbytes, htotal]

/-- A file that was created and never written to. -/
theorem Spooled.create (h : Spooled key r spool)
    (hgen : generation = if rotated then r.currentGeneration + 1 else r.currentGeneration) :
    Spooled key (r.appended generation rotated 0) (appendFile spool generation []) := by
  obtain ⟨scan, hscan, htail, hagree⟩ := h.scan
  obtain ⟨hcurgen, hnew, hlen, htotal⟩ := h.files_append hgen []
  refine ⟨⟨scan, ?_, htail, ?_⟩, ?_, ?_, htotal⟩
  · rw [combined_appendFile [] (newest_of_plan h.newest hgen), List.append_nil, hscan]
  · exact ⟨hagree.artifacts, hagree.owners, hagree.identity, hagree.committed, hagree.record,
      hagree.commitOwner, hagree.bytes⟩
  · exact fun g f hg => (hnew g f hg).trans hcurgen.ge
  · exact (congrArg (fun g => (((appendFile spool generation [])[g]?).getD []).length)
      hcurgen).trans hlen

/-- Restarting from a spool that scans to its end keeps the invariant. -/
theorem PassiveInv.of_recover (h : Spooled key r spool)
    (hcur : (spool[r.currentGeneration]?).isSome) :
    PassiveInv key (recoverReplicaBlobs key spool) := by
  obtain ⟨r', hrec, hs, hview⟩ := recover_spooled h hcur
  have hgen : r'.currentGeneration = r.currentGeneration := congrArg (fun v => v.2.2.2.2) hview
  rw [hrec]
  refine ⟨hs, fun hnone => ?_, fun q hq => ?_⟩
  · cases hnone
  · rw [← Option.some.inj hq]
    show (spool[r'.currentGeneration]?).isSome
    rwa [hgen]

theorem PassiveInv.restart (h : PassiveInv key p) :
    PassiveInv key (recoverReplicaBlobs key p.spool) := by
  cases hr : p.replica with
  | none =>
    have hs := h.spooled
    rw [hr, h.absent hr, Option.getD_none] at hs
    rw [h.absent hr, recover_empty]
    exact ⟨hs, fun _ => rfl, fun q hq => by cases hq⟩
  | some r =>
    have hs := h.spooled
    rw [hr, Option.getD_some] at hs
    exact PassiveInv.of_recover hs (h.present r hr)

theorem PassiveInv.append (h : PassiveInv key p)
    (hspec : (p.appendPlan config env frame.length).isSome → env.reserved = true →
      AppendSpec key (p.replica.getD ReplicaState.default) frame update) :
    PassiveInv key (p.append config env frame update) := by
  rw [Passive.append]
  split
  · exact h
  · rename_i generation rotated hplan
    split
    · rename_i hdone
      have hspec := hspec (hplan ▸ rfl) (Bool.and_eq_true_iff.mp hdone).1
      have hgen := appendPlan_generation hplan
      have hs := h.spooled.append hspec hgen
      refine ⟨hs, fun hnone => ?_, fun q hq => ?_⟩
      · cases hnone
      · have hcur : q.currentGeneration = generation := by
          rw [← Option.some.inj hq, (hspec.files _).1]
          show (if rotated then generation else _) = generation
          rw [hgen]
          split <;> rfl
        rw [hcur, getElem?_appendFile, if_pos rfl]
        rfl
    · exact h

theorem PassiveInv.empty (key : ReplicaKey) : PassiveInv key Passive.empty := by
  refine ⟨⟨⟨ReplicaSpoolScan.start, rfl, rfl, ?_⟩, by simp [Passive.empty], rfl, rfl⟩,
    fun _ => rfl, fun q hq => by cases hq⟩
  refine ⟨fun a => ?_, ?_, ?_, rfl, rfl, ?_, rfl⟩ <;>
    simp [Passive.empty, ReplicaState.default, ReplicaSpoolScan.start]

/-- **A message that is accepted keeps the spool and the memory together.** -/
theorem PassiveInv.deliver {message : ReplicaMessage} (h : PassiveInv key p)
    (hok : MessageOk config key p env message) :
    PassiveInv key (p.deliver config key env message) := by
  rw [Passive.deliver]
  split
  · exact h
  · -- only the set of uncommitted artifacts changes, which the files do not hold
    rename_i artifact _
    obtain ⟨hs, habsent, hpresent⟩ := h
    cases hr : p.replica with
    | none =>
      rw [hr] at hs
      exact ⟨hs, fun _ => habsent hr, fun q hq => by cases hq⟩
    | some r =>
      rw [hr] at hs
      obtain ⟨⟨scan, hscan, htail, hagree⟩, hnew, hcur, hbytes⟩ := hs
      refine ⟨⟨⟨scan, hscan, htail, ?_⟩, hnew, hcur, hbytes⟩, fun hnone => ?_, fun q hq => ?_⟩
      · exact ⟨hagree.artifacts, hagree.owners, hagree.identity, hagree.committed, hagree.record,
          hagree.commitOwner, hagree.bytes⟩
      · cases hnone
      · rw [← Option.some.inj hq]
        exact hpresent r hr
  · rename_i frame update hreact
    exact h.append fun hplan hreserved =>
      (react_appends hreact).spec (hok.readable hreact hplan hreserved)
  · rename_i currentGeneration hreact
    obtain ⟨⟨through, rfl⟩, r, hr, rfl⟩ := react_drop hreact
    have hs := h.spooled
    rw [hr, Option.getD_some] at hs
    split
    · rw [hs.eraseBelow_eq_empty (Nat.lt_succ_self _)]
      exact PassiveInv.empty key
    · rename_i count hcount
      rw [hok count hcount, Nat.zero_min]
      exact h

/-- **Recovery of a spool whose last append was cut short**: the torn bytes are cut off. -/
theorem recover_torn {written : Nat} (h : Spooled key r spool)
    (hspec : AppendSpec key r frame update)
    (hgen : generation = if rotated then r.currentGeneration + 1 else r.currentGeneration)
    (hpos : 0 < written) (hlt : written < frame.length) :
    recoverReplicaBlobs key (appendFile spool generation (frame.take written)) =
      recoverReplicaBlobs key (appendFile spool generation []) := by
  obtain ⟨scan, hscan, htail, hagree⟩ := h.scan
  obtain ⟨magic, payload, hseal, -⟩ := hspec.framed
  have hnew := newest_of_plan h.newest hgen
  -- both spools end with the file of this generation
  have hlast : ∀ bytes, (appendFile spool generation bytes).toList =
      (spool.erase generation).toList ++
        [(generation, (spool[generation]?).getD [] ++ bytes)] := by
    intro bytes
    rw [Maps.toList_eq_of_max (k := generation) (v := (spool[generation]?).getD [] ++ bytes),
      appendFile, erase_insert_eq]
    · rw [getElem?_appendFile, if_pos rfl]
    · exact (h.files_append hgen bytes).2.1
  have htorn : scanReplicaSpool (combined (appendFile spool generation (frame.take written))) =
      some { scan with truncatedTail := true } := by
    rw [combined_appendFile _ hnew]
    exact scanFrom_append_torn hscan htail hseal hpos hlt
  have hwhole : scanReplicaSpool (combined (appendFile spool generation [])) = some scan := by
    rw [combined_appendFile _ hnew, List.append_nil, hscan]
  -- the torn bytes are past the end of what was scanned, in the newest file
  have hold : scan.validLen = (combined (spool.erase generation)).length +
      ((spool[generation]?).getD []).length := by
    rw [← hagree.bytes, h.bytes, ← List.append_nil (combined spool), ← combined_appendFile [] hnew,
      appendFile, combined_insert _ hnew, List.append_nil, List.length_append]
  have hfind : (boundaries (appendFile spool generation (frame.take written)).toList 0).find?
      (fun b => decide (scan.validLen < b.2.1 + b.2.2)) = some (generation,
        (combined (spool.erase generation)).length,
        ((spool[generation]?).getD [] ++ frame.take written).length) := by
    have hbefore : (boundaries (spool.erase generation).toList 0).find?
        (fun b => decide (scan.validLen < b.2.1 + b.2.2)) = none := by
      rw [List.find?_eq_none]
      intro b hb
      have hle := boundaries_le _ _ b hb
      rw [Nat.zero_add, ← combined] at hle
      rw [decide_eq_true_eq]
      omega
    have hafter : scan.validLen < (combined (spool.erase generation)).length +
        ((spool[generation]?).getD [] ++ frame.take written).length := by
      rw [List.length_append, List.length_take_of_le hlt.le]
      omega
    rw [hlast, boundaries_append, Nat.zero_add, List.find?_append, hbefore, Option.none_or,
      ← combined, List.find?_singleton, if_pos (decide_eq_true hafter)]
  have hcut : ((spool[generation]?).getD [] ++ frame.take written).take
      (scan.validLen - (combined (spool.erase generation)).length) =
        (spool[generation]?).getD [] := by
    rw [hold, Nat.add_sub_cancel_left, List.take_left]
  have hspool : (appendFile spool generation (frame.take written)).insert generation
      ((spool[generation]?).getD []) = appendFile spool generation [] := by
    refine ExtTreeMap.ext_getElem? fun g => ?_
    rw [Maps.getElem?_insert, getElem?_appendFile, getElem?_appendFile, List.append_nil]
    split <;> rfl
  have hlen : scan.validLen - (combined (spool.erase generation)).length =
      ((spool[generation]?).getD [] ++ ([] : Bytes)).length := by
    rw [hold, Nat.add_sub_cancel_left, List.append_nil]
  rw [recoverReplicaBlobs, recoverReplicaBlobs, htorn, hwhole]
  simp only [hfind]
  simp only [hlast, List.getLast?_concat, htail, if_true, ne_eq, not_true_eq_false, if_false,
    Bool.false_eq_true]
  rw [hcut, hspool, hlen]
  rfl

/-- **A passive that stops inside an append** starts again with what it had acknowledged. -/
theorem PassiveInv.crash {message : ReplicaMessage} {written : Nat} (h : PassiveInv key p)
    (hok : MessageOk config key p env message) :
    PassiveInv key (recoverReplicaBlobs key (p.tornSpool config key env message written)) := by
  rw [Passive.tornSpool]
  split
  · rename_i frame update hreact
    split
    · exact h.restart
    · rename_i generation rotated hplan
      have hgen := appendPlan_generation hplan
      have hcreate : PassiveInv key
          (recoverReplicaBlobs key (appendFile p.spool generation [])) := by
        have hcur : ((p.replica.getD ReplicaState.default).appended generation rotated
            0).currentGeneration = generation := (h.spooled.files_append hgen []).1
        refine PassiveInv.of_recover (h.spooled.create hgen) ?_
        rw [hcur, getElem?_appendFile, if_pos rfl]
        rfl
      split
      · rename_i hreserved
        have hspec := (react_appends hreact).spec (hok.readable hreact (hplan ▸ rfl) hreserved)
        by_cases hwhole : frame.length ≤ written
        · rw [List.take_of_length_le hwhole]
          refine PassiveInv.of_recover (h.spooled.append hspec hgen) ?_
          rw [(hspec.files _).1, (h.spooled.files_append hgen frame).1, getElem?_appendFile,
            if_pos rfl]
          rfl
        · by_cases hzero : written = 0
          · rw [hzero, List.take_zero]
            exact hcreate
          · rw [recover_torn h.spooled hspec hgen (by omega) (by omega)]
            exact hcreate
      · exact h.restart
  · exact h.restart

/-- **One step of the passive.** -/
theorem PassiveInv.step {p' : Passive} {label : PassiveLabel} (h : PassiveInv key p)
    (hok : PassiveOk config key p label) (hstep : passiveStep config key p label = some p') :
    PassiveInv key p' := by
  cases label with
  | deliver message env =>
    rw [passiveStep, Option.some.injEq] at hstep
    exact hstep ▸ h.deliver hok
  | restart =>
    rw [passiveStep, Option.some.injEq] at hstep
    exact hstep ▸ h.restart
  | crash message env written =>
    rw [passiveStep, Option.some.injEq] at hstep
    exact hstep ▸ h.crash hok

end Steps

/-- **The spool of a passive refines its memory.**  Along every run in which no accepted commit
falls behind the commit before it in the order of the scan or names too many artifacts, and no
delete fails half way, the files always reproduce the state in memory. -/
theorem spool_reproduces_memory (config : PassiveConfig) (key : ReplicaKey)
    (labels : List PassiveLabel) (p : Passive)
    (hok : Run.Along (passiveStep config key) (PassiveOk config key) Passive.empty labels)
    (hrun : Run.run (passiveStep config key) Passive.empty labels = some p) :
    Reproduces key p :=
  (Run.run_invariant (fun _ _ _ h hok hstep => PassiveInv.step h hok hstep)
    (PassiveInv.empty key) hok hrun).reproduces

/-! ## A commit under a new fence -/

/-- Surroundings in which nothing goes wrong: the head names this passive, the device has room, and
appends and deletes go through. -/
def calm (config : PassiveConfig) (key : ReplicaKey) : Surroundings :=
  { head := some ⟨key.volume, key.source, 0, none,
      some ⟨key.assignmentEpoch, config.host, key.assignmentEpoch, none, 0⟩, []⟩
    otherBytes := 0
    reserved := true
    appended := true
    deleteFailedAfter := none }

/-- The commit of a bare record, which needs no artifact. -/
def bareCommit (volume : VolumeId) (fence seq : UInt64) : ReplicaMessage :=
  .commit ⟨fence, seq, 0⟩ [] (((bareRecord fence seq).encode volume).getD [])

omit [Platform] in
theorem authorized_calm (config : PassiveConfig) (p : Passive) (hepoch : key.assignmentEpoch ≠ 0) :
    p.authorized config key (calm config key) = true := by
  rw [Passive.authorized, if_neg hepoch]
  cases p.replica <;> simp [calm]

/-- A commit of a bare record is appended if it is newer than the newest one and what it requires is
there. -/
theorem react_requiring (config : PassiveConfig) {fence seq : UInt64}
    {required : List ReplicaArtifact} {frame : Bytes}
    (hseal : sealReplicaCommit key ⟨fence, seq, 0⟩ required
      (((bareRecord fence seq).encode key.volume).getD []) = some frame)
    (hepoch : key.assignmentEpoch ≠ 0)
    (hnew : ∀ known ∈ p.replica.bind ReplicaState.committed, known < ⟨fence, seq, 0⟩)
    (hcomplete : (required.all fun a => p.replica.any fun r => r.artifacts.contains a) = true) :
    p.react config key (calm config key) (.commit ⟨fence, seq, 0⟩ required
        (((bareRecord fence seq).encode key.volume).getD [])) =
      .append frame fun r => r.withCommit ⟨fence, seq, 0⟩ required
        (((bareRecord fence seq).encode key.volume).getD []) := by
  have hlater : (p.replica.bind ReplicaState.committed).any
      (fun known => decide ((⟨fence, seq, 0⟩ : ReplicaCommitInfo) ≤ known)) = false := by
    cases hc : p.replica.bind ReplicaState.committed with
    | none => rfl
    | some known =>
      rw [Option.any_some, decide_eq_false_iff_not]
      exact (hnew known hc).not_ge
  simp only [Passive.react, Passive.onCommit, authorized_calm config p hepoch, hseal, hlater,
    hcomplete]
  rfl

/-- A passive with room accepts a bare commit that is newer than its newest one. -/
theorem deliver_bareCommit (config : PassiveConfig) (key : ReplicaKey) (fence seq : UInt64)
    (hr : p.replica.getD ReplicaState.default = r) (hepoch : key.assignmentEpoch ≠ 0)
    (hroom : r.bytes + 177 ≤ config.spoolCapacityBytes)
    (hfile : r.currentFileBytes + 177 ≤ maxReplicaSpoolGenerationBytes)
    (hnew : ∀ known ∈ r.committed, known < ⟨fence, seq, 0⟩) :
    ∃ frame, sealReplicaCommit key ⟨fence, seq, 0⟩ []
        (((bareRecord fence seq).encode key.volume).getD []) = some frame ∧
      p.deliver config key (calm config key) (bareCommit key.volume fence seq) =
        ⟨some ((r.appended r.currentGeneration false 177).withCommit ⟨fence, seq, 0⟩ []
            (((bareRecord fence seq).encode key.volume).getD [])),
          appendFile p.spool r.currentGeneration frame⟩ := by
  obtain ⟨frame, hseal, (hlen : frame.length = 177)⟩ :=
    exists_seal_bare key fence seq [] rfl (Nat.zero_le _)
  rw [← hr, committed_getD] at hnew
  have hreact : p.react config key (calm config key) (bareCommit key.volume fence seq) = _ :=
    react_requiring config hseal hepoch hnew rfl
  have hplan : p.appendPlan config (calm config key) 177 = some (r.currentGeneration, false) := by
    have hbytes : (p.replica.map ReplicaState.bytes).getD 0 = r.bytes := by
      rw [← hr]
      cases p.replica <;> rfl
    have hgen : (p.replica.map ReplicaState.currentGeneration).getD 0 = r.currentGeneration := by
      rw [← hr]
      cases p.replica <;> rfl
    have hcur : (p.replica.map ReplicaState.currentFileBytes).getD 0 = r.currentFileBytes := by
      rw [← hr]
      cases p.replica <;> rfl
    simp only [Passive.appendPlan, hbytes, hgen, hcur, calm]
    rw [if_neg (by omega), decide_eq_false (by omega), Bool.and_false]
    rfl
  refine ⟨frame, hseal, ?_⟩
  simp only [Passive.deliver, hreact, Passive.append, hlen, hplan, hr]
  rfl

/-- A commit that falls behind in the order of the scan cannot be read back. -/
theorem PassiveInv.scan_behind {known info : ReplicaCommitInfo} {required : List ReplicaArtifact}
    {record frame : Bytes} (h : PassiveInv key p)
    (hknown : p.replica.bind ReplicaState.committed = some known)
    (hbehind : ReplicaSpoolScan.syncOrder info < ReplicaSpoolScan.syncOrder known)
    (hcount : required.length ≤ maxRequiredArtifacts)
    (hseal : sealReplicaCommit key info required record = some frame) :
    scanReplicaSpool (combined p.spool ++ frame) = none := by
  obtain ⟨scan, hscan, htail, hagree⟩ := h.spooled.scan
  rw [← committed_getD] at hknown
  rw [scanReplicaSpool,
    scanFrom_append_frame hscan htail (sealReplicaCommit_eq_some.mp hseal).2.2.2 (.inr rfl),
    scanFrame_behind hagree hknown hbehind hcount hseal]

/-- A passive of volume 7, assigned to host 2 by the primary on host 1. -/
def exampleKey : ReplicaKey := ⟨1, 7, 5⟩

def exampleConfig : PassiveConfig := ⟨2, 2 ^ 40⟩

theorem messageOk_first (config : PassiveConfig) (key : ReplicaKey) (env : Surroundings)
    (volume : VolumeId) (fence seq : UInt64) :
    MessageOk config key Passive.empty env (bareCommit volume fence seq) :=
  fun _ => ⟨by decide, fun known hknown => by cases hknown⟩

section

variable (config : PassiveConfig) (key : ReplicaKey) (p : Passive)

instance (info : ReplicaCommitInfo) (required : List ReplicaArtifact) (record : Bytes) :
    Decidable (p.Readable (.commit info required record)) :=
  inferInstanceAs (Decidable (_ ∧ _))

instance decidableMessageOk (env : Surroundings) :
    ∀ message, Decidable (MessageOk config key p env message)
  | .put .. => .isTrue trivial
  | .commit .. => inferInstanceAs (Decidable (_ → _))
  | .release _ => inferInstanceAs (Decidable (∀ count ∈ env.deleteFailedAfter, count = 0))

instance decidablePassiveOk : ∀ label, Decidable (PassiveOk config key p label)
  | .deliver message env => decidableMessageOk config key p env message
  | .restart => .isTrue trivial
  | .crash message env _ => decidableMessageOk config key p env message

end

omit [Platform] in
set_option maxRecDepth 20000 in
/-- Two commits in the order of the scan, the second under a newer fence. -/
theorem spool_reproduces_memory_two_commits :
    letI := storedPlatform
    ∃ p, Run.run (passiveStep exampleConfig exampleKey) Passive.empty
        [.deliver (bareCommit 7 1 5) (calm exampleConfig exampleKey),
          .deliver (bareCommit 7 2 6) (calm exampleConfig exampleKey)] = some p ∧
      Reproduces exampleKey p := by
  have hok : letI := storedPlatform
      Run.Along (passiveStep exampleConfig exampleKey) (PassiveOk exampleConfig exampleKey)
        Passive.empty
        [.deliver (bareCommit 7 1 5) (calm exampleConfig exampleKey),
          .deliver (bareCommit 7 2 6) (calm exampleConfig exampleKey)] := by
    decide +kernel
  let _ := storedPlatform
  exact ⟨_, rfl, spool_reproduces_memory exampleConfig exampleKey _ _ hok rfl⟩

omit [Platform] in
set_option maxRecDepth 20000 in
/-- **A passive can accept what it cannot read back.**  A primary that restores an older archive
point takes a new fence and starts from an older sequence number.  Its commit is newer by the fence
and older by the order of the scan. -/
theorem not_spool_reproduces_memory :
    ¬ ∀ [Platform] (config : PassiveConfig) (key : ReplicaKey) (messages : List ReplicaMessage)
        (p : Passive),
      Run.run (passiveStep config key) Passive.empty
        (messages.map fun message => .deliver message (calm config key)) = some p →
      Reproduces key p := by
  have hevaluated : letI := storedPlatform
      (let p := Passive.empty.deliver exampleConfig exampleKey (calm exampleConfig exampleKey)
          (bareCommit 7 1 5)
      decide (p.replica.bind ReplicaState.committed = some ⟨1, 5, 0⟩) &&
        (sealReplicaCommit exampleKey ⟨2, 4, 0⟩ [] (((bareRecord 2 4).encode 7).getD [])).any
          fun frame => decide (combined (p.deliver exampleConfig exampleKey
            (calm exampleConfig exampleKey) (bareCommit 7 2 4)).spool =
              combined p.spool ++ frame)) = true := by
    decide +kernel
  intro h
  let _ := storedPlatform
  obtain ⟨hknown, hsealed⟩ := Bool.and_eq_true_iff.mp hevaluated
  obtain ⟨frame, hseal, hspool⟩ := (Option.any_eq_true _ _).mp hsealed
  have hinv : PassiveInv exampleKey (Passive.empty.deliver exampleConfig exampleKey
      (calm exampleConfig exampleKey) (bareCommit 7 1 5)) :=
    (PassiveInv.empty exampleKey).deliver (messageOk_first _ _ _ _ _ _)
  obtain ⟨⟨scan, hscan, -⟩, -⟩ :=
    h exampleConfig exampleKey [bareCommit 7 1 5, bareCommit 7 2 4] _ rfl
  rw [of_decide_eq_true hspool, hinv.scan_behind (of_decide_eq_true hknown) (by decide) (by decide)
    hseal] at hscan
  cases hscan

end Blockd
