import Mathlib
import Blockd.ReplicaRecovery

/-!
# What an export holds

`export_replica_recovery` takes the last commit of every residue, keeps the greatest, and compares it
with the manifest the head names.  Two things are shown of it.

* When it succeeds, the blobs are the record it chose, its mirror and the files it names, nothing
  else (`export_newest_cut`).  It looks at the last commit of every spool alone, and the scan of a
  spool only holds commits to their syncs and sequence numbers.  The chosen commit is the newest of
  all commits exactly if no commit is ahead of the last commits of all spools (`LastCommitsLead`).
* It refuses the residues as older than the archive by comparing the commit's journal number with
  the number of the manifest's publication, where the manifest's own journal number is meant.  Only
  where the two numbers agree about the newest commit does it refuse exactly the older ones.
-/

set_option autoImplicit false

open Codec Fallible
open Std (ExtTreeMap)

namespace Blockd

section

variable [Platform]

/-! ## Scans -/

variable {s t : ReplicaSpoolScan} {commit : ReplicaCommitFrame} {record : JournalRecord}
  {volume : VolumeId}

/-- **What every frame preserves holds of the whole scan.** -/
theorem scanFrom_invariant {P : ReplicaSpoolScan → Prop}
    (hframe : ∀ {s t : ReplicaSpoolScan} {frame : Bytes}, P s → scanFrame s frame = some t → P t)
    (htail : ∀ {s : ReplicaSpoolScan}, P s → P { s with truncatedTail := true }) {rest : Bytes}
    (hs : P s) (h : scanFrom s rest = some t) : P t := by
  induction hn : rest.length using Nat.strong_induction_on generalizing rest s with
  | _ n ih =>
    by_cases hne : rest = []
    · rw [hne, scanFrom_nil] at h
      exact Option.some.inj h ▸ hs
    by_cases hstop : ∀ len, framedLen rest = some len → spoolFrame (rest.take len) = .unknown
    · rw [scanFrom_stop hne hstop] at h
      exact Option.some.inj h ▸ htail hs
    · push Not at hstop
      obtain ⟨len, hlen, hknown⟩ := hstop
      obtain ⟨hpos, hle⟩ := framedLen_bounds hlen
      rw [scanFrom_frame hlen hknown, Option.bind_eq_some_iff] at h
      obtain ⟨u, hu, h⟩ := h
      refine ih _ ?_ (hframe hs hu) h rfl
      rw [frameHeader] at hpos
      rw [← hn, List.length_drop]
      omega

/-- A scan has checked the record of every commit. -/
def CommitsOk (s : ReplicaSpoolScan) : Prop :=
  ∀ c ∈ s.commits, verifyRecord c.owner.volume c.info c.record = true

theorem verifyRecord_of_openCommit {frame : Bytes} {c : ReplicaCommitFrame}
    (h : openCommit frame = some c) : verifyRecord c.owner.volume c.info c.record = true := by
  simp only [openCommit, bind_eq_some, Dec.decode, Option.map_eq_some_iff] at h
  obtain ⟨payload, -, ⟨answer, rest⟩, hread, rfl⟩ := h
  simp only [commitDec, Dec.bind_eq_some, Dec.require_eq_some, Dec.pure_eq_some, Prod.mk.injEq] at hread
  obtain ⟨_, _, -, _, _, -, _, _, -, _, _, -, _, _, -, _, _, -, _, _, -, _, _, -, _, _, -, _, _,
    ⟨hverify, -⟩, rfl, rfl⟩ := hread
  exact hverify

theorem CommitsOk.artifactFrame {frame : ReplicaArtifactFrame} (hs : CommitsOk s)
    (h : s.artifactFrame frame = some t) : CommitsOk t := by
  have hsame : t.commits = s.commits := by
    simp only [ReplicaSpoolScan.artifactFrame, ReplicaSpoolScan.checkIdentity, bind_eq_some,
      ensure_eq_some, exists_const, pure_eq_some] at h
    obtain ⟨u, ⟨-, rfl⟩, h⟩ := h
    split at h
    · cases h
      rfl
    · obtain ⟨_, -, h⟩ := bind_eq_some.mp h
      cases h
      rfl
  rwa [CommitsOk, hsame]

theorem CommitsOk.commitFrame {c : ReplicaCommitFrame} (hs : CommitsOk s)
    (hc : verifyRecord c.owner.volume c.info c.record = true) (h : s.commitFrame c = some t) :
    CommitsOk t := by
  simp only [ReplicaSpoolScan.commitFrame, ReplicaSpoolScan.checkIdentity, bind_eq_some,
    ensure_eq_some, exists_const, pure_eq_some] at h
  obtain ⟨u, ⟨-, rfl⟩, -, -, h⟩ := h
  split at h
  · cases h
    exact hs
  · cases h
    intro d hd
    rcases List.mem_append.mp hd with hd | hd
    · exact hs d hd
    · rwa [List.mem_singleton.mp hd]

theorem CommitsOk.scanFrame {frame : Bytes} (hs : CommitsOk s) (h : scanFrame s frame = some t) :
    CommitsOk t := by
  have hlen : ∀ {u : ReplicaSpoolScan}, CommitsOk u →
      CommitsOk { u with validLen := u.validLen + frame.length } := fun hu => hu
  simp only [Blockd.scanFrame, Option.bind_eq_bind, Option.pure_def] at h
  split at h
  · simp only [Option.bind_eq_some_iff, Option.some.injEq] at h
    obtain ⟨a, -, u, hu, rfl⟩ := h
    exact hlen (hs.artifactFrame hu)
  · simp only [Option.bind_eq_some_iff, Option.some.injEq] at h
    obtain ⟨c, hopen, u, hu, rfl⟩ := h
    exact hlen (hs.commitFrame (verifyRecord_of_openCommit hopen) hu)
  · cases h

theorem commitsOk_of_scan {bytes : Bytes} {scan : ReplicaSpoolScan}
    (h : scanReplicaSpool bytes = some scan) : CommitsOk scan :=
  scanFrom_invariant CommitsOk.scanFrame (fun hs => hs) (fun _ hc => by cases hc) h

/-! ## Commits and their order -/

/-- A commit of the residue's spool, with the record it carries. -/
structure ResidueCommit (volume : VolumeId) (residue : ReplicaResidue)
    (commit : ReplicaCommitFrame) (record : JournalRecord) : Prop where
  scanned : ∃ scan, scanReplicaSpool residue.bytes = some scan ∧ commit ∈ scan.commits
  decodes : JournalRecord.decode volume commit.record = some record

/-- What a commit is ranked by. -/
def cutRank (commit : ReplicaCommitFrame) (record : JournalRecord) : Nat ×ₗ Nat ×ₗ Nat :=
  recoveryRank commit.info.syncCoveredThrough record.captureSeq commit.info.seq

/-- The newest of all commits in the spools. -/
structure NewestCommit (volume : VolumeId) (residues : List ReplicaResidue)
    (residue : ReplicaResidue) (commit : ReplicaCommitFrame) (record : JournalRecord) : Prop where
  mem : residue ∈ residues
  isCommit : ResidueCommit volume residue commit record
  newest : ∀ residue' ∈ residues, ∀ commit' record',
    ResidueCommit volume residue' commit' record' → cutRank commit' record' ≤ cutRank commit record

/-- The last commit of the residue's spool, with the record it carries. -/
structure LastCommit (volume : VolumeId) (residue : ReplicaResidue) (commit : ReplicaCommitFrame)
    (record : JournalRecord) : Prop where
  scanned : ∃ scan, scanReplicaSpool residue.bytes = some scan ∧
    scan.commits.getLast? = some commit
  decodes : JournalRecord.decode volume commit.record = some record

/-- No commit of a spool is ahead of the last commits of all spools. -/
def LastCommitsLead (volume : VolumeId) (residues : List ReplicaResidue) : Prop :=
  ∀ residue ∈ residues, ∀ commit record, ResidueCommit volume residue commit record →
    ∃ residue' ∈ residues, ∃ last record', LastCommit volume residue' last record' ∧
      cutRank commit record ≤ cutRank last record'

theorem LastCommit.residueCommit {residue : ReplicaResidue}
    (h : LastCommit volume residue commit record) : ResidueCommit volume residue commit record := by
  obtain ⟨scan, hscan, hlast⟩ := h.scanned
  exact ⟨⟨scan, hscan, List.mem_of_getLast? hlast⟩, h.decodes⟩

omit [Platform] in
theorem recoveryRank_lt_iff {s c q s' c' q' : UInt64} :
    recoveryRank s c q < recoveryRank s' c' q' ↔
      s < s' ∨ s = s' ∧ (c < c' ∨ c = c' ∧ q < q') := by
  simp only [recoveryRank, Prod.Lex.toLex_lt_toLex, UInt64.lt_iff_toNat_lt, UInt64.toNat_inj]

/-! ## The newest candidate -/

section

variable {source : HostId} {volume : VolumeId} {headVersion : UInt64} {head : HeadRecord}
  {assignment : StashAssignment} {residue : ReplicaResidue} {residues : List ReplicaResidue}
  {found : Option RecoveryCandidate} {candidate best : RecoveryCandidate}

/-- What is known of a residue that was accepted with a commit. -/
structure CandidateOf (volume : VolumeId) (residue : ReplicaResidue) (c : RecoveryCandidate) :
    Prop where
  isFor : c.residue = residue
  scans : scanReplicaSpool residue.bytes = some c.scan
  last : c.scan.commits.getLast? = some c.commit
  decodes : JournalRecord.decode volume c.commit.record = some c.record

theorem candidateOf_of_checkResidue
    (h : checkResidue source volume headVersion head assignment residue = .ok (some candidate)) :
    CandidateOf volume residue candidate := by
  simp only [checkResidue, bind_eq_ok, ensureOr_eq_ok, okOr_eq_ok, exists_const] at h
  obtain ⟨-, scan, hscan, -, h⟩ := h
  split at h
  · rename_i commit hlast
    simp only [bind_eq_ok, ensureOr_eq_ok, okOr_eq_ok, exists_const, pure_eq_ok,
      Option.some.injEq] at h
    obtain ⟨record, hrecord, -, rfl⟩ := h
    exact ⟨rfl, hscan, hlast, hrecord⟩
  · simp only [bind_eq_ok, ensureOr_eq_ok, exists_const, pure_eq_ok] at h
    cases h.2

/-- A residue that was accepted without a commit has none. -/
theorem commits_of_checkResidue
    (h : checkResidue source volume headVersion head assignment residue = .ok none) :
    ∃ scan, scanReplicaSpool residue.bytes = some scan ∧ scan.commits = [] := by
  simp only [checkResidue, bind_eq_ok, ensureOr_eq_ok, okOr_eq_ok, exists_const] at h
  obtain ⟨-, scan, hscan, -, h⟩ := h
  split at h
  · simp only [bind_eq_ok, ensureOr_eq_ok, okOr_eq_ok, exists_const, pure_eq_ok] at h
    obtain ⟨record, -, -, h⟩ := h
    cases h
  · rename_i hlast
    exact ⟨scan, hscan, List.getLast?_eq_none_iff.mp hlast⟩

/-- **The candidate that is kept is ahead of the last commits of all spools.** -/
theorem last_of_newestCandidate
    (h : newestCandidate source volume headVersion head residues = .ok best) :
    best.residue ∈ residues ∧ CandidateOf volume best.residue best ∧
      ∀ residue ∈ residues, ∀ commit record, LastCommit volume residue commit record →
        cutRank commit record ≤ cutRank best.commit best.record := by
  simp only [newestCandidate, bind_eq_ok, okOr_eq_ok] at h
  obtain ⟨assignment, -, found, hfound, hpick⟩ := h
  obtain ⟨hbest, hmax⟩ := Newest.pick_eq_some hpick
  obtain ⟨hfrom, hall⟩ := mem_of_mapM hfound
  rw [List.reduceOption_mem_iff] at hbest
  obtain ⟨residue, hmem, hcheck⟩ := hfrom _ hbest
  have hof := candidateOf_of_checkResidue hcheck
  obtain rfl := hof.isFor
  refine ⟨hmem, hof, ?_⟩
  rintro residue' hmem' commit' record' ⟨⟨scan', hscan', hlast'⟩, hrecord'⟩
  obtain ⟨found', hfound', hcheck'⟩ := hall residue' hmem'
  cases found' with
  | none =>
    obtain ⟨scan, hscan, hempty⟩ := commits_of_checkResidue hcheck'
    rw [Option.some.inj (hscan'.symm.trans hscan), hempty] at hlast'
    cases hlast'
  | some c =>
    have hc := candidateOf_of_checkResidue hcheck'
    obtain rfl := Option.some.inj (hscan'.symm.trans hc.scans)
    obtain rfl := Option.some.inj (hlast'.symm.trans hc.last)
    obtain rfl := Option.some.inj (hrecord'.symm.trans hc.decodes)
    exact hmax c (List.reduceOption_mem_iff.mpr hfound')

/-- The candidate that is kept has the newest commit exactly if the last commits lead. -/
theorem newestCommit_iff (h : newestCandidate source volume headVersion head residues = .ok best) :
    NewestCommit volume residues best.residue best.commit best.record ↔
      LastCommitsLead volume residues := by
  obtain ⟨hmem, hof, hlast⟩ := last_of_newestCandidate h
  have hbest : LastCommit volume best.residue best.commit best.record :=
    ⟨⟨_, hof.scans, hof.last⟩, hof.decodes⟩
  constructor
  · intro hnewest residue hres commit record hcommit
    exact ⟨best.residue, hmem, best.commit, best.record, hbest,
      hnewest.newest _ hres _ _ hcommit⟩
  · intro hlead
    refine ⟨hmem, hbest.residueCommit, fun residue hres commit record hcommit => ?_⟩
    obtain ⟨residue', hres', last, record', hlast', hle⟩ := hlead residue hres commit record hcommit
    exact hle.trans (hlast residue' hres' last record' hlast')

end

/-! ## The blobs -/

/-- A blob of a cut: its record, the mirror of it, or one of the volume's files that it names, with
the bytes from the spool or else from the store. -/
inductive CutBlob (volume : VolumeId) (scan : ReplicaSpoolScan) (storeObjects : StoreObjects)
    (commit : ReplicaCommitFrame) (record : JournalRecord) : Name → Bytes → Prop
  | record : CutBlob volume scan storeObjects commit record
      (journalBlob volume record.fence record.seq) commit.record
  | mirror : CutBlob volume scan storeObjects commit record
      (journalMirrorBlob volume record.fence record.seq) commit.record
  | file {file : ObjectRef} {bytes : Bytes} (hfile : file ∈ record.files)
      (hown : file.identity.namespaceKind = .volume ∧ file.identity.namespaceId = volume)
      (hbytes : (scan.artifacts[ReplicaArtifact.blx file.identity.writerFence
        file.identity.objectId]?.map ReplicaArtifactFrame.bytes).or
          (storeObjects (blxKey volume file.identity.writerFence file.identity.objectId)) =
            some bytes)
      (hverify : verifyArtifact volume
        (.blx file.identity.writerFence file.identity.objectId) bytes = true) :
      CutBlob volume scan storeObjects commit record
        (blxBlob volume file.identity.writerFence file.identity.objectId) bytes

section

variable {volume : VolumeId} {storeObjects : StoreObjects} {best : RecoveryCandidate}
  {exported : ReplicaExport}

omit [Platform] in
theorem mem_neededBlxFiles {record : JournalRecord} {identity : ObjectIdentity} :
    identity ∈ neededBlxFiles volume record ↔ ∃ file ∈ record.files,
      (file.identity.namespaceKind = .volume ∧ file.identity.namespaceId = volume) ∧
        file.identity = identity := by
  simp only [neededBlxFiles, Finset.mem_sort, List.mem_toFinset, List.mem_map, List.mem_filter,
    Bool.and_eq_true, beq_iff_eq, and_assoc]

theorem exportFile_eq_ok {scan : ReplicaSpoolScan} {identity : ObjectIdentity} {file : Name × Bytes} :
    exportFile volume scan storeObjects identity = .ok file ↔
      file.1 = blxBlob volume identity.writerFence identity.objectId ∧
      (scan.artifacts[ReplicaArtifact.blx identity.writerFence identity.objectId]?.map
        ReplicaArtifactFrame.bytes).or
          (storeObjects (blxKey volume identity.writerFence identity.objectId)) = some file.2 ∧
      verifyArtifact volume (.blx identity.writerFence identity.objectId) file.2 = true := by
  simp only [exportFile, artifactBytes, bind_eq_ok, okOr_eq_ok, ensureOr_eq_ok, exists_const,
    pure_eq_ok]
  constructor
  · rintro ⟨bytes, hbytes, hverify, rfl⟩
    exact ⟨rfl, hbytes, hverify⟩
  · rintro ⟨hname, hbytes, hverify⟩
    exact ⟨file.2, hbytes, hverify, Prod.ext hname.symm rfl⟩

/-- **The blobs of an export are those of the cut**, and nothing else. -/
theorem blobs_of_exportCommit (h : exportCommit volume best storeObjects = .ok exported) :
    exported.sourcePeer = best.residue.peer ∧
      exported.assignmentEpoch = best.residue.assignmentEpoch ∧
      exported.info = best.commit.info ∧
      exported.syncCoveredThrough = best.commit.info.syncCoveredThrough ∧
      ∀ name bytes, (name, bytes) ∈ exported.blobs ↔
        CutBlob volume best.scan storeObjects best.commit best.record name bytes := by
  simp only [exportCommit, bind_eq_ok, pure_eq_ok] at h
  obtain ⟨files, hfiles, rfl⟩ := h
  refine ⟨rfl, rfl, rfl, rfl, fun name bytes => ?_⟩
  obtain ⟨hfrom, hall⟩ := mem_of_mapM hfiles
  have hnames : files.Pairwise fun p q => p.1 ≠ q.1 := by
    refine pairwise_of_mapM hfiles (Finset.sort_nodup _ _) fun i hi j hj p q hne hp hq hname => ?_
    rw [(exportFile_eq_ok.mp hp).1, (exportFile_eq_ok.mp hq).1] at hname
    obtain ⟨hfence, hobject⟩ := blxBlob_injective hname
    obtain ⟨f, -, ⟨hkind, hid⟩, rfl⟩ := mem_neededBlxFiles.mp hi
    obtain ⟨g, -, ⟨hkind', hid'⟩, rfl⟩ := mem_neededBlxFiles.mp hj
    refine hne ?_
    rw [ObjectIdentity.mk.injEq]
    exact ⟨hkind.trans hkind'.symm, hid.trans hid'.symm, hfence, hobject⟩
  have hmem : ∀ name bytes, (files.foldl (fun blobs file => blobs.insert file.1 file.2)
      (∅ : BlobMap))[name]? = some bytes ↔ (name, bytes) ∈ files := by
    refine fun name bytes => ⟨fun hget => ?_, Maps.getElem?_foldl_insert_of_mem hnames⟩
    exact (Maps.of_getElem?_foldl_insert hget).resolve_right (by simp)
  rw [ExtTreeMap.mem_toList_iff_getElem?_eq_some, Maps.getElem?_insert, Maps.getElem?_insert]
  constructor
  · intro h
    split at h
    · rename_i hname
      cases h
      exact hname ▸ .mirror
    split at h
    · rename_i hname
      cases h
      exact hname ▸ .record
    · rw [hmem] at h
      obtain ⟨identity, hneeded, hexport⟩ := hfrom _ h
      obtain ⟨hname, hbytes, hverify⟩ := exportFile_eq_ok.mp hexport
      obtain ⟨f, hf, hown, rfl⟩ := mem_neededBlxFiles.mp hneeded
      cases hname
      exact .file hf hown hbytes hverify
  · intro h
    match h with
    | .record => rw [if_neg (journalBlob_ne_mirror _ _ _).symm, if_pos rfl]
    | .mirror => rw [if_pos rfl]
    | .file hf hown hbytes hverify =>
      rw [if_neg (blxBlob_ne_mirror _ _ _ _ _).symm, if_neg (blxBlob_ne_journal _ _ _ _ _).symm,
        hmem]
      obtain ⟨p, hp, hexport⟩ := hall _ (mem_neededBlxFiles.mpr ⟨_, hf, hown, rfl⟩)
      obtain ⟨hname, hbytes', -⟩ := exportFile_eq_ok.mp hexport
      rwa [← hname, Option.some.inj (hbytes.symm.trans hbytes')]

end

/-! ## The comparison with the archive -/

/-- What the manifest should be ranked by: its journal number in the last place. -/
def Manifest.journalRank (m : Manifest) : Nat ×ₗ Nat ×ₗ Nat :=
  recoveryRank m.syncCoveredThrough m.captureSeq m.journalSeq

/-- At the manifest's syncs and mutation, the publication number orders the commit against the
manifest as the journal number does. -/
def CountsAlike (m : Manifest) (commit : ReplicaCommitFrame) (record : JournalRecord) : Prop :=
  commit.info.syncCoveredThrough = m.syncCoveredThrough → record.captureSeq = m.captureSeq →
    (commit.info.seq < m.archiveSeq ↔ commit.info.seq < m.journalSeq)

omit [Platform] in
theorem countsAlike_iff {m : Manifest} :
    (cutRank commit record < m.storeRank ↔ cutRank commit record < m.journalRank) ↔
      CountsAlike m commit record := by
  rw [cutRank, Manifest.storeRank, Manifest.journalRank, recoveryRank_lt_iff, recoveryRank_lt_iff,
    CountsAlike]
  by_cases hsync : commit.info.syncCoveredThrough = m.syncCoveredThrough
  · by_cases hcapture : record.captureSeq = m.captureSeq
    · simp [hsync, hcapture]
    · simp [hsync, hcapture]
  · simp [hsync]

omit [Platform] in
theorem eq_of_cutRank_eq {commit' : ReplicaCommitFrame} {record' : JournalRecord}
    (h : cutRank commit record = cutRank commit' record') :
    commit.info.syncCoveredThrough = commit'.info.syncCoveredThrough ∧
      record.captureSeq = record'.captureSeq ∧ commit.info.seq = commit'.info.seq := by
  simpa only [cutRank, recoveryRank, EmbeddingLike.apply_eq_iff_eq, Prod.mk.injEq,
    UInt64.toNat_inj] using h

section

variable {source : HostId} {volume : VolumeId} {headVersion : UInt64} {head : HeadRecord}
  {residues : List ReplicaResidue} {storeObjects : StoreObjects}

theorem checkResidue_ne_newer {assignment : StashAssignment} (residue : ReplicaResidue) :
    checkResidue source volume headVersion head assignment residue ≠
      .error .storeRecoveryPointNewer := by
  have hfirst : ∀ b : Bool, (if b then ReplicaRecoveryError.staleAssignment residue.peer
      residue.assignmentEpoch else .unnamedPeer residue.peer) ≠ .storeRecoveryPointNewer := by
    intro b
    cases b <;> exact nofun
  rw [checkResidue]
  refine bind_ne_error (ensureOr_ne_error (hfirst _)) fun _ => ?_
  refine bind_ne_error (okOr_ne_error nofun) fun scan => ?_
  refine bind_ne_error (ensureOr_ne_error nofun) fun _ => ?_
  split
  · refine bind_ne_error (okOr_ne_error nofun) fun record => ?_
    exact bind_ne_error (ensureOr_ne_error nofun) fun _ => pure_ne_error
  · exact bind_ne_error (ensureOr_ne_error nofun) fun _ => pure_ne_error

theorem newestCandidate_ne_newer :
    newestCandidate source volume headVersion head residues ≠ .error .storeRecoveryPointNewer := by
  rw [newestCandidate]
  refine bind_ne_error (okOr_ne_error nofun) fun assignment => ?_
  exact bind_ne_error (mapM_ne_error checkResidue_ne_newer) fun _ => okOr_ne_error nofun

theorem storeRecord_ne_newer (ptr : ManifestPtr) :
    storeRecord volume ptr storeObjects ≠ .error .storeRecoveryPointNewer := by
  rw [storeRecord]
  refine bind_ne_error (okOr_ne_error nofun) fun bytes => ?_
  refine bind_ne_error (ensureOr_ne_error nofun) fun _ => ?_
  refine bind_ne_error (okOr_ne_error nofun) fun record => ?_
  exact bind_ne_error (ensureOr_ne_error nofun) fun _ => pure_ne_error

theorem exportCommit_ne_newer (best : RecoveryCandidate) :
    exportCommit volume best storeObjects ≠ .error .storeRecoveryPointNewer := by
  rw [exportCommit]
  refine bind_ne_error (mapM_ne_error fun identity => ?_) fun _ => pure_ne_error
  rw [exportFile]
  refine bind_ne_error (okOr_ne_error nofun) fun bytes => ?_
  exact bind_ne_error (ensureOr_ne_error nofun) fun _ => pure_ne_error

/-- The residues are refused as older when the best of them is behind the manifest's rank. -/
theorem export_eq_newer_iff :
    exportReplicaRecovery source volume headVersion head residues storeObjects =
        .error .storeRecoveryPointNewer ↔
      ∃ best ptr m, newestCandidate source volume headVersion head residues = .ok best ∧
        head.manifest = some ptr ∧ storeRecord volume ptr storeObjects = .ok m ∧
        best.rank < m.storeRank := by
  rw [exportReplicaRecovery, bind_eq_error, or_iff_right newestCandidate_ne_newer]
  refine exists_congr fun best => ?_
  rw [bind_eq_error, or_iff_left fun ⟨_, _, h⟩ => exportCommit_ne_newer best h, compareWithStore]
  match hmanifest : head.manifest with
  | none => exact iff_of_false (fun h => pure_ne_error h.2) fun ⟨_, _, _, h, _⟩ => nomatch h
  | some ptr =>
    simp only [bind_eq_error, or_iff_right (storeRecord_ne_newer ptr), ensureOr_eq_error, and_true,
      not_not, Option.some.injEq]
    constructor
    · rintro ⟨hbest, m, hm, hlt⟩
      exact ⟨ptr, m, hbest, rfl, hm, hlt⟩
    · rintro ⟨_, m, hbest, rfl, hm, hlt⟩
      exact ⟨hbest, m, hm, hlt⟩

/-- **The residues are refused exactly when the archive is ahead, as long as the publication number
stands for the journal number** at the newest commits. -/
theorem refuses_exactly_iff {best : RecoveryCandidate} {ptr : ManifestPtr} {m : Manifest}
    (hlead : LastCommitsLead volume residues)
    (hbest : newestCandidate source volume headVersion head residues = .ok best)
    (hptr : head.manifest = some ptr) (hm : storeRecord volume ptr storeObjects = .ok m) :
    (exportReplicaRecovery source volume headVersion head residues storeObjects =
        .error .storeRecoveryPointNewer ↔
      ∀ residue ∈ residues, ∀ commit record, ResidueCommit volume residue commit record →
        cutRank commit record < m.journalRank) ↔
    ∀ residue commit record, NewestCommit volume residues residue commit record →
      CountsAlike m commit record := by
  have hnewest := (newestCommit_iff hbest).mpr hlead
  have hrefused : exportReplicaRecovery source volume headVersion head residues storeObjects =
      .error .storeRecoveryPointNewer ↔ cutRank best.commit best.record < m.storeRank := by
    rw [export_eq_newer_iff]
    constructor
    · rintro ⟨best', ptr', m', hbest', hptr', hm', hlt⟩
      obtain rfl := Except.ok.inj (hbest.symm.trans hbest')
      obtain rfl := Option.some.inj (hptr.symm.trans hptr')
      obtain rfl := Except.ok.inj (hm.symm.trans hm')
      exact hlt
    · exact fun hlt => ⟨best, ptr, m, hbest, hptr, hm, hlt⟩
  have hgreater : (∀ residue ∈ residues, ∀ commit record,
      ResidueCommit volume residue commit record → cutRank commit record < m.journalRank) ↔
      cutRank best.commit best.record < m.journalRank :=
    ⟨fun h => h _ hnewest.mem _ _ hnewest.isCommit,
      fun h residue hres commit record hc => (hnewest.newest _ hres _ _ hc).trans_lt h⟩
  rw [hrefused, hgreater, countsAlike_iff]
  refine ⟨fun h residue commit record hother => ?_, fun h => h _ _ _ hnewest⟩
  -- all newest commits reach equally far
  obtain ⟨hsync, hcapture, hseq⟩ := eq_of_cutRank_eq (le_antisymm
    (hnewest.newest _ hother.mem _ _ hother.isCommit)
    (hother.newest _ hnewest.mem _ _ hnewest.isCommit))
  rwa [CountsAlike, hsync, hcapture, hseq]

/-- **The export of the newest cut.**  When it succeeds, it exports the last commit of a spool and
exactly the blobs of that cut, and this is the newest of all commits if and only if the last commits
lead.  It refuses residues as older than the archive only when all were accepted and the head's
manifest was read; where the last commits lead, it refuses exactly those that the manifest is ahead of
if and only if the publication number stands for the journal number at the newest commits. -/
theorem export_newest_cut (source : HostId) (volume : VolumeId) (headVersion : UInt64)
    (head : HeadRecord) (residues : List ReplicaResidue) (storeObjects : StoreObjects) :
    (∀ exported, exportReplicaRecovery source volume headVersion head residues storeObjects =
        .ok exported →
      ∃ residue ∈ residues, ∃ commit record scan, LastCommit volume residue commit record ∧
        scanReplicaSpool residue.bytes = some scan ∧
        (exported.sourcePeer, exported.assignmentEpoch) = (residue.peer, residue.assignmentEpoch) ∧
        (exported.info, exported.syncCoveredThrough) =
          (commit.info, commit.info.syncCoveredThrough) ∧
        (∀ name bytes, (name, bytes) ∈ exported.blobs ↔
          CutBlob volume scan storeObjects commit record name bytes) ∧
        (NewestCommit volume residues residue commit record ↔ LastCommitsLead volume residues)) ∧
    (exportReplicaRecovery source volume headVersion head residues storeObjects =
        .error .storeRecoveryPointNewer →
      ∃ best ptr m, newestCandidate source volume headVersion head residues = .ok best ∧
        head.manifest = some ptr ∧ storeRecord volume ptr storeObjects = .ok m) ∧
    ∀ best ptr m, newestCandidate source volume headVersion head residues = .ok best →
      head.manifest = some ptr → storeRecord volume ptr storeObjects = .ok m →
      LastCommitsLead volume residues →
      ((exportReplicaRecovery source volume headVersion head residues storeObjects =
          .error .storeRecoveryPointNewer ↔
        ∀ residue ∈ residues, ∀ commit record, ResidueCommit volume residue commit record →
          cutRank commit record < m.journalRank) ↔
      ∀ residue commit record, NewestCommit volume residues residue commit record →
        CountsAlike m commit record) := by
  refine ⟨fun exported h => ?_, fun h => ?_,
    fun best ptr m hbest hptr hm hlead => refuses_exactly_iff hlead hbest hptr hm⟩
  · simp only [exportReplicaRecovery, bind_eq_ok] at h
    obtain ⟨best, hbest, -, -, h⟩ := h
    obtain ⟨hmem, hof, -⟩ := last_of_newestCandidate hbest
    obtain ⟨hpeer, hepoch, hinfo, hsync, hblobs⟩ := blobs_of_exportCommit h
    exact ⟨_, hmem, _, _, _, ⟨⟨_, hof.scans, hof.last⟩, hof.decodes⟩, hof.scans,
      by rw [hpeer, hepoch], by rw [hinfo, hsync], hblobs, newestCommit_iff hbest⟩
  · obtain ⟨best, ptr, m, hbest, hptr, hm, -⟩ := export_eq_newer_iff.mp h
    exact ⟨best, ptr, m, hbest, hptr, hm⟩

end

/-! ## Residues of bare commits -/

namespace BareCut

variable (key : ReplicaKey)

def toCommit (c : BareCut) : ReplicaCommitFrame :=
  ⟨key, c.info, [], (c.record.encode key.volume).getD []⟩

def frame (c : BareCut) : Bytes :=
  (sealReplicaCommit key c.info [] ((c.record.encode key.volume).getD [])).getD []

/-- What the scan of a spool of such commits finds. -/
def scan (cuts : List BareCut) : ReplicaSpoolScan where
  validLen := (cuts.flatMap (frame key)).length
  truncatedTail := false
  artifacts := ∅
  uncommittedArtifacts := ∅
  commits := cuts.map (toCommit key)
  identity := if cuts = [] then none else some key

/-- The cuts are in the order that a scan asks for. -/
def Sorted (cuts : List BareCut) : Prop :=
  cuts.Pairwise fun c d => c.info ≠ d.info ∧
    ReplicaSpoolScan.syncOrder c.info ≤ ReplicaSpoolScan.syncOrder d.info

variable {key}

theorem decode_toCommit (c : BareCut) {source : HostId} {volume : VolumeId} {epoch : UInt64} :
    JournalRecord.decode volume (c.toCommit ⟨source, volume, epoch⟩).record = some c.record := by
  simp only [toCommit]
  exact c.decode_encode volume

theorem scan_frames {cuts : List BareCut} (hsorted : Sorted cuts) :
    scanReplicaSpool (cuts.flatMap (frame key)) = some (scan key cuts) := by
  induction cuts using List.reverseRecOn with
  | nil => rfl
  | append_singleton cuts c ih =>
    rw [Sorted, List.pairwise_append] at hsorted
    have hcuts := ih hsorted.1
    obtain ⟨bytes, hseal, -⟩ := c.exists_seal key [] rfl (Nat.zero_le _)
    have hframe : frame key c = bytes := by rw [frame, hseal, Option.getD_some]
    have hlast : ∀ previous ∈ (scan key cuts).commits.getLast?, ∃ d ∈ cuts, toCommit key d = previous := by
      intro previous hprevious
      exact List.mem_map.mp (List.mem_of_getLast? hprevious)
    rw [List.flatMap_append, List.flatMap_singleton, hframe]
    refine (scanFrom_append_frame hcuts rfl (sealReplicaCommit_eq_some.mp hseal).2.2.2
      (.inr rfl)).trans ?_
    rw [scanFrame_commit (spoolFrame_commit hseal) (openCommit_seal (Nat.zero_le _) hseal)]
    · simp [scan, hframe, toCommit]
    · intro k hk
      simp only [scan, Option.mem_def, Option.ite_none_left_eq_some, Option.some.injEq] at hk
      exact hk.2.symm
    · intro artifact hartifact
      cases hartifact
    · intro previous hprevious
      obtain ⟨d, hd, rfl⟩ := hlast previous hprevious
      exact (hsorted.2.2 d hd c List.mem_cons_self).2
    · intro hsame
      obtain ⟨d, hd, heq⟩ := hlast _ hsame
      exact (hsorted.2.2 d hd c List.mem_cons_self).1 (congrArg ReplicaCommitFrame.info heq)

end BareCut

def cutResidue (source peer : HostId) (volume : VolumeId) (epoch : UInt64) (cuts : List BareCut) :
    ReplicaResidue :=
  ⟨source, peer, epoch, cuts.flatMap (BareCut.frame ⟨source, volume, epoch⟩)⟩

/-- The residue of one commit of a record that covers no sync. -/
def bareResidue (source peer : HostId) (volume : VolumeId) (epoch fence seq : UInt64) :
    ReplicaResidue :=
  cutResidue source peer volume epoch [⟨fence, seq, 0, 0⟩]

theorem verifyScanIdentity_cuts (source peer : HostId) (volume : VolumeId) (epoch : UInt64)
    (cuts : List BareCut) :
    verifyScanIdentity source volume (cutResidue source peer volume epoch cuts)
      (BareCut.scan ⟨source, volume, epoch⟩ cuts) = true := by
  simp [verifyScanIdentity, BareCut.scan, cutResidue, BareCut.toCommit]

section

variable {source peer : HostId} {epoch : UInt64} {cuts : List BareCut} {c : BareCut}

theorem scan_cutResidue (hsorted : BareCut.Sorted cuts) :
    scanReplicaSpool (cutResidue source peer volume epoch cuts).bytes =
      some (BareCut.scan ⟨source, volume, epoch⟩ cuts) :=
  BareCut.scan_frames hsorted

theorem residueCommit_cuts (hsorted : BareCut.Sorted cuts)
    (h : ResidueCommit volume (cutResidue source peer volume epoch cuts) commit record) :
    ∃ c ∈ cuts, commit = BareCut.toCommit ⟨source, volume, epoch⟩ c ∧ record = c.record := by
  obtain ⟨⟨scan, hscan, hcommit⟩, hdecodes⟩ := h
  rw [scan_cutResidue hsorted, Option.some.injEq] at hscan
  rw [← hscan] at hcommit
  obtain ⟨c, hc, rfl⟩ := List.mem_map.mp hcommit
  exact ⟨c, hc, rfl, Option.some.inj (hdecodes.symm.trans c.decode_toCommit)⟩

theorem lastCommit_cuts (hsorted : BareCut.Sorted cuts) (hlast : cuts.getLast? = some c) :
    LastCommit volume (cutResidue source peer volume epoch cuts)
      (BareCut.toCommit ⟨source, volume, epoch⟩ c) c.record := by
  refine ⟨⟨_, scan_cutResidue hsorted, ?_⟩, c.decode_toCommit⟩
  rw [BareCut.scan, List.getLast?_map, hlast, Option.map_some]

/-- What is found in such a residue whose last commit is `c`. -/
def cutCandidate (source peer : HostId) (volume : VolumeId) (epoch : UInt64) (cuts : List BareCut)
    (c : BareCut) : RecoveryCandidate :=
  ⟨cutResidue source peer volume epoch cuts, BareCut.scan ⟨source, volume, epoch⟩ cuts,
    BareCut.toCommit ⟨source, volume, epoch⟩ c, c.record⟩

/-- A residue that the head names is accepted with its last commit. -/
theorem checkResidue_cuts (headVersion : UInt64) {head : HeadRecord} {assignment : StashAssignment}
    (hsorted : BareCut.Sorted cuts) (hlast : cuts.getLast? = some c)
    (hnamed : residueNamed head assignment (cutResidue source peer volume epoch cuts) = true) :
    checkResidue source volume headVersion head assignment
        (cutResidue source peer volume epoch cuts) =
      .ok (some (cutCandidate source peer volume epoch cuts c)) := by
  have hscan : scanReplicaSpool (cutResidue source peer volume epoch cuts).bytes = some _ :=
    scan_cutResidue hsorted
  have hidentity := verifyScanIdentity_cuts source peer volume epoch cuts
  have hcommit : (BareCut.scan ⟨source, volume, epoch⟩ cuts).commits.getLast? =
      some (BareCut.toCommit ⟨source, volume, epoch⟩ c) := by
    rw [BareCut.scan, List.getLast?_map, hlast, Option.map_some]
  rw [cutCandidate]
  generalize cutResidue source peer volume epoch cuts = residue at *
  rw [checkResidue]
  refine bind_eq_ok.mpr ⟨(), ensureOr_eq_ok.mpr (.inl hnamed), ?_⟩
  refine bind_eq_ok.mpr ⟨_, okOr_eq_ok.mpr hscan, ?_⟩
  refine bind_eq_ok.mpr ⟨(), ensureOr_eq_ok.mpr hidentity, ?_⟩
  rw [hcommit]
  refine bind_eq_ok.mpr ⟨_, okOr_eq_ok.mpr c.decode_toCommit, ?_⟩
  exact bind_eq_ok.mpr ⟨(), ensureOr_eq_ok.mpr (.inl hnamed), rfl⟩

end

/-- A record without files is exported. -/
theorem exists_exportCommit_bare (volume : VolumeId) (storeObjects : StoreObjects)
    (best : RecoveryCandidate) (hfiles : best.record.files = []) :
    ∃ exported, exportCommit volume best storeObjects = .ok exported := by
  have hneeded : neededBlxFiles volume best.record = [] := by simp [neededBlxFiles, hfiles]
  rw [exportCommit, hneeded]
  exact ⟨_, rfl⟩

/-- The archive of a bare record. -/
def bareManifest (volume : VolumeId) (fence journalSeq archiveSeq : UInt64) : Manifest where
  volume
  writerFence := fence
  journalSeq
  archiveSeq
  captureSeq := 0
  syncCoveredThrough := 0
  recoveryKind := .diskOnly
  checkpointEpoch := 0
  config := (bareRecord fence journalSeq).config
  vmstateLogicalLength := 0
  base := none
  completeList := none
  postStateChecksum := 0
  metadataChecksum := 0
  added := []
  removed := []

/-- A manifest is read from where its pointer says. -/
theorem storeRecord_of_encode {m : Manifest} {bytes : Bytes} {storeObjects : StoreObjects}
    (hbytes : m.encode = some bytes) (hpages : m.config.pages ≠ 0)
    (hadded : ∀ f ∈ m.added, f.WellFormed)
    (hstore : storeObjects ((m.pointer bytes).manifestKey m.volume) = some bytes) :
    storeRecord m.volume (m.pointer bytes) storeObjects = .ok m := by
  rw [storeRecord]
  refine bind_eq_ok.mpr ⟨bytes, okOr_eq_ok.mpr hstore, ?_⟩
  refine bind_eq_ok.mpr ⟨(), ensureOr_eq_ok.mpr rfl, ?_⟩
  refine bind_eq_ok.mpr ⟨m, okOr_eq_ok.mpr (Manifest.decode_encode hbytes hpages hadded), ?_⟩
  exact bind_eq_ok.mpr ⟨(), ensureOr_eq_ok.mpr rfl, rfl⟩

/-- The head of volume 7 on host 1, with its passive on host 2. -/
def soloHead (manifest : Option ManifestPtr) : HeadRecord :=
  ⟨7, 1, 1, manifest, some ⟨1, 2, 1, none, 1⟩, []⟩

theorem newest_of_solo (manifest : Option ManifestPtr) (seq : UInt64) :
    newestCandidate 1 7 1 (soloHead manifest) [bareResidue 1 2 7 1 1 seq] =
      .ok (cutCandidate 1 2 7 1 [⟨1, seq, 0, 0⟩] ⟨1, seq, 0, 0⟩) := by
  have hcheck : checkResidue 1 7 1 (soloHead manifest) ⟨1, 2, 1, none, 1⟩
      (bareResidue 1 2 7 1 1 seq) = .ok (some (cutCandidate 1 2 7 1 [⟨1, seq, 0, 0⟩] ⟨1, seq, 0, 0⟩)) :=
    checkResidue_cuts 1 (List.pairwise_singleton _ _) rfl rfl
  rw [newestCandidate]
  refine bind_eq_ok.mpr ⟨_, rfl, bind_eq_ok.mpr ⟨[some _], ?_, rfl⟩⟩
  rw [List.mapM_cons, hcheck]
  rfl

theorem lastCommitsLead_solo (seq : UInt64) : LastCommitsLead 7 [bareResidue 1 2 7 1 1 seq] := by
  intro residue hresidue commit record hcommit
  obtain rfl := List.mem_singleton.mp hresidue
  obtain ⟨c, hc, rfl, rfl⟩ := residueCommit_cuts (List.pairwise_singleton _ _) hcommit
  obtain rfl := List.mem_singleton.mp hc
  exact ⟨_, List.mem_singleton_self _, _, _, lastCommit_cuts (List.pairwise_singleton _ _) rfl, le_rfl⟩

/-! ## Two residues of two commits each -/

/-- Volume 7 moves its passive from host 2 to host 3. -/
def movingHead : HeadRecord := ⟨7, 1, 1, none, some ⟨2, 2, 1, some 3, 1⟩, []⟩

/-- The mutation counter falls back in the spool of host 2, while its sync goes on. -/
def firstCuts : List BareCut := [⟨1, 1, 0, 5⟩, ⟨1, 2, 1, 3⟩]

def secondCuts : List BareCut := [⟨1, 2, 1, 3⟩, ⟨1, 3, 1, 6⟩]

/-- The spools of hosts 2 and 3. -/
def movingResidues : List ReplicaResidue :=
  [cutResidue 1 2 7 1 firstCuts, cutResidue 1 3 7 2 secondCuts]

omit [Platform] in
theorem sorted_movingCuts : BareCut.Sorted firstCuts ∧ BareCut.Sorted secondCuts := by
  unfold BareCut.Sorted
  decide

omit [Platform] in
theorem le_movingCuts : ∀ c ∈ firstCuts ++ secondCuts,
    recoveryRank c.sync c.capture c.seq ≤ recoveryRank 1 6 3 := by
  decide

theorem lastCommitsLead_moving : LastCommitsLead 7 movingResidues := by
  have hlast : LastCommit 7 (cutResidue 1 3 7 2 secondCuts)
      (BareCut.toCommit ⟨1, 7, 2⟩ ⟨1, 3, 1, 6⟩) (BareCut.record ⟨1, 3, 1, 6⟩) :=
    lastCommit_cuts sorted_movingCuts.2 rfl
  intro residue hresidue commit record hcommit
  refine ⟨_, by simp [movingResidues], _, _, hlast, ?_⟩
  rcases List.mem_cons.mp hresidue with rfl | hresidue
  · obtain ⟨c, hc, rfl, rfl⟩ := residueCommit_cuts sorted_movingCuts.1 hcommit
    exact le_movingCuts c (List.mem_append_left _ hc)
  · obtain rfl := List.mem_singleton.mp hresidue
    obtain ⟨c, hc, rfl, rfl⟩ := residueCommit_cuts sorted_movingCuts.2 hcommit
    exact le_movingCuts c (List.mem_append_right _ hc)

/-- Both residues are accepted, and the last commit of host 3 is exported. -/
theorem exists_export_moving : ∃ exported, exportReplicaRecovery 1 7 1 movingHead movingResidues
    (fun _ => none) = .ok exported ∧ exported.info = ⟨1, 3, 1⟩ := by
  have hfirst : checkResidue 1 7 1 movingHead ⟨2, 2, 1, some 3, 1⟩ (cutResidue 1 2 7 1 firstCuts) =
      .ok (some (cutCandidate 1 2 7 1 firstCuts ⟨1, 2, 1, 3⟩)) :=
    checkResidue_cuts 1 sorted_movingCuts.1 rfl rfl
  have hsecond : checkResidue 1 7 1 movingHead ⟨2, 2, 1, some 3, 1⟩
      (cutResidue 1 3 7 2 secondCuts) = .ok (some (cutCandidate 1 3 7 2 secondCuts ⟨1, 3, 1, 6⟩)) :=
    checkResidue_cuts 1 sorted_movingCuts.2 rfl rfl
  have hbest : newestCandidate 1 7 1 movingHead movingResidues =
      .ok (cutCandidate 1 3 7 2 secondCuts ⟨1, 3, 1, 6⟩) := by
    rw [newestCandidate]
    refine bind_eq_ok.mpr ⟨_, rfl, bind_eq_ok.mpr ⟨[some (cutCandidate 1 2 7 1 firstCuts ⟨1, 2, 1, 3⟩),
      some (cutCandidate 1 3 7 2 secondCuts ⟨1, 3, 1, 6⟩)], ?_, rfl⟩⟩
    rw [movingResidues, List.mapM_cons, hfirst, List.mapM_cons, hsecond]
    rfl
  obtain ⟨exported, hcommit⟩ := exists_exportCommit_bare 7 (fun _ => none)
    (cutCandidate 1 3 7 2 secondCuts ⟨1, 3, 1, 6⟩) rfl
  exact ⟨exported, bind_eq_ok.mpr ⟨_, hbest, bind_eq_ok.mpr ⟨(), rfl, hcommit⟩⟩,
    (blobs_of_exportCommit hcommit).2.2.1⟩

end

theorem export_newest_cut_moving : letI := storedPlatform
    LastCommitsLead 7 movingResidues ∧
    ∃ exported, exportReplicaRecovery 1 7 1 movingHead movingResidues (fun _ => none) =
        .ok exported ∧ exported.info = ⟨1, 3, 1⟩ ∧
      ∃ residue commit record, NewestCommit 7 movingResidues residue commit record ∧
        exported.info = commit.info := by
  let _ := storedPlatform
  obtain ⟨exported, hexport, hseq⟩ := exists_export_moving
  obtain ⟨residue, -, commit, record, _, -, -, -, hinfo, -, hnewest⟩ :=
    (export_newest_cut 1 7 1 movingHead movingResidues (fun _ => none)).1 exported hexport
  have hlead := lastCommitsLead_moving
  exact ⟨hlead, exported, hexport, hseq, residue, commit, record, hnewest.mpr hlead,
    congrArg Prod.fst hinfo⟩

/-- **A manifest that was published often hides the peer's cut.**  The archive holds the same record
as the peer, as its fifth publication, and the export takes the peer's cut for older. -/
theorem not_export_newest_cut :
    ¬ ∀ [Platform] (source : HostId) (volume : VolumeId) (headVersion : UInt64) (head : HeadRecord)
      (residues : List ReplicaResidue) (storeObjects : StoreObjects),
      LastCommitsLead volume residues →
      ∀ best ptr m, newestCandidate source volume headVersion head residues = .ok best →
        head.manifest = some ptr → storeRecord volume ptr storeObjects = .ok m →
        (exportReplicaRecovery source volume headVersion head residues storeObjects =
            .error .storeRecoveryPointNewer ↔
          ∀ residue ∈ residues, ∀ commit record, ResidueCommit volume residue commit record →
            cutRank commit record < m.journalRank) := by
  intro hall
  let _ := storedPlatform
  obtain ⟨bytes, hbytes⟩ := Manifest.exists_encode_of_unchanged (m := bareManifest 7 1 3 5) rfl rfl
    le_rfl
  let head := soloHead (some ((bareManifest 7 1 3 5).pointer bytes))
  have hbest := newest_of_solo (some ((bareManifest 7 1 3 5).pointer bytes)) 3
  have hm : storeRecord 7 ((bareManifest 7 1 3 5).pointer bytes) (fun _ => some bytes) =
      .ok (bareManifest 7 1 3 5) :=
    storeRecord_of_encode hbytes (show (bareRecord 1 3).config.pages ≠ 0 by decide) nofun rfl
  have hlead := lastCommitsLead_solo 3
  have hclaim := hall 1 7 1 head _ (fun _ => some bytes) hlead _ _ _ hbest rfl hm
  have hcounts := (refuses_exactly_iff hlead hbest rfl hm).mp hclaim _ _ _
    ((newestCommit_iff hbest).mpr hlead) rfl rfl
  exact absurd (hcounts.mp (show (3 : UInt64) < 5 by decide)) (show ¬ (3 : UInt64) < 3 by decide)

end Blockd
