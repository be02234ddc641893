import Blockd.Engine.History
import Blockd.Engine.PublishSpec

/-!
# The vmstate of an archive through its tenures

The vmstate of an archive is read block by block, from the newest entry any of its objects has.
Which checkpoint's is it?

* `ArchiveHolds` — what an archive of the volume holds of the vmstate of its record;
* `archiveHolds_of_publishes` — a publication keeps it;
* `Lineage.Traces` — the invariant of all steps: every archive that the head names or may come to name
  holds the vmstate of its record.
-/

set_option autoImplicit false

open Codec
open Std (ExtTreeMap)

namespace Blockd

/-- The name of a record, also that of the manifest it is published as. -/
abbrev RecordName := UInt64 × JournalSeq

def JournalRecord.name (record : JournalRecord) : RecordName := (record.fence, record.seq)

def ManifestPtr.name (pointer : ManifestPtr) : RecordName := (pointer.fence, pointer.journalSeq)

def ManifestClosure.name (closure : ManifestClosure) : RecordName :=
  (closure.manifest.writerFence, closure.manifest.journalSeq)

/-- A record of the same volume that is not newer.  Numbers go on through tenures. -/
def Precedes (a b : RecordName) : Prop := a.2 < b.2 ∨ a = b

theorem Precedes.refl (a : RecordName) : Precedes a a := .inr rfl

variable {b : RecordName}

variable {a : RecordName}

theorem Precedes.trans {c : RecordName} (h : Precedes a b) (h' : Precedes b c) : Precedes a c := by
  rcases h with h | rfl
  · rcases h' with h' | rfl
    · exact .inl (h.trans h')
    · exact .inl h
  · exact h'

theorem Precedes.antisymm (h : Precedes a b) (h' : Precedes b a) : a = b := by
  rcases h with h | h
  · rcases h' with h' | h'
    · exact absurd (h.trans h') (lt_irrefl _)
    · exact h'.symm
  · exact h

theorem Precedes.le (h : Precedes a b) : a.2 ≤ b.2 := by
  rcases h with h | rfl
  · exact h.le
  · exact le_rfl

variable [Platform]

/-! ## Archives -/

/-- What an archive of the volume holds of the vmstate of its record. -/
structure ArchiveHolds (store : ObjectStore) (vmstates : RecordName → Option Bytes)
    (written : ObjectIdentity → Option Bytes) (closure : ManifestClosure) : Prop where
  sound : SoundArchive store closure
  /-- A file that is not a merged one is as the volume has written it. -/
  own : ∀ r ∈ closure.files, r.identity.objectId.toNat < 2 ^ 63 →
    written r.identity = store r.identity
  pages : closure.manifest.config.pages ≠ 0
  small : closure.manifest.journalSeq.toNat < 2 ^ 31 - 1
  entries : ∀ e, EntryOf store closure.files e → e.key.space = .vmm →
    e.generation ≤ closure.name.2 ∧
      (e.generation = closure.name.2 → VmmEntry closure.name.2 (vmstates closure.name) e)
  blocks : ∀ bytes ∈ vmstates closure.name, ∃ blocks, vmmSnapshotBlocks bytes = some blocks ∧
    ∀ key padded, (key, padded) ∈ blocks → EntryOf store closure.files (.data key closure.name.2 padded)
  /-- A checkpoint is published as one that can be resumed. -/
  whole : ∀ bytes ∈ vmstates closure.name, closure.manifest.recoveryKind = .whole ∧
    closure.manifest.vmstateLogicalLength.toNat = bytes.length ∧
    closure.manifest.config.kind = .memory ∧
    closure.manifest.syncCoveredThrough ≤ closure.manifest.captureSeq

section

variable {store store' : ObjectStore} {vmstates vmstates' : RecordName → Option Bytes}
  {written written' : ObjectIdentity → Option Bytes} {closure : ManifestClosure}

theorem SoundArchive.mono (h : SoundArchive store closure)
    (hs : ∀ i bytes, store i = some bytes → store' i = some bytes) : SoundArchive store' closure :=
  ⟨h.wellFormed, h.files.mono hs, h.listed.mono hs⟩

/-- The bytes of an archive's file. -/
theorem SoundArchive.exists_bytes (h : SoundArchive store closure) {r : ObjectRef}
    (hr : r ∈ closure.files) : ∃ bytes, store r.identity = some bytes := by
  obtain ⟨o, ho⟩ := h.files r hr
  exact ⟨o.bytes, ho.stored⟩

/-- A store that has grown. -/
theorem ArchiveHolds.mono_store (h : ArchiveHolds store vmstates written closure)
    (hs : ∀ i bytes, store i = some bytes → store' i = some bytes) :
    ArchiveHolds store' vmstates written closure := by
  refine ⟨h.sound.mono hs, fun r hr hid => ?_, h.pages, h.small, fun e he => ?_,
    fun bytes hbytes => ?_, h.whole⟩
  · obtain ⟨bytes, hbytes⟩ := h.sound.exists_bytes hr
    rw [h.own r hr hid, hbytes, hs _ _ hbytes]
  · exact h.entries e (EntryOf.of_mono h.sound.files hs he)
  · obtain ⟨blocks, hblocks, hall⟩ := h.blocks bytes hbytes
    exact ⟨blocks, hblocks, fun key padded hp => (hall key padded hp).mono hs fun _ hr => hr⟩

/-- A history that has gone on. -/
theorem ArchiveHolds.mono_history {fence : UInt64} {nextSeq : JournalSeq}
    (h : ArchiveHolds store vmstates written closure)
    (hgo : GoesOn fence nextSeq vmstates vmstates' written written')
    (hseq : closure.name.2 < nextSeq) : ArchiveHolds store vmstates' written' closure := by
  have hname : vmstates' closure.name = vmstates closure.name := hgo.vmstates _ (.inr hseq)
  refine ⟨h.sound, fun r hr hid => ?_, h.pages, h.small, ?_, ?_, ?_⟩
  · obtain ⟨bytes, hbytes⟩ := h.sound.exists_bytes hr
    have hwritten := h.own r hr hid
    rw [hbytes] at hwritten ⊢
    exact hgo.written _ _ hwritten
  · rw [hname]
    exact h.entries
  · rw [hname]
    exact h.blocks
  · rw [hname]
    exact h.whole

end

/-! ## Publication -/

section

variable {disk : Disk} {remote : Remote} {bases : BaseRef → Option BaseManifest} {volume : VolumeId}
  {snapshot : PublishSnapshot} {previous closure : ManifestClosure} {pointer : ManifestPtr}
  {current files : List ObjectRef} {vmstates : RecordName → Option Bytes}
  {written : ObjectIdentity → Option Bytes}

/-- What is known of the volume's files when a publication starts. -/
structure FilesKnown (disk : Disk) (vmstates : RecordName → Option Bytes)
    (written : ObjectIdentity → Option Bytes) : Prop where
  files : ∀ i bytes, written i = some bytes → ∃ o, o.bytes = bytes ∧ WrittenFile vmstates i o
  disk : ∀ (i : ObjectIdentity) blob, disk.blx[i]? = some blob → written i = some blob.bytes

/-- A file of the record that was uploaded is as the volume has written it. -/
theorem FilesKnown.written_of_upload (h : FilesKnown disk vmstates written) {r : ObjectRef}
    {o : BlxObject} {blob : StoredBlx}
    (hblob : disk.blx[ObjectIdentity.volume volume r.identity.writerFence r.identity.objectId]? =
      some blob) (hbytes : blob.bytes = o.bytes) (ho : FileAt remote.objects r o) :
    written r.identity = some o.bytes ∧ WrittenFile vmstates r.identity o := by
  have hwritten := h.disk _ _ hblob
  obtain ⟨o', ho', hfile⟩ := h.files _ _ hwritten
  have heq : o' = o := by
    have hopen := hfile.opens
    rw [ho', hbytes, ho.opens] at hopen
    exact (Option.some.inj hopen).symm
  subst heq
  have hidentity := hfile.identity
  rw [ho.reference] at hidentity
  rw [← hidentity] at hwritten hfile
  exact ⟨ho' ▸ hwritten, hfile⟩

omit [Platform] in
/-- The ids of merged files are above those of captures. -/
theorem le_of_compactionObjectIdStart {slot start : UInt64} (hslot : slot.toNat < 2 ^ 31 - 1)
    (h : compactionObjectIdStart slot = some start) : 2 ^ 63 ≤ start.toNat := by
  simp only [compactionObjectIdStart, Option.ite_none_right_eq_some, Option.some.injEq] at h
  obtain ⟨-, rfl⟩ := h
  have hmul : (slot.toNat + 1) * 2 ^ 32 ≤ (2 ^ 31 - 1) * 2 ^ 32 := Nat.mul_le_mul_right _ (by omega)
  rw [UInt64.toNat_ofNat', Nat.mod_eq_of_lt]
  · omega
  · have hpos : 0 < (slot.toNat + 1) * 2 ^ 32 := Nat.mul_pos (Nat.succ_pos _) (by decide)
    omega

variable (hknown : FilesKnown disk vmstates written)
  (hrecord : HeldRecord volume vmstates written snapshot.record)
  (hprevious : ArchiveHolds remote.objects vmstates written previous)
  (hprecedes : Precedes previous.name snapshot.record.name)
  (hpublishes : Publishes disk remote bases volume snapshot (some previous) pointer current files)

include hknown hprevious hpublishes in
/-- A gathered file that is not a merged one is as the volume has written it. -/
theorem written_of_gathered {r : ObjectRef} (hr : r ∈ current)
    (hid : r.identity.objectId.toNat < 2 ^ 63) : written r.identity = remote.objects r.identity := by
  rcases hpublishes.gathers.origin r hr with ⟨c, hc, hrc⟩ | ⟨-, o, blob, hblob, hbytes, ho⟩
  · cases hc
    exact hprevious.own r hrc hid
  · rw [(hknown.written_of_upload hblob hbytes ho).1, ho.stored]

include hknown hrecord hprevious hprecedes hpublishes in
/-- The VMM entries of the gathered files are not newer than the record, and those of its number are
its own. -/
theorem entries_of_gathered {e : BlxEntry} (he : EntryOf remote.objects current e)
    (hvmm : e.key.space = .vmm) : e.generation ≤ snapshot.record.seq ∧
      (e.generation = snapshot.record.seq →
        VmmEntry snapshot.record.seq (vmstates snapshot.record.name) e) := by
  obtain ⟨r, hr, o, entries, ho, hentries, hmem⟩ := he
  rcases hpublishes.gathers.origin r hr with ⟨c, hc, hrc⟩ | ⟨href, o', blob, hblob, hbytes, ho'⟩
  · cases hc
    obtain ⟨hle, hown⟩ := hprevious.entries e ⟨r, hrc, o, entries, ho, hentries, hmem⟩ hvmm
    rcases hprecedes with hlt | hname
    · have hlt' : e.generation < snapshot.record.seq := hle.trans_lt hlt
      exact ⟨hlt'.le, fun heq => absurd heq hlt'.ne⟩
    · have hseq : snapshot.record.seq = previous.name.2 := congrArg Prod.snd hname.symm
      rw [hseq, ← hname]
      exact ⟨hle, hown⟩
  · cases ho'.unique ho
    obtain ⟨-, hfile⟩ := hknown.written_of_upload hblob hbytes ho
    obtain ⟨hmax, hfence, -⟩ := hrecord.files r (List.mem_filter.mp href).1
    have hseq : o.header.maxSeq = r.maxSeq := by
      rw [← ho.reference]
      rfl
    obtain ⟨entries', hentries', hall⟩ := hfile.entries
    rw [hentries.unique hentries'] at hmem
    have hentry := hall e hmem
    rw [hseq, hfence] at hentry
    obtain ⟨hgen, -⟩ := hentry hvmm
    rw [hgen]
    refine ⟨hmax, fun heq => ?_⟩
    rw [heq] at hentry
    exact hentry

include hknown hrecord hprevious hprecedes hpublishes in
/-- The blocks of the record's vmstate are in the gathered files: those it names itself, unless the
previous archive is of the same record. -/
theorem blocks_of_gathered {bytes : Bytes} (hbytes : bytes ∈ vmstates snapshot.record.name)
    (hheld : previous.name = snapshot.record.name ∨
      HeldBlocks vmstates written snapshot.record) :
    ∃ blocks, vmmSnapshotBlocks bytes = some blocks ∧ ∀ key padded, (key, padded) ∈ blocks →
      EntryOf remote.objects current (.data key snapshot.record.seq padded) := by
  have hsame : previous.name = snapshot.record.name → ∃ blocks,
      vmmSnapshotBlocks bytes = some blocks ∧ ∀ key padded, (key, padded) ∈ blocks →
        EntryOf remote.objects current (.data key snapshot.record.seq padded) := by
    intro hname
    have hseq : snapshot.record.seq = previous.name.2 := congrArg Prod.snd hname.symm
    rw [← hname] at hbytes
    obtain ⟨blocks, hblocks, hall⟩ := hprevious.blocks bytes hbytes
    refine ⟨blocks, hblocks, fun key padded hp => ?_⟩
    rw [hseq]
    exact (hall key padded hp).mono (fun _ _ h => h) (hpublishes.gathers.keeps previous rfl)
  by_cases hname : previous.name = snapshot.record.name
  · exact hsame hname
  · obtain ⟨blocks, hblocks, hall⟩ := (hheld.resolve_left hname) bytes hbytes
    refine ⟨blocks, hblocks, fun key padded hp => ?_⟩
    obtain ⟨r, hr, hmax, o, entries, hwritten, hopen, hentries, hmem⟩ := hall key padded hp
    obtain ⟨-, hfence, -⟩ := hrecord.files r hr
    have href : r ∈ snapshot.blxRefs volume := List.mem_filter.mpr ⟨hr, hrecord.own r hr⟩
    obtain ⟨q, hq, hidentity⟩ := hpublishes.gathers.covers r href (by
      intro c hc hcovered
      cases hc
      rw [hmax] at hcovered
      rcases hprecedes with hlt | heq
      · exact absurd hcovered.2 (not_le.mpr hlt)
      · exact hname heq)
    obtain ⟨o', ho'⟩ := hpublishes.stored q hq
    have hsmall : q.identity.objectId.toNat < 2 ^ 63 := by
      obtain ⟨o'', -, hfile⟩ := hknown.files _ _ hwritten
      rw [hidentity]
      exact hfile.small
    have hstored := written_of_gathered hknown hprevious hpublishes hq hsmall
    rw [hidentity, hwritten, ← hidentity, ho'.stored] at hstored
    have heq : o' = o := by
      have hopen' := ho'.opens
      rw [← Option.some.inj hstored, hopen] at hopen'
      exact (Option.some.inj hopen').symm
    subst heq
    exact ⟨q, hq, o', entries, ho', hentries, hmem⟩

include hknown hrecord hprevious hprecedes hpublishes in
/-- **A publication keeps what archives hold.** -/
theorem archiveHolds_of_publishes
    (hheld : previous.name = snapshot.record.name ∨ HeldBlocks vmstates written snapshot.record)
    (hclosure : LoadedFrom (remote.metadata bases) volume pointer closure) :
    ArchiveHolds remote.objects vmstates written closure := by
  have harchive := hpublishes.archive closure hclosure
  have hname : closure.name = snapshot.record.name :=
    Prod.ext harchive.describes.writerFence harchive.describes.journalSeq
  have hfiles : ∀ e, EntryOf remote.objects closure.files e ↔ EntryOf remote.objects files e :=
    fun _ => entryOf_congr harchive.files
  have hentries : ∀ e, EntryOf remote.objects files e → e.key.space = .vmm →
      e.generation ≤ snapshot.record.seq ∧ (e.generation = snapshot.record.seq →
        VmmEntry snapshot.record.seq (vmstates snapshot.record.name) e) := fun e he =>
    entries_of_gathered hknown hrecord hprevious hprecedes hpublishes (hpublishes.compacts.sub e he)
  refine ⟨⟨fun r hr => ?_, fun r hr => ?_, harchive.listed⟩, fun r hr hid => ?_, ?_, ?_,
    fun e he hvmm => ?_, fun bytes hbytes => ?_, fun bytes hbytes => ?_⟩
  · exact (hpublishes.sound r ((harchive.files r).mp hr)).1
  · exact (hpublishes.sound r ((harchive.files r).mp hr)).2
  · rcases hpublishes.merged r ((harchive.files r).mp hr) with hcurrent | ⟨start, hstart, hle⟩
    · exact written_of_gathered hknown hprevious hpublishes hcurrent hid
    · have hbig := le_of_compactionObjectIdStart hrecord.small hstart
      rw [UInt64.le_iff_toNat_le] at hle
      omega
  · rw [harchive.describes.config]
    exact hrecord.pages
  · rw [harchive.describes.journalSeq]
    exact hrecord.small
  · rw [hname]
    exact hentries e ((hfiles e).mp he) hvmm
  · rw [hname] at hbytes ⊢
    obtain ⟨blocks, hblocks, hall⟩ :=
      blocks_of_gathered hknown hrecord hprevious hprecedes hpublishes hbytes hheld
    refine ⟨blocks, hblocks, fun key padded hp => (hfiles _).mpr ?_⟩
    -- the newest entry of the key is not newer than the record, so it is the record's own
    have hvmm : key.space = .vmm := by
      have hkey : key ∈ blocks.map Prod.fst := List.mem_map_of_mem hp
      rw [(keys_vmmSnapshotBlocks hblocks).2] at hkey
      obtain ⟨block, -, rfl⟩ := List.mem_map.mp hkey
      rfl
    obtain ⟨e, he, hekey, hge⟩ := hpublishes.compacts.newest _ (hall key padded hp)
    have hekey' : e.key = key := hekey
    obtain ⟨hle, hown⟩ := hentries e he (by rw [hekey', hvmm])
    have hgen : e.generation = snapshot.record.seq := le_antisymm hle hge
    have hdata := (hown hgen (by rw [hekey', hvmm])).2 bytes hbytes blocks hblocks padded
      (by rw [hekey']; exact hp)
    rw [hekey'] at hdata
    exact hdata ▸ he
  · rw [hname] at hbytes
    obtain ⟨epoch, length, hmeta, hlength⟩ := hrecord.whole bytes hbytes
    have hrecovery := harchive.describes.recovery
    rw [hmeta] at hrecovery
    simp only [Prod.mk.injEq] at hrecovery
    obtain ⟨hkind, -, hlogical⟩ := hrecovery
    rw [harchive.describes.config, harchive.describes.syncCoveredThrough,
      harchive.describes.captureSeq, hlogical]
    refine ⟨hkind, hlength, ?_⟩
    simp only [recoveryMetadata] at hmeta
    split at hmeta
    · cases hmeta
    · split at hmeta
      · assumption
      · cases hmeta

end

/-! ## The invariant -/

/-- Every record named first precedes every one named second. -/
def Before (x y : Option RecordName) : Prop := ∀ a ∈ x, ∀ b ∈ y, Precedes a b

omit [Platform] in
theorem Before.refl (x : Option RecordName) : Before x x := by
  intro a ha b hb
  rw [Option.mem_unique ha hb]
  exact .refl b

omit [Platform] in
@[simp] theorem Before.none_left (y : Option RecordName) : Before none y := nofun

omit [Platform] in
@[simp] theorem Before.none_right (x : Option RecordName) : Before x none := nofun

omit [Platform] in
theorem Before.trans_some {x z : Option RecordName} (h : Before x (some b))
    (h' : Before (some b) z) : Before x z :=
  fun a ha c hc => (h a ha b rfl).trans (h' b rfl c hc)

namespace Lineage

/-- The records in play, from the one that is in the archive to the newest one. -/
def names (s : Lineage) : List (Option RecordName) :=
  [s.head.map ManifestPtr.name, s.publishing.map fun p => p.snapshot.record.name,
    s.primary.volume.peerCommittedRecord.map JournalRecord.name, s.sending.map JournalRecord.name,
    s.primary.volume.bestRecord.map JournalRecord.name]

/-- The records a publication may start from. -/
def Live (s : Lineage) (record : JournalRecord) : Prop :=
  record ∈ s.primary.volume.peerCommittedRecord ∨ record ∈ s.sending ∨
    record ∈ s.primary.volume.bestRecord

/-- Wherever the writes lead, whatever else is written, the pointer is to an archive over the base
that holds the vmstate of its record. -/
def LeadsTo (s : Lineage) (bases : BaseRef → Option BaseManifest) (b : ForkBase)
    (puts : List (StoreKey × Bytes)) (pointer : ManifestPtr) : Prop :=
  ∀ remote, s.remote.Le remote → (∀ p ∈ puts, remote p.1 = some p.2) → ∀ closure,
    LoadedFrom (remote.metadata bases) s.primary.id pointer closure →
      closure.manifest.base = some b.root.asBaseRef ∧
        ArchiveHolds remote.objects s.vmstates s.written closure

/-- What is known of a record that may be published. -/
structure Publishable (s : Lineage) (record : JournalRecord) : Prop where
  seq : record.seq < s.primary.volume.nextSeq
  held : HeldRecord s.primary.id s.vmstates s.written record
  /-- Its vmstate is in its own files, or in the archive already. -/
  blocks : s.head.map ManifestPtr.name = some record.name ∨
    HeldBlocks s.vmstates s.written record

/-- No fence was used that is newer than the head. -/
structure FencesBelow (s : Lineage) : Prop where
  own : s.primary.volume.fence ≤ s.version
  written : ∀ i bytes, s.written i = some bytes → i.writerFence ≤ s.version
  vmstates : ∀ name bytes, s.vmstates name = some bytes → name.1 ≤ s.version

/-- A fork's archives hold its vmstates. -/
structure Traces (bases : BaseRef → Option BaseManifest) (b : ForkBase) (s : Lineage) : Prop where
  tenure : s.Tenure
  head : ∃ pointer, s.head = some pointer ∧ s.backed = some pointer ∧ s.LeadsTo bases b [] pointer
  publishing : ∀ p ∈ s.publishing, ∀ pointer ∈ p.pointer,
    pointer.name = p.snapshot.record.name ∧ s.LeadsTo bases b p.puts pointer
  archiveBase : s.archiveBase = some b.root.asBaseRef
  best : ∃ record, s.primary.volume.bestRecord = some record
  records : ∀ record, s.Live record → s.Publishable record
  order : s.names.Pairwise Before
  stash : s.stash = false →
    s.primary.volume.peerCommittedRecord = none ∧ s.sending = none
  fences : s.FencesBelow
  baseStored : AllStored s.remote.objects b.manifest.objects
  baseOlder : ∀ name bytes, s.vmstates name = some bytes → ∀ e,
    EntryOf s.remote.objects b.manifest.objects e → e.key.space = .vmm → e.generation < name.2

variable {bases : BaseRef → Option BaseManifest} {b : ForkBase} {s t : Lineage}

omit [Platform] in
theorem pairwise_names_iff {h p q r n : Option RecordName} :
    [h, p, q, r, n].Pairwise Before ↔
      (Before h p ∧ Before h q ∧ Before h r ∧ Before h n) ∧ (Before p q ∧ Before p r ∧ Before p n) ∧
        (Before q r ∧ Before q n) ∧ Before r n := by
  simp [and_assoc]

/-- Nothing that is named is newer than the newest record. -/
theorem Traces.seq_lt (h : s.Traces bases b) {name : RecordName} (hname : some name ∈ s.names) :
    name.2 < s.primary.volume.nextSeq := by
  obtain ⟨record, hbest⟩ := h.best
  have horder := h.order
  rw [names, hbest, pairwise_names_iff] at horder
  obtain ⟨⟨-, -, -, hhead⟩, ⟨-, -, hpublishing⟩, ⟨-, hpeer⟩, hsending⟩ := horder
  have hprecedes : Precedes name record.name := by
    simp only [names, hbest, List.mem_cons, List.not_mem_nil, or_false] at hname
    rcases hname with hn | hn | hn | hn | hn
    · exact hhead name hn.symm _ rfl
    · exact hpublishing name hn.symm _ rfl
    · exact hpeer name hn.symm _ rfl
    · exact hsending name hn.symm _ rfl
    · rw [Option.some.inj hn]
      exact .refl _
  exact hprecedes.le.trans_lt (h.records record (.inr (.inr hbest))).seq

variable {pointer : ManifestPtr} {volume : VolumeId}

theorem LeadsTo.mono {puts puts' : List (StoreKey × Bytes)} {fence : UInt64} {nextSeq : JournalSeq}
    (h : s.LeadsTo bases b puts pointer) (hid : t.primary.id = s.primary.id)
    (hle : s.remote.Le t.remote)
    (hputs : ∀ remote, t.remote.Le remote → (∀ p ∈ puts', remote p.1 = some p.2) →
      ∀ p ∈ puts, remote p.1 = some p.2)
    (hgo : GoesOn fence nextSeq s.vmstates t.vmstates s.written t.written)
    (hseq : pointer.name.2 < nextSeq) : t.LeadsTo bases b puts' pointer := by
  intro remote hremote hthere closure hclosure
  rw [hid] at hclosure
  obtain ⟨hbase, hholds⟩ := h remote (hle.trans hremote) (hputs remote hremote hthere) closure hclosure
  refine ⟨hbase, hholds.mono_history hgo ?_⟩
  rw [show closure.name.2 = pointer.name.2 from hclosure.names.2]
  exact hseq

theorem Publishable.mono {record : JournalRecord} (h : s.Publishable record)
    (hid : t.primary.id = s.primary.id) (hhead : t.head = s.head)
    (hnext : s.primary.volume.nextSeq ≤ t.primary.volume.nextSeq)
    (hgo : GoesOn s.primary.volume.fence s.primary.volume.nextSeq s.vmstates t.vmstates s.written
      t.written) : t.Publishable record := by
  refine ⟨h.seq.trans_le hnext, ?_, ?_⟩
  · rw [hid]
    exact h.held.mono hgo h.seq
  · rw [hhead]
    exact h.blocks.imp_right fun hblocks => hblocks.mono hgo h.seq

/-! ## Captures -/

variable {a : CaptureStep} {bytes : Bytes} {store : ObjectStore} {snapshot : PublishSnapshot}

/-- A file in the history after a step was there before, or is of this tenure. -/
theorem of_noteFile {i : ObjectIdentity} (h : s.noteFile a i = some bytes) :
    s.written i = some bytes ∨ i.writerFence = s.primary.volume.fence := by
  have hnote : s.noteFile a = s.written ∨ ∃ id bytes, s.noteFile a = Function.update s.written
      (ObjectIdentity.volume s.primary.id s.primary.volume.fence id) (some bytes) := by
    unfold noteFile
    split
    · split
      · exact .inr ⟨_, _, rfl⟩
      · exact .inl rfl
    · exact .inl rfl
  rcases hnote with hsame | ⟨id, bytes', hupdate⟩
  · exact .inl (hsame ▸ h)
  · rw [hupdate, Function.update_apply] at h
    split at h
    · rename_i heq
      rw [heq]
      exact .inr rfl
    · exact .inl h

/-- A checkpoint in the history after a step was there before, or has just been cut. -/
theorem of_noteCut {name : RecordName} (h : s.noteCut a name = some bytes) :
    s.vmstates name = some bytes ∨
      name = (s.primary.volume.fence, s.primary.volume.nextSeq) ∧
        ∃ kind checkpoint prepared, a = .reserve kind (some checkpoint) prepared := by
  unfold noteCut at h
  split at h
  · rw [Function.update_apply] at h
    split at h
    · exact .inr ⟨‹_›, _, _, _, rfl⟩
    · exact .inl h
  · exact .inl h

theorem Traces.capture (h : s.Traces bases b) (hsafe : s.SafeNumbers a)
    (hbase : ∀ kind checkpoint prepared, a = .reserve kind (some checkpoint) prepared → ∀ e,
      EntryOf s.remote.objects b.manifest.objects e → e.key.space = .vmm →
        e.generation < s.primary.volume.nextSeq) (hs : s.capture a = some t) :
    t.Traces bases b := by
  have hc := h.tenure.capture hsafe hs
  obtain ⟨p, hp, rfl⟩ := capture_eq_some hs
  obtain ⟨pointer, hhead, hbacked, hleads⟩ := h.head
  obtain ⟨record, hbest⟩ := h.best
  have hold : ∀ record, s.Live record → Publishable { s with
      primary := p, vmstates := s.noteCut a, written := s.noteFile a } record := fun record hr =>
    (h.records record hr).mono hc.id rfl hc.nextSeq hc.goesOn
  refine ⟨hc.tenure, ⟨pointer, hhead, hbacked, ?_⟩, fun q hq pointer' hpointer => ?_, h.archiveBase,
    ?_, fun record' hlive => ?_, ?_, fun hstash => ?_, ⟨?_, fun i bytes hi => ?_,
    fun name bytes hname => ?_⟩, h.baseStored, fun name bytes hname e he hvmm => ?_⟩
  · refine hleads.mono hc.id (.refl _) (fun _ _ hput => hput) hc.goesOn (h.seq_lt ?_)
    simp [names, hhead]
  · obtain ⟨hname, hlead⟩ := h.publishing q hq pointer' hpointer
    refine ⟨hname, hlead.mono hc.id (.refl _) (fun _ _ hput => hput) hc.goesOn (h.seq_lt ?_)⟩
    have hq' : s.publishing = some q := hq
    simp [names, hname, hq']
  · rcases hc.best with hsame | ⟨record', hnew, -⟩
    · exact ⟨record, hsame.trans hbest⟩
    · exact ⟨record', hnew⟩
  · rcases hlive with hpeer | hsending | hnew
    · exact hold record' (.inl (hc.peer ▸ hpeer))
    · exact hold record' (.inr (.inl hsending))
    · rcases hc.best with hsame | ⟨own, hown, hrec⟩
      · exact hold record' (.inr (.inr (hsame ▸ hnew)))
      · obtain rfl : own = record' := Option.some.inj (hown.symm.trans hnew)
        refine ⟨hrec.seq.trans_le hc.nextSeq, ?_, .inr (hrec.blocks.mono hc.goesOn hrec.seq)⟩
        rw [show p.id = s.primary.id from hc.id]
        exact hrec.held.mono hc.goesOn hrec.seq
  · have horder := h.order
    have hpeer : p.volume.peerCommittedRecord = s.primary.volume.peerCommittedRecord := hc.peer
    rcases hc.best with hsame | ⟨own, hown, hrec⟩
    · rw [names, hpeer, show p.volume.bestRecord = _ from hsame]
      exact horder
    · -- the new record comes after the one that was the newest
      rw [names, hbest, pairwise_names_iff] at horder
      rw [names, hpeer, show p.volume.bestRecord = _ from hown, pairwise_names_iff]
      have hlater : Before (some record.name) (some own.name) := by
        rintro _ ⟨⟩ _ ⟨⟩
        exact .inl (hrec.later record hbest)
      obtain ⟨⟨h1, h2, h3, h4⟩, ⟨h5, h6, h7⟩, ⟨h8, h9⟩, h10⟩ := horder
      exact ⟨⟨h1, h2, h3, h4.trans_some hlater⟩, ⟨h5, h6, h7.trans_some hlater⟩,
        ⟨h8, h9.trans_some hlater⟩, h10.trans_some hlater⟩
  · obtain ⟨hpeer, hsending⟩ := h.stash hstash
    exact ⟨hc.peer.trans hpeer, hsending⟩
  · exact hc.fence.le.trans h.fences.own
  · rcases of_noteFile hi with hi | hfence
    · exact h.fences.written i bytes hi
    · exact hfence.le.trans h.fences.own
  · rcases of_noteCut hname with hname | ⟨rfl, -⟩
    · exact h.fences.vmstates name bytes hname
    · exact h.fences.own
  · rcases of_noteCut hname with hname | ⟨rfl, kind, checkpoint, prepared, rfl⟩
    · exact h.baseOlder name bytes hname e he hvmm
    · exact hbase kind checkpoint prepared rfl e he hvmm

/-! ## The other steps on the host -/

/-- What is known when nothing but the volume state changes. -/
structure Keeps (s t : Lineage) : Prop where
  same : SameTenure s t
  inv : t.primary.Inv
  remote : t.remote = s.remote
  archiveBase : t.archiveBase = s.archiveBase
  version : s.version ≤ t.version

/-- The fields that such a step does not touch. -/
theorem Traces.of_keeps (h : s.Traces bases b) (hk : Keeps s t)
    (hhead : ∃ pointer, t.head = some pointer ∧ t.backed = some pointer ∧
      s.LeadsTo bases b [] pointer)
    (hpublishing : ∀ p ∈ t.publishing, ∀ pointer ∈ p.pointer,
      pointer.name = p.snapshot.record.name ∧ s.LeadsTo bases b p.puts pointer)
    (hrecords : ∀ record, t.Live record → s.Live record ∧
      (s.head.map ManifestPtr.name = some record.name →
        t.head.map ManifestPtr.name = some record.name))
    (horder : t.names.Pairwise Before)
    (hstash : t.stash = false → t.primary.volume.peerCommittedRecord = none ∧ t.sending = none) :
    t.Traces bases b := by
  have hsame := hk.same
  have hleads : ∀ puts pointer, s.LeadsTo bases b puts pointer → t.LeadsTo bases b puts pointer := by
    intro puts pointer hl
    simp only [LeadsTo, hk.remote, hsame.id, hsame.vmstates, hsame.written]
    exact hl
  obtain ⟨pointer, hpointer, hbacked, hl⟩ := hhead
  refine ⟨h.tenure.mono hsame hk.inv, ⟨pointer, hpointer, hbacked, hleads _ _ hl⟩,
    fun p hp pointer' hpointer' => ?_, hk.archiveBase.trans h.archiveBase, ?_, fun record hlive => ?_,
    horder, hstash, ⟨?_, fun i bytes hi => ?_, fun name bytes hname => ?_⟩, ?_, ?_⟩
  · obtain ⟨hname, hl'⟩ := hpublishing p hp pointer' hpointer'
    exact ⟨hname, hleads _ _ hl'⟩
  · rw [hsame.bestRecord]
    exact h.best
  · obtain ⟨hlive', hname⟩ := hrecords record hlive
    obtain ⟨hseq, hheld, hblocks⟩ := h.records record hlive'
    refine ⟨hsame.nextSeq ▸ hseq, ?_, ?_⟩
    · rw [hsame.id, hsame.vmstates, hsame.written]
      exact hheld
    · rw [hsame.vmstates, hsame.written]
      exact hblocks.imp_left hname
  · rw [hsame.fence]
    exact h.fences.own.trans hk.version
  · rw [hsame.written] at hi
    exact (h.fences.written i bytes hi).trans hk.version
  · rw [hsame.vmstates] at hname
    exact (h.fences.vmstates name bytes hname).trans hk.version
  · rw [hk.remote]
    exact h.baseStored
  · rw [hk.remote, hsame.vmstates]
    exact h.baseOlder

/-- Discarding archived memory changes two counters. -/
theorem exists_resetArchivedNonData {v v' : VolumeState} {objects : List ObjectRef}
    (h : resetArchivedNonData v volume store objects = some v') :
    ∃ gen checksum, v' = { v with nextGen := gen, stateChecksum := checksum } := by
  simp only [resetArchivedNonData, bind_eq_some, pure_eq_some] at h
  obtain ⟨footers, -, rfl⟩ := h
  generalize (nonDataWinners volume footers objects).toList = winners
  induction winners generalizing v with
  | nil => exact ⟨v.nextGen, v.stateChecksum, rfl⟩
  | cons winner winners ih =>
    rw [List.foldl_cons]
    obtain ⟨gen, checksum, hfold⟩ := @ih { v with
      nextGen := max v.nextGen (nextGeneration winner.2.1.generation)
      stateChecksum :=
        if winner.2.1.kind = .data then
          v.stateChecksum ^^^ stateContribution winner.1 winner.2.1.generation
            winner.2.1.valueChecksum
        else v.stateChecksum }
    exact ⟨gen, checksum, hfold⟩

theorem Traces.reset (h : s.Traces bases b) (hs : s.reset = some t) : t.Traces bases b := by
  rw [Lineage.reset] at hs
  split at hs
  · cases hs
    exact h
  · obtain ⟨volume, hvolume, rfl⟩ := Option.map_eq_some_iff.mp hs
    obtain ⟨gen, checksum, rfl⟩ := exists_resetArchivedNonData hvolume
    exact h.of_keeps ⟨{ SameTenure.refl s with }, h.tenure.inv, rfl, rfl, le_rfl⟩ h.head h.publishing
      (fun record hlive => ⟨hlive, id⟩) h.order h.stash

theorem Traces.assign (h : s.Traces bases b) : s.assign.Traces bases b := by
  refine h.of_keeps ⟨{ SameTenure.refl s with }, h.tenure.inv, rfl, rfl, le_rfl⟩ h.head h.publishing
    (fun record hlive => ⟨?_, id⟩) ?_ nofun
  · rcases hlive with hpeer | hsending | hbest
    · cases hpeer
    · cases hsending
    · exact .inr (.inr hbest)
  · have horder := h.order
    rw [names, pairwise_names_iff] at horder ⊢
    obtain ⟨⟨h1, -, -, h4⟩, ⟨-, -, h7⟩, -⟩ := horder
    exact ⟨⟨h1, .none_right _, .none_right _, h4⟩, ⟨.none_right _, .none_right _, h7⟩,
      ⟨.none_right _, .none_left _⟩, .none_left _⟩

theorem Traces.send (h : s.Traces bases b) (hs : s.send = some t) : t.Traces bases b := by
  simp only [Lineage.send, bind_eq_some, ensure_eq_some, exists_const, pure_eq_some] at hs
  obtain ⟨hstash, record, hbest, rfl⟩ := hs
  refine h.of_keeps ⟨{ SameTenure.refl s with }, h.tenure.inv, rfl, rfl, le_rfl⟩ h.head h.publishing
    (fun record' hlive => ⟨?_, id⟩) ?_ ?_
  · rcases hlive with hpeer | hsending | hbest'
    · exact .inl hpeer
    · exact .inr (.inr (hbest.trans hsending))
    · exact .inr (.inr hbest')
  · have horder := h.order
    rw [names, hbest, pairwise_names_iff] at horder
    rw [names, hbest, pairwise_names_iff]
    obtain ⟨⟨h1, h2, -, h4⟩, ⟨h5, -, h7⟩, ⟨-, h9⟩, -⟩ := horder
    exact ⟨⟨h1, h2, h4, h4⟩, ⟨h5, h7, h7⟩, ⟨h9, h9⟩, .refl _⟩
  · intro hnone
    rw [hstash] at hnone
    cases hnone

theorem Traces.finishCommit (h : s.Traces bases b) (hs : s.finishCommit = some t) :
    t.Traces bases b := by
  simp only [Lineage.finishCommit, bind_eq_some] at hs
  obtain ⟨record, hsending, hs⟩ := hs
  have horder := h.order
  rw [names, hsending, pairwise_names_iff] at horder
  obtain ⟨⟨h1, h2, h3, h4⟩, ⟨h5, h6, h7⟩, ⟨h8, h9⟩, h10⟩ := horder
  have hstash : s.stash = true := by
    by_contra hne
    rw [(h.stash (by simpa using hne)).2] at hsending
    cases hsending
  -- the record that was sent takes the place of the one before, or is dropped
  split at hs
  all_goals
    cases hs
    refine h.of_keeps ⟨{ SameTenure.refl s with }, h.tenure.inv, rfl, rfl, le_rfl⟩ h.head
      h.publishing (fun record' hlive => ⟨?_, id⟩) ?_
      (fun hnone => absurd (hstash.symm.trans hnone) (by decide))
  · rcases hlive with hpeer | hnone | hbest
    · exact .inr (.inl (hsending.trans hpeer))
    · cases hnone
    · exact .inr (.inr hbest)
  · rw [names, pairwise_names_iff]
    exact ⟨⟨h1, h3, .none_right _, h4⟩, ⟨h6, .none_right _, h7⟩, ⟨.none_right _, h10⟩,
      .none_left _⟩
  · rcases hlive with hpeer | hnone | hbest
    · exact .inl hpeer
    · cases hnone
    · exact .inr (.inr hbest)
  · rw [names, pairwise_names_iff]
    exact ⟨⟨h1, h2, .none_right _, h4⟩, ⟨h5, .none_right _, h7⟩, ⟨.none_right _, h9⟩,
      .none_left _⟩

theorem Traces.giveUp (h : s.Traces bases b) : s.giveUp.Traces bases b := by
  refine h.of_keeps ⟨{ SameTenure.refl s with }, h.tenure.inv, rfl, rfl, le_rfl⟩ h.head nofun
    (fun record hlive => ⟨hlive, id⟩) ?_ h.stash
  have horder := h.order
  rw [names, pairwise_names_iff] at horder ⊢
  obtain ⟨⟨-, h2, h3, h4⟩, -, h8, h10⟩ := horder
  exact ⟨⟨.none_right _, h2, h3, h4⟩, ⟨.none_left _, .none_left _, .none_left _⟩, h8, h10⟩

/-- One more object is in the store. -/
theorem Traces.put (h : s.Traces bases b) (hs : s.put = some t) : t.Traces bases b := by
  rw [Lineage.put] at hs
  split at hs
  · rename_i snapshot key bytes puts pointer hpublishing
    obtain ⟨remote, hput, rfl⟩ := Option.map_eq_some_iff.mp hs
    obtain ⟨hle, hthere⟩ := Remote.put_eq_some hput
    obtain ⟨headPointer, hhead, hbacked, hleads⟩ := h.head
    refine ⟨h.tenure.mono { SameTenure.refl s with } h.tenure.inv, ⟨headPointer, hhead, hbacked, ?_⟩, ?_,
      h.archiveBase, h.best, fun record hlive => (h.records record hlive).mono rfl rfl le_rfl .refl,
      ?_, h.stash, ⟨h.fences.own, h.fences.written, h.fences.vmstates⟩,
      h.baseStored.mono hle.objects, fun name bytes hname e he => ?_⟩
    · exact fun remote' hremote' hputs => hleads remote' (hle.trans hremote') hputs
    · rintro _ ⟨⟩ pointer' hpointer'
      obtain ⟨hname, hl⟩ := h.publishing _ hpublishing pointer' hpointer'
      refine ⟨hname, fun remote' hremote' hputs => hl remote' (hle.trans hremote') ?_⟩
      intro p hp
      rcases List.mem_cons.mp hp with rfl | hp
      · exact hremote' _ _ hthere
      · exact hputs p hp
    · have horder := h.order
      rw [names, hpublishing] at horder
      exact horder
    · exact h.baseOlder name bytes hname e (EntryOf.of_mono h.baseStored hle.objects he)
  · cases hs

/-- The head names the archive that was published. -/
theorem Traces.publishHead (h : s.Traces bases b) {version : UInt64}
    (hs : s.publishHead version = some t) : t.Traces bases b := by
  rw [Lineage.publishHead] at hs
  split at hs
  · rename_i snapshot pointer hpublishing
    simp only [bind_eq_some, ensure_eq_some, exists_const, pure_eq_some] at hs
    obtain ⟨hversion, rfl⟩ := hs
    obtain ⟨hname, hl⟩ := h.publishing _ hpublishing pointer rfl
    have horder := h.order
    rw [names, hpublishing, pairwise_names_iff] at horder
    obtain ⟨⟨h1, h2, h3, h4⟩, ⟨h5, h6, h7⟩, ⟨h8, h9⟩, h10⟩ := horder
    refine h.of_keeps ⟨{ SameTenure.refl s with }, h.tenure.inv.mono_needed (fun _ _ _ hi => hi)
        Finset.subset_union_left, rfl, rfl, hversion.le⟩
      ⟨pointer, rfl, rfl, hl⟩ (by simp) (fun record hlive => ⟨hlive, fun hrecord => ?_⟩) ?_ h.stash
    · -- between the old head and a record of the same name there is only that name
      have hbefore : Before (some snapshot.record.name) (some record.name) := by
        rcases hlive with hpeer | hsending | hbest
        · rw [show s.primary.volume.peerCommittedRecord = some record from hpeer] at h5
          exact h5
        · rw [show s.sending = some record from hsending] at h6
          exact h6
        · rw [show s.primary.volume.bestRecord = some record from hbest] at h7
          exact h7
      rw [hrecord] at h1
      show some pointer.name = some record.name
      rw [hname, (hbefore _ rfl _ rfl).antisymm (h1 _ rfl _ rfl)]
    · rw [names, pairwise_names_iff, Option.map_some, hname]
      exact ⟨⟨.none_right _, h5, h6, h7⟩, ⟨.none_left _, .none_left _, .none_left _⟩, ⟨h8, h9⟩, h10⟩
  · cases hs

/-! ## A publication starts -/

/-- A manifest is named after its record. -/
theorem names_of_metadataPuts {previous : Option ManifestClosure} {files : List ObjectRef}
    {puts : List (StoreKey × Bytes)}
    (h : metadataPuts volume snapshot previous files = some (puts, pointer)) :
    pointer.name = snapshot.record.name := by
  obtain ⟨m, newList, bytes, hm, -, rfl, -⟩ := of_metadataPuts h
  simp only [archiveManifest, Option.bind_eq_bind, Option.bind_eq_some_iff, pure_eq_some,
    Prod.mk.injEq] at hm
  obtain ⟨changes, -, recordBytes, -, bounded, hbounded, rfl, -⟩ := hm
  simp only [boundManifest, Option.bind_eq_bind, Option.bind_eq_some_iff, ensure_eq_some,
    exists_const] at hbounded
  obtain ⟨-, hbounded⟩ := hbounded
  split at hbounded
  · cases hbounded
    rfl
  · simp only [Option.bind_eq_some_iff, pure_eq_some, ensure_eq_some, exists_const] at hbounded
    obtain ⟨objects, -, reference, -, -, rfl⟩ := hbounded
    rfl

theorem Tenure.filesKnown (h : s.Tenure) : FilesKnown s.primary.disk s.vmstates s.written := by
  refine ⟨fun i bytes hi => ?_, h.disk⟩
  obtain ⟨o, ho, hfile, -⟩ := h.files i bytes hi
  exact ⟨o, ho, hfile⟩

/-- The record that a publication takes is the passive's, or the newest one if there is no passive,
and in both cases everything newer comes after it. -/
theorem Traces.of_publishSnapshot (h : s.Traces bases b) (hs : s.publishSnapshot = some snapshot) :
    s.Live snapshot.record ∧ snapshot.base = some b.root.asBaseRef ∧ snapshot.backed = s.backed ∧
      Before (s.head.map ManifestPtr.name) (some snapshot.record.name) ∧
      Before (some snapshot.record.name)
        (s.primary.volume.peerCommittedRecord.map JournalRecord.name) ∧
      Before (some snapshot.record.name) (s.sending.map JournalRecord.name) ∧
      Before (some snapshot.record.name) (s.primary.volume.bestRecord.map JournalRecord.name) := by
  have horder := h.order
  rw [names, pairwise_names_iff] at horder
  obtain ⟨⟨-, h2, -, h4⟩, -, ⟨h8, h9⟩, -⟩ := horder
  simp only [publishSnapshot, Option.bind_eq_bind, Option.pure_def] at hs
  split at hs
  · obtain ⟨record, hrecord, hsnapshot⟩ := bind_eq_some.mp hs
    cases hsnapshot
    rw [hrecord] at h2 h8 h9 ⊢
    exact ⟨.inl hrecord, h.archiveBase, rfl, h2, .refl _, h8, h9⟩
  · rename_i hstash
    obtain ⟨record, hrecord, hsnapshot⟩ := bind_eq_some.mp hs
    cases hsnapshot
    obtain ⟨hpeer, hsending⟩ := h.stash (by simpa using hstash)
    rw [hrecord] at h4 ⊢
    rw [hpeer, hsending]
    exact ⟨.inr (.inr hrecord), h.archiveBase, rfl, h4, .none_right _, .none_right _, .refl _⟩

/-- Wherever its writes lead, an attempt leads to an archive that holds the record's vmstate. -/
theorem Traces.leadsTo_of_prepareArchive (h : s.Traces bases b) {forceCompaction : Bool}
    (hs : s.publishSnapshot = some snapshot)
    (hpointer : (prepareArchive s.primary.disk s.remote bases s.primary.id snapshot
      forceCompaction).pointer = some pointer) :
    pointer.name = snapshot.record.name ∧ s.LeadsTo bases b (prepareArchive s.primary.disk s.remote
      bases s.primary.id snapshot forceCompaction).puts pointer := by
  obtain ⟨hlive, hbase, hbacked, hbefore, -⟩ := h.of_publishSnapshot hs
  obtain ⟨headPointer, hhead, hknown, hleads⟩ := h.head
  obtain ⟨-, hheld, hblocks⟩ := h.records _ hlive
  rw [hknown] at hbacked
  rw [prepareArchive, hbacked] at hpointer ⊢
  cases hprevious : previousArchive s.remote bases s.primary.id (some headPointer) with
  | none =>
    rw [hprevious] at hpointer
    cases hpointer
  | some previous =>
    simp only [hprevious] at hpointer ⊢
    obtain ⟨closure, hload, rfl⟩ := Option.map_eq_some_iff.mp hprevious
    have hloaded := loadedFrom_of_load hload
    obtain ⟨-, hold⟩ := hleads s.remote (.refl _) (by simp) closure hloaded
    have hclosureName : closure.name = headPointer.name := Prod.ext hloaded.names.1 hloaded.names.2
    have hprecedes : Precedes closure.name snapshot.record.name := by
      rw [hhead] at hbefore
      rw [hclosureName]
      exact hbefore _ rfl _ rfl
    have hblocks' : closure.name = snapshot.record.name ∨
        HeldBlocks s.vmstates s.written snapshot.record := by
      refine hblocks.imp_left fun hname => ?_
      rw [hhead] at hname
      rw [hclosureName]
      exact Option.some.inj hname
    obtain ⟨_, _, _, _, _, _, -, -, -, hmeta, -⟩ := of_prepareFrom hpointer
    refine ⟨names_of_metadataPuts hmeta, fun remote hle hput closure' hclosure' => ?_⟩
    obtain ⟨current, files, hpublishes⟩ := publishes_of_prepareFrom hheld.pages hheld.wellFormed
      (fun c hc => by cases hc; exact hold.sound) (fun c hc => by cases hc; exact hloaded.list) hle
      hput hpointer
    refine ⟨(hpublishes.archive closure' hclosure').describes.base.trans hbase, ?_⟩
    exact archiveHolds_of_publishes h.tenure.filesKnown hheld (hold.mono_store hle.objects)
      hprecedes hpublishes hblocks' hclosure'

theorem Traces.publish (h : s.Traces bases b) (hs : s.publish bases = some t) : t.Traces bases b := by
  simp only [Lineage.publish, bind_eq_some, ensure_eq_some, exists_const, pure_eq_some] at hs
  obtain ⟨-, snapshot, hsnapshot, -, rfl⟩ := hs
  obtain ⟨-, -, -, hhead, hpeer, hsending, hbest⟩ := h.of_publishSnapshot hsnapshot
  refine h.of_keeps ⟨{ SameTenure.refl s with }, h.tenure.inv, rfl, rfl, le_rfl⟩ h.head ?_
    (fun record hlive => ⟨hlive, id⟩) ?_ h.stash
  · rintro _ ⟨⟩ pointer hpointer
    exact h.leadsTo_of_prepareArchive hsnapshot hpointer
  · have horder := h.order
    rw [names, pairwise_names_iff] at horder ⊢
    obtain ⟨⟨-, h2, h3, h4⟩, -, h8, h10⟩ := horder
    exact ⟨⟨hhead, h2, h3, h4⟩, ⟨hpeer, hsending, hbest⟩, h8, h10⟩

/-! ## Restores -/

/-- The objects of an archive: those of its base, and its own. -/
theorem of_loadArchiveClosure {metadata : MetadataStore} {closure : ManifestClosure}
    {objects : List ObjectRef} {base : Option BaseRef}
    (hclosure : loadArchiveMetadata metadata volume pointer = some closure)
    (h : loadArchiveClosure metadata volume (some pointer) = some (objects, base)) :
    base = closure.manifest.base ∧ ∀ reference, closure.manifest.base = some reference →
      ∃ m, metadata.bases reference = some m ∧ objects = m.objects ++ closure.files := by
  simp only [loadArchiveClosure, hclosure, Option.bind_eq_bind, Option.bind_some] at h
  cases hbase : closure.manifest.base with
  | none =>
    simp only [hbase, Option.bind_eq_some_iff, ensure_eq_some, exists_const, pure_eq_some,
      Prod.mk.injEq] at h
    exact ⟨h.2.2.symm, nofun⟩
  | some reference =>
    simp only [hbase, Option.bind_eq_some_iff, Option.map_eq_some_iff, ensure_eq_some, exists_const,
      pure_eq_some, Prod.mk.injEq] at h
    obtain ⟨_, ⟨m, hm, rfl⟩, -, rfl, rfl⟩ := h
    refine ⟨rfl, ?_⟩
    rintro _ ⟨⟩
    exact ⟨m, hm, rfl⟩

/-- The image of a restore is of the archive that the pointer leads to. -/
theorem of_loadRestoreImage {metadata : MetadataStore} {image : RestoreImage}
    (h : loadRestoreImage metadata store volume pointer = some image) :
    ∃ closure kind, loadArchiveMetadata metadata volume pointer = some closure ∧
      image.record = closure.manifest.restoredRecord kind ∧
      image.archiveBase = closure.manifest.base ∧
      (closure.manifest.recoveryKind = .whole → ∃ vmstate, kind = .checkpoint
        closure.manifest.checkpointEpoch vmstate closure.manifest.vmstateLogicalLength) := by
  simp only [loadRestoreImage, bind_eq_some] at h
  obtain ⟨closure, hclosure, ⟨objects, base⟩, hobjects, h⟩ := h
  have hbase := (of_loadArchiveClosure hclosure hobjects).1
  cases hkind : closure.manifest.recoveryKind with
  | diskOnly =>
    rw [hkind] at h
    cases h
    exact ⟨closure, .commit, hclosure, rfl, hbase, fun hne => absurd (hkind.symm.trans hne) nofun⟩
  | whole =>
    rw [hkind] at h
    obtain ⟨blocks, -, h⟩ := bind_eq_some.mp h
    obtain ⟨vmstate, -, h⟩ := bind_eq_some.mp h
    cases h
    exact ⟨closure, _, hclosure, rfl, hbase, fun _ => ⟨vmstate, rfl⟩⟩

/-- An accepted manifest covers no sync that it has not captured. -/
theorem sync_le_of_decode {m : Manifest} (h : Manifest.decode volume bytes = some m) :
    m.syncCoveredThrough ≤ m.captureSeq := by
  simp only [Manifest.decode, bind_eq_some, ensure_eq_some, exists_const, pure_eq_some] at h
  obtain ⟨-, payload, -, m', -, hshape, rfl⟩ := h
  simp only [Manifest.validateShape, Bool.and_eq_true, decide_eq_true_eq] at hshape
  exact hshape.1.1.1.1.1

/-- The record that a restore starts from is the published one. -/
theorem heldRecord_restored {closure : ManifestClosure} {kind : RecordKind}
    {vmstates : RecordName → Option Bytes} {written : ObjectIdentity → Option Bytes}
    (h : ArchiveHolds store vmstates written closure)
    (hkind : closure.manifest.recoveryKind = .whole → ∃ vmstate, kind = .checkpoint
      closure.manifest.checkpointEpoch vmstate closure.manifest.vmstateLogicalLength) :
    HeldRecord volume vmstates written (closure.manifest.restoredRecord kind) := by
  refine ⟨by simp [Manifest.restoredRecord], by simp [Manifest.restoredRecord],
    by simp [Manifest.restoredRecord], h.pages, h.small, fun bytes hbytes => ?_⟩
  obtain ⟨hwhole, hlength, hmemory, hsync⟩ := h.whole bytes hbytes
  obtain ⟨vmstate, rfl⟩ := hkind hwhole
  refine ⟨closure.manifest.checkpointEpoch, closure.manifest.vmstateLogicalLength, ?_, hlength⟩
  exact if_pos ⟨hmemory, hsync⟩

/-- Another host starts with nothing on its disk, under a fence nobody has used. -/
theorem Traces.restore (h : s.Traces bases b) {fence version : UInt64}
    (hs : s.restore bases fence version = some t) : t.Traces bases b := by
  simp only [Lineage.restore, bind_eq_some, ensure_eq_some, exists_const, pure_eq_some] at hs
  obtain ⟨⟨hfence, hversion⟩, pointer, hhead, image, himage, volume, hvolume, rfl⟩ := hs
  obtain ⟨closure, kind, hload, hrecord, hbase, hkind⟩ := of_loadRestoreImage himage
  have hloaded := loadedFrom_of_load hload
  obtain ⟨headPointer, hhead', -, hleads⟩ := h.head
  obtain rfl : headPointer = pointer := Option.some.inj (hhead'.symm.trans hhead)
  obtain ⟨hbase', hholds⟩ := hleads s.remote (.refl _) (by simp) closure hloaded
  have hname : closure.name = headPointer.name := Prod.ext hloaded.names.1 hloaded.names.2
  simp only [RestoreImage.volume, hrecord, bind_eq_some, pure_eq_some] at hvolume
  obtain ⟨nextSeq, hnext, rfl⟩ := hvolume
  have hlt : closure.manifest.journalSeq < nextSeq := by
    rw [UInt64.lt_iff_toNat_lt, toNat_of_checkedAdd hnext]
    exact Nat.lt_succ_self _
  have hnew : ∀ i bytes, s.written i = some bytes → i.writerFence ≠ fence := fun i bytes hi =>
    ((h.fences.written i bytes hi).trans_lt hfence).ne
  obtain ⟨bytes, -, hdecode⟩ := hloaded.manifest
  refine ⟨⟨?_, ?_, hholds.pages, fun i bytes hi => ?_, fun i bytes hi hf => ?_, fun i r hi => ?_,
    fun i blob hi => ?_, fun seq hseq => ?_, ?_, sync_le_of_decode hdecode, nofun⟩,
    ⟨headPointer, hhead, rfl, hleads⟩, nofun, hbase.trans hbase', ⟨_, rfl⟩, fun record hlive => ?_,
    ?_, fun _ => ⟨rfl, rfl⟩, ⟨hversion.le, fun i bytes hi => ?_, fun name bytes hn => ?_⟩,
    h.baseStored, h.baseOlder⟩
  · exact Primary.Attached.inv ⟨rfl, rfl, rfl, rfl, rfl, .inl rfl⟩
  · exact Primary.Attached.numbered ⟨rfl, rfl, rfl, rfl, rfl, .inl rfl⟩
  · obtain ⟨o, ho, hfile, -⟩ := h.tenure.files i bytes hi
    exact ⟨o, ho, hfile, fun hf => absurd hf (hnew i bytes hi)⟩
  · exact absurd hf (hnew i bytes hi)
  · simp [VolumeState.fresh] at hi
  · simp at hi
  · rw [Option.eq_none_iff_forall_ne_some]
    intro bytes hbytes
    exact absurd (h.fences.vmstates _ _ hbytes) (not_le.mpr hfence)
  · rintro _ ⟨⟩
    exact hlt
  · obtain rfl : closure.manifest.restoredRecord kind = record := by
      rcases hlive with hnone | hnone | hbest
      · cases hnone
      · cases hnone
      · exact Option.some.inj hbest
    refine ⟨hlt, heldRecord_restored hholds hkind, .inl ?_⟩
    show s.head.map ManifestPtr.name = _
    rw [hhead, Option.map_some, ← hname]
    rfl
  · rw [names, pairwise_names_iff]
    refine ⟨⟨.none_right _, .none_right _, .none_right _, ?_⟩,
      ⟨.none_left _, .none_left _, .none_left _⟩, ⟨.none_left _, .none_left _⟩, .none_left _⟩
    show Before (s.head.map ManifestPtr.name) (some closure.name)
    rw [hhead, hname]
    exact .refl _
  · exact (h.fences.written i bytes hi).trans (hfence.trans hversion).le
  · exact (h.fences.vmstates name bytes hn).trans (hfence.trans hversion).le

end Lineage

end Blockd
