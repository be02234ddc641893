import Mathlib
import Blockd.Layout

/-!
# Names on a host's own disk

`layout.rs`: the names of local blobs, and `parseBlob`, which recovery reads them with.  A BLX object
has the same name on the disk as in the store, and generation zero of a spool keeps the name that
spools had before they were rotated.

A name that any of the builders makes is told from every other one (`names_unambiguous`): the keys of
the store by `parseKey`, which knows no other local name, the local names by `parseBlob`, and the two
copies of a journal record, which `parseBlob` takes for the same, by their length.
-/

set_option autoImplicit false

open Codec Text

namespace Blockd

/-! ## Builders -/

/-- The marker that the volume was given away. -/
def handoffBlob (volume : VolumeId) : Name := volumePrefix volume ++ "handoff".toList

/-- `{:08x}`. -/
def hex8 (n : UInt32) : Name := hexDigits 8 n.toNat

def spoolFile (assignmentEpoch generation : UInt64) : Name :=
  if generation = 0 then hex16 assignmentEpoch else hexPairName assignmentEpoch generation

def replicaSpoolGenerationBlob (source : HostId) (volume : VolumeId)
    (assignmentEpoch generation : UInt64) : Name :=
  "r/".toList ++ (hex8 source ++ '/' ::
    (hex16 volume ++ '/' :: (spoolFile assignmentEpoch generation ++ ".spool".toList)))

def replicaSpoolBlob (source : HostId) (volume : VolumeId) (assignmentEpoch : UInt64) : Name :=
  replicaSpoolGenerationBlob source volume assignmentEpoch 0

/-! ## The parser -/

/-- What the name of a local blob means. -/
inductive Keys.BlobName where
  | journal (volume : VolumeId) (fence : UInt64) (seq : JournalSeq)
  | blx (volume : VolumeId) (fence : UInt64) (object : ObjectId)
  | handoff (volume : VolumeId)
  | replicaSpool (source : HostId) (volume : VolumeId) (assignmentEpoch generation : UInt64)
  deriving DecidableEq, Repr

/-- `next` of `split('/')`, from what is left to split. -/
def nextPart (rest : Option Name) : Option (Name × Option Name) :=
  rest.map fun text =>
    match splitOnce '/' text with
    | some (part, rest) => (part, some rest)
    | none => (text, none)

/-- The assignment and the generation of a spool. -/
def spoolNumbers (file : Name) : Option (UInt64 × UInt64) :=
  match splitOnce '-' file with
  | none => (fromStrRadix16 file).map fun assignment => (assignment, 0)
  | some _ => hexPair file

/-- The name of a spool after its first two characters. -/
def parseSpool (rest : Name) : Option Keys.BlobName := do
  let (host, parts) ← nextPart (some rest)
  ensure (host.length = 8)
  let source ← (ofHex (2 ^ 32) host).map UInt32.ofNat
  let (volumeHex, parts) ← nextPart parts
  let volume ← fromStrRadix16 volumeHex
  let (part, parts) ← nextPart parts
  let (assignmentEpoch, generation) ← spoolNumbers (← part.dropSuffix? ".spool".toList)
  ensure (parts = none)
  return .replicaSpool source volume assignmentEpoch generation

/-- The part of a volume's blob name after the volume. -/
def parseVolumeBlob (volume : VolumeId) (rest : Name) : Option Keys.BlobName :=
  match (rest.dropPrefix? "j/".toList).bind fun r =>
    (r.dropSuffix? ".recm".toList).or (r.dropSuffix? ".rec".toList) with
  | some body => (hexPair body).map fun (fence, seq) => .journal volume fence seq
  | none =>
  match (rest.dropPrefix? "o/".toList).bind (·.dropSuffix? ".blx".toList) with
  | some body => (hexPair body).map fun (fence, object) => .blx volume fence object
  | none => if rest = "handoff".toList then some (.handoff volume) else none

def parseBlob (name : Name) : Option Keys.BlobName :=
  match name.dropPrefix? "r/".toList with
  | some rest => parseSpool rest
  | none => do
    let rest ← name.dropPrefix? "v/".toList
    let (volumeHex, rest) ← splitOnce '/' rest
    parseVolumeBlob (← fromStrRadix16 volumeHex) rest

/-! ## Round trip -/

theorem parseBlob_volumePrefix (volume : VolumeId) (rest : Name) :
    parseBlob (volumePrefix volume ++ rest) = parseVolumeBlob volume rest := by
  have hr : ("v/".toList ++ (hex16 volume ++ '/' :: rest)).dropPrefix? "r/".toList = none := rfl
  rw [volumePrefix_append, parseBlob, hr, dropPrefix?_append]
  simp

theorem parseBlob_journalBlob (volume : VolumeId) (fence : UInt64) (seq : JournalSeq) :
    parseBlob (journalBlob volume fence seq) = some (.journal volume fence seq) := by
  have hmirror : (hexPairName fence seq ++ ".rec".toList).dropSuffix? ".recm".toList = none := by
    refine Option.eq_none_iff_forall_ne_some.mpr fun body hbody => ?_
    obtain ⟨ending, heq, hending⟩ := List.dropSuffix?_eq_some_iff.mp hbody
    rw [eq_of_beq hending] at heq
    have hlast := congrArg List.getLast? heq
    simp at hlast
  rw [journalBlob, parseBlob_volumePrefix, parseVolumeBlob, dropPrefix?_append, Option.bind_some,
    hmirror, Option.none_or, dropSuffix?_append]
  simp

theorem parseBlob_journalMirrorBlob (volume : VolumeId) (fence : UInt64) (seq : JournalSeq) :
    parseBlob (journalMirrorBlob volume fence seq) = some (.journal volume fence seq) := by
  rw [journalMirrorBlob, parseBlob_volumePrefix, parseVolumeBlob, dropPrefix?_append,
    Option.bind_some, dropSuffix?_append, Option.some_or]
  simp

theorem parseBlob_blxBlob (volume : VolumeId) (fence : UInt64) (object : ObjectId) :
    parseBlob (blxBlob volume fence object) = some (.blx volume fence object) := by
  rw [blxBlob, blxKey, parseBlob_volumePrefix]
  have hj : ("o/".toList ++ (hexPairName fence object ++ ".blx".toList)).dropPrefix? "j/".toList =
    none := rfl
  rw [parseVolumeBlob, hj, Option.bind_none, body_append]
  simp

theorem parseBlob_handoffBlob (volume : VolumeId) :
    parseBlob (handoffBlob volume) = some (.handoff volume) := by
  rw [handoffBlob, parseBlob_volumePrefix]
  rfl

/-- A text without a separator is a last part. -/
theorem splitOnce_eq_none {sep : Char} {text : Name} (h : sep ∉ text) : splitOnce sep text = none := by
  induction text with
  | nil => rfl
  | cons c text ih =>
    obtain ⟨hc, htext⟩ := List.ne_and_not_mem_of_not_mem_cons h
    rw [splitOnce, if_neg hc.symm, ih htext, Option.map_none]

theorem notMem_spoolFile (assignmentEpoch generation : UInt64) :
    '/' ∉ spoolFile assignmentEpoch generation ++ ".spool".toList := by
  have hnumber (n : UInt64) : '/' ∉ hex16 n := notMem_hexDigits (by decide)
  rw [spoolFile]
  split <;> simp [hexPairName, hnumber]

theorem spoolNumbers_spoolFile (assignmentEpoch generation : UInt64) :
    spoolNumbers (spoolFile assignmentEpoch generation) = some (assignmentEpoch, generation) := by
  rw [spoolFile]
  split_ifs with hzero
  · have hsplit : splitOnce '-' (hex16 assignmentEpoch) = none :=
      splitOnce_eq_none (notMem_hexDigits (by decide))
    rw [spoolNumbers, hsplit, hzero]
    simp
  · rw [spoolNumbers, splitOnce_hexPairName, hexPair_hexPairName]

theorem parseBlob_replicaSpoolGenerationBlob (source : HostId) (volume : VolumeId)
    (assignmentEpoch generation : UInt64) :
    parseBlob (replicaSpoolGenerationBlob source volume assignmentEpoch generation) =
      some (.replicaSpool source volume assignmentEpoch generation) := by
  have hhost (rest : Name) : splitOnce '/' (hex8 source ++ '/' :: rest) = some (hex8 source, rest) :=
    splitOnce_append (notMem_hexDigits (by decide))
  have hsource : ofHex (2 ^ 32) (hex8 source) = some source.toNat :=
    ofHex_hexDigits (by decide) source.toNat_lt source.toNat_lt
  have hlength : (hex8 source).length = 8 := length_hexDigits 8 _
  rw [replicaSpoolGenerationBlob, parseBlob, dropPrefix?_append]
  simp only [parseSpool, nextPart, Option.map_some, some_bind, hhost, hlength, hsource, splitOnce_hex16,
    fromStrRadix16_hex16, splitOnce_eq_none (notMem_spoolFile _ _), dropSuffix?_append,
    spoolNumbers_spoolFile, ensure_true, UInt32.ofNat_toNat, Option.pure_def]

/-! ## No name is built twice -/

/-- What a builder makes a name of. -/
inductive Keys.Built where
  | storeKey (key : Keys.StoreKey)
  | journal (volume : VolumeId) (fence : UInt64) (seq : JournalSeq)
  | journalMirror (volume : VolumeId) (fence : UInt64) (seq : JournalSeq)
  | handoff (volume : VolumeId)
  | replicaSpool (source : HostId) (volume : VolumeId) (assignmentEpoch generation : UInt64)

def Keys.Built.name : Keys.Built → Name
  | storeKey key => key.name
  | journal volume fence seq => journalBlob volume fence seq
  | journalMirror volume fence seq => journalMirrorBlob volume fence seq
  | handoff volume => handoffBlob volume
  | replicaSpool source volume assignmentEpoch generation =>
    replicaSpoolGenerationBlob source volume assignmentEpoch generation

/-- What `parseKey` finds: the keys of the store and nothing else. -/
def Keys.Built.asKey : Keys.Built → Option Keys.StoreKey
  | storeKey key => some key
  | _ => none

/-- What `parseBlob` finds. -/
def Keys.Built.asBlob : Keys.Built → Option Keys.BlobName
  | storeKey (.blx volume fence object) => some (.blx volume fence object)
  | storeKey _ => none
  | journal volume fence seq => some (.journal volume fence seq)
  | journalMirror volume fence seq => some (.journal volume fence seq)
  | handoff volume => some (.handoff volume)
  | replicaSpool source volume assignmentEpoch generation =>
    some (.replicaSpool source volume assignmentEpoch generation)

theorem parseKey_built (b : Keys.Built) : parseKey b.name = b.asKey := by
  cases b with
  | storeKey key => exact parseKey_name key
  | journal volume fence seq => exact parseKey_volumePrefix volume _
  | journalMirror volume fence seq => exact parseKey_volumePrefix volume _
  | handoff volume => exact parseKey_volumePrefix volume _
  | replicaSpool source volume assignmentEpoch generation => rfl

theorem parseBlob_built (b : Keys.Built) : parseBlob b.name = b.asBlob := by
  cases b with
  | storeKey key =>
    cases key with
    | blx volume fence object => exact parseBlob_blxBlob volume fence object
    | head volume => exact parseBlob_volumePrefix volume _
    | archiveManifest volume fence seq => exact parseBlob_volumePrefix volume _
    | completeFileList volume fence listId => exact parseBlob_volumePrefix volume _
    | pendingManifest volume fence seq => exact parseBlob_volumePrefix volume _
    | baseRoot base => rfl
    | baseManifest base manifestId => rfl
    | importedBaseBlx base fence objectId => rfl
  | journal volume fence seq => exact parseBlob_journalBlob volume fence seq
  | journalMirror volume fence seq => exact parseBlob_journalMirrorBlob volume fence seq
  | handoff volume => exact parseBlob_handoffBlob volume
  | replicaSpool source volume assignmentEpoch generation =>
    exact parseBlob_replicaSpoolGenerationBlob source volume assignmentEpoch generation

/-- **Names are unambiguous.**  The parsers find what a name was built from, a journal's mirror being
taken for its record, and no name is built twice but by the builders that are defined by one another. -/
theorem names_unambiguous :
    (∀ b : Keys.Built, parseKey b.name = b.asKey ∧ parseBlob b.name = b.asBlob) ∧
    Function.Injective Keys.Built.name ∧
    (∀ volume fence seq, manifestKey volume fence seq = archiveManifestKey volume fence seq) ∧
    (∀ volume fence object, blxBlob volume fence object = blxKey volume fence object) ∧
    ∀ source volume assignmentEpoch, replicaSpoolBlob source volume assignmentEpoch =
      replicaSpoolGenerationBlob source volume assignmentEpoch 0 := by
  refine ⟨fun b => ⟨parseKey_built b, parseBlob_built b⟩, fun b c h => ?_, fun _ _ _ => rfl,
    fun _ _ _ => rfl, fun _ _ _ => rfl⟩
  have hkey : b.asKey = c.asKey := by rw [← parseKey_built, h, parseKey_built]
  have hblob : b.asBlob = c.asBlob := by rw [← parseBlob_built, h, parseBlob_built]
  have hlength := congrArg List.length h
  -- only a record and a mirror parse alike, and a mirror's name is longer
  cases b <;> cases c <;> simp_all [Keys.Built.asKey, Keys.Built.asBlob, Keys.Built.name, journalBlob,
    journalMirrorBlob, volumePrefix, hexPairName, hex16]

end Blockd
