import Blockd.Manifest.Archive
import Blockd.Lib.Text

/-!
# Names in the object store

`layout.rs`: the keys under which heads, manifests, file lists, BLX objects and bases are stored,
and `parseKey`, which tells from a key what is stored there.

`parseKey_name` says that the parser finds, for the key of every kind of object, the kind and the
numbers the key was built from; so no two objects share a key (`Keys.StoreKey.name_injective`).  The
parser takes more than the builders make: numbers in upper case, without padding or with a sign.
-/

set_option autoImplicit false

open Codec Text

namespace Blockd

/-- A key of the object store. -/
abbrev Name := List Char

/-- `{:016x}`. -/
def hex16 (n : UInt64) : Name := hexDigits 16 n.toNat

/-- `u64::from_str_radix(text, 16)`. -/
def fromStrRadix16 (text : Name) : Option UInt64 := (ofHex (2 ^ 64) text).map UInt64.ofNat

/-- Two numbers and what joins them. -/
def hexPairName (left right : UInt64) : Name := hex16 left ++ '-' :: hex16 right

/-! ## Builders -/

def volumePrefix (volume : VolumeId) : Name := "v/".toList ++ hex16 volume ++ "/".toList

def headKey (volume : VolumeId) : Name := volumePrefix volume ++ "head".toList

def archiveManifestKey (volume : VolumeId) (fence archiveSeq : UInt64) : Name :=
  volumePrefix volume ++ ("m/".toList ++ (hexPairName fence archiveSeq ++ ".manifest".toList))

def manifestKey (volume : VolumeId) (fence : UInt64) (seq : JournalSeq) : Name :=
  archiveManifestKey volume fence seq

def completeFileListKey (volume : VolumeId) (fence listId : UInt64) : Name :=
  volumePrefix volume ++ ("f/".toList ++ (hexPairName fence listId ++ ".files".toList))

def blxKey (originVolume : VolumeId) (fence objectId : UInt64) : Name :=
  volumePrefix originVolume ++ ("o/".toList ++ (hexPairName fence objectId ++ ".blx".toList))

/-- The durable root of a publication that has not reached the head. -/
def pendingManifestKey (volume : VolumeId) (fence : UInt64) (seq : JournalSeq) : Name :=
  volumePrefix volume ++ ("p/".toList ++ hexPairName fence seq)

def basePrefix (base : UInt64) : Name := "b/".toList ++ hex16 base ++ "/".toList

def baseRootKey (base : UInt64) : Name := basePrefix base ++ "root".toList

def baseManifestKey (base manifestId : UInt64) : Name :=
  basePrefix base ++ ("m/".toList ++ (hex16 manifestId ++ ".manifest".toList))

def importedBaseBlxKey (base fence objectId : UInt64) : Name :=
  basePrefix base ++ ("o/".toList ++ (hexPairName fence objectId ++ ".blx".toList))

def ObjectIdentity.storeKey (i : ObjectIdentity) : Name :=
  match i.namespaceKind with
  | .volume => blxKey i.namespaceId i.writerFence i.objectId
  | .importedBase => importedBaseBlxKey i.namespaceId i.writerFence i.objectId

def FileListRef.storeKey (r : FileListRef) (volume : VolumeId) : Name :=
  completeFileListKey volume r.writerFence r.listId

def ManifestPtr.manifestKey (p : ManifestPtr) (volume : VolumeId) : Name :=
  Blockd.manifestKey volume p.fence p.seq

/-! Names of the blobs on a host's own disk. -/

def journalBlob (volume : VolumeId) (fence : UInt64) (seq : JournalSeq) : Name :=
  volumePrefix volume ++ ("j/".toList ++ (hexPairName fence seq ++ ".rec".toList))

/-- The second copy of a record. -/
def journalMirrorBlob (volume : VolumeId) (fence : UInt64) (seq : JournalSeq) : Name :=
  volumePrefix volume ++ ("j/".toList ++ (hexPairName fence seq ++ ".recm".toList))

def blxBlob (volume : VolumeId) (fence : UInt64) (object : ObjectId) : Name :=
  blxKey volume fence object

/-! ## The parser -/

/-- What a key of the store means. -/
inductive Keys.StoreKey where
  | head (volume : VolumeId)
  | archiveManifest (volume : VolumeId) (fence archiveSeq : UInt64)
  | completeFileList (volume : VolumeId) (fence listId : UInt64)
  | blx (originVolume : VolumeId) (fence objectId : UInt64)
  | pendingManifest (volume : VolumeId) (fence : UInt64) (seq : JournalSeq)
  | baseRoot (base : UInt64)
  | baseManifest (base manifestId : UInt64)
  | importedBaseBlx (base fence objectId : UInt64)
  deriving DecidableEq, Repr

def hexPair (value : Name) : Option (UInt64 × UInt64) := do
  let (left, right) ← splitOnce '-' value
  return (← fromStrRadix16 left, ← fromStrRadix16 right)

/-- The part of a volume's key after the volume. -/
def parseVolumeKey (volume : VolumeId) (rest : Name) : Option Keys.StoreKey :=
  if rest = "head".toList then some (.head volume)
  else match rest.dropPrefix? "m/".toList with
  | some body => do
    let (fence, archiveSeq) ← hexPair (← body.dropSuffix? ".manifest".toList)
    return .archiveManifest volume fence archiveSeq
  | none =>
  match (rest.dropPrefix? "f/".toList).bind (·.dropSuffix? ".files".toList) with
  | some body => do
    let (fence, listId) ← hexPair body
    return .completeFileList volume fence listId
  | none =>
  match (rest.dropPrefix? "o/".toList).bind (·.dropSuffix? ".blx".toList) with
  | some body => do
    let (fence, objectId) ← hexPair body
    return .blx volume fence objectId
  | none => do
    let (fence, seq) ← hexPair (← rest.dropPrefix? "p/".toList)
    return .pendingManifest volume fence seq

/-- The part of a base's key after the base. -/
def parseBaseKey (base : UInt64) (rest : Name) : Option Keys.StoreKey :=
  if rest = "root".toList then some (.baseRoot base)
  else match (rest.dropPrefix? "m/".toList).bind (·.dropSuffix? ".manifest".toList) with
  | some body => return .baseManifest base (← fromStrRadix16 body)
  | none => do
    let body ← (rest.dropPrefix? "o/".toList).bind (·.dropSuffix? ".blx".toList)
    let (fence, objectId) ← hexPair body
    return .importedBaseBlx base fence objectId

def parseKey (key : Name) : Option Keys.StoreKey :=
  match key.dropPrefix? "v/".toList with
  | some rest => do
    let (volumeHex, rest) ← splitOnce '/' rest
    parseVolumeKey (← fromStrRadix16 volumeHex) rest
  | none => do
    let rest ← key.dropPrefix? "b/".toList
    let (baseHex, rest) ← splitOnce '/' rest
    parseBaseKey (← fromStrRadix16 baseHex) rest

/-! ## Round trip -/

/-- The key that is built for an object. -/
def Keys.StoreKey.name : Keys.StoreKey → Name
  | head volume => headKey volume
  | archiveManifest volume fence archiveSeq => archiveManifestKey volume fence archiveSeq
  | completeFileList volume fence listId => completeFileListKey volume fence listId
  | blx originVolume fence objectId => blxKey originVolume fence objectId
  | pendingManifest volume fence seq => pendingManifestKey volume fence seq
  | baseRoot base => baseRootKey base
  | baseManifest base manifestId => baseManifestKey base manifestId
  | importedBaseBlx base fence objectId => importedBaseBlxKey base fence objectId

@[simp] theorem fromStrRadix16_hex16 (n : UInt64) : fromStrRadix16 (hex16 n) = some n := by
  have hlt : n.toNat < 2 ^ 64 := n.toNat_lt
  rw [fromStrRadix16, hex16, ofHex_hexDigits (by decide) (by exact hlt) hlt, Option.map_some,
    UInt64.ofNat_toNat]

theorem splitOnce_hexPairName (left right : UInt64) :
    splitOnce '-' (hexPairName left right) = some (hex16 left, hex16 right) :=
  splitOnce_append (notMem_hexDigits (by decide))

@[simp] theorem hexPair_hexPairName (left right : UInt64) :
    hexPair (hexPairName left right) = some (left, right) := by
  rw [hexPair, splitOnce_hexPairName]
  simp

@[simp] theorem splitOnce_hex16 (n : UInt64) (rest : Name) :
    splitOnce '/' (hex16 n ++ '/' :: rest) = some (hex16 n, rest) :=
  splitOnce_append (notMem_hexDigits (by decide))

theorem volumePrefix_append (volume : VolumeId) (rest : Name) :
    volumePrefix volume ++ rest = "v/".toList ++ (hex16 volume ++ '/' :: rest) := by
  simp [volumePrefix]

theorem parseKey_volumePrefix (volume : VolumeId) (rest : Name) :
    parseKey (volumePrefix volume ++ rest) = parseVolumeKey volume rest := by
  rw [volumePrefix_append, parseKey, dropPrefix?_append]
  simp

theorem parseKey_basePrefix (base : UInt64) (rest : Name) :
    parseKey (basePrefix base ++ rest) = parseBaseKey base rest := by
  have hkey : basePrefix base ++ rest = "b/".toList ++ (hex16 base ++ '/' :: rest) := by
    simp [basePrefix]
  have hv : ("b/".toList ++ (hex16 base ++ '/' :: rest)).dropPrefix? "v/".toList = none := rfl
  rw [hkey, parseKey, hv, dropPrefix?_append]
  simp

/-- A text that starts with another character is not the one looked for. -/
theorem cons_ne {c c' : Char} {text text' : Name} (h : c ≠ c') : c :: text ≠ c' :: text' :=
  fun heq => h (List.cons.inj heq).1

/-- What is between a start and an ending. -/
theorem body_append (start body ending : Name) :
    ((start ++ (body ++ ending)).dropPrefix? start).bind (·.dropSuffix? ending) = some body := by
  rw [dropPrefix?_append, Option.bind_some, dropSuffix?_append]

/-- **The parser finds what a key was built from.** -/
theorem parseKey_name (k : Keys.StoreKey) : parseKey k.name = some k := by
  cases k with
  | head volume => exact parseKey_volumePrefix volume _
  | archiveManifest volume fence archiveSeq =>
    have hhead : "m/".toList ++ (hexPairName fence archiveSeq ++ ".manifest".toList) ≠
        "head".toList := cons_ne (by decide)
    rw [Keys.StoreKey.name, archiveManifestKey, parseKey_volumePrefix, parseVolumeKey, if_neg hhead,
      dropPrefix?_append]
    simp only [dropSuffix?_append, hexPair_hexPairName, some_bind, Option.pure_def]
  | completeFileList volume fence listId =>
    have hhead : "f/".toList ++ (hexPairName fence listId ++ ".files".toList) ≠ "head".toList :=
      cons_ne (by decide)
    rw [Keys.StoreKey.name, completeFileListKey, parseKey_volumePrefix, parseVolumeKey, if_neg hhead,
      body_append]
    simp only [hexPair_hexPairName, some_bind]
    rfl
  | blx originVolume fence objectId =>
    have hhead : "o/".toList ++ (hexPairName fence objectId ++ ".blx".toList) ≠ "head".toList :=
      cons_ne (by decide)
    rw [Keys.StoreKey.name, blxKey, parseKey_volumePrefix, parseVolumeKey, if_neg hhead, body_append]
    simp only [hexPair_hexPairName, some_bind]
    rfl
  | pendingManifest volume fence seq =>
    have hhead : "p/".toList ++ hexPairName fence seq ≠ "head".toList := cons_ne (by decide)
    rw [Keys.StoreKey.name, pendingManifestKey, parseKey_volumePrefix, parseVolumeKey, if_neg hhead,
      dropPrefix?_append]
    simp only [hexPair_hexPairName, some_bind]
    rfl
  | baseRoot base => exact parseKey_basePrefix base _
  | baseManifest base manifestId =>
    have hroot : "m/".toList ++ (hex16 manifestId ++ ".manifest".toList) ≠ "root".toList :=
      cons_ne (by decide)
    rw [Keys.StoreKey.name, baseManifestKey, parseKey_basePrefix, parseBaseKey, if_neg hroot,
      body_append]
    simp only [fromStrRadix16_hex16, some_bind, Option.pure_def]
  | importedBaseBlx base fence objectId =>
    have hroot : "o/".toList ++ (hexPairName fence objectId ++ ".blx".toList) ≠ "root".toList :=
      cons_ne (by decide)
    rw [Keys.StoreKey.name, importedBaseBlxKey, parseKey_basePrefix, parseBaseKey, if_neg hroot,
      body_append]
    simp only [hexPair_hexPairName, some_bind]
    rfl

theorem parseKey_manifestKey (ptr : ManifestPtr) (volume : VolumeId) :
    parseKey (ptr.manifestKey volume) = some (.archiveManifest volume ptr.fence ptr.seq) :=
  parseKey_name (.archiveManifest volume ptr.fence ptr.seq)

theorem Keys.StoreKey.name_injective : Function.Injective Keys.StoreKey.name := by
  intro k k' h
  have hk := parseKey_name k
  rw [h, parseKey_name k'] at hk
  exact (Option.some.inj hk).symm

/-! ## Blobs have different names -/

theorem journalBlob_ne_mirror (volume : VolumeId) (fence : UInt64) (seq : JournalSeq) :
    journalBlob volume fence seq ≠ journalMirrorBlob volume fence seq := by
  intro h
  have hlen := congrArg List.length h
  simp [journalBlob, journalMirrorBlob] at hlen

theorem blxBlob_ne_journal (volume : VolumeId) (fence fence' : UInt64) (object : ObjectId)
    (seq : JournalSeq) : blxBlob volume fence object ≠ journalBlob volume fence' seq := fun h =>
  cons_ne (by decide) (List.append_cancel_left h)

theorem blxBlob_ne_mirror (volume : VolumeId) (fence fence' : UInt64) (object : ObjectId)
    (seq : JournalSeq) : blxBlob volume fence object ≠ journalMirrorBlob volume fence' seq :=
  fun h => cons_ne (by decide) (List.append_cancel_left h)

theorem blxBlob_injective {volume : VolumeId} {fence fence' : UInt64} {object object' : ObjectId}
    (h : blxBlob volume fence object = blxBlob volume fence' object') :
    fence = fence' ∧ object = object' := by
  have hkey : Keys.StoreKey.blx volume fence object = .blx volume fence' object' :=
    Keys.StoreKey.name_injective h
  obtain ⟨-, hfence, hobject⟩ := Keys.StoreKey.blx.inj hkey
  exact ⟨hfence, hobject⟩

end Blockd
