import Blockd.Layout
import Blockd.Lib.Mark

/-!
# Garbage collection of the object store

`gc.rs`: from one listing of the bucket, `plan` works out what may be deleted.  It marks what the
heads and the base roots reach, then what the manifests of pending publications reach, and selects
the unmarked objects that are older than the grace.  If anything it needs cannot be read, it selects
nothing.

`Sound` says what the plan must never select.  The plan is sound except in one place: of a pending
publication it marks the files, the list and the base, but not the archive manifest that the update
of the head is going to name (`plan_sound_iff`).
-/

set_option autoImplicit false

open Codec Mark

namespace Blockd

namespace Gc

/-! ## The plan -/

/-- One object of a listing. -/
structure StoreObject where
  key : Name
  /-- When it was last written. -/
  putAt : UInt64
  bytes : Bytes

def find (objects : List StoreObject) (key : Name) : Option StoreObject :=
  objects.find? (·.key == key)

variable [Platform]

def markObjects (objects : List StoreObject) (references : List ObjectRef) : Marker Name Unit :=
  Marker.markAll (references.filterMap fun reference =>
    (find objects reference.identity.storeKey).map StoreObject.key)

/-- The complete list a manifest names. -/
def markList (objects : List StoreObject) (m : Manifest) :
    Marker Name (Option CompleteFileList) :=
  match m.completeList with
  | none => pure none
  | some reference => do
    let found ← Marker.ofOption (find objects (reference.storeKey m.volume))
    Marker.mark found.key
    let list ← Marker.ofOption (CompleteFileList.decode reference m.volume found.bytes)
    return some list

/-- The manifest of a base, and its objects. -/
def markBase (objects : List StoreObject) (root : BaseRoot) : Marker Name Unit := do
  let found ← Marker.ofOption (find objects (baseManifestKey root.baseId root.manifestId))
  Marker.mark found.key
  let manifest ← Marker.ofOption (BaseManifest.decode root found.bytes)
  markObjects objects manifest.objects

def markManifest (objects : List StoreObject) (m : Manifest) : Marker Name Unit := do
  let list ← markList objects m
  let current ← Marker.ofOption (m.currentFiles list)
  markObjects objects current
  match m.base with
  | none => pure ()
  | some base => markBase objects base.root

/-- What a head points to. -/
def markPointer (objects : List StoreObject) (volume : VolumeId) (ptr : ManifestPtr) :
    Marker Name Unit := do
  let found ← Marker.ofOption (find objects (ptr.manifestKey volume))
  Marker.mark found.key
  Marker.require (checksum64 found.bytes == ptr.checksum)
  let manifest ← Marker.ofOption (Manifest.decode volume found.bytes)
  markManifest objects manifest

/-- The first loop of the mark phase: heads and base roots. -/
def markRoot (objects : List StoreObject) (o : StoreObject) : Marker Name Unit :=
  match parseKey o.key with
  | some (.head volume) => do
    Marker.mark o.key
    let head ← Marker.ofOption (HeadRecord.decode volume o.bytes)
    match head.manifest with
    | none => pure ()
    | some ptr => markPointer objects volume ptr
  | some (.baseRoot base) => do
    Marker.mark o.key
    let root ← Marker.ofOption (BaseRoot.decode base o.bytes)
    markBase objects root
  | _ => pure ()

/-- Has the head reached this manifest or a later one? -/
def published (objects : List StoreObject) (volume : VolumeId) (m : Manifest) : Bool :=
  ((find objects (headKey volume)).bind fun o =>
    (HeadRecord.decode volume o.bytes).bind HeadRecord.manifest).any fun current =>
      decide (toLex (m.captureSeq, m.archiveSeq) ≤ toLex (current.captureSeq, current.seq))

/-- The second loop: publications whose manifest the head has not reached. -/
def markPending (objects : List StoreObject) (o : StoreObject) : Marker Name Unit :=
  match parseKey o.key with
  | some (.pendingManifest volume fence seq) =>
    match Manifest.decode volume o.bytes with
    | none => do
      Marker.mark o.key
      Marker.ofOption none
    | some manifest =>
      if manifest.writerFence ≠ fence ∨ manifest.archiveSeq ≠ seq then do
        Marker.mark o.key
        Marker.ofOption none
      else if published objects volume manifest then pure ()
      else do
        Marker.mark o.key
        markManifest objects manifest
  | _ => pure ()

def marked (objects : List StoreObject) : Marked Name :=
  ((⟨∅, false⟩ : Marked Name).visitAll (markRoot objects) objects).visitAll (markPending objects)
    objects

/-- The keys that one pass deletes. -/
def plan (now grace : UInt64) (objects : List StoreObject) : List Name :=
  let m := marked objects
  let keep := m.keep.erase []
  if m.unsafeRoot then []
  else
    (objects.filter fun o =>
      decide (o.key ∉ keep) && decide (grace.toNat < now.toNat - o.putAt.toNat)).map StoreObject.key

/-! ## What must not be deleted -/

/-- The complete list a manifest names, as the store has it. -/
def listOf (objects : List StoreObject) (m : Manifest) : Option (Option CompleteFileList) :=
  match m.completeList with
  | none => some none
  | some reference =>
    (find objects (reference.storeKey m.volume)).bind fun o =>
      (CompleteFileList.decode reference m.volume o.bytes).map some

/-- The files of the archive a manifest stands for. -/
def filesOf (objects : List StoreObject) (m : Manifest) : Option (List ObjectRef) :=
  (listOf objects m).bind m.currentFiles

/-- The manifest of a base. -/
def baseOf (objects : List StoreObject) (root : BaseRoot) : Option BaseManifest :=
  (find objects (baseManifestKey root.baseId root.manifestId)).bind fun o =>
    BaseManifest.decode root o.bytes

/-- The manifest a head points to. -/
def manifestOf (objects : List StoreObject) (volume : VolumeId) (ptr : ManifestPtr) :
    Option Manifest :=
  (find objects (ptr.manifestKey volume)).bind fun o =>
    if checksum64 o.bytes = ptr.checksum then Manifest.decode volume o.bytes else none

@[mk_iff] inductive BaseReaches (objects : List StoreObject) (root : BaseRoot) : Name → Prop
  | manifest : BaseReaches objects root (baseManifestKey root.baseId root.manifestId)
  | object {m : BaseManifest} {o : ObjectRef} (hm : baseOf objects root = some m)
      (ho : o ∈ m.objects) : BaseReaches objects root o.identity.storeKey

@[mk_iff] inductive ManifestReaches (objects : List StoreObject) (m : Manifest) : Name → Prop
  | completeList {reference : FileListRef} (h : m.completeList = some reference) :
    ManifestReaches objects m (reference.storeKey m.volume)
  | file {files : List ObjectRef} {o : ObjectRef} (h : filesOf objects m = some files)
      (ho : o ∈ files) : ManifestReaches objects m o.identity.storeKey
  | base {base : BaseRef} {key : Name} (h : m.base = some base)
      (hkey : BaseReaches objects base.root key) : ManifestReaches objects m key

@[mk_iff] inductive PointerReaches (objects : List StoreObject) (volume : VolumeId) (ptr : ManifestPtr) :
    Name → Prop
  | manifest : PointerReaches objects volume ptr (ptr.manifestKey volume)
  | closure {m : Manifest} {key : Name} (h : manifestOf objects volume ptr = some m)
      (hkey : ManifestReaches objects m key) : PointerReaches objects volume ptr key

/-- What is reachable from a root, the root included. -/
@[mk_iff] inductive RootReaches (objects : List StoreObject) (o : StoreObject) : Name → Prop
  | head {volume : VolumeId} (h : parseKey o.key = some (.head volume)) :
    RootReaches objects o o.key
  | archive {volume : VolumeId} {head : HeadRecord} {ptr : ManifestPtr} {key : Name}
      (h : parseKey o.key = some (.head volume)) (hhead : HeadRecord.decode volume o.bytes = some head)
      (hptr : head.manifest = some ptr) (hkey : PointerReaches objects volume ptr key) :
    RootReaches objects o key
  | baseRoot {base : UInt64} (h : parseKey o.key = some (.baseRoot base)) :
    RootReaches objects o o.key
  | base {base : UInt64} {root : BaseRoot} {key : Name} (h : parseKey o.key = some (.baseRoot base))
      (hroot : BaseRoot.decode base o.bytes = some root) (hkey : BaseReaches objects root key) :
    RootReaches objects o key

/-- The head of the volume has a manifest that is not older. -/
def Superseded (objects : List StoreObject) (volume : VolumeId) (m : Manifest) : Prop :=
  ∃ o head ptr, find objects (headKey volume) = some o ∧
    HeadRecord.decode volume o.bytes = some head ∧ head.manifest = some ptr ∧
    toLex (m.captureSeq, m.archiveSeq) ≤ toLex (ptr.captureSeq, ptr.seq)

/-- The object is the root of a publication that is under way. -/
@[mk_iff] structure Pending (objects : List StoreObject) (o : StoreObject) (volume : VolumeId)
    (m : Manifest) : Prop where
  key : parseKey o.key = some (.pendingManifest volume m.writerFence m.archiveSeq)
  decode : Manifest.decode volume o.bytes = some m
  current : ¬ Superseded objects volume m

/-- What the update of the head makes reachable, once a pending publication gets there: the archive
manifest, which has the bytes of the pending one, and all it reaches. -/
inductive PendingReaches (objects : List StoreObject) (o : StoreObject) : Name → Prop
  | manifest {volume : VolumeId} {m : Manifest} (h : Pending objects o volume m) :
    PendingReaches objects o ((m.pointer o.bytes).manifestKey volume)
  | closure {volume : VolumeId} {m : Manifest} {key : Name} (h : Pending objects o volume m)
      (hkey : ManifestReaches objects m key) : PendingReaches objects o key

/-- A file list, or the manifest of a base, is missing or does not decode. -/
def ManifestUnreadable (objects : List StoreObject) (m : Manifest) : Prop :=
  filesOf objects m = none ∨ ∃ base, m.base = some base ∧ baseOf objects base.root = none

/-- The manifest a head points to is missing or is not the one, or what it names is unreadable. -/
def PointerUnreadable (objects : List StoreObject) (volume : VolumeId) (ptr : ManifestPtr) : Prop :=
  manifestOf objects volume ptr = none ∨
    ∃ m, manifestOf objects volume ptr = some m ∧ ManifestUnreadable objects m

/-- A root, or something it needs for marking, is missing or does not decode. -/
@[mk_iff] inductive RootUnreadable (objects : List StoreObject) (o : StoreObject) : Prop
  | head {volume : VolumeId} (h : parseKey o.key = some (.head volume))
      (hnone : HeadRecord.decode volume o.bytes = none)
  | archive {volume : VolumeId} {head : HeadRecord} {ptr : ManifestPtr}
      (h : parseKey o.key = some (.head volume)) (hhead : HeadRecord.decode volume o.bytes = some head)
      (hptr : head.manifest = some ptr) (hnone : PointerUnreadable objects volume ptr)
  | baseRoot {base : UInt64} (h : parseKey o.key = some (.baseRoot base))
      (hnone : BaseRoot.decode base o.bytes = none)
  | base {base : UInt64} {root : BaseRoot} (h : parseKey o.key = some (.baseRoot base))
      (hroot : BaseRoot.decode base o.bytes = some root) (hnone : baseOf objects root = none)

/-- The manifest of a pending publication does not decode or is not the one its key says, or what it
names is unreadable. -/
@[mk_iff] inductive PendingUnreadable (objects : List StoreObject) (o : StoreObject) : Prop
  | manifest {volume : VolumeId} {fence : UInt64} {seq : JournalSeq}
      (h : parseKey o.key = some (.pendingManifest volume fence seq))
      (hnone : ∀ m, Manifest.decode volume o.bytes = some m →
        m.writerFence ≠ fence ∨ m.archiveSeq ≠ seq)
  | closure {volume : VolumeId} {m : Manifest} (h : Pending objects o volume m)
      (hnone : ManifestUnreadable objects m)

/-- Something that the marking needs is missing or does not decode. -/
def Unreadable (objects : List StoreObject) : Prop :=
  ∃ o ∈ objects, RootUnreadable objects o ∨ PendingUnreadable objects o

/-- **A selection that loses nothing.** -/
structure Sound (now grace : UInt64) (objects : List StoreObject) (selected : List Name) : Prop where
  head : ∀ o ∈ objects, ∀ volume, parseKey o.key = some (.head volume) → o.key ∉ selected
  baseRoot : ∀ o ∈ objects, ∀ base, parseKey o.key = some (.baseRoot base) → o.key ∉ selected
  reachable : ∀ o ∈ objects, ∀ key, RootReaches objects o key → key ∉ selected
  pending : ∀ o ∈ objects, ∀ key, PendingReaches objects o key → key ∉ selected
  young : ∀ o ∈ objects, now.toNat - o.putAt.toNat ≤ grace.toNat → o.key ∉ selected
  unreadable : Unreadable objects → selected = []

/-! ## What is marked -/

section Marking

variable {objects : List StoreObject}

variable {key : Name} {o : StoreObject}

omit [Platform] in
theorem find_eq_some (h : find objects key = some o) : o ∈ objects ∧ o.key = key :=
  ⟨List.mem_of_find?_eq_some h, by simpa using List.find?_some h⟩

/-- An object with this key is there. -/
def Listed (objects : List StoreObject) (key : Name) : Prop := ∃ o ∈ objects, o.key = key

omit [Platform] in
theorem listed_of_find (h : find objects key = some o) : Listed objects key :=
  ⟨o, find_eq_some h⟩

omit [Platform] in
theorem find_of_listed (h : Listed objects key) : ∃ o, find objects key = some o := by
  obtain ⟨o, ho, rfl⟩ := h
  exact Option.isSome_iff_exists.mp (List.find?_isSome.mpr ⟨o, ho, beq_self_eq_true o.key⟩)

omit [Platform] in
theorem or_listed {root : Name} {p : Prop} (h : Listed objects root) :
    key = root ∨ Listed objects key ∧ p ↔ Listed objects key ∧ (key = root ∨ p) := by
  rw [and_or_left]
  exact or_congr_left ⟨fun hkey => ⟨hkey ▸ h, hkey⟩, And.right⟩

omit [Platform] in
theorem marks_markObjects (references : List ObjectRef) :
    Marks (markObjects objects references) False fun key =>
      Listed objects key ∧ ∃ o ∈ references, o.identity.storeKey = key := by
  refine (Marks.markAll _).congr Iff.rfl fun _ key => ?_
  simp only [List.mem_filterMap, Option.map_eq_some_iff]
  constructor
  · rintro ⟨o, ho, found, hfind, rfl⟩
    have hkey := (find_eq_some hfind).2
    exact ⟨⟨found, (find_eq_some hfind).1, rfl⟩, o, ho, hkey.symm⟩
  · rintro ⟨hlisted, o, ho, rfl⟩
    obtain ⟨found, hfind⟩ := find_of_listed hlisted
    exact ⟨o, ho, found, hfind, (find_eq_some hfind).2⟩

theorem marks_markBase (root : BaseRoot) :
    Marks (markBase objects root) (baseOf objects root = none) fun key =>
      Listed objects key ∧ BaseReaches objects root key := by
  match hfind : find objects (baseManifestKey root.baseId root.manifestId) with
  | none => exact Marks.of_fails (Fails.ofOption hfind) (by rw [baseOf, hfind]; rfl)
  | some found =>
    have hkey : found.key = baseManifestKey root.baseId root.manifestId := (find_eq_some hfind).2
    have hbase : baseOf objects root = BaseManifest.decode root found.bytes := by
      rw [baseOf, hfind]; rfl
    refine Marks.ofOption_some hfind ?_
    match hdec : BaseManifest.decode root found.bytes with
    | none =>
      have hnone := hbase.trans hdec
      exact Marks.of_fails (Fails.mark_bind (Fails.ofOption rfl) _) hnone
    | some m =>
      have hsome := hbase.trans hdec
      refine Marks.congr (Marks.mark_bind (Marks.ofOption_some rfl (marks_markObjects m.objects)) _)
        (iff_of_false id (by simp [hsome])) fun _ key => ?_
      rw [or_listed ⟨found, (find_eq_some hfind).1, rfl⟩, hkey]
      simp [baseReaches_iff, hsome, eq_comm]

/-- The rule for the list of a manifest. -/
theorem marks_markList {m : Manifest} {f : Option CompleteFileList → Marker Name Unit}
    {bad : Prop} {reaches : Name → Prop}
    (h : ∀ list, listOf objects m = some list → Marks (f list) bad reaches) :
    Marks (markList objects m >>= f) (listOf objects m = none ∨ bad) fun key =>
      (Listed objects key ∧
        ∃ reference, m.completeList = some reference ∧ reference.storeKey m.volume = key) ∨
        reaches key := by
  match hlist : m.completeList with
  | none =>
    have hsome : listOf objects m = some none := by rw [listOf, hlist]
    rw [markList, hlist]
    refine (h none hsome).congr (by simp [hsome]) fun _ key => ?_
    simp
  | some reference =>
    rw [markList, hlist]
    simp only [Marker.bind_assoc, Marker.pure_bind]
    match hfind : find objects (reference.storeKey m.volume) with
    | none =>
      refine Marks.of_fails (Fails.ofOption rfl) (.inl ?_)
      simp only [listOf, hlist, hfind, Option.bind_none]
    | some found =>
      have hkey : found.key = reference.storeKey m.volume := (find_eq_some hfind).2
      have hof : listOf objects m =
          (CompleteFileList.decode reference m.volume found.bytes).map some := by
        simp only [listOf, hlist, hfind, Option.bind_some]
      refine Marks.ofOption_some rfl ?_
      match hdec : CompleteFileList.decode reference m.volume found.bytes with
      | none =>
        have hnone : listOf objects m = none := by rw [hof, hdec]; rfl
        exact Marks.of_fails (Fails.mark_bind (Fails.ofOption rfl) _) (.inl hnone)
      | some list =>
        have hsome : listOf objects m = some (some list) := by rw [hof, hdec]; rfl
        refine Marks.congr (Marks.mark_bind (Marks.ofOption_some rfl (h _ hsome)) _)
          (by simp [hsome]) fun _ key => ?_
        simp only [hkey, Option.some.injEq, exists_eq_left']
        refine or_congr_left ⟨fun h => ⟨h ▸ listed_of_find hfind, h.symm⟩, fun h => h.2.symm⟩

/-- The rule for the base of a manifest. -/
theorem marks_markBase_of (m : Manifest) :
    Marks (match m.base with
      | none => pure ()
      | some base => markBase objects base.root)
      (∃ base, m.base = some base ∧ baseOf objects base.root = none) fun key =>
      Listed objects key ∧ ∃ base, m.base = some base ∧ BaseReaches objects base.root key := by
  match hbase : m.base with
  | none => exact Marks.congr Marks.nothing (by simp) fun _ key => by simp
  | some base => exact Marks.congr (marks_markBase base.root) (by simp) fun _ key => by simp

theorem marks_markManifest (m : Manifest) :
    Marks (markManifest objects m) (ManifestUnreadable objects m) fun key =>
      Listed objects key ∧ ManifestReaches objects m key := by
  have hafter : ∀ list, listOf objects m = some list →
      Marks (Marker.ofOption (m.currentFiles list) >>= fun current =>
        markObjects objects current >>= fun _ => match m.base with
          | none => pure ()
          | some base => markBase objects base.root)
        (ManifestUnreadable objects m) fun key => Listed objects key ∧
          ((∃ files, filesOf objects m = some files ∧ ∃ o ∈ files, o.identity.storeKey = key) ∨
            ∃ base, m.base = some base ∧ BaseReaches objects base.root key) := by
    intro list hlist
    have hfiles : filesOf objects m = m.currentFiles list := by rw [filesOf, hlist]; rfl
    match hcurrent : m.currentFiles list with
    | none => exact Marks.of_fails (Fails.ofOption rfl) (.inl (hfiles.trans hcurrent))
    | some files =>
      have hsome := hfiles.trans hcurrent
      refine Marks.ofOption_some rfl (Marks.congr
        (Marks.seq (marks_markObjects files) (marks_markBase_of m)) ?_ fun _ key => ?_)
      · simp [ManifestUnreadable, hsome]
      · simp [hsome, and_or_left]
  refine Marks.congr (marks_markList hafter) ?_ fun hok key => ?_
  · refine or_iff_right_of_imp fun hnone => .inl ?_
    rw [filesOf, hnone]; rfl
  · rw [← and_or_left, manifestReaches_iff]
    simp [eq_comm]

theorem marks_markPointer (volume : VolumeId) (ptr : ManifestPtr) :
    Marks (markPointer objects volume ptr) (PointerUnreadable objects volume ptr) fun key =>
      Listed objects key ∧ PointerReaches objects volume ptr key := by
  match hfind : find objects (ptr.manifestKey volume) with
  | none => exact Marks.of_fails (Fails.ofOption hfind) (.inl (by rw [manifestOf, hfind]; rfl))
  | some found =>
    have hkey : found.key = ptr.manifestKey volume := (find_eq_some hfind).2
    have hof : manifestOf objects volume ptr = if checksum64 found.bytes = ptr.checksum then
        Manifest.decode volume found.bytes else none := by
      rw [manifestOf, hfind]; rfl
    refine Marks.ofOption_some hfind ?_
    by_cases hsum : checksum64 found.bytes = ptr.checksum
    · have hrequire : (if checksum64 found.bytes == ptr.checksum then some () else none) = some () :=
        if_pos (beq_iff_eq.mpr hsum)
      rw [if_pos hsum] at hof
      match hdec : Manifest.decode volume found.bytes with
      | none =>
        have hbad : PointerUnreadable objects volume ptr := .inl (hof.trans hdec)
        refine Marks.of_fails (Fails.mark_bind (fun keep => ?_) _) hbad
        simp only [Marker.require, hrequire]
        rfl
      | some m =>
        have hsome := hof.trans hdec
        refine Marks.congr (Marks.mark_bind (Marks.ofOption_some hrequire
          (Marks.ofOption_some rfl (marks_markManifest m))) _) ?_ fun _ key => ?_
        · simp [PointerUnreadable, hsome]
        · rw [or_listed ⟨found, (find_eq_some hfind).1, rfl⟩, hkey]
          simp [pointerReaches_iff, hsome]
    · have hrequire : (if checksum64 found.bytes == ptr.checksum then some () else none) = none :=
        if_neg (mt beq_iff_eq.mp hsum)
      rw [if_neg hsum] at hof
      exact Marks.of_fails (Fails.mark_bind (Fails.ofOption hrequire) _) (.inl hof)

/-- The rule for the manifest of a head. -/
theorem marks_markPointer_of (volume : VolumeId) (manifest : Option ManifestPtr) :
    Marks (match manifest with
      | none => pure ()
      | some ptr => markPointer objects volume ptr)
      (∃ ptr, manifest = some ptr ∧ PointerUnreadable objects volume ptr) fun key =>
      Listed objects key ∧ ∃ ptr, manifest = some ptr ∧ PointerReaches objects volume ptr key := by
  match manifest with
  | none => exact Marks.congr Marks.nothing (by simp) fun _ key => by simp
  | some ptr => exact Marks.congr (marks_markPointer volume ptr) (by simp) fun _ key => by simp

/-- A root is marked with what it reaches. -/
theorem marks_markRoot (ho : o ∈ objects) :
    Marks (markRoot objects o) (RootUnreadable objects o) fun key =>
      Listed objects key ∧ RootReaches objects o key := by
  have hlisted : Listed objects o.key := ⟨o, ho, rfl⟩
  by_cases hhead : ∃ volume, parseKey o.key = some (.head volume)
  · obtain ⟨volume, hk⟩ := hhead
    rw [markRoot, hk]
    cases hdec : HeadRecord.decode volume o.bytes with
    | none => exact Marks.of_fails (Fails.mark_bind (Fails.ofOption hdec) _) (.head hk hdec)
    | some head =>
      refine Marks.congr (Marks.mark_bind (Marks.ofOption_some hdec
        (marks_markPointer_of volume head.manifest)) _) ?_ fun _ key => ?_
      · simp [rootUnreadable_iff, hk, hdec]
      · rw [or_listed hlisted]
        simp [rootReaches_iff, hk, hdec]
  by_cases hbase : ∃ base, parseKey o.key = some (.baseRoot base)
  · obtain ⟨base, hk⟩ := hbase
    rw [markRoot, hk]
    cases hdec : BaseRoot.decode base o.bytes with
    | none => exact Marks.of_fails (Fails.mark_bind (Fails.ofOption hdec) _) (.baseRoot hk hdec)
    | some root =>
      refine Marks.congr (Marks.mark_bind (Marks.ofOption_some hdec
        (marks_markBase root)) _) ?_ fun _ key => ?_
      · simp [rootUnreadable_iff, hk, hdec]
      · rw [or_listed hlisted]
        simp [rootReaches_iff, hk, hdec]
  -- Neither a head nor a base root: nothing is read and nothing is marked.
  have hpure : markRoot objects o = pure () := by
    rw [markRoot]
    split
    · exact absurd ⟨_, ‹_›⟩ hhead
    · exact absurd ⟨_, ‹_›⟩ hbase
    · rfl
  rw [not_exists] at hhead hbase
  rw [hpure]
  refine Marks.congr Marks.nothing ?_ fun _ key => ?_
  · simp [rootUnreadable_iff, hhead, hbase]
  · simp [rootReaches_iff, hhead, hbase]

omit [Platform] in
theorem published_iff {volume : VolumeId} {m : Manifest} :
    published objects volume m = true ↔ Superseded objects volume m := by
  simp only [published, Superseded, Option.any_eq_true, Option.bind_eq_some_iff, decide_eq_true_eq]
  constructor
  · rintro ⟨ptr, ⟨o, ho, head, hhead, hptr⟩, hle⟩
    exact ⟨o, head, ptr, ho, hhead, hptr, hle⟩
  · rintro ⟨o, head, ptr, ho, hhead, hptr, hle⟩
    exact ⟨ptr, ⟨o, ho, head, hhead, hptr⟩, hle⟩

/-- Of a pending publication its own root is marked, and what the manifest reaches. -/
theorem marks_markPending (ho : o ∈ objects) :
    Marks (markPending objects o) (PendingUnreadable objects o) fun key => Listed objects key ∧
      ∃ volume m, Pending objects o volume m ∧ (key = o.key ∨ ManifestReaches objects m key) := by
  have hlisted : Listed objects o.key := ⟨o, ho, rfl⟩
  by_cases hpending : ∃ volume fence seq, parseKey o.key = some (.pendingManifest volume fence seq)
  · obtain ⟨volume, fence, seq, hk⟩ := hpending
    cases hdec : Manifest.decode volume o.bytes with
    | none =>
      simp only [markPending, hk, hdec]
      exact Marks.of_fails (Fails.mark_bind (fun _ => rfl) _) (.manifest hk (by simp [hdec]))
    | some m =>
      by_cases hname : m.writerFence ≠ fence ∨ m.archiveSeq ≠ seq
      · simp only [markPending, hk, hdec, if_pos hname]
        exact Marks.of_fails (Fails.mark_bind (fun _ => rfl) _)
          (.manifest hk (by simpa [hdec] using hname))
      · simp only [markPending, hk, hdec, if_neg hname]
        obtain ⟨rfl, rfl⟩ : m.writerFence = fence ∧ m.archiveSeq = seq := by
          simpa [not_or] using hname
        -- The only publication that this object can be the root of.
        have hof (volume' : VolumeId) (m' : Manifest) : Pending objects o volume' m' ↔
            ¬ Superseded objects volume m ∧ volume' = volume ∧ m' = m := by
          rw [pending_iff, hk]
          aesop
        have hunreadable : PendingUnreadable objects o ↔
            ¬ Superseded objects volume m ∧ ManifestUnreadable objects m := by
          simp [pendingUnreadable_iff, hof, hk, hdec]
        by_cases hsuper : Superseded objects volume m
        · rw [if_pos (published_iff.mpr hsuper)]
          exact Marks.congr Marks.nothing (by simp [hunreadable, hsuper]) fun _ key => by
            simp [hof, hsuper]
        · rw [if_neg (mt published_iff.mp hsuper)]
          refine Marks.congr (Marks.mark_bind (marks_markManifest m) _)
            (by simp [hunreadable, hsuper]) fun _ key => ?_
          rw [or_listed hlisted]
          simp [hof, hsuper]
  · have hpure : markPending objects o = pure () := by
      rw [markPending]
      split
      · exact absurd ⟨_, _, _, ‹_›⟩ hpending
      · rfl
    simp only [not_exists] at hpending
    rw [hpure]
    refine Marks.congr Marks.nothing ?_ fun _ key => ?_
    · simp [pendingUnreadable_iff, pending_iff, hpending]
    · simp [pending_iff, hpending]

/-- What the plan keeps: all that the roots reach, and of each pending publication its root and what
its manifest reaches. -/
def Kept (objects : List StoreObject) (key : Name) : Prop :=
  (∃ o ∈ objects, RootReaches objects o key) ∨
    ∃ o ∈ objects, ∃ volume m, Pending objects o volume m ∧
      (key = o.key ∨ ManifestReaches objects m key)

/-- **The mark phase knows when it could not read everything; otherwise it marks what is kept.** -/
theorem marked_spec : ((marked objects).unsafeRoot = true ↔ Unreadable objects) ∧
    (¬ Unreadable objects → ∀ key, key ∈ (marked objects).keep ↔
      Listed objects key ∧ Kept objects key) := by
  have hroots := Marks.visitAll (fun o (ho : o ∈ objects) => marks_markRoot ho) ⟨∅, false⟩
  have hpending := Marks.visitAll (fun o (ho : o ∈ objects) => marks_markPending ho)
    ((⟨∅, false⟩ : Marked Name).visitAll (markRoot objects) objects)
  refine ⟨?_, fun hok key => ?_⟩
  · rw [marked, hpending.1, hroots.1, Unreadable]
    simp only [Bool.false_eq_true, false_or, and_or_left, exists_or]
  · simp only [Unreadable, and_or_left, exists_or, not_or] at hok
    rw [marked, hpending.2 hok.2, hroots.2 hok.1, Kept, and_or_left]
    simp only [Finset.notMem_empty, false_or, and_left_comm (b := Listed objects key),
      exists_and_left]

/-- A key that the parser knows, and not that of an archive manifest. -/
def IsContent (key : Name) : Prop :=
  ∃ k, parseKey key = some k ∧ ∀ volume fence seq, k ≠ .archiveManifest volume fence seq

omit [Platform] in
theorem isContent_storeKey (i : ObjectIdentity) : IsContent i.storeKey := by
  obtain ⟨kind, id, fence, object⟩ := i
  match kind with
  | .volume => exact ⟨_, parseKey_name (.blx id fence object), fun _ _ _ h => nomatch h⟩
  | .importedBase =>
    exact ⟨_, parseKey_name (.importedBaseBlx id fence object), fun _ _ _ h => nomatch h⟩

theorem BaseReaches.isContent {root : BaseRoot} (h : BaseReaches objects root key) :
    IsContent key := by
  obtain _ | ⟨-, -⟩ := h
  · exact ⟨_, parseKey_name (.baseManifest root.baseId root.manifestId), fun _ _ _ h => nomatch h⟩
  · exact isContent_storeKey _

theorem ManifestReaches.isContent {m : Manifest} (h : ManifestReaches objects m key) :
    IsContent key := by
  obtain @⟨reference, -⟩ | ⟨-, -⟩ | ⟨-, hkey⟩ := h
  · exact ⟨_, parseKey_name (.completeFileList m.volume reference.writerFence reference.listId),
      fun _ _ _ h => nomatch h⟩
  · exact isContent_storeKey _
  · exact hkey.isContent

omit [Platform] in
theorem IsContent.parseKey_ne_none (h : IsContent key) : parseKey key ≠ none := by
  obtain ⟨k, hk, -⟩ := h
  exact hk ▸ Option.some_ne_none k

omit [Platform] in
theorem not_isContent_manifestKey (ptr : ManifestPtr) (volume : VolumeId) :
    ¬ IsContent (ptr.manifestKey volume) := by
  rintro ⟨k, hk, hne⟩
  exact hne _ _ _ (Option.some.inj (hk.symm.trans (parseKey_manifestKey ptr volume)))

theorem Kept.ne_nil (h : Kept objects key) : key ≠ [] := by
  have hparse : parseKey key ≠ none := by
    obtain ⟨o, -, hreach⟩ | ⟨o, -, volume, m, hpending, rfl | hreach⟩ := h
    · obtain h | @⟨_, _, ptr, _, -, -, -, hkey⟩ | h | ⟨-, -, hkey⟩ := hreach
      · exact h ▸ Option.some_ne_none _
      · obtain _ | ⟨-, hkey⟩ := hkey
        · exact parseKey_manifestKey ptr _ ▸ Option.some_ne_none _
        · exact hkey.isContent.parseKey_ne_none
      · exact h ▸ Option.some_ne_none _
      · exact hkey.isContent.parseKey_ne_none
    · exact hpending.key ▸ Option.some_ne_none _
    · exact hreach.isContent.parseKey_ne_none
  rintro rfl
  exact hparse rfl

/-- **What a pass selects**: old objects that are not kept, and none if something is unreadable. -/
theorem mem_plan {now grace : UInt64} : key ∈ plan now grace objects ↔ ¬ Unreadable objects ∧
      ∃ o ∈ objects, o.key = key ∧ grace.toNat < now.toNat - o.putAt.toNat ∧
        ¬ Kept objects key := by
  by_cases hunreadable : Unreadable objects
  · simp [plan, marked_spec.1.mpr hunreadable, hunreadable]
  · have hsafe : (marked objects).unsafeRoot = false :=
      Bool.eq_false_iff.mpr (mt marked_spec.1.mp hunreadable)
    have hkeep : ∀ o ∈ objects, o.key ∉ (marked objects).keep.erase [] ↔ ¬ Kept objects o.key := by
      intro o ho
      rw [Finset.mem_erase, marked_spec.2 hunreadable]
      exact not_congr ⟨fun h => h.2.2, fun h => ⟨h.ne_nil, ⟨o, ho, rfl⟩, h⟩⟩
    simp only [plan, hsafe, Bool.false_eq_true, if_false, List.mem_map, List.mem_filter,
      Bool.and_eq_true, decide_eq_true_eq, hunreadable, not_false_eq_true, true_and]
    constructor
    · rintro ⟨o, ⟨ho, hmark, hold⟩, rfl⟩
      exact ⟨o, ho, rfl, hold, (hkeep o ho).mp hmark⟩
    · rintro ⟨o, ho, rfl, hold, hkept⟩
      exact ⟨o, ⟨ho, (hkeep o ho).mpr hkept, hold⟩, rfl⟩

end Marking

/-! ## Soundness -/

/-- A listing of the bucket: no key occurs twice. -/
structure Listing where
  objects : List StoreObject
  distinct : (objects.map StoreObject.key).Nodup

/-- **When the plan is sound.**  Something is unreadable, or the archive manifest of no pending
publication is old: each that is in the bucket is within the grace or is named by a head. -/
theorem plan_sound_iff (now grace : UInt64) (listing : Listing) :
    Sound now grace listing.objects (plan now grace listing.objects) ↔
      Unreadable listing.objects ∨
      ∀ o ∈ listing.objects, ∀ volume m, Pending listing.objects o volume m →
        ∀ x ∈ listing.objects, x.key = (m.pointer o.bytes).manifestKey volume →
          now.toNat - x.putAt.toNat ≤ grace.toNat ∨
            ∃ root ∈ listing.objects, RootReaches listing.objects root x.key := by
  constructor
  · intro hsound
    refine or_iff_not_imp_left.mpr fun hreadable o ho volume m hpending x hx hkey => ?_
    by_contra hlost
    rw [not_or, not_le] at hlost
    -- Nothing but a head could keep the manifest, so an old one is selected.
    have hkept : ¬ Kept listing.objects x.key := by
      rintro (hroot | ⟨o', -, volume', m', hpending', hown | hreach⟩)
      · exact hlost.2 hroot
      · have hparse := hpending'.key
        rw [← hown, hkey, parseKey_manifestKey] at hparse
        nomatch hparse
      · exact not_isContent_manifestKey _ volume (hkey ▸ hreach.isContent)
    exact hsound.pending o ho _ (.manifest hpending)
      (hkey ▸ mem_plan.mpr ⟨hreadable, x, hx, rfl, hlost.1, hkept⟩)
  · intro hcondition
    -- What is selected is not kept, and then the condition speaks about a readable listing.
    have hselected : ∀ key ∈ plan now grace listing.objects, ¬ Kept listing.objects key :=
      fun key hkey => by
        obtain ⟨-, -, -, -, -, hkept⟩ := mem_plan.mp hkey
        exact hkept
    refine ⟨fun o ho volume hk hkey => ?_, fun o ho base hk hkey => ?_, fun o ho key hreach hkey => ?_,
      fun o ho key hreach hkey => ?_, fun o ho hyoung hkey => ?_, fun hunreadable => ?_⟩
    · exact hselected _ hkey (.inl ⟨o, ho, .head hk⟩)
    · exact hselected _ hkey (.inl ⟨o, ho, .baseRoot hk⟩)
    · exact hselected _ hkey (.inl ⟨o, ho, hreach⟩)
    · obtain ⟨hpending⟩ | ⟨hpending, hclosure⟩ := hreach
      · obtain ⟨hreadable, x, hx, hname, hold, hkept⟩ := mem_plan.mp hkey
        have hcover := hcondition.resolve_left hreadable o ho _ _ hpending x hx hname
        rcases hcover with hyoung | hroot
        · exact absurd hold (not_lt.mpr hyoung)
        · exact hkept (.inl (hname ▸ hroot))
      · exact hselected _ hkey (.inr ⟨o, ho, _, _, hpending, .inr hclosure⟩)
    · obtain ⟨-, x, hx, hname, hold, -⟩ := mem_plan.mp hkey
      obtain rfl := List.inj_on_of_nodup_map listing.distinct hx ho hname
      exact absurd hold (not_lt.mpr hyoung)
    · refine List.eq_nil_iff_forall_not_mem.mpr fun key hkey => ?_
      exact (mem_plan.mp hkey).1 hunreadable

/-! ## A publication that waits for its head -/

/-- The head of a volume that has not been archived yet. -/
def unarchived : HeadRecord := ⟨7, 1, 1, none, none, []⟩

/-- Its first archive. -/
def first : Manifest where
  volume := 7
  writerFence := 1
  journalSeq := 1
  archiveSeq := 1
  captureSeq := 1
  syncCoveredThrough := 1
  recoveryKind := .whole
  checkpointEpoch := 0
  config := ⟨.data, 1⟩
  vmstateLogicalLength := 0
  base := none
  completeList := none
  postStateChecksum := 0
  metadataChecksum := 0
  added := []
  removed := []

/-- The root of the publication. -/
def pendingRoot : StoreObject := ⟨pendingManifestKey 7 1 1, 0, first.encode.getD []⟩

/-- The bucket while the update of the head is retried: the root of the publication and the archive
manifest have been written, the head is as it was. -/
def waiting : Listing where
  objects := [⟨headKey 7, 0, unarchived.encode.getD []⟩, pendingRoot,
    ⟨archiveManifestKey 7 1 1, 0, first.encode.getD []⟩]
  distinct := by
    show [headKey 7, pendingManifestKey 7 1 1, archiveManifestKey 7 1 1].Nodup
    decide +kernel

omit [Platform] in
set_option maxRecDepth 10000 in
theorem mem_plan_waiting : letI := storedPlatform
    archiveManifestKey 7 1 1 ∈ plan 10 5 waiting.objects := by
  decide +kernel

omit [Platform] in
set_option maxRecDepth 10000 in
theorem decode_pendingRoot : letI := storedPlatform
    Manifest.decode 7 pendingRoot.bytes = some first ∧
      published waiting.objects 7 first = false := by
  decide +kernel

omit [Platform] in
/-- **The plan is not sound**: it selects the manifest that the head is about to name. -/
theorem not_plan_sound : ¬ ∀ [Platform] (now grace : UInt64) (listing : Listing),
    Sound now grace listing.objects (plan now grace listing.objects) := by
  intro hall
  let _ := storedPlatform
  obtain ⟨hdecode, hcurrent⟩ := decode_pendingRoot
  have hpending : Pending waiting.objects pendingRoot 7 first :=
    ⟨parseKey_name (.pendingManifest 7 1 1), hdecode,
      fun hsuper => Bool.eq_false_iff.mp hcurrent (published_iff.mpr hsuper)⟩
  have hmem : pendingRoot ∈ waiting.objects := List.mem_cons_of_mem _ List.mem_cons_self
  exact (hall 10 5 waiting).pending _ hmem _ (.manifest hpending) mem_plan_waiting

end Gc

end Blockd
