import Mathlib
import Blockd.Blx.Compact
import Blockd.Engine.Served

/-!
# The entries of an archive

What the files of an archive hold, independently of how they are cut and where they are: `EntryOf`
collects the entries of all files.  Looking up a key finds the newest of its entries
(`loadVmmBlock_of_newest`), and `Compacts` says what merging files does to the entries: none is made
up, and the newest of every key stays.
-/

set_option autoImplicit false

open Codec
open Std (ExtTreeMap)

namespace Blockd

variable [Platform]

/-- The store has the object the reference names. -/
structure FileAt (store : ObjectStore) (r : ObjectRef) (o : BlxObject) : Prop where
  stored : store r.identity = some o.bytes
  opens : BlxObject.open o.bytes = some o
  reference : ObjectRef.fromBlx o = r

def AllStored (store : ObjectStore) (files : List ObjectRef) : Prop :=
  ∀ r ∈ files, ∃ o, FileAt store r o

/-- An entry of one of the files. -/
def EntryOf (store : ObjectStore) (files : List ObjectRef) (e : BlxEntry) : Prop :=
  ∃ r ∈ files, ∃ o entries, FileAt store r o ∧ o.Contains entries ∧ e ∈ entries

/-- The new entries are among the old ones, and no old one is newer. -/
structure Compacts (old new : BlxEntry → Prop) : Prop where
  sub : ∀ e, new e → old e
  newest : ∀ e, old e → ∃ e', new e' ∧ e'.key = e.key ∧ e.generation ≤ e'.generation

section

variable {store store' : ObjectStore} {r : ObjectRef} {o o' : BlxObject} {files files' : List ObjectRef}
  {e : BlxEntry}

theorem FileAt.unique (h : FileAt store r o) (h' : FileAt store r o') : o = o' := by
  have hbytes : o.bytes = o'.bytes := Option.some.inj (h.stored.symm.trans h'.stored)
  have hopen := h.opens
  rw [hbytes, h'.opens] at hopen
  exact (Option.some.inj hopen).symm

theorem BlxObject.Contains.unique {entries entries' : List BlxEntry} (h : o.Contains entries)
    (h' : o.Contains entries') : entries = entries' := by
  have hread : ∀ {es : List BlxEntry} {fs : List FooterEntry},
      List.Forall₂ (FooterEntry.Holds o.bytes) es fs → es.map some = fs.map fun f =>
        BlxEntry.open (slice o.bytes f.offset.toNat (f.offset.toNat + f.length.toNat)) := by
    intro es fs h
    induction h with
    | nil => rfl
    | cons hholds _ ih => rw [List.map_cons, List.map_cons, ih, hholds.stored]
  have hmap := (hread h).trans (hread h').symm
  exact List.map_injective_iff.mpr (Option.some_injective _) hmap

theorem FileAt.mono (h : FileAt store r o)
    (hs : ∀ i bytes, store i = some bytes → store' i = some bytes) : FileAt store' r o :=
  ⟨hs _ _ h.stored, h.opens, h.reference⟩

theorem AllStored.mono (h : AllStored store files)
    (hs : ∀ i bytes, store i = some bytes → store' i = some bytes) : AllStored store' files := by
  intro r hr
  obtain ⟨o, ho⟩ := h r hr
  exact ⟨o, ho.mono hs⟩

theorem EntryOf.mono (h : EntryOf store files e)
    (hs : ∀ i bytes, store i = some bytes → store' i = some bytes) (hf : ∀ r ∈ files, r ∈ files') :
    EntryOf store' files' e := by
  obtain ⟨r, hr, o, entries, ho, hentries, he⟩ := h
  exact ⟨r, hf r hr, o, entries, ho.mono hs, hentries, he⟩

theorem entryOf_congr (h : ∀ r, r ∈ files ↔ r ∈ files') : EntryOf store files e ↔
    EntryOf store files' e :=
  ⟨fun he => he.mono (fun _ _ h => h) fun r hr => (h r).mp hr,
    fun he => he.mono (fun _ _ h => h) fun r hr => (h r).mpr hr⟩

/-- A store that has more in it says the same about the files it had. -/
theorem EntryOf.of_mono (hst : AllStored store files)
    (hs : ∀ i bytes, store i = some bytes → store' i = some bytes) (h : EntryOf store' files e) :
    EntryOf store files e := by
  obtain ⟨r, hr, o, entries, ho, hentries, he⟩ := h
  obtain ⟨o', ho'⟩ := hst r hr
  cases (ho'.mono hs).unique ho
  exact ⟨r, hr, _, entries, ho', hentries, he⟩

theorem entryOf_append : EntryOf store (files ++ files') e ↔
    EntryOf store files e ∨ EntryOf store files' e := by
  constructor
  · rintro ⟨r, hr, rest⟩
    rcases List.mem_append.mp hr with hr | hr
    · exact .inl ⟨r, hr, rest⟩
    · exact .inr ⟨r, hr, rest⟩
  · rintro (⟨r, hr, rest⟩ | ⟨r, hr, rest⟩)
    · exact ⟨r, List.mem_append_left _ hr, rest⟩
    · exact ⟨r, List.mem_append_right _ hr, rest⟩

end

/-! ## Looking up a key -/

variable {store : ObjectStore} {files : List ObjectRef} {bytes : Bytes}

/-- The entry of a key that an object holds is in its footer, and in the range of its reference. -/
theorem FileAt.find {r : ObjectRef} {o : BlxObject} (h : FileAt store r o) {entries : List BlxEntry}
    (hc : o.Contains entries) {e : BlxEntry} (he : e ∈ entries) :
    r.covers e.key = true ∧ ∃ f, o.footer.find e.key = some f ∧ FooterEntry.Holds o.bytes e f := by
  have hopened := BlxObject.opened_of_open h.opens
  have hsorted := BlxFooter.sorted_of_open hopened.footer
  obtain ⟨f, hf, hholds⟩ := hc.exists_footer he
  have hkey : f.key = e.key := congrArg Prod.fst hholds.digest
  refine ⟨?_, f, (BlxFooter.find_eq_some hsorted).mpr ⟨hf, hkey⟩, hholds⟩
  have hfirst : r.firstKey = o.header.firstKey := by rw [← h.reference]; rfl
  have hlast : r.lastKey = o.header.lastKey := by rw [← h.reference]; rfl
  rw [ObjectRef.covers, Bool.and_eq_true, decide_eq_true_eq, decide_eq_true_eq, hfirst, hlast,
    ← hkey]
  constructor
  · obtain ⟨first, rest, hentries⟩ : ∃ first rest, o.footer.entries = first :: rest :=
      List.exists_cons_of_ne_nil (List.ne_nil_of_mem hf)
    have hhead := hopened.first
    rw [hentries, List.head?_cons, Option.map_some, Option.some.injEq] at hhead
    rw [hentries] at hf hsorted
    rw [← hhead]
    rcases List.mem_cons.mp hf with rfl | hf
    · exact le_rfl
    · exact ((List.pairwise_cons.mp hsorted).1 f hf).le
  · obtain ⟨rest, last, hentries⟩ : ∃ rest last, o.footer.entries = rest ++ [last] :=
      ⟨_, _, (List.dropLast_append_getLast (List.ne_nil_of_mem hf)).symm⟩
    have htail := hopened.last
    rw [hentries, List.getLast?_append, List.getLast?_singleton, Option.some_or, Option.map_some,
      Option.some.injEq] at htail
    rw [hentries] at hf hsorted
    rw [← htail]
    rcases List.mem_append.mp hf with hf | hf
    · exact ((List.pairwise_append.mp hsorted).2.2 f hf last List.mem_cons_self).le
    · rw [List.mem_singleton.mp hf]

/-- What `loadVmmBlock` finds in one object. -/
def vmmLookup (store : ObjectStore) (key : BlockKey) (object : ObjectRef) :
    Option (Option (FooterEntry × ObjectRef)) := do
  let bytes ← store object.identity
  let footer ← BlxFooter.open (slice bytes object.footerOffset.toNat
    (object.footerOffset.toNat + object.footerLength.toNat))
  return (footer.find key).map fun entry => (entry, object)

/-- The entry that was chosen is read and checked. -/
def vmmRead (store : ObjectStore) (key : BlockKey) (chosen : FooterEntry × ObjectRef) :
    Option (Gen × Bytes) := do
  ensure (chosen.1.kind = .data)
  let bytes ← store chosen.2.identity
  match ← BlxEntry.open (slice bytes chosen.1.offset.toNat
    (chosen.1.offset.toNat + chosen.1.length.toNat)) with
  | .tombstone .. => none
  | .data found generation bytes =>
    ensure (found = key ∧ generation = chosen.1.generation ∧
      checksum64 bytes = chosen.1.valueChecksum)
    return (generation, bytes)

theorem loadVmmBlock_eq (store : ObjectStore) (files : List ObjectRef) (block : UInt32) :
    loadVmmBlock store files block =
      ((files.filter fun r => r.covers ⟨.vmm, block⟩).mapM (vmmLookup store ⟨.vmm, block⟩)).bind
        fun found => (Newest.pickFirst (fun found : FooterEntry × ObjectRef =>
          (toLex (found.1.generation, found.2.identity) : Gen ×ₗ ObjectIdentity))
          found.reduceOption).bind (vmmRead store ⟨.vmm, block⟩) := rfl

theorem vmmLookup_of_fileAt {r : ObjectRef} {o : BlxObject} {key : BlockKey}
    (h : FileAt store r o) :
    vmmLookup store key r = some ((o.footer.find key).map fun f => (f, r)) := by
  have hfooter := (BlxObject.opened_of_open h.opens).footer
  have hoffset : r.footerOffset = o.footerOffset := by rw [← h.reference]; rfl
  have hlength : r.footerLength = o.footerLength := by rw [← h.reference]; rfl
  simp only [vmmLookup, h.stored, hoffset, hlength, hfooter, some_bind, Option.pure_def]

/-- The lookups in stored files all succeed. -/
theorem exists_mapM_vmmLookup (key : BlockKey) (h : AllStored store files) :
    ∃ found, files.mapM (vmmLookup store key) = some found ∧
      ∀ f r, (f, r) ∈ found.reduceOption ↔
        r ∈ files ∧ ∃ o, FileAt store r o ∧ o.footer.find key = some f := by
  simp only [List.reduceOption_mem_iff]
  induction files with
  | nil => exact ⟨[], rfl, by simp⟩
  | cons r files ih =>
    obtain ⟨found, hfound, hmem⟩ := ih fun q hq => h q (List.mem_cons_of_mem r hq)
    obtain ⟨o, ho⟩ := h r List.mem_cons_self
    refine ⟨(o.footer.find key).map (fun f => (f, r)) :: found, ?_, fun f q => ?_⟩
    · rw [List.mapM_cons, vmmLookup_of_fileAt ho, hfound]
      rfl
    · rw [List.mem_cons, hmem, List.mem_cons]
      constructor
      · rintro (hfirst | ⟨hq, hrest⟩)
        · obtain ⟨g, hfind, hg⟩ := Option.map_eq_some_iff.mp hfirst.symm
          obtain ⟨rfl, rfl⟩ := Prod.mk.inj hg
          exact ⟨.inl rfl, o, ho, hfind⟩
        · exact ⟨.inr hq, hrest⟩
      · rintro ⟨rfl | hq, o', ho', hfind⟩
        · cases ho.unique ho'
          exact .inl (by rw [hfind, Option.map_some])
        · exact .inr ⟨hq, o', ho', hfind⟩

/-- **Loading a VMM block finds its newest entry**, wherever it is. -/
theorem loadVmmBlock_of_newest {block : UInt32} {generation : Gen} (hst : AllStored store files)
    (hmem : EntryOf store files (.data ⟨.vmm, block⟩ generation bytes))
    (hmax : ∀ e, EntryOf store files e → e.key = ⟨.vmm, block⟩ →
      e.generation < generation ∨ e = .data ⟨.vmm, block⟩ generation bytes) :
    loadVmmBlock store files block = some (generation, bytes) := by
  set key : BlockKey := ⟨.vmm, block⟩ with hkey
  have hcovering : AllStored store (files.filter fun r => r.covers key) :=
    fun r hr => hst r (List.mem_of_mem_filter hr)
  obtain ⟨found, hfound, hiff⟩ := exists_mapM_vmmLookup key hcovering
  obtain ⟨r₀, hr₀, o₀, entries₀, ho₀, hc₀, he₀⟩ := hmem
  obtain ⟨hcov₀, f₀, hfind₀, hholds₀⟩ := ho₀.find hc₀ he₀
  have hin₀ : (f₀, r₀) ∈ found.reduceOption :=
    (hiff f₀ r₀).mpr ⟨List.mem_filter.mpr ⟨hr₀, hcov₀⟩, o₀, ho₀, hfind₀⟩
  let rank : FooterEntry × ObjectRef → Gen ×ₗ ObjectIdentity :=
    fun found => toLex (found.1.generation, found.2.identity)
  cases hwin : Newest.pickFirst rank found.reduceOption with
  | none =>
    rw [Newest.pickFirst_eq_none.mp hwin] at hin₀
    cases hin₀
  | some win =>
    obtain ⟨f, r⟩ := win
    obtain ⟨hin, hle⟩ := Newest.pickFirst_eq_some hwin
    obtain ⟨hr, o, ho, hfind⟩ := (hiff f r).mp hin
    obtain ⟨entries, hc⟩ := BlxObject.exists_contains_of_open ho.opens
    obtain ⟨hf, hfkey⟩ := (BlxFooter.find_eq_some (BlxFooter.sorted_of_open
      (BlxObject.opened_of_open ho.opens).footer)).mp hfind
    obtain ⟨e, he, hholds⟩ := hc.exists_entry hf
    have hekey : e.key = key := (congrArg Prod.fst hholds.digest).symm.trans hfkey
    have hgen : f.generation = e.generation := congrArg (fun d => d.2.1) hholds.digest
    have hgen₀ : f₀.generation = generation := congrArg (fun d => d.2.1) hholds₀.digest
    have hge : generation ≤ e.generation := by
      have hrank := hle (f₀, r₀) hin₀
      rw [← hgen₀, ← hgen]
      exact (Prod.Lex.le_iff.mp hrank).elim (fun h => h.le) fun h => h.1.le
    have heq : e = .data key generation bytes :=
      (hmax e ⟨r, List.mem_of_mem_filter hr, o, entries, ho, hc, he⟩ hekey).resolve_left
        (not_lt.mpr hge)
    subst heq
    have hkind : f.kind = .data := congrArg (fun d => d.2.2.1) hholds.digest
    have hsum : f.valueChecksum = checksum64 bytes := congrArg (fun d => d.2.2.2) hholds.digest
    rw [loadVmmBlock_eq, ← hkey, hfound, Option.bind_some, hwin, Option.bind_some]
    simp [vmmRead, hkind, ho.stored, hholds.stored, hgen, hsum, BlxEntry.generation, hkey]

/-! ## Putting a vmstate together -/

omit [Platform] in
theorem mapM_eq_some_map {α β : Type} {f : α → Option β} {g : α → β} {l : List α}
    (h : ∀ a ∈ l, f a = some (g a)) : l.mapM f = some (l.map g) := by
  induction l with
  | nil => rfl
  | cons a l ih =>
    rw [List.mapM_cons, h a List.mem_cons_self, ih fun b hb => h b (List.mem_cons_of_mem a hb)]
    rfl

omit [Platform] in
/-- Bytes that are cut into blocks of one size, the last one padded, are their own start. -/
theorem take_flatMap_padded {size n : Nat} (hn : bytes.length ≤ n * size) :
    ((List.range n).flatMap fun block =>
      (bytes.drop (block * size)).take size ++
        List.replicate (size - ((bytes.drop (block * size)).take size).length) 0).take
      bytes.length = bytes := by
  induction n generalizing bytes with
  | zero =>
    rw [Nat.zero_mul, Nat.le_zero, List.length_eq_zero_iff] at hn
    rw [hn]
    rfl
  | succ n ih =>
    rw [List.range_succ_eq_map, List.flatMap_cons, List.flatMap_map, Nat.zero_mul, List.drop_zero]
    by_cases hlen : bytes.length ≤ size
    · rw [List.take_of_length_le hlen, List.append_assoc, List.take_left']
      rfl
    · have hrest : (bytes.drop size).length ≤ n * size := by
        rw [List.length_drop]
        rw [Nat.succ_mul] at hn
        omega
      have hchunk : (bytes.take size).length = size := by
        rw [List.length_take]
        omega
      have hdrop : ∀ block, bytes.drop (Nat.succ block * size) =
          (bytes.drop size).drop (block * size) := by
        intro block
        rw [List.drop_drop, Nat.succ_mul, Nat.add_comm]
      simp only [hdrop]
      rw [hchunk, Nat.sub_self, List.replicate_zero, List.append_nil, List.take_append, hchunk,
        List.take_of_length_le (by omega), ← List.length_drop, ih hrest, List.take_append_drop]

/-- **A vmstate whose blocks are all found is found.** -/
theorem loadVmstate_of_blocks {blocks : List (BlockKey × Bytes)} {length : UInt64}
    {generation : Gen} (hblocks : vmmSnapshotBlocks bytes = some blocks)
    (hlength : length.toNat = bytes.length)
    (h : ∀ key padded, (key, padded) ∈ blocks →
      loadVmmBlock store files key.block = some (generation, padded)) :
    loadVmstate store files length = some bytes := by
  simp only [vmmSnapshotBlocks, bind_eq_some, ensure_eq_some, exists_const, pure_eq_some] at hblocks
  obtain ⟨hcount, rfl⟩ := hblocks
  have hsize : 0 < pageSize := lt_of_lt_of_le (by decide) Platform.le_pageSize
  set count := (bytes.length + pageSize - 1) / pageSize with hdef
  have hcover : bytes.length ≤ count * pageSize := by
    have hdiv := Nat.div_add_mod (bytes.length + pageSize - 1) pageSize
    have hmod := Nat.mod_lt (bytes.length + pageSize - 1) hsize
    rw [← hdef, Nat.mul_comm] at hdiv
    omega
  have hmap : (List.range count).mapM (fun block => loadVmmBlock store files (UInt32.ofNat block)) =
      some ((List.range count).map fun block =>
        (generation, (bytes.drop (block * pageSize)).take pageSize ++
          List.replicate (pageSize - ((bytes.drop (block * pageSize)).take pageSize).length) 0)) :=
    mapM_eq_some_map fun block hblock =>
      h ⟨.vmm, UInt32.ofNat block⟩ _ (List.mem_map.mpr ⟨block, hblock, rfl⟩)
  rw [loadVmstate, hlength, ← hdef, ensure, if_pos hcount, hmap]
  simp only [some_bind, pure_eq_some, List.flatMap_map]
  exact take_flatMap_padded hcover

end Blockd
