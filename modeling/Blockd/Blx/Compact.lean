import Mathlib
import Blockd.Blx.Read
import Blockd.Lib.Newest
import Blockd.PageFile

/-!
# The entries of objects, and compaction

`BlxObject.Contains o entries` says which entries an object holds, in order.  An object that opens
holds some (`exists_contains_of_open`), and the objects that `finish` makes hold the builder's
(`contains_of_finish`).

`BlxCompactor` merges objects into one batch: of all entries of a key it keeps the newest.  What the
new batch holds is among the old entries, and no old entry is newer (`BlxCompactor.contains_of_finish`).
-/

set_option autoImplicit false

open Codec
open Std (ExtTreeMap)

namespace Blockd

variable [Platform]

/-! ## What an object holds -/

def BlxObject.Contains (o : BlxObject) (entries : List BlxEntry) : Prop :=
  List.Forall₂ (FooterEntry.Holds o.bytes) entries o.footer.entries

omit [Platform] in
theorem exists_forall₂ {α β : Type} {R : α → β → Prop} {bs : List β} (h : ∀ b ∈ bs, ∃ a, R a b) :
    ∃ as, List.Forall₂ R as bs := by
  induction bs with
  | nil => exact ⟨[], .nil⟩
  | cons b bs ih =>
    obtain ⟨a, ha⟩ := h b List.mem_cons_self
    obtain ⟨as, has⟩ := ih fun c hc => h c (List.mem_cons_of_mem b hc)
    exact ⟨a :: as, .cons ha has⟩

theorem BlxObject.exists_contains_of_open {bytes : Bytes} {o : BlxObject}
    (h : BlxObject.open bytes = some o) : ∃ entries, o.Contains entries := by
  refine exists_forall₂ fun f hf => ?_
  obtain ⟨-, entry, hopen, hdigest⟩ := (BlxObject.opened_of_open h).entries f hf
  exact ⟨entry, hdigest.symm, hopen⟩

/-- The keys of a footer that is read increase. -/
theorem sorted_of_footerEntriesDec {n : Nat} {previous : Option BlockKey} {input rest : Bytes}
    {entries : List FooterEntry}
    (h : footerEntriesDec n previous input = some (entries, rest)) :
    (entries.Pairwise fun f g => f.key < g.key) ∧ ∀ k ∈ previous, ∀ f ∈ entries, k < f.key := by
  induction n generalizing previous input entries with
  | zero =>
    obtain ⟨rfl, -⟩ := Prod.mk.inj (Dec.pure_eq_some.mp h)
    exact ⟨.nil, by simp⟩
  | succ n ih =>
    simp only [footerEntriesDec, Dec.bind_eq_some, Dec.require_eq_some, Dec.pure_eq_some] at h
    obtain ⟨entry, rest₁, -, -, rest₂, -, -, rest₃, ⟨hprev, -⟩, tail, rest₄, htail, heq⟩ := h
    obtain ⟨rfl, rfl⟩ := Prod.mk.inj heq
    obtain ⟨hsorted, hlt⟩ := ih htail
    have hfirst : ∀ k ∈ previous, k < entry.key := by
      intro k hk
      rw [Option.mem_def.mp hk] at hprev
      simpa using hprev
    refine ⟨List.pairwise_cons.mpr ⟨fun f hf => hlt entry.key rfl f hf, hsorted⟩,
      fun k hk f hf => ?_⟩
    rcases List.mem_cons.mp hf with rfl | hf
    · exact hfirst k hk
    · exact (hfirst k hk).trans (hlt entry.key rfl f hf)

theorem BlxFooter.sorted_of_open {bytes : Bytes} {footer : BlxFooter}
    (h : BlxFooter.open bytes = some footer) : footer.entries.Pairwise fun f g => f.key < g.key := by
  simp only [BlxFooter.open, bind_eq_some] at h
  obtain ⟨payload, -, h⟩ := h
  simp only [Dec.decode, Option.map_eq_some_iff, Dec.bind_eq_some, Dec.require_eq_some,
    Dec.pure_eq_some] at h
  obtain ⟨_, ⟨_, _, _, _, _, _, _, _, _, _, _, _, _, _, _, entries, _, hentries, _, _, _, rfl⟩, rfl⟩ := h
  exact (sorted_of_footerEntriesDec hentries).1

namespace BlxObject.Contains

variable {o : BlxObject} {entries : List BlxEntry} {e : BlxEntry} {f : FooterEntry}

theorem exists_footer (h : o.Contains entries) (he : e ∈ entries) :
    ∃ f ∈ o.footer.entries, FooterEntry.Holds o.bytes e f := by
  obtain ⟨i, hi, rfl⟩ := List.getElem_of_mem he
  have hlen := h.length_eq
  exact ⟨o.footer.entries[i], List.getElem_mem _, List.forall₂_iff_get.mp h |>.2 i hi (hlen ▸ hi)⟩

theorem exists_entry (h : o.Contains entries) (hf : f ∈ o.footer.entries) :
    ∃ e ∈ entries, FooterEntry.Holds o.bytes e f := by
  obtain ⟨i, hi, rfl⟩ := List.getElem_of_mem hf
  have hlen := h.length_eq
  exact ⟨entries[i], List.getElem_mem _, List.forall₂_iff_get.mp h |>.2 i (hlen ▸ hi) hi⟩

end BlxObject.Contains

/-! ## What a builder's objects hold -/

theorem contains_of_encodeChunks {batch : BatchMeta} {count : UInt32}
    {chunks : List (List BlxEntry)} {index : Nat} {objects : List BlxObject}
    (hv : ∀ c ∈ chunks, ∀ e ∈ c, e.Valid)
    (h : encodeChunks batch count chunks index = some objects) :
    List.Forall₂ BlxObject.Contains objects chunks := by
  induction chunks generalizing index objects with
  | nil =>
    rw [encodeChunks, Option.some.injEq] at h
    exact h ▸ .nil
  | cons entries chunks ih =>
    obtain ⟨objectId, object, rest, -, hobject, hrest, rfl⟩ := encodeChunks_cons_eq_some h
    exact .cons (holds_of_encodeObject (hv entries List.mem_cons_self) hobject)
      (ih (fun c hc => hv c (List.mem_cons_of_mem entries hc)) hrest)

namespace BlxBatchBuilder

theorem contains_chunks {builder : BlxBatchBuilder} {objects : List BlxObject}
    (h : builder.finish = some objects) :
    List.Forall₂ BlxObject.Contains objects builder.chunks := by
  simp only [finish, bind_eq_some, ensure_eq_some] at h
  obtain ⟨-, -, h⟩ := h
  exact contains_of_encodeChunks (fun c hc => (builder.chunkValid c hc).pages) h

/-- **The objects of a batch hold the entries of its builder.** -/
theorem contains_of_finish {builder : BlxBatchBuilder} {objects : List BlxObject}
    (h : builder.finish = some objects) :
    ∃ chunks, chunks.flatten = builder.entries.toList.map Prod.snd ∧
      List.Forall₂ BlxObject.Contains objects chunks :=
  ⟨builder.chunks, builder.flatten_chunks, contains_chunks h⟩

theorem mem_chunks (builder : BlxBatchBuilder) {e : BlxEntry} :
    e ∈ builder.chunks.flatten ↔ builder.entries[e.key]? = some e := by
  rw [builder.flatten_chunks, Newest.mem_values fun k e he => (builder.keyed k e he).1]

theorem split_insert (builder : BlxBatchBuilder) (entry : BlxEntry) (hv : entry.Valid) :
    (builder.insert entry hv).splitAtFilePartitions = builder.splitAtFilePartitions := by
  rw [insert]
  split <;> rfl

theorem entries_insert (builder : BlxBatchBuilder) (entry : BlxEntry) (hv : entry.Valid) :
    (builder.insert entry hv).entries =
      Newest.keep BlxEntry.generation BlxEntry.key builder.entries entry := by
  rw [insert, Newest.keep]
  split <;> rfl

end BlxBatchBuilder

/-! ## Compaction -/

/-- The newest entry of every key so far. -/
structure BlxCompactor where
  newest : ExtTreeMap BlockKey BlxEntry

namespace BlxCompactor

def default : BlxCompactor := ⟨∅⟩

/-- Read the entry at the place of a footer entry. -/
def readEntry (bytes : Bytes) (indexed : FooterEntry) : Option BlxEntry := do
  ensure (indexed.offset.toNat + indexed.length.toNat ≤ bytes.length)
  BlxEntry.open (slice bytes indexed.offset.toNat (indexed.offset.toNat + indexed.length.toNat))

def addObject (c : BlxCompactor) (bytes : Bytes) : Option BlxCompactor := do
  let (_, footer) ← BlxObject.scan bytes
  let entries ← footer.entries.mapM (readEntry bytes)
  return ⟨Newest.keepAll BlxEntry.generation BlxEntry.key c.newest entries⟩

/-- Put an entry into the new batch; a deletion marker only if it is retained. -/
def addTo (retainTombstones : Bool) (builder : BlxBatchBuilder) :
    BlxEntry → Option BlxBatchBuilder
  | .data key generation bytes => builder.addData key generation bytes
  | .tombstone key generation =>
    if retainTombstones then some (builder.addTombstone key generation) else some builder

def finish (c : BlxCompactor) (batch : BatchMeta) (retainTombstones : Bool) :
    Option (List BlxObject) := do
  let builder ← BlxBatchBuilder.newPartitioned batch
  let builder ← (c.newest.toList.map Prod.snd).foldlM (addTo retainTombstones) builder
  builder.finish

variable {c c' : BlxCompactor} {o : BlxObject} {entries : List BlxEntry} {batch : BatchMeta}
  {retain : Bool}

theorem mapM_readEntry_eq {bytes : Bytes} {entries : List BlxEntry} {index : List FooterEntry}
    (h : List.Forall₂ (FooterEntry.Holds bytes) entries index)
    (hin : ∀ f ∈ index, f.offset.toNat + f.length.toNat ≤ bytes.length) :
    index.mapM (readEntry bytes) = some entries := by
  induction h with
  | nil => rfl
  | @cons entry f _ _ hone _ ih =>
    have hread : readEntry bytes f = some entry := by
      simp only [readEntry, Option.bind_eq_bind]
      rw [ensure, if_pos (hin _ List.mem_cons_self)]
      exact hone.stored
    rw [List.mapM_cons, hread, ih fun f hf => hin f (List.mem_cons_of_mem _ hf)]
    rfl

/-- An object that opens is taken in. -/
theorem addObject_eq {o : BlxObject} {entries : List BlxEntry}
    (hopen : BlxObject.open o.bytes = some o) (ho : o.Contains entries) :
    c.addObject o.bytes =
      some ⟨Newest.keepAll BlxEntry.generation BlxEntry.key c.newest entries⟩ := by
  obtain ⟨hscan, htrailer, -⟩ := BlxObject.scan_of_open hopen
  obtain ⟨footerOffset, footerLength, -, htrailer', htotal, -⟩ := BlxObject.scan_eq_some hscan
  have hoffset : footerOffset = o.footerOffset :=
    congrArg Prod.fst (Option.some.inj (htrailer'.symm.trans htrailer))
  have hin : ∀ f ∈ o.footer.entries, f.offset.toNat + f.length.toNat ≤ o.bytes.length := by
    intro f hf
    have hat := ((BlxObject.opened_of_open hopen).entries f hf).1
    rw [← hoffset] at hat
    omega
  simp only [addObject, hscan, mapM_readEntry_eq ho hin, some_bind]
  rfl

/-- A file that is added brings in its entries. -/
theorem newest_addObject (hopen : BlxObject.open o.bytes = some o) (ho : o.Contains entries)
    (h : c.addObject o.bytes = some c') :
    c'.newest = Newest.keepAll BlxEntry.generation BlxEntry.key c.newest entries := by
  rw [addObject_eq hopen ho, Option.some.injEq] at h
  rw [← h]

/-- The entries that go into the new batch. -/
def kept (retainTombstones : Bool) (e : BlxEntry) : Bool := retainTombstones || e.kind == .data

variable {builder builder' : BlxBatchBuilder}

/-- Where an entry goes. -/
theorem addTo_eq_some {retain : Bool} {e : BlxEntry} : addTo retain builder e = some builder' ↔
      (kept retain e = true ∧ ∃ hv : e.Valid, builder.insert e hv = builder') ∨
        (kept retain e = false ∧ builder = builder') := by
  cases e with
  | data key generation bytes =>
    simp only [addTo, BlxBatchBuilder.addData, Option.dite_none_right_eq_some, Option.some.injEq,
      kept, BlxEntry.kind, beq_self_eq_true, Bool.or_true, true_and, Bool.true_eq_false, false_and,
      or_false]
    exact Iff.rfl
  | tombstone key generation =>
    rw [addTo]
    by_cases hretain : retain = true
    · rw [if_pos hretain, Option.some.injEq]
      simp only [kept, hretain, Bool.true_or, true_and, Bool.true_eq_false, false_and, or_false]
      exact ⟨fun h => ⟨trivial, h⟩, Exists.snd⟩
    · rw [if_neg hretain, Option.some.injEq]
      simp [kept, hretain, BlxEntry.kind]

theorem entries_addTo {retain : Bool} {e : BlxEntry} (h : addTo retain builder e = some builder') :
    builder'.batch = builder.batch ∧
      builder'.splitAtFilePartitions = builder.splitAtFilePartitions ∧
      builder'.entries = Newest.keepAll BlxEntry.generation BlxEntry.key builder.entries
        ([e].filter (kept retain)) := by
  rcases addTo_eq_some.mp h with ⟨hkept, hv, rfl⟩ | ⟨hkept, rfl⟩
  · rw [List.filter_cons_of_pos hkept]
    exact ⟨BlxBatchBuilder.batch_insert .., BlxBatchBuilder.split_insert ..,
      BlxBatchBuilder.entries_insert ..⟩
  · rw [List.filter_cons_of_neg (by simp [hkept])]
    exact ⟨rfl, rfl, rfl⟩

theorem entries_addAll {retain : Bool} {es : List BlxEntry}
    (h : es.foldlM (addTo retain) builder = some builder') : builder'.batch = builder.batch ∧
      builder'.splitAtFilePartitions = builder.splitAtFilePartitions ∧
      builder'.entries = Newest.keepAll BlxEntry.generation BlxEntry.key builder.entries
        (es.filter (kept retain)) := by
  induction es generalizing builder with
  | nil =>
    rw [← Option.some.inj h]
    exact ⟨rfl, rfl, rfl⟩
  | cons e es ih =>
    rw [List.foldlM_cons, bind_eq_some] at h
    obtain ⟨next, hnext, hrest⟩ := h
    obtain ⟨hbatch, hsplit, hentries⟩ := entries_addTo hnext
    obtain ⟨hbatch', hsplit', hentries'⟩ := ih hrest
    refine ⟨hbatch'.trans hbatch, hsplit'.trans hsplit, ?_⟩
    have hcons : (e :: es).filter (kept retain) = [e].filter (kept retain) ++ es.filter (kept retain) :=
      List.filter_append [e] es
    rw [hentries', hentries, hcons, Newest.keepAll_append]

/-- The kept entries are under their own keys. -/
def Keyed (c : BlxCompactor) : Prop :=
  ∀ (k : BlockKey) (e : BlxEntry), c.newest[k]? = some e → e.key = k

/-- Whole pages can be added. -/
theorem exists_addAll (builder : BlxBatchBuilder) {es : List BlxEntry}
    (hv : ∀ e ∈ es, kept retain e = true → e.Valid) :
    ∃ builder', es.foldlM (addTo retain) builder = some builder' := by
  induction es generalizing builder with
  | nil => exact ⟨builder, rfl⟩
  | cons e es ih =>
    obtain ⟨next, hnext⟩ : ∃ next, addTo retain builder e = some next := by
      by_cases hkept : kept retain e = true
      · exact ⟨_, addTo_eq_some.mpr (.inl ⟨hkept, hv e List.mem_cons_self hkept, rfl⟩)⟩
      · exact ⟨_, addTo_eq_some.mpr (.inr ⟨Bool.not_eq_true _ ▸ hkept, rfl⟩)⟩
    obtain ⟨builder', hrest⟩ := ih next fun e he => hv e (List.mem_cons_of_mem _ he)
    refine ⟨builder', ?_⟩
    rw [List.foldlM_cons, hnext]
    exact hrest

/-- The batch of the kept entries. -/
structure BatchOf (c : BlxCompactor) (batch : BatchMeta) (retain : Bool)
    (builder : BlxBatchBuilder) : Prop where
  batch : builder.batch = batch
  split : builder.splitAtFilePartitions = true
  entries : ∀ e : BlxEntry, builder.entries[e.key]? = some e ↔
    c.newest[e.key]? = some e ∧ kept retain e = true

theorem batchOf_addAll (hc : c.Keyed) (hseq : batch.minSeq ≤ batch.maxSeq)
    (h : (c.newest.toList.map Prod.snd).foldlM (addTo retain)
      ⟨batch, ∅, true, hseq, by simp⟩ = some builder) : c.BatchOf batch retain builder := by
  obtain ⟨hbatch, hsplit, hentries⟩ := entries_addAll h
  refine ⟨hbatch, hsplit, fun e => ?_⟩
  rw [hentries]
  exact Newest.getElem?_keepAll_values hc (kept retain)

theorem BatchOf.unique (h : c.BatchOf batch retain builder) (h' : c.BatchOf batch retain builder') :
    builder = builder' := by
  have hentries : builder.entries = builder'.entries := by
    refine ExtTreeMap.ext_getElem? fun k => Option.ext fun e => ?_
    constructor
    · intro he
      obtain ⟨rfl, -⟩ := builder.keyed k e he
      exact (h'.entries e).mpr ((h.entries e).mp he)
    · intro he
      obtain ⟨rfl, -⟩ := builder'.keyed k e he
      exact (h.entries e).mpr ((h'.entries e).mp he)
  have hbatch := h.batch.trans h'.batch.symm
  have hsplit := h.split.trans h'.split.symm
  cases builder
  cases builder'
  cases hentries
  cases hbatch
  cases hsplit
  rfl

/-- **The new batch is the batch of the kept entries.** -/
theorem finish_eq_some {objects : List BlxObject} (hc : c.Keyed) :
    c.finish batch retain = some objects ↔
      ∃ builder, c.BatchOf batch retain builder ∧ builder.finish = some objects := by
  simp only [finish, bind_eq_some, BlxBatchBuilder.newPartitioned, BlxBatchBuilder.new,
    Option.map_eq_some_iff, Option.dite_none_right_eq_some, Option.some.injEq]
  constructor
  · rintro ⟨_, ⟨_, ⟨hseq, rfl⟩, rfl⟩, builder, hbuilder, hfinish⟩
    exact ⟨builder, batchOf_addAll hc hseq hbuilder, hfinish⟩
  · rintro ⟨builder, hbatch, hfinish⟩
    have hseq : batch.minSeq ≤ batch.maxSeq := hbatch.batch ▸ builder.seq_le
    have hvalid : ∀ e ∈ c.newest.toList.map Prod.snd, kept retain e = true → e.Valid :=
      fun e he hkept => (builder.keyed e.key e
        ((hbatch.entries e).mpr ⟨(Newest.mem_values hc).mp he, hkept⟩)).2
    obtain ⟨builder', hbuilder⟩ := exists_addAll ⟨batch, ∅, true, hseq, by simp⟩ hvalid
    refine ⟨_, ⟨_, ⟨hseq, rfl⟩, rfl⟩, builder', hbuilder, ?_⟩
    rw [(batchOf_addAll hc hseq hbuilder).unique hbatch]
    exact hfinish

/-- **The new batch holds the kept entries**, deletion markers included. -/
theorem contains_of_finish {objects : List BlxObject} (hc : c.Keyed)
    (h : c.finish batch true = some objects) : BlxBatch batch objects ∧
      ∃ chunks, List.Forall₂ BlxObject.Contains objects chunks ∧
        ∀ e, e ∈ chunks.flatten ↔ c.newest[e.key]? = some e := by
  obtain ⟨builder, hbatch, hfinish⟩ := (finish_eq_some hc).mp h
  obtain ⟨chunks, hflat, hchunks⟩ := BlxBatchBuilder.contains_of_finish hfinish
  refine ⟨hbatch.batch ▸ BlxBatchBuilder.finish_batch hfinish, chunks, hchunks, fun e => ?_⟩
  rw [hflat, ← builder.flatten_chunks, builder.mem_chunks, hbatch.entries]
  exact and_iff_left rfl

end BlxCompactor

end Blockd
