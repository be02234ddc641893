import Blockd.Manifest.Validate

/-!
# Tables of BLX files

A volume's files as a partial map from identities to references: the table the daemon keeps, the
files on disk as recovery reads them.  `FileTable` is what all of them satisfy: a reference stands
under its own identity, and references that claim one batch agree on what they say of it.
Whether a batch is all there is a separate matter (`Complete`), since a batch is written file by
file and removed file by file.

`FileTable.validBatches` says when a selection of files passes the validation a record's decoder
makes: it takes whole batches, and the batches are complete.
-/

set_option autoImplicit false

namespace Blockd

namespace ObjectRef

/-- Chunks of one batch, as far as a volume tells its own batches apart. -/
def SameBatch (r q : ObjectRef) : Prop :=
  r.identity.writerFence = q.identity.writerFence ∧ r.batchId = q.batchId

theorem SameBatch.symm {r q : ObjectRef} (h : r.SameBatch q) : q.SameBatch r :=
  ⟨h.1.symm, h.2.symm⟩

theorem SameBatch.trans {r q p : ObjectRef} (h : r.SameBatch q) (h' : q.SameBatch p) :
    r.SameBatch p :=
  ⟨h.1.trans h'.1, h.2.trans h'.2⟩

/-- The reference without the checksum of the object's bytes, as lazy recovery reads it. -/
def unchecked (r : ObjectRef) : ObjectRef := { r with objectChecksum := 0 }

variable [Platform]

/-- What references to two chunks of one batch say of it. -/
structure Siblings (r q : ObjectRef) : Prop where
  fields : r.batchFields = q.batchFields
  identity : r.chunkIndex = q.chunkIndex → r.identity = q.identity
  ranges : r.chunkIndex < q.chunkIndex → r.lastKey < q.firstKey

end ObjectRef

open ObjectRef (SameBatch Siblings)

variable [Platform]

/-- The files of one volume. -/
structure FileTable (volume : VolumeId) (files : ObjectIdentity → Option ObjectRef) : Prop where
  identity : ∀ i r, files i = some r → r.identity = i
  own : ∀ i r, files i = some r → i.namespaceKind = .volume ∧ i.namespaceId = volume
  wellFormed : ∀ i r, files i = some r → r.WellFormed
  siblings : ∀ i r j q, files i = some r → files j = some q → r.SameBatch q → Siblings r q

/-- Every chunk of the reference's batch is there. -/
def Complete (files : ObjectIdentity → Option ObjectRef) (r : ObjectRef) : Prop :=
  ∀ k < r.chunkCount.toNat, ∃ i q, files i = some q ∧ q.SameBatch r ∧ q.chunkIndex.toNat = k

namespace FileTable

variable {volume : VolumeId} {files files' : ObjectIdentity → Option ObjectRef}
  {i j : ObjectIdentity} {r q : ObjectRef}

theorem empty : FileTable volume fun _ => none := by
  constructor <;> simp

/-- Part of a table is a table, and so is one with the checksums left out. -/
theorem mono (h : FileTable volume files)
    (hsub : ∀ i r, files' i = some r → ∃ q, files i = some q ∧ r.unchecked = q.unchecked) :
    FileTable volume files' := by
  have shape : ∀ {r q : ObjectRef}, r.unchecked = q.unchecked →
      r.identity = q.identity ∧ r.batchId = q.batchId ∧ r.batchFields = q.batchFields ∧
      r.chunkIndex = q.chunkIndex ∧ r.firstKey = q.firstKey ∧ r.lastKey = q.lastKey ∧
      (r.WellFormed ↔ q.WellFormed) := by
    rintro ⟨⟩ ⟨⟩ heq
    simp only [ObjectRef.unchecked, ObjectRef.mk.injEq] at heq
    obtain ⟨rfl, rfl, rfl, rfl, rfl, rfl, rfl, rfl, rfl, rfl, rfl, rfl, rfl, -⟩ := heq
    exact ⟨rfl, rfl, rfl, rfl, rfl, rfl, Iff.rfl⟩
  constructor
  · intro i r hr
    obtain ⟨q, hq, heq⟩ := hsub i r hr
    rw [(shape heq).1, h.identity i q hq]
  · intro i r hr
    obtain ⟨q, hq, -⟩ := hsub i r hr
    exact h.own i q hq
  · intro i r hr
    obtain ⟨q, hq, heq⟩ := hsub i r hr
    exact (shape heq).2.2.2.2.2.2.mpr (h.wellFormed i q hq)
  · intro i r j q hr hq hsame
    obtain ⟨r', hr', hrr⟩ := hsub i r hr
    obtain ⟨q', hq', hqq⟩ := hsub j q hq
    obtain ⟨hri, hrb, hrf, hrc, hrk, hrl, -⟩ := shape hrr
    obtain ⟨hqi, hqb, hqf, hqc, hqk, hql, -⟩ := shape hqq
    have hsame' : r'.SameBatch q' := by
      rw [SameBatch, ← hri, ← hqi, ← hrb, ← hqb]
      exact hsame
    obtain ⟨hfields, hidentity, hranges⟩ := h.siblings i r' j q' hr' hq' hsame'
    refine ⟨by rw [hrf, hqf, hfields], ?_, ?_⟩
    · rw [hrc, hqc, hri, hqi]
      exact hidentity
    · rw [hrc, hqc, hrl, hqk]
      exact hranges

/-- One more file, which agrees with what is there of its batch. -/
theorem insert (h : FileTable volume files) (hid : r.identity = i)
    (hown : i.namespaceKind = .volume ∧ i.namespaceId = volume) (hwf : r.WellFormed)
    (hold : ∀ j q, files j = some q → r.SameBatch q → Siblings r q ∧ Siblings q r)
    (hnew : ∀ j q, files' j = some q → (j = i ∧ q = r) ∨ files j = some q) :
    FileTable volume files' := by
  constructor
  · intro j q hq
    rcases hnew j q hq with ⟨rfl, rfl⟩ | hq
    · exact hid
    · exact h.identity j q hq
  · intro j q hq
    rcases hnew j q hq with ⟨rfl, rfl⟩ | hq
    · exact hown
    · exact h.own j q hq
  · intro j q hq
    rcases hnew j q hq with ⟨rfl, rfl⟩ | hq
    · exact hwf
    · exact h.wellFormed j q hq
  · intro j q k p hq hp hsame
    rcases hnew j q hq with ⟨rfl, rfl⟩ | hq
    · rcases hnew k p hp with ⟨rfl, rfl⟩ | hp
      · exact ⟨rfl, fun _ => rfl, fun hlt => absurd hlt (UInt32.lt_irrefl _)⟩
      · exact (hold k p hp hsame).1
    · rcases hnew k p hp with ⟨rfl, rfl⟩ | hp
      · exact (hold j q hq hsame.symm).2
      · exact h.siblings j q k p hq hp hsame

/-- The batch key of the validation tells a volume's own batches apart as `SameBatch` does. -/
theorem batchKey_eq_iff (h : FileTable volume files) (hr : files i = some r)
    (hq : files j = some q) : r.batchKey = q.batchKey ↔ r.SameBatch q := by
  have hri := h.own i r hr
  have hqi := h.own j q hq
  rw [← h.identity i r hr] at hri
  rw [← h.identity j q hq] at hqi
  rw [ObjectRef.batchKey, ObjectRef.batchKey, EmbeddingLike.apply_eq_iff_eq, Prod.mk.injEq,
    ObjectIdentity.mk.injEq, UInt64.toNat_inj, SameBatch, hri.1, hri.2, hqi.1, hqi.2]
  simp

/-- **A selection of whole, complete batches passes the validation.** -/
theorem validBatches (h : FileTable volume files) {objects : List ObjectRef}
    (hnodup : (objects.map ObjectRef.identity).Nodup)
    (hmem : ∀ r ∈ objects, files r.identity = some r)
    (hwhole : ∀ r ∈ objects, ∀ i q, files i = some q → q.SameBatch r → q ∈ objects)
    (hcomplete : ∀ r ∈ objects, Complete files r) : ValidBatches objects := by
  have hkey : ∀ r ∈ objects, ∀ q ∈ objects, r.batchKey = q.batchKey → Siblings r q := by
    intro r hr q hq hrq
    exact h.siblings _ r _ q (hmem r hr) (hmem q hq)
      ((h.batchKey_eq_iff (hmem r hr) (hmem q hq)).mp hrq)
  refine ⟨⟨hnodup, fun r hr q hq hrq => (hkey r hr q hq hrq).fields, ?_⟩, ?_, ?_⟩
  · refine (List.pairwise_map.mp hnodup).imp_of_mem fun {r q} hr hq hne hrq heq => ?_
    exact hne ((hkey r hr q hq hrq).identity heq)
  · intro r hr k hk
    obtain ⟨i, q, hq, hsame, hindex⟩ := hcomplete r hr k hk
    refine ⟨q, hwhole r hr i q hq hsame, ?_, hindex⟩
    exact (h.batchKey_eq_iff hq (hmem r hr)).mpr hsame
  · intro r hr q hq hrq
    exact (hkey r hr q hq hrq).ranges

end FileTable

end Blockd
