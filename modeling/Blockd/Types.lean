import Mathlib
import Blockd.Lib.Codec

/-!
# Identifiers and the platform

The identifiers of `types.rs`, and what the daemon takes from outside its own sources: the
page size of the machine, and the LZ4 block compressor that page bytes go through.

`Platform` is the one parameter of the whole development.  Its fields are values, its laws are what
`validate_page_size` asserts of the page size and what the compressor documents: decompression
inverts compression, and a compressed block is no longer than the announced maximum.
-/

set_option autoImplicit false

open Codec

namespace Blockd

abbrev HostId := UInt32
/-- One independently managed memory or block volume. -/
abbrev VolumeId := UInt64
/-- Page number within a volume. -/
abbrev PageNo := UInt32
/-- A memory-volume snapshot epoch. -/
abbrev Epoch := UInt64
/-- A page-object generation: page contents are write-once per page and generation. -/
abbrev Gen := UInt64
/-- Per-volume journal record sequence number. -/
abbrev JournalSeq := UInt64
/-- One write-once blob of compressed page entries. -/
abbrev ObjectId := UInt64

/-- A page within a volume, the unit of caching, faulting and transfer. -/
structure PageId where
  volume : VolumeId
  page : PageNo
  deriving DecidableEq, Repr

namespace PageId

/-- The derived order of the source: volume first, then page. -/
def code (p : PageId) : Nat ×ₗ Nat := toLex (p.volume.toNat, p.page.toNat)

theorem code_injective : Function.Injective code := by
  rintro ⟨v, p⟩ ⟨w, q⟩ h
  simpa [code, UInt64.toNat_inj, UInt32.toNat_inj] using h

instance : LinearOrder PageId := LinearOrder.lift' code code_injective

end PageId

/-- The immutable consistency and lifecycle kind of a volume. -/
inductive VolumeKind where
  | memory
  | data
  deriving DecidableEq, Repr

/-- Immutable configuration of a volume, carried in every record. -/
structure VolumeConfig where
  kind : VolumeKind
  pages : UInt32
  deriving DecidableEq, Repr

namespace VolumeConfig

def contains (c : VolumeConfig) (page : PageId) : Bool := page.page < c.pages

def isMemory (c : VolumeConfig) : Bool := c.kind == .memory

def valid (c : VolumeConfig) : Bool := c.pages > 0

end VolumeConfig

/-- What the machine and the compression library supply. -/
class Platform where
  /-- Size of every memory, cache, storage and wire page. -/
  pageSize : Nat
  pageSize_pow : ∃ k, pageSize = 2 ^ k
  le_pageSize : 4096 ≤ pageSize
  pageSize_lt : pageSize < 2 ^ 32
  /-- LZ4 block compression. -/
  compress : Bytes → Bytes
  /-- LZ4 block decompression into a buffer of the given size. -/
  decompress : Bytes → Nat → Option Bytes
  /-- An upper bound on the length of a compressed block. -/
  maximumOutputSize : Nat → Nat
  decompress_compress : ∀ block, decompress (compress block) block.length = some block
  length_compress_le : ∀ block, (compress block).length ≤ maximumOutputSize block.length

export Platform (pageSize)

/-- A machine with 4 KiB pages whose compressor stores blocks as they are. -/
@[reducible] def storedPlatform : Platform where
  pageSize := 4096
  pageSize_pow := ⟨12, rfl⟩
  le_pageSize := le_rfl
  pageSize_lt := by decide
  compress := id
  decompress := fun block size => if block.length = size then some block else none
  maximumOutputSize := id
  decompress_compress := fun _ => if_pos rfl
  length_compress_le := fun _ => le_rfl

/-- The order of the machine words, for the counters, fences and versions that are compared. -/
instance linearOrderUInt64 : LinearOrder UInt64 where
  le_refl := UInt64.le_refl
  le_trans := fun _ _ _ => UInt64.le_trans
  le_antisymm := fun _ _ => UInt64.le_antisymm
  le_total := UInt64.le_total
  lt_iff_le_not_ge := fun _ _ => by
    rw [UInt64.not_le]
    exact ⟨fun h => ⟨UInt64.le_of_lt h, h⟩, And.right⟩
  toDecidableLE := inferInstance
  toDecidableLT := inferInstance

/-- The page size as the 32-bit field that headers and records carry. -/
def pageSizeField [Platform] : UInt32 := UInt32.ofNat pageSize

/-- Addition that panics on overflow: `none` is the panic. -/
def checkedAdd (a b : UInt64) : Option UInt64 :=
  if a.toNat + b.toNat < 2 ^ 64 then some (a + b) else none

theorem toNat_of_checkedAdd {a b c : UInt64} (h : checkedAdd a b = some c) :
    c.toNat = a.toNat + b.toNat := by
  rw [checkedAdd] at h
  split at h
  · rename_i hlt
    rw [← Option.some.inj h, UInt64.toNat_add, Nat.mod_eq_of_lt hlt]
  · cases h

end Blockd
