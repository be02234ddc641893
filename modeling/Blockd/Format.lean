import Blockd.Types

/-!
# Checksums and frames

`format.rs`: CRC-32C, the 64-bit identity checksum built from it, and the checksummed frame
`magic | payload length | crc | payload` that every durable or transferred unit is wrapped in.

`sealFrame` answers `none` where the source panics, that is for a payload of 4 GiB or more.
-/

set_option autoImplicit false

open Codec

namespace Blockd

/-! ## CRC-32C -/

/-- One bit of the reflected Castagnoli division. -/
def crcBit (c : UInt32) : UInt32 :=
  if c &&& 1 = 1 then (c >>> 1) ^^^ 0x82F63B78 else c >>> 1

def crcByte (c : UInt32) (b : UInt8) : UInt32 :=
  Nat.iterate crcBit 8 (c ^^^ b.toUInt32)

/-- CRC-32C (Castagnoli), as used by iSCSI and ext4. -/
def crc32c (bytes : Bytes) : UInt32 := bytes.foldl crcByte 0xFFFFFFFF ^^^ 0xFFFFFFFF

-- the canonical test vector, the ASCII digits 1 to 9
example : crc32c [0x31, 0x32, 0x33, 0x34, 0x35, 0x36, 0x37, 0x38, 0x39] = 0xE3069283 := by
  decide +kernel

/-- The 64-bit identity checksum used in references: the CRC of the bytes in the low half, the CRC
of the reversed bytes in the high half. -/
def checksum64 (bytes : Bytes) : UInt64 :=
  ((crc32c bytes.reverse).toUInt64 <<< 32) ||| (crc32c bytes).toUInt64

/-! ## Frames -/

/-- The magic number of a frame, from its four ASCII characters. -/
def magicOf (a b c d : Char) : UInt32 :=
  UInt32.ofNat (leNat [a.toUInt8, b.toUInt8, c.toUInt8, d.toUInt8])

def frameHeader : Nat := 12

/-- `magic u32 | payload_len u32 | crc32c u32 | payload`; a payload of 4 GiB or more panics. -/
def sealFrame (magic : UInt32) (payload : Bytes) : Option Bytes :=
  if payload.length < 2 ^ 32 then
    some (encU32 magic ++ encU32 (UInt32.ofNat payload.length) ++ encU32 (crc32c payload) ++
      payload)
  else none

def frameDec (magic : UInt32) : Dec Bytes := do
  let m ← Dec.u32
  Dec.require (m == magic)
  let len ← Dec.u32
  let crc ← Dec.u32
  let payload ← Dec.bytes len.toNat
  Dec.finish
  Dec.require (crc32c payload == crc)
  return payload

/-- Verify and open a frame: magic, length, trailing bytes and checksum. -/
def openFrame (magic : UInt32) (bytes : Bytes) : Option Bytes := (frameDec magic).decode bytes

theorem exists_sealFrame (magic : UInt32) (payload : Bytes) (h : payload.length < 2 ^ 32) :
    ∃ frame, sealFrame magic payload = some frame :=
  ⟨_, if_pos h⟩

theorem length_of_sealFrame {magic : UInt32} {payload bytes : Bytes}
    (h : sealFrame magic payload = some bytes) : bytes.length = frameHeader + payload.length := by
  rw [sealFrame] at h
  split at h
  · rw [← Option.some.inj h]
    simp only [List.length_append, length_encU32, frameHeader]
  · cases h

/-- **A sealed frame opens to its payload.** -/
theorem openFrame_sealFrame {magic : UInt32} {payload bytes : Bytes}
    (h : sealFrame magic payload = some bytes) : openFrame magic bytes = some payload := by
  rw [sealFrame] at h
  split at h
  · rename_i hlt
    rw [← Option.some.inj h, openFrame]
    refine Decodes.decode ?_
    have hlen : payload.length = (UInt32.ofNat payload.length).toNat := by
      rw [UInt32.toNat_ofNat', Nat.mod_eq_of_lt hlt]
    rw [List.append_assoc, List.append_assoc]
    refine Decodes.bind (Reads.u32 magic) (Decodes.require_bind (by simp) ?_)
    refine Decodes.bind (Reads.u32 _) (Decodes.bind (Reads.u32 _) ?_)
    refine Decodes.bind_last (Reads.bytes_of_length hlen) ?_
    exact Decodes.finish_bind (Decodes.require_bind (by simp) (Decodes.pure _))
  · cases h

/-- **A frame that opens is the sealed payload.** -/
theorem openFrame_eq_some {magic : UInt32} {payload bytes : Bytes} :
    openFrame magic bytes = some payload ↔ sealFrame magic payload = some bytes := by
  refine ⟨fun h => ?_, openFrame_sealFrame⟩
  obtain ⟨⟨result, rest⟩, hread, rfl⟩ := Option.map_eq_some_iff.mp h
  simp only [frameDec, Dec.bind_eq_some, Dec.require_eq_some, Dec.u32_eq_some, Dec.bytes_eq_some,
    Dec.finish_eq_some, Dec.pure_eq_some, Prod.mk.injEq, beq_iff_eq] at hread
  obtain ⟨m, _, rfl, _, _, ⟨rfl, -, rfl⟩, len, _, rfl, crc, _, rfl, _, _, ⟨hlen, rfl⟩, _, _,
    ⟨rfl, -, rfl⟩, _, _, ⟨rfl, -, rfl⟩, rfl, rfl⟩ := hread
  show sealFrame m result = _
  rw [sealFrame, hlen, if_pos len.toNat_lt, UInt32.ofNat_toNat]
  simp only [List.append_assoc, List.append_nil]

end Blockd
