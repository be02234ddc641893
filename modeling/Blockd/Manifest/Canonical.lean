import Blockd.Manifest.Archive

/-!
# One form of each archive record

The decoders of `manifest.rs` check padding, absent fields, counts, lengths and checksums, so that
nothing but the encoding of a value decodes to it.  Here each of them is characterised completely:
it answers a value exactly on that value's own bytes, and exactly if the value is one that the
decoder's checks let through.

* `ObjectRef.decodeFrom_exact` (with the reference itself) is the reference's own decoder;
* `CompleteFileList.decode_eq_some`, `Manifest.decode_eq_some`, `BaseRoot.decode_eq_some` and
  `BaseManifest.decode_eq_some` are the four framed records;
* `manifest_codecs_canonical` puts them together.
-/

set_option autoImplicit false

open Codec

namespace Blockd

/-! ## Fields -/

theorem RecoveryKind.decode_eq_some {value : UInt8} {k : RecoveryKind} :
    decode value = some k ↔ value = k.toByte := by
  refine ⟨fun h => ?_, fun h => h ▸ k.decode_toByte⟩
  rw [decode] at h
  split_ifs at h <;> obtain rfl := Option.some.inj h <;> assumption

theorem BaseRef.ofFields_eq_some {tag : UInt8} {r : BaseRef} {o : Option BaseRef} :
    ofFields tag r = some o ↔ (o = none ∧ tag = 0 ∧ r = ⟨0, 0, 0, 0⟩) ∨ (o = some r ∧ tag = 1) := by
  rw [ofFields]
  split_ifs <;> grind

theorem BaseRef.decode_exact : Exact BaseRef.decode BaseRef.encode fun _ => True := by
  refine Exact.of_reads (fun r _ => reads r) (Accepts.bind Exact.u8 fun tag _ => ?_)
  refine Accepts.bind Exact.u64 fun base _ => Accepts.bind Exact.u64 fun manifest _ => ?_
  refine Accepts.bind Exact.u64 fun checksum _ => Accepts.bind Exact.u64 fun post _ => ?_
  refine Accepts.ofOption fun o ho _ => ⟨?_, trivial⟩
  obtain ⟨rfl, rfl, h⟩ | ⟨rfl, rfl⟩ := ofFields_eq_some.mp ho
  · obtain ⟨rfl, rfl, rfl, rfl⟩ := BaseRef.mk.inj h
    simp only [encode, List.append_assoc, List.append_nil]
  · simp only [encode, List.append_assoc, List.append_nil]

theorem FileListRef.ofFields_eq_some {tag : UInt8} {r : FileListRef} {o : Option FileListRef} :
    ofFields tag r = some o ↔ (o = none ∧ tag = 0 ∧ r = ⟨0, 0, 0⟩) ∨ (o = some r ∧ tag = 1) := by
  rw [ofFields]
  split_ifs <;> grind

theorem FileListRef.decode_exact : Exact FileListRef.decode FileListRef.encode fun _ => True := by
  refine Exact.of_reads (fun r _ => reads r) (Accepts.bind Exact.u8 fun tag _ => ?_)
  refine Accepts.bind Exact.u64 fun fence _ => Accepts.bind Exact.u64 fun list _ => ?_
  refine Accepts.bind Exact.u64 fun checksum _ => Accepts.ofOption fun o ho _ => ⟨?_, trivial⟩
  obtain ⟨rfl, rfl, h⟩ | ⟨rfl, rfl⟩ := ofFields_eq_some.mp ho
  · obtain ⟨rfl, rfl, rfl⟩ := FileListRef.mk.inj h
    simp only [encode, List.append_assoc, List.append_nil]
  · simp only [encode, List.append_assoc, List.append_nil]

/-- The spare byte has to be zero. -/
theorem VolumeConfig.decode_exact :
    Exact VolumeConfig.decode VolumeConfig.encode fun c => c.pages ≠ 0 := by
  refine Exact.of_reads (fun c hc => reads hc) (Accepts.bind Exact.u8 fun tag _ => ?_)
  refine Accepts.ofOption_bind fun kind hkind => Accepts.expect_bind Exact.u8 ?_
  refine Accepts.bind Exact.u32 fun pages _ => ?_
  refine Accepts.require_bind fun hpages => Accepts.pure fun _ => ⟨?_, bne_iff_ne.mp hpages⟩
  rw [VolumeKind.decode_eq_some.mp hkind]
  simp only [encode, List.append_assoc, List.append_nil]

/-! ## Records -/

namespace CompleteFileList

variable [Platform]

theorem payloadDec_exact (expected : FileListRef) (volume : VolumeId) :
    DecodesExactly (payloadDec expected volume) payload fun l =>
      l.volume = volume ∧ (expected.writerFence, expected.listId) = (l.writerFence, l.listId) ∧
      l.objects.length < 2 ^ 32 ∧ (∀ f ∈ l.objects, f.WellFormed) ∧
      validateObjectRefs l.objects = true := by
  refine DecodesExactly.of_decodes ?_ ?_
  · rintro l ⟨rfl, hname, hcount, hfiles, hvalid⟩
    exact decodes_payload hname hvalid hcount hfiles
  · refine Accepts.expect_bind Exact.u16 (Accepts.expect_bind Exact.u64 ?_)
    refine Accepts.bind Exact.u64 fun fence _ => Accepts.bind Exact.u64 fun list _ => ?_
    refine Accepts.require_bind fun hname => Accepts.bind Exact.u32 fun count _ => ?_
    refine Accepts.bind (ObjectRef.decodeFrom_exact.repeatN _) fun objects hobjects => ?_
    refine Accepts.bind Exact.u64 fun stored _ => Accepts.finish_bind ?_
    refine Accepts.require_bind fun hsum => Accepts.require_bind fun hvalid => ?_
    obtain ⟨hfence, hlist⟩ := (Bool.and_eq_true _ _).mp hname
    refine Accepts.pure fun rest hrest => ⟨hrest, ?_, rfl, ?_, ?_, hobjects.2, hvalid⟩
    · rw [payload, beq_iff_eq.mp hsum]
      simp only [content, hobjects.1, UInt32.ofNat_toNat, List.append_assoc, List.append_nil]
    · rw [beq_iff_eq.mp hfence, beq_iff_eq.mp hlist]
    · exact hobjects.1 ▸ count.toNat_lt

/-- **A file list is read from its own bytes, through its own reference, and from no others.** -/
theorem decode_eq_some {expected : FileListRef} {volume : VolumeId} {bytes : Bytes}
    {l : CompleteFileList} :
    decode expected volume bytes = some l ↔ l.encode = some bytes ∧ l.volume = volume ∧
      l.reference = some expected ∧ ∀ f ∈ l.objects, f.WellFormed := by
  simp only [decode, bind_eq_some, ensure_eq_some, exists_const, openFrame_eq_some,
    payloadDec_exact expected volume _ _]
  constructor
  · rintro ⟨⟨hlen, hsum⟩, payload, hseal, hpayload, hvolume, hname, hcount, hfiles, hvalid⟩
    rw [hpayload] at hseal
    have hencode : l.encode = some bytes := encode_eq_some.mpr ⟨hvalid, hcount, hseal, hlen⟩
    obtain ⟨hfence, hlist⟩ := Prod.mk.inj hname
    refine ⟨hencode, hvolume, ?_, hfiles⟩
    rw [reference, hencode, Option.map_some, hsum, ← hfence, ← hlist]
  · rintro ⟨hencode, hvolume, href, hfiles⟩
    rw [reference, hencode, Option.map_some, Option.some.injEq] at href
    obtain ⟨hvalid, hcount, hseal, hlen⟩ := encode_eq_some.mp hencode
    rw [← href]
    exact ⟨⟨hlen, rfl⟩, l.payload, hseal, rfl, hvolume, rfl, hcount, hfiles, hvalid⟩

end CompleteFileList

namespace Manifest

variable [Platform]

theorem decodeManifestPrefix_exact (volume : VolumeId) :
    Exact (decodeManifestPrefix volume) encodeManifestPrefix fun m =>
      m.volume = volume ∧ m.config.pages ≠ 0 ∧ m.added = [] ∧ m.removed = [] := by
  refine Exact.of_reads ?_ ?_
  · rintro m ⟨rfl, hpages, hadded, hremoved⟩
    have h := reads_manifestPrefix hpages
    rwa [← hadded, ← hremoved] at h
  · refine Accepts.expect_bind Exact.u16 (Accepts.expect_bind Exact.u64 ?_)
    refine Accepts.bind Exact.u64 fun fence _ => Accepts.bind Exact.u64 fun journal _ => ?_
    refine Accepts.bind Exact.u64 fun archive _ => Accepts.bind Exact.u64 fun capture _ => ?_
    refine Accepts.bind Exact.u64 fun sync _ => Accepts.bind Exact.u8 fun tag _ => ?_
    refine Accepts.ofOption_bind fun kind hkind => Accepts.bind Exact.u64 fun epoch _ => ?_
    refine Accepts.expect_bind Exact.u32 ?_
    refine Accepts.bind VolumeConfig.decode_exact fun config hconfig => ?_
    refine Accepts.bind Exact.u64 fun vmstate _ => Accepts.bind BaseRef.decode_exact fun base _ => ?_
    refine Accepts.bind FileListRef.decode_exact fun list _ => ?_
    refine Accepts.bind Exact.u64 fun post _ => Accepts.bind Exact.u64 fun metadata _ => ?_
    refine Accepts.pure fun _ => ⟨?_, rfl, hconfig, rfl, rfl⟩
    rw [RecoveryKind.decode_eq_some.mp hkind]
    simp only [encodeManifestPrefix, List.append_assoc, List.append_nil]

theorem payloadDec_exact (volume : VolumeId) :
    DecodesExactly (payloadDec volume) payload fun m =>
      m.volume = volume ∧ m.config.pages ≠ 0 ∧ m.added.length < 2 ^ 32 ∧
      m.removed.length < 2 ^ 32 ∧ ∀ f ∈ m.added, f.WellFormed := by
  refine DecodesExactly.of_decodes ?_ ?_
  · rintro m ⟨hvolume, hpages, hadded, hremoved, hfiles⟩
    exact hvolume ▸ decodes_payload hpages hadded hremoved hfiles
  · refine Accepts.bind (decodeManifestPrefix_exact volume) fun start hstart => ?_
    obtain ⟨hvolume, hpages, -, -⟩ := hstart
    refine Accepts.bind Exact.u32 fun addedCount _ => ?_
    refine Accepts.bind (ObjectRef.decodeFrom_exact.repeatN _) fun added hadded => ?_
    refine Accepts.bind Exact.u32 fun removedCount _ => ?_
    refine Accepts.bind (ObjectIdentity.decode_exact.repeatN _) fun removed hremoved => ?_
    refine Accepts.finish_bind (Accepts.pure fun rest hrest => ⟨hrest, ?_, hvolume, hpages, ?_⟩)
    · simp only [payload, encodeManifestPrefix, hadded.1, hremoved.1, UInt32.ofNat_toNat,
        List.append_assoc, List.append_nil]
    · exact ⟨hadded.1 ▸ addedCount.toNat_lt, hremoved.1 ▸ removedCount.toNat_lt, hadded.2⟩

/-- **A manifest is read from its own bytes and from no others.** -/
theorem decode_eq_some {volume : VolumeId} {bytes : Bytes} {m : Manifest} :
    decode volume bytes = some m ↔ m.encode = some bytes ∧ m.volume = volume ∧
      m.config.pages ≠ 0 ∧ ∀ f ∈ m.added, f.WellFormed := by
  simp only [decode, bind_eq_some, ensure_eq_some, exists_const, openFrame_eq_some,
    payloadDec_exact volume _ _, encode_eq_some, pure_eq_some]
  constructor
  · rintro ⟨hlen, payload, hseal, _, hread, hshape, rfl⟩
    obtain ⟨hpayload, hvolume, hpages, hadded, hremoved, hfiles⟩ := hread
    rw [hpayload] at hseal
    exact ⟨⟨hshape, hadded, hremoved, hseal, hlen⟩, hvolume, hpages, hfiles⟩
  · rintro ⟨⟨hshape, hadded, hremoved, hseal, hlen⟩, hvolume, hpages, hfiles⟩
    exact ⟨hlen, m.payload, hseal, m, ⟨rfl, hvolume, hpages, hadded, hremoved, hfiles⟩, hshape,
      rfl⟩

end Manifest

namespace BaseRoot

theorem payloadDec_exact (baseId : UInt64) :
    DecodesExactly (payloadDec baseId) payload fun r => r.baseId = baseId := by
  refine DecodesExactly.of_decodes ?_ ?_
  · rintro r rfl
    exact r.decodes_payload
  · refine Accepts.expect_bind Exact.u16 (Accepts.expect_bind Exact.u64 ?_)
    refine Accepts.bind Exact.u64 fun manifest _ => Accepts.bind Exact.u64 fun checksum _ => ?_
    refine Accepts.bind Exact.u64 fun post _ => Accepts.finish_bind (Accepts.pure ?_)
    refine fun rest hrest => ⟨hrest, ?_, rfl⟩
    simp only [payload, List.append_assoc, List.append_nil]

/-- **The root of a base is read from its own bytes and from no others.** -/
theorem decode_eq_some {baseId : UInt64} {bytes : Bytes} {r : BaseRoot} :
    decode baseId bytes = some r ↔ r.encode = some bytes ∧ r.baseId = baseId := by
  simp only [decode, encode, bind_eq_some, openFrame_eq_some, payloadDec_exact baseId _ _]
  constructor
  · rintro ⟨payload, hseal, hpayload, hbase⟩
    exact ⟨hpayload ▸ hseal, hbase⟩
  · rintro ⟨hseal, hbase⟩
    exact ⟨r.payload, hseal, rfl, hbase⟩

end BaseRoot

namespace BaseManifest

variable [Platform]

theorem payloadDec_exact (root : BaseRoot) :
    DecodesExactly (payloadDec root) payload fun m =>
      (root.baseId = m.baseId ∧ root.manifestId = m.manifestId ∧
        root.postStateChecksum = m.postStateChecksum) ∧
      m.config.pages ≠ 0 ∧ m.syncCoveredThrough ≤ m.captureSeq ∧ m.objects.length < 2 ^ 32 ∧
      (∀ f ∈ m.objects, f.WellFormed) ∧ validateObjectRefs m.objects = true := by
  refine DecodesExactly.of_decodes ?_ ?_
  · rintro m ⟨⟨hbase, hid, hpost⟩, hpages, hsync, hcount, hfiles, hvalid⟩
    exact decodes_payload hbase hid hpost hpages hvalid hsync hcount hfiles
  · refine Accepts.expect_bind Exact.u16 (Accepts.expect_bind Exact.u64 ?_)
    refine Accepts.expect_bind Exact.u64 ?_
    refine Accepts.bind Exact.u64 fun capture _ => Accepts.bind Exact.u64 fun sync _ => ?_
    refine Accepts.bind Exact.u8 fun tag _ => Accepts.ofOption_bind fun kind hkind => ?_
    refine Accepts.bind Exact.u64 fun epoch _ => Accepts.expect_bind Exact.u32 ?_
    refine Accepts.bind VolumeConfig.decode_exact fun config hconfig => ?_
    refine Accepts.bind Exact.u64 fun vmstate _ => Accepts.bind Exact.u64 fun post _ => ?_
    refine Accepts.bind Exact.u64 fun metadata _ => Accepts.bind Exact.u32 fun count _ => ?_
    refine Accepts.bind (ObjectRef.decodeFrom_exact.repeatN _) fun objects hobjects => ?_
    refine Accepts.finish_bind (Accepts.require_bind fun hsync => ?_)
    refine Accepts.require_bind fun hpost => Accepts.require_bind fun hvalid => ?_
    refine Accepts.pure fun rest hrest => ⟨hrest, ?_, ⟨rfl, rfl, (beq_iff_eq.mp hpost).symm⟩,
      hconfig, of_decide_eq_true hsync, hobjects.1 ▸ count.toNat_lt, hobjects.2, hvalid⟩
    rw [RecoveryKind.decode_eq_some.mp hkind]
    simp only [payload, hobjects.1, UInt32.ofNat_toNat, List.append_assoc, List.append_nil]

/-- **A base manifest is read from its own bytes, through its own root, and from no others.** -/
theorem decode_eq_some {root : BaseRoot} {bytes : Bytes} {m : BaseManifest} :
    decode root bytes = some m ↔ m.encode = some bytes ∧ m.root = some root ∧
      m.config.pages ≠ 0 ∧ ∀ f ∈ m.objects, f.WellFormed := by
  simp only [decode, bind_eq_some, ensure_eq_some, exists_const, openFrame_eq_some,
    payloadDec_exact root _ _]
  constructor
  · rintro ⟨⟨hlen, hsum⟩, payload, hseal, hpayload, hname, hpages, hsync, hcount, hfiles, hvalid⟩
    rw [hpayload] at hseal
    have hencode : m.encode = some bytes :=
      encode_eq_some.mpr ⟨hvalid, hsync, hcount, hseal, hlen⟩
    obtain ⟨hbase, hid, hpost⟩ := hname
    refine ⟨hencode, ?_, hpages, hfiles⟩
    rw [BaseManifest.root, hencode, Option.map_some, hsum, ← hbase, ← hid, ← hpost]
  · rintro ⟨hencode, hroot, hpages, hfiles⟩
    rw [BaseManifest.root, hencode, Option.map_some, Option.some.injEq] at hroot
    obtain ⟨hvalid, hsync, hcount, hseal, hlen⟩ := encode_eq_some.mp hencode
    rw [← hroot]
    exact ⟨⟨hlen, rfl⟩, m.payload, hseal, rfl, ⟨rfl, rfl, rfl⟩, hpages, hsync, hcount, hfiles,
      hvalid⟩

end BaseManifest

/-! ## The codecs of the archive -/

/-- **The archive's codecs are canonical.**  Each decoder answers a value exactly on the bytes that
the value is encoded to, and exactly if the value meets the decoder's checks: what is written reads
back, and no value has a second accepted form. -/
theorem manifest_codecs_canonical [Platform] :
    (∀ (input : Bytes) (r : ObjectRef) (rest : Bytes),
      ObjectRef.decodeFrom input = some (r, rest) ↔ input = r.encode ++ rest ∧ r.WellFormed) ∧
    (∀ (expected : FileListRef) (volume : VolumeId) (bytes : Bytes) (l : CompleteFileList),
      CompleteFileList.decode expected volume bytes = some l ↔ l.encode = some bytes ∧
        l.volume = volume ∧ l.reference = some expected ∧ ∀ f ∈ l.objects, f.WellFormed) ∧
    (∀ (volume : VolumeId) (bytes : Bytes) (m : Manifest),
      Manifest.decode volume bytes = some m ↔ m.encode = some bytes ∧ m.volume = volume ∧
        m.config.pages ≠ 0 ∧ ∀ f ∈ m.added, f.WellFormed) ∧
    (∀ (baseId : UInt64) (bytes : Bytes) (r : BaseRoot),
      BaseRoot.decode baseId bytes = some r ↔ r.encode = some bytes ∧ r.baseId = baseId) ∧
    (∀ (root : BaseRoot) (bytes : Bytes) (m : BaseManifest),
      BaseManifest.decode root bytes = some m ↔ m.encode = some bytes ∧ m.root = some root ∧
        m.config.pages ≠ 0 ∧ ∀ f ∈ m.objects, f.WellFormed) := by
  refine ⟨fun input r rest => ObjectRef.decodeFrom_exact input (r, rest), ?_, ?_, ?_, ?_⟩
  · exact fun _ _ _ _ => CompleteFileList.decode_eq_some
  · exact fun _ _ _ => Manifest.decode_eq_some
  · exact fun _ _ _ => BaseRoot.decode_eq_some
  · exact fun _ _ _ => BaseManifest.decode_eq_some

end Blockd
