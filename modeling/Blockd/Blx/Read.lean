import Blockd.Blx.Finish

/-!
# Reading parts of an object

An object is opened once as a whole, and then read in parts: its footer, and single entries at the
places the footer gives.  `BlxObject.Opened` collects what opening has checked, in the form in which
the parts are read.
-/

set_option autoImplicit false

open Codec

namespace Blockd

variable [Platform]

/-- The entry a footer entry stands for is at its place. -/
def FooterEntry.At (f : FooterEntry) (bytes : Bytes) (footerOffset : Nat) : Prop :=
  f.offset.toNat + f.length.toNat ≤ footerOffset ∧
    ∃ entry, BlxEntry.open (slice bytes f.offset.toNat (f.offset.toNat + f.length.toNat)) =
      some entry ∧ entry.digest = f.digest

/-- What is known of an object that was opened. -/
structure BlxObject.Opened (o : BlxObject) : Prop where
  footer : BlxFooter.open (slice o.bytes o.footerOffset.toNat
    (o.footerOffset.toNat + o.footerLength.toNat)) = some o.footer
  first : o.footer.entries.head?.map FooterEntry.key = some o.header.firstKey
  last : o.footer.entries.getLast?.map FooterEntry.key = some o.header.lastKey
  entries : ∀ f ∈ o.footer.entries, f.At o.bytes o.footerOffset.toNat

variable {bytes : Bytes} {o : BlxObject}

theorem at_of_scanEntries {footerOffset start stop : Nat} {entries : List FooterEntry}
    (h : scanEntries bytes footerOffset entries start = some stop) :
    ∀ f ∈ entries, f.At bytes footerOffset := by
  induction entries generalizing start with
  | nil => simp
  | cons f fs ih =>
    simp only [scanEntries, bind_eq_some, ensure_eq_some, exists_const] at h
    obtain ⟨⟨-, hstop⟩, entry, hentry, hdigest, hrest⟩ := h
    intro g hg
    rcases List.mem_cons.mp hg with rfl | hg
    · exact ⟨hstop, entry, hentry, hdigest⟩
    · exact ih hrest g hg

theorem BlxHeader.open_eq_some {header : BlxHeader} {stop : Nat}
    (h : BlxHeader.open bytes = some (header, stop)) : headerBytes ≤ bytes.length ∧
      stop = headerBytes ∧ ∃ payload, openFrame magicHeader (bytes.take headerBytes) =
        some payload ∧ headerDec.decode payload = some header := by
  simp only [BlxHeader.open, Option.ite_none_left_eq_some, bind_eq_some, ensure_eq_some,
    exists_const, pure_eq_some, Prod.mk.injEq] at h
  obtain ⟨hlen, payload, hpayload, _, hheader, -, rfl, rfl⟩ := h
  exact ⟨Nat.le_of_not_lt hlen, rfl, payload, hpayload, hheader⟩

/-- Everything the scan checks. -/
theorem BlxObject.scan_eq_some {header : BlxHeader} {footer : BlxFooter}
    (h : BlxObject.scan bytes = some (header, footer)) :
    ∃ footerOffset footerLength, BlxHeader.open bytes = some (header, headerBytes) ∧
      openTrailer (bytes.drop (bytes.length - trailerBytes)) = some (footerOffset, footerLength) ∧
      footerOffset.toNat + footerLength.toNat + trailerBytes = bytes.length ∧
      BlxFooter.open (slice bytes footerOffset.toNat
        (footerOffset.toNat + footerLength.toNat)) = some footer ∧
      footer.entries.length = header.entryCount.toNat ∧
      footer.entries.head?.map FooterEntry.key = some header.firstKey ∧
      footer.entries.getLast?.map FooterEntry.key = some header.lastKey ∧
      scanEntries bytes footerOffset.toNat footer.entries headerBytes =
        some footerOffset.toNat := by
  simp only [BlxObject.scan, bind_eq_some, ensure_eq_some, exists_const, pure_eq_some] at h
  obtain ⟨⟨_, headerEnd⟩, hheader, -, ⟨footerOffset, footerLength⟩, htrailer, ⟨-, htotal⟩, _,
    hfooter, ⟨hcount, hfirst, hlast⟩, _, hentries, rfl, heq⟩ := h
  obtain ⟨rfl, rfl⟩ := Prod.mk.inj heq
  obtain ⟨-, rfl, -⟩ := BlxHeader.open_eq_some hheader
  exact ⟨footerOffset, footerLength, hheader, htrailer, htotal, hfooter, hcount, hfirst, hlast,
    hentries⟩

/-- What is opened has been scanned. -/
theorem BlxObject.scan_of_open (h : BlxObject.open bytes = some o) :
    BlxObject.scan bytes = some (o.header, o.footer) ∧
      openTrailer (bytes.drop (bytes.length - trailerBytes)) =
        some (o.footerOffset, o.footerLength) ∧ o.bytes = bytes := by
  simp only [BlxObject.open, bind_eq_some, pure_eq_some] at h
  obtain ⟨⟨header, footer⟩, hscan, -, -, ⟨footerOffset, footerLength⟩, htrailer, rfl⟩ := h
  exact ⟨hscan, htrailer, rfl⟩

theorem BlxObject.bytes_of_open (h : BlxObject.open bytes = some o) : o.bytes = bytes :=
  (BlxObject.scan_of_open h).2.2

/-- **Opening an object checks every part of it.** -/
theorem BlxObject.opened_of_open (h : BlxObject.open bytes = some o) : o.Opened := by
  obtain ⟨hscan, htrailer, hbytes⟩ := BlxObject.scan_of_open h
  obtain ⟨_, _, -, htrailer', -, hfooter, -, hfirst, hlast, hentries⟩ :=
    BlxObject.scan_eq_some hscan
  obtain ⟨rfl, rfl⟩ := Prod.mk.inj (Option.some.inj (htrailer'.symm.trans htrailer))
  rw [← hbytes] at hfooter hentries
  exact ⟨hfooter, hfirst, hlast, at_of_scanEntries hentries⟩

/-! ## Reading back what was put in -/

/-- The entry is stored at the place of the footer entry, which describes it. -/
structure FooterEntry.Holds (bytes : Bytes) (entry : BlxEntry) (f : FooterEntry) : Prop where
  digest : f.digest = entry.digest
  stored : BlxEntry.open (slice bytes f.offset.toNat (f.offset.toNat + f.length.toNat)) = some entry

theorem holds_of_encodeEntries {entries : List BlxEntry} {offset : Nat} {body : Bytes}
    {footer : List FooterEntry} (hv : ∀ e ∈ entries, e.Valid)
    (h : encodeEntries entries offset = some (body, footer)) (pre post : Bytes)
    (hpre : pre.length = offset) :
    List.Forall₂ (FooterEntry.Holds (pre ++ body ++ post)) entries footer := by
  induction entries generalizing offset body footer pre with
  | nil =>
    simp only [encodeEntries, Option.some.injEq, Prod.mk.injEq] at h
    rw [← h.2]
    exact .nil
  | cons entry entries ih =>
    obtain ⟨encoded, rest, tail, henc, hoff, hlen, hrest, rfl, rfl⟩ :=
      encodeEntries_cons_eq_some h
    have hslice := slice_append_head hpre encoded rest post
    have htail := ih (fun e he => hv e (List.mem_cons_of_mem entry he)) hrest (pre ++ encoded)
      (by rw [List.length_append, hpre])
    rw [List.append_assoc pre] at htail
    refine .cons ⟨rfl, ?_⟩ htail
    rw [toNat_ofNat32 hoff, toNat_ofNat32 hlen, hslice]
    exact BlxEntry.open_encodeEntry (hv entry List.mem_cons_self) henc

/-- **Every entry of an object reads back as it was put in.** -/
theorem holds_of_encodeObject {batch : BatchMeta} {objectId : UInt64}
    {chunkIndex chunkCount : UInt32} {entries : List BlxEntry} {object : BlxObject}
    (hv : ∀ e ∈ entries, e.Valid)
    (h : encodeObject batch objectId chunkIndex chunkCount entries = some object) :
    List.Forall₂ (FooterEntry.Holds object.bytes) entries object.footer.entries := by
  obtain ⟨first, last, head, body, footerEntries, encodedFooter, -, -, -, -, hbody, -, -, -,
    hfooter, -, -, -, hbytes⟩ := encodeObject_eq_some h
  rw [hbytes, hfooter, List.append_assoc]
  exact holds_of_encodeEntries hv hbody head _ rfl

/-- A file with one entry that opens and holds its entry. -/
structure BlxObject.SingleFile (batch : BatchMeta) (objectId : UInt64) (entry : BlxEntry)
    (layout : Layout) : Prop where
  opens : BlxObject.open layout.bytes = some (BlxObject.single batch objectId 0 1 entry layout)
  stored : BlxEntry.open (slice layout.bytes layout.offset.toNat
    (layout.offset.toNat + layout.length.toNat)) = some entry
  footer : layout.bytes.length ≤ maxFileBytes ∧ 0 < layout.footerLength.toNat ∧
    layout.footerOffset.toNat + layout.footerLength.toNat ≤ layout.bytes.length

/-- **Any entry can be made a file of its own.** -/
theorem BlxObject.exists_single (hfit : PagesFit) {entry : BlxEntry} (hv : entry.Valid)
    (batch : BatchMeta) (hseq : batch.minSeq ≤ batch.maxSeq) (objectId : UInt64) :
    ∃ layout, BlxObject.SingleFile batch objectId entry layout := by
  have hvalid : ∀ e ∈ [entry], e.Valid := by simpa using hv
  obtain ⟨object, hobject, -⟩ := exists_encodeObject hfit (List.cons_ne_nil entry []) hvalid
    (chunkSize_le_of_length_le_one hfit le_rfl hvalid) batch objectId 0 1
  have hopen := BlxObject.open_encodeObject hseq (by decide)
    ⟨hvalid, List.pairwise_singleton _ _⟩ hobject
  have hholds := holds_of_encodeObject hvalid hobject
  have hfooter := footer_of_encodeObject hobject
  obtain ⟨layout, rfl⟩ := eq_single_of_encodeObject hobject
  exact ⟨layout, hopen, (List.forall₂_cons.mp hholds).1.stored, hfooter⟩

end Blockd
