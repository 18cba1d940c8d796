/-
  File:      Ufw/RegisterProtocol/Protection.lean
  Subject:   REGISTER PROTOCOL: what the checksums of a frame protect.

  * `regpRecv_protected_iff` -- **on a serial line, frames without protection are accepted**: the
    parser takes the word of the header for it;
  * `regpRecv_checksPayload_iff` -- **the checksum of a payload is checked where the header has
    one**, not where the payload has one.
-/
import Ufw.RegisterProtocol.Reception

namespace Ufw

open Base

variable {σ τ μ α : Type}

/-! ## 1. Frames in a block -/

/-- The frame in a block, behind a header that is accepted, with a plausible payload. -/
structure PlausibleFrame (h : Host) (block : Block) (used : Nat) (f : RPFrame) : Prop where
  intro ::
  header : ∃ header off, HeaderOk h (block.octets.shift h.sizeofRPFrame)
    (rawFrame h block used).rawSize header off ∧ f = headedFrame h block used header off
  payload_ok : payloadPlausible f = .ok 0

/-- The octets of the payload. -/
def payloadOctets (f : RPFrame) : List Octet := f.memory.slice f.payloadData f.payloadSize

section Frames

variable {h : Host} {block : Block} {used : Nat} {f : RPFrame}

/-- A plausible frame is accepted unless its checksum is checked and wrong. -/
theorem PlausibleFrame.parse (hf : PlausibleFrame h block used f) :
    (parseFrame h block used).val = (f, if regpHasHdcrc f = true ∧ f.payloadSize ≠ 0 ∧
      ufwBufferCrc16Arc (checkedOctets f) ≠ f.header.plcrc then .error .eproto else .ok 0) := by
  obtain ⟨⟨header, off, hok, rfl⟩, hp⟩ := hf
  rw [parseFrame_headed hok, hp, checkPayload_val]
  split <;> rfl

/-- Only plausible frames are accepted, or refused for their payload. -/
theorem PlausibleFrame.of_parse {rc : Rc} (hval : (parseFrame h block used).val = (f, rc))
    (hrc : rc = .ok 0 ∨ rc = .error .eproto) : PlausibleFrame h block used f := by
  rcases hparse : (parseHeader h default (block.octets.shift h.sizeofRPFrame)
    (rawFrame h block used).rawSize).val with ⟨header, e | off⟩
  · have hbad : (parseFrame h block used).val.2 = .error e :=
      parseFrame_refused (congrArg Prod.snd hparse)
    rw [hval] at hbad
    obtain rfl : rc = .error e := hbad
    rcases parseHeader_error h default _ _ e (congrArg Prod.snd hparse) with rfl | rfl <;>
      rcases hrc with he | he <;> cases he
  · have hok := parseHeader_ok_iff.mp hparse
    rw [parseFrame_headed hok, Prod.mk.injEq] at hval
    obtain ⟨rfl, hres⟩ := hval
    refine ⟨⟨header, off, hok, rfl⟩, ?_⟩
    rcases hp : payloadPlausible (headedFrame h block used header off) with e | k
    · rw [hp] at hres
      obtain rfl : Except.error e = rc := hres
      rcases payloadPlausible_error hp with rfl | rfl <;> rcases hrc with he | he <;> cases he
    · rw [payloadPlausible_ok_zero hp]

/-- The header of a plausible frame, read from the frame. -/
theorem PlausibleFrame.header_ok (hf : PlausibleFrame h block used f) :
    ∃ off, HeaderOk h f.memory f.rawSize f.header off := by
  obtain ⟨⟨header, off, hok, rfl⟩, -⟩ := hf
  exact ⟨off, hok⟩

end Frames

/-! ## 2. Frames without protection -/

/-- **A frame that is protected** as a serial line demands: its header has a checksum, which is
    right, and so has its payload if there is one. -/
structure Protected (h : Host) (f : RPFrame) : Prop where
  hdcrc : regpHasHdcrc f = true
  checksum : (readU16b h f.memory 6).val = headerCrc h f.memory (headerMotv h f.memory)
  plcrc : f.payloadSize ≠ 0 → regpHasPlcrc f = true

/-- No frame is handed out without an error that is not protected. -/
def AcceptsProtected (h : Host) (p : RegP σ τ μ α) : Prop :=
  ∀ fuel rc mf p' f, regpRecv h fuel p = .ok (rc, mf, p') → mf.errorId = none →
    mf.frame = some f → Protected h f

/-- **A plausible frame without protection**: one whose header has no checksum; or one whose
    payload has none, and is such that its checksum is 0. -/
def Unprotected (h : Host) (block : Block) (used : Nat) : Prop :=
  ∃ f, PlausibleFrame h block used f ∧ (regpHasHdcrc f = false ∨
    f.payloadSize ≠ 0 ∧ regpHasPlcrc f = false ∧ ufwBufferCrc16Arc (checkedOctets f) = 0)

section Protection

variable {h : Host} {p : RegP σ τ μ α} {block : Block} {used fuel : Nat}

/-- Without a checksum of the payload, the header says 0. -/
theorem HeaderOk.plcrc_none {raw : Mem Octet} {n off : Nat} {header : RPHeader}
    (hok : HeaderOk h raw n header off)
    (hnone : bitIsset header.options rpOptWithPayloadCrc = false) : header.plcrc = 0 := by
  rw [hok.plcrc, hok.options_bits.2.1, hnone]
  rfl

/-- A frame without protection is accepted. -/
theorem Unprotected.accepted (hroom : h.sizeofRPFrame < p.alloc.blocksize)
    (hrec : Received h fuel p block used) (hun : Unprotected h block used) :
    ¬AcceptsProtected h p := by
  obtain ⟨f, hf, hkind⟩ := hun
  obtain ⟨q, hcall⟩ := hrec.recv hroom
  have hval := hf.parse
  intro hacc
  have hpass : ¬(regpHasHdcrc f = true ∧ f.payloadSize ≠ 0 ∧
      ufwBufferCrc16Arc (checkedOctets f) ≠ f.header.plcrc) := by
    rintro ⟨h1, -, h3⟩
    rcases hkind with h0 | ⟨-, hpl, hcrc⟩
    · exact Bool.false_ne_true (h0.symm.trans h1)
    · obtain ⟨off, hok⟩ := hf.header_ok
      exact h3 (hcrc.trans (hok.plcrc_none hpl).symm)
  rw [if_neg hpass] at hval
  have hprot := hacc fuel _ _ _ f (hcall.trans (recvParse_ok hval fuel q)) rfl rfl
  rcases hkind with h0 | ⟨hsize, hpl, -⟩
  · exact Bool.false_ne_true (h0.symm.trans hprot.hdcrc)
  · exact Bool.false_ne_true (hpl.symm.trans (hprot.plcrc hsize))

/-- **When only protected frames are accepted**: where no frame without protection is received. A
    serial line makes no difference. -/
theorem regpRecv_protected_iff (h : Host) (p : RegP σ τ μ α)
    (hroom : h.sizeofRPFrame < p.alloc.blocksize) :
    AcceptsProtected h p ↔
      ¬∃ fuel block used, Received h fuel p block used ∧ Unprotected h block used := by
  constructor
  · rintro hacc ⟨fuel, block, used, hrec, hun⟩
    exact hun.accepted hroom hrec hacc
  · intro hnone fuel rc mf p' f hr herr hframe
    obtain ⟨block, used, k, hrec, hval⟩ := Received.of_accepted hroom hr herr hframe
    obtain ⟨rfl, -⟩ := parseFrame_ok_iff.mp hval
    have hplaus := PlausibleFrame.of_parse hval (.inl rfl)
    obtain ⟨off, hok⟩ := hplaus.header_ok
    have hall := fun hkind => hnone ⟨fuel, block, used, hrec, f, hplaus, hkind⟩
    obtain ⟨h1, h2⟩ := not_or.mp hall
    have hhd : regpHasHdcrc f = true := Bool.not_eq_false _ ▸ h1
    have hraw : rawWithHdcrc (headerMotv h f.memory) = true := hok.options_bits.1.trans hhd
    refine ⟨hhd, ?_, fun hsize => ?_⟩
    · rw [hok.hdcrc_ok hraw, hok.hdcrc, if_pos hraw]
    · -- without a checksum the payload would have been refused, or be one of the exceptions
      by_contra hpl
      have hpl' : regpHasPlcrc f = false := Bool.eq_false_iff.mpr hpl
      have hcrc : ufwBufferCrc16Arc (checkedOctets f) ≠ f.header.plcrc := by
        rw [hok.plcrc_none hpl']
        exact fun hc => h2 ⟨hsize, hpl', hc⟩
      have hparse := hplaus.parse
      rw [hval, if_pos ⟨hhd, hsize, hcrc⟩] at hparse
      cases hparse

theorem regpRecv_protected_iff_wordRequest :
    AcceptsProtected lp64Host (ramInstance .serial (lineEncode .serial wordRequest)) ↔
      ¬∃ fuel block used, Received lp64Host fuel
        (ramInstance .serial (lineEncode .serial wordRequest)) block used ∧
        Unprotected lp64Host block used :=
  regpRecv_protected_iff lp64Host _ (by decide)

end Protection

/-- A read request for one 16-bit word, without a checksum. -/
def bareRequest : List Octet :=
  [0x01, 0x00, 0x00, 0x00, 0x00, 0x00, 0x00, 0x00, 0x00, 0x00, 0x00, 0x01]

/-- The request is accepted on a serial line. -/
theorem regpRecv_unprotected :
    ¬AcceptsProtected lp64Host (ramInstance .serial (lineEncode .serial bareRequest)) := by
  intro hacc
  have hf := hacc 16 _ _ _ _ rfl rfl rfl
  exact Bool.false_ne_true hf.hdcrc

/-! ## 3. The checksum of the payload -/

/-- **The checksum of a payload is checked where there is one**: a payload that has a checksum is
    accepted only if it is right, and one that has none is not refused for it. -/
structure ChecksPayload (h : Host) (p : RegP σ τ μ α) : Prop where
  checked : ∀ fuel rc mf p' f, regpRecv h fuel p = .ok (rc, mf, p') → mf.errorId = none →
    mf.frame = some f → f.payloadSize ≠ 0 → regpHasPlcrc f = true →
    ufwBufferCrc16Arc (payloadOctets f) = f.header.plcrc
  unchecked : ∀ fuel rc mf p' f, regpRecv h fuel p = .ok (rc, mf, p') → mf.frame = some f →
    f.payloadSize ≠ 0 → regpHasPlcrc f = false → mf.errorId ≠ some .eproto

/-- The header has no checksum, so that of the payload is not checked; and it is wrong. -/
def Unverified (f : RPFrame) : Prop :=
  regpHasHdcrc f = false ∧ regpHasPlcrc f = true ∧
    ufwBufferCrc16Arc (payloadOctets f) ≠ f.header.plcrc

/-- The header has a checksum and the payload has none, but is checked against 0. -/
def Misjudged (f : RPFrame) : Prop :=
  regpHasHdcrc f = true ∧ regpHasPlcrc f = false ∧ ufwBufferCrc16Arc (checkedOctets f) ≠ 0

/-- Both have one, but the payload ends with half a word, which is not checked; the checksum is that
    of the words `check_payload` takes it of, and not that of the payload. -/
def HalfChecked (f : RPFrame) : Prop :=
  regpHasHdcrc f = true ∧ regpHasPlcrc f = true ∧ frameWord f = 2 ∧ f.payloadSize % 2 = 1 ∧
    ufwBufferCrc16Arc (checkedOctets f) = f.header.plcrc ∧
    ufwBufferCrc16Arc (payloadOctets f) ≠ f.header.plcrc

/-- A plausible frame with a payload whose checksum is not treated as its options say. -/
def Mischecked (h : Host) (block : Block) (used : Nat) : Prop :=
  ∃ f, PlausibleFrame h block used f ∧ f.payloadSize ≠ 0 ∧
    (Unverified f ∨ Misjudged f ∨ HalfChecked f)

section Payload

variable {h : Host} {p : RegP σ τ μ α} {block : Block} {used fuel : Nat} {f : RPFrame}

theorem actualsize_eq (f : RPFrame) : actualsize f = f.payloadSize / frameWord f := by
  unfold actualsize frameWord
  split
  · rfl
  · exact (Nat.div_one _).symm

/-- **What is checked is the payload**, if it has whole words. -/
theorem checkedOctets_eq (hp : payloadPlausible f = .ok 0) (hsize : f.payloadSize ≠ 0)
    (hwhole : f.payloadSize % frameWord f = 0) : checkedOctets f = payloadOctets f := by
  have hmul : actualsize f * frameWord f = f.payloadSize := by
    rw [actualsize_eq]
    exact Nat.div_mul_cancel (Nat.dvd_of_mod_eq_zero hwhole)
  rcases payloadPlausible_ok hp with hb | ⟨-, hz⟩
  · unfold checkedOctets payloadOctets
    rw [hb, hmul]
  · rw [hz, Nat.zero_mul] at hmul
    exact absurd hmul.symm hsize

theorem frameWord_cases (f : RPFrame) : frameWord f = 1 ∨ frameWord f = 2 := by
  unfold frameWord
  split
  · exact .inr rfl
  · exact .inl rfl

/-- A payload whose checksum is not treated as its options say is seen in a call. -/
theorem Mischecked.not_checksPayload (hroom : h.sizeofRPFrame < p.alloc.blocksize)
    (hrec : Received h fuel p block used) (hmis : Mischecked h block used) :
    ¬ChecksPayload h p := by
  obtain ⟨f, hf, hsize, hkind⟩ := hmis
  obtain ⟨q, hcall⟩ := hrec.recv hroom
  have hval := hf.parse
  intro hch
  rcases hkind with ⟨hhd, hpl, hcrc⟩ | ⟨hhd, hpl, hcrc⟩ | ⟨hhd, hpl, -, -, hsame, hcrc⟩
  · rw [if_neg fun hn => Bool.false_ne_true (hhd.symm.trans hn.1)] at hval
    exact hcrc (hch.checked fuel _ _ _ f (hcall.trans (recvParse_ok hval fuel q)) rfl rfl hsize hpl)
  · obtain ⟨off, hok⟩ := hf.header_ok
    rw [if_pos ⟨hhd, hsize, by rw [hok.plcrc_none hpl]; exact hcrc⟩] at hval
    have hr : regpRecv h fuel p = .ok (.ok 0,
        { errorId := some .eproto, framesize := 0, frame := some f }, q) := by
      rw [hcall, recvParse, hval]
    exact hch.unchecked fuel _ _ _ f hr rfl hsize hpl rfl
  · rw [if_neg fun hn => hn.2.2 hsame] at hval
    exact hcrc (hch.checked fuel _ _ _ f (hcall.trans (recvParse_ok hval fuel q)) rfl rfl hsize hpl)

/-- **When the checksum of a payload is checked where there is one**: where no frame is received
    that is treated otherwise. -/
theorem regpRecv_checksPayload_iff (h : Host) (p : RegP σ τ μ α)
    (hroom : h.sizeofRPFrame < p.alloc.blocksize) :
    ChecksPayload h p ↔
      ¬∃ fuel block used, Received h fuel p block used ∧ Mischecked h block used := by
  constructor
  · rintro hch ⟨fuel, block, used, hrec, hmis⟩
    exact hmis.not_checksPayload hroom hrec hch
  · intro hnone
    constructor
    · intro fuel rc mf p' f hr herr hframe hsize hpl
      obtain ⟨block, used, k, hrec, hval⟩ := Received.of_accepted hroom hr herr hframe
      obtain ⟨rfl, -⟩ := parseFrame_ok_iff.mp hval
      have hplaus := PlausibleFrame.of_parse hval (.inl rfl)
      by_contra hcrc
      refine hnone ⟨fuel, block, used, hrec, f, hplaus, hsize, ?_⟩
      cases hhd : regpHasHdcrc f with
      | false => exact .inl ⟨hhd, hpl, hcrc⟩
      | true =>
        -- the checksum of what is checked is right, so that is not the payload
        have hparse := hplaus.parse
        rw [hval] at hparse
        have hsame : ufwBufferCrc16Arc (checkedOctets f) = f.header.plcrc := by
          by_contra hne
          rw [if_pos ⟨hhd, hsize, hne⟩] at hparse
          cases hparse
        have hodd : f.payloadSize % frameWord f ≠ 0 := fun hwhole =>
          hcrc (checkedOctets_eq hplaus.payload_ok hsize hwhole ▸ hsame)
        rcases frameWord_cases f with hw | hw
        · rw [hw, Nat.mod_one] at hodd
          exact absurd rfl hodd
        · rw [hw] at hodd
          exact .inr (.inr ⟨hhd, hpl, hw, by omega, hsame, hcrc⟩)
    · intro fuel rc mf p' f hr hframe hsize hpl herr
      obtain ⟨block, used, hrec, hf, he⟩ := Received.of_frame hroom hr hframe
      rcases hval : (parseFrame h block used).val with ⟨f', e | k⟩
      · rw [herr, hval] at he
        cases he
        rw [hval] at hf
        obtain rfl : f = f' := hf
        have hplaus := PlausibleFrame.of_parse hval (.inr rfl)
        have hparse := hplaus.parse
        rw [hval] at hparse
        obtain ⟨off, hok⟩ := hplaus.header_ok
        refine hnone ⟨fuel, block, used, hrec, f, hplaus, hsize, .inr (.inl ?_)⟩
        by_cases hc : regpHasHdcrc f = true ∧ f.payloadSize ≠ 0 ∧
            ufwBufferCrc16Arc (checkedOctets f) ≠ f.header.plcrc
        · exact ⟨hc.1, hpl, hok.plcrc_none hpl ▸ hc.2.2⟩
        · rw [if_neg hc] at hparse
          cases hparse
      · rw [herr, hval] at he
        cases he

theorem regpRecv_checksPayload_iff_wordRequest :
    ChecksPayload lp64Host (ramInstance .serial (lineEncode .serial wordRequest)) ↔
      ¬∃ fuel block used, Received lp64Host fuel
        (ramInstance .serial (lineEncode .serial wordRequest)) block used ∧
        Mischecked lp64Host block used :=
  regpRecv_checksPayload_iff lp64Host _ (by decide)

end Payload

/-- A write request for one octet, with a checksum of its payload only, which is wrong. -/
def unverifiedWrite : List Octet :=
  [0x04, 0x20, 0x00, 0x00, 0x00, 0x00, 0x00, 0x00, 0x00, 0x00, 0x00, 0x01, 0x12, 0x34, 0x55]

/-- The write request is accepted. -/
theorem regpRecv_unverified :
    ¬ChecksPayload lp64Host (ramInstance .serial (lineEncode .serial unverifiedWrite)) := by
  intro hch
  have hcrc := hch.checked 32 _ _ _ _ rfl rfl rfl (by decide) (by decide)
  exact absurd hcrc (by decide +kernel)

end Ufw
