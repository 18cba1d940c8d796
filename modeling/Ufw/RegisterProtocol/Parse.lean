/-
  File:      Ufw/RegisterProtocol/Parse.lean
  Subject:   REGISTER PROTOCOL: parsing received frames (register-protocol.c).

  * `payloadPlausible`, `checkPayload`, `parseFrame` -- the functions of the source, with the
    octets they read;
  * `parseFrame_within_iff` -- **the parser stays inside the frame unless there is a stray octet**:
    half a word behind the header of a message that has no payload;
  * `parseFrame_encodeHeader` -- what becomes of a frame with an encoded header.
-/
import Ufw.RegisterProtocol.Header

namespace Ufw

open Base

variable {σ τ μ α : Type}

/-! ## 1. Matching frames -/

/-- `regp_is_request` -/
def regpIsRequest (f : RPFrame) : Bool :=
  f.header.type == .readRequest || f.header.type == .writeRequest

/-- `regp_is_read_request` -/
def regpIsReadRequest (f : RPFrame) : Bool := f.header.type == .readRequest

/-- `regp_is_16bitsem` -/
def regpIs16bitsem (f : RPFrame) : Bool := bitIsset f.header.options rpOptWordSize16

/-- `regp_has_hdcrc` -/
def regpHasHdcrc (f : RPFrame) : Bool := bitIsset f.header.options rpOptWithHeaderCrc

/-- `regp_has_plcrc` -/
def regpHasPlcrc (f : RPFrame) : Bool := bitIsset f.header.options rpOptWithPayloadCrc

/-! ## 2. Parsing frames -/

/-- `check_payload` -/
def checkPayload (h : Host) (f : RPFrame) : Reads Rc :=
  if regpHasHdcrc f = false ∨ f.payloadSize = 0 then pure (.ok 0)
  else do
    let n := f.header.blocksize.toNat
    let crc ←
      if bitIsset f.header.options rpOptWordSize16 then
        (fun l => ufwBufferCrc16ArcU16 h (octetWords h l)) <$>
          Reads.slice f.memory f.payloadData (2 * n)
      else ufwBufferCrc16Arc <$> Reads.slice f.memory f.payloadData n
    pure (if crc = f.header.plcrc then .ok 0 else .error .eproto)

/-- `actualsize` of `payload_plausible`: how many whole words the payload has. -/
def actualsize (f : RPFrame) : Nat :=
  if bitIsset f.header.options rpOptWordSize16 then f.payloadSize / 2 else f.payloadSize

/-- `payload_plausible` -/
def payloadPlausible (f : RPFrame) : Rc :=
  match f.header.type with
  | .readRequest | .writeResponse | .metaMessage =>
    if actualsize f = 0 then .ok 0 else .error .efault
  | .readResponse | .writeRequest =>
    if f.header.blocksize.toNat = actualsize f then .ok 0 else .error .efault
  | .reserved _ => .error .einval

/-- The frame at the front of a block, before its header is parsed: the other fields are not set. -/
def rawFrame (h : Host) (block : Block) (used : Nat) : RPFrame :=
  { header := default, payloadSize := 0, payloadData := 0
    memory := block.octets.shift h.sizeofRPFrame
    rawSize := sizeSub used h.sizeofRPFrame
    address := block.address }

/-- The frame behind a header of `rc` words. -/
def headedFrame (h : Host) (block : Block) (used : Nat) (header : RPHeader) (rc : Nat) : RPFrame :=
  let frame := rawFrame h block used
  { frame with
    header, payloadData := 2 * rc, payloadSize := sizeSub frame.rawSize (2 * rc) }

/-- `parse_frame`, on a buffer that has memory: `block`, filled up to `used`. -/
def parseFrame (h : Host) (block : Block) (used : Nat) : Reads (RPFrame × Rc) := do
  let frame := rawFrame h block used
  match ← parseHeader h frame.header frame.memory frame.rawSize with
  | (header, .error e) => pure ({ frame with header }, .error e)
  | (header, .ok rc) =>
    let frame := headedFrame h block used header rc
    match payloadPlausible frame with
    | .error e => pure (frame, .error e)
    | .ok _ =>
      match ← checkPayload h frame with
      | .error e => pure (frame, .error e)
      | .ok _ => pure (frame, .ok 0)

/-! ## 3. What the parser reads -/

/-- The types of messages without payload. -/
def RPFrameType.Bare (type : RPFrameType) : Prop :=
  type = .readRequest ∨ type = .writeResponse ∨ type = .metaMessage

/-- **A stray octet**: half a word behind the header of a message without payload. With 16-bit
    words it passes for no payload at all. -/
structure StrayOctet (h : Host) (raw : Mem Octet) (n : Nat) (header : RPHeader) (off : Nat) :
    Prop where
  header_ok : HeaderOk h raw n header off
  hdcrc : bitIsset header.options rpOptWithHeaderCrc = true
  wordSize : bitIsset header.options rpOptWordSize16 = true
  type : header.type.Bare
  size : n = 2 * off + 1
  blocksize : header.blocksize ≠ 0

section Within

variable {h : Host}

theorem payloadPlausible_bare {f : RPFrame} (ht : f.header.type.Bare) :
    payloadPlausible f = if actualsize f = 0 then .ok 0 else .error .efault := by
  unfold payloadPlausible
  rcases ht with ht | ht | ht <;> rw [ht]

theorem payloadPlausible_block {f : RPFrame}
    (ht : f.header.type = .readResponse ∨ f.header.type = .writeRequest) :
    payloadPlausible f =
      if f.header.blocksize.toNat = actualsize f then .ok 0 else .error .efault := by
  unfold payloadPlausible
  rcases ht with ht | ht <;> rw [ht]

/-- A plausible payload is the block of the header, or none at all. -/
theorem payloadPlausible_ok {f : RPFrame} {rc : Nat} (hp : payloadPlausible f = .ok rc) :
    f.header.blocksize.toNat = actualsize f ∨ (f.header.type.Bare ∧ actualsize f = 0) := by
  by_cases ht : f.header.type.Bare
  · rw [payloadPlausible_bare ht] at hp
    split at hp
    · exact .inr ⟨ht, ‹_›⟩
    · cases hp
  · by_cases hb : f.header.type = .readResponse ∨ f.header.type = .writeRequest
    · rw [payloadPlausible_block hb] at hp
      split at hp
      · exact .inl ‹_›
      · cases hp
    · unfold payloadPlausible at hp
      unfold RPFrameType.Bare at ht
      cases hf : f.header.type <;> rw [hf] at hp ht hb <;> simp at hp ht hb

/-- The checksum of a payload stays inside the frame unless the payload is half a word. -/
theorem checkPayload_within_iff {f : RPFrame} {rc n : Nat} (hp : payloadPlausible f = .ok rc)
    (hn : n = f.payloadData + f.payloadSize) :
    (checkPayload h f).Within n ↔
      ¬(regpHasHdcrc f = true ∧ regpIs16bitsem f = true ∧
        f.header.type.Bare ∧ f.payloadSize = 1 ∧ f.header.blocksize ≠ 0) := by
  subst hn
  unfold checkPayload regpIs16bitsem
  have hplaus := payloadPlausible_ok hp
  unfold actualsize at hplaus
  by_cases h0 : regpHasHdcrc f = false ∨ f.payloadSize = 0
  · rw [if_pos h0]
    refine iff_of_true (Reads.within_pure _ _) fun ⟨h1, _, _, h2, _⟩ => ?_
    rcases h0 with h0 | h0
    · rw [h1] at h0
      cases h0
    · omega
  · rw [if_neg h0]
    obtain ⟨h1, h2⟩ := not_or.mp h0
    have hcrc : regpHasHdcrc f = true := Bool.not_eq_false _ ▸ h1
    cases hws : bitIsset f.header.options rpOptWordSize16 with
    | false =>
      rw [hws] at hplaus
      simp only [Bool.false_eq_true, if_false, false_and, and_false, not_false_eq_true,
        iff_true] at hplaus ⊢
      refine Reads.within_bind (Reads.within_map (Reads.within_slice ?_)) (Reads.within_pure _ _)
      rcases hplaus with hb | ⟨-, hz⟩ <;> omega
    | true =>
      rw [hws] at hplaus
      simp only [if_true, true_and, hcrc] at hplaus ⊢
      by_cases hb : f.header.blocksize.toNat = 0
      · have hzero : f.header.blocksize = 0 := BitVec.eq_of_toNat_eq hb
        simp only [hzero, ne_eq, not_true_eq_false, and_false, not_false_eq_true, iff_true]
        exact Reads.within_bind (Reads.within_map (Reads.within_slice (Nat.le_add_right _ _)))
          (Reads.within_pure _ _)
      · have hne : f.header.blocksize ≠ 0 := fun he => hb (by rw [he]; rfl)
        rw [Reads.within_bind_iff, and_iff_left (Reads.within_pure _ _), Reads.within_map_iff,
          Reads.within_slice_iff (by omega)]
        constructor
        · rintro hle ⟨-, hone, -⟩
          omega
        · intro hn
          rcases hplaus with hb' | ⟨ht, hz⟩
          · omega
          · exact absurd ⟨ht, by omega, hne⟩ hn

/-- **`parse_frame` stays inside the frame unless there is a stray octet.** -/
theorem parseFrame_within_iff (h : Host) (block : Block) (used : Nat)
    (hfront : h.sizeofRPFrame ≤ used) (hused : used ≤ ssizeMax) :
    (parseFrame h block used).Within (used - h.sizeofRPFrame) ↔
      ¬∃ header off, StrayOctet h (block.octets.shift h.sizeofRPFrame) (used - h.sizeofRPFrame)
        header off := by
  have hsize : (rawFrame h block used).rawSize = used - h.sizeofRPFrame :=
    sizeSub_eq hfront (lt_of_le_of_lt hused (by decide))
  have hraw : used - h.sizeofRPFrame < 2 ^ 64 :=
    lt_of_le_of_lt (Nat.sub_le _ _) (lt_of_le_of_lt hused (by decide))
  unfold parseFrame
  rw [Reads.within_bind_iff, hsize, and_iff_right (parseHeader_within _)]
  have hmem : (rawFrame h block used).memory = block.octets.shift h.sizeofRPFrame := rfl
  rw [hmem]
  rcases hparse : (parseHeader h (rawFrame h block used).header
    (block.octets.shift h.sizeofRPFrame) (used - h.sizeofRPFrame)).val with ⟨header, e | off⟩
  · refine iff_of_true (Reads.within_pure _ _) fun ⟨header', off', hstray⟩ => ?_
    rw [parseHeader_ok_iff.mpr hstray.header_ok] at hparse
    cases hparse
  · have hok := parseHeader_ok_iff.mp hparse
    have hoff := hok.size
    have hpay : (headedFrame h block used header off).payloadSize =
        used - h.sizeofRPFrame - 2 * off := by
      show sizeSub (rawFrame h block used).rawSize (2 * off) = _
      rw [hsize, sizeSub_eq hoff hraw]
    -- a stray octet is one behind the header the parser has found
    have hstray : (∃ header off, StrayOctet h (block.octets.shift h.sizeofRPFrame)
          (used - h.sizeofRPFrame) header off) ↔
        regpHasHdcrc (headedFrame h block used header off) = true ∧
        regpIs16bitsem (headedFrame h block used header off) = true ∧
        header.type.Bare ∧ (headedFrame h block used header off).payloadSize = 1 ∧
        header.blocksize ≠ 0 := by
      constructor
      · rintro ⟨header', off', hs⟩
        rw [parseHeader_ok_iff.mpr hs.header_ok] at hparse
        cases hparse
        have hsz := hs.size
        exact ⟨hs.hdcrc, hs.wordSize, hs.type, by omega, hs.blocksize⟩
      · rintro ⟨h1, h2, h3, h4, h5⟩
        exact ⟨header, off, hok, h1, h2, h3, by omega, h5⟩
    rw [hstray]
    dsimp only
    split
    · rename_i hp
      refine iff_of_true (Reads.within_pure _ _) fun ⟨_, h2, h3, h4, _⟩ => ?_
      have hzero : actualsize (headedFrame h block used header off) = 0 := by
        refine (if_pos h2).trans ?_
        rw [h4]
      rw [payloadPlausible_bare (f := headedFrame h block used header off) h3, if_pos hzero] at hp
      cases hp
    · rename_i hp
      rw [Reads.within_bind_iff, checkPayload_within_iff hp]
      · refine and_iff_left_of_imp fun _ => ?_
        split <;> exact Reads.within_pure _ _
      · show _ = 2 * off + _
        omega

/-- A block that holds a received frame. -/
def receivedBlock (h : Host) (l : List Octet) : Block where
  address := 0
  octets := Mem.store (fun _ => 0) h.sizeofRPFrame l

/-- A read request for one 16-bit word, with its checksum. -/
def wordRequest : List Octet :=
  [0x03, 0x00, 0x00, 0x00, 0x00, 0x00, 0x00, 0x00, 0x00, 0x00, 0x00, 0x01, 0xc4, 0xc5]

theorem parseFrame_within_iff_wordRequest :
    (parseFrame lp64Host (receivedBlock lp64Host wordRequest) 78).Within
        (78 - lp64Host.sizeofRPFrame) ↔
      ¬∃ header off, StrayOctet lp64Host
        ((receivedBlock lp64Host wordRequest).octets.shift lp64Host.sizeofRPFrame)
        (78 - lp64Host.sizeofRPFrame) header off :=
  parseFrame_within_iff lp64Host _ 78 (by decide) (by decide)

/-- With one octet more, the checksum of the payload is taken over a whole word. -/
theorem parseFrame_stray :
    ¬(parseFrame lp64Host (receivedBlock lp64Host (wordRequest ++ [0x00])) 79).Within
      (79 - lp64Host.sizeofRPFrame) := by
  decide +kernel

end Within

/-! ## 4. What becomes of a frame -/

section Outcome

variable {h : Host}

/-- The size of a word of a frame, in octets. -/
def frameWord (f : RPFrame) : Nat := if bitIsset f.header.options rpOptWordSize16 then 2 else 1

/-- The octets `check_payload` takes the checksum of. -/
def checkedOctets (f : RPFrame) : List Octet :=
  f.memory.slice f.payloadData (f.header.blocksize.toNat * frameWord f)

/-- The checksum is checked where the **header** has a checksum. -/
theorem checkPayload_val (h : Host) (f : RPFrame) : (checkPayload h f).val =
    if regpHasHdcrc f = true ∧ f.payloadSize ≠ 0 ∧
      ufwBufferCrc16Arc (checkedOctets f) ≠ f.header.plcrc then .error .eproto else .ok 0 := by
  unfold checkPayload
  by_cases h0 : regpHasHdcrc f = false ∨ f.payloadSize = 0
  · rw [if_pos h0, if_neg, Reads.val_pure]
    rintro ⟨h1, h2, -⟩
    rcases h0 with h0 | h0
    · exact Bool.false_ne_true (h0.symm.trans h1)
    · exact h2 h0
  · rw [if_neg h0]
    obtain ⟨h1, h2⟩ := not_or.mp h0
    have hcrc : ∀ crc, crc = ufwBufferCrc16Arc (checkedOctets f) →
        (if crc = f.header.plcrc then (.ok 0 : Rc) else .error .eproto) =
        if regpHasHdcrc f = true ∧ f.payloadSize ≠ 0 ∧
          ufwBufferCrc16Arc (checkedOctets f) ≠ f.header.plcrc then .error .eproto else .ok 0 := by
      rintro crc rfl
      by_cases hc : ufwBufferCrc16Arc (checkedOctets f) = f.header.plcrc
      · rw [if_pos hc, if_neg fun hn => hn.2.2 hc]
      · rw [if_neg hc, if_pos ⟨Bool.not_eq_false _ ▸ h1, h2, hc⟩]
    dsimp only
    unfold checkedOctets frameWord at hcrc
    cases hws : bitIsset f.header.options rpOptWordSize16 with
    | false =>
      rw [hws, if_neg Bool.false_ne_true, Nat.mul_one] at hcrc
      rw [if_neg Bool.false_ne_true, Reads.val_bind, Reads.val_map, Reads.val_slice, Reads.val_pure,
        hcrc _ rfl]
      unfold checkedOctets frameWord
      rw [hws, if_neg Bool.false_ne_true, Nat.mul_one]
    | true =>
      rw [hws, if_pos rfl, Nat.mul_comm] at hcrc
      have hval : ufwBufferCrc16ArcU16 h (octetWords h (f.memory.slice f.payloadData
          (2 * f.header.blocksize.toNat))) = ufwBufferCrc16Arc (f.memory.slice f.payloadData
          (2 * f.header.blocksize.toNat)) :=
        ufwCrc16ArcU16_octetWords h _ _ (by rw [Mem.length_slice, Nat.mul_mod_right])
      rw [if_pos rfl, Reads.val_bind, Reads.val_map, Reads.val_slice, Reads.val_pure, hcrc _ hval]
      unfold checkedOctets frameWord
      rw [hws, if_pos rfl, Nat.mul_comm f.header.blocksize.toNat 2]

variable {block : Block} {used off : Nat} {header : RPHeader}

/-- The parser leaves alone where a frame stands, and its size. -/
theorem parseFrame_raw (h : Host) (block : Block) (used : Nat) :
    (parseFrame h block used).val.1.address = block.address ∧
    (parseFrame h block used).val.1.memory = block.octets.shift h.sizeofRPFrame ∧
    (parseFrame h block used).val.1.rawSize = sizeSub used h.sizeofRPFrame := by
  unfold parseFrame
  rw [Reads.val_bind]
  rcases (parseHeader h _ _ _).val with ⟨header, e | rc⟩
  · exact ⟨rfl, rfl, rfl⟩
  · dsimp only
    split
    · exact ⟨rfl, rfl, rfl⟩
    · rw [Reads.val_bind]
      split <;> exact ⟨rfl, rfl, rfl⟩

/-- A bad header makes a bad frame. -/
theorem parseFrame_refused {e : Errno}
    (hbad : (parseHeader h default (block.octets.shift h.sizeofRPFrame)
      (rawFrame h block used).rawSize).val.2 = .error e) :
    (parseFrame h block used).val.2 = .error e := by
  unfold parseFrame
  rw [Reads.val_bind]
  rcases hval : (parseHeader h (rawFrame h block used).header
    (rawFrame h block used).memory (rawFrame h block used).rawSize).val with ⟨header, rc⟩
  obtain rfl : rc = .error e := (congrArg Prod.snd hval).symm.trans hbad
  rfl

/-- **Behind a good header, it is the payload that counts.** -/
theorem parseFrame_headed (hok : HeaderOk h (block.octets.shift h.sizeofRPFrame)
    (rawFrame h block used).rawSize header off) :
    (parseFrame h block used).val = (headedFrame h block used header off,
      payloadPlausible (headedFrame h block used header off) >>= fun _ =>
        (checkPayload h (headedFrame h block used header off)).val >>= fun _ => .ok 0) := by
  unfold parseFrame
  rw [Reads.val_bind, show (parseHeader h (rawFrame h block used).header
    (rawFrame h block used).memory (rawFrame h block used).rawSize).val = _ from
    parseHeader_ok_iff.mpr hok]
  dsimp only
  generalize headedFrame h block used header off = frame
  cases payloadPlausible frame with
  | error e => rfl
  | ok rc =>
    rw [Reads.val_bind]
    cases (checkPayload h frame).val <;> rfl

theorem payloadPlausible_error {f : RPFrame} {e : Errno} (he : payloadPlausible f = .error e) :
    e = .efault ∨ e = .einval := by
  unfold payloadPlausible at he
  split at he
  all_goals first
    | cases he; exact .inr rfl
    | split at he
      · cases he
      · cases he
        exact .inl rfl

theorem payloadPlausible_ok_zero {f : RPFrame} {rc : Nat} (hp : payloadPlausible f = .ok rc) :
    rc = 0 := by
  unfold payloadPlausible at hp
  split at hp
  all_goals first
    | cases hp
    | split at hp
      · cases hp
        rfl
      · cases hp

/-- **What a frame is refused for.** -/
theorem parseFrame_error {e : Errno} (he : (parseFrame h block used).val.2 = .error e) :
    e = .ebadmsg ∨ e = .eilseq ∨ e = .efault ∨ e = .einval ∨ e = .eproto := by
  rcases hparse : (parseHeader h default (block.octets.shift h.sizeofRPFrame)
    (rawFrame h block used).rawSize).val with ⟨header, e' | off⟩
  · have hbad : (parseFrame h block used).val.2 = .error e' :=
      parseFrame_refused (congrArg Prod.snd hparse)
    rw [he] at hbad
    cases hbad
    rcases parseHeader_error h default _ _ e (congrArg Prod.snd hparse) with rfl | rfl
    · exact .inl rfl
    · exact .inr (.inl rfl)
  · rw [parseFrame_headed (parseHeader_ok_iff.mp hparse), checkPayload_val] at he
    rcases hp : payloadPlausible (headedFrame h block used header off) with e' | rc
    · rw [hp] at he
      cases he
      rcases payloadPlausible_error hp with rfl | rfl
      · exact .inr (.inr (.inl rfl))
      · exact .inr (.inr (.inr (.inl rfl)))
    · rw [hp] at he
      dsimp only at he
      split at he
      · cases he
        exact .inr (.inr (.inr (.inr rfl)))
      · cases he

/-- **Which frames are accepted.** -/
theorem parseFrame_ok_iff {frame : RPFrame} {rc : Nat} :
    (parseFrame h block used).val = (frame, .ok rc) ↔ rc = 0 ∧
      ∃ header off, HeaderOk h (block.octets.shift h.sizeofRPFrame)
          (rawFrame h block used).rawSize header off ∧
        frame = headedFrame h block used header off ∧ payloadPlausible frame = .ok 0 ∧
        (checkPayload h frame).val = .ok 0 := by
  constructor
  · intro hval
    rcases hparse : (parseHeader h default (block.octets.shift h.sizeofRPFrame)
      (rawFrame h block used).rawSize).val with ⟨header, e | off⟩
    · have hbad : (parseFrame h block used).val.2 = .error e :=
        parseFrame_refused (congrArg Prod.snd hparse)
      rw [hval] at hbad
      cases hbad
    · have hok := parseHeader_ok_iff.mp hparse
      rw [parseFrame_headed hok, Prod.mk.injEq] at hval
      obtain ⟨rfl, hrc⟩ := hval
      rcases hp : payloadPlausible (headedFrame h block used header off) with e | k
      · rw [hp] at hrc
        cases hrc
      · rw [hp] at hrc
        obtain rfl := payloadPlausible_ok_zero hp
        rcases hc : (checkPayload h (headedFrame h block used header off)).val with e | k
        · rw [hc] at hrc
          cases hrc
        · rw [hc] at hrc
          cases hrc
          refine ⟨rfl, header, off, hok, rfl, rfl, ?_⟩
          rw [checkPayload_val] at hc
          split at hc
          · cases hc
          · cases hc
            rfl
  · rintro ⟨rfl, header, off, hok, rfl, hp, hc⟩
    rw [parseFrame_headed hok, hp, hc]
    rfl

end Outcome

/-! ## 5. Frames with an encoded header -/

/-- `block`, filled up to `used`, holds a frame behind the `RPFrame`. -/
structure Block.Holds (h : Host) (block : Block) (used : Nat) (l : List Octet) : Prop where
  used_eq : used = h.sizeofRPFrame + l.length
  used_le : used ≤ ssizeMax
  octets : (block.octets.shift h.sizeofRPFrame).slice 0 l.length = l

/-- The octets of a word, by the word size a header is encoded for. -/
def wordSize (p : RegP σ τ μ α) (msem : Msem) : Nat :=
  if (msem = .auto ∧ p.memory.type = .memtype16) ∨ msem = .bit16 then 2 else 1

theorem wordSize_pos (p : RegP σ τ μ α) (msem : Msem) : 0 < wordSize p msem := by
  unfold wordSize
  split <;> decide

/-- A payload whose checksum stands in the header passes. -/
theorem checkPayload_ok (h : Host) {f : RPFrame} {pl : List Octet}
    (hsize : f.payloadSize = pl.length) (hslice : f.memory.slice f.payloadData pl.length = pl)
    (hblock : f.header.blocksize.toNat = actualsize f)
    (heven : bitIsset f.header.options rpOptWordSize16 = true → pl.length % 2 = 0)
    (hcrc : regpHasHdcrc f = true → 0 < pl.length → f.header.plcrc = ufwBufferCrc16Arc pl) :
    (checkPayload h f).val = .ok 0 := by
  unfold checkPayload
  unfold actualsize at hblock
  by_cases h0 : regpHasHdcrc f = false ∨ f.payloadSize = 0
  · rw [if_pos h0]
    rfl
  · rw [if_neg h0]
    obtain ⟨h1, h2⟩ := not_or.mp h0
    have hc := hcrc (Bool.not_eq_false _ ▸ h1) (by omega)
    dsimp only
    cases hws : bitIsset f.header.options rpOptWordSize16 with
    | false =>
      rw [hws, if_neg Bool.false_ne_true, hsize] at hblock
      rw [if_neg Bool.false_ne_true, Reads.val_bind, Reads.val_map, Reads.val_slice, hblock, hslice,
        hc, if_pos rfl]
      rfl
    | true =>
      rw [hws, if_pos rfl, hsize] at hblock
      have h2n : 2 * f.header.blocksize.toNat = pl.length := by
        have := heven hws
        omega
      have hval : ufwBufferCrc16ArcU16 h (octetWords h pl) = ufwBufferCrc16Arc pl :=
        ufwCrc16ArcU16_octetWords h crc16ArcInitial pl (heven hws)
      rw [if_pos rfl, Reads.val_bind, Reads.val_map, Reads.val_slice, h2n, hslice, hval, hc,
        if_pos rfl]
      rfl

section Encoded

variable {h : Host} {p : RegP σ τ μ α} {msem : Msem} {type : RPFrameType} {metaRaw : BitVec 16}
  {seqno : BitVec 16} {address : BitVec 32} {n : Nat} {plcrc : BitVec 16} {block : Block}
  {used : Nat} {pl : List Octet}

theorem wordSize_motvOptions : bitIsset (motvOptions p msem type n) rpOptWordSize16 =
    decide ((msem = .auto ∧ p.memory.type = .memtype16) ∨ msem = .bit16) := by
  rw [← (getLsbD_motvOptions p msem type n).1]
  exact bitIsset_twoPow (i := 0) (by decide) _

theorem hdcrc_motvOptions : bitIsset (motvOptions p msem type n) rpOptWithHeaderCrc =
    decide (p.epType = .serial) := by
  rw [← (getLsbD_motvOptions p msem type n).2.1]
  exact bitIsset_twoPow (i := 1) (by decide) _

variable (hholds : block.Holds h used
  (headerOctets (encodeHeader h p msem type metaRaw seqno address n plcrc) ++ pl))

include hholds

/-- The frame in the block: header and payload stand where the sender put them. -/
theorem headedFrame_encodeHeader (header : RPHeader) :
    (block.octets.shift h.sizeofRPFrame).slice 0
    (2 * headerWords (makeMotv p msem metaRaw type n)) =
      headerOctets (encodeHeader h p msem type metaRaw seqno address n plcrc) ∧
    (rawFrame h block used).rawSize =
      2 * headerWords (makeMotv p msem metaRaw type n) + pl.length ∧
    (headedFrame h block used header
      (headerWords (makeMotv p msem metaRaw type n))).payloadSize = pl.length ∧
    (block.octets.shift h.sizeofRPFrame).slice (2 * headerWords (makeMotv p msem metaRaw type n))
      pl.length = pl := by
  obtain ⟨huse, hle, hoct⟩ := hholds
  have hlen := length_headerOctets_encodeHeader h p msem type metaRaw seqno address n plcrc
  obtain ⟨h1, h2⟩ := Mem.slice_append_inv hoct
  rw [hlen] at h1 h2
  rw [Nat.zero_add] at h2
  have hlt : used < 2 ^ 64 := lt_of_le_of_lt hle (by decide)
  have hraw : (rawFrame h block used).rawSize =
      2 * headerWords (makeMotv p msem metaRaw type n) + pl.length := by
    show sizeSub used h.sizeofRPFrame = _
    rw [sizeSub_eq (by omega) hlt, huse, List.length_append, hlen]
    omega
  refine ⟨h1, hraw, ?_, h2⟩
  show sizeSub (rawFrame h block used).rawSize _ = _
  rw [hraw, sizeSub_eq (by omega), Nat.add_sub_cancel_left]
  rw [List.length_append, hlen] at huse
  omega

/-- How many words the parser takes the payload for. -/
theorem actualsize_encodeHeader :
    actualsize (headedFrame h block used
      (encodedHeader h p msem type metaRaw seqno address n plcrc)
      (headerWords (makeMotv p msem metaRaw type n))) = pl.length / wordSize p msem := by
  obtain ⟨-, -, hsize, -⟩ := headedFrame_encodeHeader hholds
    (encodedHeader h p msem type metaRaw seqno address n plcrc)
  unfold actualsize wordSize
  rw [hsize]
  show (if bitIsset (motvOptions p msem type n) rpOptWordSize16 = true then _ else _) = _
  rw [wordSize_motvOptions]
  by_cases hw : (msem = .auto ∧ p.memory.type = .memtype16) ∨ msem = .bit16
  · rw [if_pos (decide_eq_true hw), if_pos hw]
  · rw [if_neg (by rw [decide_eq_true_iff]; exact hw), if_neg hw, Nat.div_one]

variable (htype : RPFrameType.ofCode ((type.code.setWidth 4).setWidth 16) = type)
  (hmeta : (metaRaw.setWidth 4).setWidth 16 = metaRaw)

include htype hmeta

/-- The parser gets past the header, and looks at the payload. -/
theorem parseFrame_encodeHeader (hvalid : metaValid type (metaRaw.setWidth 32) = true) :
    (parseFrame h block used).val =
      (let frame := headedFrame h block used
        (encodedHeader h p msem type metaRaw seqno address n plcrc)
        (headerWords (makeMotv p msem metaRaw type n))
      (frame, payloadPlausible frame >>= fun _ => (checkPayload h frame).val >>=
        fun _ => .ok 0)) := by
  obtain ⟨h1, hraw, -, -⟩ := headedFrame_encodeHeader hholds
    (encodedHeader h p msem type metaRaw seqno address n plcrc)
  exact parseFrame_headed (parseHeader_ok_iff.mp
    (parseHeader_encodeHeader (h := h) default h1 (by omega) htype hmeta hvalid))

/-- **A header with a meta field its type may not have makes the frame a bad message.** -/
theorem parseFrame_badMeta (hinvalid : metaValid type (metaRaw.setWidth 32) = false) :
    (parseFrame h block used).val.2 = .error .ebadmsg := by
  obtain ⟨h1, -, -, -⟩ := headedFrame_encodeHeader hholds default
  exact parseFrame_refused (parseHeader_badMeta (h := h) default h1 htype hmeta hinvalid)

variable (hvalid : metaValid type (metaRaw.setWidth 32) = true)

include hvalid

/-- **A message of a type without payload is accepted if it has none.** -/
theorem parseFrame_bare (hbare : type.Bare) (hpl : pl = []) :
    (parseFrame h block used).val = (headedFrame h block used
      (encodedHeader h p msem type metaRaw seqno address n plcrc)
      (headerWords (makeMotv p msem metaRaw type n)), .ok 0) := by
  have hact := actualsize_encodeHeader hholds
  obtain ⟨-, -, hsize, -⟩ := headedFrame_encodeHeader hholds
    (encodedHeader h p msem type metaRaw seqno address n plcrc)
  rw [parseFrame_encodeHeader hholds htype hmeta hvalid]
  subst hpl
  rw [List.length_nil] at hact hsize
  dsimp only
  rw [payloadPlausible_bare hbare, hact, Nat.zero_div, if_pos rfl]
  have hcheck : checkPayload h (headedFrame h block used
      (encodedHeader h p msem type metaRaw seqno address n plcrc)
      (headerWords (makeMotv p msem metaRaw type n))) = pure (.ok 0) := if_pos (.inr hsize)
  rw [hcheck]
  rfl

/-- **With a payload of a word or more it is refused.** -/
theorem parseFrame_bare_payload (hbare : type.Bare) (hpl : wordSize p msem ≤ pl.length) :
    (parseFrame h block used).val.2 = .error .efault := by
  have hact := actualsize_encodeHeader hholds
  rw [parseFrame_encodeHeader hholds htype hmeta hvalid]
  dsimp only
  rw [payloadPlausible_bare hbare, hact, if_neg (Nat.div_pos hpl (wordSize_pos p msem)).ne']
  rfl

variable (hblock : type = .readResponse ∨ type = .writeRequest)
  (hpl : pl.length = n * wordSize p msem)

include hblock hpl

/-- **A message of a type with payload is accepted if it carries the block its header says**, with
    the checksum of that block. -/
theorem parseFrame_block (hn : n < 2 ^ 32) (hcrc : 0 < n → plcrc = ufwBufferCrc16Arc pl) :
    (parseFrame h block used).val = (headedFrame h block used
      (encodedHeader h p msem type metaRaw seqno address n plcrc)
      (headerWords (makeMotv p msem metaRaw type n)), .ok 0) := by
  have hact := actualsize_encodeHeader hholds
  obtain ⟨-, -, hsize, hslice⟩ := headedFrame_encodeHeader hholds
    (encodedHeader h p msem type metaRaw seqno address n plcrc)
  rw [hpl, Nat.mul_div_cancel _ (wordSize_pos p msem)] at hact
  have hbs : (encodedHeader h p msem type metaRaw seqno address n plcrc).blocksize.toNat = n := by
    show (BitVec.ofNat 32 n).toNat = n
    rw [BitVec.toNat_ofNat, Nat.mod_eq_of_lt hn]
  have hplaus : payloadPlausible (headedFrame h block used
      (encodedHeader h p msem type metaRaw seqno address n plcrc)
      (headerWords (makeMotv p msem metaRaw type n))) = .ok 0 := by
    rw [payloadPlausible_block hblock, hact]
    exact if_pos hbs
  have hcheck : (checkPayload h (headedFrame h block used
      (encodedHeader h p msem type metaRaw seqno address n plcrc)
      (headerWords (makeMotv p msem metaRaw type n)))).val = .ok 0 := by
    refine checkPayload_ok h hsize hslice (hbs.trans hact.symm) (fun hws => ?_) fun hhd hne => ?_
    · have hws' := wordSize_motvOptions.symm.trans hws
      rw [decide_eq_true_iff] at hws'
      rw [hpl, wordSize, if_pos hws', Nat.mul_mod_left]
    · have hserial := hdcrc_motvOptions.symm.trans hhd
      rw [decide_eq_true_iff] at hserial
      have hn0 : 0 < n := Nat.pos_of_mul_pos_right (hpl ▸ hne)
      have hwith : rawWithPlcrc (makeMotv p msem metaRaw type n) = true := by
        rw [rawWithPlcrc_makeMotv, decide_eq_true_iff]
        refine ⟨hserial, hn0, ?_⟩
        rcases hblock with ht | ht <;> rw [ht] <;> decide
      exact (if_pos hwith).trans (hcrc hn0)
  rw [parseFrame_encodeHeader hholds htype hmeta hvalid]
  dsimp only
  rw [hplaus, hcheck]
  rfl

/-- **A block too large for the block size field is refused.** -/
theorem parseFrame_block_large (hn : 2 ^ 32 ≤ n) :
    (parseFrame h block used).val.2 = .error .efault := by
  have hact := actualsize_encodeHeader hholds
  rw [hpl, Nat.mul_div_cancel _ (wordSize_pos p msem)] at hact
  have hbs : (encodedHeader h p msem type metaRaw seqno address n plcrc).blocksize.toNat ≠ n :=
    (lt_of_lt_of_le (BitVec.isLt _) hn).ne
  rw [parseFrame_encodeHeader hholds htype hmeta hvalid]
  dsimp only
  rw [payloadPlausible_block hblock, hact]
  exact congrArg (fun rc => rc >>= _) (if_neg hbs)

end Encoded

end Ufw
