/-
  File:      Ufw/RegisterProtocol/BitErrors.lean
  Subject:   REGISTER PROTOCOL: single flipped bits on a serial line.

  * `Message` -- a call of one of the sending functions;
  * `SerialFrame` -- a frame with an encoded header, as the parser sees it once a bit is flipped;
  * `regp_bitErrors_iff` -- **every flipped bit is noticed, in every frame but a hollow one**: an
    acknowledgement of a read request that announces two octets of payload and carries none.
-/
import Ufw.Base.Flips
import Ufw.RegisterProtocol.Requests
import Ufw.RegisterProtocol.Framing

namespace Ufw

open Base

variable {σ τ μ α : Type} {σ' τ' μ' α' : Type}

/-! ## 1. Flipped words -/

section Words

variable {h : Host} {l : List Octet} {i : Nat}

/-- The bit of a word, by the bit of its two octets. -/
def wordBit (i : Nat) : Nat := if i < 8 then 8 + i else i - 8

theorem bfRefU16b_flipBit (hl : l.length = 2) (hi : i < 16) :
    bfRefU16b h (flipBit l i) = bfRefU16b h l ^^^ BitVec.twoPow 16 (wordBit i) := by
  rw [bfRefU16b_eq h _ (by rw [length_flipBit]; exact hl), bfRefU16b_eq h l hl]
  exact ofOctets_flipBit_two hl hi

/-- Two octets are known by their word. -/
theorem bfRefU16b_inj {l' : List Octet} (hl : l.length = 2) (hl' : l'.length = 2)
    (he : bfRefU16b h l = bfRefU16b h l') : l = l' := by
  rw [bfRefU16b_eq h l hl, bfRefU16b_eq h l' hl'] at he
  have hr := congrArg (toOctets 2) he
  have h1 := toOctets_ofOctets l.reverse (w := 16) (by rw [List.length_reverse, hl])
  have h2 := toOctets_ofOctets l'.reverse (w := 16) (by rw [List.length_reverse, hl'])
  rw [List.length_reverse, hl] at h1
  rw [List.length_reverse, hl'] at h2
  rw [h1, h2] at hr
  exact List.reverse_injective hr

/-- The checksum over words of memory is that of the octets there. -/
theorem readCrcU16_val (h : Host) (crc : BitVec 16) (raw : Mem Octet) (i n : Nat) :
    (readCrcU16 h crc raw i n).val = ufwCrc16Arc crc (raw.slice (2 * i) (2 * n)) :=
  ufwCrc16ArcU16_octetWords h crc _ (by rw [Reads.val_slice, Mem.length_slice, Nat.mul_mod_right])

/-- The checksum of a header, over octets. -/
theorem headerCrc_eq (h : Host) (raw : Mem Octet) (motv : BitVec 16) :
    headerCrc h raw motv = ufwBufferCrc16Arc (raw.slice 0 12 ++
      if rawWithPlcrc motv then raw.slice 14 2 else []) := by
  unfold headerCrc
  dsimp only
  rw [readCrcU16_val, readCrcU16_val]
  unfold ufwBufferCrc16Arc
  split
  · exact (ufwCrc16Arc_append _ _ _).symm
  · rw [List.append_nil]

/-- **The options of a word with one bit flipped.** -/
theorem rawWith_flip (motv : BitVec 16) (k : Nat) :
    rawWithHdcrc (motv ^^^ BitVec.twoPow 16 k) = (rawWithHdcrc motv ^^ decide (k = 9)) ∧
    rawWithPlcrc (motv ^^^ BitVec.twoPow 16 k) = (rawWithPlcrc motv ^^ decide (k = 10)) := by
  have hbit : ∀ (x : BitVec 16) (i : Nat) (hi : i < 16), bitIsset x (BitVec.twoPow 16 i) =
      x.getLsbD i := fun x i hi => bitIsset_twoPow hi x
  constructor
  · refine (hbit _ 9 (by decide)).trans ?_
    rw [BitVec.getLsbD_xor, BitVec.getLsbD_twoPow]
    refine congrArg₂ _ (hbit motv 9 (by decide)).symm ?_
    by_cases hk : k = 9
    · subst hk
      rfl
    · rw [decide_eq_false hk, Bool.and_false]
  · refine (hbit _ 10 (by decide)).trans ?_
    rw [BitVec.getLsbD_xor, BitVec.getLsbD_twoPow]
    refine congrArg₂ _ (hbit motv 10 (by decide)).symm ?_
    by_cases hk : k = 10
    · subst hk
      rfl
    · rw [decide_eq_false hk, Bool.and_false]

end Words

/-! ## 2. A frame on a serial line -/

/-- The size of a word, by the first word of a header. -/
def motvWord (motv : BitVec 16) : Nat := if motv.getLsbD 8 then 2 else 1

/-- **A frame as an instance sends it on a serial line**: `front` are the first twelve octets of its
    header, `hdcrc` and `plcrc` its checksums, as octets. -/
structure SerialFrame (h : Host) (motv : BitVec 16) (blocksize : BitVec 32)
    (front hdcrc plcrc pl : List Octet) : Prop where
  front_length : front.length = 12
  hdcrc_length : hdcrc.length = 2
  plcrc_length : plcrc.length = if rawWithPlcrc motv then 2 else 0
  motv_eq : bfRefU16b h (front.take 2) = motv
  blocksize_eq : bfRefU32b h ((front.drop 8).take 4) = blocksize
  with_hdcrc : rawWithHdcrc motv = true
  hdcrc_ok : bfRefU16b h hdcrc = ufwBufferCrc16Arc (front ++ plcrc)
  with_plcrc : pl ≠ [] → rawWithPlcrc motv = true
  plcrc_ok : pl ≠ [] → bfRefU16b h plcrc = ufwBufferCrc16Arc pl
  block : pl ≠ [] → ∃ n, pl.length = n * motvWord motv ∧ blocksize.toNat ≤ n

/-- **A hollow frame**: it announces two octets of payload, and carries none. -/
def Hollow (motv : BitVec 16) (blocksize : BitVec 32) (pl : List Octet) : Prop :=
  pl = [] ∧ blocksize.toNat * motvWord motv = 2 ∧
    (RPFrameType.ofCode (bitGet motv 4 4) = .readResponse ∨
      RPFrameType.ofCode (bitGet motv 4 4) = .writeRequest)

section Reading

variable {h : Host} {block : Block} {used off : Nat} {header : RPHeader}
  {front hdcrc plcrc pl : List Octet}

/-- Where the parts of a frame stand in memory. -/
theorem holds_parts (hfront : front.length = 12) (hhdcrc : hdcrc.length = 2)
    (hholds : block.Holds h used (front ++ (hdcrc ++ (plcrc ++ pl)))) :
    (block.octets.shift h.sizeofRPFrame).slice 0 12 = front ∧
    (block.octets.shift h.sizeofRPFrame).slice 12 2 = hdcrc ∧
    (block.octets.shift h.sizeofRPFrame).slice 14 plcrc.length = plcrc ∧
    (block.octets.shift h.sizeofRPFrame).slice (14 + plcrc.length) pl.length = pl ∧
    (rawFrame h block used).rawSize = 14 + plcrc.length + pl.length := by
  obtain ⟨huse, hle, hoct⟩ := hholds
  obtain ⟨h1, h2⟩ := Mem.slice_append_inv hoct
  obtain ⟨h3, h4⟩ := Mem.slice_append_inv h2
  obtain ⟨h5, h6⟩ := Mem.slice_append_inv h4
  rw [hfront] at h1 h3 h5 h6
  rw [hhdcrc] at h3 h5 h6
  refine ⟨h1, h3, h5, h6, ?_⟩
  simp only [List.length_append, hfront, hhdcrc] at huse
  show sizeSub used h.sizeofRPFrame = _
  rw [sizeSub_eq (by omega) (lt_of_le_of_lt hle (by decide))]
  omega

/-- The size of the payload behind a header. -/
theorem payloadSize_headed (hok : HeaderOk h (block.octets.shift h.sizeofRPFrame)
      (rawFrame h block used).rawSize header off)
    (hlt : (rawFrame h block used).rawSize < 2 ^ 64) :
    (headedFrame h block used header off).payloadSize =
      (rawFrame h block used).rawSize - 2 * off := sizeSub_eq hok.size hlt

theorem frameWord_headed (hok : HeaderOk h (block.octets.shift h.sizeofRPFrame)
    (rawFrame h block used).rawSize header off) :
    frameWord (headedFrame h block used header off) =
      motvWord (headerMotv h (block.octets.shift h.sizeofRPFrame)) := by
  unfold frameWord motvWord
  rw [hok.options_bits.2.2]
  rfl

/-- **Two octets too many are not plausible**, but in a hollow frame. -/
theorem not_plausible_of_extra {f : RPFrame} (hp : payloadPlausible f = .ok 0)
    (hsize : f.payloadSize = pl.length + 2)
    (hblock : pl ≠ [] → ∃ n, pl.length = n * frameWord f ∧ f.header.blocksize.toNat ≤ n) :
    pl = [] ∧ f.header.blocksize.toNat * frameWord f = 2 ∧
      (f.header.type = .readResponse ∨ f.header.type = .writeRequest) := by
  have hact := actualsize_eq f
  have hpos : 0 < actualsize f := by
    rw [hact, hsize]
    rcases frameWord_cases f with hw | hw <;> rw [hw] <;> omega
  rcases payloadPlausible_ok hp with hb | ⟨-, hz⟩
  · have hnil : pl = [] := by
      by_contra hne
      obtain ⟨n, hlen, hle⟩ := hblock hne
      rw [hb, hact, hsize, hlen] at hle
      rcases frameWord_cases f with hw | hw <;> rw [hw] at hle <;> omega
    subst hnil
    rw [List.length_nil] at hsize
    refine ⟨rfl, ?_, ?_⟩
    · rw [hb, hact, hsize]
      rcases frameWord_cases f with hw | hw <;> rw [hw]
    · by_cases ht : f.header.type.Bare
      · rw [payloadPlausible_bare ht, if_neg hpos.ne'] at hp
        cases hp
      · by_contra hn
        unfold payloadPlausible at hp
        unfold RPFrameType.Bare at ht
        cases hf : f.header.type <;> rw [hf] at hp ht hn <;> simp at hp ht hn
  · omega

end Reading

/-! ## 3. One bit flipped -/

section Flipped

variable {h : Host} {motv : BitVec 16} {blocksize : BitVec 32} {block : Block} {used off i k : Nat}
  {header : RPHeader} {front hdcrc plcrc pl : List Octet}

/-- A flipped bit changes the checksum. -/
theorem crc_flipBit {l : List Octet} (hi : i < 8 * l.length) :
    ufwBufferCrc16Arc (flipBit l i) ≠ ufwBufferCrc16Arc l := by
  obtain ⟨a, o, o', b, hne, h1, h2⟩ := flipBit_split hi
  rw [h2]
  conv => rhs; rw [h1]
  exact fun he => ufwCrc16Arc_ne hne _ a b he.symm

/-- The word and the block size of a header, by its first twelve octets. -/
theorem front_reads {raw : Mem Octet} (hfront : raw.slice 0 12 = front) :
    headerMotv h raw = bfRefU16b h (front.take 2) ∧
    (readU32b h raw 4).val = bfRefU32b h ((front.drop 8).take 4) := by
  rw [← hfront, Mem.slice_take _ _ _ _ (by decide), Mem.slice_drop _ _ _ _ (by decide),
    Mem.slice_take _ _ _ _ (by decide)]
  exact ⟨rfl, rfl⟩

/-- The checksum of an accepted header is right. -/
theorem HeaderOk.crc_eq {raw : Mem Octet} {n : Nat} (hok : HeaderOk h raw n header off)
    (hhd : rawWithHdcrc (headerMotv h raw) = true) :
    ufwBufferCrc16Arc (raw.slice 0 12 ++
      if rawWithPlcrc (headerMotv h raw) then raw.slice 14 2 else []) =
        bfRefU16b h (raw.slice 12 2) := by
  rw [← headerCrc_eq, hok.hdcrc_ok hhd, hok.hdcrc, if_pos hhd]
  rfl

/-- What stands behind the checksum of the header is the checksum of the payload, if there is
    one. -/
theorem SerialFrame.plcrc_slice (hs : SerialFrame h motv blocksize front hdcrc plcrc pl)
    {raw : Mem Octet} {plcrc' : List Octet} (hlen : plcrc'.length = plcrc.length)
    (hslice : raw.slice 14 plcrc.length = plcrc') :
    (if rawWithPlcrc motv then raw.slice 14 2 else []) = plcrc' := by
  have hl := hs.plcrc_length
  split
  · rename_i hp
    rw [if_pos hp] at hl
    rw [← hslice, hl]
  · rename_i hp
    rw [if_neg hp] at hl
    exact (List.length_eq_zero_iff.mp (hlen.trans hl)).symm

/-- With a bit of the first twelve octets flipped, an accepted frame has other options: with the
    same ones, the checksum of the header is wrong. -/
theorem SerialFrame.flip_front_options (hs : SerialFrame h motv blocksize front hdcrc plcrc pl)
    (hi : i < 96) (hholds : block.Holds h used (flipBit front i ++ (hdcrc ++ (plcrc ++ pl))))
    (hok : HeaderOk h (block.octets.shift h.sizeofRPFrame) (rawFrame h block used).rawSize
      header off)
    (hhd : rawWithHdcrc (headerMotv h (block.octets.shift h.sizeofRPFrame)) = true) :
    rawWithPlcrc (headerMotv h (block.octets.shift h.sizeofRPFrame)) ≠ rawWithPlcrc motv := by
  intro hpl
  have hlen : (flipBit front i).length = 12 := by rw [length_flipBit, hs.front_length]
  obtain ⟨r1, r2, r3, -, -⟩ := holds_parts hlen hs.hdcrc_length hholds
  have hcrc := hok.crc_eq hhd
  rw [hpl, r1, r2, hs.plcrc_slice rfl r3, hs.hdcrc_ok,
    ← flipBit_append_left (by rw [hs.front_length]; exact hi)] at hcrc
  refine crc_flipBit ?_ hcrc
  rw [List.length_append, hs.front_length]
  omega

/-- The flip of a bit of the first word. -/
theorem SerialFrame.flip_motv (hs : SerialFrame h motv blocksize front hdcrc plcrc pl)
    (h16 : i < 16) {raw : Mem Octet} (hfront : raw.slice 0 12 = flipBit front i) :
    headerMotv h raw = motv ^^^ BitVec.twoPow 16 (wordBit i) := by
  have htake := (flipBit_take_drop (k := 2) (by rw [hs.front_length]; decide)
    (show i < 8 * 2 by omega)).1
  have hl2 : (front.take 2).length = 2 := List.length_take_of_le (by rw [hs.front_length]; decide)
  rw [(front_reads (h := h) hfront).1, htake, bfRefU16b_flipBit hl2 h16, hs.motv_eq]

/-- A frame that is accepted without one of its checksums, whose octets are payload now, is hollow:
    the type, the word size and the block size are not touched by the flip of an option. -/
theorem SerialFrame.hollow_of_option (hs : SerialFrame h motv blocksize front hdcrc plcrc pl)
    (h16 : i < 16) (hbit : wordBit i = 9 ∨ wordBit i = 10)
    (hfront : (block.octets.shift h.sizeofRPFrame).slice 0 12 = flipBit front i)
    (hok : HeaderOk h (block.octets.shift h.sizeofRPFrame) (rawFrame h block used).rawSize
      header off)
    (hp : payloadPlausible (headedFrame h block used header off) = .ok 0)
    (hsize : (headedFrame h block used header off).payloadSize = pl.length + 2) :
    Hollow motv blocksize pl := by
  have hmotv := hs.flip_motv h16 hfront
  have hblock := (front_reads (h := h) hfront).2
  have hdrop := (flipBit_take_drop (k := 2) (by rw [hs.front_length]; decide)
    (show i < 8 * 2 by omega)).2
  have hgetW : (headerMotv h (block.octets.shift h.sizeofRPFrame)).getLsbD 8 =
      motv.getLsbD 8 := by
    rw [hmotv, BitVec.getLsbD_xor, BitVec.getLsbD_twoPow]
    rcases hbit with hb | hb <;> rw [hb] <;> simp
  have hgetT : bitGet (headerMotv h (block.octets.shift h.sizeofRPFrame)) 4 4 =
      bitGet motv 4 4 := by
    rw [hmotv]
    unfold bitGet
    rcases hbit with hb | hb <;> rw [hb] <;> (
      apply BitVec.eq_of_getLsbD_eq
      intro j hj
      interval_cases j <;> simp)
  have hw : frameWord (headedFrame h block used header off) = motvWord motv := by
    rw [frameWord_headed hok]
    unfold motvWord
    rw [hgetW]
  have hbs : header.blocksize = blocksize := by
    rw [hok.blocksize, hblock, ← hs.blocksize_eq]
    have hd8 : ((flipBit front i).drop 8) = front.drop 8 := by
      rw [show (8 : Nat) = 2 + 6 from rfl, ← List.drop_drop, ← List.drop_drop, hdrop]
    rw [hd8]
  obtain ⟨hnil, htwo, htype⟩ := not_plausible_of_extra hp hsize fun hne => by
    obtain ⟨n, h1, h2⟩ := hs.block hne
    refine ⟨n, by rw [hw]; exact h1, ?_⟩
    show header.blocksize.toNat ≤ n
    rw [hbs]
    exact h2
  refine ⟨hnil, ?_, ?_⟩
  · rw [← hbs, ← hw]
    exact htwo
  · rw [← hgetT, ← hok.type]
    exact htype

/-- **A frame that is accepted with a bit of its first twelve octets flipped is hollow.** -/
theorem SerialFrame.flip_front (hs : SerialFrame h motv blocksize front hdcrc plcrc pl)
    (hi : i < 96) (hholds : block.Holds h used (flipBit front i ++ (hdcrc ++ (plcrc ++ pl))))
    (hok : HeaderOk h (block.octets.shift h.sizeofRPFrame) (rawFrame h block used).rawSize
      header off)
    (hp : payloadPlausible (headedFrame h block used header off) = .ok 0) :
    Hollow motv blocksize pl := by
  have hlen : (flipBit front i).length = 12 := by rw [length_flipBit, hs.front_length]
  obtain ⟨r1, -, -, -, hraw⟩ := holds_parts hlen hs.hdcrc_length hholds
  have hle := hholds.used_le
  have h64 : (rawFrame h block used).rawSize < 2 ^ 64 := by
    have huse := hholds.used_eq
    simp only [List.length_append, hlen, hs.hdcrc_length] at huse
    unfold ssizeMax at hle
    omega
  have hpay := payloadSize_headed hok h64
  have hplen := hs.plcrc_length
  have hsame := hs.flip_front_options hi hholds hok
  by_cases h16 : i < 16
  · have hmotv := hs.flip_motv h16 r1
    obtain ⟨hhd, hpl⟩ := rawWith_flip motv (wordBit i)
    rw [← hmotv] at hhd hpl
    rw [hs.with_hdcrc] at hhd
    have hhollow := fun hbit => hs.hollow_of_option h16 hbit r1 hok hp
    have hoff := hok.off_eq
    unfold headerWords rpHeaderMinSize16 at hoff
    by_cases h9 : wordBit i = 9
    · -- the header has no checksum any more
      rw [h9] at hhd hpl
      refine hhollow (.inl h9) ?_
      rw [hhd, hpl] at hoff
      rw [hpay, hraw, hplen, hoff]
      cases rawWithPlcrc motv <;> simp <;> omega
    · by_cases h10 : wordBit i = 10
      · rw [h10] at hhd hpl
        rw [hhd, hpl] at hoff
        cases hp0 : rawWithPlcrc motv with
        | true =>
          -- the payload has no checksum any more
          refine hhollow (.inr h10) ?_
          rw [hpay, hraw, hplen, hoff, hp0]
          simp
          omega
        | false =>
          -- the checksum of the payload would stand behind the end of the frame
          have hnil : pl = [] := by
            by_contra hne
            exact Bool.false_ne_true (hp0.symm.trans (hs.with_plcrc hne))
          have hsize := hok.size
          rw [hraw, hplen, hoff, hp0, hnil] at hsize
          simp at hsize
      · refine absurd ?_ (hsame ?_)
        · rw [hpl, decide_eq_false h10, Bool.xor_false]
        · rw [hhd, decide_eq_false h9]
          rfl
  · have htake := flipBit_take_right (k := 2) (by rw [hs.front_length]; decide)
      (show 8 * 2 ≤ i by omega)
    have hmotv := (front_reads (h := h) r1).1
    rw [htake, hs.motv_eq] at hmotv
    exact absurd (congrArg rawWithPlcrc hmotv) (hsame (by rw [hmotv]; exact hs.with_hdcrc))

/-- Behind the first twelve octets, the flip leaves the options alone. -/
theorem SerialFrame.options (hs : SerialFrame h motv blocksize front hdcrc plcrc pl)
    (hfront : (block.octets.shift h.sizeofRPFrame).slice 0 12 = front)
    (hok : HeaderOk h (block.octets.shift h.sizeofRPFrame) (rawFrame h block used).rawSize
      header off) :
    headerMotv h (block.octets.shift h.sizeofRPFrame) = motv ∧
    ufwBufferCrc16Arc (front ++
      if rawWithPlcrc motv then (block.octets.shift h.sizeofRPFrame).slice 14 2 else []) =
        bfRefU16b h ((block.octets.shift h.sizeofRPFrame).slice 12 2) ∧
    off = 7 + (if rawWithPlcrc motv then 1 else 0) := by
  have hmotv := (front_reads (h := h) hfront).1
  rw [hs.motv_eq] at hmotv
  have hcrc := hok.crc_eq (by rw [hmotv]; exact hs.with_hdcrc)
  rw [hmotv, hfront] at hcrc
  have hoff := hok.off_eq
  rw [hmotv, headerWords, rpHeaderMinSize16, hs.with_hdcrc, if_pos rfl] at hoff
  exact ⟨hmotv, hcrc, hoff⟩

/-- A flipped checksum of the header is not right. -/
theorem SerialFrame.flip_hdcrc (hs : SerialFrame h motv blocksize front hdcrc plcrc pl)
    (hi : i < 16) (hholds : block.Holds h used (front ++ (flipBit hdcrc i ++ (plcrc ++ pl)))) :
    ¬HeaderOk h (block.octets.shift h.sizeofRPFrame)
    (rawFrame h block used).rawSize header off := by
  intro hok
  have hlen : (flipBit hdcrc i).length = 2 := by rw [length_flipBit, hs.hdcrc_length]
  obtain ⟨r1, r2, r3, -, -⟩ := holds_parts hs.front_length hlen hholds
  obtain ⟨-, hcrc, -⟩ := hs.options r1 hok
  rw [hs.plcrc_slice rfl r3, r2, ← hs.hdcrc_ok] at hcrc
  refine flipBit_ne ?_ (bfRefU16b_inj hlen hs.hdcrc_length hcrc.symm)
  rw [hs.hdcrc_length]
  omega

/-- A flipped checksum of the payload makes that of the header wrong. -/
theorem SerialFrame.flip_plcrc (hs : SerialFrame h motv blocksize front hdcrc plcrc pl)
    (hi : i < 8 * plcrc.length)
    (hholds : block.Holds h used (front ++ (hdcrc ++ (flipBit plcrc i ++ pl)))) :
    ¬HeaderOk h (block.octets.shift h.sizeofRPFrame)
    (rawFrame h block used).rawSize header off := by
  intro hok
  obtain ⟨r1, r2, r3, -, -⟩ := holds_parts hs.front_length hs.hdcrc_length hholds
  obtain ⟨-, hcrc, -⟩ := hs.options r1 hok
  rw [length_flipBit] at r3
  rw [hs.plcrc_slice (length_flipBit plcrc i) r3, r2, hs.hdcrc_ok] at hcrc
  have hflip := flipBit_append_right (a := front) (b := plcrc) (i := 8 * front.length + i)
    (Nat.le_add_right _ _)
  rw [Nat.add_sub_cancel_left] at hflip
  rw [← hflip] at hcrc
  refine crc_flipBit ?_ hcrc
  rw [List.length_append]
  omega

/-- **A flipped payload does not have the checksum of the header.** -/
theorem SerialFrame.flip_pl (hs : SerialFrame h motv blocksize front hdcrc plcrc pl)
    (hi : i < 8 * pl.length)
    (hholds : block.Holds h used (front ++ (hdcrc ++ (plcrc ++ flipBit pl i))))
    (hok : HeaderOk h (block.octets.shift h.sizeofRPFrame) (rawFrame h block used).rawSize
      header off)
    (hp : payloadPlausible (headedFrame h block used header off) = .ok 0) :
    (checkPayload h (headedFrame h block used header off)).val = .error .eproto := by
  have hne : pl ≠ [] := by
    rintro rfl
    exact Nat.not_lt_zero i hi
  obtain ⟨r1, -, r3, r4, hraw⟩ := holds_parts hs.front_length hs.hdcrc_length hholds
  rw [length_flipBit] at r4 hraw
  obtain ⟨hmotv, -, hoff⟩ := hs.options r1 hok
  have hwith := hs.with_plcrc hne
  have hplen := hs.plcrc_length
  rw [if_pos hwith] at hplen hoff
  have hle := hholds.used_le
  have h64 : (rawFrame h block used).rawSize < 2 ^ 64 := by
    have huse := hholds.used_eq
    simp only [List.length_append, hs.front_length, hs.hdcrc_length, length_flipBit] at huse
    unfold ssizeMax at hle
    omega
  have hsize : (headedFrame h block used header off).payloadSize = pl.length := by
    rw [payloadSize_headed hok h64, hraw, hplen, hoff]
    omega
  have hpos : 0 < pl.length := List.length_pos_iff.mpr hne
  have hword := frameWord_headed hok
  rw [hmotv] at hword
  obtain ⟨n, hn, -⟩ := hs.block hne
  have hchecked : checkedOctets (headedFrame h block used header off) = flipBit pl i := by
    rw [checkedOctets_eq hp (by omega) (by rw [hsize, hword, hn, Nat.mul_mod_left])]
    show (block.octets.shift h.sizeofRPFrame).slice (2 * off) _ = _
    rw [hsize, hoff]
    rw [hplen] at r4
    exact r4
  have hplcrc : header.plcrc = ufwBufferCrc16Arc pl := by
    rw [← hs.plcrc_ok hne, hok.plcrc, hmotv, if_pos hwith, hoff]
    rw [hplen] at r3
    exact congrArg (bfRefU16b h) r3
  rw [checkPayload_val, if_pos]
  refine ⟨?_, by omega, ?_⟩
  · exact (hok.options_bits.1.symm.trans (congrArg rawWithHdcrc hmotv)).trans hs.with_hdcrc
  · rw [hchecked]
    show _ ≠ header.plcrc
    rw [hplcrc]
    exact crc_flipBit hi

/-- **A frame that is accepted with a flipped bit is hollow.** -/
theorem SerialFrame.flip_accepted (hs : SerialFrame h motv blocksize front hdcrc plcrc pl)
    (hi : i < 8 * (front ++ (hdcrc ++ (plcrc ++ pl))).length)
    (hholds : block.Holds h used (flipBit (front ++ (hdcrc ++ (plcrc ++ pl))) i))
    (hval : (parseFrame h block used).val.2 = .ok k) : Hollow motv blocksize pl := by
  obtain ⟨-, header, off, hok, hf, hp, hc⟩ := parseFrame_ok_iff.mp (Prod.ext rfl hval)
  rw [hf] at hp hc
  have hfl := hs.front_length
  have hhl := hs.hdcrc_length
  simp only [List.length_append] at hi
  by_cases h1 : i < 8 * front.length
  · rw [flipBit_append_left h1] at hholds
    exact hs.flip_front (by omega) hholds hok hp
  · rw [flipBit_append_right (Nat.le_of_not_lt h1)] at hholds
    by_cases h2 : i - 8 * front.length < 8 * hdcrc.length
    · rw [flipBit_append_left h2] at hholds
      exact (hs.flip_hdcrc (by omega) hholds hok).elim
    · rw [flipBit_append_right (Nat.le_of_not_lt h2)] at hholds
      by_cases h3 : i - 8 * front.length - 8 * hdcrc.length < 8 * plcrc.length
      · rw [flipBit_append_left h3] at hholds
        exact (hs.flip_plcrc h3 hholds hok).elim
      · rw [flipBit_append_right (Nat.le_of_not_lt h3)] at hholds
        rw [hs.flip_pl (by omega) hholds hok hp] at hc
        cases hc

end Flipped

/-! ## 4. Encoded frames -/

section Encoded

variable {h : Host} {p : RegP σ τ μ α} {msem : Msem} {type : RPFrameType} {metaRaw : BitVec 16}
  {seqno : BitVec 16} {address : BitVec 32} {n : Nat} {plcrc : BitVec 16} {pl : List Octet}

theorem motvWord_makeMotv : motvWord (makeMotv p msem metaRaw type n) = wordSize p msem := by
  unfold motvWord wordSize
  have hbit : (makeMotv p msem metaRaw type n).getLsbD 8 =
      decide ((msem = .auto ∧ p.memory.type = .memtype16) ∨ msem = .bit16) := by
    rw [makeMotv_eq, ← (getLsbD_motvOptions p msem type n).1]
    exact (getLsbD_nibbles _ _ _ _ (i := 0) (by decide)).trans
      (BitVec.getLsbD_setWidth 4 _ 0)
  rw [hbit]
  by_cases hw : (msem = .auto ∧ p.memory.type = .memtype16) ∨ msem = .bit16
  · rw [if_pos (decide_eq_true hw), if_pos hw]
  · rw [if_neg (by rw [decide_eq_true_iff]; exact hw), if_neg hw]

/-- The checksum of an encoded header, over octets. -/
theorem headerChecksum_eq (h : Host) (motv seqno : BitVec 16) (address : BitVec 32) (n : Nat)
    (plcrc : BitVec 16) : headerChecksum h motv seqno address n plcrc =
      ufwBufferCrc16Arc (headerFront h motv seqno address n ++
        if rawWithPlcrc motv then bfSetU16b h plcrc else []) := by
  unfold headerChecksum ufwBufferCrc16ArcU16 ufwBufferCrc16Arc
  dsimp only
  rw [ufwCrc16ArcU16_octetWords h _ _ (by rw [length_bfSetU16b]),
    ufwCrc16ArcU16_octetWords h _ _ (by rw [length_headerFront])]
  split
  · exact (ufwCrc16Arc_append _ _ _).symm
  · rw [List.append_nil]

/-- **An encoded header with its payload is a frame on a serial line.** -/
theorem serialFrame_encodeHeader (hserial : p.epType = .serial)
    (hbare : pl ≠ [] → 0 < n ∧ type ≠ .readRequest) (hcrc : pl ≠ [] → plcrc = ufwBufferCrc16Arc pl)
    (hlen : pl ≠ [] → pl.length = n * wordSize p msem) :
    ∃ front hdcrc plcrc', headerOctets (encodeHeader h p msem type metaRaw seqno address n plcrc) ++
        pl = front ++ (hdcrc ++ (plcrc' ++ pl)) ∧
      SerialFrame h (makeMotv p msem metaRaw type n) (BitVec.ofNat 32 n) front hdcrc plcrc' pl := by
  have hhd : rawWithHdcrc (makeMotv p msem metaRaw type n) = true := by
    rw [rawWithHdcrc_makeMotv, hserial]
    rfl
  have hwith : pl ≠ [] → rawWithPlcrc (makeMotv p msem metaRaw type n) = true := by
    intro hne
    rw [rawWithPlcrc_makeMotv, decide_eq_true_iff]
    exact ⟨hserial, hbare hne⟩
  refine ⟨headerFront h (makeMotv p msem metaRaw type n) seqno address n,
    bfSetU16b h (headerChecksum h (makeMotv p msem metaRaw type n) seqno address n plcrc),
    if rawWithPlcrc (makeMotv p msem metaRaw type n) then bfSetU16b h plcrc else [], ?_,
    { front_length := length_headerFront h seqno address n _
      hdcrc_length := length_bfSetU16b h _
      plcrc_length := ?_, motv_eq := ?_, blocksize_eq := ?_, with_hdcrc := hhd
      hdcrc_ok := (bfRefU16b_bfSetU16b h _).trans (headerChecksum_eq h _ _ _ _ plcrc)
      with_plcrc := hwith, plcrc_ok := fun hne => ?_
      block := fun hne => ⟨n, ?_, ?_⟩ }⟩
  · rw [headerOctets_encodeHeader, if_pos hhd, List.append_assoc, List.append_assoc]
  · split
    · exact length_bfSetU16b h _
    · rfl
  · unfold headerFront
    rw [List.append_assoc, List.append_assoc, List.take_left' (length_bfSetU16b h _),
      bfRefU16b_bfSetU16b]
  · unfold headerFront
    rw [List.drop_left' (by simp), List.take_of_length_le (by simp), bfRefU32b_bfSetU32b]
  · rw [if_pos (hwith hne), bfRefU16b_bfSetU16b, hcrc hne]
  · rw [motvWord_makeMotv, hlen hne]
  · rw [BitVec.toNat_ofNat]
    exact Nat.mod_le n _

/-- The type of a hollow frame, and its block size. -/
theorem hollow_makeMotv (htype : RPFrameType.ofCode ((type.code.setWidth 4).setWidth 16) = type)
    (hh : Hollow (makeMotv p msem metaRaw type n) (BitVec.ofNat 32 n) pl) :
    pl = [] ∧ n % 2 ^ 32 * wordSize p msem = 2 ∧
      (type = .readResponse ∨ type = .writeRequest) := by
  obtain ⟨hnil, htwo, ht⟩ := hh
  rw [(bitGet_makeMotv p msem type metaRaw n).2.1, htype] at ht
  rw [motvWord_makeMotv, BitVec.toNat_ofNat] at htwo
  exact ⟨hnil, htwo, ht⟩

end Encoded

/-! ## 5. Messages -/

/-- A call of one of the sending functions: the request API, the response API, `regp_resp_meta`. -/
inductive Message where
  | request (r : Request)
  | response (f : RPFrame) (r : Response)
  | metaMessage (metaRaw : BitVec 16)

namespace Message

/-- The call. -/
def send (h : Host) (fuel : Nat) (p : RegP σ τ μ α) : Message → Exec (Rc × RegP σ τ μ α)
  | request r => r.send h fuel p
  | response f r => r.send h fuel p f
  | metaMessage metaRaw => regpRespMeta h fuel p metaRaw

/-- The octets of the message, unframed. -/
def octets (h : Host) (p : RegP σ τ μ α) : Message → List Octet
  | request r => r.octets h p
  | response f r => r.octets h p f
  | metaMessage metaRaw =>
    headerOctets (encodeHeader h p .bit8 .metaMessage metaRaw 0 0 0 0) ++ []

/-- **A hollow message**: a read request is acknowledged without a payload, and with a block size of
    two octets. -/
def Hollow (p : RegP σ τ μ α) (m : Message) : Prop :=
  ∃ f n, m = .response f (.ack none n) ∧ f.header.type = .readRequest ∧
    n % 2 ^ 32 * wordSize p .auto = 2

section Messages

variable {h h' : Host} {p : RegP σ τ μ α} {sent : τ → List Octet}

/-- What a call sends. -/
theorem send_sends (hk : p.sink.Accepting sent) (m : Message)
    (hsize : (m.octets h p).length + rpHeaderSize + varint64BitMaxOctets ≤ ssizeMax) :
    ∃ p', Returns (fun fuel => m.send h fuel p) (.ok 0, p') ∧
      p.sink.Sends sent (lineEncode p.epType (m.octets h p)) p'.sink := by
  cases m with
  | request r =>
    have hle : ((r.payload h).getD []).length ≤ (r.octets h p).length := by
      unfold Request.octets
      rw [List.length_append]
      exact Nat.le_add_left _ _
    have hsize' : (r.octets h p).length + rpHeaderSize + varint64BitMaxOctets ≤ ssizeMax := hsize
    obtain ⟨sink', hret, hs⟩ := r.send_sends h hk (by omega)
    exact ⟨_, hret, hs⟩
  | response f r =>
    have hle : ((r.payload h p).getD []).length ≤ (r.octets h p f).length := by
      unfold Response.octets
      rw [List.length_append]
      exact Nat.le_add_left _ _
    have hsize' : (r.octets h p f).length + rpHeaderSize + varint64BitMaxOctets ≤ ssizeMax := hsize
    obtain ⟨sink', hret, hs⟩ := r.send_sends h hk f (by omega)
    exact ⟨_, hret, hs⟩
  | metaMessage metaRaw =>
    obtain ⟨sink', hret, hs⟩ := regpRespMeta_returns (h := h) hk metaRaw
    refine ⟨_, hret, ?_⟩
    show p.sink.Sends sent (lineEncode p.epType (_ ++ [])) sink'
    rw [List.append_nil]
    exact hs

/-- A response carries the block its header says, or none; only an acknowledgement without a
    payload can have a block size of two octets then. -/
theorem response_payload (h : Host) (p : RegP σ τ μ α) (r : Response) :
    ((r.payload h p).getD [] ≠ [] →
      ((r.payload h p).getD []).length = r.words * wordSize p r.msem ∧
        payloadCrc (r.payload h p) = ufwBufferCrc16Arc ((r.payload h p).getD [])) ∧
    ((r.payload h p).getD [] = [] → r.words % 2 ^ 32 * wordSize p r.msem = 2 →
      ∃ n, r = .ack none n) := by
  cases r with
  | ack pl n =>
    cases pl with
    | none => exact ⟨fun hne => absurd rfl hne, fun _ _ => ⟨n, rfl⟩⟩
    | some pl =>
      refine ⟨fun _ => ⟨Mem.length_slice pl 0 _, rfl⟩, fun hnil htwo => ?_⟩
      have hlen : n * wordSize p .auto = 0 :=
        (Mem.length_slice pl 0 _).symm.trans (congrArg List.length hnil)
      have hn : n = 0 := (Nat.mul_eq_zero.mp hlen).resolve_right (wordSize_pos p .auto).ne'
      subst hn
      exact absurd ((Nat.zero_mul _).symm.trans htwo) (by decide)
  | erxoverflow v | etxoverflow v | eunmapped v | eaccess v | erange v | einvalid v =>
    refine ⟨fun _ => ⟨length_bfSetU32b h v, rfl⟩, fun hnil _ => ?_⟩
    have hlen := (length_bfSetU32b h v).symm.trans (congrArg List.length hnil)
    exact absurd hlen (by decide)
  | ewordsize | epayloadcrc | epayloadsize | ebusy | eio =>
    exact ⟨fun hne => absurd rfl hne, fun _ htwo =>
      absurd ((Nat.zero_mul _).symm.trans htwo) (by decide)⟩

/-- **Every message is a frame on a serial line, and hollow only as an acknowledgement.** -/
theorem serialFrame (h h' : Host) (hserial : p.epType = .serial) (m : Message) :
    ∃ motv blocksize front hdcrc plcrc pl,
      m.octets h p = front ++ (hdcrc ++ (plcrc ++ pl)) ∧
      SerialFrame h' motv blocksize front hdcrc plcrc pl ∧
      (Ufw.Hollow motv blocksize pl → m.Hollow p) := by
  cases m with
  | request r =>
    show ∃ motv blocksize front hdcrc plcrc pl, r.octets h p = _ ∧ _
    unfold Request.octets
    rw [encodeHeader_host h p _ _ _ _ _ _ _ h']
    rcases r.length_payload h p with ⟨hnone, htype⟩ | ⟨hlen, htype, hcrc⟩
    · rw [hnone]
      have hnil : ∀ {P : Prop}, (none : Option (List Octet)).getD [] ≠ [] → P :=
        fun hne => absurd rfl hne
      obtain ⟨front, hdcrc, plcrc, he, hs⟩ := serialFrame_encodeHeader (h := h') (p := p)
        (n := r.words) hserial hnil hnil hnil
      refine ⟨_, _, _, _, _, _, he, hs, fun hh => ?_⟩
      obtain ⟨-, -, ht⟩ := hollow_makeMotv (by rw [htype]; rfl) hh
      rw [htype] at ht
      rcases ht with ht | ht <;> cases ht
    · have hpos : (r.payload h).getD [] ≠ [] → 0 < r.words := fun hne =>
        Nat.pos_of_mul_pos_right (hlen ▸ List.length_pos_iff.mpr hne)
      have hbare : (r.payload h).getD [] ≠ [] → 0 < r.words ∧ r.type ≠ .readRequest := fun hne =>
        ⟨hpos hne, by rw [htype]; decide⟩
      obtain ⟨front, hdcrc, plcrc, he, hs⟩ := serialFrame_encodeHeader (h := h') (p := p) hserial
        hbare (fun _ => hcrc) fun _ => hlen
      refine ⟨_, _, _, _, _, _, he, hs, fun hh => ?_⟩
      obtain ⟨hnil, htwo, -⟩ := hollow_makeMotv (by rw [htype]; rfl) hh
      rw [hnil] at hlen
      have hzero : r.words = 0 := by
        rcases Nat.mul_eq_zero.mp hlen.symm with h0 | h0
        · exact h0
        · exact absurd h0 (wordSize_pos p r.msem).ne'
      rw [hzero, Nat.zero_mod, Nat.zero_mul] at htwo
      cases htwo
  | response f r =>
    show ∃ motv blocksize front hdcrc plcrc pl, r.octets h p f = _ ∧ _
    unfold Response.octets
    rw [encodeHeader_host h p _ _ _ _ _ _ _ h']
    obtain ⟨hpl, hack⟩ := response_payload h p r
    have htype : RPFrameType.ofCode (((req2resp f.header.type).code.setWidth 4).setWidth 16) =
        req2resp f.header.type ∧ req2resp f.header.type ≠ .readRequest ∧
        req2resp f.header.type ≠ .writeRequest := by
      cases f.header.type with
      | reserved code => exact ⟨rfl, nofun, nofun⟩
      | _ => decide
    obtain ⟨hcode, hread, hwrite⟩ := htype
    have hbare : (r.payload h p).getD [] ≠ [] → 0 < r.words ∧
        req2resp f.header.type ≠ .readRequest := fun hne =>
      ⟨Nat.pos_of_mul_pos_right ((hpl hne).1 ▸ List.length_pos_iff.mpr hne), hread⟩
    obtain ⟨front, hdcrc, plcrc, he, hs⟩ := serialFrame_encodeHeader (h := h') (p := p) hserial
      hbare (fun hne => (hpl hne).2) fun hne => (hpl hne).1
    refine ⟨_, _, _, _, _, _, he, hs, fun hh => ?_⟩
    obtain ⟨hnil, htwo, ht⟩ := hollow_makeMotv hcode hh
    obtain ⟨n, rfl⟩ := hack hnil htwo
    refine ⟨f, n, rfl, ?_, htwo⟩
    have hresp := ht.resolve_right hwrite
    cases hf : f.header.type with
    | readRequest => rfl
    | _ => rw [hf] at hresp; cases hresp
  | metaMessage metaRaw =>
    have hnil : ∀ {P : Prop}, ([] : List Octet) ≠ [] → P := fun hne => absurd rfl hne
    show ∃ motv blocksize front hdcrc plcrc pl, headerOctets _ ++ [] = _ ∧ _
    rw [encodeHeader_host h p _ _ _ _ _ _ _ h']
    obtain ⟨front, hdcrc, plcrc, he, hs⟩ := serialFrame_encodeHeader (h := h') (p := p) hserial
      hnil hnil hnil
    refine ⟨_, _, _, _, _, _, he, hs, fun hh => ?_⟩
    obtain ⟨-, -, ht⟩ := hollow_makeMotv rfl hh
    rcases ht with ht | ht <;> cases ht

end Messages

end Message

/-! ## 6. What goes unnoticed -/

section Unnoticed

variable {h : Host} {p : RegP σ τ μ α} {motv : BitVec 16} {blocksize : BitVec 32} {block : Block}
  {used : Nat} {front hdcrc plcrc : List Octet}

/-- The first word of a hollow acknowledgement: a read response with both checksums. -/
theorem makeMotv_hollow (hserial : p.epType = .serial) {n : Nat} (hn : 0 < n) :
    makeMotv p .auto 0 .readResponse n = 0x0610#16 ∨
      makeMotv p .auto 0 .readResponse n = 0x0710#16 := by
  unfold makeMotv motvOptions
  cases p.memory.type <;> simp only [hserial, hn] <;> decide

/-- A read response without the checksum of its header, the payload of which is a checksum, is
    accepted. -/
theorem parseFrame_unchecked
    (hmotv : headerMotv h (block.octets.shift h.sizeofRPFrame) = 0x0410#16 ∨
      headerMotv h (block.octets.shift h.sizeofRPFrame) = 0x0510#16)
    (hsize : (rawFrame h block used).rawSize = 16)
    (htwo : (readU32b h (block.octets.shift h.sizeofRPFrame) 4).val.toNat *
      motvWord (headerMotv h (block.octets.shift h.sizeofRPFrame)) = 2) :
    (parseFrame h block used).val.2 = .ok 0 := by
  obtain ⟨header, hok, htype⟩ : ∃ header, HeaderOk h (block.octets.shift h.sizeofRPFrame)
      (rawFrame h block used).rawSize header 7 ∧ header.type = .readResponse := by
    generalize block.octets.shift h.sizeofRPFrame = raw at hmotv
    have hoptions : (bitGet (headerMotv h raw) 4 8).setWidth 8 &&& 8#8 = 0 := by
      rcases hmotv with hmotv | hmotv <;> rw [hmotv] <;> rfl
    have hhd : rawWithHdcrc (headerMotv h raw) = false := by
      rcases hmotv with hmotv | hmotv <;> rw [hmotv] <;> rfl
    refine ⟨{ version := 0, type := .readResponse
              options := (bitGet (headerMotv h raw) 4 8).setWidth 8
              metaRaw := 0, sequence := _, address := _, blocksize := _, hdcrc := 0, plcrc := _ },
      { off_eq := ?_, size := by rw [hsize]; decide, version := rfl, version_eq := ?_
        type := ?_, options := rfl, options_ok := hoptions, metaRaw := ?_, meta_ok := rfl
        sequence := rfl, address := rfl, blocksize := rfl, hdcrc := by rw [hhd]; rfl
        hdcrc_ok := fun hw => absurd (hhd.symm.trans hw) Bool.false_ne_true, plcrc := rfl }, rfl⟩
    all_goals rcases hmotv with hmotv | hmotv <;> rw [hmotv] <;> rfl
  have hpay := payloadSize_headed hok (by rw [hsize]; decide)
  have hword := frameWord_headed hok
  rw [hsize] at hpay
  rw [← hok.blocksize, ← hword] at htwo
  have hhd : regpHasHdcrc (headedFrame h block used header 7) = false :=
    hok.options_bits.1.symm.trans (by rcases hmotv with hmotv | hmotv <;> rw [hmotv] <;> rfl)
  have hact : header.blocksize.toNat = actualsize (headedFrame h block used header 7) := by
    have hact := actualsize_eq (headedFrame h block used header 7)
    rw [hpay] at hact
    rcases frameWord_cases (headedFrame h block used header 7) with hw | hw <;>
      rw [hw] at htwo hact <;> omega
  have hp : payloadPlausible (headedFrame h block used header 7) = .ok 0 := by
    rw [payloadPlausible_block (.inl htype)]
    exact if_pos hact
  rw [parseFrame_headed hok, hp, checkPayload_val, if_neg]
  · rfl
  · rintro ⟨h1, -⟩
    exact Bool.false_ne_true (hhd.symm.trans h1)

/-- **A hollow acknowledgement is accepted without its option.** -/
theorem SerialFrame.hollow_accepted (hs : SerialFrame h motv blocksize front hdcrc plcrc [])
    (hmotv : motv = 0x0610#16 ∨ motv = 0x0710#16) (htwo : blocksize.toNat * motvWord motv = 2)
    (hholds : block.Holds h used (flipBit (front ++ (hdcrc ++ (plcrc ++ []))) 1)) :
    (parseFrame h block used).val.2 = .ok 0 := by
  have hfl := hs.front_length
  have hlen : (flipBit front 1).length = 12 := by rw [length_flipBit, hfl]
  rw [flipBit_append_left (by omega)] at hholds
  obtain ⟨r1, -, -, -, hraw⟩ := holds_parts hlen hs.hdcrc_length hholds
  obtain ⟨hword, hblock⟩ := front_reads (h := h) r1
  have hl2 : (front.take 2).length = 2 := List.length_take_of_le (by omega)
  obtain ⟨htake, hdrop⟩ := flipBit_take_drop (l := front) (k := 2) (by omega)
    (show 1 < 8 * 2 by decide)
  have hdrop8 : (flipBit front 1).drop 8 = front.drop 8 := by
    rw [show (8 : Nat) = 2 + 6 from rfl, ← List.drop_drop, ← List.drop_drop, hdrop]
  rw [htake, bfRefU16b_flipBit hl2 (by decide), hs.motv_eq] at hword
  rw [hdrop8, hs.blocksize_eq] at hblock
  have hplcrc := hs.plcrc_length
  refine parseFrame_unchecked ?_ ?_ ?_
  · rw [hword]
    rcases hmotv with rfl | rfl
    · exact .inl rfl
    · exact .inr rfl
  · rw [hraw, hplcrc]
    rcases hmotv with rfl | rfl <;> rfl
  · rw [hword, hblock]
    rcases hmotv with rfl | rfl <;> exact htwo

end Unnoticed

/-! ## 7. Single-bit errors -/

section BitErrors

variable {h h' : Host} {p : RegP σ τ μ α}

/-- Every bit of the frame `l` that is inverted on the line is noticed: `regp_recv` returns, and
    with an error. -/
def DetectsFlips (h' : Host) (peer : RegP σ' τ' μ' α') (line : List Octet → Source σ')
    (l : List Octet) : Prop :=
  ∀ i < 8 * l.length, ∃ rc mf peer',
    Returns (fun fuel => regpRecv h' fuel
      { peer with source := line (lineEncode .serial (flipBit l i)) }) (rc, mf, peer') ∧
    mf.errorId ≠ none

/-- A hollow message has a bit the parser does not miss. -/
theorem Message.Hollow.accepted (h h' : Host) (hserial : p.epType = .serial) {m : Message}
    (hm : m.Hollow p) :
    1 < 8 * (m.octets h p).length ∧ ∀ block used,
      Block.Holds h' block used (flipBit (m.octets h p) 1) →
      (parseFrame h' block used).val.2 = .ok 0 := by
  obtain ⟨f, n, rfl, ht, htwo⟩ := hm
  have hn : 0 < n := by
    rcases Nat.eq_zero_or_pos n with rfl | hpos
    · rw [Nat.zero_mod, Nat.zero_mul] at htwo
      cases htwo
    · exact hpos
  have hnil : ∀ {P : Prop}, ([] : List Octet) ≠ [] → P := fun hne => absurd rfl hne
  have hframe : ∃ front hdcrc plcrc, headerOctets (encodeHeader h' p .auto .readResponse 0
        f.header.sequence f.header.address n 0) ++ [] = front ++ (hdcrc ++ (plcrc ++ [])) ∧
      SerialFrame h' (makeMotv p .auto 0 .readResponse n)
      (BitVec.ofNat 32 n) front hdcrc plcrc [] :=
    serialFrame_encodeHeader hserial hnil hnil hnil
  obtain ⟨front, hdcrc, plcrc, he, hs⟩ := hframe
  have hoct : (Message.response f (.ack none n)).octets h p =
      front ++ (hdcrc ++ (plcrc ++ [])) := by
    rw [← he, ← encodeHeader_host h p _ _ _ _ _ _ _ h']
    show Response.octets h p f (.ack none n) = _
    unfold Response.octets
    rw [ht]
    rfl
  rw [hoct]
  refine ⟨?_, fun block used hholds => hs.hollow_accepted (makeMotv_hollow hserial hn) ?_ hholds⟩
  · rw [List.length_append, hs.front_length]
    omega
  · rw [motvWord_makeMotv, BitVec.toNat_ofNat]
    exact htwo

variable {sent : τ → List Octet} {sent' : τ' → List Octet}

/-- A frame with a flipped bit is received, and refused for what the parser refuses it for. -/
theorem regpRecv_flipped {peer : RegP σ' τ' μ' α'} (hpeer : peer.Listens h' sent' .serial)
    {block : Block} {alloc' : BlockAllocator α'}
    (hblock : blockAlloc peer.alloc = (.ok block, alloc')) {l : List Octet}
    (hfit : h'.sizeofRPFrame + l.length ≤ peer.alloc.blocksize) {i : Nat} (hi : i < 8 * l.length)
    {source' : Source σ'} (hs : peer.source.Delivers (lineEncode .serial (flipBit l i)) source') :
    ∃ block', Block.Holds h' block' (h'.sizeofRPFrame + l.length) (flipBit l i) ∧
      ∃ rc mf peer', Returns (fun fuel => regpRecv h' fuel peer) (rc, mf, peer') ∧
        mf.errorId = rcError (parseFrame h' block' (h'.sizeofRPFrame + l.length)).val.2 := by
  obtain ⟨hchannel, hk, -⟩ := hpeer
  rw [← hchannel] at hs
  have hlen := length_flipBit l i
  obtain ⟨block', hholds, -, hiff⟩ := regpRecv_frame h' (List.ne_nil_of_length_pos (by omega)) hs
    hblock (by rw [hlen]; exact hfit)
  obtain ⟨rc, mf, sink', hparse, -⟩ := recvParse_returns (h := h')
    (p := { peer with source := source', alloc := alloc' }) hk block'
    (h'.sizeofRPFrame + (flipBit l i).length)
  rw [hlen] at hholds hparse hiff
  obtain ⟨n, hn⟩ := hparse
  exact ⟨block', hholds, rc, mf, _, (hiff _).mpr ⟨n, hn⟩, (recvParse_result (hn n (le_refl n))).1⟩

/-- **Every flipped bit is noticed, but in hollow messages**: whatever an instance sends on a serial
    line, with one bit inverted it is received with an error, by every peer with a block for it, if
    and only if it is not an acknowledgement of a read request that announces two octets and carries
    none. -/
theorem regp_bitErrors_iff (h h' : Host) (p : RegP σ τ μ α) (hk : p.sink.Accepting sent)
    (hserial : p.epType = .serial) (m : Message) (peer : RegP σ' τ' μ' α')
    (hpeer : peer.Listens h' sent' .serial) (block : Block) (alloc' : BlockAllocator α')
    (hblock : blockAlloc peer.alloc = (.ok block, alloc'))
    (hfit : h'.sizeofRPFrame + (m.octets h p).length ≤ peer.alloc.blocksize)
    (line : List Octet → Source σ') (hline : ∀ l, ∃ source', (line l).Delivers l source') :
    (∃ p', Returns (fun fuel => m.send h fuel p) (.ok 0, p') ∧
      p.sink.Sends sent (lineEncode .serial (m.octets h p)) p'.sink) ∧
    (DetectsFlips h' peer line (m.octets h p) ↔ ¬m.Hollow p) := by
  have hmax := peer.alloc.blocksize_le
  have hframe := h'.sizeofRPFrame_ge
  refine ⟨?_, ?_⟩
  · rw [← hserial]
    exact m.send_sends hk (by rw [rpHeaderSize, rpHeaderSize16, varint64BitMaxOctets]; omega)
  · obtain ⟨hchannel, hk', hroom⟩ := hpeer
    obtain ⟨motv, blocksize, front, hdcrc, plcrc, pl, hoct, hs, hhollow⟩ :=
      m.serialFrame h h' hserial
    have hlistens : ∀ l, RegP.Listens h' sent' .serial { peer with source := line l } :=
      fun _ => ⟨hchannel, hk', hroom⟩
    have hrecv := fun i (hi : i < 8 * (m.octets h p).length) =>
      (hline (lineEncode .serial (flipBit (m.octets h p) i))).elim fun _ hs =>
        regpRecv_flipped (hlistens (lineEncode .serial (flipBit (m.octets h p) i))) hblock hfit
        hi hs
    constructor
    · intro hdetects hm
      obtain ⟨hlt, hacc⟩ := hm.accepted h h' hserial
      obtain ⟨block', hholds, rc, mf, peer', hret, herr⟩ := hrecv 1 hlt
      obtain ⟨rc₁, mf₁, peer₁, hret₁, herr₁⟩ := hdetects 1 hlt
      cases hret.unique hret₁
      rw [hacc block' _ hholds] at herr
      exact herr₁ herr
    · intro hm i hi
      obtain ⟨block', hholds, rc, mf, peer', hret, herr⟩ := hrecv i hi
      refine ⟨rc, mf, peer', hret, ?_⟩
      rw [herr]
      rcases hval : (parseFrame h' block' (h'.sizeofRPFrame + (m.octets h p).length)).val.2
        with e | k
      · exact Option.some_ne_none e
      · rw [hoct] at hholds hi
        rw [hoct] at hval
        exact absurd (hhollow (hs.flip_accepted hi hholds hval)) hm

end BitErrors

/-- The request for eight words: every flipped bit is noticed. -/
theorem regp_bitErrors_iff_wordRequest :
    (∃ p', Returns (fun fuel => (Message.request (.read16 0x1000 8)).send lp64Host fuel
        (ramInstance .serial [])) (.ok 0, p') ∧
      (ramInstance .serial []).sink.Sends id (lineEncode .serial
        ((Message.request (.read16 0x1000 8)).octets lp64Host (ramInstance .serial []))) p'.sink) ∧
    (DetectsFlips lp64Host (ramInstance .serial []) streamSource
        ((Message.request (.read16 0x1000 8)).octets lp64Host (ramInstance .serial [])) ↔
      ¬(Message.request (.read16 0x1000 8)).Hollow (ramInstance .serial [])) :=
  have hpeer : (ramInstance .serial []).Listens lp64Host id .serial :=
    ⟨rfl, collectSink_accepting [], by decide⟩
  regp_bitErrors_iff lp64Host lp64Host (ramInstance .serial []) (collectSink_accepting []) rfl
    (.request (.read16 0x1000 8)) (ramInstance .serial []) hpeer ⟨0, fun _ => 0⟩ pageAllocator rfl
    (by decide) streamSource fun l => ⟨_, streamSource_delivers_all l⟩

/-- **An acknowledgement that loses its checksum**: a read request for one word is acknowledged
    without a payload, and the option of the header's checksum is inverted on the line. The frame is
    received without an error. -/
theorem regp_bitErrors_hollow :
    ∃ octets,
      (∃ p', Returns (fun fuel => regpRespAck lp64Host fuel (ramInstance .serial [])
          (requestFrame .readRequest) none 1) (.ok 0, p') ∧
        (ramInstance .serial []).sink.Sends id (lineEncode .serial octets) p'.sink) ∧
      1 < 8 * octets.length ∧
      ∃ rc mf peer', Returns (fun fuel => regpRecv lp64Host fuel
          (ramInstance .serial (lineEncode .serial (flipBit octets 1)))) (rc, mf, peer') ∧
        mf.errorId = none := by
  obtain ⟨p', hret, hs⟩ := Message.send_sends (h := lp64Host) (p := ramInstance .serial [])
    (collectSink_accepting []) (.response (requestFrame .readRequest) (.ack none 1)) (by decide)
  have hm : (Message.response (requestFrame .readRequest) (.ack none 1)).Hollow
      (ramInstance .serial []) := ⟨_, 1, rfl, rfl, rfl⟩
  obtain ⟨hlt, hacc⟩ := hm.accepted lp64Host lp64Host rfl
  refine ⟨_, ⟨p', hret, hs⟩, hlt, ?_⟩
  have hroom : lp64Host.sizeofRPFrame < pageAllocator.blocksize := by decide
  have hpeer : ∀ line, (ramInstance .serial line).Listens lp64Host id .serial := fun _ =>
    ⟨rfl, collectSink_accepting [], hroom⟩
  have hblock : ∀ line, blockAlloc (ramInstance .serial line).alloc =
      (.ok ⟨0, fun _ => 0⟩, pageAllocator) := fun _ => rfl
  obtain ⟨block', hholds, rc, mf, peer', hrecv, herr⟩ := regpRecv_flipped
    (hpeer (lineEncode .serial (flipBit _ 1))) (hblock _) (by decide) hlt
    (streamSource_delivers_all _)
  rw [hacc block' _ hholds] at herr
  exact ⟨rc, mf, peer', hrecv, herr⟩

end Ufw
