/-
  File:      Ufw/RegisterProtocol/Header.lean
  Subject:   REGISTER PROTOCOL: encoding and parsing headers (register-protocol.c).

  * `makeMotv`, `encodeHeader` -- the encoder; `parseHeader` -- the parser, with the octets it
    reads;
  * `parseHeader_within` -- **the parser reads the header's own octets only**;
  * `parseHeader_ok_iff` -- what it takes for a header to be accepted;
  * `parseHeader_encodeHeader` -- **an encoded header is parsed back, field by field.**
-/
import Ufw.Base.Reads
import Ufw.Crc16Arc
import Ufw.RegisterProtocol.Types

namespace Ufw

open Base

variable {σ τ μ α : Type}

/-! ## 1. Encoding -/

/-- `RP_HEADER_SIZE_16` -/
def rpHeaderSize16 : Nat := 8

/-- `RP_HEADER_MIN_SIZE_16` -/
def rpHeaderMinSize16 : Nat := 6

/-- `RP_HEADER_SIZE` -/
def rpHeaderSize : Nat := rpHeaderSize16 * 2

/-- `RP_HEADER_MIN_SIZE` -/
def rpHeaderMinSize : Nat := rpHeaderMinSize16 * 2

/-- `MSEM_AUTO`, `MSEM_8BIT`, `MSEM_16BIT` -/
inductive Msem where
  | auto
  | bit8
  | bit16
  deriving DecidableEq, Repr

/-- `raw_with_hdcrc` -/
def rawWithHdcrc (motv : BitVec 16) : Bool := bitIsset motv (rpOptWithHeaderCrc.setWidth 16 <<< 8)

/-- `raw_with_plcrc` -/
def rawWithPlcrc (motv : BitVec 16) : Bool := bitIsset motv (rpOptWithPayloadCrc.setWidth 16 <<< 8)

/-- The options `make_motv` sets. -/
def motvOptions (p : RegP σ τ μ α) (msem : Msem) (type : RPFrameType) (n : Nat) : BitVec 8 :=
  (if (msem = .auto ∧ p.memory.type = .memtype16) ∨ msem = .bit16 then rpOptWordSize16 else 0)
    ||| (if p.epType = .serial then rpOptWithHeaderCrc else 0)
    ||| (if p.epType = .serial ∧ 0 < n ∧ type ≠ .readRequest then rpOptWithPayloadCrc else 0)

/-- `make_motv` -/
def makeMotv (p : RegP σ τ μ α) (msem : Msem) (metaRaw : BitVec 16) (type : RPFrameType)
    (n : Nat) : BitVec 16 :=
  (rpImplementationVersion &&& 0x0f#16)
    ||| ((type.code &&& 0x0f#16) <<< 4)
    ||| ((motvOptions p msem type n).setWidth 16 <<< 8)
    ||| (metaRaw <<< 12)

/-- What `populate_header` writes to the first six words of the buffer. -/
def headerFront (h : Host) (motv : BitVec 16) (seqno : BitVec 16) (address : BitVec 32)
    (n : Nat) : List Octet :=
  bfSetU16b h motv ++ bfSetU16b h seqno ++ bfSetU32b h address ++ bfSetU32b h (BitVec.ofNat 32 n)

/-- The checksum `encode_header` computes over the buffer. -/
def headerChecksum (h : Host) (motv : BitVec 16) (seqno : BitVec 16) (address : BitVec 32)
    (n : Nat) (plcrc : BitVec 16) : BitVec 16 :=
  let crc := ufwBufferCrc16ArcU16 h (octetWords h (headerFront h motv seqno address n))
  if rawWithPlcrc motv then ufwCrc16ArcU16 h crc (octetWords h (bfSetU16b h plcrc)) else crc

/-- `encode_header`: the buffer, and how many of its words make up the header. -/
def encodeHeader (h : Host) (p : RegP σ τ μ α) (msem : Msem) (type : RPFrameType)
    (metaRaw : BitVec 16) (seqno : BitVec 16) (address : BitVec 32) (n : Nat)
    (plcrc : BitVec 16) : List Octet × Nat :=
  let motv := makeMotv p msem metaRaw type n
  let withHdcrc := rawWithHdcrc motv
  let withPlcrc := rawWithPlcrc motv
  let hdcrc :=
    if withHdcrc then bfSetU16b h (headerChecksum h motv seqno address n plcrc) else [0, 0]
  (headerFront h motv seqno address n ++ hdcrc ++ bfSetU16b h plcrc,
    rpHeaderMinSize16 + (if withHdcrc then 1 else 0) + (if withPlcrc then 1 else 0))

/-- The octets of a header that are sent: `send_memory` is given the buffer and their number. -/
def headerOctets (header : List Octet × Nat) : List Octet := header.1.take (2 * header.2)

/-! ## 2. Parsing -/

/-- `BIT_GET` -/
def bitGet (container : BitVec 16) (n o : Nat) : BitVec 16 :=
  (container &&& (BitVec.ofNat 16 (2 ^ n - 1) <<< o)) >>> o

/-- The `switch` of `parse_header`: whether the meta field may have this value. -/
def metaValid (type : RPFrameType) (metaRaw : BitVec 32) : Bool :=
  match type with
  | .readRequest | .writeRequest => metaRaw == 0
  | .readResponse | .writeResponse => metaRaw ≤ RPResponse.einvalid.code.setWidth 32
  | .metaMessage => !(metaRaw < 1 || 2 < metaRaw)
  | .reserved _ => false

/-- `bf_ref_u16b` at the word `i` of `raw`. -/
def readU16b (h : Host) (raw : Mem Octet) (i : Nat) : Reads (BitVec 16) :=
  bfRefU16b h <$> Reads.slice raw (2 * i) 2

/-- `bf_ref_u32b` at the word `i` of `raw`. -/
def readU32b (h : Host) (raw : Mem Octet) (i : Nat) : Reads (BitVec 32) :=
  bfRefU32b h <$> Reads.slice raw (2 * i) 4

/-- `ufw_crc16_arc_u16` over `n` words of `raw` from the word `i` on. -/
def readCrcU16 (h : Host) (crc : BitVec 16) (raw : Mem Octet) (i n : Nat) : Reads (BitVec 16) :=
  (fun l => ufwCrc16ArcU16 h crc (octetWords h l)) <$> Reads.slice raw (2 * i) (2 * n)

/-- The end of `parse_header`: the checksums. -/
def parseChecksums (h : Host) (header : RPHeader) (raw : Mem Octet) (n : Nat) (motv : BitVec 16) :
    Reads (RPHeader × Rc) :=
  let withHdcrc := rawWithHdcrc motv
  let withPlcrc := rawWithPlcrc motv
  if (withHdcrc && withPlcrc) = true ∧ n < rpHeaderSize then pure (header, .error .ebadmsg)
  else if (withHdcrc || withPlcrc) = true ∧ n < rpHeaderSize - 2 then
    pure (header, .error .ebadmsg)
  else do
    let hdcrc ← if withHdcrc then readU16b h raw 6 else pure 0
    let crc ← if withHdcrc then readCrcU16 h crc16ArcInitial raw 0 6 else pure 0
    let crc ←
      if withHdcrc && withPlcrc then readCrcU16 h crc raw (rpHeaderSize16 - 1) 1 else pure crc
    let offset := if withHdcrc then 7 else 6
    let plcrc ← if withPlcrc then readU16b h raw offset else pure 0
    let offset := if withPlcrc then offset + 1 else offset
    pure ({ header with hdcrc, plcrc }, if crc = hdcrc then .ok offset else .error .eilseq)

/-- `parse_header`: the header, its fields set as far as parsing went, and the return code. -/
def parseHeader (h : Host) (header : RPHeader) (raw : Mem Octet) (n : Nat) :
    Reads (RPHeader × Rc) :=
  if n < rpHeaderMinSize then pure (header, .error .ebadmsg)
  else do
    let motv ← readU16b h raw 0
    let version := bitGet motv 4 0
    let header := { header with version := version.setWidth 8 }
    if version ≠ rpImplementationVersion then pure (header, .error .ebadmsg)
    else
      let options := (bitGet motv 4 8).setWidth 8
      let header := { header with type := .ofCode (bitGet motv 4 4), options }
      if options &&& 8#8 ≠ 0 then pure (header, .error .ebadmsg)
      else
        let header := { header with metaRaw := (bitGet motv 4 12).setWidth 32 }
        if metaValid header.type header.metaRaw = false then pure (header, .error .ebadmsg)
        else do
          let sequence ← readU16b h raw 1
          let address ← readU32b h raw 2
          let blocksize ← readU32b h raw 4
          parseChecksums h { header with sequence, address, blocksize, hdcrc := 0, plcrc := 0 }
            raw n motv

/-! ## 3. What the parser reads -/

section Within

variable {h : Host} {raw : Mem Octet} {n : Nat}

theorem readU16b_within {i : Nat} (hi : 2 * i + 2 ≤ n) : (readU16b h raw i).Within n :=
  Reads.within_map (Reads.within_slice hi)

theorem readU32b_within {i : Nat} (hi : 2 * i + 4 ≤ n) : (readU32b h raw i).Within n :=
  Reads.within_map (Reads.within_slice hi)

theorem readCrcU16_within {crc : BitVec 16} {i k : Nat} (hi : 2 * i + 2 * k ≤ n) :
    (readCrcU16 h crc raw i k).Within n :=
  Reads.within_map (Reads.within_slice hi)

theorem parseChecksums_within (header : RPHeader) (motv : BitVec 16)
    (hn : rpHeaderMinSize ≤ n) : (parseChecksums h header raw n motv).Within n := by
  simp only [rpHeaderMinSize, rpHeaderMinSize16] at hn
  unfold parseChecksums
  refine Reads.within_ite (fun _ => Reads.within_pure n _) fun h1 => ?_
  refine Reads.within_ite (fun _ => Reads.within_pure n _) fun h2 => ?_
  simp only [rpHeaderSize, rpHeaderSize16] at h1 h2
  -- which checksums are there decides how long the header is
  cases hh : rawWithHdcrc motv <;> cases hp : rawWithPlcrc motv <;>
    simp only [hh, hp, Bool.or_true, Bool.or_false, Bool.and_true, Bool.and_false, true_and,
      if_true, Bool.false_eq_true, if_false, rpHeaderSize16] at h1 h2 ⊢
  · exact Reads.within_bind (Reads.within_pure n _) <| Reads.within_bind (Reads.within_pure n _) <|
      Reads.within_bind (Reads.within_pure n _) <| Reads.within_bind (Reads.within_pure n _) <|
      Reads.within_pure n _
  · exact Reads.within_bind (Reads.within_pure n _) <| Reads.within_bind (Reads.within_pure n _) <|
      Reads.within_bind (Reads.within_pure n _) <|
      Reads.within_bind (readU16b_within (by omega)) <| Reads.within_pure n _
  · exact Reads.within_bind (readU16b_within (by omega)) <|
      Reads.within_bind (readCrcU16_within (by omega)) <|
      Reads.within_bind (Reads.within_pure n _) <| Reads.within_bind (Reads.within_pure n _) <|
      Reads.within_pure n _
  · exact Reads.within_bind (readU16b_within (by omega)) <|
      Reads.within_bind (readCrcU16_within (by omega)) <|
      Reads.within_bind (readCrcU16_within (by omega)) <|
      Reads.within_bind (readU16b_within (by omega)) <| Reads.within_pure n _

/-- **The parser reads nothing behind the octets it is given.** -/
theorem parseHeader_within (header : RPHeader) : (parseHeader h header raw n).Within n := by
  unfold parseHeader
  refine Reads.within_ite (fun _ => Reads.within_pure n _) fun hn => ?_
  have hmin : 12 ≤ n := by
    simp only [rpHeaderMinSize, rpHeaderMinSize16] at hn
    omega
  refine Reads.within_bind (readU16b_within (by omega)) ?_
  refine Reads.within_ite (fun _ => Reads.within_pure n _) fun _ => ?_
  refine Reads.within_ite (fun _ => Reads.within_pure n _) fun _ => ?_
  refine Reads.within_ite (fun _ => Reads.within_pure n _) fun _ => ?_
  exact Reads.within_bind (readU16b_within (by omega)) <|
    Reads.within_bind (readU32b_within (by omega)) <|
    Reads.within_bind (readU32b_within (by omega)) <|
    parseChecksums_within _ _ (Nat.le_of_not_lt hn)

end Within

/-! ## 4. What the parser accepts -/

/-- The word of version, type, options and meta field. -/
def headerMotv (h : Host) (raw : Mem Octet) : BitVec 16 := (readU16b h raw 0).val

/-- How many words a header has, by its options. -/
def headerWords (motv : BitVec 16) : Nat :=
  rpHeaderMinSize16 + (if rawWithHdcrc motv then 1 else 0) + (if rawWithPlcrc motv then 1 else 0)

/-- The checksum of a header: its first six words and the payload's checksum, if it has one. -/
def headerCrc (h : Host) (raw : Mem Octet) (motv : BitVec 16) : BitVec 16 :=
  let crc := (readCrcU16 h crc16ArcInitial raw 0 6).val
  if rawWithPlcrc motv then (readCrcU16 h crc raw (rpHeaderSize16 - 1) 1).val else crc

/-- **What it takes for a header to be accepted**, and the fields it is parsed into. -/
structure HeaderOk (h : Host) (raw : Mem Octet) (n : Nat) (header : RPHeader) (off : Nat) :
    Prop where
  off_eq : off = headerWords (headerMotv h raw)
  size : 2 * off ≤ n
  version : header.version = 0
  version_eq : bitGet (headerMotv h raw) 4 0 = 0
  type : header.type = .ofCode (bitGet (headerMotv h raw) 4 4)
  options : header.options = (bitGet (headerMotv h raw) 4 8).setWidth 8
  options_ok : header.options &&& 8#8 = 0
  metaRaw : header.metaRaw = (bitGet (headerMotv h raw) 4 12).setWidth 32
  meta_ok : metaValid header.type header.metaRaw = true
  sequence : header.sequence = (readU16b h raw 1).val
  address : header.address = (readU32b h raw 2).val
  blocksize : header.blocksize = (readU32b h raw 4).val
  hdcrc : header.hdcrc = if rawWithHdcrc (headerMotv h raw) then (readU16b h raw 6).val else 0
  hdcrc_ok : rawWithHdcrc (headerMotv h raw) = true →
    headerCrc h raw (headerMotv h raw) = header.hdcrc
  plcrc : header.plcrc =
    if rawWithPlcrc (headerMotv h raw) then (readU16b h raw (off - 1)).val else 0

theorem parseChecksums_ok_iff {h : Host} {header₀ header : RPHeader} {raw : Mem Octet}
    {n off : Nat} {motv : BitVec 16} (hn : rpHeaderMinSize ≤ n) :
    (parseChecksums h header₀ raw n motv).val = (header, .ok off) ↔
      off = headerWords motv ∧ 2 * off ≤ n ∧
      (rawWithHdcrc motv = true → headerCrc h raw motv = header.hdcrc) ∧
      header = { header₀ with
        hdcrc := if rawWithHdcrc motv then (readU16b h raw 6).val else 0
        plcrc := if rawWithPlcrc motv then (readU16b h raw (off - 1)).val else 0 } := by
  simp only [rpHeaderMinSize, rpHeaderMinSize16] at hn
  unfold parseChecksums headerWords headerCrc
  simp only [rpHeaderMinSize16, rpHeaderSize, rpHeaderSize16]
  cases hh : rawWithHdcrc motv <;> cases hp : rawWithPlcrc motv
  · simp only [Bool.or_false, Bool.and_false, Bool.false_eq_true, if_false, false_and,
      Reads.val_bind,
      Reads.val_pure, if_true, Prod.mk.injEq, Except.ok.injEq, false_imp_iff, true_and]
    constructor
    · rintro ⟨rfl, rfl⟩
      exact ⟨rfl, by omega, rfl⟩
    · rintro ⟨rfl, -, rfl⟩
      exact ⟨rfl, rfl⟩
  · simp only [Bool.or_true, Bool.false_and, Bool.false_eq_true, if_false, false_and, true_and,
      if_true, false_imp_iff]
    by_cases hsz : n < 14
    · simp only [hsz, if_true, Reads.val_pure, Prod.mk.injEq, reduceCtorEq, and_false, false_iff]
      rintro ⟨rfl, h2, -⟩
      omega
    · simp only [hsz, if_false, Reads.val_bind, Reads.val_pure, if_true, Prod.mk.injEq,
        Except.ok.injEq]
      constructor
      · rintro ⟨rfl, rfl⟩
        exact ⟨rfl, by omega, rfl⟩
      · rintro ⟨rfl, -, rfl⟩
        exact ⟨rfl, rfl⟩
  · simp only [Bool.or_false, Bool.and_false, Bool.false_eq_true, if_false, false_and, true_and,
      if_true, true_imp_iff]
    by_cases hsz : n < 14
    · simp only [hsz, if_true, Reads.val_pure, Prod.mk.injEq, reduceCtorEq, and_false, false_iff]
      rintro ⟨rfl, h2, -⟩
      omega
    · simp only [hsz, if_false, Reads.val_bind, Reads.val_pure, Prod.mk.injEq]
      constructor
      · rintro ⟨rfl, hcrc⟩
        split at hcrc
        · rename_i hc
          cases hcrc
          exact ⟨rfl, by omega, hc, rfl⟩
        · cases hcrc
      · rintro ⟨rfl, -, hc, rfl⟩
        exact ⟨rfl, if_pos hc⟩
  · simp only [Bool.or_true, Bool.and_true, true_and, if_true, true_imp_iff]
    by_cases hsz : n < 16
    · simp only [hsz, if_true, Reads.val_pure, Prod.mk.injEq, reduceCtorEq, and_false, false_iff]
      rintro ⟨rfl, h2, -⟩
      omega
    · simp only [hsz, if_false, show ¬n < 8 * 2 - 2 by omega, Reads.val_bind, Reads.val_pure,
        Prod.mk.injEq]
      constructor
      · rintro ⟨rfl, hcrc⟩
        split at hcrc
        · rename_i hc
          cases hcrc
          exact ⟨rfl, by omega, hc, rfl⟩
        · cases hcrc
      · rintro ⟨rfl, -, hc, rfl⟩
        exact ⟨rfl, if_pos hc⟩

/-- **The parser accepts exactly such headers.** -/
theorem parseHeader_ok_iff {h : Host} {header₀ header : RPHeader} {raw : Mem Octet} {n off : Nat} :
    (parseHeader h header₀ raw n).val = (header, .ok off) ↔ HeaderOk h raw n header off := by
  unfold parseHeader
  by_cases hn : n < rpHeaderMinSize
  · rw [if_pos hn]
    refine ⟨fun he => (nomatch congrArg Prod.snd he), fun hok => ?_⟩
    have h1 := hok.off_eq
    have h2 := hok.size
    simp only [headerWords, rpHeaderMinSize, rpHeaderMinSize16] at h1 hn
    omega
  · rw [if_neg hn]
    simp only [Reads.val_bind]
    constructor
    · intro he
      split at he
      · exact nomatch congrArg Prod.snd he
      · rename_i hv
        split at he
        · exact nomatch congrArg Prod.snd he
        · rename_i ho
          split at he
          · exact nomatch congrArg Prod.snd he
          · rename_i hm
            simp only [Reads.val_bind] at he
            obtain ⟨h1, h2, h3, rfl⟩ := (parseChecksums_ok_iff (Nat.le_of_not_lt hn)).mp he
            have hver : bitGet (headerMotv h raw) 4 0 = 0 := Decidable.not_not.mp hv
            exact
              { off_eq := h1, size := h2
                version := congrArg (BitVec.setWidth 8) hver, version_eq := hver
                type := rfl, options := rfl, options_ok := Decidable.not_not.mp ho, metaRaw := rfl
                meta_ok := by simpa using hm
                sequence := rfl, address := rfl, blocksize := rfl, hdcrc := rfl
                hdcrc_ok := h3, plcrc := rfl }
    · intro hok
      obtain ⟨version, type, options, metaRaw, sequence, address, blocksize, hdcrc, plcrc⟩ := header
      have hver : version = (bitGet (headerMotv h raw) 4 0).setWidth 8 := by
        rw [hok.version_eq]
        exact hok.version
      obtain rfl : version = _ := hver
      obtain rfl : type = _ := hok.type
      obtain rfl : options = _ := hok.options
      obtain rfl : metaRaw = _ := hok.metaRaw
      obtain rfl : sequence = _ := hok.sequence
      obtain rfl : address = _ := hok.address
      obtain rfl : blocksize = _ := hok.blocksize
      obtain rfl : hdcrc = _ := hok.hdcrc
      obtain rfl : plcrc = _ := hok.plcrc
      have hversion : ¬bitGet (readU16b h raw 0).val 4 0 ≠ rpImplementationVersion :=
        not_not.mpr hok.version_eq
      have hoptions : ¬(bitGet (readU16b h raw 0).val 4 8).setWidth 8 &&& 8#8 ≠ 0 :=
        not_not.mpr hok.options_ok
      have hmeta : ¬metaValid (.ofCode (bitGet (readU16b h raw 0).val 4 4))
          ((bitGet (readU16b h raw 0).val 4 12).setWidth 32) = false :=
        fun hf => Bool.false_ne_true (hf.symm.trans hok.meta_ok)
      rw [if_neg hversion, if_neg hoptions, if_neg hmeta]
      exact (parseChecksums_ok_iff (Nat.le_of_not_lt hn)).mpr
        ⟨hok.off_eq, hok.size, hok.hdcrc_ok, rfl⟩

/-- The errors of the header parser. -/
def HeaderError (r : RPHeader × Rc) : Prop :=
  ∀ e, r.2 = .error e → e = .ebadmsg ∨ e = .eilseq

theorem headerError_ebadmsg (header : RPHeader) : HeaderError (header, .error .ebadmsg) := by
  intro e he
  cases he
  exact .inl rfl

theorem headerError_checksum (header : RPHeader) (off : Nat) {c : Prop} [Decidable c] :
    HeaderError (header, if c then .ok off else .error .eilseq) := by
  intro e he
  dsimp only at he
  split at he
  · cases he
  · cases he
    exact .inr rfl

theorem parseChecksums_error (h : Host) (header : RPHeader) (raw : Mem Octet) (n : Nat)
    (motv : BitVec 16) : HeaderError (parseChecksums h header raw n motv).val := by
  unfold parseChecksums
  refine Reads.val_ite_of (headerError_ebadmsg _) (Reads.val_ite_of (headerError_ebadmsg _) ?_)
  refine Reads.val_ite_bind_of fun hdcrc => Reads.val_ite_bind_of fun crc => ?_
  refine Reads.val_ite_bind_of fun crc => Reads.val_ite_bind_of fun plcrc => ?_
  exact headerError_checksum _ _

/-- **A header is refused as EBADMSG or EILSEQ.** -/
theorem parseHeader_error (h : Host) (header : RPHeader) (raw : Mem Octet) (n : Nat) :
    HeaderError (parseHeader h header raw n).val := by
  unfold parseHeader
  refine Reads.val_ite_of (headerError_ebadmsg _) (Reads.val_bind_of fun motv => ?_)
  refine Reads.val_ite_of (headerError_ebadmsg _) (Reads.val_ite_of (headerError_ebadmsg _) ?_)
  refine Reads.val_ite_of (headerError_ebadmsg _) ?_
  refine Reads.val_bind_of fun sequence => Reads.val_bind_of fun address => ?_
  exact Reads.val_bind_of fun blocksize => parseChecksums_error h _ _ _ _

/-! ## 5. Encoded headers -/

/-- A word of four nibbles. -/
def nibbles (a b c d : BitVec 4) : BitVec 16 :=
  a.setWidth 16 ||| (b.setWidth 16 <<< 4) ||| (c.setWidth 16 <<< 8) ||| (d.setWidth 16 <<< 12)

theorem bitGet_nibbles (a b c d : BitVec 4) :
    bitGet (nibbles a b c d) 4 0 = a.setWidth 16 ∧ bitGet (nibbles a b c d) 4 4 = b.setWidth 16 ∧
    bitGet (nibbles a b c d) 4 8 = c.setWidth 16 ∧
    bitGet (nibbles a b c d) 4 12 = d.setWidth 16 := by
  refine ⟨?_, ?_, ?_, ?_⟩ <;>
    (apply BitVec.eq_of_getLsbD_eq; intro i hi; unfold bitGet nibbles; interval_cases i <;> simp)

theorem getLsbD_nibbles (a b c d : BitVec 4) {i : Nat} (hi : i < 4) :
    (nibbles a b c d).getLsbD (8 + i) = c.getLsbD i := by
  unfold nibbles
  interval_cases i <;> simp

theorem rawWithHdcrc_nibbles (a b c d : BitVec 4) :
    rawWithHdcrc (nibbles a b c d) = c.getLsbD 1 := by
  rw [← getLsbD_nibbles a b c d (by decide : 1 < 4)]
  exact bitIsset_twoPow (i := 9) (by decide) _

theorem rawWithPlcrc_nibbles (a b c d : BitVec 4) :
    rawWithPlcrc (nibbles a b c d) = c.getLsbD 2 := by
  rw [← getLsbD_nibbles a b c d (by decide : 2 < 4)]
  exact bitIsset_twoPow (i := 10) (by decide) _

/-- The option bits of a header are those of its first word. -/
theorem HeaderOk.options_bits {h : Host} {raw : Mem Octet} {n off : Nat} {header : RPHeader}
    (hok : HeaderOk h raw n header off) :
    rawWithHdcrc (headerMotv h raw) = bitIsset header.options rpOptWithHeaderCrc ∧
    rawWithPlcrc (headerMotv h raw) = bitIsset header.options rpOptWithPayloadCrc ∧
    (headerMotv h raw).getLsbD 8 = bitIsset header.options rpOptWordSize16 := by
  have hbit : ∀ motv : BitVec 16, ∀ i < 3,
      motv.getLsbD (8 + i) = ((bitGet motv 4 8).setWidth 8).getLsbD i := by
    intro motv i hi
    unfold bitGet
    interval_cases i <;> simp
  rw [hok.options]
  refine ⟨?_, ?_, ?_⟩
  · refine ((bitIsset_twoPow (i := 9) (by decide) _).trans (hbit _ 1 (by decide))).trans ?_
    exact (bitIsset_twoPow (i := 1) (by decide) _).symm
  · refine ((bitIsset_twoPow (i := 10) (by decide) _).trans (hbit _ 2 (by decide))).trans ?_
    exact (bitIsset_twoPow (i := 2) (by decide) _).symm
  · exact (hbit _ 0 (by decide)).trans (bitIsset_twoPow (i := 0) (by decide) _).symm

section Motv

variable (p : RegP σ τ μ α) (msem : Msem) (metaRaw : BitVec 16) (type : RPFrameType) (n : Nat)

/-- The bits of the options, one by one. -/
theorem getLsbD_motvOptions :
    (motvOptions p msem type n).getLsbD 0 =
      decide ((msem = .auto ∧ p.memory.type = .memtype16) ∨ msem = .bit16) ∧
    (motvOptions p msem type n).getLsbD 1 = decide (p.epType = .serial) ∧
    (motvOptions p msem type n).getLsbD 2 =
      decide (p.epType = .serial ∧ 0 < n ∧ type ≠ .readRequest) ∧
    motvOptions p msem type n < 8#8 := by
  unfold motvOptions
  by_cases h16 : (msem = .auto ∧ p.memory.type = .memtype16) ∨ msem = .bit16 <;>
    by_cases hhd : p.epType = .serial <;>
    by_cases hpl : 0 < n ∧ type ≠ .readRequest <;>
    simp only [h16, hhd, hpl, if_true, if_false, and_self, and_false, false_and, ne_eq,
      not_false_eq_true, decide_true, decide_false] <;>
    decide

/-- The options as a nibble. -/
theorem motvOptions_setWidth (w : Nat) :
    ((motvOptions p msem type n).setWidth 4).setWidth w =
    (motvOptions p msem type n).setWidth w := by
  have hlt := (getLsbD_motvOptions p msem type n).2.2.2
  generalize motvOptions p msem type n = o at hlt ⊢
  apply BitVec.eq_of_toNat_eq
  have h8 : o.toNat < 2 ^ 4 := lt_trans hlt (by decide)
  simp only [BitVec.toNat_setWidth, Nat.mod_eq_of_lt h8]

theorem makeMotv_eq : makeMotv p msem metaRaw type n =
    nibbles 0 (type.code.setWidth 4) ((motvOptions p msem type n).setWidth 4)
      (metaRaw.setWidth 4) := by
  have hlt := (getLsbD_motvOptions p msem type n).2.2.2
  unfold makeMotv
  generalize motvOptions p msem type n = o at hlt ⊢
  have hhigh : ∀ i, 3 ≤ i → o.getLsbD i = false := fun i hi =>
    Nat.testBit_lt_two_pow (lt_of_lt_of_le hlt (Nat.pow_le_pow_right (n := 2) (by decide) hi))
  have h4 : o[4] = false := hhigh 4 (by decide)
  have h5 : o[5] = false := hhigh 5 (by decide)
  have h6 : o[6] = false := hhigh 6 (by decide)
  have h7 : o[7] = false := hhigh 7 (by decide)
  unfold nibbles rpImplementationVersion
  apply BitVec.eq_of_getLsbD_eq
  intro i hi
  interval_cases i <;> simp [h4, h5, h6, h7]

end Motv
section RoundTrip

variable (h : Host) (p : RegP σ τ μ α) (msem : Msem) (type : RPFrameType) (metaRaw : BitVec 16)
  (seqno : BitVec 16) (address : BitVec 32) (n : Nat) (plcrc : BitVec 16)

theorem rawWithHdcrc_makeMotv :
    rawWithHdcrc (makeMotv p msem metaRaw type n) = decide (p.epType = .serial) := by
  rw [makeMotv_eq, rawWithHdcrc_nibbles, BitVec.getLsbD_setWidth,
    (getLsbD_motvOptions p msem type n).2.1]
  rfl

theorem rawWithPlcrc_makeMotv :
    rawWithPlcrc (makeMotv p msem metaRaw type n) =
      decide (p.epType = .serial ∧ 0 < n ∧ type ≠ .readRequest) := by
  rw [makeMotv_eq, rawWithPlcrc_nibbles, BitVec.getLsbD_setWidth,
    (getLsbD_motvOptions p msem type n).2.2.1]
  rfl

@[simp] theorem length_headerFront (motv : BitVec 16) :
    (headerFront h motv seqno address n).length = 12 := by
  simp only [headerFront, List.length_append, length_bfSetU16b, length_bfSetU32b]

/-- The header `encodeHeader` describes, field by field. -/
def encodedHeader : RPHeader :=
  let motv := makeMotv p msem metaRaw type n
  { version := 0, type, options := motvOptions p msem type n, metaRaw := metaRaw.setWidth 32,
    sequence := seqno, address, blocksize := BitVec.ofNat 32 n,
    hdcrc := if rawWithHdcrc motv then headerChecksum h motv seqno address n plcrc else 0,
    plcrc := if rawWithPlcrc motv then plcrc else 0 }

/-- The octets of an encoded header: no payload checksum goes without a header checksum. -/
theorem headerOctets_encodeHeader :
    headerOctets (encodeHeader h p msem type metaRaw seqno address n plcrc) =
      headerFront h (makeMotv p msem metaRaw type n) seqno address n
        ++ ((if rawWithHdcrc (makeMotv p msem metaRaw type n) then
              bfSetU16b h (headerChecksum h (makeMotv p msem metaRaw type n) seqno address n plcrc)
            else [])
          ++ if rawWithPlcrc (makeMotv p msem metaRaw type n) then bfSetU16b h plcrc else []) := by
  unfold headerOctets encodeHeader
  simp only [rpHeaderMinSize16]
  have himp : rawWithPlcrc (makeMotv p msem metaRaw type n) = true →
      rawWithHdcrc (makeMotv p msem metaRaw type n) = true := by
    rw [rawWithPlcrc_makeMotv, rawWithHdcrc_makeMotv, decide_eq_true_iff, decide_eq_true_iff]
    exact And.left
  have hfront := length_headerFront h seqno address n (makeMotv p msem metaRaw type n)
  generalize makeMotv p msem metaRaw type n = motv at himp hfront ⊢
  rw [List.append_assoc]
  cases hp : rawWithPlcrc motv with
  | true =>
    rw [himp hp]
    refine List.take_of_length_le (le_of_eq ?_)
    simp [hfront]
  | false =>
    cases hh : rawWithHdcrc motv with
    | true =>
      simp only [if_true, Bool.false_eq_true, if_false, List.append_nil, ← List.append_assoc]
      exact List.take_left' (by simp [hfront])
    | false =>
      simp only [Bool.false_eq_true, if_false, List.append_nil]
      exact List.take_left' hfront

theorem length_headerOctets_encodeHeader :
    (headerOctets (encodeHeader h p msem type metaRaw seqno address n plcrc)).length =
      2 * headerWords (makeMotv p msem metaRaw type n) := by
  rw [headerOctets_encodeHeader, headerWords, rpHeaderMinSize16]
  simp only [List.length_append, length_headerFront]
  cases rawWithHdcrc (makeMotv p msem metaRaw type n) <;>
    cases rawWithPlcrc (makeMotv p msem metaRaw type n) <;> simp

theorem length_headerOctets_bounds :
    12 ≤ (headerOctets (encodeHeader h p msem type metaRaw seqno address n plcrc)).length ∧
    (headerOctets (encodeHeader h p msem type metaRaw seqno address n plcrc)).length ≤
      rpHeaderSize := by
  rw [length_headerOctets_encodeHeader, headerWords, rpHeaderMinSize16, rpHeaderSize,
    rpHeaderSize16]
  split <;> split <;> omega

/-- **An encoded header is the same on every host.** -/
theorem encodeHeader_host (h' : Host) :
    encodeHeader h p msem type metaRaw seqno address n plcrc =
      encodeHeader h' p msem type metaRaw seqno address n plcrc := by
  have h16 : bfSetU16b h = bfSetU16b h' := funext fun v => by rw [bfSetU16b_eq, bfSetU16b_eq]
  have h32 : bfSetU32b h = bfSetU32b h' := funext fun v => by rw [bfSetU32b_eq, bfSetU32b_eq]
  have hfront : headerFront h = headerFront h' := by
    unfold headerFront
    rw [h16, h32]
  have hcrc : headerChecksum h = headerChecksum h' := by
    funext motv seqno address n plcrc
    unfold headerChecksum ufwBufferCrc16ArcU16
    simp only [ufwCrc16ArcU16_octetWords, length_headerFront, length_bfSetU16b]
    rw [hfront, h16]
  unfold encodeHeader
  rw [hfront, hcrc, h16]

variable {h p msem type metaRaw seqno address n plcrc}

/-- What stands where, in memory that begins with an encoded header. -/
theorem slice_encodeHeader {raw : Mem Octet}
    (hraw : raw.slice 0 (2 * headerWords (makeMotv p msem metaRaw type n)) =
      headerOctets (encodeHeader h p msem type metaRaw seqno address n plcrc)) :
    raw.slice 0 12 = headerFront h (makeMotv p msem metaRaw type n) seqno address n ∧
    (rawWithHdcrc (makeMotv p msem metaRaw type n) = true → raw.slice 12 2 =
      bfSetU16b h (headerChecksum h (makeMotv p msem metaRaw type n) seqno address n plcrc)) ∧
    (rawWithPlcrc (makeMotv p msem metaRaw type n) = true →
      rawWithHdcrc (makeMotv p msem metaRaw type n) = true ∧
      raw.slice 14 2 = bfSetU16b h plcrc) := by
  rw [headerOctets_encodeHeader] at hraw
  obtain ⟨h1, h2⟩ := Mem.slice_append_inv hraw
  obtain ⟨h3, h4⟩ := Mem.slice_append_inv h2
  rw [length_headerFront] at h1 h3 h4
  refine ⟨h1, fun hh => ?_, fun hp => ?_⟩
  · rwa [if_pos hh, length_bfSetU16b] at h3
  · have hh : rawWithHdcrc (makeMotv p msem metaRaw type n) = true := by
      rw [rawWithPlcrc_makeMotv, decide_eq_true_iff] at hp
      rw [rawWithHdcrc_makeMotv, decide_eq_true_iff]
      exact hp.1
    refine ⟨hh, ?_⟩
    rwa [if_pos hh, if_pos hp, length_bfSetU16b, length_bfSetU16b] at h4

/-- The words of an encoded header, as the parser reads them. -/
theorem read_encodeHeader {raw : Mem Octet}
    (hraw : raw.slice 0 (2 * headerWords (makeMotv p msem metaRaw type n)) =
      headerOctets (encodeHeader h p msem type metaRaw seqno address n plcrc)) :
    headerMotv h raw = makeMotv p msem metaRaw type n ∧ (readU16b h raw 1).val = seqno ∧
    (readU32b h raw 2).val = address ∧ (readU32b h raw 4).val = BitVec.ofNat 32 n := by
  obtain ⟨h1, -, -⟩ := slice_encodeHeader hraw
  obtain ⟨h2, hn⟩ := Mem.slice_append_inv h1
  obtain ⟨h3, haddr⟩ := Mem.slice_append_inv h2
  obtain ⟨hmotv, hseq⟩ := Mem.slice_append_inv h3
  simp only [List.length_append, length_bfSetU16b, length_bfSetU32b] at hmotv hseq haddr hn
  refine ⟨?_, ?_, ?_, ?_⟩
  · exact (congrArg (bfRefU16b h) hmotv).trans (bfRefU16b_bfSetU16b h _)
  · exact (congrArg (bfRefU16b h) hseq).trans (bfRefU16b_bfSetU16b h _)
  · exact (congrArg (bfRefU32b h) haddr).trans (bfRefU32b_bfSetU32b h _)
  · exact (congrArg (bfRefU32b h) hn).trans (bfRefU32b_bfSetU32b h _)

variable (p msem metaRaw type n) in
/-- The nibbles of an encoded header's first word. -/
theorem bitGet_makeMotv :
    bitGet (makeMotv p msem metaRaw type n) 4 0 = 0 ∧
    bitGet (makeMotv p msem metaRaw type n) 4 4 = (type.code.setWidth 4).setWidth 16 ∧
    (bitGet (makeMotv p msem metaRaw type n) 4 8).setWidth 8 = motvOptions p msem type n ∧
    bitGet (makeMotv p msem metaRaw type n) 4 12 = (metaRaw.setWidth 4).setWidth 16 := by
  rw [makeMotv_eq]
  obtain ⟨h1, h2, h3, h4⟩ := bitGet_nibbles 0 (type.code.setWidth 4)
    ((motvOptions p msem type n).setWidth 4) (metaRaw.setWidth 4)
  refine ⟨h1, h2, ?_, h4⟩
  rw [h3, motvOptions_setWidth, BitVec.setWidth_setWidth_of_le _ (by decide), BitVec.setWidth_eq]

/-- **An encoded header is parsed back, field by field**, where its type exists and its meta field
    is one its type may have. -/
theorem parseHeader_encodeHeader {raw : Mem Octet} {k : Nat} (header₀ : RPHeader)
    (hraw : raw.slice 0 (2 * headerWords (makeMotv p msem metaRaw type n)) =
      headerOctets (encodeHeader h p msem type metaRaw seqno address n plcrc))
    (hk : 2 * headerWords (makeMotv p msem metaRaw type n) ≤ k)
    (htype : RPFrameType.ofCode ((type.code.setWidth 4).setWidth 16) = type)
    (hmeta : (metaRaw.setWidth 4).setWidth 16 = metaRaw)
    (hvalid : metaValid type (metaRaw.setWidth 32) = true) :
    (parseHeader h header₀ raw k).val =
      (encodedHeader h p msem type metaRaw seqno address n plcrc,
        .ok (headerWords (makeMotv p msem metaRaw type n))) := by
  obtain ⟨hfront, hhd, hpl⟩ := slice_encodeHeader hraw
  obtain ⟨hmotv, hseq, haddr, hn⟩ := read_encodeHeader hraw
  obtain ⟨b1, b2, b3, b4⟩ := bitGet_makeMotv p msem type metaRaw n
  rw [parseHeader_ok_iff]
  have hread12 : rawWithHdcrc (makeMotv p msem metaRaw type n) = true → (readU16b h raw 6).val =
      headerChecksum h (makeMotv p msem metaRaw type n) seqno address n plcrc := fun hh =>
    (congrArg (bfRefU16b h) (hhd hh)).trans (bfRefU16b_bfSetU16b h _)
  refine
    { off_eq := by rw [hmotv], size := hk
      version := rfl, version_eq := by rw [hmotv, b1]
      type := by rw [hmotv, b2, htype]; rfl
      options := by rw [hmotv, b3]; rfl
      options_ok := ?_
      metaRaw := by rw [hmotv, b4, hmeta]; rfl
      meta_ok := hvalid
      sequence := hseq.symm, address := haddr.symm, blocksize := hn.symm
      hdcrc := ?_, hdcrc_ok := ?_, plcrc := ?_ }
  · have hlt := (getLsbD_motvOptions p msem type n).2.2.2
    have hbit : (motvOptions p msem type n).getLsbD 3 = false := Nat.testBit_lt_two_pow hlt
    show motvOptions p msem type n &&& BitVec.twoPow 8 3 = 0
    rw [BitVec.and_twoPow, hbit]
    rfl
  · rw [hmotv]
    show (if rawWithHdcrc _ = true then _ else _) = _
    split
    · rename_i hh
      exact (hread12 hh).symm
    · rfl
  · rw [hmotv]
    intro hh
    have hcrc : (readCrcU16 h crc16ArcInitial raw 0 6).val = ufwBufferCrc16ArcU16 h
        (octetWords h (headerFront h (makeMotv p msem metaRaw type n) seqno address n)) :=
      congrArg (fun l => ufwCrc16ArcU16 h crc16ArcInitial (octetWords h l)) hfront
    show headerCrc h raw _ = if rawWithHdcrc _ = true then _ else _
    rw [if_pos hh]
    unfold headerCrc headerChecksum
    rw [hcrc]
    split
    · rename_i hp
      exact congrArg (fun l => ufwCrc16ArcU16 h _ (octetWords h l)) (hpl hp).2
    · rfl
  · rw [hmotv]
    show (if rawWithPlcrc _ = true then _ else _) = _
    split
    · rename_i hp
      obtain ⟨hh, hslice⟩ := hpl hp
      have hlast : headerWords (makeMotv p msem metaRaw type n) - 1 = 7 := by
        rw [headerWords, hh, hp]
        rfl
      rw [hlast]
      exact ((congrArg (bfRefU16b h) hslice).trans (bfRefU16b_bfSetU16b h plcrc)).symm
    · rfl

/-- **A header whose meta field its type may not have is refused.** -/
theorem parseHeader_badMeta {raw : Mem Octet} {k : Nat} (header₀ : RPHeader)
    (hraw : raw.slice 0 (2 * headerWords (makeMotv p msem metaRaw type n)) =
      headerOctets (encodeHeader h p msem type metaRaw seqno address n plcrc))
    (htype : RPFrameType.ofCode ((type.code.setWidth 4).setWidth 16) = type)
    (hmeta : (metaRaw.setWidth 4).setWidth 16 = metaRaw)
    (hinvalid : metaValid type (metaRaw.setWidth 32) = false) :
    (parseHeader h header₀ raw k).val.2 = .error .ebadmsg := by
  obtain ⟨hmotv, -, -, -⟩ := read_encodeHeader hraw
  obtain ⟨-, b2, -, b4⟩ := bitGet_makeMotv p msem type metaRaw n
  unfold parseHeader
  split
  · rfl
  · simp only [Reads.val_bind]
    split
    · rfl
    · split
      · rfl
      · have hbad : metaValid (.ofCode (bitGet (readU16b h raw 0).val 4 4))
            ((bitGet (readU16b h raw 0).val 4 12).setWidth 32) = false := by
          rw [show (readU16b h raw 0).val = _ from hmotv, b2, b4, htype, hmeta, hinvalid]
        rw [if_pos hbad]
        rfl

end RoundTrip
end Ufw
