/-
  File:      Ufw/VariableLengthInteger.lean
  Subject:   VARIABLE LENGTH INTEGERS (variable-length-integer.c): seven bits in each octet, least
             significant first; the top bit of an octet says that another one follows.

  * `varintEncode`, `varintFromSource` -- the encoder and the decoder that reads a source;
  * `VarintString`, `varintValue` -- the octets of a number, and what a decoder makes of them;
  * `varintU64FromSource_delivers` -- **the decoder reads an encoded number back, and reads
    nothing behind it.**
-/
import Ufw.Endpoints.Transfers

namespace Ufw

open Base

variable {σ : Type}

/-! ## 1. The code -/

/-- `VARINT_CONTINUATION_MASK` -/
def varintContinuationMask : Octet := 0x80

/-- `VARINT_DATA_MASK` -/
def varintDataMask : Octet := 0x7f

/-- `VARINT_DATA_BITS` -/
def varintDataBits : Nat := 7

/-- `VARINT_64BIT_MAX_OCTETS` -/
def varint64BitMaxOctets : Nat := 10

/-- `varint_done` -/
def varintDone (octet : Octet) : Bool := octet &&& varintContinuationMask == 0

/-- `varint_encode`: the octets of `n`, a `uint64_t`. -/
def varintEncode (n : Nat) : List Octet :=
  let octet := BitVec.ofNat 8 n &&& varintDataMask
  let n' := n >>> varintDataBits
  if n' = 0 then [octet] else (octet ||| varintContinuationMask) :: varintEncode n'
termination_by n
decreasing_by
  rename_i hn
  have h128 : n >>> varintDataBits = n / 128 := by
    rw [varintDataBits, Nat.shiftRight_eq_div_pow]
  change n >>> varintDataBits ≠ 0 at hn
  rw [h128] at hn ⊢
  omega

/-- The loop of `varint_from_source`: `left` octets may follow, `i` are read. Where the source
    answers 0, the octet is not initialised. -/
def varintFromSourceLoop (h : Host) :
    Nat → Nat → BitVec 64 → Source σ → Rc × BitVec 64 × Source σ
  | 0, _, n, source => (.error .eilseq, n, source)
  | left + 1, i, n, source =>
    match sourceGetOctet source with
    | (.error e, source) => (.error e, n, source)
    | (.ok data, source) =>
      let data := data.getD h.indeterminate
      let bits := data &&& varintDataMask
      let n := n ||| (bits.setWidth 64 <<< (i * varintDataBits))
      if varintDone data then (.ok (i + 1), n, source)
      else varintFromSourceLoop h left (i + 1) n source

/-- `varint_from_source` -/
def varintFromSource (h : Host) (source : Source σ) (maxoctets : Nat) :
    Rc × BitVec 64 × Source σ :=
  varintFromSourceLoop h maxoctets 0 0 source

/-- `varint_u64_from_source` -/
def varintU64FromSource (h : Host) (source : Source σ) : Rc × BitVec 64 × Source σ :=
  varintFromSource h source varint64BitMaxOctets

/-! ## 2. Octets -/

theorem shiftRight_dataBits (n : Nat) : n >>> varintDataBits = n / 128 := by
  rw [varintDataBits, Nat.shiftRight_eq_div_pow]

theorem varintEncode_eq (n : Nat) :
    varintEncode n =
      if n / 128 = 0 then [BitVec.ofNat 8 n &&& varintDataMask]
      else ((BitVec.ofNat 8 n &&& varintDataMask) ||| varintContinuationMask) ::
        varintEncode (n / 128) := by
  conv => lhs; unfold varintEncode
  simp only [shiftRight_dataBits]

/-- An octet of a number carries its seven low bits. -/
theorem toNat_dataBits (n : Nat) : (BitVec.ofNat 8 n &&& varintDataMask).toNat = n % 128 := by
  rw [BitVec.toNat_and, BitVec.toNat_ofNat, show varintDataMask.toNat = 2 ^ 7 - 1 by decide,
    Nat.and_two_pow_sub_one_eq_mod]
  omega

/-- Neither the mask nor the continuation bit changes the data bits. -/
theorem dataBits_masked (o : Octet) : (o &&& varintDataMask) &&& varintDataMask =
    o &&& varintDataMask := by
  rw [BitVec.and_assoc, BitVec.and_self]

theorem dataBits_continued (o : Octet) :
    ((o &&& varintDataMask) ||| varintContinuationMask) &&& varintDataMask =
      o &&& varintDataMask := by
  have h0 : varintContinuationMask &&& varintDataMask = 0#8 := by decide
  rw [BitVec.and_comm, BitVec.and_or_distrib_left, BitVec.and_comm _ varintContinuationMask, h0,
    BitVec.or_zero, BitVec.and_comm, dataBits_masked]

theorem varintDone_masked (o : Octet) : varintDone (o &&& varintDataMask) = true := by
  have h0 : varintDataMask &&& varintContinuationMask = 0#8 := by decide
  unfold varintDone
  rw [BitVec.and_assoc, h0, BitVec.and_zero]
  rfl

theorem varintDone_continued (o : Octet) :
    varintDone ((o &&& varintDataMask) ||| varintContinuationMask) = false := by
  have h0 : varintDataMask &&& varintContinuationMask = 0#8 := by decide
  unfold varintDone
  rw [BitVec.and_comm, BitVec.and_or_distrib_left, BitVec.and_comm _ (o &&& varintDataMask),
    BitVec.and_assoc, h0, BitVec.and_zero, BitVec.zero_or, BitVec.and_self]
  decide

theorem length_varintEncode_le (k n : Nat) (h : n < 128 ^ (k + 1)) :
    (varintEncode n).length ≤ k + 1 := by
  induction k generalizing n with
  | zero =>
    rw [varintEncode_eq, if_pos (by omega)]
    exact le_refl 1
  | succ k ih =>
    rw [varintEncode_eq]
    split
    · simp
    · have hn : n / 128 < 128 ^ (k + 1) := by
        rw [Nat.div_lt_iff_lt_mul (by decide), ← Nat.pow_succ]
        exact h
      rw [List.length_cons]
      exact Nat.succ_le_succ (ih _ hn)

/-- What the octets read so far and those of the rest of the number add up to. -/
theorem toNat_or_dataBits {acc : BitVec 64} {i n : Nat} {bits : Octet}
    (hbits : bits.toNat = n % 128) (hacc : acc.toNat < 2 ^ (7 * i))
    (hn : n * 2 ^ (7 * i) < 2 ^ 64) :
    (acc ||| (bits.setWidth 64 <<< (i * varintDataBits))).toNat =
      acc.toNat + (n % 128) * 2 ^ (7 * i) := by
  have hle : (n % 128) * 2 ^ (7 * i) ≤ n * 2 ^ (7 * i) :=
    Nat.mul_le_mul_right _ (Nat.mod_le n 128)
  have hb : bits.toNat < 2 ^ 64 := Nat.lt_of_lt_of_le bits.isLt (by decide)
  rw [BitVec.toNat_or, BitVec.toNat_shiftLeft, BitVec.toNat_setWidth, Nat.mod_eq_of_lt hb,
    varintDataBits, Nat.shiftLeft_eq, hbits, Nat.mul_comm i 7, Nat.mod_eq_of_lt (by omega),
    Nat.or_comm, Nat.mul_comm (n % 128), ← Nat.two_pow_add_eq_or_of_lt hacc, Nat.add_comm]

/-! ## 3. Strings of octets -/

/-- The octets of a number: all but the last one say that another one follows. -/
inductive VarintString : List Octet → Prop
  | last {o : Octet} (hdone : varintDone o = true) : VarintString [o]
  | more {o : Octet} {l : List Octet} (hmore : varintDone o = false) (rest : VarintString l) :
      VarintString (o :: l)

/-- What a decoder makes of octets, from octet `i` of the number on. -/
def varintValue : Nat → BitVec 64 → List Octet → BitVec 64
  | _, n, [] => n
  | i, n, o :: l =>
    varintValue (i + 1) (n ||| ((o &&& varintDataMask).setWidth 64 <<< (i * varintDataBits))) l

theorem varintString_encode (n : Nat) : VarintString (varintEncode n) := by
  rw [varintEncode_eq]
  split
  · exact .last (varintDone_masked _)
  · exact .more (varintDone_continued _) (varintString_encode (n / 128))
termination_by n
decreasing_by omega

/-- **The octets of a number add up to it.** -/
theorem varintValue_encode (n : Nat) {i : Nat} {acc : BitVec 64} (hacc : acc.toNat < 2 ^ (7 * i))
    (hn : acc.toNat + n * 2 ^ (7 * i) < 2 ^ 64) :
    varintValue i acc (varintEncode n) = BitVec.ofNat 64 (acc.toNat + n * 2 ^ (7 * i)) := by
  have hor := toNat_or_dataBits (toNat_dataBits n) hacc (by omega)
  rw [varintEncode_eq]
  split
  · -- the last octet
    have hmod : n % 128 = n := by omega
    rw [varintValue, varintValue, dataBits_masked]
    apply BitVec.eq_of_toNat_eq
    rw [hor, BitVec.toNat_ofNat, hmod, Nat.mod_eq_of_lt hn]
  · have hpow : 2 ^ (7 * (i + 1)) = 128 * 2 ^ (7 * i) := by
      rw [Nat.mul_succ, Nat.pow_add, Nat.mul_comm]
    -- the seven bits read here and the rest of the number are the number
    have hsum : acc.toNat + n % 128 * 2 ^ (7 * i) + n / 128 * 2 ^ (7 * (i + 1)) =
        acc.toNat + n * 2 ^ (7 * i) := by
      rw [hpow, ← Nat.mul_assoc, Nat.add_assoc, ← Nat.add_mul]
      congr 2
      omega
    have hlt : acc.toNat + n % 128 * 2 ^ (7 * i) < 2 ^ (7 * (i + 1)) := by
      have h1 : n % 128 * 2 ^ (7 * i) ≤ 127 * 2 ^ (7 * i) :=
        Nat.mul_le_mul_right _ (by omega)
      omega
    have he := varintValue_encode (n / 128) (i := i + 1) (by rw [hor]; exact hlt)
      (by rw [hor, hsum]; exact hn)
    rw [hor, hsum] at he
    rw [varintValue, dataBits_continued, he]
termination_by n
decreasing_by omega

theorem varintValue_encode_zero {n : Nat} (hn : n < 2 ^ 64) :
    varintValue 0 0 (varintEncode n) = BitVec.ofNat 64 n := by
  have hacc : (0 : BitVec 64).toNat < 2 ^ (7 * 0) := by decide
  rw [varintValue_encode n hacc (by simpa using hn)]
  simp

/-- **The decoder takes a string of octets off the source**, and nothing behind it. -/
theorem varintFromSourceLoop_delivers (h : Host) {l : List Octet} (hl : VarintString l)
    {left i : Nat} {acc : BitVec 64} {source source' : Source σ} (hs : source.Delivers l source')
    (hleft : l.length ≤ left) :
    varintFromSourceLoop h left i acc source = (.ok (i + l.length), varintValue i acc l,
      source') := by
  induction hl generalizing left i acc source with
  | last hdone =>
    obtain ⟨left, rfl⟩ : ∃ k, left = k + 1 := ⟨left - 1, by simp at hleft; omega⟩
    cases hs with
    | cons get rest =>
      cases rest
      simp only [varintFromSourceLoop, get, Option.getD_some, hdone, if_true]
      rfl
  | more hmore _ ih =>
    obtain ⟨left, rfl⟩ : ∃ k, left = k + 1 := ⟨left - 1, by simp at hleft; omega⟩
    cases hs with
    | cons get rest =>
      simp only [varintFromSourceLoop, get, Option.getD_some, hmore, Bool.false_eq_true, if_false]
      rw [ih rest (by simpa using hleft), List.length_cons, Nat.add_assoc, Nat.add_comm 1]
      rfl

/-- **An encoded number is read back, and nothing behind it is read.** -/
theorem varintU64FromSource_delivers (h : Host) {n : Nat} (hn : n < 2 ^ 64)
    {source source' : Source σ} (hs : source.Delivers (varintEncode n) source') :
    varintU64FromSource h source = (.ok (varintEncode n).length, BitVec.ofNat 64 n, source') := by
  have hlen : (varintEncode n).length ≤ varint64BitMaxOctets :=
    length_varintEncode_le 9 n (lt_of_lt_of_le hn (by decide))
  rw [varintU64FromSource, varintFromSource,
    varintFromSourceLoop_delivers h (varintString_encode n) hs hlen, varintValue_encode_zero hn,
    Nat.zero_add]

end Ufw
