/-
  File:      Ufw/BinaryFormat/Widths.lean
  Subject:   THE BINARY FORMAT, ALL WIDTHS. Signed and unsigned integers of 16 to 64 bits, those of
             24, 40, 48 and 56 bits in the next larger word; and fields written behind one another.

  * `BfWidth` -- a width, with the functions the source has for it;
  * `bfRefU`, `bfSetU`, `bfRefS` -- the accessors, at a width and an octet order;
  * `bfRefU_bfSetU`, `bfRefS_bfSetS` -- what comes back is the low octets, zero or sign extended;
  * `bfLoad_bfStore` -- **fields written on one host are read on any other, exactly where their
    values are in the range of their widths.**
-/
import Ufw.BinaryFormat
import Ufw.BitOperations
import Ufw.Base.Memory

namespace Ufw

open Base

/-! ## 1. Swaps, signs and ranges -/

/-- `bf_swap24` -/
def bfSwap24 (value : BitVec 32) : BitVec 32 :=
  ((value &&& 0xff0000#32) >>> 16) ||| (value &&& 0x00ff00#32)
    ||| ((value &&& 0x0000ff#32) <<< 16)

/-- `bf_swap40` -/
def bfSwap40 (value : BitVec 64) : BitVec 64 :=
  ((value &&& 0xff00000000#64) >>> 32) ||| ((value &&& 0x00ff000000#64) >>> 16)
    ||| (value &&& 0x0000ff0000#64) ||| ((value &&& 0x000000ff00#64) <<< 16)
    ||| ((value &&& 0x00000000ff#64) <<< 32)

/-- `bf_swap48` -/
def bfSwap48 (value : BitVec 64) : BitVec 64 :=
  ((value &&& 0xff0000000000#64) >>> 40) ||| ((value &&& 0x00ff00000000#64) >>> 24)
    ||| ((value &&& 0x0000ff000000#64) >>> 8) ||| ((value &&& 0x000000ff0000#64) <<< 8)
    ||| ((value &&& 0x00000000ff00#64) <<< 24) ||| ((value &&& 0x0000000000ff#64) <<< 40)

/-- `bf_swap56` -/
def bfSwap56 (value : BitVec 64) : BitVec 64 :=
  ((value &&& 0xff000000000000#64) >>> 48) ||| ((value &&& 0x00ff0000000000#64) >>> 32)
    ||| ((value &&& 0x0000ff00000000#64) >>> 16) ||| (value &&& 0x000000ff000000#64)
    ||| ((value &&& 0x00000000ff0000#64) <<< 16) ||| ((value &&& 0x0000000000ff00#64) <<< 32)
    ||| ((value &&& 0x000000000000ff#64) <<< 48)

/-- `BITLL_ONES` -/
def bitllOnes (n o : Nat) : BitVec 64 := (~~~0#64 >>> (64 - n)) <<< o

/-- `BITL_ONES`, in a `uint32_t`. -/
def bitlOnes (n o : Nat) : BitVec 32 := (bitllOnes n o).setWidth 32

/-- The sign of a value of `bits` bits, spread over the `ones` above it. -/
def spreadSign {w : Nat} (bits : Nat) (ones value : BitVec w) : BitVec w :=
  if bitIsset value (BitVec.twoPow w (bits - 1)) then value ||| ones else value

/-- `bf_inrange_u24` … `bf_inrange_u56` -/
def bfInrangeU {w : Nat} (bits : Nat) (value : BitVec w) : Bool := value.ult (1#w <<< bits)

/-- `bf_inrange_s24` … `bf_inrange_s56` -/
def bfInrangeS {w : Nat} (bits : Nat) (value : BitVec w) : Bool :=
  let a := 1#w <<< (bits - 1)
  (-1#w * a).sle value && value.slt a

/-- A swap turns the low octets of a word around, and leaves nothing above them. -/
theorem bfSwap24_eq (v : BitVec 32) : bfSwap24 v = ofOctets 32 (toOctets 3 v).reverse := by
  apply BitVec.eq_of_getLsbD_eq
  intro i hi
  rw [getLsbD_ofOctets_turned 3 v i hi, bfSwap24]
  interval_cases i <;> simp

theorem bfSwap40_eq (v : BitVec 64) : bfSwap40 v = ofOctets 64 (toOctets 5 v).reverse := by
  apply BitVec.eq_of_getLsbD_eq
  intro i hi
  rw [getLsbD_ofOctets_turned 5 v i hi, bfSwap40]
  interval_cases i <;> simp

theorem bfSwap48_eq (v : BitVec 64) : bfSwap48 v = ofOctets 64 (toOctets 6 v).reverse := by
  apply BitVec.eq_of_getLsbD_eq
  intro i hi
  rw [getLsbD_ofOctets_turned 6 v i hi, bfSwap48]
  interval_cases i <;> simp

theorem bfSwap56_eq (v : BitVec 64) : bfSwap56 v = ofOctets 64 (toOctets 7 v).reverse := by
  apply BitVec.eq_of_getLsbD_eq
  intro i hi
  rw [getLsbD_ofOctets_turned 7 v i hi, bfSwap56]
  interval_cases i <;> simp

section Signs

variable {w bits : Nat}

/-- **The ones above a value extend its sign.** -/
theorem spreadSign_eq (hpos : 0 < bits) (hbits : bits ≤ w) {ones : BitVec w}
    (hones : ∀ i, ones.getLsbD i = (decide (bits ≤ i) && decide (i < w))) {v : BitVec w}
    (hv : v.toNat < 2 ^ bits) : spreadSign bits ones v = (v.setWidth bits).signExtend w := by
  have hhigh : ∀ i, bits ≤ i → v.getLsbD i = false := fun i hi =>
    Nat.testBit_lt_two_pow (Nat.lt_of_lt_of_le hv (Nat.pow_le_pow_right (by decide) hi))
  have hmsb : (v.setWidth bits).msb = v.getLsbD (bits - 1) := by
    rw [BitVec.msb_eq_getLsbD_last, BitVec.getLsbD_setWidth]
    simp [hpos]
  apply BitVec.eq_of_getLsbD_eq
  intro i hi
  rw [BitVec.getLsbD_signExtend, hmsb, BitVec.getLsbD_setWidth]
  unfold spreadSign
  rw [bitIsset_twoPow (by omega)]
  cases hsign : v.getLsbD (bits - 1) with
  | false =>
    by_cases hlow : i < bits
    · simp [hi, hlow]
    · simp [hlow, hhigh i (by omega)]
  | true =>
    rw [if_pos rfl, BitVec.getLsbD_or, hones]
    by_cases hlow : i < bits
    · simp [hi, hlow]
    · simp [hi, hlow, Nat.le_of_not_lt hlow]

/-- The ones from bit `o` on. -/
theorem getLsbD_bitllOnes (n o i : Nat) (h : n + o = 64) :
    (bitllOnes n o).getLsbD i = (decide (o ≤ i) && decide (i < 64)) := by
  unfold bitllOnes
  rw [BitVec.getLsbD_shiftLeft, BitVec.getLsbD_ushiftRight, BitVec.getLsbD_not, BitVec.getLsbD_zero]
  by_cases hi : i < 64
  · by_cases ho : o ≤ i
    · have hin : 64 - n + (i - o) < 64 := by omega
      simp [hi, ho, hin]
    · simp [hi, ho]
  · simp [hi]

theorem getLsbD_bitlOnes (n o i : Nat) (h : n + o = 32) :
    (bitlOnes n o).getLsbD i = (decide (o ≤ i) && decide (i < 32)) := by
  unfold bitlOnes bitllOnes
  rw [BitVec.getLsbD_setWidth, BitVec.getLsbD_shiftLeft, BitVec.getLsbD_ushiftRight,
    BitVec.getLsbD_not, BitVec.getLsbD_zero]
  by_cases hi : i < 32
  · by_cases ho : o ≤ i
    · have hin : 64 - n + (i - o) < 64 := by omega
      simp [hi, ho, hin, Nat.lt_trans hi (show 32 < 64 by decide)]
    · simp [hi, ho]
  · simp [hi]

theorem bfInrangeU_iff (hbits : bits < w) (v : BitVec w) :
    bfInrangeU bits v = true ↔ v.toNat < 2 ^ bits := by
  unfold bfInrangeU
  rw [BitVec.ult_iff_lt, BitVec.lt_def, ← BitVec.twoPow_eq, BitVec.toNat_twoPow_of_lt hbits]

theorem bfInrangeS_iff (hpos : 0 < bits) (hbits : bits < w) (v : BitVec w) :
    bfInrangeS bits v = true ↔ -2 ^ (bits - 1) ≤ v.toInt ∧ v.toInt < 2 ^ (bits - 1) := by
  have hmsb : (BitVec.twoPow w (bits - 1)).msb = false := by
    rw [BitVec.msb_twoPow]
    have hne : ¬bits - 1 = w - 1 := by omega
    simp [hne]
  have ha : (BitVec.twoPow w (bits - 1)).toInt = 2 ^ (bits - 1) := by
    rw [BitVec.toInt_twoPow, if_neg (by omega), if_neg (by omega)]
  unfold bfInrangeS
  simp only [← BitVec.twoPow_eq]
  rw [Bool.and_eq_true, BitVec.sle_iff_toInt_le, BitVec.slt_iff_toInt_lt,
    ← BitVec.neg_eq_neg_one_mul, BitVec.toInt_neg_eq_of_msb hmsb, ha]

/-- **A value is what its low bits extend to, exactly where it is in their range.** -/
theorem signExtend_setWidth_eq_iff (hpos : 0 < bits) (hbits : bits ≤ w) (v : BitVec w) :
    (v.setWidth bits).signExtend w = v ↔
      -2 ^ (bits - 1) ≤ v.toInt ∧ v.toInt < 2 ^ (bits - 1) := by
  have hback : ((v.setWidth bits).signExtend w).toInt = v.toInt.bmod (2 ^ bits) := by
    rw [BitVec.toInt_signExtend_of_le hbits, ← BitVec.signExtend_eq_setWidth_of_le v hbits,
      BitVec.toInt_signExtend_eq_toInt_bmod_of_le v hbits]
  obtain ⟨c, rfl⟩ : ∃ c, bits = c + 1 := ⟨bits - 1, by omega⟩
  have hhalf : (((2 ^ (c + 1) : Nat)) : Int) = 2 * 2 ^ c := by
    rw [Nat.pow_succ]
    push_cast
    exact Int.mul_comm _ _
  rw [← BitVec.toInt_inj, hback, Int.bmod_eq_iff (Nat.two_pow_pos _), hhalf, Nat.add_sub_cancel,
    Int.sub_self]
  have hdvd : (2 * 2 ^ c : Int) ∣ 0 := Int.dvd_zero _
  generalize (2 : Int) ^ c = a at hdvd ⊢
  omega

/-- The low bits stay the same. -/
theorem low_signExtend (hbits : bits ≤ w) (v : BitVec w) :
    ((v.setWidth bits).signExtend w).toNat % 2 ^ bits = v.toNat % 2 ^ bits := by
  have hlow : ((v.setWidth bits).signExtend w).setWidth bits = v.setWidth bits := by
    apply BitVec.eq_of_getLsbD_eq
    intro i hi
    rw [BitVec.getLsbD_setWidth, BitVec.getLsbD_signExtend]
    simp [hi, Nat.lt_of_lt_of_le hi hbits]
  rw [← BitVec.toNat_setWidth, hlow, BitVec.toNat_setWidth]

end Signs

/-! ## 2. Widths -/

/-- **A width**: so many octets, in a word of `size` octets; with the functions the source has for
    it, and what they compute. -/
structure BfWidth where
  octets : Nat
  size : Nat
  container : Nat
  swap : BitVec container → BitVec container
  /-- What a signed accessor makes of the word an unsigned one has read. -/
  extend : BitVec container → BitVec container
  inrangeU : BitVec container → Bool
  inrangeS : BitVec container → Bool
  octets_pos : 0 < octets
  octets_le : octets ≤ size
  container_eq : container = 8 * size
  swap_eq : ∀ v, swap v = ofOctets container (toOctets octets v).reverse
  extend_eq : ∀ v, v.toNat < 2 ^ (8 * octets) →
    extend v = (v.setWidth (8 * octets)).signExtend container
  inrangeU_iff : ∀ v, inrangeU v = true ↔ v.toNat < 2 ^ (8 * octets)
  inrangeS_iff : ∀ v, inrangeS v = true ↔
    -2 ^ (8 * octets - 1) ≤ v.toInt ∧ v.toInt < 2 ^ (8 * octets - 1)

/-- The word itself: every value is in range, and a union gives it its sign. -/
def BfWidth.whole (octets w : Nat) (swap : BitVec w → BitVec w) (hpos : 0 < octets)
    (hw : w = 8 * octets) (hswap : ∀ v, swap v = ofOctets w (toOctets octets v).reverse) :
    BfWidth where
  octets
  size := octets
  container := w
  swap
  extend v := v
  inrangeU _ := true
  inrangeS _ := true
  octets_pos := hpos
  octets_le := Nat.le_refl _
  container_eq := hw
  swap_eq := hswap
  extend_eq v _ := by
    subst hw
    rw [BitVec.setWidth_eq, BitVec.signExtend_eq]
  inrangeU_iff v := by
    subst hw
    exact iff_of_true rfl v.isLt
  inrangeS_iff v := by
    subst hw
    exact iff_of_true rfl ((signExtend_setWidth_eq_iff (by omega) (Nat.le_refl _) v).mp
      (by rw [BitVec.setWidth_eq, BitVec.signExtend_eq]))

/-- A part of a word: `ones` are those above it. -/
def BfWidth.part (octets size w : Nat) (swap : BitVec w → BitVec w) (ones : BitVec w)
    (hpos : 0 < octets) (hlt : octets < size) (hw : w = 8 * size)
    (hswap : ∀ v, swap v = ofOctets w (toOctets octets v).reverse)
    (hones : ∀ i, ones.getLsbD i = (decide (8 * octets ≤ i) && decide (i < w))) : BfWidth where
  octets
  size
  container := w
  swap
  extend := spreadSign (8 * octets) ones
  inrangeU := bfInrangeU (8 * octets)
  inrangeS := bfInrangeS (8 * octets)
  octets_pos := hpos
  octets_le := Nat.le_of_lt hlt
  container_eq := hw
  swap_eq := hswap
  extend_eq v hv := spreadSign_eq (by omega) (by omega) hones hv
  inrangeU_iff := bfInrangeU_iff (by omega)
  inrangeS_iff := bfInrangeS_iff (by omega) (by omega)

def bfWidth16 : BfWidth := .whole 2 16 bfSwap16 (by decide) rfl bfSwap16_eq
def bfWidth32 : BfWidth := .whole 4 32 bfSwap32 (by decide) rfl bfSwap32_eq
def bfWidth64 : BfWidth := .whole 8 64 bfSwap64 (by decide) rfl bfSwap64_eq

def bfWidth24 : BfWidth :=
  .part 3 4 32 bfSwap24 (bitlOnes 8 24) (by decide) (by decide) rfl bfSwap24_eq
    fun i => getLsbD_bitlOnes 8 24 i rfl
def bfWidth40 : BfWidth :=
  .part 5 8 64 bfSwap40 (bitllOnes 24 40) (by decide) (by decide) rfl bfSwap40_eq
    fun i => getLsbD_bitllOnes 24 40 i rfl
def bfWidth48 : BfWidth :=
  .part 6 8 64 bfSwap48 (bitllOnes 16 48) (by decide) (by decide) rfl bfSwap48_eq
    fun i => getLsbD_bitllOnes 16 48 i rfl
def bfWidth56 : BfWidth :=
  .part 7 8 64 bfSwap56 (bitllOnes 8 56) (by decide) (by decide) rfl bfSwap56_eq
    fun i => getLsbD_bitllOnes 8 56 i rfl

/-! ## 3. Accessors -/

/-- The octet orders. -/
inductive BfOrder where
  | native
  | big
  | little

section Accessors

variable (h : Host) (k : BfWidth)

/-- Reading in native order: the octets are copied to the low end of a word of zeros. -/
def bfRefNative (ptr : List Octet) : BitVec k.container :=
  let zeros := List.replicate (k.size - k.octets) 0
  bfRefN h k.container (if h.bigEndian then zeros ++ ptr else ptr ++ zeros)

/-- Writing in native order: the octets are copied from the low end of the word. -/
def bfSetNative (value : BitVec k.container) : List Octet :=
  let src := bfSetN h k.size value
  if h.bigEndian then src.drop (k.size - k.octets) else src.take k.octets

/-- The accessors `bf_ref_u…`, at the octets `ptr`. -/
def bfRefU (ptr : List Octet) : BfOrder → BitVec k.container
  | .native => bfRefNative h k ptr
  | .big => if h.bigEndian then bfRefNative h k ptr else k.swap (bfRefNative h k ptr)
  | .little => if h.bigEndian then k.swap (bfRefNative h k ptr) else bfRefNative h k ptr

/-- The accessors `bf_ref_s…`. -/
def bfRefS (ptr : List Octet) (o : BfOrder) : BitVec k.container := k.extend (bfRefU h k ptr o)

/-- The accessors `bf_set_u…`; those of signed values, `bf_set_s…`, hand the same word on. -/
def bfSetU (value : BitVec k.container) : BfOrder → List Octet
  | .native => bfSetNative h k value
  | .big => bfSetNative h k (if h.bigEndian then value else k.swap value)
  | .little => bfSetNative h k (if h.bigEndian then k.swap value else value)

end Accessors

section Whole

variable (h : Host) (octets w : Nat) (swap : BitVec w → BitVec w) (hpos : 0 < octets)
  (hw : w = 8 * octets) (hswap : ∀ v, swap v = ofOctets w (toOctets octets v).reverse)

/-- **A width that is the whole word is read as the accessors of 16, 32 and 64 bits read it.** -/
theorem bfRefU_whole (ptr : List Octet) :
    bfRefU h (.whole octets w swap hpos hw hswap) ptr .native = bfRefN h w ptr ∧
      bfRefU h (.whole octets w swap hpos hw hswap) ptr .big = bfRefB h swap ptr ∧
      bfRefU h (.whole octets w swap hpos hw hswap) ptr .little = bfRefL h swap ptr := by
  have hnative : bfRefNative h (.whole octets w swap hpos hw hswap) ptr = bfRefN h w ptr := by
    simp [bfRefNative, BfWidth.whole]
  refine ⟨hnative, ?_, ?_⟩
  · unfold bfRefU bfRefB
    rw [hnative]
    rfl
  · unfold bfRefU bfRefL
    rw [hnative]
    rfl

/-- **And written as they write it.** -/
theorem bfSetU_whole (value : BitVec w) :
    bfSetU h (.whole octets w swap hpos hw hswap) value .native = bfSetN h octets value ∧
      bfSetU h (.whole octets w swap hpos hw hswap) value .big = bfSetB h octets swap value ∧
      bfSetU h (.whole octets w swap hpos hw hswap) value .little = bfSetL h octets swap value := by
  have hnative : ∀ value : BitVec w,
      bfSetNative h (.whole octets w swap hpos hw hswap) value = bfSetN h octets value := by
    intro value
    have htake : (bfSetN h octets value).take octets = bfSetN h octets value :=
      List.take_of_length_le (by rw [length_bfSetN])
    simp [bfSetNative, BfWidth.whole, htake]
  refine ⟨hnative value, ?_, ?_⟩
  · unfold bfSetU bfSetB
    cases hbe : h.bigEndian <;> exact hnative _
  · unfold bfSetU bfSetL
    cases hbe : h.bigEndian <;> exact hnative _

end Whole

/-! ### The accessors of the source

Those of 24, 40, 48 and 56 bits, and the signed ones; the unsigned ones of 16, 32 and 64 bits are
there already (`bfRefU_whole`, `bfSetU_whole`). -/

def bfRefU24n (h : Host) (ptr : List Octet) : BitVec 32 := bfRefU h bfWidth24 ptr .native
def bfRefU24b (h : Host) (ptr : List Octet) : BitVec 32 := bfRefU h bfWidth24 ptr .big
def bfRefU24l (h : Host) (ptr : List Octet) : BitVec 32 := bfRefU h bfWidth24 ptr .little
def bfRefU40n (h : Host) (ptr : List Octet) : BitVec 64 := bfRefU h bfWidth40 ptr .native
def bfRefU40b (h : Host) (ptr : List Octet) : BitVec 64 := bfRefU h bfWidth40 ptr .big
def bfRefU40l (h : Host) (ptr : List Octet) : BitVec 64 := bfRefU h bfWidth40 ptr .little
def bfRefU48n (h : Host) (ptr : List Octet) : BitVec 64 := bfRefU h bfWidth48 ptr .native
def bfRefU48b (h : Host) (ptr : List Octet) : BitVec 64 := bfRefU h bfWidth48 ptr .big
def bfRefU48l (h : Host) (ptr : List Octet) : BitVec 64 := bfRefU h bfWidth48 ptr .little
def bfRefU56n (h : Host) (ptr : List Octet) : BitVec 64 := bfRefU h bfWidth56 ptr .native
def bfRefU56b (h : Host) (ptr : List Octet) : BitVec 64 := bfRefU h bfWidth56 ptr .big
def bfRefU56l (h : Host) (ptr : List Octet) : BitVec 64 := bfRefU h bfWidth56 ptr .little
def bfRefS16n (h : Host) (ptr : List Octet) : BitVec 16 := bfRefS h bfWidth16 ptr .native
def bfRefS16b (h : Host) (ptr : List Octet) : BitVec 16 := bfRefS h bfWidth16 ptr .big
def bfRefS16l (h : Host) (ptr : List Octet) : BitVec 16 := bfRefS h bfWidth16 ptr .little
def bfRefS24n (h : Host) (ptr : List Octet) : BitVec 32 := bfRefS h bfWidth24 ptr .native
def bfRefS24b (h : Host) (ptr : List Octet) : BitVec 32 := bfRefS h bfWidth24 ptr .big
def bfRefS24l (h : Host) (ptr : List Octet) : BitVec 32 := bfRefS h bfWidth24 ptr .little
def bfRefS32n (h : Host) (ptr : List Octet) : BitVec 32 := bfRefS h bfWidth32 ptr .native
def bfRefS32b (h : Host) (ptr : List Octet) : BitVec 32 := bfRefS h bfWidth32 ptr .big
def bfRefS32l (h : Host) (ptr : List Octet) : BitVec 32 := bfRefS h bfWidth32 ptr .little
def bfRefS40n (h : Host) (ptr : List Octet) : BitVec 64 := bfRefS h bfWidth40 ptr .native
def bfRefS40b (h : Host) (ptr : List Octet) : BitVec 64 := bfRefS h bfWidth40 ptr .big
def bfRefS40l (h : Host) (ptr : List Octet) : BitVec 64 := bfRefS h bfWidth40 ptr .little
def bfRefS48n (h : Host) (ptr : List Octet) : BitVec 64 := bfRefS h bfWidth48 ptr .native
def bfRefS48b (h : Host) (ptr : List Octet) : BitVec 64 := bfRefS h bfWidth48 ptr .big
def bfRefS48l (h : Host) (ptr : List Octet) : BitVec 64 := bfRefS h bfWidth48 ptr .little
def bfRefS56n (h : Host) (ptr : List Octet) : BitVec 64 := bfRefS h bfWidth56 ptr .native
def bfRefS56b (h : Host) (ptr : List Octet) : BitVec 64 := bfRefS h bfWidth56 ptr .big
def bfRefS56l (h : Host) (ptr : List Octet) : BitVec 64 := bfRefS h bfWidth56 ptr .little
def bfRefS64n (h : Host) (ptr : List Octet) : BitVec 64 := bfRefS h bfWidth64 ptr .native
def bfRefS64b (h : Host) (ptr : List Octet) : BitVec 64 := bfRefS h bfWidth64 ptr .big
def bfRefS64l (h : Host) (ptr : List Octet) : BitVec 64 := bfRefS h bfWidth64 ptr .little

def bfSetU24n (h : Host) (value : BitVec 32) : List Octet := bfSetU h bfWidth24 value .native
def bfSetU24b (h : Host) (value : BitVec 32) : List Octet := bfSetU h bfWidth24 value .big
def bfSetU24l (h : Host) (value : BitVec 32) : List Octet := bfSetU h bfWidth24 value .little
def bfSetU40n (h : Host) (value : BitVec 64) : List Octet := bfSetU h bfWidth40 value .native
def bfSetU40b (h : Host) (value : BitVec 64) : List Octet := bfSetU h bfWidth40 value .big
def bfSetU40l (h : Host) (value : BitVec 64) : List Octet := bfSetU h bfWidth40 value .little
def bfSetU48n (h : Host) (value : BitVec 64) : List Octet := bfSetU h bfWidth48 value .native
def bfSetU48b (h : Host) (value : BitVec 64) : List Octet := bfSetU h bfWidth48 value .big
def bfSetU48l (h : Host) (value : BitVec 64) : List Octet := bfSetU h bfWidth48 value .little
def bfSetU56n (h : Host) (value : BitVec 64) : List Octet := bfSetU h bfWidth56 value .native
def bfSetU56b (h : Host) (value : BitVec 64) : List Octet := bfSetU h bfWidth56 value .big
def bfSetU56l (h : Host) (value : BitVec 64) : List Octet := bfSetU h bfWidth56 value .little
def bfSetS16n (h : Host) (value : BitVec 16) : List Octet := bfSetU h bfWidth16 value .native
def bfSetS16b (h : Host) (value : BitVec 16) : List Octet := bfSetU h bfWidth16 value .big
def bfSetS16l (h : Host) (value : BitVec 16) : List Octet := bfSetU h bfWidth16 value .little
def bfSetS24n (h : Host) (value : BitVec 32) : List Octet := bfSetU h bfWidth24 value .native
def bfSetS24b (h : Host) (value : BitVec 32) : List Octet := bfSetU h bfWidth24 value .big
def bfSetS24l (h : Host) (value : BitVec 32) : List Octet := bfSetU h bfWidth24 value .little
def bfSetS32n (h : Host) (value : BitVec 32) : List Octet := bfSetU h bfWidth32 value .native
def bfSetS32b (h : Host) (value : BitVec 32) : List Octet := bfSetU h bfWidth32 value .big
def bfSetS32l (h : Host) (value : BitVec 32) : List Octet := bfSetU h bfWidth32 value .little
def bfSetS40n (h : Host) (value : BitVec 64) : List Octet := bfSetU h bfWidth40 value .native
def bfSetS40b (h : Host) (value : BitVec 64) : List Octet := bfSetU h bfWidth40 value .big
def bfSetS40l (h : Host) (value : BitVec 64) : List Octet := bfSetU h bfWidth40 value .little
def bfSetS48n (h : Host) (value : BitVec 64) : List Octet := bfSetU h bfWidth48 value .native
def bfSetS48b (h : Host) (value : BitVec 64) : List Octet := bfSetU h bfWidth48 value .big
def bfSetS48l (h : Host) (value : BitVec 64) : List Octet := bfSetU h bfWidth48 value .little
def bfSetS56n (h : Host) (value : BitVec 64) : List Octet := bfSetU h bfWidth56 value .native
def bfSetS56b (h : Host) (value : BitVec 64) : List Octet := bfSetU h bfWidth56 value .big
def bfSetS56l (h : Host) (value : BitVec 64) : List Octet := bfSetU h bfWidth56 value .little
def bfSetS64n (h : Host) (value : BitVec 64) : List Octet := bfSetU h bfWidth64 value .native
def bfSetS64b (h : Host) (value : BitVec 64) : List Octet := bfSetU h bfWidth64 value .big
def bfSetS64l (h : Host) (value : BitVec 64) : List Octet := bfSetU h bfWidth64 value .little

/-! ## 4. What the accessors compute -/

/-- Octets in an octet order on a host, least significant first; and the other way round. -/
def BfOrder.turn (h : Host) : BfOrder → List Octet → List Octet
  | .native, l => if h.bigEndian then l.reverse else l
  | .big, l => l.reverse
  | .little, l => l

/-- An octet order that is the same on two hosts. -/
def BfOrder.Agrees (h h' : Host) (o : BfOrder) : Prop := o = .native → h.bigEndian = h'.bigEndian

section Accessors

variable {h h' : Host} {k : BfWidth} {o : BfOrder}

theorem BfOrder.turn_native (h : Host) (l : List Octet) :
    BfOrder.native.turn h l = if h.bigEndian then l.reverse else l := rfl

theorem BfOrder.turn_big (h : Host) (l : List Octet) : BfOrder.big.turn h l = l.reverse := rfl

theorem BfOrder.turn_little (h : Host) (l : List Octet) : BfOrder.little.turn h l = l := rfl

theorem BfOrder.turn_congr (ho : o.Agrees h h') (l : List Octet) : o.turn h' l = o.turn h l := by
  cases o with
  | native => rw [turn_native, turn_native, ho rfl]
  | big | little => rfl

/-- **To turn octets twice is to leave them alone.** -/
theorem BfOrder.turn_turn (h : Host) (o : BfOrder) (l : List Octet) :
    o.turn h (o.turn h l) = l := by
  cases o with
  | native => cases hbe : h.bigEndian <;> simp [turn_native, hbe]
  | big => exact List.reverse_reverse l
  | little => rfl

@[simp] theorem BfOrder.length_turn (h : Host) (o : BfOrder) (l : List Octet) :
    (o.turn h l).length = l.length := by
  cases o with
  | native => cases hbe : h.bigEndian <;> simp [turn_native, hbe]
  | big => exact List.length_reverse
  | little => rfl

theorem bfRefNative_eq (ptr : List Octet) :
    bfRefNative h k ptr = ofOctets k.container (BfOrder.native.turn h ptr) := by
  unfold bfRefNative bfRefN ofOctets
  rw [BfOrder.turn_native]
  cases hbe : h.bigEndian with
  | true => simp only [if_true, List.reverse_append, List.reverse_replicate, leNat_append_zeros]
  | false => simp only [Bool.false_eq_true, if_false, leNat_append_zeros]

theorem bfSetNative_eq (v : BitVec k.container) :
    bfSetNative h k v = BfOrder.native.turn h (toOctets k.octets v) := by
  have hle := k.octets_le
  have htake : (toOctets k.size v).take k.octets = toOctets k.octets v := take_leOctets hle _
  unfold bfSetNative bfSetN
  rw [BfOrder.turn_native]
  cases hbe : h.bigEndian with
  | true => simp only [if_true, List.drop_reverse, length_toOctets, Nat.sub_sub_self hle, htake]
  | false => simpa using htake

/-- A swap turns around the octets a word was read from. -/
theorem BfWidth.swap_ofOctets (k : BfWidth) {l : List Octet} (hl : l.length = k.octets) :
    k.swap (ofOctets k.container l) = ofOctets k.container l.reverse := by
  have hle := k.octets_le
  have hfit : 8 * l.length ≤ k.container := by
    rw [k.container_eq]
    omega
  rw [k.swap_eq, ← hl, toOctets_ofOctets_le l hfit]

/-- A swap turns around the octets that are written. -/
theorem BfWidth.toOctets_swap (k : BfWidth) (v : BitVec k.container) :
    toOctets k.octets (k.swap v) = (toOctets k.octets v).reverse := by
  have hle := k.octets_le
  have hlen : (toOctets k.octets v).reverse.length = k.octets := by
    rw [List.length_reverse, length_toOctets]
  have hfit : 8 * (toOctets k.octets v).reverse.length ≤ k.container := by
    rw [hlen, k.container_eq]
    omega
  have hback := toOctets_ofOctets_le (toOctets k.octets v).reverse hfit
  rw [hlen] at hback
  rw [k.swap_eq, hback]

/-- **What is read does not depend on the host**, but for the native order. -/
theorem bfRefU_eq {ptr : List Octet} (hl : ptr.length = k.octets) :
    bfRefU h k ptr o = ofOctets k.container (o.turn h ptr) := by
  have hlr : ptr.reverse.length = k.octets := by rw [List.length_reverse, hl]
  cases o with
  | native => exact bfRefNative_eq ptr
  | big =>
    rw [bfRefU, bfRefNative_eq, BfOrder.turn_native, BfOrder.turn_big]
    cases hbe : h.bigEndian with
    | true => rfl
    | false => exact k.swap_ofOctets hl
  | little =>
    rw [bfRefU, bfRefNative_eq, BfOrder.turn_native, BfOrder.turn_little]
    cases hbe : h.bigEndian with
    | true => exact (k.swap_ofOctets hlr).trans (by rw [List.reverse_reverse])
    | false => rfl

/-- **What is written does not depend on the host**, but for the native order. -/
theorem bfSetU_eq (v : BitVec k.container) :
    bfSetU h k v o = o.turn h (toOctets k.octets v) := by
  cases o with
  | native => exact bfSetNative_eq v
  | big =>
    rw [bfSetU, bfSetNative_eq, BfOrder.turn_native, BfOrder.turn_big]
    cases hbe : h.bigEndian with
    | true => rfl
    | false => exact k.toOctets_swap v
  | little =>
    rw [bfSetU, bfSetNative_eq, BfOrder.turn_native, BfOrder.turn_little]
    cases hbe : h.bigEndian with
    | true =>
      show (toOctets k.octets (k.swap v)).reverse = _
      rw [k.toOctets_swap, List.reverse_reverse]
    | false => rfl

@[simp] theorem length_bfSetU (v : BitVec k.container) : (bfSetU h k v o).length = k.octets := by
  rw [bfSetU_eq, BfOrder.length_turn, length_toOctets]

/-- **An unsigned value comes back cut to its octets.** -/
theorem bfRefU_bfSetU (ho : o.Agrees h h') (v : BitVec k.container) :
    (bfRefU h' k (bfSetU h k v o) o).toNat = v.toNat % 2 ^ (8 * k.octets) := by
  rw [bfRefU_eq (length_bfSetU v), bfSetU_eq, BfOrder.turn_congr ho, BfOrder.turn_turn,
    toNat_ofOctets_toOctets]

/-- **A signed value comes back as its octets extend to.** -/
theorem bfRefS_bfSetU (ho : o.Agrees h h') (v : BitVec k.container) :
    bfRefS h' k (bfSetU h k v o) o = (v.setWidth (8 * k.octets)).signExtend k.container := by
  have hnat := bfRefU_bfSetU (k := k) ho v
  unfold bfRefS
  rw [k.extend_eq _ (by rw [hnat]; exact Nat.mod_lt _ (Nat.two_pow_pos _))]
  refine congrArg (BitVec.signExtend k.container) (BitVec.eq_of_toNat_eq ?_)
  rw [BitVec.toNat_setWidth, hnat, BitVec.toNat_setWidth, Nat.mod_mod]

end Accessors

/-! ## 5. Fields behind one another -/

/-- The type of a field. -/
structure BfType where
  width : BfWidth
  signed : Bool
  order : BfOrder

/-- A field: a value, in the word of its width. -/
structure BfField where
  type : BfType
  value : BitVec type.width.container

/-- The accessor that reads a field of a type. -/
def BfType.ref (h : Host) (type : BfType) (ptr : List Octet) : BfField where
  type
  value := if type.signed then bfRefS h type.width ptr type.order
    else bfRefU h type.width ptr type.order

/-- The range check of a field. -/
def BfField.inrange (f : BfField) : Bool :=
  if f.type.signed then f.type.width.inrangeS f.value else f.type.width.inrangeU f.value

/-- The octets of a field. -/
def BfField.octets (h : Host) (f : BfField) : List Octet :=
  bfSetU h f.type.width f.value f.type.order

/-- **Fields are written one behind the other**: an accessor returns the address behind its
    field. -/
def bfStore (h : Host) : Mem Octet → Nat → List BfField → Mem Octet × Nat
  | m, p, [] => (m, p)
  | m, p, f :: fs => bfStore h (m.store p (f.octets h)) (p + f.type.width.octets) fs

/-- Fields are read one behind the other. -/
def bfLoad (h : Host) (m : Mem Octet) : Nat → List BfType → List BfField
  | _, [] => []
  | p, type :: types =>
    type.ref h (m.slice p type.width.octets) :: bfLoad h m (p + type.width.octets) types

/-- The octets some types take. -/
def bfSize : List BfType → Nat
  | [] => 0
  | type :: types => type.width.octets + bfSize types

/-- The octets of some fields. -/
def bfOctets (h : Host) (fs : List BfField) : List Octet := fs.flatMap (BfField.octets h)

section Fields

variable {h h' : Host}

@[simp] theorem BfField.length_octets (h : Host) (f : BfField) :
    (f.octets h).length = f.type.width.octets := length_bfSetU f.value

@[simp] theorem length_bfOctets (h : Host) (fs : List BfField) :
    (bfOctets h fs).length = bfSize (fs.map BfField.type) := by
  induction fs with
  | nil => rfl
  | cons f fs ih =>
    unfold bfOctets at ih ⊢
    rw [List.flatMap_cons, List.length_append, ih, BfField.length_octets]
    rfl

/-- **The octets of the fields are stored, and the address behind them is returned.** -/
theorem bfStore_eq (h : Host) (m : Mem Octet) (p : Nat) (fs : List BfField) :
    bfStore h m p fs = (m.store p (bfOctets h fs), p + bfSize (fs.map BfField.type)) := by
  induction fs generalizing m p with
  | nil => exact Prod.ext (Mem.store_nil m p).symm rfl
  | cons f fs ih =>
    have hoctets : bfOctets h (f :: fs) = f.octets h ++ bfOctets h fs := List.flatMap_cons
    rw [bfStore, ih, hoctets, Mem.store_append, BfField.length_octets, Nat.add_assoc]
    rfl

/-- **A field comes back exactly where its value is in range.** -/
theorem BfType.ref_octets (f : BfField) (ho : f.type.order.Agrees h h') :
    f.type.ref h' (f.octets h) = f ↔ f.inrange = true := by
  obtain ⟨⟨width, signed, order⟩, value⟩ := f
  have hpos := width.octets_pos
  have hle := width.octets_le
  have hfit : 8 * width.octets ≤ width.container := by
    rw [width.container_eq]
    omega
  unfold BfType.ref BfField.octets BfField.inrange
  simp only [BfField.mk.injEq, heq_eq_eq, true_and]
  cases signed with
  | true =>
    rw [if_pos rfl, if_pos rfl, bfRefS_bfSetU ho, signExtend_setWidth_eq_iff (by omega) hfit,
      width.inrangeS_iff]
  | false =>
    rw [if_neg Bool.false_ne_true, if_neg Bool.false_ne_true, width.inrangeU_iff,
      ← BitVec.toNat_inj, bfRefU_bfSetU ho]
    exact Nat.mod_eq_iff_lt (Nat.ne_of_gt (Nat.two_pow_pos _))

/-- **The octets a field was read from are its octets.** -/
theorem BfType.octets_ref (h : Host) (type : BfType) {ptr : List Octet}
    (hl : ptr.length = type.width.octets) : (type.ref h ptr).octets h = ptr := by
  obtain ⟨width, signed, order⟩ := type
  have hle := width.octets_le
  have hfit : 8 * width.octets ≤ width.container := by
    rw [width.container_eq]
    omega
  have hlen : (order.turn h ptr).length = width.octets := (BfOrder.length_turn h order ptr).trans hl
  have hback : toOctets width.octets (ofOctets width.container (order.turn h ptr))
      = order.turn h ptr := by
    have hb := toOctets_ofOctets_le (order.turn h ptr) (w := width.container) (by omega)
    rwa [hlen] at hb
  have hsmall : (ofOctets width.container (order.turn h ptr)).toNat < 2 ^ (8 * width.octets) := by
    rw [← hback, toNat_ofOctets_toOctets]
    exact Nat.mod_lt _ (Nat.two_pow_pos _)
  unfold BfField.octets BfType.ref
  rw [bfSetU_eq]
  cases signed with
  | true =>
    have hlow := low_signExtend hfit (ofOctets width.container (order.turn h ptr))
    simp only [if_true]
    unfold bfRefS
    rw [bfRefU_eq hl, width.extend_eq _ hsmall, toOctets_congr hlow, hback, BfOrder.turn_turn]
  | false =>
    simp only [Bool.false_eq_true, if_false]
    rw [bfRefU_eq hl, hback, BfOrder.turn_turn]

/-- What is read depends on the octets of the fields only. -/
theorem bfLoad_of_slice (fs : List BfField) {m : Mem Octet} {p : Nat}
    (hm : m.slice p (bfSize (fs.map BfField.type)) = bfOctets h fs) :
    bfLoad h' m p (fs.map BfField.type) = fs.map fun f => f.type.ref h' (f.octets h) := by
  induction fs generalizing p with
  | nil => rfl
  | cons f fs ih =>
    have hoctets : bfOctets h (f :: fs) = f.octets h ++ bfOctets h fs := List.flatMap_cons
    have hsize : bfSize ((f :: fs).map BfField.type)
        = f.type.width.octets + bfSize (fs.map BfField.type) := rfl
    rw [hsize, Mem.slice_append, hoctets] at hm
    obtain ⟨hhead, hrest⟩ := List.append_inj hm (by rw [Mem.length_slice, BfField.length_octets])
    rw [List.map_cons, bfLoad, hhead, ih hrest, List.map_cons]

/-- **Fields written on one host and read on another.** The accessors write the octets of the
    fields, the same on both hosts, and nothing else; what is read back is what was written, exactly
    where the range checks accept it. -/
theorem bfLoad_bfStore (h h' : Host) (m : Mem Octet) (p : Nat) (fs : List BfField)
    (ho : ∀ f ∈ fs, f.type.order.Agrees h h') :
    (bfStore h m p fs).2 = p + bfSize (fs.map BfField.type) ∧
      (∀ x, ¬(p ≤ x ∧ x < (bfStore h m p fs).2) → (bfStore h m p fs).1 x = m x) ∧
      bfStore h' m p fs = bfStore h m p fs ∧
      (bfLoad h' (bfStore h m p fs).1 p (fs.map BfField.type) = fs ↔
        ∀ f ∈ fs, f.inrange = true) := by
  have hoctets : bfOctets h' fs = bfOctets h fs := by
    refine List.flatMap_congr fun f hf => ?_
    unfold BfField.octets
    rw [bfSetU_eq, bfSetU_eq, BfOrder.turn_congr (ho f hf)]
  have hslice : (m.store p (bfOctets h fs)).slice p (bfSize (fs.map BfField.type))
      = bfOctets h fs := by
    rw [← length_bfOctets h, Mem.slice_store]
  simp only [bfStore_eq, hoctets, true_and]
  refine ⟨fun x hx => Mem.store_outside m (by rwa [length_bfOctets]), ?_⟩
  rw [bfLoad_of_slice fs hslice]
  constructor
  · intro hback f hf
    have hf' := List.map_inj_left.mp (hback.trans (List.map_id fs).symm) f hf
    exact (BfType.ref_octets f (ho f hf)).mp hf'
  · intro hin
    refine (List.map_congr_left fun f hf => ?_).trans (List.map_id fs)
    exact (BfType.ref_octets f (ho f hf)).mpr (hin f hf)

/-- A value of 24 bits, a negative one, and one that is out of range. -/
def sampleFields : List BfField :=
  [⟨⟨bfWidth24, false, .big⟩, 0xabcdef#32⟩, ⟨⟨bfWidth40, true, .little⟩, -2#64⟩,
    ⟨⟨bfWidth24, true, .big⟩, 0x800000#32⟩]

theorem bfLoad_bfStore_sample :
    let h' : Host := { lp64Host with bigEndian := true }
    let run := bfStore lp64Host (Mem.ofList 0 []) 0 sampleFields
    run.2 = 0 + bfSize (sampleFields.map BfField.type) ∧
      (∀ x, ¬(0 ≤ x ∧ x < run.2) → run.1 x = Mem.ofList 0 [] x) ∧
      bfStore h' (Mem.ofList 0 []) 0 sampleFields = run ∧
      (bfLoad h' run.1 0 (sampleFields.map BfField.type) = sampleFields ↔
        ∀ f ∈ sampleFields, f.inrange = true) :=
  bfLoad_bfStore lp64Host { lp64Host with bigEndian := true } (Mem.ofList 0 []) 0 sampleFields (by
    intro f hf
    simp only [sampleFields, List.mem_cons, List.not_mem_nil, or_false] at hf
    rcases hf with rfl | rfl | rfl <;> nofun)

example : sampleFields.map BfField.inrange = [true, true, false] := by decide

/-- **Memory read as fields.** Whatever octets are there, the fields that are read are in range, and
    writing them again leaves the memory as it is. -/
theorem bfStore_bfLoad (h : Host) (m : Mem Octet) (p : Nat) (types : List BfType) :
    (∀ f ∈ bfLoad h m p types, f.inrange = true) ∧
      bfStore h m p (bfLoad h m p types) = (m, p + bfSize types) := by
  induction types generalizing p with
  | nil => exact ⟨fun f hf => absurd hf List.not_mem_nil, rfl⟩
  | cons type types ih =>
    obtain ⟨hin, hback⟩ := ih (p + type.width.octets)
    have hlen : (m.slice p type.width.octets).length = type.width.octets := Mem.length_slice _ _ _
    have hoctets := type.octets_ref h hlen
    have hstore : m.store p (m.slice p type.width.octets) = m := by
      have htake := Mem.store_slice_take m p type.width.octets type.width.octets
      rwa [List.take_of_length_le (Nat.le_of_eq hlen)] at htake
    constructor
    · refine List.forall_mem_cons.mpr ⟨?_, hin⟩
      have hself : (type.ref h (m.slice p type.width.octets)).type.order.Agrees h h := fun _ => rfl
      refine (BfType.ref_octets _ hself).mp ?_
      rw [hoctets]
      rfl
    · rw [bfLoad, bfStore, hoctets, hstore]
      exact hback.trans (congrArg (Prod.mk m) (Nat.add_assoc _ _ _))

end Fields

end Ufw
