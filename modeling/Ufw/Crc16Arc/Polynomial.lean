/-
  File:      Ufw/Crc16Arc/Polynomial.lean
  Subject:   CRC-16-ARC and its polynomial x^16 + x^15 + x^2 + 1.

  * `crc16Polynomial` -- the polynomial, without its leading term;
  * `crc16Table_eq` -- **a word of the table is what eight steps of the register make of its
    index**;
  * `ufwCrc16Arc_eq` -- the code, octet by octet, **is the register, bit by bit**;
  * `ufwCrc16Arc_specification` -- the checksum of octets and that of words;
  * `ufwCrc16Arc_burst` -- **an error burst of at most 16 bits changes the checksum**.
-/
import Ufw.Base.Crc
import Ufw.Crc16Arc

namespace Ufw

open Base

/-- x^15 + x^2 + 1; the leading term is the one that is shifted out. -/
def crc16Polynomial : BitVec 16 := .twoPow 16 15 ||| .twoPow 16 2 ||| .twoPow 16 0

/-- **The checksum, bit by bit**: the reflected polynomial, the low bit of each octet first. -/
def crc16Bits (crc : BitVec 16) (l : List Octet) : BitVec 16 :=
  crcBits crc16Polynomial.reverse crc (messageBits l)

/-- Each word of the table is what eight steps of the register make of its index. -/
theorem crc16Table_steps :
    ((List.range 256).map fun i =>
      crcBits crc16Polynomial.reverse (BitVec.ofNat 16 i) (List.replicate 8 false)) =
        crc16Table.toList := by
  decide +kernel

theorem crc16Table_eq {i : Nat} (hi : i < 256) : crc16Table.getD i 0 =
    crcBits crc16Polynomial.reverse (BitVec.ofNat 16 i) (List.replicate 8 false) := by
  have hget := congrArg (fun l : List (BitVec 16) => l[i]?) crc16Table_steps
  simp only [List.getElem?_map, List.getElem?_range hi, Array.getElem?_toList] at hget
  rw [Array.getD_eq_getD_getElem?, ← hget]
  rfl

/-- The index is the low octet of the register. -/
theorem crc16Index_eq (y : BitVec 16) : (y &&& 0xff#16).toNat = (y.setWidth 8).toNat := by
  rw [BitVec.toNat_and, BitVec.toNat_setWidth]
  exact Nat.and_two_pow_sub_one_eq_mod y.toNat 8

/-- **One octet**: it is added to the register, whose low octet is looked up. -/
theorem crc16Octet_eq (crc : BitVec 16) (o : Octet) :
    crc16Octet crc o = crcBits crc16Polynomial.reverse crc (octetBits o) := by
  have hhigh : (crc ^^^ o.setWidth 16) >>> 8 = crc >>> 8 := by
    apply BitVec.eq_of_getLsbD_eq
    intro i _
    rw [BitVec.getLsbD_ushiftRight, BitVec.getLsbD_xor, BitVec.getLsbD_setWidth,
      BitVec.getLsbD_of_ge o _ (Nat.le_add_right 8 i), Bool.and_false, Bool.xor_false,
      BitVec.getLsbD_ushiftRight]
  rw [crcBits_feed _ _ (by decide), crcBits_low, hhigh, crc16Octet, crc16Index_eq,
    crc16Table_eq (BitVec.isLt _), BitVec.ofNat_toNat]

/-- **The code is the register**, for any message. -/
theorem ufwCrc16Arc_eq (crc : BitVec 16) (l : List Octet) :
    ufwCrc16Arc crc l = crc16Bits crc l := by
  unfold crc16Bits
  induction l generalizing crc with
  | nil => rfl
  | cons o l ih => rw [ufwCrc16Arc, ih, crc16Octet_eq, messageBits_cons, crcBits_append]

/-- **What the checksum is**: the one of the polynomial, bit by bit; a message can be processed in
    parts; and words are processed as the octets they occupy in memory. -/
theorem ufwCrc16Arc_specification :
    (∀ crc l, ufwCrc16Arc crc l = crc16Bits crc l) ∧
    (∀ crc a b, ufwCrc16Arc (ufwCrc16Arc crc a) b = ufwCrc16Arc crc (a ++ b)) ∧
    (∀ (h : Host) crc ws, ufwCrc16ArcU16 h crc ws = ufwCrc16Arc crc (wordOctets h ws)) :=
  ⟨ufwCrc16Arc_eq, fun crc a b => (ufwCrc16Arc_append crc a b).symm, ufwCrc16ArcU16_eq⟩

/-- **An error burst changes the checksum**: a pattern that is not zero, all of whose bits lie
    within 16 consecutive ones. -/
theorem ufwCrc16Arc_burst (crc : BitVec 16) {m e : List Octet} (hlen : e.length = m.length)
    (hone : true ∈ messageBits e)
    (hburst : ∃ i, ∀ j, (messageBits e).getD j false = true → i ≤ j ∧ j < i + 16) :
    ufwCrc16Arc crc (m.zipWith (· ^^^ ·) e) ≠ ufwCrc16Arc crc m := by
  obtain ⟨i, hburst⟩ := hburst
  obtain ⟨hbits, hlength⟩ := messageBits_zipWith hlen
  have hconstant : crc16Polynomial.reverse.getLsbD (16 - 1) = true := by decide
  have htrace := crcBits_burst hconstant hone hburst
  intro heq
  have hsum := crcBits_xor crc16Polynomial.reverse crc 0#16 hlength
  rw [BitVec.xor_zero, ← hbits] at hsum
  rw [ufwCrc16Arc_eq, ufwCrc16Arc_eq, crc16Bits, crc16Bits, hsum] at heq
  refine htrace ((BitVec.xor_right_inj (crcBits crc16Polynomial.reverse crc (messageBits m))).mp ?_)
  rw [heq, BitVec.xor_zero]

/-- Sixteen bits across three octets. -/
theorem ufwCrc16Arc_burst_sample :
    ufwCrc16Arc 0xffff (List.zipWith (· ^^^ ·) [0x31, 0x32, 0x33, 0x34] [0x00, 0x80, 0xff, 0x7f]) ≠
      ufwCrc16Arc 0xffff [0x31, 0x32, 0x33, 0x34] :=
  ufwCrc16Arc_burst 0xffff rfl (by decide) ⟨15, by
    intro j hj
    by_cases hlt : j < 32
    · interval_cases j <;> first | decide | exact absurd hj (by decide)
    · rw [List.getD_eq_default _ _ (not_lt.mp hlt)] at hj
      exact absurd hj Bool.false_ne_true⟩

end Ufw
