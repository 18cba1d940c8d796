/-
  File:      Ufw/Crc16Arc/Distance.lean
  Subject:   CRC-16-ARC: which errors it detects for certain, beyond bursts.

  * `ufwCrc16Arc_odd` -- **an odd number of inverted bits changes the checksum**;
  * `crc16Power`, `crc16_period` -- the powers of x, by squaring: x has the order 32767;
  * `ufwCrc16Arc_twoBits` -- **two inverted bits change the checksum unless their distance is a
    multiple of 32767**;
  * `ufwCrc16Arc_distance` -- **messages of up to 4095 octets with the same checksum differ in four
    bits at least**.
-/
import Mathlib.Tactic.NormNum.Prime
import Ufw.Base.CrcErrors
import Ufw.Crc16Arc.Polynomial

namespace Ufw

open Base

/-! ## 1. Error patterns -/

/-- **A pattern is lost exactly where the register loses it**, whatever the message is. -/
theorem ufwCrc16Arc_lost_iff (crc : BitVec 16) {m e : List Octet} (hlen : e.length = m.length) :
    ufwCrc16Arc crc (m.zipWith (· ^^^ ·) e) = ufwCrc16Arc crc m ↔
      crcBits crc16Polynomial.reverse 0#16 (messageBits e) = 0#16 := by
  obtain ⟨hbits, hlength⟩ := messageBits_zipWith hlen
  have hsum := crcBits_xor crc16Polynomial.reverse crc 0#16 hlength
  rw [BitVec.xor_zero, ← hbits] at hsum
  rw [ufwCrc16Arc_eq, ufwCrc16Arc_eq, crc16Bits, crc16Bits, hsum]
  refine Iff.trans ?_ (BitVec.xor_right_inj (crcBits crc16Polynomial.reverse crc (messageBits m)))
  rw [BitVec.xor_zero]

/-- The polynomial has an odd number of terms, the leading one aside. -/
theorem crc16_parity : parityBelow crc16Polynomial.reverse 16 = true := by decide

/-- **An odd number of inverted bits changes the checksum**, wherever they are. -/
theorem ufwCrc16Arc_odd (crc : BitVec 16) (m e : List Octet) (hlen : e.length = m.length)
    (hodd : (messageBits e).count true % 2 = 1) :
    ufwCrc16Arc crc (m.zipWith (· ^^^ ·) e) ≠ ufwCrc16Arc crc m :=
  mt (ufwCrc16Arc_lost_iff crc hlen).mp (crcBits_odd crc16_parity hodd)

/-- Three bits far apart. -/
theorem ufwCrc16Arc_odd_sample :
    ufwCrc16Arc 0 (List.zipWith (· ^^^ ·) (List.replicate 40 0x55#8)
        ([0x80] ++ List.replicate 20 0 ++ [0x10] ++ List.replicate 17 0 ++ [0x01])) ≠
      ufwCrc16Arc 0 (List.replicate 40 0x55#8) :=
  ufwCrc16Arc_odd 0 _ _ (by decide) (by decide +kernel)

/-! ## 2. The order of x -/

/-- Multiplication by x, modulo the polynomial. -/
abbrev crc16Shift : BitVec 16 → BitVec 16 := crcShift crc16Polynomial.reverse

/-- x to the power of `2 ^ k`, for `k` below 16. -/
def crc16Squares : List (BitVec 16) :=
  [0x4000, 0x2000, 0x0800, 0x0080, 0xa001, 0xe801, 0xc881, 0x6080, 0x8801, 0xe081, 0x6800, 0x2880,
    0xa881, 0x4880, 0x8081, 0x4000]

/-- Each is the square of the one before. -/
theorem crc16Squares_step : ∀ k < 15, crc16Squares.getD (k + 1) 0 =
    crcMul crc16Polynomial.reverse (crc16Squares.getD k 0) (crc16Squares.getD k 0) := by
  decide +kernel

theorem crc16Squares_eq {k : Nat} (hk : k < 16) :
    crc16Shift^[2 ^ k] (crcOne 16) = crc16Squares.getD k 0 := by
  induction k with
  | zero => decide
  | succ k ih =>
    have hsquare := ih (by omega)
    rw [crc16Squares_step k (by omega), Nat.pow_succ, Nat.mul_two]
    exact crcShift_add hsquare hsquare

/-- Three powers of x that are not one: the exponents are the maximal divisors of 32767. -/
theorem crc16_powers : crc16Shift^[4681] (crcOne 16) ≠ crcOne 16 ∧
    crc16Shift^[1057] (crcOne 16) ≠ crcOne 16 ∧ crc16Shift^[217] (crcOne 16) ≠ crcOne 16 := by
  have hsquare : ∀ k, k < 16 → crc16Shift^[2 ^ k] (crcOne 16) = crc16Squares.getD k 0 :=
    fun k hk => crc16Squares_eq hk
  refine ⟨?_, ?_, ?_⟩
  · have h := crcShift_add (crcShift_add (crcShift_add (crcShift_add (hsquare 12 (by decide))
      (hsquare 9 (by decide))) (hsquare 6 (by decide))) (hsquare 3 (by decide)))
      (hsquare 0 (by decide))
    rw [show 4681 = 2 ^ 12 + 2 ^ 9 + 2 ^ 6 + 2 ^ 3 + 2 ^ 0 by decide, h]
    decide +kernel
  · have h := crcShift_add (crcShift_add (hsquare 10 (by decide)) (hsquare 5 (by decide)))
      (hsquare 0 (by decide))
    rw [show 1057 = 2 ^ 10 + 2 ^ 5 + 2 ^ 0 by decide, h]
    decide +kernel
  · have h := crcShift_add (crcShift_add (crcShift_add (crcShift_add (hsquare 7 (by decide))
      (hsquare 6 (by decide))) (hsquare 4 (by decide))) (hsquare 3 (by decide)))
      (hsquare 0 (by decide))
    rw [show 217 = 2 ^ 7 + 2 ^ 6 + 2 ^ 4 + 2 ^ 3 + 2 ^ 0 by decide, h]
    decide +kernel

/-- **x has the order 32767**: that of x modulo x^15 + x + 1, the other factor being x + 1. -/
theorem crc16_period : Function.minimalPeriod crc16Shift (crcOne 16) = 32767 := by
  have hconstant : crc16Polynomial.reverse.getLsbD (16 - 1) = true := by decide
  refine minimalPeriod_eq_of_not_dvd ?_ fun p hp hdvd => ?_
  · -- the square of the last power is the first one
    have hlast : crc16Shift^[2 ^ 15] (crcOne 16) = crc16Shift (crcOne 16) :=
      (crc16Squares_eq (by decide)).trans (crc16Squares_eq (k := 0) (by decide)).symm
    rw [show 2 ^ 15 = 32767 + 1 by decide, Function.iterate_succ_apply'] at hlast
    exact crcShift_injective hconstant hlast
  · obtain ⟨h4681, h1057, h217⟩ := crc16_powers
    have hfactors : p ∣ 7 * (31 * 151) := hdvd
    rcases (Nat.Prime.dvd_mul hp).mp hfactors with h7 | h31151
    · obtain rfl := (Nat.prime_dvd_prime_iff_eq hp (by norm_num)).mp h7
      exact h4681
    · rcases (Nat.Prime.dvd_mul hp).mp h31151 with h31 | h151
      · obtain rfl := (Nat.prime_dvd_prime_iff_eq hp (by norm_num)).mp h31
        exact h1057
      · obtain rfl := (Nat.prime_dvd_prime_iff_eq hp (by norm_num)).mp h151
        exact h217

/-! ## 3. Two bits -/

/-- Two bits are lost where their distance is a multiple of the order of x. -/
theorem crc16_lost_two_iff {e : List Bool} {i j : Nat} (hij : i < j) (hj : j < e.length)
    (he : ∀ n, e.getD n false = decide (n = i ∨ n = j)) :
    crcBits crc16Polynomial.reverse 0#16 e = 0#16 ↔ 32767 ∣ j - i := by
  rw [crcBits_two (by decide) (by decide) hij hj he, ← crc16_period]
  exact Function.isPeriodicPt_iff_minimalPeriod_dvd

/-- **Two inverted bits change the checksum, unless their distance is a multiple of 32767.** -/
theorem ufwCrc16Arc_twoBits (crc : BitVec 16) (m e : List Octet) (hlen : e.length = m.length)
    (i j : Nat) (hij : i < j) (hj : j < 8 * e.length)
    (he : ∀ n, (messageBits e).getD n false = decide (n = i ∨ n = j)) :
    ufwCrc16Arc crc (m.zipWith (· ^^^ ·) e) = ufwCrc16Arc crc m ↔ 32767 ∣ j - i := by
  rw [ufwCrc16Arc_lost_iff crc hlen]
  exact crc16_lost_two_iff hij (by rwa [length_messageBits]) he

/-- Two bits, twenty apart. -/
theorem ufwCrc16Arc_twoBits_sample :
    ufwCrc16Arc 0 (List.zipWith (· ^^^ ·) [0x31, 0x32, 0x33] [0x01, 0x00, 0x10]) =
      ufwCrc16Arc 0 [0x31, 0x32, 0x33] ↔ 32767 ∣ 20 - 0 :=
  ufwCrc16Arc_twoBits 0 [0x31, 0x32, 0x33] [0x01, 0x00, 0x10] rfl 0 20 (by decide) (by decide) (by
    intro n
    by_cases hlt : n < 24
    · interval_cases n <;> decide
    · rw [List.getD_eq_default _ _ (not_lt.mp hlt), decide_eq_false (by omega)])

/-! ## 4. The distance -/

/-- How many bits two messages of one length differ in. -/
def bitDistance (m m' : List Octet) : Nat :=
  ((messageBits m).zipWith (· ^^ ·) (messageBits m')).count true

/-- Two bits at the ends of 4096 octets. -/
def farBits : List Octet := 0x01#8 :: (List.replicate 4094 0x00#8 ++ [0x80#8])

theorem messageBits_farBits :
    messageBits farBits = true :: (List.replicate 32766 false ++ [true]) := by
  have hzeros : ∀ n, messageBits (List.replicate n 0x00#8) = List.replicate (8 * n) false := by
    intro n
    induction n with
    | zero => rfl
    | succ n ih =>
      have hoctet : octetBits 0x00#8 = List.replicate 8 false := by decide
      rw [List.replicate_succ, messageBits_cons, ih, hoctet, List.replicate_append_replicate]
      congr 1
      omega
  have hfirst : octetBits 0x01#8 = true :: List.replicate 7 false := by decide
  have hlast : messageBits [0x80#8] = List.replicate 7 false ++ [true] := by decide
  have happend : ∀ a b : List Octet, messageBits (a ++ b) = messageBits a ++ messageBits b :=
    fun a b => List.flatMap_append
  rw [farBits, messageBits_cons, happend, hzeros, hfirst, hlast, List.cons_append,
    ← List.append_assoc, ← List.append_assoc, List.replicate_append_replicate,
    List.replicate_append_replicate]

/-- They are lost. -/
theorem crcBits_farBits :
    crcBits crc16Polynomial.reverse 0#16 (messageBits farBits) = 0#16 := by
  have hperiod : crc16Shift^[32767] crc16Polynomial.reverse = crc16Polynomial.reverse := by
    rw [crcShift_period_iff (by decide) (by decide), ← crc16_period]
    exact Function.iterate_minimalPeriod
  have hone : crcBit crc16Polynomial.reverse 0#16 true = crc16Polynomial.reverse := by decide
  have hlast : ∀ y, crcBit crc16Polynomial.reverse y true =
      crc16Shift y ^^^ crc16Polynomial.reverse := by
    intro y
    have hsum := crcBit_xor crc16Polynomial.reverse y 0#16 false true
    rw [BitVec.xor_zero, hone] at hsum
    exact hsum
  rw [messageBits_farBits, crcBits, hone, crcBits_append, crcBits_replicate, crcBits, crcBits,
    hlast, ← Function.iterate_succ_apply' crc16Shift]
  rw [hperiod, BitVec.xor_self]

/-- **The distance of the code**: messages of up to 4095 octets with the same checksum differ in
    four bits at least; a message of 4096 octets has the checksum of one that differs in two
    bits. -/
theorem ufwCrc16Arc_distance (crc : BitVec 16) :
    (∀ m m' : List Octet, m'.length = m.length → m.length ≤ 4095 → m ≠ m' →
      ufwCrc16Arc crc m' = ufwCrc16Arc crc m → 4 ≤ bitDistance m m') ∧
    ∀ m : List Octet, m.length = 4096 → ∃ m' : List Octet, m'.length = 4096 ∧
      ufwCrc16Arc crc m' = ufwCrc16Arc crc m ∧ bitDistance m m' = 2 := by
  refine ⟨fun m m' hlen hsize hne heq => ?_, fun m hm => ?_⟩
  · obtain ⟨e, he⟩ : ∃ e, e = m.zipWith (· ^^^ ·) m' := ⟨_, rfl⟩
    obtain ⟨hbits, hlength⟩ := messageBits_zipWith hlen
    have helen : e.length = m.length := by rw [he, List.length_zipWith, hlen, Nat.min_self]
    -- the pattern between the two is lost
    have hlost : crcBits crc16Polynomial.reverse 0#16 (messageBits e) = 0#16 := by
      rw [← ufwCrc16Arc_lost_iff crc helen, he, zipWith_xor_cancel hlen]
      exact heq
    have hcount : bitDistance m m' = (messageBits e).count true := by rw [bitDistance, ← hbits, he]
    by_contra hfew
    rw [hcount, not_le] at hfew
    have hcases : (messageBits e).count true % 2 = 1 ∨ (messageBits e).count true = 2 ∨
        (messageBits e).count true = 0 := by omega
    rcases hcases with hodd | htwo | hnone
    · exact crcBits_odd crc16_parity hodd hlost
    · obtain ⟨i, j, hij, hj, hget⟩ := exists_of_count_two htwo
      have hdvd := (crc16_lost_two_iff hij hj hget).mp hlost
      rw [length_messageBits, helen] at hj
      exact absurd (Nat.le_of_dvd (by omega) hdvd) (by omega)
    · rw [← hcount] at hnone
      exact hne (messageBits_inj hlen (eq_of_xor_false hlength hnone))
  · have hfar : farBits.length = m.length := by
      rw [hm, farBits, List.length_cons, List.length_append, List.length_replicate,
        List.length_singleton]
    have hlen : (m.zipWith (· ^^^ ·) farBits).length = m.length := by
      rw [List.length_zipWith, hfar, Nat.min_self]
    refine ⟨m.zipWith (· ^^^ ·) farBits, hlen.trans hm,
      (ufwCrc16Arc_lost_iff crc hfar).mpr crcBits_farBits, ?_⟩
    rw [bitDistance, ← (messageBits_zipWith hlen).1, zipWith_xor_cancel hfar, messageBits_farBits,
      List.count_cons, List.count_append, List.count_replicate]
    rfl

end Ufw
