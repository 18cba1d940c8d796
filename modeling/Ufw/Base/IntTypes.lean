/-
  File:      Ufw/Base/IntTypes.lean
  Subject:   INTEGER TYPES OF C. A type has a width and may have a sign; its values are integers
             in its range.

  * `IntType` -- one of the eight exact-width types, `int` has 32 bits;
  * `IntType.InRange` -- the values of the type; `IntType.conv` -- the conversion to it, modulo the
    number of its values;
  * `IntType.plus`, `IntType.quotient` -- the operators `+` and `/` on two values of the type: in
    the type both are promoted to, with no result where C promises none;
  * `IntType.conv_tdiv_conv_iff` -- **when a quotient is right although its divisor was converted**.

  Nothing here names a particular program.
-/
import Ufw.Base.Exec
import Mathlib.Algebra.Order.Group.Int

namespace Base

/-- An integer type. -/
structure IntType where
  signed : Bool
  bits : Nat
  standard : bits = 8 ∨ bits = 16 ∨ bits = 32 ∨ bits = 64

namespace IntType

/-- `int`. -/
def int : IntType := ⟨true, 32, .inr (.inr (.inl rfl))⟩

/-- `int8_t`. -/
def int8 : IntType := ⟨true, 8, .inl rfl⟩

variable (T : IntType)

/-- How many values the type has. -/
def size : Int := 2 ^ T.bits

/-- The least value. -/
def min : Int := if T.signed then -2 ^ (T.bits - 1) else 0

/-- The largest value. -/
def max : Int := T.min + T.size - 1

/-- The values of the type. -/
def InRange (x : Int) : Prop := T.min ≤ x ∧ x ≤ T.max

instance : DecidablePred T.InRange := fun x => inferInstanceAs (Decidable (T.min ≤ x ∧ x ≤ T.max))

/-- The conversion of a number to the type. -/
def conv (x : Int) : Int := (x - T.min) % T.size + T.min

/-- The integer promotions: what is narrower than an `int` becomes one. -/
def promoted : IntType := if T.bits < 32 then int else T

/-- A result of arithmetic in the type: it wraps around without a sign, with one it has to fit. -/
def result (x : Int) : Exec Int := do
  require (T.signed = true → T.InRange x)
  .ok (T.conv x)

/-- `a + b` -/
def plus (a b : Int) : Exec Int := T.promoted.result (a + b)

/-- C promises a quotient: the divisor is not 0, the quotient is a value. -/
def Divides (a b : Int) : Prop := b ≠ 0 ∧ T.promoted.InRange (a.tdiv b)

instance (a b : Int) : Decidable (T.Divides a b) :=
  inferInstanceAs (Decidable (b ≠ 0 ∧ T.promoted.InRange (a.tdiv b)))

/-- `a / b` -/
def quotient (a b : Int) : Exec Int := do
  require (T.Divides a b)
  .ok (a.tdiv b)

/-! ## The range -/

theorem bounds : (T.min = 0 ∧ T.max = T.size - 1) ∨ (T.size = -2 * T.min ∧ T.max = -T.min - 1) := by
  obtain ⟨signed, bits, hbits⟩ := T
  cases signed with
  | false => exact .inl ⟨rfl, by simp [max, min, size]⟩
  | true =>
    refine .inr ?_
    rcases hbits with rfl | rfl | rfl | rfl <;> simp [max, min, size]

theorem size_ge : 256 ≤ T.size := by
  obtain ⟨signed, bits, hbits⟩ := T
  rcases hbits with rfl | rfl | rfl | rfl <;> simp [size]

theorem inRange_zero : T.InRange 0 := by
  have hsize := T.size_ge
  have hbounds := T.bounds
  constructor <;> omega

variable {T}

theorem inRange_promoted {x : Int} (h : T.InRange x) : T.promoted.InRange x := by
  unfold promoted
  split
  · obtain ⟨signed, bits, hbits⟩ := T
    obtain ⟨hmin, hmax⟩ := h
    rcases hbits with rfl | rfl | rfl | rfl <;> cases signed <;>
      simp [max, min, size, InRange, int] at * <;> omega
  · exact h

theorem conv_of_inRange {x : Int} (h : T.InRange x) : T.conv x = x := by
  obtain ⟨hmin, hmax⟩ := h
  unfold max at hmax
  rw [conv, Int.emod_eq_of_lt (by omega) (by omega)]
  omega

/-- Numbers that convert to the same value differ by a multiple of the number of values. -/
theorem dvd_of_conv_eq {x y : Int} (h : T.conv x = T.conv y) : T.size ∣ x - y := by
  have hmod : (x - T.min) % T.size = (y - T.min) % T.size := add_right_cancel h
  rw [Int.emod_sub_cancel_right] at hmod
  exact Int.dvd_of_emod_eq_zero (Int.emod_eq_emod_iff_emod_sub_eq_zero.mp hmod)

/-- Nothing but 0 becomes 0, among numbers smaller than the number of values. -/
theorem conv_eq_zero_iff {x : Int} (h : (x.natAbs : Int) < T.size) : T.conv x = 0 ↔ x = 0 := by
  have hzero : T.conv 0 = 0 := conv_of_inRange T.inRange_zero
  constructor
  · intro hx
    have hdvd : T.size ∣ x - 0 := dvd_of_conv_eq (hx.trans hzero.symm)
    rw [sub_zero] at hdvd
    exact Int.eq_zero_of_dvd_of_natAbs_lt_natAbs hdvd (by omega)
  · rintro rfl
    exact hzero

/-! ## Sums and quotients -/

/-- **A sum that fits** is what `+` and the conversion of its result give. -/
theorem plus_of_inRange {a b : Int} (h : T.promoted.InRange (a + b)) :
    T.plus a b = .ok (a + b) := by
  rw [plus, result, require_pos fun _ => h, ok_bind, conv_of_inRange h]

theorem quotient_of_divides {a b : Int} (h : T.Divides a b) : T.quotient a b = .ok (a.tdiv b) := by
  rw [quotient, require_pos h, ok_bind]

theorem tdiv_eq_zero_iff {a b : Int} (hb : b ≠ 0) : a.tdiv b = 0 ↔ a.natAbs < b.natAbs := by
  rw [← Int.natAbs_eq_zero, Int.natAbs_tdiv]
  exact Nat.div_eq_zero_iff_lt (by omega)

theorem inRange_tdiv_of_pos {a b : Int} (ha : T.InRange a) (hb : 0 < b) : T.InRange (a.tdiv b) := by
  have hle := Int.natAbs_tdiv_le_natAbs a b
  have hbounds := T.bounds
  obtain ⟨hmin, hmax⟩ := ha
  rcases le_total 0 a with h0 | h0
  · have hnonneg := Int.tdiv_nonneg h0 (le_of_lt hb)
    constructor <;> omega
  · have hnonneg := Int.tdiv_nonneg (Int.neg_nonneg_of_nonpos h0) (le_of_lt hb)
    rw [Int.neg_tdiv] at hnonneg
    constructor <;> omega

/-- The mean of two values is a value. -/
theorem inRange_mean {a b : Int} (ha : T.InRange a) (hb : T.InRange b) :
    T.InRange ((a + b).tdiv 2) := by
  have hsign : Int.sign 2 = 1 := rfl
  obtain ⟨hamin, hamax⟩ := ha
  obtain ⟨hbmin, hbmax⟩ := hb
  unfold InRange
  rw [Int.tdiv_eq_ediv, hsign]
  split <;> omega

/-- **A quotient by a converted divisor is right** just where the conversion keeps the divisor, or
    where the quotient is 0 all the same. -/
theorem conv_tdiv_conv_iff {s : Int} {m : Nat} (hs : T.InRange s) (hm : 1 ≤ m)
    (hd : T.conv m ≠ 0) :
    T.conv (s.tdiv (T.conv m)) = s.tdiv m ↔
      T.conv m = m ∨ s.natAbs < (T.conv m).natAbs := by
  have hsize := T.size_ge
  have hbounds := T.bounds
  have hquot := Int.natAbs_tdiv_le_natAbs s (T.conv m)
  by_cases hfits : T.conv m = m
  · rw [hfits, conv_of_inRange (inRange_tdiv_of_pos hs (by omega))]
    exact ⟨fun _ => .inl rfl, fun _ => rfl⟩
  · have hlarge : T.max < m := by
      by_contra hle
      exact hfits (conv_of_inRange ⟨by omega, by omega⟩)
    obtain ⟨hmin, hmax⟩ := hs
    rw [or_iff_right hfits]
    by_cases hsmall : s.natAbs < m
    · have hzero : s.tdiv m = 0 := (tdiv_eq_zero_iff (by omega)).mpr (by omega)
      rw [hzero, conv_eq_zero_iff (by omega), tdiv_eq_zero_iff hd]
    · -- only the least value is as large as a divisor that does not fit
      obtain rfl : s = T.min := by omega
      have hm : (m : Int) = -T.min := by omega
      have hconv : T.conv m = T.min := by
        have hwhole : (m : Int) - T.min = T.size := by omega
        rw [conv, hwhole, Int.emod_self, zero_add]
      have hone : T.conv 1 = 1 := conv_of_inRange ⟨by omega, by omega⟩
      rw [hconv, Int.tdiv_self (by omega), hone, hm, Int.tdiv_neg, Int.tdiv_self (by omega)]
      exact iff_of_false (by decide) (lt_irrefl _)

end IntType

end Base
