/-
  File:      Ufw/BitOperations.lean
  Subject:   BIT OPERATIONS (ufw/bit-operations.h): testing, setting and clearing the bits of a
             mask.
-/
import Mathlib.Data.BitVec

namespace Ufw

variable {w : Nat}

/-- `BIT_ISSET` -/
def bitIsset {w : Nat} (container mask : BitVec w) : Bool := container &&& mask == mask

/-- `BIT_SET` -/
def bitSet (container mask : BitVec w) : BitVec w := container ||| mask

/-- `BIT_CLEAR` -/
def bitClear (container mask : BitVec w) : BitVec w := container &&& ~~~mask

theorem bitIsset_twoPow {w i : Nat} (hi : i < w) (x : BitVec w) :
    bitIsset x (BitVec.twoPow w i) = x.getLsbD i := by
  unfold bitIsset
  rw [BitVec.and_twoPow]
  have hne : (0#w == BitVec.twoPow w i) = false := by
    rw [beq_eq_false_iff_ne]
    intro he
    have h1 : (0#w).getLsbD i = (BitVec.twoPow w i).getLsbD i := by rw [he]
    simp [hi] at h1
  cases x.getLsbD i <;> simp [hne]

theorem bitIsset_bitSet (x mask : BitVec w) : bitIsset (bitSet x mask) mask = true := by
  unfold bitIsset bitSet
  rw [beq_iff_eq]
  apply BitVec.eq_of_getLsbD_eq
  intro i _
  simp only [BitVec.getLsbD_and, BitVec.getLsbD_or]
  cases x.getLsbD i <;> cases mask.getLsbD i <;> rfl

theorem bitIsset_bitClear (x : BitVec w) {mask : BitVec w} (h : mask ≠ 0#w) :
    bitIsset (bitClear x mask) mask = false := by
  unfold bitIsset bitClear
  have hz : x &&& ~~~mask &&& mask = 0#w := by
    rw [BitVec.and_assoc, BitVec.and_comm (~~~mask), BitVec.and_not_self]
    exact BitVec.and_zero
  rw [hz, beq_eq_false_iff_ne]
  exact h.symm

/-- Setting a bit that is set, clearing a bit that is clear. -/
theorem bitSet_of_isset {x mask : BitVec w} (h : bitIsset x mask = true) : bitSet x mask = x := by
  unfold bitIsset at h
  rw [beq_iff_eq] at h
  unfold bitSet
  apply BitVec.eq_of_getLsbD_eq
  intro i _
  have hb : (x.getLsbD i && mask.getLsbD i) = mask.getLsbD i := by
    rw [← BitVec.getLsbD_and, h]
  rw [BitVec.getLsbD_or, ← hb]
  cases x.getLsbD i <;> simp

theorem bitClear_of_not_isset {x : BitVec w} {i : Nat} (hi : i < w)
    (h : bitIsset x (BitVec.twoPow w i) = false) : bitClear x (BitVec.twoPow w i) = x := by
  rw [bitIsset_twoPow hi] at h
  unfold bitClear
  apply BitVec.eq_of_getLsbD_eq
  intro j hj
  rw [BitVec.getLsbD_and, BitVec.getLsbD_not, BitVec.getLsbD_twoPow, decide_eq_true hj,
    Bool.true_and]
  by_cases he : i = j
  · subst he
    rw [h, Bool.false_and]
  · rw [decide_eq_false he, Bool.and_false, Bool.not_false, Bool.and_true]

/-- Setting bits outside a mask. -/
theorem bitIsset_bitSet_of_disjoint (x : BitVec w) {mask other : BitVec w}
    (h : mask &&& other = 0#w) : bitIsset (bitSet x mask) other = bitIsset x other := by
  unfold bitIsset bitSet
  rw [BitVec.and_comm, BitVec.and_or_distrib_left, BitVec.and_comm other mask, h, BitVec.or_zero,
    BitVec.and_comm]

/-- Clearing bits outside a mask. -/
theorem bitIsset_bitClear_of_disjoint (x : BitVec w) {mask other : BitVec w}
    (h : mask &&& other = 0#w) : bitIsset (bitClear x mask) other = bitIsset x other := by
  have ho : ~~~mask &&& other = other := by
    apply BitVec.eq_of_getLsbD_eq
    intro i hi
    have hb : (mask.getLsbD i && other.getLsbD i) = false := by
      rw [← BitVec.getLsbD_and, h, BitVec.getLsbD_zero]
    rw [BitVec.getLsbD_and, BitVec.getLsbD_not, decide_eq_true hi, Bool.true_and]
    cases hn : other.getLsbD i with
    | false => rw [Bool.and_false]
    | true =>
      rw [hn, Bool.and_true] at hb
      rw [hb, Bool.and_true, Bool.not_false]
  unfold bitIsset bitClear
  rw [BitVec.and_assoc, ho]

/-- Several bits are set if each of them is. -/
theorem bitIsset_or (x mask other : BitVec w) :
    bitIsset x (mask ||| other) = (bitIsset x mask && bitIsset x other) := by
  have hbits : ∀ m : BitVec w, bitIsset x m = true ↔ ∀ i, m.getLsbD i = true →
      x.getLsbD i = true := by
    intro m
    unfold bitIsset
    rw [beq_iff_eq]
    constructor
    · intro he i hi
      rw [← he, BitVec.getLsbD_and, Bool.and_eq_true] at hi
      exact hi.1
    · intro hall
      apply BitVec.eq_of_getLsbD_eq
      intro i _
      rw [BitVec.getLsbD_and]
      cases hi : m.getLsbD i with
      | false => rw [Bool.and_false]
      | true => rw [hall i hi, Bool.and_self]
  rw [Bool.eq_iff_iff, Bool.and_eq_true, hbits, hbits, hbits]
  constructor
  · intro hall
    exact ⟨fun i hi => hall i (by rw [BitVec.getLsbD_or, hi, Bool.true_or]),
      fun i hi => hall i (by rw [BitVec.getLsbD_or, hi, Bool.or_true])⟩
  · rintro ⟨hm, ho⟩ i hi
    rw [BitVec.getLsbD_or, Bool.or_eq_true] at hi
    exact hi.elim (hm i) (ho i)

end Ufw
