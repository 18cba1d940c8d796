/-
  File:      Ufw/Base/CrcErrors.lean
  Subject:   WHICH ERRORS A CYCLIC REDUNDANCY CHECK LOSES: an odd number of bits, and two bits.

  * `xorAll`, `parityBelow` -- the parity of a string, and that of a register;
  * `crcBits_parity` -- **a polynomial of odd weight keeps the parity of what is fed**, so an odd
    number of bits is never lost (`crcBits_odd`);
  * `crcShift` -- a zero is fed: the register is multiplied by x, `crcOne` being one;
  * `crcBits_two` -- **two bits are lost exactly where their distance is a period of `crcOne`**;
  * `crcMul` -- the product of two registers, and `crcShift_add`: exponents are added;
  * `minimalPeriod_eq_of_not_dvd` -- a period none of whose maximal divisors is one.

  Nothing here names a particular program.
-/
import Mathlib.Dynamics.PeriodicPts.Defs
import Mathlib.Data.Nat.Prime.Basic
import Ufw.Base.Crc

namespace Base

variable {w : Nat}

/-! ## 1. Parity -/

/-- Whether an odd number of the bits are set. -/
def xorAll : List Bool → Bool
  | [] => false
  | b :: l => b ^^ xorAll l

/-- The parity of the low `n` bits of a register. -/
def parityBelow (x : BitVec w) : Nat → Bool
  | 0 => false
  | n + 1 => parityBelow x n ^^ x.getLsbD n

section Parity

variable {poly x y : BitVec w}

theorem xorAll_eq (l : List Bool) : xorAll l = decide (l.count true % 2 = 1) := by
  induction l with
  | nil => rfl
  | cons b l ih =>
    rw [xorAll, ih, List.count_cons]
    cases b with
    | false => simp
    | true =>
      by_cases h : l.count true % 2 = 1
      · simp [h, Nat.add_mod]
      · have h0 : l.count true % 2 = 0 := by omega
        simp [h0, Nat.add_mod]

theorem parityBelow_xor (x y : BitVec w) (n : Nat) :
    parityBelow (x ^^^ y) n = (parityBelow x n ^^ parityBelow y n) := by
  induction n with
  | zero => rfl
  | succ n ih =>
    simp only [parityBelow, ih, BitVec.getLsbD_xor]
    cases parityBelow x n <;> cases parityBelow y n <;> cases x.getLsbD n <;> simp

/-- What is shifted out is missing. -/
theorem parityBelow_shift (x : BitVec w) (n : Nat) :
    parityBelow (x >>> 1) n = (parityBelow x (n + 1) ^^ x.getLsbD 0) := by
  induction n with
  | zero => simp [parityBelow]
  | succ n ih =>
    rw [parityBelow, ih, BitVec.getLsbD_ushiftRight, Nat.add_comm 1 n]
    exact Bool.xor_right_comm _ _ _

/-- The parity of a register is that of its bits. -/
theorem parityBelow_full (x : BitVec w) : parityBelow x (w + 1) = parityBelow x w := by
  rw [parityBelow, BitVec.getLsbD_of_ge x w (le_refl w), Bool.xor_false]

theorem parityBelow_crcBit (hpoly : parityBelow poly w = true) (x : BitVec w) (b : Bool) :
    parityBelow (crcBit poly x b) w = (parityBelow x w ^^ b) := by
  have hshift := parityBelow_shift x w
  rw [parityBelow_full] at hshift
  unfold crcBit
  cases hout : x.getLsbD 0 ^^ b with
  | false =>
    have heq : x.getLsbD 0 = b := by simpa using hout
    rw [if_neg Bool.false_ne_true, hshift, heq]
  | true =>
    have hne : x.getLsbD 0 = !b := Bool.eq_not.mpr (by simpa using hout)
    rw [if_pos rfl, parityBelow_xor, hshift, hpoly, hne]
    cases parityBelow x w <;> cases b <;> rfl

/-- **A polynomial of odd weight keeps the parity of what is fed.** -/
theorem crcBits_parity (hpoly : parityBelow poly w = true) (x : BitVec w) (l : List Bool) :
    parityBelow (crcBits poly x l) w = (parityBelow x w ^^ xorAll l) := by
  induction l generalizing x with
  | nil => exact (Bool.xor_false _).symm
  | cons b l ih => rw [crcBits, ih, parityBelow_crcBit hpoly, xorAll, Bool.xor_assoc]

theorem parityBelow_zero (n : Nat) : parityBelow 0#w n = false := by
  induction n with
  | zero => rfl
  | succ n ih => rw [parityBelow, ih, BitVec.getLsbD_zero, Bool.false_xor]

/-- **An odd number of bits is never lost.** -/
theorem crcBits_odd (hpoly : parityBelow poly w = true) {e : List Bool}
    (hodd : e.count true % 2 = 1) : crcBits poly 0#w e ≠ 0#w := by
  intro hzero
  have hparity := crcBits_parity hpoly 0#w e
  rw [hzero, parityBelow_zero, Bool.false_xor, xorAll_eq, decide_eq_true hodd] at hparity
  exact Bool.false_ne_true hparity

end Parity

/-! ## 2. Powers of x -/

/-- A zero is fed: the register is multiplied by x. -/
def crcShift (poly x : BitVec w) : BitVec w := crcBit poly x false

/-- One: the constant term is the high bit. -/
def crcOne (w : Nat) : BitVec w := .twoPow w (w - 1)

/-- A bit is fed to the register of a product, Horner's way. -/
def crcMulLow (poly x y : BitVec w) : Nat → BitVec w
  | 0 => 0#w
  | n + 1 => crcShift poly (crcMulLow poly x y n) ^^^ if x.getLsbD n then y else 0#w

/-- **The product of two registers.** -/
def crcMul (poly x y : BitVec w) : BitVec w := crcMulLow poly x y w

section Powers

variable {poly x y : BitVec w}

theorem crcShift_xor (poly x y : BitVec w) :
    crcShift poly (x ^^^ y) = crcShift poly x ^^^ crcShift poly y :=
  crcBit_xor poly x y false false

theorem crcShift_injective (hpoly : poly.getLsbD (w - 1) = true) :
    Function.Injective (crcShift poly) := fun _ _ => crcBit_false_inj hpoly

theorem crcBits_replicate (poly x : BitVec w) (n : Nat) :
    crcBits poly x (List.replicate n false) = (crcShift poly)^[n] x := by
  induction n generalizing x with
  | zero => rfl
  | succ n ih => exact ih (crcShift poly x)

theorem iterate_xor (poly x y : BitVec w) (n : Nat) :
    (crcShift poly)^[n] (x ^^^ y) = (crcShift poly)^[n] x ^^^ (crcShift poly)^[n] y := by
  induction n generalizing x y with
  | zero => rfl
  | succ n ih =>
    rw [Function.iterate_succ_apply, crcShift_xor, ih]
    rfl

theorem iterate_zero (poly : BitVec w) (n : Nat) : (crcShift poly)^[n] 0#w = 0#w := by
  rw [← crcBits_replicate, crcBits_zero]

/-- As long as nothing is shifted out, a register only moves. -/
theorem crcShift_of_even (hx : x.getLsbD 0 = false) : crcShift poly x = x >>> 1 := by
  unfold crcShift crcBit
  rw [hx, Bool.false_xor, if_neg Bool.false_ne_true]

theorem getLsbD_ite_one {c : Prop} [Decidable c] {i : Nat} (hi : i < w) :
    (if c then crcOne w else 0#w).getLsbD i = decide (c ∧ i = w - 1) := by
  unfold crcOne
  by_cases hc : c
  · rw [if_pos hc, BitVec.getLsbD_twoPow, decide_eq_true (by omega), Bool.true_and]
    simp only [hc, true_and, eq_comm]
  · rw [if_neg hc, BitVec.getLsbD_zero]
    simp only [hc, false_and, decide_false]

/-- **The product with a power of one is that power of the product.** The low bits of `x` are moved
    into the high ones step by step. -/
theorem crcMulLow_iterate (x : BitVec w) (n : Nat) {k : Nat} (hk : k ≤ w) :
    crcMulLow poly x ((crcShift poly)^[n] (crcOne w)) k = (crcShift poly)^[n] (x <<< (w - k)) := by
  induction k with
  | zero =>
    rw [crcMulLow, Nat.sub_zero, BitVec.shiftLeft_eq_zero (le_refl w), iterate_zero]
  | succ k ih =>
    have heven : (x <<< (w - k)).getLsbD 0 = false := by
      rw [BitVec.getLsbD_shiftLeft, decide_eq_true (by omega : 0 < w - k)]
      simp
    have hmove : x <<< (w - (k + 1)) =
        crcShift poly (x <<< (w - k)) ^^^ if x.getLsbD k then crcOne w else 0#w := by
      rw [crcShift_of_even heven]
      apply BitVec.eq_of_getLsbD_eq
      intro i hi
      rw [BitVec.getLsbD_xor, BitVec.getLsbD_ushiftRight, BitVec.getLsbD_shiftLeft,
        BitVec.getLsbD_shiftLeft, getLsbD_ite_one hi]
      by_cases hlast : i = w - 1
      · have hout : ¬1 + i < w := by omega
        have hlow : ¬i < w - (k + 1) := by omega
        have hindex : i - (w - (k + 1)) = k := by omega
        simp only [hindex, hout, hlow, hi, eq_true hlast, decide_true, decide_false, Bool.not_false,
          Bool.true_and, Bool.false_and, Bool.false_xor, and_true, Bool.decide_eq_true]
      · have hin : 1 + i < w := by omega
        have hlow : 1 + i < w - k ↔ i < w - (k + 1) := by omega
        have hindex : 1 + i - (w - k) = i - (w - (k + 1)) := by omega
        simp only [hindex, hin, hlow, hi, hlast, decide_true, and_false, decide_false,
          Bool.xor_false]
    have hcommute : crcShift poly ((crcShift poly)^[n] (x <<< (w - k))) =
        (crcShift poly)^[n] (crcShift poly (x <<< (w - k))) :=
      (Function.iterate_succ_apply' _ n _).symm.trans (Function.iterate_succ_apply _ n _)
    rw [crcMulLow, ih (by omega), hmove, iterate_xor, hcommute]
    refine congrArg _ ?_
    split
    · rfl
    · rw [iterate_zero]

/-- **The product with a power of one** is that power of the register. -/
theorem crcMul_iterate (poly x : BitVec w) (n : Nat) :
    crcMul poly x ((crcShift poly)^[n] (crcOne w)) = (crcShift poly)^[n] x := by
  rw [crcMul, crcMulLow_iterate x n (le_refl w), Nat.sub_self, BitVec.shiftLeft_zero]

/-- **Exponents are added.** -/
theorem crcShift_add {m n : Nat} (hx : (crcShift poly)^[m] (crcOne w) = x)
    (hy : (crcShift poly)^[n] (crcOne w) = y) :
    (crcShift poly)^[m + n] (crcOne w) = crcMul poly x y := by
  rw [← hy, crcMul_iterate, ← hx, Nat.add_comm, Function.iterate_add_apply]

/-- One, shifted through the register, is the polynomial. -/
theorem crcShift_one (poly : BitVec w) (hw : 0 < w) :
    (crcShift poly)^[w] (crcOne w) = poly := by
  obtain ⟨n, hn⟩ : ∃ n, w = n + 1 := ⟨w - 1, by omega⟩
  subst hn
  have hbits : ∀ i, (crcOne (n + 1)).getLsbD i = decide (i = n) := by
    intro i
    unfold crcOne
    rw [BitVec.getLsbD_twoPow, Nat.add_sub_cancel, decide_eq_true (Nat.lt_succ_self n),
      Bool.true_and, decide_eq_decide]
    exact eq_comm
  have hlast : (crcShift poly)^[n] (crcOne (n + 1)) = crcOne (n + 1) >>> n := by
    have hown := crcBits_own (x := crcOne (n + 1)) (a := List.replicate n false) poly fun i hi => by
      rw [List.length_replicate] at hi
      rw [hbits, List.getD_replicate _ hi, decide_eq_false (by omega)]
    rwa [crcBits_replicate, List.length_replicate] at hown
  rw [Function.iterate_succ_apply', hlast]
  have hout : (crcOne (n + 1) >>> n).getLsbD 0 = true := by
    rw [BitVec.getLsbD_ushiftRight, hbits, decide_eq_true (Nat.add_zero n)]
  have hrest : crcOne (n + 1) >>> n >>> 1 = 0#(n + 1) := by
    apply BitVec.eq_of_getLsbD_eq
    intro i _
    rw [BitVec.getLsbD_ushiftRight, BitVec.getLsbD_ushiftRight, hbits, BitVec.getLsbD_zero,
      decide_eq_false (by omega)]
  unfold crcShift crcBit
  rw [hout, Bool.xor_false, if_pos rfl, hrest, BitVec.zero_xor]

/-- **The polynomial and one have the same periods**: zeros are shifted in without loss. -/
theorem crcShift_period_iff (hw : 0 < w) (hpoly : poly.getLsbD (w - 1) = true) (d : Nat) :
    (crcShift poly)^[d] poly = poly ↔ (crcShift poly)^[d] (crcOne w) = crcOne w := by
  have hone := crcShift_one poly hw
  have hstart : (crcShift poly)^[d] poly = (crcShift poly)^[w] ((crcShift poly)^[d] (crcOne w)) :=
    calc (crcShift poly)^[d] poly
        = (crcShift poly)^[d] ((crcShift poly)^[w] (crcOne w)) := congrArg _ hone.symm
      _ = (crcShift poly)^[w] ((crcShift poly)^[d] (crcOne w)) :=
        (Function.Commute.iterate_iterate_self (crcShift poly) d w).eq (crcOne w)
  exact (Eq.congr hstart hone.symm).trans ((crcShift_injective hpoly).iterate w).eq_iff

end Powers

/-! ## 3. Two bits -/

/-- A single bit behind `i` zeros and before `k` of them. -/
def singleBit (i k : Nat) : List Bool := List.replicate i false ++ true :: List.replicate k false

section TwoBits

variable {poly : BitVec w} {e : List Bool} {i j : Nat}

theorem length_singleBit (i k : Nat) : (singleBit i k).length = i + (k + 1) := by
  rw [singleBit, List.length_append, List.length_cons, List.length_replicate, List.length_replicate]

theorem getD_singleBit (i k n : Nat) : (singleBit i k).getD n false = decide (n = i) := by
  unfold singleBit
  rcases Nat.lt_trichotomy n i with hlt | rfl | hgt
  · rw [List.getD_append _ _ _ _ (by rwa [List.length_replicate]), List.getD_replicate _ hlt,
      decide_eq_false (by omega)]
  · rw [List.getD_append_right _ _ _ _ (by rw [List.length_replicate]), List.length_replicate,
      Nat.sub_self, decide_eq_true rfl]
    rfl
  · rw [List.getD_append_right _ _ _ _ (by rw [List.length_replicate]; omega),
      List.length_replicate, decide_eq_false (by omega)]
    obtain ⟨d, hd⟩ : ∃ d, n - i = d + 1 := ⟨n - i - 1, by omega⟩
    rw [hd, List.getD_cons_succ]
    by_cases hk : d < k
    · exact List.getD_replicate _ hk
    · exact List.getD_eq_default _ _ (by rw [List.length_replicate]; omega)

/-- A single bit leaves a power of the polynomial. -/
theorem crcBits_singleBit (poly : BitVec w) (i k : Nat) :
    crcBits poly 0#w (singleBit i k) = (crcShift poly)^[k] poly := by
  have hbit : crcBit poly 0#w true = poly := by
    unfold crcBit
    rw [BitVec.getLsbD_zero, Bool.false_xor, if_pos rfl, BitVec.zero_ushiftRight, BitVec.zero_xor]
  rw [singleBit, crcBits_append, crcBits_zero, crcBits, hbit, crcBits_replicate]

/-- **Two bits are lost exactly where their distance is a period of one.** -/
theorem crcBits_two (hw : 0 < w) (hpoly : poly.getLsbD (w - 1) = true) (hij : i < j)
    (hj : j < e.length) (he : ∀ n, e.getD n false = decide (n = i ∨ n = j)) :
    crcBits poly 0#w e = 0#w ↔ (crcShift poly)^[j - i] (crcOne w) = crcOne w := by
  have hlen : (singleBit i (e.length - 1 - i)).length =
      (singleBit j (e.length - 1 - j)).length := by
    rw [length_singleBit, length_singleBit]
    omega
  have hsplit : e = (singleBit i (e.length - 1 - i)).zipWith (· ^^ ·)
      (singleBit j (e.length - 1 - j)) := by
    apply List.ext_getElem
    · rw [List.length_zipWith, length_singleBit, length_singleBit]
      omega
    · intro n hn hn'
      rw [List.getElem_zipWith, ← List.getD_eq_getElem e false hn, he,
        ← List.getD_eq_getElem (singleBit i _) false, getD_singleBit,
        ← List.getD_eq_getElem (singleBit j _) false, getD_singleBit]
      by_cases h1 : n = i
      · have h2 : n ≠ j := by omega
        simp [h1, h1 ▸ h2]
      · simp [h1]
  have hshift : e.length - 1 - i = (e.length - 1 - j) + (j - i) := by omega
  rw [hsplit, ← BitVec.xor_zero (x := 0#w), crcBits_xor poly 0#w 0#w hlen, crcBits_singleBit,
    crcBits_singleBit, BitVec.xor_zero, BitVec.xor_eq_zero_iff, hshift, Function.iterate_add_apply,
    ((crcShift_injective hpoly).iterate _).eq_iff]
  exact crcShift_period_iff hw hpoly (j - i)

end TwoBits

/-! ## 4. Periods -/

/-- **The least period**, if none of the maximal divisors of a period is one. -/
theorem minimalPeriod_eq_of_not_dvd {α : Type} {f : α → α} {x : α} {n : Nat} (hn : f^[n] x = x)
    (hmax : ∀ p, p.Prime → p ∣ n → f^[n / p] x ≠ x) :
    Function.minimalPeriod f x = n := by
  have hdvd : Function.minimalPeriod f x ∣ n := Function.IsPeriodicPt.minimalPeriod_dvd hn
  obtain ⟨k, hk⟩ := hdvd
  by_cases hone : k = 1
  · rw [hk, hone, Nat.mul_one]
  · obtain ⟨p, hp, d, rfl⟩ := Nat.exists_prime_and_dvd hone
    have hquotient : n / p = Function.minimalPeriod f x * d := by
      rw [hk, Nat.mul_left_comm, Nat.mul_div_cancel_left _ hp.pos]
    refine absurd ?_ (hmax p hp ⟨Function.minimalPeriod f x * d, by rw [hk, Nat.mul_left_comm]⟩)
    rw [hquotient]
    exact (Function.isPeriodicPt_minimalPeriod f x).mul_const d

/-! ## 5. Few bits -/

/-- A string with one bit set. -/
theorem exists_of_count_one {l : List Bool} (h : l.count true = 1) :
    ∃ i, i < l.length ∧ ∀ n, l.getD n false = decide (n = i) := by
  induction l with
  | nil => cases h
  | cons b l ih =>
    cases b with
    | true =>
      have hnone : true ∉ l := List.count_eq_zero.mp (by simpa using h)
      refine ⟨0, Nat.zero_lt_succ _, fun n => ?_⟩
      cases n with
      | zero => rfl
      | succ n =>
        rw [List.getD_cons_succ, decide_eq_false (Nat.succ_ne_zero n)]
        by_cases hn : n < l.length
        · rw [List.getD_eq_getElem _ _ hn]
          exact Bool.eq_false_iff.mpr fun hget => hnone (hget ▸ List.getElem_mem hn)
        · exact List.getD_eq_default _ _ (not_lt.mp hn)
    | false =>
      obtain ⟨i, hi, hget⟩ := ih (by simpa using h)
      refine ⟨i + 1, Nat.succ_lt_succ hi, fun n => ?_⟩
      cases n with
      | zero => exact (decide_eq_false (Nat.succ_ne_zero i).symm).symm
      | succ n => rw [List.getD_cons_succ, hget]; exact decide_eq_decide.mpr (by omega)

/-- A string with two bits set. -/
theorem exists_of_count_two {l : List Bool} (h : l.count true = 2) :
    ∃ i j, i < j ∧ j < l.length ∧ ∀ n, l.getD n false = decide (n = i ∨ n = j) := by
  induction l with
  | nil => cases h
  | cons b l ih =>
    cases b with
    | true =>
      obtain ⟨j, hj, hget⟩ := exists_of_count_one (l := l) (by simpa using h)
      refine ⟨0, j + 1, Nat.zero_lt_succ _, Nat.succ_lt_succ hj, fun n => ?_⟩
      cases n with
      | zero => exact (decide_eq_true (Or.inl rfl)).symm
      | succ n => rw [List.getD_cons_succ, hget]; exact decide_eq_decide.mpr (by omega)
    | false =>
      obtain ⟨i, j, hij, hj, hget⟩ := ih (by simpa using h)
      refine ⟨i + 1, j + 1, Nat.succ_lt_succ hij, Nat.succ_lt_succ hj, fun n => ?_⟩
      cases n with
      | zero => exact (decide_eq_false (by omega)).symm
      | succ n => rw [List.getD_cons_succ, hget]; exact decide_eq_decide.mpr (by omega)

theorem length_messageBits (l : List Octet) : (messageBits l).length = 8 * l.length := by
  induction l with
  | nil => rfl
  | cons o l ih =>
    rw [messageBits_cons, List.length_append, length_octetBits, ih, List.length_cons]
    omega

/-- A message is known by its bits. -/
theorem messageBits_inj {m m' : List Octet} (hlen : m'.length = m.length)
    (h : messageBits m = messageBits m') : m = m' := by
  induction m generalizing m' with
  | nil => exact (List.length_eq_zero_iff.mp hlen).symm
  | cons o m ih =>
    obtain ⟨o', m', rfl⟩ :=
      List.exists_cons_of_length_pos (lt_of_lt_of_eq m.length.succ_pos hlen.symm)
    rw [messageBits_cons, messageBits_cons] at h
    obtain ⟨hhead, htail⟩ := List.append_inj h (by rw [length_octetBits, length_octetBits])
    have ho : o = o' := by
      apply BitVec.eq_of_getLsbD_eq
      intro i hi
      rw [← getD_octetBits o hi, ← getD_octetBits o' hi, hhead]
    rw [ho, ih (Nat.succ.inj hlen) htail]

/-- Strings that differ nowhere are equal. -/
theorem eq_of_xor_false {a b : List Bool} (hlen : a.length = b.length)
    (h : (a.zipWith (· ^^ ·) b).count true = 0) : a = b := by
  induction a generalizing b with
  | nil => exact (List.length_eq_zero_iff.mp hlen.symm).symm
  | cons p a ih =>
    obtain ⟨q, b, rfl⟩ := List.exists_cons_of_length_pos (lt_of_lt_of_eq a.length.succ_pos hlen)
    rw [List.zipWith_cons_cons, List.count_cons] at h
    have hrest := ih (Nat.succ.inj hlen) (by omega)
    cases p <;> cases q <;> simp_all

/-- The pattern between two messages. -/
theorem zipWith_xor_cancel {m m' : List Octet} (hlen : m'.length = m.length) :
    m.zipWith (· ^^^ ·) (m.zipWith (· ^^^ ·) m') = m' := by
  induction m generalizing m' with
  | nil => exact (List.length_eq_zero_iff.mp hlen).symm
  | cons o m ih =>
    obtain ⟨o', m', rfl⟩ :=
      List.exists_cons_of_length_pos (lt_of_lt_of_eq m.length.succ_pos hlen.symm)
    rw [List.zipWith_cons_cons, List.zipWith_cons_cons, ih (Nat.succ.inj hlen), ← BitVec.xor_assoc,
      BitVec.xor_self, BitVec.zero_xor]

end Base
