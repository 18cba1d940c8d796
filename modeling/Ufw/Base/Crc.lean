/-
  File:      Ufw/Base/Crc.lean
  Subject:   CYCLIC REDUNDANCY CHECKS of any width, bit by bit: a register that is shifted to the
             right, and takes a reflected polynomial whenever a one is shifted out.

  * `crcBit`, `crcBits` -- one bit, and a string of them;
  * `crcBits_xor` -- **the register is linear** in what it holds and in what it is fed;
  * `crcBits_own` -- a register that is fed its own low bits only shifts;
  * `crcBits_zeros_inj` -- **no two registers meet on zeros**, if the polynomial has a constant
    term;
  * `crcBits_burst` -- **a burst no longer than the register is never lost**;
  * `octetBits`, `messageBits` -- the bits of octets, the least significant one first;
  * `crcBits_feed`, `crcBits_low` -- **an octet at a time**, with a table for the low octet.

  Nothing here names a particular program.
-/
import Ufw.Base.Octets
import Mathlib.Data.List.GetD

namespace Base

variable {w : Nat}

/-! ## 1. The register -/

/-- One bit is fed to the register; what is shifted out is added to it. -/
def crcBit (poly x : BitVec w) (b : Bool) : BitVec w :=
  if (x.getLsbD 0 ^^ b) = true then (x >>> 1) ^^^ poly else x >>> 1

/-- A string of bits, the first one first. -/
def crcBits (poly : BitVec w) : BitVec w → List Bool → BitVec w
  | x, [] => x
  | x, b :: bits => crcBits poly (crcBit poly x b) bits

section Register

variable {poly x y : BitVec w} {a b : List Bool}

theorem crcBits_append (poly x : BitVec w) (a b : List Bool) :
    crcBits poly x (a ++ b) = crcBits poly (crcBits poly x a) b := by
  induction a generalizing x with
  | nil => rfl
  | cons bit a ih => exact ih (crcBit poly x bit)

/-- The bits of the register behind a step. -/
theorem getLsbD_crcBit (poly x : BitVec w) (b : Bool) (i : Nat) :
    (crcBit poly x b).getLsbD i =
      (x.getLsbD (1 + i) ^^ ((x.getLsbD 0 ^^ b) && poly.getLsbD i)) := by
  unfold crcBit
  cases hout : x.getLsbD 0 ^^ b with
  | false =>
    rw [if_neg Bool.false_ne_true, BitVec.getLsbD_ushiftRight, Bool.false_and, Bool.xor_false]
  | true => rw [if_pos rfl, BitVec.getLsbD_xor, BitVec.getLsbD_ushiftRight, Bool.true_and]

/-- One step is linear. -/
theorem crcBit_xor (poly x y : BitVec w) (p q : Bool) :
    crcBit poly (x ^^^ y) (p ^^ q) = crcBit poly x p ^^^ crcBit poly y q := by
  apply BitVec.eq_of_getLsbD_eq
  intro i _
  simp only [BitVec.getLsbD_xor, getLsbD_crcBit]
  cases x.getLsbD 0 <;> cases y.getLsbD 0 <;> cases p <;> cases q <;> cases poly.getLsbD i <;> simp

/-- **The register is linear** in what it holds and in what it is fed. -/
theorem crcBits_xor (poly x y : BitVec w) (hlen : a.length = b.length) :
    crcBits poly (x ^^^ y) (a.zipWith (· ^^ ·) b) = crcBits poly x a ^^^ crcBits poly y b := by
  induction a generalizing b x y with
  | nil =>
    rw [List.length_eq_zero_iff.mp hlen.symm]
    rfl
  | cons p a ih =>
    obtain ⟨q, b, rfl⟩ := List.exists_cons_of_length_pos (lt_of_lt_of_eq a.length.succ_pos hlen)
    rw [List.zipWith_cons_cons, crcBits, crcBit_xor, ih _ _ (Nat.succ.inj hlen)]
    rfl

/-- **A register that is fed its own low bits** only shifts. -/
theorem crcBits_own (poly : BitVec w) (hown : ∀ i, i < a.length → x.getLsbD i = a.getD i false) :
    crcBits poly x a = x >>> a.length := by
  induction a generalizing x with
  | nil => exact (BitVec.ushiftRight_zero x).symm
  | cons p a ih =>
    have hstep : crcBit poly x p = x >>> 1 := by
      have hbit : x.getLsbD 0 = p := hown 0 (Nat.zero_lt_succ _)
      unfold crcBit
      rw [hbit, Bool.xor_self, if_neg Bool.false_ne_true]
    rw [crcBits, hstep, ih, ← BitVec.shiftRight_add, List.length_cons, Nat.add_comm]
    intro i hi
    rw [BitVec.getLsbD_ushiftRight, Nat.add_comm]
    exact hown (i + 1) (Nat.succ_lt_succ hi)

/-- An empty register that is fed zeros stays empty. -/
theorem crcBits_zero (poly : BitVec w) (n : Nat) :
    crcBits poly 0#w (List.replicate n false) = 0#w := by
  rw [crcBits_own poly, BitVec.zero_ushiftRight]
  intro i hi
  rw [List.length_replicate] at hi
  rw [BitVec.getLsbD_zero, List.getD_replicate _ hi]

/-- A zero is shifted in without loss, where the polynomial has a constant term: the high bit tells
    what was shifted out. -/
theorem crcBit_false_inj (hpoly : poly.getLsbD (w - 1) = true)
    (he : crcBit poly x false = crcBit poly y false) : x = y := by
  have hbits : ∀ i, (x.getLsbD (1 + i) ^^ (x.getLsbD 0 && poly.getLsbD i)) =
      (y.getLsbD (1 + i) ^^ (y.getLsbD 0 && poly.getLsbD i)) := by
    intro i
    have hi := congrArg (fun v : BitVec w => v.getLsbD i) he
    simpa only [getLsbD_crcBit, Bool.xor_false] using hi
  have hzero : x.getLsbD 0 = y.getLsbD 0 := by
    have hlast := hbits (w - 1)
    rwa [BitVec.getLsbD_of_ge x _ (by omega), BitVec.getLsbD_of_ge y _ (by omega), hpoly,
      Bool.false_xor, Bool.false_xor, Bool.and_true, Bool.and_true] at hlast
  apply BitVec.eq_of_getLsbD_eq
  intro i _
  cases i with
  | zero => exact hzero
  | succ i =>
    have hi := hbits i
    rwa [hzero, Bool.xor_left_inj, Nat.add_comm] at hi

/-- **No two registers meet on zeros.** -/
theorem crcBits_zeros_inj (hpoly : poly.getLsbD (w - 1) = true) (n : Nat)
    (he : crcBits poly x (List.replicate n false) = crcBits poly y (List.replicate n false)) :
    x = y := by
  induction n generalizing x y with
  | zero => exact he
  | succ n ih => exact crcBit_false_inj hpoly (ih he)

/-! ## 2. Bursts -/

theorem zipWith_xor_zeros (a : List Bool) :
    a.zipWith (· ^^ ·) (List.replicate a.length false) = a := by
  induction a with
  | nil => rfl
  | cons p a ih =>
    rw [List.length_cons, List.replicate_succ, List.zipWith_cons_cons, ih, Bool.xor_false]

/-- A string no longer than the register leaves a trace in it. -/
theorem crcBits_short (hpoly : poly.getLsbD (w - 1) = true) (hw : a.length ≤ w)
    (hone : true ∈ a) : crcBits poly 0#w a ≠ 0#w := by
  obtain ⟨v, hv⟩ : ∃ v : BitVec w, v = (BitVec.ofBoolListLE a).setWidth w := ⟨_, rfl⟩
  have hbits : ∀ i, i < w → v.getLsbD i = a.getD i false := by
    intro i hi
    rw [hv, BitVec.getLsbD_setWidth, decide_eq_true hi, Bool.true_and, BitVec.getLsbD_ofBoolListLE]
  -- the register that holds the string itself would shift it out
  have hown : crcBits poly v a = 0#w := by
    rw [crcBits_own poly fun i hi => hbits i (lt_of_lt_of_le hi hw)]
    apply BitVec.eq_of_getLsbD_eq
    intro i hi
    rw [BitVec.getLsbD_ushiftRight, BitVec.getLsbD_zero]
    by_cases hlt : a.length + i < w
    · rw [hbits _ hlt, List.getD_eq_default _ _ (Nat.le_add_right _ _)]
    · exact BitVec.getLsbD_of_ge _ _ (not_lt.mp hlt)
  have hsum : crcBits poly 0#w a =
      crcBits poly v a ^^^ crcBits poly v (List.replicate a.length false) := by
    rw [← crcBits_xor poly v v (List.length_replicate).symm, BitVec.xor_self, zipWith_xor_zeros]
  intro hzero
  rw [hsum, hown, BitVec.zero_xor, ← crcBits_zero poly a.length] at hzero
  have hv0 : v = 0#w := crcBits_zeros_inj hpoly a.length hzero
  obtain ⟨i, hi, hget⟩ := List.getElem_of_mem hone
  have hbit := hbits i (lt_of_lt_of_le hi hw)
  rw [hv0, BitVec.getLsbD_zero, List.getD_eq_getElem _ _ hi, hget] at hbit
  exact Bool.false_ne_true hbit

/-- **A burst no longer than the register is never lost**, wherever it stands. -/
theorem crcBits_burst (hpoly : poly.getLsbD (w - 1) = true) {e : List Bool} {i : Nat}
    (hone : true ∈ e) (hburst : ∀ j, e.getD j false = true → i ≤ j ∧ j < i + w) :
    crcBits poly 0#w e ≠ 0#w := by
  have hfalse : ∀ l : List Bool, true ∉ l → l = List.replicate l.length false := fun l hl =>
    List.eq_replicate_length.mpr fun p hp => by
      cases p with
      | false => rfl
      | true => exact absurd hp hl
  have hbefore : true ∉ e.take i := by
    intro hmem
    obtain ⟨j, hj, hget⟩ := List.getElem_of_mem hmem
    rw [List.length_take] at hj
    have hbit := hburst j (by
      rw [List.getD_eq_getElem _ _ (by omega)]
      rwa [List.getElem_take] at hget)
    omega
  have hafter : true ∉ (e.drop i).drop w := by
    intro hmem
    obtain ⟨j, hj, hget⟩ := List.getElem_of_mem hmem
    rw [List.drop_drop, List.length_drop] at hj
    have hbit := hburst (i + (w + j)) (by
      rw [List.getD_eq_getElem _ _ (by omega)]
      rwa [List.getElem_drop, List.getElem_drop] at hget)
    omega
  have hmiddle : true ∈ (e.drop i).take w := by
    rw [← List.take_append_drop i e, List.mem_append, ← List.take_append_drop w (e.drop i),
      List.mem_append] at hone
    exact (hone.resolve_left hbefore).resolve_right hafter
  have hsplit : e = e.take i ++ ((e.drop i).take w ++ (e.drop i).drop w) := by
    rw [List.take_append_drop, List.take_append_drop]
  intro hzero
  rw [hsplit, crcBits_append, crcBits_append, hfalse _ hbefore, crcBits_zero,
    hfalse _ hafter] at hzero
  have hmeet := crcBits_zeros_inj hpoly _ (hzero.trans (crcBits_zero poly _).symm)
  exact crcBits_short hpoly (List.length_take_le _ _) hmiddle hmeet

end Register

/-! ## 3. Octets -/

/-- The bits of an octet, the least significant one first. -/
def octetBits (o : Octet) : List Bool := (List.range 8).map o.getLsbD

/-- The bits of a message, octet by octet. -/
def messageBits (l : List Octet) : List Bool := l.flatMap octetBits

@[simp] theorem length_octetBits (o : Octet) : (octetBits o).length = 8 := by
  rw [octetBits, List.length_map, List.length_range]

theorem messageBits_cons (o : Octet) (l : List Octet) :
    messageBits (o :: l) = octetBits o ++ messageBits l := List.flatMap_cons

theorem getD_octetBits (o : Octet) {i : Nat} (hi : i < 8) :
    (octetBits o).getD i false = o.getLsbD i := by
  rw [List.getD_eq_getElem _ _ (by rwa [length_octetBits])]
  simp only [octetBits, List.getElem_map, List.getElem_range]

theorem octetBits_xor (o o' : Octet) :
    octetBits (o ^^^ o') = (octetBits o).zipWith (· ^^ ·) (octetBits o') := by
  unfold octetBits
  rw [List.zipWith_map, List.zipWith_self]
  exact List.map_congr_left fun i _ => BitVec.getLsbD_xor

/-- **An octet is fed to the register**, or added to its low bits beforehand. -/
theorem crcBits_feed (poly x : BitVec w) (hw : 8 ≤ w) (o : Octet) :
    crcBits poly x (octetBits o) = crcBits poly (x ^^^ o.setWidth w) (List.replicate 8 false) := by
  obtain ⟨v, hv⟩ : ∃ v : BitVec w, o.setWidth w = v := ⟨_, rfl⟩
  have hown : crcBits poly v (octetBits o) = 0#w := by
    rw [crcBits_own poly, length_octetBits, ← hv]
    · apply BitVec.eq_of_getLsbD_eq
      intro i _
      rw [BitVec.getLsbD_ushiftRight, BitVec.getLsbD_setWidth,
        BitVec.getLsbD_of_ge o _ (Nat.le_add_right 8 i), Bool.and_false, BitVec.getLsbD_zero]
    · intro i hi
      rw [length_octetBits] at hi
      rw [← hv, BitVec.getLsbD_setWidth, decide_eq_true (lt_of_lt_of_le hi hw), Bool.true_and,
        getD_octetBits o hi]
  have hcancel : (List.replicate 8 false).zipWith (· ^^ ·) (octetBits o) = octetBits o := by
    rw [List.zipWith_comm_of_comm Bool.xor_comm, ← length_octetBits o, zipWith_xor_zeros]
  have hsum := crcBits_xor poly (x ^^^ v) v (a := List.replicate 8 false) (b := octetBits o)
    (by rw [List.length_replicate, length_octetBits])
  rw [hown, BitVec.xor_zero, hcancel, BitVec.xor_assoc, BitVec.xor_self, BitVec.xor_zero] at hsum
  rw [hv]
  exact hsum

/-- **Several zeros at once**: the high bits of the register only shift, so a table of what becomes
    of the low ones is enough. -/
theorem crcBits_low (poly y : BitVec w) (n : Nat) :
    crcBits poly y (List.replicate n false) =
      (y >>> n) ^^^ crcBits poly ((y.setWidth n).setWidth w) (List.replicate n false) := by
  obtain ⟨low, hlow⟩ : ∃ low : BitVec w, (y.setWidth n).setWidth w = low := ⟨_, rfl⟩
  have hbit (i : Nat) (hi : i < w) : low.getLsbD i = (decide (i < n) && y.getLsbD i) := by
    rw [← hlow, BitVec.getLsbD_setWidth, decide_eq_true hi, Bool.true_and, BitVec.getLsbD_setWidth]
  have hhigh : crcBits poly (y ^^^ low) (List.replicate n false) = y >>> n := by
    rw [crcBits_own poly, List.length_replicate]
    · apply BitVec.eq_of_getLsbD_eq
      intro i _
      rw [BitVec.getLsbD_ushiftRight, BitVec.getLsbD_ushiftRight, BitVec.getLsbD_xor]
      by_cases hi : n + i < w
      · rw [hbit _ hi, decide_eq_false (by omega), Bool.false_and, Bool.xor_false]
      · rw [BitVec.getLsbD_of_ge low _ (not_lt.mp hi), Bool.xor_false]
    · intro i hi
      rw [List.length_replicate] at hi
      rw [BitVec.getLsbD_xor, List.getD_replicate _ hi]
      by_cases hw : i < w
      · rw [hbit i hw, decide_eq_true hi, Bool.true_and, Bool.xor_self]
      · rw [BitVec.getLsbD_of_ge y _ (not_lt.mp hw), BitVec.getLsbD_of_ge low _ (not_lt.mp hw),
          Bool.xor_self]
  have hsum := crcBits_xor poly (y ^^^ low) low (a := List.replicate n false)
    (b := List.replicate n false) rfl
  rw [BitVec.xor_assoc, BitVec.xor_self, BitVec.xor_zero, hhigh, List.zipWith_replicate,
    Nat.min_self, Bool.xor_self] at hsum
  rw [hlow]
  exact hsum

/-- The bits of a message that a pattern is laid over. -/
theorem messageBits_zipWith {m e : List Octet} (hlen : e.length = m.length) :
    messageBits (m.zipWith (· ^^^ ·) e) = (messageBits m).zipWith (· ^^ ·) (messageBits e) ∧
      (messageBits m).length = (messageBits e).length := by
  induction m generalizing e with
  | nil =>
    rw [List.length_eq_zero_iff.mp hlen]
    exact ⟨rfl, rfl⟩
  | cons o m ih =>
    obtain ⟨o', e, rfl⟩ :=
      List.exists_cons_of_length_pos (lt_of_lt_of_eq m.length.succ_pos hlen.symm)
    obtain ⟨hbits, hlength⟩ := ih (Nat.succ.inj hlen)
    have hoctets : (octetBits o).length = (octetBits o').length := by
      rw [length_octetBits, length_octetBits]
    refine ⟨?_, ?_⟩
    · rw [List.zipWith_cons_cons, messageBits_cons, messageBits_cons, messageBits_cons, hbits,
        octetBits_xor, List.zipWith_append hoctets]
    · rw [messageBits_cons, messageBits_cons, List.length_append, List.length_append, hlength,
        hoctets]

end Base
