/-
  File:      Ufw/Base/Flips.lean
  Subject:   ONE FLIPPED BIT in a string of octets.

  * `flipBit` -- the string with one bit inverted;
  * `flipBit_split` -- **it differs from the string in one octet, and only there**;
  * `ofOctets_flipBit_two` -- the word two octets denote, with the bit inverted.

  Nothing here names a particular program.
-/
import Ufw.Base.Octets
import Mathlib.Tactic.IntervalCases

namespace Base

/-- The string with the bit `i` inverted, counted from the low bit of the first octet on. -/
def flipBit : List Octet → Nat → List Octet
  | [], _ => []
  | o :: os, i => if i < 8 then (o ^^^ BitVec.twoPow 8 i) :: os else o :: flipBit os (i - 8)

section Flips

variable {a b l : List Octet} {i : Nat}

@[simp] theorem length_flipBit (l : List Octet) (i : Nat) : (flipBit l i).length = l.length := by
  induction l generalizing i with
  | nil => rfl
  | cons o os ih =>
    unfold flipBit
    split
    · rfl
    · rw [List.length_cons, ih, List.length_cons]

/-- A flip in the front of a string. -/
theorem flipBit_append_left (hi : i < 8 * a.length) :
    flipBit (a ++ b) i = flipBit a i ++ b := by
  induction a generalizing i with
  | nil => exact absurd hi (Nat.not_lt_zero i)
  | cons o os ih =>
    rw [List.cons_append, flipBit, flipBit]
    split
    · rfl
    · rw [List.cons_append, ih]
      rw [List.length_cons] at hi
      omega

/-- A flip behind the front. -/
theorem flipBit_append_right (hi : 8 * a.length ≤ i) :
    flipBit (a ++ b) i = a ++ flipBit b (i - 8 * a.length) := by
  induction a generalizing i with
  | nil => rfl
  | cons o os ih =>
    rw [List.length_cons] at hi
    rw [List.cons_append, flipBit, if_neg (by omega), ih (by omega), List.cons_append,
      List.length_cons, Nat.sub_sub, Nat.mul_add, Nat.add_comm]

section Parts

variable {k : Nat} (hk : k ≤ l.length)

include hk

theorem flipBit_take_drop (hi : i < 8 * k) :
    (flipBit l i).take k = flipBit (l.take k) i ∧ (flipBit l i).drop k = l.drop k := by
  have hlen : (l.take k).length = k := List.length_take_of_le hk
  have hflip : flipBit l i = flipBit (l.take k) i ++ l.drop k := by
    rw [← flipBit_append_left (by rw [hlen]; exact hi), List.take_append_drop]
  have hlen' : (flipBit (l.take k) i).length = k := by rw [length_flipBit, hlen]
  rw [hflip]
  exact ⟨List.take_left' hlen', List.drop_left' hlen'⟩

theorem flipBit_take_right (hi : 8 * k ≤ i) : (flipBit l i).take k = l.take k := by
  have hlen : (l.take k).length = k := List.length_take_of_le hk
  have hflip : flipBit l i = l.take k ++ flipBit (l.drop k) (i - 8 * k) := by
    have happ := flipBit_append_right (a := l.take k) (b := l.drop k) (i := i)
      (by rw [hlen]; exact hi)
    rwa [List.take_append_drop, hlen] at happ
  rw [hflip]
  exact List.take_left' hlen

end Parts

theorem flip_ne (o : Octet) {k : Nat} (hk : k < 8) : o ≠ o ^^^ BitVec.twoPow 8 k := by
  intro he
  have hbit := congrArg (fun x : Octet => x.getLsbD k) he
  simp only [BitVec.getLsbD_xor, BitVec.getLsbD_twoPow, hk] at hbit
  cases o.getLsbD k <;> simp at hbit

/-- **A flip changes one octet.** -/
theorem flipBit_split (hi : i < 8 * l.length) :
    ∃ a o o' b, o ≠ o' ∧ l = a ++ o :: b ∧ flipBit l i = a ++ o' :: b := by
  induction l generalizing i with
  | nil => exact absurd hi (Nat.not_lt_zero i)
  | cons o os ih =>
    unfold flipBit
    split
    · rename_i h8
      exact ⟨[], o, _, os, flip_ne o h8, rfl, rfl⟩
    · rw [List.length_cons] at hi
      obtain ⟨a, x, y, b, hne, h1, h2⟩ := ih (i := i - 8) (by omega)
      refine ⟨o :: a, x, y, b, hne, ?_, ?_⟩
      · rw [h1]
        rfl
      · rw [h2]
        rfl

theorem flipBit_ne (hi : i < 8 * l.length) : flipBit l i ≠ l := by
  obtain ⟨a, o, o', b, hne, h1, h2⟩ := flipBit_split hi
  intro he
  rw [h2] at he
  exact hne (List.cons.inj (List.append_cancel_left (he.trans h1))).1.symm

theorem getLsbD_ofOctets (w : Nat) (l : List Octet) (j : Nat) :
    (ofOctets w l).getLsbD j = (decide (j < w) && (l.getD (j / 8) 0).getLsbD (j % 8)) := by
  rw [ofOctets, BitVec.getLsbD_ofNat, testBit_leNat]

/-- Two octets, the high one first: the flipped bit of the word they denote. -/
theorem ofOctets_flipBit_two (hl : l.length = 2) (hi : i < 16) :
    ofOctets 16 (flipBit l i).reverse =
      ofOctets 16 l.reverse ^^^ BitVec.twoPow 16 (if i < 8 then 8 + i else i - 8) := by
  obtain ⟨x, y, rfl⟩ := List.length_eq_two.mp hl
  apply BitVec.eq_of_getLsbD_eq
  intro j hj
  rw [BitVec.getLsbD_xor, BitVec.getLsbD_twoPow, getLsbD_ofOctets, getLsbD_ofOctets]
  by_cases h8 : i < 8
  · have hflip : flipBit [x, y] i = [x ^^^ BitVec.twoPow 8 i, y] := by
      rw [flipBit, if_pos h8]
    rw [hflip, if_pos h8]
    by_cases hj8 : j < 8
    · have hd : j / 8 = 0 := by omega
      simp [hd, hj, show ¬8 + i = j by omega]
    · have hd : j / 8 = 1 := by omega
      have hij : (8 + i = j) ↔ (i = j % 8) := by omega
      simp [hd, hj, hij, h8, show 8 + i < 16 by omega]
  · have hflip : flipBit [x, y] i = [x, y ^^^ BitVec.twoPow 8 (i - 8)] := by
      rw [flipBit, if_neg h8, flipBit, if_pos (by omega)]
    rw [hflip, if_neg h8]
    by_cases hj8 : j < 8
    · have hd : j / 8 = 0 := by omega
      have hm : j % 8 = j := by omega
      simp [hd, hm, hj, show i - 8 < 8 by omega, show i - 8 < 16 by omega]
    · have hd : j / 8 = 1 := by omega
      simp [hd, hj, show ¬i - 8 = j by omega]

end Flips

end Base
