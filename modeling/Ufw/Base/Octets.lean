/-
  File:      Ufw/Base/Octets.lean
  Subject:   NUMBERS AS OCTET STRINGS. The octets of a number, least significant first, and the
             number a string of octets denotes.

  * `leOctets n v` -- the `n` low octets of `v`; `leNat l` -- the number `l` denotes;
  * `leNat_leOctets`, `leOctets_leNat` -- **the two are inverse** (on numbers below `256 ^ n`);
  * `toOctets`, `ofOctets` -- the same for words of a fixed width, with `ofOctets_toOctets`;
  * `getLsbD_ofOctets_reverse` -- the bits of a word whose octets are turned around.

  Big-endian strings are the reversed ones. Nothing here names a particular program.
-/
import Mathlib.Data.BitVec

namespace Base

/-- A string of eight bits. -/
abbrev Octet := BitVec 8

/-- The number an octet string denotes, least significant octet first. -/
def leNat : List Octet → Nat
  | [] => 0
  | o :: os => o.toNat + 256 * leNat os

/-- The `n` low octets of a number, least significant first. -/
def leOctets : Nat → Nat → List Octet
  | 0, _ => []
  | n + 1, v => BitVec.ofNat 8 v :: leOctets n (v / 256)

@[simp] theorem length_leOctets (n v : Nat) : (leOctets n v).length = n := by
  induction n generalizing v with
  | zero => rfl
  | succ n ih => simp [leOctets, ih]

theorem leNat_lt (l : List Octet) : leNat l < 256 ^ l.length := by
  induction l with
  | nil => simp [leNat]
  | cons o os ih =>
    have ho : o.toNat < 256 := o.isLt
    simp only [leNat, List.length_cons, Nat.pow_succ]
    omega

/-- **The octets of a number denote it.** -/
theorem leNat_leOctets (n v : Nat) (h : v < 256 ^ n) : leNat (leOctets n v) = v := by
  induction n generalizing v with
  | zero =>
    have hv : v = 0 := by simpa using h
    subst hv
    rfl
  | succ n ih =>
    have hv : v / 256 < 256 ^ n := by
      rw [Nat.div_lt_iff_lt_mul (by decide), ← Nat.pow_succ]
      exact h
    simp only [leOctets, leNat, BitVec.toNat_ofNat, ih _ hv]
    omega

/-- **A string is the octets of the number it denotes.** -/
theorem leOctets_leNat (l : List Octet) : leOctets l.length (leNat l) = l := by
  induction l with
  | nil => rfl
  | cons o os ih =>
    have ho : o.toNat < 256 := o.isLt
    have hd : (o.toNat + 256 * leNat os) / 256 = leNat os := by omega
    have hm : BitVec.ofNat 8 (o.toNat + 256 * leNat os) = o := by
      apply BitVec.eq_of_toNat_eq
      rw [BitVec.toNat_ofNat]
      omega
    simp only [List.length_cons, leNat, leOctets, hd, hm, ih]

/-- The low octets of a number denote the rest it leaves. -/
theorem leNat_leOctets_mod (n v : Nat) : leNat (leOctets n v) = v % 256 ^ n := by
  induction n generalizing v with
  | zero => rw [Nat.pow_zero, Nat.mod_one]; rfl
  | succ n ih =>
    rw [Nat.pow_succ, Nat.mul_comm, Nat.mod_mul, ← ih, leOctets, leNat, BitVec.toNat_ofNat]

theorem take_leOctets {n k : Nat} (h : n ≤ k) (v : Nat) :
    (leOctets k v).take n = leOctets n v := by
  induction n generalizing k v with
  | zero => rfl
  | succ n ih =>
    obtain ⟨j, rfl⟩ : ∃ j, k = j + 1 := ⟨k - 1, by omega⟩
    simp only [leOctets, List.take_succ_cons, ih (Nat.le_of_succ_le_succ h)]

/-- Zeros at the end change nothing. -/
theorem leNat_append_zeros (l : List Octet) (k : Nat) :
    leNat (l ++ List.replicate k 0) = leNat l := by
  induction l with
  | nil =>
    induction k with
    | zero => rfl
    | succ k ih => exact congrArg (fun n => 0 + 256 * n) ih
  | cons o os ih => exact congrArg (fun n => o.toNat + 256 * n) ih

/-! ## Words of a fixed width -/

/-- The `n` octets of a word, least significant first. -/
def toOctets (n : Nat) {w : Nat} (v : BitVec w) : List Octet := leOctets n v.toNat

/-- The word an octet string denotes, least significant octet first. -/
def ofOctets (w : Nat) (l : List Octet) : BitVec w := BitVec.ofNat w (leNat l)

@[simp] theorem length_toOctets (n : Nat) {w : Nat} (v : BitVec w) :
    (toOctets n v).length = n := length_leOctets n v.toNat

/-- **A word is read back from its octets.** -/
theorem ofOctets_toOctets (n : Nat) {w : Nat} (hw : w = 8 * n) (v : BitVec w) :
    ofOctets w (toOctets n v) = v := by
  have hv : v.toNat < 256 ^ n := by
    have h : (256 : Nat) ^ n = 2 ^ (8 * n) := by rw [Nat.pow_mul]
    rw [h, ← hw]
    exact v.isLt
  unfold ofOctets toOctets
  rw [leNat_leOctets n _ hv, BitVec.ofNat_toNat, BitVec.setWidth_eq]

/-- **Octets are read back from their word.** -/
theorem toOctets_ofOctets (l : List Octet) {w : Nat} (hw : w = 8 * l.length) :
    toOctets l.length (ofOctets w l) = l := by
  have h : leNat l < 2 ^ w := by
    have h256 : (256 : Nat) ^ l.length = 2 ^ (8 * l.length) := by rw [Nat.pow_mul]
    rw [hw, ← h256]
    exact leNat_lt l
  unfold ofOctets toOctets
  rw [BitVec.toNat_ofNat, Nat.mod_eq_of_lt h, leOctets_leNat]

/-- The low octets of a word are those of the word they denote. -/
theorem toOctets_ofOctets_le (l : List Octet) {w : Nat} (hw : 8 * l.length ≤ w) :
    toOctets l.length (ofOctets w l) = l := by
  have h : leNat l < 2 ^ w := by
    have h256 : (256 : Nat) ^ l.length = 2 ^ (8 * l.length) := by rw [Nat.pow_mul]
    exact Nat.lt_of_lt_of_le (h256 ▸ leNat_lt l) (Nat.pow_le_pow_right (by decide) hw)
  unfold ofOctets toOctets
  rw [BitVec.toNat_ofNat, Nat.mod_eq_of_lt h, leOctets_leNat]

/-- **Octets denote the low bits of their word.** -/
theorem toNat_ofOctets_toOctets (n : Nat) {w : Nat} (v : BitVec w) :
    (ofOctets w (toOctets n v)).toNat = v.toNat % 2 ^ (8 * n) := by
  have h256 : (256 : Nat) ^ n = 2 ^ (8 * n) := by rw [Nat.pow_mul]
  have hlt : v.toNat % 2 ^ (8 * n) < 2 ^ w := Nat.lt_of_le_of_lt (Nat.mod_le _ _) v.isLt
  unfold ofOctets toOctets
  rw [BitVec.toNat_ofNat, leNat_leOctets_mod, h256, Nat.mod_eq_of_lt hlt]

/-- The low octets depend on the low bits only. -/
theorem toOctets_congr {n w w' : Nat} {v : BitVec w} {v' : BitVec w'}
    (h : v.toNat % 2 ^ (8 * n) = v'.toNat % 2 ^ (8 * n)) : toOctets n v = toOctets n v' := by
  have hlow : ∀ a : Nat, leOctets n a = leOctets n (a % 2 ^ (8 * n)) := by
    intro a
    have h256 : (256 : Nat) ^ n = 2 ^ (8 * n) := by rw [Nat.pow_mul]
    have hback := leOctets_leNat (leOctets n a)
    rw [length_leOctets, leNat_leOctets_mod, h256] at hback
    exact hback.symm
  unfold toOctets
  rw [hlow, h, ← hlow]

/-! ## Bit by bit -/

theorem testBit_leNat (l : List Octet) (i : Nat) :
    (leNat l).testBit i = (l.getD (i / 8) 0).getLsbD (i % 8) := by
  induction l generalizing i with
  | nil => simp [leNat]
  | cons o os ih =>
    have ho : o.toNat < 2 ^ 8 := o.isLt
    have hs : leNat (o :: os) = 2 ^ 8 * leNat os + o.toNat := by
      simp only [leNat]
      omega
    rw [hs, Nat.testBit_two_pow_mul_add _ ho]
    by_cases h : i < 8
    · rw [if_pos h, Nat.div_eq_of_lt h, Nat.mod_eq_of_lt h]
      rfl
    · obtain ⟨j, rfl⟩ : ∃ j, i = j + 8 := ⟨i - 8, by omega⟩
      rw [if_neg h, Nat.add_sub_cancel, ih, Nat.add_div_right j (by decide), Nat.add_mod_right]
      rfl

theorem getElem?_leOctets (n v k : Nat) (h : k < n) :
    (leOctets n v)[k]? = some (BitVec.ofNat 8 (v / 256 ^ k)) := by
  induction n generalizing v k with
  | zero => omega
  | succ n ih =>
    cases k with
    | zero => simp [leOctets]
    | succ k =>
      rw [leOctets, List.getElem?_cons_succ, ih _ _ (by omega), Nat.div_div_eq_div_mul,
        Nat.pow_succ, Nat.mul_comm 256]

/-- Octets in the opposite order: bit by bit. -/
theorem getLsbD_ofOctets_reverse (n : Nat) {w : Nat} (hw : w = 8 * n) (v : BitVec w) (i : Nat)
    (hi : i < w) :
    (ofOctets w (toOctets n v).reverse).getLsbD i = v.getLsbD (8 * (n - 1 - i / 8) + i % 8) := by
  have hk : i / 8 < n := by omega
  have h8 : i % 8 < 8 := Nat.mod_lt _ (by decide)
  have h256 : (256 : Nat) ^ (n - 1 - i / 8) = 2 ^ (8 * (n - 1 - i / 8)) := by rw [Nat.pow_mul]
  rw [ofOctets, BitVec.getLsbD_ofNat, testBit_leNat, List.getD_eq_getElem?_getD,
    List.getElem?_reverse (by simpa using hk), length_toOctets, toOctets,
    getElem?_leOctets _ _ _ (by omega), Option.getD_some, BitVec.getLsbD_ofNat, h256,
    Nat.testBit_div_two_pow]
  simp only [hi, h8, decide_true, Bool.true_and]
  rw [Nat.add_comm]
  rfl

/-- The same for the low octets of a wider word. -/
theorem getLsbD_ofOctets_turned (n : Nat) {w : Nat} (v : BitVec w) (i : Nat) (hi : i < w) :
    (ofOctets w (toOctets n v).reverse).getLsbD i =
      (decide (i < 8 * n) && v.getLsbD (8 * (n - 1 - i / 8) + i % 8)) := by
  have h8 : i % 8 < 8 := Nat.mod_lt _ (by decide)
  rw [ofOctets, BitVec.getLsbD_ofNat, testBit_leNat, List.getD_eq_getElem?_getD]
  by_cases hk : i / 8 < n
  · have h256 : (256 : Nat) ^ (n - 1 - i / 8) = 2 ^ (8 * (n - 1 - i / 8)) := by rw [Nat.pow_mul]
    have hin : i < 8 * n := by omega
    rw [List.getElem?_reverse (by simpa using hk), length_toOctets, toOctets,
      getElem?_leOctets _ _ _ (by omega), Option.getD_some, BitVec.getLsbD_ofNat, h256,
      Nat.testBit_div_two_pow]
    simp only [hi, h8, hin, decide_true, Bool.true_and]
    rw [Nat.add_comm]
    rfl
  · have hout : ¬i < 8 * n := by omega
    rw [List.getElem?_eq_none (by simpa using Nat.le_of_not_lt hk)]
    simp [hout]

end Base
