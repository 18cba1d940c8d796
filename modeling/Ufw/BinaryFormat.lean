/-
  File:      Ufw/BinaryFormat.lean
  Subject:   THE BINARY FORMAT ACCESSORS (ufw/binary-format.h): reading and writing integers in
             memory, in native (`n`), little endian (`l`) and big endian (`b`) octet order.

  * `bfRefN`, `bfSetN` -- the native accessors, which copy the octets of a word;
  * `bfRefU16b` … `bfSetU64l` -- the accessors with an octet order, a native access and, where
    the host's order is the other one, a swap;
  * `bfRefB_eq` … `bfSetL_eq` -- **what they read and write does not depend on the host**;
  * `wordOctets`, `octetWords` -- an array of 16-bit words and its octets in memory.
-/
import Ufw.Host
import Mathlib.Tactic.IntervalCases

namespace Ufw

open Base

/-! ## 1. Native access -/

/-- `bf_ref_u16n`, `bf_ref_u32n`, `bf_ref_u64n`: the octets at `ptr` are the word. -/
def bfRefN (h : Host) (w : Nat) (ptr : List Octet) : BitVec w :=
  if h.bigEndian then ofOctets w ptr.reverse else ofOctets w ptr

/-- `bf_set_u16n`, `bf_set_u32n`, `bf_set_u64n`: the octets of the word, as memory holds them. -/
def bfSetN (h : Host) (n : Nat) {w : Nat} (value : BitVec w) : List Octet :=
  if h.bigEndian then (toOctets n value).reverse else toOctets n value

@[simp] theorem length_bfSetN (h : Host) (n : Nat) {w : Nat} (v : BitVec w) :
    (bfSetN h n v).length = n := by
  unfold bfSetN
  split <;> simp

/-- **A word is read back from memory.** -/
theorem bfRefN_bfSetN (h : Host) (n : Nat) {w : Nat} (hw : w = 8 * n) (v : BitVec w) :
    bfRefN h w (bfSetN h n v) = v := by
  unfold bfRefN bfSetN
  split
  · rw [List.reverse_reverse, ofOctets_toOctets n hw]
  · rw [ofOctets_toOctets n hw]

/-- **Memory is read back from its word.** -/
theorem bfSetN_bfRefN (h : Host) (l : List Octet) {w : Nat} (hw : w = 8 * l.length) :
    bfSetN h l.length (bfRefN h w l) = l := by
  unfold bfRefN bfSetN
  split
  · rw [← List.length_reverse, toOctets_ofOctets _ (by rwa [List.length_reverse]),
      List.reverse_reverse]
  · rw [toOctets_ofOctets _ hw]

/-! ## 2. Swaps -/

/-- `bf_swap16` -/
def bfSwap16 (value : BitVec 16) : BitVec 16 :=
  ((value &&& 0xff00#16) >>> 8) ||| ((value &&& 0x00ff#16) <<< 8)

/-- `bf_swap32` -/
def bfSwap32 (value : BitVec 32) : BitVec 32 :=
  ((value &&& 0xff000000#32) >>> 24) ||| ((value &&& 0x00ff0000#32) >>> 8)
    ||| ((value &&& 0x0000ff00#32) <<< 8) ||| ((value &&& 0x000000ff#32) <<< 24)

/-- `bf_swap64` -/
def bfSwap64 (value : BitVec 64) : BitVec 64 :=
  ((value &&& 0xff00000000000000#64) >>> 56) ||| ((value &&& 0x00ff000000000000#64) >>> 40)
    ||| ((value &&& 0x0000ff0000000000#64) >>> 24) ||| ((value &&& 0x000000ff00000000#64) >>> 8)
    ||| ((value &&& 0x00000000ff000000#64) <<< 8) ||| ((value &&& 0x0000000000ff0000#64) <<< 24)
    ||| ((value &&& 0x000000000000ff00#64) <<< 40) ||| ((value &&& 0x00000000000000ff#64) <<< 56)

/-- A swap turns the octets of a word around. -/
theorem bfSwap16_eq (v : BitVec 16) : bfSwap16 v = ofOctets 16 (toOctets 2 v).reverse := by
  apply BitVec.eq_of_getLsbD_eq
  intro i hi
  rw [getLsbD_ofOctets_reverse 2 rfl v i hi, bfSwap16]
  interval_cases i <;> simp

theorem bfSwap32_eq (v : BitVec 32) : bfSwap32 v = ofOctets 32 (toOctets 4 v).reverse := by
  apply BitVec.eq_of_getLsbD_eq
  intro i hi
  rw [getLsbD_ofOctets_reverse 4 rfl v i hi, bfSwap32]
  interval_cases i <;> simp

theorem bfSwap64_eq (v : BitVec 64) : bfSwap64 v = ofOctets 64 (toOctets 8 v).reverse := by
  apply BitVec.eq_of_getLsbD_eq
  intro i hi
  rw [getLsbD_ofOctets_reverse 8 rfl v i hi, bfSwap64]
  interval_cases i <;> simp

/-! ## 3. Access with an octet order

One pair of definitions for each order, with the swap of the width as a parameter; the accessors of
the source are these at 16, 32 and 64 bits. The signed and the floating point accessors hand the
same word through a union. -/

/-- Read a big endian word: swap unless the host is big endian. -/
def bfRefB (h : Host) {w : Nat} (swap : BitVec w → BitVec w) (ptr : List Octet) : BitVec w :=
  if h.bigEndian then bfRefN h w ptr else swap (bfRefN h w ptr)

/-- Read a little endian word: swap if the host is big endian. -/
def bfRefL (h : Host) {w : Nat} (swap : BitVec w → BitVec w) (ptr : List Octet) : BitVec w :=
  if h.bigEndian then swap (bfRefN h w ptr) else bfRefN h w ptr

/-- Write a big endian word. -/
def bfSetB (h : Host) (n : Nat) {w : Nat} (swap : BitVec w → BitVec w) (value : BitVec w) :
    List Octet :=
  if h.bigEndian then bfSetN h n value else bfSetN h n (swap value)

/-- Write a little endian word. -/
def bfSetL (h : Host) (n : Nat) {w : Nat} (swap : BitVec w → BitVec w) (value : BitVec w) :
    List Octet :=
  if h.bigEndian then bfSetN h n (swap value) else bfSetN h n value

def bfRefU16b (h : Host) (ptr : List Octet) : BitVec 16 := bfRefB h bfSwap16 ptr
def bfRefU32b (h : Host) (ptr : List Octet) : BitVec 32 := bfRefB h bfSwap32 ptr
def bfRefU64b (h : Host) (ptr : List Octet) : BitVec 64 := bfRefB h bfSwap64 ptr
def bfRefU16l (h : Host) (ptr : List Octet) : BitVec 16 := bfRefL h bfSwap16 ptr
def bfRefU32l (h : Host) (ptr : List Octet) : BitVec 32 := bfRefL h bfSwap32 ptr
def bfRefU64l (h : Host) (ptr : List Octet) : BitVec 64 := bfRefL h bfSwap64 ptr

def bfSetU16b (h : Host) (value : BitVec 16) : List Octet := bfSetB h 2 bfSwap16 value
def bfSetU32b (h : Host) (value : BitVec 32) : List Octet := bfSetB h 4 bfSwap32 value
def bfSetU64b (h : Host) (value : BitVec 64) : List Octet := bfSetB h 8 bfSwap64 value
def bfSetU16l (h : Host) (value : BitVec 16) : List Octet := bfSetL h 2 bfSwap16 value
def bfSetU32l (h : Host) (value : BitVec 32) : List Octet := bfSetL h 4 bfSwap32 value
def bfSetU64l (h : Host) (value : BitVec 64) : List Octet := bfSetL h 8 bfSwap64 value

section Orders

variable {n w : Nat} (hw : w = 8 * n) {swap : BitVec w → BitVec w}
  (hswap : ∀ v, swap v = ofOctets w (toOctets n v).reverse)

include hw hswap

/-- **Big endian reading does not depend on the host.** -/
theorem bfRefB_eq (h : Host) (ptr : List Octet) (hl : ptr.length = n) :
    bfRefB h swap ptr = ofOctets w ptr.reverse := by
  subst hl
  unfold bfRefB bfRefN
  split
  · rfl
  · rw [hswap, toOctets_ofOctets ptr hw]

/-- **Little endian reading does not depend on the host.** -/
theorem bfRefL_eq (h : Host) (ptr : List Octet) (hl : ptr.length = n) :
    bfRefL h swap ptr = ofOctets w ptr := by
  subst hl
  unfold bfRefL bfRefN
  split
  · rw [hswap, ← List.length_reverse, toOctets_ofOctets _ (by rwa [List.length_reverse]),
      List.reverse_reverse]
  · rfl

/-- **Big endian writing does not depend on the host.** -/
theorem bfSetB_eq (h : Host) (v : BitVec w) : bfSetB h n swap v = (toOctets n v).reverse := by
  unfold bfSetB bfSetN
  split
  · rfl
  · have hr := toOctets_ofOctets (toOctets n v).reverse (w := w) (by simpa using hw)
    rw [List.length_reverse, length_toOctets] at hr
    rw [hswap, hr]

/-- **Little endian writing does not depend on the host.** -/
theorem bfSetL_eq (h : Host) (v : BitVec w) : bfSetL h n swap v = toOctets n v := by
  unfold bfSetL bfSetN
  split
  · have hr := toOctets_ofOctets (toOctets n v).reverse (w := w) (by simpa using hw)
    rw [List.length_reverse, length_toOctets] at hr
    rw [hswap, hr, List.reverse_reverse]
  · rfl

@[simp] theorem length_bfSetB (h : Host) (v : BitVec w) : (bfSetB h n swap v).length = n := by
  rw [bfSetB_eq hw hswap, List.length_reverse, length_toOctets]

@[simp] theorem length_bfSetL (h : Host) (v : BitVec w) : (bfSetL h n swap v).length = n := by
  rw [bfSetL_eq hw hswap, length_toOctets]

theorem bfRefB_bfSetB (h : Host) (v : BitVec w) : bfRefB h swap (bfSetB h n swap v) = v := by
  rw [bfRefB_eq hw hswap h _ (length_bfSetB hw hswap h v), bfSetB_eq hw hswap,
    List.reverse_reverse, ofOctets_toOctets n hw]

theorem bfRefL_bfSetL (h : Host) (v : BitVec w) : bfRefL h swap (bfSetL h n swap v) = v := by
  rw [bfRefL_eq hw hswap h _ (length_bfSetL hw hswap h v), bfSetL_eq hw hswap,
    ofOctets_toOctets n hw]

theorem bfSetB_bfRefB (h : Host) (ptr : List Octet) (hl : ptr.length = n) :
    bfSetB h n swap (bfRefB h swap ptr) = ptr := by
  subst hl
  rw [bfSetB_eq hw hswap, bfRefB_eq hw hswap h ptr rfl, ← List.length_reverse,
    toOctets_ofOctets _ (by rwa [List.length_reverse]), List.reverse_reverse]

theorem bfSetL_bfRefL (h : Host) (ptr : List Octet) (hl : ptr.length = n) :
    bfSetL h n swap (bfRefL h swap ptr) = ptr := by
  subst hl
  rw [bfSetL_eq hw hswap, bfRefL_eq hw hswap h ptr rfl, toOctets_ofOctets _ hw]

end Orders

/-! ## 4. At the widths of the source -/

theorem bfRefU16b_eq (h : Host) (ptr : List Octet) (hl : ptr.length = 2) :
    bfRefU16b h ptr = ofOctets 16 ptr.reverse := bfRefB_eq rfl bfSwap16_eq h ptr hl

theorem bfSetU16b_eq (h : Host) (v : BitVec 16) : bfSetU16b h v = (toOctets 2 v).reverse :=
  bfSetB_eq (n := 2) rfl bfSwap16_eq h v

theorem bfSetU32b_eq (h : Host) (v : BitVec 32) : bfSetU32b h v = (toOctets 4 v).reverse :=
  bfSetB_eq (n := 4) rfl bfSwap32_eq h v

theorem bfRefU16b_bfSetU16b (h : Host) (v : BitVec 16) : bfRefU16b h (bfSetU16b h v) = v :=
  bfRefB_bfSetB (n := 2) rfl bfSwap16_eq h v

theorem bfRefU32b_bfSetU32b (h : Host) (v : BitVec 32) : bfRefU32b h (bfSetU32b h v) = v :=
  bfRefB_bfSetB (n := 4) rfl bfSwap32_eq h v

theorem bfRefU16l_bfSetU16l (h : Host) (v : BitVec 16) : bfRefU16l h (bfSetU16l h v) = v :=
  bfRefL_bfSetL (n := 2) rfl bfSwap16_eq h v

theorem bfRefU32l_bfSetU32l (h : Host) (v : BitVec 32) : bfRefU32l h (bfSetU32l h v) = v :=
  bfRefL_bfSetL (n := 4) rfl bfSwap32_eq h v

@[simp] theorem length_bfSetU16b (h : Host) (v : BitVec 16) : (bfSetU16b h v).length = 2 :=
  length_bfSetB (n := 2) rfl bfSwap16_eq h v

@[simp] theorem length_bfSetU32b (h : Host) (v : BitVec 32) : (bfSetU32b h v).length = 4 :=
  length_bfSetB (n := 4) rfl bfSwap32_eq h v

@[simp] theorem length_bfSetU16l (h : Host) (v : BitVec 16) : (bfSetU16l h v).length = 2 :=
  length_bfSetL (n := 2) rfl bfSwap16_eq h v

@[simp] theorem length_bfSetU32l (h : Host) (v : BitVec 32) : (bfSetU32l h v).length = 4 :=
  length_bfSetL (n := 4) rfl bfSwap32_eq h v

/-! ## 5. Words in memory -/

/-- The octets of an array of words, as memory holds them. -/
def wordOctets (h : Host) (ws : List (BitVec 16)) : List Octet := ws.flatMap (bfSetN h 2)

/-- Memory read as an array of words. -/
def octetWords (h : Host) : List Octet → List (BitVec 16)
  | a :: b :: l => bfRefN h 16 [a, b] :: octetWords h l
  | _ => []

@[simp] theorem wordOctets_nil (h : Host) : wordOctets h [] = [] := rfl

@[simp] theorem wordOctets_cons (h : Host) (w : BitVec 16) (ws : List (BitVec 16)) :
    wordOctets h (w :: ws) = bfSetN h 2 w ++ wordOctets h ws := List.flatMap_cons

@[simp] theorem length_wordOctets (h : Host) (ws : List (BitVec 16)) :
    (wordOctets h ws).length = 2 * ws.length := by
  induction ws with
  | nil => rfl
  | cons w ws ih =>
    rw [wordOctets_cons, List.length_append, length_bfSetN, ih, List.length_cons]
    omega

/-- **Memory that is read as words is those words' octets.** -/
theorem wordOctets_octetWords (h : Host) : ∀ l : List Octet, l.length % 2 = 0 →
    wordOctets h (octetWords h l) = l
  | [], _ => rfl
  | [_], hl => absurd hl (by simp)
  | a :: b :: l, hl => by
    have hl' : l.length % 2 = 0 := by
      simp only [List.length_cons] at hl
      omega
    have hab : bfSetN h 2 (bfRefN h 16 [a, b]) = [a, b] := bfSetN_bfRefN h [a, b] rfl
    rw [octetWords, wordOctets_cons, hab, wordOctets_octetWords h l hl']
    rfl

/-- **The octets of words are read as these words.** -/
theorem octetWords_wordOctets (h : Host) (ws : List (BitVec 16)) :
    octetWords h (wordOctets h ws) = ws := by
  induction ws with
  | nil => rfl
  | cons w ws ih =>
    have hw : bfRefN h 16 (bfSetN h 2 w) = w := bfRefN_bfSetN h 2 rfl w
    obtain ⟨a, b, hab⟩ : ∃ a b, bfSetN h 2 w = [a, b] :=
      List.length_eq_two.mp (length_bfSetN h 2 w)
    rw [wordOctets_cons, hab]
    rw [hab] at hw
    show bfRefN h 16 [a, b] :: octetWords h (wordOctets h ws) = w :: ws
    rw [hw, ih]

end Ufw
