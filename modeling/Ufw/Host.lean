/-
  File:      Ufw/Host.lean
  Subject:   THE HOST the library is compiled for, and the error numbers it uses.

  A build fixes the octet order of the machine and the layout its compiler gives to a `struct`;
  both are parameters here. `CHAR_BIT` is 8, `size_t` has 64 bits, `WITH_UINT8_T` is defined.
-/
import Ufw.Base.Octets

namespace Ufw

open Base

/-- What a build takes from its host. -/
structure Host where
  /-- `SYSTEM_ENDIANNESS_BIG` or `SYSTEM_ENDIANNESS_LITTLE`. -/
  bigEndian : Bool
  /-- `sizeof(RPFrame)`: the fields of a header, two `size_t` and two pointers. -/
  sizeofRPFrame : Nat
  sizeofRPFrame_ge : 32 ≤ sizeofRPFrame
  /-- The octet that happens to stand in an uninitialised local variable. -/
  indeterminate : Octet

theorem Host.sizeofRPFrame_pos (h : Host) : 0 < h.sizeofRPFrame :=
  lt_of_lt_of_le (by decide) h.sizeofRPFrame_ge

/-- A little endian host with 64-bit pointers: `RPFrame` takes 64 octets there. -/
def lp64Host : Host where
  bigEndian := false
  sizeofRPFrame := 64
  sizeofRPFrame_ge := by decide
  indeterminate := 0

/-- `SSIZE_MAX`. -/
def ssizeMax : Nat := 2 ^ 63 - 1

/-- A `size_t` -/
abbrev SizeT := Fin (2 ^ 64)

instance sizeTNeZero : NeZero (2 ^ 64) := ⟨by decide⟩

/-- Arithmetic in `size_t`. -/
def sizeAdd (a b : Nat) : Nat := (BitVec.ofNat 64 a + BitVec.ofNat 64 b).toNat

def sizeSub (a b : Nat) : Nat := (BitVec.ofNat 64 a - BitVec.ofNat 64 b).toNat

theorem sizeAdd_mod (a b : Nat) : sizeAdd a b = (a + b) % 2 ^ 64 := by
  unfold sizeAdd
  rw [BitVec.toNat_add, BitVec.toNat_ofNat, BitVec.toNat_ofNat]
  omega

theorem sizeAdd_eq {a b : Nat} (h : a + b < 2 ^ 64) : sizeAdd a b = a + b := by
  rw [sizeAdd_mod, Nat.mod_eq_of_lt h]

theorem sizeSub_eq {a b : Nat} (h : b ≤ a) (ha : a < 2 ^ 64) : sizeSub a b = a - b := by
  unfold sizeSub
  rw [BitVec.toNat_sub, BitVec.toNat_ofNat, BitVec.toNat_ofNat]
  omega

/-- The error numbers of `errno.h` the library names; `other` are those of drivers. -/
inductive Errno where
  | eagain | ebadmsg | ebusy | efault | eilseq | eintr | einval | eio | enodata | enomem
  | enotsup | epipe | eproto
  | other (n : Nat)
  deriving DecidableEq, Repr

/-- An `int` or `ssize_t` return code: `-errno`, or a count. -/
abbrev Rc := Except Errno Nat

end Ufw
