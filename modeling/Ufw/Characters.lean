/-
  File:      Ufw/Characters.lean
  Subject:   CHARACTERS, as the functions of ctype.h see them in the C locale.

  A character is its octet; those from 128 on are in no class.
-/
import Ufw.Base.Octets

namespace Ufw

open Base

/-- `isspace` -/
def isspace (c : Octet) : Bool := c == 0x20 || (0x09 ≤ c && c ≤ 0x0d)

/-- `isdigit` -/
def isdigit (c : Octet) : Bool := 0x30 ≤ c && c ≤ 0x39

/-- `isxdigit` -/
def isxdigit (c : Octet) : Bool := isdigit c || (0x61 ≤ c && c ≤ 0x66) || (0x41 ≤ c && c ≤ 0x46)

/-- `tolower` -/
def tolower (c : Octet) : Octet := if 0x41 ≤ c && c ≤ 0x5a then c + 0x20 else c

/-! ## Hexadecimal numbers -/

/-- The value of a hexadecimal digit, of either case. -/
def hexDigit (c : Octet) : Nat :=
  if isdigit c then c.toNat - 0x30
  else if 0x61 ≤ c && c ≤ 0x66 then c.toNat - 0x61 + 10
  else c.toNat - 0x41 + 10

/-- The number a string of digits denotes behind the digits of `a`. -/
def hexNumberFrom (a : Nat) (l : List Octet) : Nat := l.foldl (fun v c => 16 * v + hexDigit c) a

/-- **The number a string of digits denotes in base 16**, most significant digit first. -/
def hexNumber (l : List Octet) : Nat := hexNumberFrom 0 l

theorem hexDigit_lt {c : Octet} (hc : isxdigit c = true) : hexDigit c < 16 := by
  have hall : ∀ k : Fin 256, isxdigit (.ofFin k) = true → hexDigit (.ofFin k) < 16 := by
    decide +kernel
  exact hall c.toFin hc

end Ufw
