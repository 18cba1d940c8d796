/-
  File:      Ufw/Registers/Sanitise.lean
  Subject:   REGISTER TABLE: comparing and sanitising registers (registers/core.c).

  * `registerCompare` -- two registers hold the same value;
  * `registerSanitise` -- every register that holds no value its entry admits gets its default.
-/
import Ufw.Registers.Table

namespace Ufw

open Base

variable {δ : Type}

/-! ## 1. Comparing -/

/-- `register_value_compare` -/
def registerValueCompare (a b : RegisterValue) : Bool :=
  if a.type ≠ b.type then false
  else
    match a.type with
    | .uint16 | .sint16 => a.value.w16 == b.value.w16
    | .uint32 | .sint32 => a.value.w32 == b.value.w32
    | .uint64 | .sint64 => a.value.w64 == b.value.w64
    | .float32 => binary32.eq a.value.w32 b.value.w32
    | .float64 => binary64.eq a.value.w64 b.value.w64
    | .invalid => false

section Sanitise

variable (h : Host)

/-- `register_compare` -/
def registerCompare (t : RegisterTable δ) (a b : Nat) :
    Exec (RegisterAccess × RegisterTable δ) := do
  let (rv, av, t) ← registerGet h t a
  if rv.code ≠ .success then return (rv, t)
  let (rv, bv, t) ← registerGet h t b
  if rv.code ≠ .success then return (rv, t)
  if registerValueCompare av bv then return ({ rv with code := .success }, t)
  else return ({ rv with code := .failure }, t)

/-! ## 2. Sanitising -/

/-- `reg_entry_sane` -/
def regEntrySane (t : RegisterTable δ) (reg : Nat) :
    Exec (RegisterAccess × RegisterTable δ) := do
  let (rv, current, t) ← registerGet h t reg
  if rv.code ≠ .success then return (rv, t)
  if rvValidate t (t.entry reg) current then return (⟨.success, 0⟩, t)
  else return (⟨.range, BitVec.ofNat 32 reg⟩, t)

/-- `reg_entry_load_default` -/
def regEntryLoadDefault (t : RegisterTable δ) (reg : Nat) :
    Exec (RegisterAccess × RegisterTable δ) :=
  registerSet h t reg (RegisterValue.ofUnion (t.entry reg).type (t.entry reg).defaultValue)

/-- The loop of `register_sanitise`, from entry `i` on. -/
def registerSanitiseFrom : Nat → Nat → RegisterTable δ → Exec (RegisterAccess × RegisterTable δ)
  | 0, _, t => .ok (regAccessResultInit, t)
  | k + 1, i, t => do
    let (access, t) ← regEntrySane h t i
    match access.code with
    | .success => registerSanitiseFrom k (i + 1) (registerUntouch t i)
    | .invalid | .range =>
      let (access, t) ← regEntryLoadDefault h t i
      if access.code ≠ .success then return (access, t)
      registerSanitiseFrom k (i + 1) (registerUntouch t i)
    | _ => return (access, t)

/-- **`register_sanitise`** -/
def registerSanitise (t : RegisterTable δ) : Exec (RegisterAccess × RegisterTable δ) :=
  if bitIsset t.flags regTfInitialised = false then .ok (⟨.uninitialised, 0⟩, t)
  else registerSanitiseFrom h t.entries 0 t

end Sanitise

end Ufw
