/-
  File:      Ufw/Registers/Table.lean
  Subject:   REGISTER TABLE: areas, entries and access to a single register (registers/core.c).

  * `raAddrIsPartOf` … `raRangeTouches` -- what lies where, in the 32-bit arithmetic of the source;
  * `areaRead`, `areaWrite` -- the calls of the methods of an area;
  * `registerSet`, `registerGet`, `registerDefault`, `registerBitSet`, `registerBitClear` --
    registers one by one.

  An area that is NULL and a failing assertion are faults; a method that is NULL and called all the
  same is a `nullCall`.
-/
import Ufw.Registers.Values

namespace Ufw

open Base

variable {δ : Type}

/-! ## 1. Where things lie -/

/-- The atoms of an entry, as the number of 32 bits the code computes with. -/
def registerEntrySize (e : RegisterEntry) : RegisterOffset := BitVec.ofNat 32 (rdsSize e.type)

@[simp] theorem toNat_registerEntrySize (e : RegisterEntry) :
    (registerEntrySize e).toNat = rdsSize e.type := by
  have h := rdsSize_le e.type
  unfold regSizeofLargestDatum at h
  unfold registerEntrySize
  rw [BitVec.toNat_ofNat, Nat.mod_eq_of_lt (by omega)]

/-- `ra_addr_is_part_of` -/
def raAddrIsPartOf (a : RegisterArea δ) (addr : RegisterAddress) : Bool :=
  if a.base > addr then false
  else if a.base + a.size ≤ addr then false
  else true

/-- `ra_reg_is_part_of` -/
def raRegIsPartOf (a : RegisterArea δ) (e : RegisterEntry) : Bool := raAddrIsPartOf a e.address

/-- `ra_reg_fits_into` -/
def raRegFitsInto (a : RegisterArea δ) (e : RegisterEntry) : Bool :=
  decide (e.address + registerEntrySize e ≤ a.base + a.size)

/-- `ra_find_area_by_addr`: `t->areas` if there is none. -/
def raFindAreaByAddr (t : RegisterTable δ) (addr : RegisterAddress) : Nat :=
  firstFrom (fun n => raAddrIsPartOf (t.area n) addr) t.areas 0

/-- Where a range of `size` addresses lies: below the `n` addresses from `addr` on (-1), above them
    (1), or neither. -/
def rangeTouches (start : RegisterAddress) (size : RegisterOffset) (addr : RegisterAddress)
    (n : RegisterOffset) : Int :=
  if start + size ≤ addr then -1
  else if addr + n ≤ start then 1
  else 0

/-- `ra_range_touches` -/
def raRangeTouches (a : RegisterArea δ) (addr : RegisterAddress) (n : RegisterOffset) : Int :=
  rangeTouches a.base a.size addr n

/-- `reg_range_touches` -/
def regRangeTouches (e : RegisterEntry) (addr : RegisterAddress) (n : RegisterOffset) : Int :=
  rangeTouches e.address (registerEntrySize e) addr n

/-- `register_area_can_write` -/
def registerAreaCanWrite (a : RegisterArea δ) : Bool := a.write.isSome

/-- `register_area_is_writeable` -/
def registerAreaIsWriteable (a : RegisterArea δ) : Bool :=
  registerAreaCanWrite a && bitIsset a.flags regAfWriteable

/-! ## 2. The methods of an area -/

/-- `a->read(a, dest, offset, n)`, with `a` the area `an`; `reg_mem_read` is a `memcpy`. -/
def areaRead (t : RegisterTable δ) (an : Nat) (dest : Mem RegisterAtom)
    (offset n : RegisterOffset) : Exec (RegisterAccess × Mem RegisterAtom × RegisterTable δ) :=
  match (t.area an).read with
  | none => .error .nullCall
  | some .regMemRead => do
    require ((t.area an).hasMem = true)
    return (regAccessResultInit, dest.copy 0 ((t.mem an).shift offset.toNat) n.toNat, t)
  | some (.custom run) =>
    let (rv, atoms, dev) := run offset n t.dev
    .ok (rv, dest.store 0 (atoms.take n.toNat), { t with dev := dev })

/-- `a->write(a, src, offset, n)`, with `a` the area `an`; `reg_mem_write` is a `memcpy`. -/
def areaWrite (t : RegisterTable δ) (an : Nat) (src : Mem RegisterAtom)
    (offset n : RegisterOffset) : Exec (RegisterAccess × RegisterTable δ) :=
  match (t.area an).write with
  | none => .error .nullCall
  | some .regMemWrite => do
    require ((t.area an).hasMem = true)
    return (regAccessResultInit,
      { t with mem := Function.update t.mem an ((t.mem an).copy offset.toNat src n.toNat) })
  | some (.custom run) =>
    let (rv, dev) := run (src.slice 0 n.toNat) offset n t.dev
    .ok (rv, { t with dev := dev })

/-- The atoms of an uninitialised local array. -/
def Host.localAtoms (h : Host) : Mem RegisterAtom := fun _ => h.indeterminate ++ h.indeterminate

/-- `reg_read_entry` -/
def regReadEntry (t : RegisterTable δ) (reg : Nat) (buf : Mem RegisterAtom) :
    Exec (RegisterAccess × Mem RegisterAtom × RegisterTable δ) :=
  match (t.link reg).area with
  | none => .error .fault
  | some an => areaRead t an buf (t.link reg).offset (registerEntrySize (t.entry reg))

/-! ## 3. Single registers -/

section Single

variable (h : Host) (t : RegisterTable δ) (idx : Nat)

/-- `register_setx`; the slot behind the last entry is let through. -/
def registerSetx (v : RegisterValue) (withvalidator : Bool) :
    Exec (RegisterAccess × RegisterTable δ) :=
  let e := t.entry idx
  if bitIsset t.flags regTfInitialised = false then
    .ok (⟨.uninitialised, BitVec.ofNat 32 idx⟩, t)
  else if idx > t.entries then .ok (⟨.noentry, BitVec.ofNat 32 idx⟩, t)
  else if withvalidator && !rvValidate t e v then .ok (⟨.range, e.address⟩, t)
  else
    match (t.link idx).area with
    | none => .error .fault
    | some an =>
      if registerAreaCanWrite (t.area an) = false then .ok (⟨.readonly, e.address⟩, t)
      else do
        match ← (rdsSerdes h e.type).ser v (bitIsset t.flags regTfBigEndian) with
        | none => return (⟨.invalid, e.address⟩, t)
        | some atoms =>
          areaWrite t an (h.localAtoms.store 0 atoms) (t.link idx).offset (registerEntrySize e)

/-- `register_set` -/
def registerSet (v : RegisterValue) : Exec (RegisterAccess × RegisterTable δ) :=
  registerSetx h t idx v true

/-- `register_set_unsafe` -/
def registerSetUnsafe (v : RegisterValue) : Exec (RegisterAccess × RegisterTable δ) :=
  registerSetx h t idx v false

/-- `register_get`; the value it stores has no type until the deserialiser gives it one. -/
def registerGet : Exec (RegisterAccess × RegisterValue × RegisterTable δ) :=
  let v := RegisterValue.ofUnion .invalid 0
  if bitIsset t.flags regTfInitialised = false then
    .ok (⟨.uninitialised, BitVec.ofNat 32 idx⟩, v, t)
  else if idx ≥ t.entries then .ok (⟨.noentry, BitVec.ofNat 32 idx⟩, v, t)
  else do
    let (rv, raw, t) ← regReadEntry t idx h.localAtoms
    if rv.code ≠ .success then return (rv, v, t)
    let (v, success) ←
      (rdsSerdes h (t.entry idx).type).des raw (bitIsset t.flags regTfBigEndian)
    if success = false then return (⟨.invalid, BitVec.ofNat 32 idx⟩, v, t)
    return (rv, v, t)

/-- `register_default`; `v` is the value its caller hands in. -/
def registerDefault (v : RegisterValue) : RegisterAccess × RegisterValue :=
  let e := t.entry idx
  if bitIsset t.flags regTfInitialised = false then (⟨.uninitialised, BitVec.ofNat 32 idx⟩, v)
  else if idx ≥ t.entries then (⟨.noentry, BitVec.ofNat 32 idx⟩, v)
  else (regAccessResultInit, RegisterValue.ofUnion e.type e.defaultValue)

/-- `register_bit_set` and `register_bit_clear`: `op` is what is done to the bits. -/
def registerBits (op : BitVec 64 → BitVec 64 → BitVec 64) (v : RegisterValue) :
    Exec (RegisterAccess × RegisterTable δ) := do
  let (rv, reg, t) ← registerGet h t idx
  if rv.code ≠ .success then return (rv, t)
  if reg.type ≠ v.type then return (⟨.invalid, BitVec.ofNat 32 idx⟩, t)
  match reg.type with
  | .uint16 | .uint32 | .uint64 =>
    registerSet h t idx (RegisterValue.ofUnion reg.type (op reg.value v.value))
  | _ => return (⟨.invalid, BitVec.ofNat 32 idx⟩, t)

/-- `register_bit_set` -/
def registerBitSet (v : RegisterValue) : Exec (RegisterAccess × RegisterTable δ) :=
  registerBits h t idx bitSet v

/-- `register_bit_clear` -/
def registerBitClear (v : RegisterValue) : Exec (RegisterAccess × RegisterTable δ) :=
  registerBits h t idx bitClear v

end Single

end Ufw
