/-
  File:      Ufw/Registers/Block.lean
  Subject:   REGISTER TABLE: writing blocks (registers/core.c).

  * `raWriteable`, `registerBlockTouchesHole`, `raMalformedWrite` -- the three checks before a
    write;
  * `registerBlockWriteUnsafe` -- the write, area by area;
  * `registerBlockWrite` -- all of it.

  `raMalformedWrite` also records its calls of `memcpy`. A loop over a block needs no more passes
  than the block has atoms: that is its fuel.
-/
import Ufw.Registers.Table

namespace Ufw

open Base

variable {δ : Type}

/-! ## 1. The checks -/

/-- `ra_writeable`, from area `i` on. -/
def raWriteableFrom (t : RegisterTable δ) (addr : RegisterAddress) (n : RegisterOffset) :
    Nat → Nat → RegisterAccess
  | 0, _ => regAccessResultInit
  | k + 1, i =>
    let touch := raRangeTouches (t.area i) addr n
    if touch < 0 then raWriteableFrom t addr n k (i + 1)
    else if touch > 0 then regAccessResultInit
    else if registerAreaIsWriteable (t.area i) = false then ⟨.readonly, addr⟩
    else raWriteableFrom t addr n k (i + 1)

/-- `ra_writeable` -/
def raWriteable (t : RegisterTable δ) (addr : RegisterAddress) (n : RegisterOffset) :
    RegisterAccess := raWriteableFrom t addr n t.areas 0

/-- `reg_min`, of two `size_t` that were 32-bit numbers. -/
def regMin (a b : RegisterOffset) : RegisterOffset := if a > b then b else a

/-- The atoms of a block of `rest` atoms from `addr` on that lie in the area `a`. -/
def areaPart (a : RegisterArea δ) (addr : RegisterAddress) (rest : RegisterOffset) :
    RegisterOffset := regMin (a.base + a.size - addr) rest

/-- `register_block_touches_hole`, with fuel. -/
def registerBlockTouchesHoleFuel (t : RegisterTable δ) :
    Nat → RegisterAddress → RegisterOffset → Exec RegisterAccess
  | 0, _, rest => if rest = 0 then .ok regAccessResultInit else .error .outOfFuel
  | fuel + 1, addr, rest =>
    if rest = 0 then .ok regAccessResultInit
    else
      let an := raFindAreaByAddr t addr
      if an = t.areas then .ok ⟨.noentry, addr⟩
      else
        let used := areaPart (t.area an) addr rest
        registerBlockTouchesHoleFuel t fuel (addr + used) (rest - used)

/-- `register_block_touches_hole` -/
def registerBlockTouchesHole (t : RegisterTable δ) (addr : RegisterAddress) (n : RegisterOffset) :
    Exec RegisterAccess := registerBlockTouchesHoleFuel t n.toNat addr n

/-- A call `memcpy(raw + rs, buf + bs, rlen * sizeof(RegisterAtom))` for an entry of `size` atoms;
    `exact` is `rlen` in unbounded arithmetic. -/
structure RegisterCopy where
  size : RegisterOffset
  bs : RegisterAddress
  rs : RegisterAddress
  rlen : RegisterOffset
  exact : Int
  deriving DecidableEq, Repr

/-- The address of the last atom of an entry, as `ra_malformed_write` computes it. -/
def regEntryEnd (e : RegisterEntry) : RegisterAddress := e.address + registerEntrySize e - 1

/-- What `ra_malformed_write` computes for an entry: which atoms of the block `[addr, addr + n)` go
    where in the entry. -/
def regCopyOf (e : RegisterEntry) (addr : RegisterAddress) (n : RegisterOffset) : RegisterCopy :=
  let last := addr + n - 1
  let size := registerEntrySize e
  let c : RegisterCopy :=
    if addr > e.address then
      let rs := addr - e.address
      { size := size, bs := 0, rs := rs, rlen := size - (rs - 1),
        exact := size.toNat - (rs.toNat - 1) }
    else
      { size := size, bs := e.address - addr, rs := 0, rlen := size, exact := size.toNat }
  if regEntryEnd e > last then
    { c with
      rlen := c.rlen - (c.bs + size - n)
      exact := c.exact - (c.bs.toNat + size.toNat - n.toNat) }
  else c

/-- `ra_malformed_write`, from entry `i` on, with the copies it makes. -/
def raMalformedWriteFrom (h : Host) (addr : RegisterAddress) (n : RegisterOffset)
    (buf : Mem RegisterAtom) : Nat → Nat → RegisterAccess → RegisterTable δ →
    List RegisterCopy × Exec (RegisterAccess × RegisterTable δ)
  | 0, _, rv, t => ([], .ok (rv, t))
  | k + 1, i, rv, t =>
    let e := t.entry i
    if addr > regEntryEnd e then raMalformedWriteFrom h addr n buf k (i + 1) rv t
    else if e.address > addr + n - 1 then ([], .ok (rv, t))
    else
      let c := regCopyOf e addr n
      match regReadEntry t i h.localAtoms with
      | .error halt => ([], .error halt)
      | .ok (rv, raw, t) =>
        if rv.code ≠ .success then ([], .ok (rv, t))
        else
          let raw := raw.copy c.rs.toNat (buf.shift c.bs.toNat) c.rlen.toNat
          match (rdsSerdes h e.type).des raw (bitIsset t.flags regTfBigEndian) with
          | .error halt => ([c], .error halt)
          | .ok (datum, success) =>
            if success = false then ([c], .ok (⟨.invalid, addr + c.bs⟩, t))
            else if rvValidate t e datum = false then ([c], .ok (⟨.range, addr + c.bs⟩, t))
            else
              let rest := raMalformedWriteFrom h addr n buf k (i + 1) rv t
              (c :: rest.1, rest.2)

section Malformed

variable (h : Host) (t : RegisterTable δ) (addr : RegisterAddress) (n : RegisterOffset)
  (buf : Mem RegisterAtom)

/-- `ra_malformed_write` -/
def raMalformedWrite : Exec (RegisterAccess × RegisterTable δ) :=
  (raMalformedWriteFrom h addr n buf t.entries 0 regAccessResultInit t).2

/-- The copies `ra_malformed_write` makes. -/
def raMalformedWriteCopies : List RegisterCopy :=
  (raMalformedWriteFrom h addr n buf t.entries 0 regAccessResultInit t).1

end Malformed

/-! ## 2. The write -/

/-- `register_block_write_unsafe`, with fuel. -/
def registerBlockWriteUnsafeFuel : Nat → RegisterTable δ → RegisterAddress → RegisterOffset →
    Mem RegisterAtom → Exec (RegisterAccess × RegisterTable δ)
  | 0, t, _, rest, _ => if rest = 0 then .ok (regAccessResultInit, t) else .error .outOfFuel
  | fuel + 1, t, addr, rest, buf =>
    if rest = 0 then .ok (regAccessResultInit, t)
    else do
      let an := raFindAreaByAddr t addr
      require (an < t.areas)
      let a := t.area an
      let writen := areaPart a addr rest
      let (rv, t) ← areaWrite t an buf (addr - a.base) writen
      if rv.code ≠ .success then return (rv, t)
      registerBlockWriteUnsafeFuel fuel t (addr + writen) (rest - writen) (buf.shift writen.toNat)

/-- `register_block_write_unsafe` -/
def registerBlockWriteUnsafe (t : RegisterTable δ) (addr : RegisterAddress) (n : RegisterOffset)
    (buf : Mem RegisterAtom) : Exec (RegisterAccess × RegisterTable δ) :=
  registerBlockWriteUnsafeFuel n.toNat t addr n buf

/-- `reg_taint_in_range`, from entry `i` on. -/
def regTaintInRangeFrom (addr : RegisterAddress) (n : RegisterOffset) :
    Nat → Nat → RegisterTable δ → RegisterTable δ
  | 0, _, t => t
  | k + 1, i, t =>
    let touch := regRangeTouches (t.entry i) addr n
    if touch > 0 then t
    else if touch < 0 then regTaintInRangeFrom addr n k (i + 1) t
    else regTaintInRangeFrom addr n k (i + 1) (registerTouch t i)

/-- `reg_taint_in_range` -/
def regTaintInRange (t : RegisterTable δ) (addr : RegisterAddress) (n : RegisterOffset) :
    RegisterTable δ := regTaintInRangeFrom addr n t.entries 0 t

/-- **`register_block_write`** -/
def registerBlockWrite (h : Host) (t : RegisterTable δ) (addr : RegisterAddress)
    (n : RegisterOffset) (buf : Mem RegisterAtom) : Exec (RegisterAccess × RegisterTable δ) :=
  if bitIsset t.flags regTfInitialised = false then .ok (⟨.uninitialised, addr⟩, t)
  else if n = 0 then .ok (regAccessResultInit, t)
  else do
    let rv := raWriteable t addr n
    if rv.code ≠ .success then return (rv, t)
    let rv ← registerBlockTouchesHole t addr n
    if rv.code ≠ .success then return (rv, t)
    let (rv, t) ← raMalformedWrite h t addr n buf
    if rv.code ≠ .success then return (rv, t)
    let (rv, t) ← registerBlockWriteUnsafe t addr n buf
    if rv.code ≠ .success then return (rv, t)
    return (rv, regTaintInRange t addr n)

end Ufw
