/-
  File:      Ufw/Registers/Init.lean
  Subject:   REGISTER TABLE: `register_init` (registers/core.c).

  * `registerInit` -- it counts areas and entries, checks their order, clears the memory, links
    every entry to its area and loads its default value;
  * `Initialised` -- the tables it accepted, whatever they hold by now.
-/
import Ufw.Registers.Table

namespace Ufw

open Base

variable {δ : Type}

/-! ## 1. Counting and order -/

/-- `reg_count_areas` -/
def regCountAreas (area : Mem (RegisterArea δ)) : Nat :=
  firstFrom (fun n => isEndOfAreas (area n)) areaHandleMax 0

/-- `reg_count_entries` -/
def regCountEntries (entry : Mem RegisterEntry) : Nat :=
  firstFrom (fun n => isEndOfEntries (entry n)) registerHandleMax 0

/-- The check of the order of areas, from area `i` on, behind an area that begins at `previous`. The
    sum is one of 32 bits. -/
def areasInOrder (t : RegisterTable δ) : Nat → Nat → RegisterAddress → RegisterInit
  | 0, _, _ => regInitResultInit
  | k + 1, i, previous =>
    let current := (t.area i).base
    if current < previous then ⟨.areaInvalidOrder, i⟩
    else if current < previous + (t.area (i - 1)).size then ⟨.areaAddressOverlap, i⟩
    else areasInOrder t k (i + 1) current

/-- The check of the order of entries, from entry `i` on, behind an entry at `previous`. The sum is
    a `size_t`. -/
def entriesInOrder (t : RegisterTable δ) : Nat → Nat → RegisterAddress → RegisterInit
  | 0, _, _ => regInitResultInit
  | k + 1, i, previous =>
    let current := (t.entry i).address
    if current < previous then ⟨.entryInvalidOrder, i⟩
    else if current.toNat < previous.toNat + rdsSize (t.entry (i - 1)).type then
      ⟨.entryAddressOverlap, i⟩
    else entriesInOrder t k (i + 1) current

/-! ## 2. Entries and areas -/

/-- `reg_entry_is_in_memory` -/
def regEntryIsInMemory (t : RegisterTable δ) (reg : Nat) : Option (RegisterTable δ) :=
  let e := t.entry reg
  let an := firstFrom (fun n => raRegIsPartOf (t.area n) e) t.areas 0
  if an = t.areas then none
  else if raRegFitsInto (t.area an) e = false then none
  else
    some { t with
      link := Function.update t.link reg ⟨some an, e.address - (t.area an).base⟩ }

/-- `need_to_load_default`, of an entry in the area `a`. -/
def needToLoadDefault (a : RegisterArea δ) : Bool :=
  if a.write.isNone then false
  else if bitIsset a.flags regAfSkipDefaults then false
  else true

/-- The end of `register_init` where it fails late. -/
def failInit (t : RegisterTable δ) : RegisterTable δ :=
  { t with flags := bitClear t.flags (regTfInitialised ||| regTfDuringInit) }

/-- Link the entries from `i` on to their areas and load their defaults. -/
def registerLinkFrom (h : Host) :
    Nat → Nat → RegisterTable δ → Exec (RegisterInit × RegisterTable δ)
  | 0, _, t => .ok (regInitResultInit, t)
  | k + 1, i, t =>
    match regEntryIsInMemory t i with
    | none => .ok (⟨.entryInMemoryHole, i⟩, failInit t)
    | some t =>
      let e := t.entry i
      let an := raFindAreaByAddr t e.address
      let t := { t with link := Function.update t.link i { t.link i with area := some an } }
      if needToLoadDefault (t.area an) then do
        let (access, t) ← registerSet h t i (RegisterValue.ofUnion e.type e.defaultValue)
        if access.code ≠ .success then return (⟨.entryInvalidDefault, i⟩, failInit t)
        registerLinkFrom h k (i + 1) t
      else registerLinkFrom h k (i + 1) t

/-- `ra_first_entry_of_next` -/
def raFirstEntryOfNext (t : RegisterTable δ) (a : RegisterArea δ) (start : Nat) : Nat :=
  firstFrom (fun i => !raAddrIsPartOf a (t.entry i).address) (t.entries - start) start

/-- Link the areas from `i` on to their entries; `entry` is the first entry of no area before. -/
def registerSpanFrom : Nat → Nat → Nat → RegisterTable δ → RegisterTable δ
  | 0, _, _, t => t
  | k + 1, i, entry, t =>
    if entry < t.entries && raAddrIsPartOf (t.area i) (t.entry entry).address then
      let next := raFirstEntryOfNext t (t.area i) (entry + 1)
      registerSpanFrom k (i + 1) next
        { t with span := Function.update t.span i ⟨entry, next - 1, next - entry⟩ }
    else
      registerSpanFrom k (i + 1) entry { t with span := Function.update t.span i ⟨0, 0, 0⟩ }

/-! ## 3. `register_init` -/

/-- The end of `register_init`. -/
def endInit (t : RegisterTable δ) : RegisterTable δ :=
  { t with flags := bitClear t.flags regTfDuringInit }

/-- The second half of `register_init`: the order of areas and entries was checked. -/
def registerInitMemory (h : Host) (t : RegisterTable δ) :
    Exec (RegisterInit × RegisterTable δ) := do
  let t :=
    { t with
      mem := fun i =>
        if i < t.areas ∧ (t.area i).hasMem = true then
          (t.mem i).fill 0 0 (t.area i).size.toNat
        else t.mem i
      flags := bitSet t.flags regTfInitialised }
  let (rv, t) ← registerLinkFrom h t.entries 0 t
  if rv.code ≠ .success then return (rv, t)
  return (rv, endInit (registerSpanFrom t.areas 0 0 t))

/-- **`register_init`**, of a table that is not NULL. -/
def registerInit (h : Host) (t : RegisterTable δ) : Exec (RegisterInit × RegisterTable δ) :=
  if t.hasArea = false then .ok (⟨.tableInvalid, 0⟩, t)
  else if t.hasEntry = false then .ok (⟨.tableInvalid, 0⟩, t)
  else
    let t :=
      { t with
        flags := bitSet (bitClear t.flags regTfInitialised) regTfDuringInit
        areas := regCountAreas t.area }
    if t.areas = areaHandleMax then .ok (⟨.tooManyAreas, areaHandleMax⟩, endInit t)
    else
      let t := { t with entries := regCountEntries t.entry }
      if t.entries = registerHandleMax then
        .ok (⟨.tooManyEntries, registerHandleMax⟩, endInit t)
      else if t.areas = 0 then .ok (⟨.noAreas, 0⟩, endInit t)
      else
        let rv := areasInOrder t (t.areas - 1) 1 (t.area 0).base
        if rv.code ≠ .success then .ok (rv, endInit t)
        else
          let rv := entriesInOrder t (t.entries - 1) 1 (t.entry 0).address
          if rv.code ≠ .success then .ok (rv, endInit t)
          else registerInitMemory h t

/-- **An initialised table**: `register_init` accepted it, some time ago. By now its memory, its
    device and the flags of its entries are what they are, and the octet order may have been set
    anew. -/
def Initialised (h : Host) (t : RegisterTable δ) : Prop :=
  ∃ t₀ rv t₁ bigendian, registerInit h t₀ = .ok (rv, t₁) ∧ rv.code = .success ∧
    t = { registerMakeBigendian t₁ bigendian with
      mem := t.mem, dev := t.dev, entryFlags := t.entryFlags }

theorem registerMakeBigendian_self (t : RegisterTable δ) :
    registerMakeBigendian t (bitIsset t.flags regTfBigEndian) = t := by
  unfold registerMakeBigendian
  split
  · rename_i hb
    rw [bitSet_of_isset hb]
  · rename_i hb
    have hmask : regTfBigEndian = BitVec.twoPow 16 2 := rfl
    rw [hmask] at hb ⊢
    rw [bitClear_of_not_isset (by decide) (Bool.eq_false_of_not_eq_true hb)]

/-- The table `register_init` leaves behind. -/
def initialTable (h : Host) (t : RegisterTable δ) : RegisterTable δ :=
  match registerInit h t with
  | .error _ => t
  | .ok (_, t') => t'

/-- Whether `register_init` accepts a table. -/
def initAccepts (h : Host) (t : RegisterTable δ) : Bool :=
  match registerInit h t with
  | .error _ => false
  | .ok (rv, _) => rv.code == .success

theorem initialised_initialTable {h : Host} {t : RegisterTable δ} (ha : initAccepts h t = true) :
    Initialised h (initialTable h t) := by
  unfold initAccepts at ha
  unfold initialTable
  cases hi : registerInit h t with
  | error e =>
    rw [hi] at ha
    exact Bool.noConfusion ha
  | ok r =>
    rw [hi] at ha
    refine ⟨t, r.1, r.2, bitIsset r.2.flags regTfBigEndian, hi, eq_of_beq ha, ?_⟩
    rw [registerMakeBigendian_self]

end Ufw
