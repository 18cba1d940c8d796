/-
  File:      Ufw/Registers/Types.lean
  Subject:   REGISTER TABLE: the data of a table (ufw/register-table.h, registers/internal.h).

  * `RegisterValue` -- a value with its type; what it holds fits the type;
  * `RegisterArea`, `RegisterEntry` -- what the user of the library writes down;
  * `RegisterTable` -- a table: these, and beside them what the library itself writes.

  An atom has 16 bits, addresses and offsets have 32 and their arithmetic wraps. Handles are
  indices.
-/
import Ufw.Base.Exec
import Ufw.Base.Memory
import Ufw.Base.MemoryMap
import Ufw.BitOperations

namespace Ufw

open Base

/-- `RegisterAtom` -/
abbrev RegisterAtom := BitVec 16

/-- `RegisterAddress` -/
abbrev RegisterAddress := BitVec 32

/-- `RegisterOffset` -/
abbrev RegisterOffset := BitVec 32

/-- `AREA_HANDLE_MAX` -/
def areaHandleMax : Nat := 2 ^ 16 - 1

/-- `REGISTER_HANDLE_MAX` -/
def registerHandleMax : Nat := 2 ^ 32 - 1

/-! ## 1. Results -/

/-- `RegisterAccessCode` -/
inductive RegisterAccessCode where
  | success | failure | uninitialised | noentry | range | invalid | readonly | ioError
  deriving DecidableEq, Repr

/-- `RegisterAccess` -/
structure RegisterAccess where
  code : RegisterAccessCode
  address : RegisterAddress
  deriving DecidableEq, Repr

/-- `REG_ACCESS_RESULT_INIT` -/
def regAccessResultInit : RegisterAccess := ⟨.success, 0⟩

/-- `RegisterInitCode` -/
inductive RegisterInitCode where
  | success | tableInvalid | noAreas | tooManyAreas | areaInvalidOrder | areaAddressOverlap
  | tooManyEntries | entryInvalidOrder | entryAddressOverlap | entryInMemoryHole
  | entryInvalidDefault
  deriving DecidableEq, Repr

/-- `RegisterInit`; `pos` is the handle of the area or the entry the code is about. -/
structure RegisterInit where
  code : RegisterInitCode
  pos : Nat
  deriving DecidableEq, Repr

/-- `REG_INIT_RESULT_INIT` -/
def regInitResultInit : RegisterInit := ⟨.success, 0⟩

/-! ## 2. Values -/

/-- `RegisterType` -/
inductive RegisterType where
  | uint16 | uint32 | uint64 | sint16 | sint32 | sint64 | float32 | float64 | invalid
  deriving DecidableEq, Repr

/-- `rds_size`: the atoms a value of a type takes. -/
def rdsSize : RegisterType → Nat
  | .invalid => 0
  | .uint16 | .sint16 => 1
  | .uint32 | .sint32 | .float32 => 2
  | .uint64 | .sint64 | .float64 => 4

/-- `REG_SIZEOF_LARGEST_DATUM` -/
def regSizeofLargestDatum : Nat := 4

/-- `RegisterValueU`: a member is the low bits. The code only ever reads the member that belongs to
    the type at hand, the one that was written. -/
abbrev RegisterValueU := BitVec 64

namespace RegisterValueU

/-- The members of 16 bits: `u16` and `s16`. -/
def w16 (u : RegisterValueU) : BitVec 16 := u.setWidth 16

/-- The members of 32 bits: `u32`, `s32` and `f32`. -/
def w32 (u : RegisterValueU) : BitVec 32 := u.setWidth 32

/-- The members of 64 bits: `u64`, `s64` and `f64`. -/
def w64 (u : RegisterValueU) : BitVec 64 := u.setWidth 64

end RegisterValueU

/-- `RegisterValue`: the bits above the member the type names are clear. -/
structure RegisterValue where
  type : RegisterType
  value : RegisterValueU
  fits : value.toNat < 2 ^ (16 * rdsSize type)
  deriving DecidableEq

theorem rdsSize_le (type : RegisterType) : rdsSize type ≤ regSizeofLargestDatum := by
  cases type <;> decide

theorem rdsSize_pos {type : RegisterType} (h : type ≠ .invalid) : 0 < rdsSize type := by
  cases type <;> first | decide | exact absurd rfl h

namespace RegisterValue

/-- A value of the type `type` whose member is that of the union `u`. -/
def ofUnion (type : RegisterType) (u : RegisterValueU) : RegisterValue where
  type := type
  value := BitVec.ofNat 64 (u.toNat % 2 ^ (16 * rdsSize type))
  fits := by
    have hp : 0 < 2 ^ (16 * rdsSize type) := Nat.two_pow_pos _
    rw [BitVec.toNat_ofNat]
    exact lt_of_le_of_lt (Nat.mod_le _ _) (Nat.mod_lt _ hp)

@[simp] theorem type_ofUnion (type : RegisterType) (u : RegisterValueU) :
    (ofUnion type u).type = type := rfl

/-- A value is its union at its type. -/
theorem ofUnion_self (v : RegisterValue) : ofUnion v.type v.value = v := by
  have hv : BitVec.ofNat 64 (v.value.toNat % 2 ^ (16 * rdsSize v.type)) = v.value := by
    rw [Nat.mod_eq_of_lt v.fits, BitVec.ofNat_toNat, BitVec.setWidth_eq]
  cases v
  simp only [ofUnion, mk.injEq, true_and]
  exact hv

end RegisterValue

/-- `RegisterValidator`. A callback is handed its entry, too: here it is the function of the value
    that it is for its entry. -/
inductive RegisterValidator where
  | trivial
  | fail
  | min (min : RegisterValueU)
  | max (max : RegisterValueU)
  | range (min max : RegisterValueU)
  | callback (cb : RegisterValue → Bool)

/-! ## 3. Areas and entries -/

/-- `REG_AF_READABLE` -/
def regAfReadable : BitVec 16 := 1

/-- `REG_AF_WRITEABLE` -/
def regAfWriteable : BitVec 16 := 2

/-- `REG_AF_SKIP_DEFAULTS` -/
def regAfSkipDefaults : BitVec 16 := 4

/-- `registerRead`: `reg_mem_read`, or a function of the device behind the area. From an offset and
    a count it makes a result and the atoms it stores. -/
inductive RegisterRead (δ : Type) where
  | regMemRead
  | custom (run : RegisterOffset → RegisterOffset → δ → RegisterAccess × List RegisterAtom × δ)

/-- `registerWrite`: `reg_mem_write`, or a function of the device behind the area, which is handed
    the atoms, an offset and their number. -/
inductive RegisterWrite (δ : Type) where
  | regMemWrite
  | custom (run : List RegisterAtom → RegisterOffset → RegisterOffset → δ → RegisterAccess × δ)

/-- `RegisterArea`, as its user writes it down; a method may be NULL, and `mem` may be. -/
structure RegisterArea (δ : Type) where
  read : Option (RegisterRead δ)
  write : Option (RegisterWrite δ)
  flags : BitVec 16
  base : RegisterAddress
  size : RegisterOffset
  hasMem : Bool

/-- `RegisterEntry`, as its user writes it down. -/
structure RegisterEntry where
  type : RegisterType
  defaultValue : RegisterValueU
  address : RegisterAddress
  check : RegisterValidator

/-- `area` and `offset` of a `RegisterEntry`: where `register_init` links it to. -/
structure RegisterLink where
  area : Option Nat
  offset : RegisterOffset
  deriving DecidableEq, Repr

/-- `entry` of a `RegisterArea`: the entries `register_init` finds in it. -/
structure RegisterSpan where
  first : Nat
  last : Nat
  count : Nat
  deriving DecidableEq, Repr

/-- `REG_EF_TOUCHED` -/
def regEfTouched : BitVec 16 := 1

/-! ## 4. Tables -/

/-- `REG_TF_INITIALISED` -/
def regTfInitialised : BitVec 16 := 1

/-- `REG_TF_DURING_INIT` -/
def regTfDuringInit : BitVec 16 := 2

/-- `REG_TF_BIG_ENDIAN` -/
def regTfBigEndian : BitVec 16 := 4

/-- `RegisterTable` over a device with states `δ`. The user's arrays are as long as their
    terminators say; the fields of areas and entries that the library writes are kept apart from
    them, and so is the memory behind the areas, which do not share it. -/
structure RegisterTable (δ : Type) where
  flags : BitVec 16
  areas : Nat
  area : Mem (RegisterArea δ)
  entries : Nat
  entry : Mem RegisterEntry
  /-- `area != NULL` -/
  hasArea : Bool
  /-- `entry != NULL` -/
  hasEntry : Bool
  /-- `entry[i].area`, `entry[i].offset` -/
  link : Mem RegisterLink
  /-- `entry[i].flags` -/
  entryFlags : Mem (BitVec 16)
  /-- `area[i].entry` -/
  span : Mem RegisterSpan
  /-- `area[i].mem` -/
  mem : Mem (Mem RegisterAtom)
  dev : δ

/-- `is_end_of_areas` -/
def isEndOfAreas {δ : Type} (a : RegisterArea δ) : Bool :=
  if a.read.isSome || a.write.isSome then false
  else if a.size != 0 || a.base != 0 then false
  else if a.hasMem then false
  else true

/-- `is_end_of_entries` -/
def isEndOfEntries (e : RegisterEntry) : Bool := e.type == .invalid

/-! ## 5. Writing a table down -/

/-- `MEMORY_AREA` -/
def memoryArea {δ : Type} (addr : RegisterAddress) (size : RegisterOffset) : RegisterArea δ where
  read := some .regMemRead
  write := some .regMemWrite
  flags := regAfReadable ||| regAfWriteable
  base := addr
  size := size
  hasMem := true

/-- `REGISTER_AREA_END` -/
def registerAreaEnd {δ : Type} : RegisterArea δ :=
  { read := none, write := none, flags := 0, base := 0, size := 0, hasMem := false }

/-- `REGISTER_ENTRY_END` -/
def registerEntryEnd : RegisterEntry :=
  { type := .invalid, defaultValue := 0, address := 0, check := .trivial }

/-- A table of areas and entries, without a device, as its user hands it to `register_init`. -/
def tableOf (areas : List (RegisterArea Unit)) (entries : List RegisterEntry) :
    RegisterTable Unit where
  flags := 0
  areas := 0
  area := Mem.ofList registerAreaEnd areas
  entries := 0
  entry := Mem.ofList registerEntryEnd entries
  hasArea := true
  hasEntry := true
  link := fun _ => ⟨none, 0⟩
  entryFlags := fun _ => 0
  span := fun _ => ⟨0, 0, 0⟩
  mem := fun _ _ => 0
  dev := ()

/-! ## 6. Operations on tables -/

section Touch

variable {δ : Type} (t : RegisterTable δ) (reg : Nat)

/-- `register_touch` -/
def registerTouch : RegisterTable δ :=
  { t with entryFlags := Function.update t.entryFlags reg (bitSet (t.entryFlags reg) regEfTouched) }

/-- `register_untouch` -/
def registerUntouch : RegisterTable δ :=
  { t with
    entryFlags := Function.update t.entryFlags reg (bitClear (t.entryFlags reg) regEfTouched) }

/-- `register_was_touched` -/
def registerWasTouched : Bool := bitIsset (t.entryFlags reg) regEfTouched

/-- `register_make_bigendian` -/
def registerMakeBigendian (bigendian : Bool) : RegisterTable δ :=
  if bigendian then { t with flags := bitSet t.flags regTfBigEndian }
  else { t with flags := bitClear t.flags regTfBigEndian }

end Touch

end Ufw
