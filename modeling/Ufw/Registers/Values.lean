/-
  File:      Ufw/Registers/Values.lean
  Subject:   REGISTER TABLE: values in memory and the checks on values (registers/core.c).

  * `rdsSerdes` -- the serialiser and the deserialiser of a type;
  * `valueAtoms`, `atomsValue` -- the atoms of a value and the value of atoms: **the two are
    inverse**, and `rdsSerdes_ser`, `rdsSerdes_des` say that the code computes them;
  * `rvValidate` -- the validator of an entry.

  The floating point types are the binary interchange formats of 32 and 64 bits, given by their
  bits.
-/
import Ufw.BinaryFormat
import Ufw.Registers.Types

namespace Ufw

open Base

/-! ## 1. Floating point numbers, by their bits -/

/-- A binary format: a sign, an exponent and a fraction. -/
structure FloatFormat where
  exponent : Nat
  fraction : Nat

/-- The format of `float`. -/
def binary32 : FloatFormat := ⟨8, 23⟩

/-- The format of `double`. -/
def binary64 : FloatFormat := ⟨11, 52⟩

namespace FloatFormat

variable (f : FloatFormat) {w : Nat}

/-- A number without its sign. -/
def magnitude (x : BitVec w) : Nat := x.toNat % 2 ^ (f.exponent + f.fraction)

/-- The magnitude of the infinities; what lies above is not a number. -/
def infinity : Nat := (2 ^ f.exponent - 1) * 2 ^ f.fraction

/-- `x == 0.` -/
def isZero (x : BitVec w) : Bool := f.magnitude x == 0

/-- `isnormal` -/
def isNormal (x : BitVec w) : Bool :=
  decide (2 ^ f.fraction ≤ f.magnitude x) && decide (f.magnitude x < f.infinity)

/-- `isnan` -/
def isNan (x : BitVec w) : Bool := decide (f.infinity < f.magnitude x)

/-- The place of a number among the others; both zeroes have one. -/
def rank (x : BitVec w) : Int :=
  if x.toNat < 2 ^ (f.exponent + f.fraction) then f.magnitude x else -(f.magnitude x : Int)

/-- `x <= y` -/
def le (x y : BitVec w) : Bool := !f.isNan x && !f.isNan y && decide (f.rank x ≤ f.rank y)

/-- `x == y` -/
def eq (x y : BitVec w) : Bool := !f.isNan x && !f.isNan y && decide (f.rank x = f.rank y)

/-- What the serialisers and deserialisers accept: zeroes and normal numbers. -/
def usable (x : BitVec w) : Bool := f.isZero x || f.isNormal x

end FloatFormat

/-! ## 2. Serialisers and deserialisers -/

section Serdes

variable {w : Nat} (h : Host)

/-- A serialiser: the member of the value, in the octet order asked for, as atoms; `usable` is false
    of what it refuses. -/
def rdsSer (type : RegisterType) (member : RegisterValueU → BitVec w) (usable : BitVec w → Bool)
    (setB setL : BitVec w → List Octet) (v : RegisterValue) (bigendian : Bool) :
    Exec (Option (List RegisterAtom)) := do
  require (v.type = type)
  if usable (member v.value) = false then return none
  return some
    (octetWords h (if bigendian then setB (member v.value) else setL (member v.value)))

/-- A deserialiser: the value it stores, and whether it accepts it. -/
def rdsDes (type : RegisterType) (usable : BitVec w → Bool) (refB refL : List Octet → BitVec w)
    (r : Mem RegisterAtom) (bigendian : Bool) : Exec (RegisterValue × Bool) :=
  let octets := wordOctets h (r.slice 0 (rdsSize type))
  let x := if bigendian then refB octets else refL octets
  .ok (RegisterValue.ofUnion type (x.setWidth 64), usable x)

/-- `RegisterSerDes` -/
structure RegisterSerDes where
  ser : RegisterValue → Bool → Exec (Option (List RegisterAtom))
  des : Mem RegisterAtom → Bool → Exec (RegisterValue × Bool)

/-- `rds_invalid_ser`, `rds_invalid_des`: a failing assertion. -/
def rdsInvalid : RegisterSerDes := ⟨fun _ _ => .error .fault, fun _ _ => .error .fault⟩

/-- `rds_u16_ser`, `rds_u16_des` -/
def rdsU16 : RegisterSerDes :=
  ⟨rdsSer h .uint16 RegisterValueU.w16 (fun _ => true) (bfSetU16b h) (bfSetU16l h),
    rdsDes h .uint16 (fun _ => true) (bfRefU16b h) (bfRefU16l h)⟩

/-- `rds_u32_ser`, `rds_u32_des` -/
def rdsU32 : RegisterSerDes :=
  ⟨rdsSer h .uint32 RegisterValueU.w32 (fun _ => true) (bfSetU32b h) (bfSetU32l h),
    rdsDes h .uint32 (fun _ => true) (bfRefU32b h) (bfRefU32l h)⟩

/-- `rds_u64_ser`, `rds_u64_des` -/
def rdsU64 : RegisterSerDes :=
  ⟨rdsSer h .uint64 RegisterValueU.w64 (fun _ => true) (bfSetU64b h) (bfSetU64l h),
    rdsDes h .uint64 (fun _ => true) (bfRefU64b h) (bfRefU64l h)⟩

-- The accessors `bf_set_s16b` … of signed integers hand their word to those of unsigned ones, and
-- so do `bf_set_f32b` … of floating point numbers.

/-- `rds_s16_ser`, `rds_s16_des` -/
def rdsS16 : RegisterSerDes :=
  ⟨rdsSer h .sint16 RegisterValueU.w16 (fun _ => true) (bfSetU16b h) (bfSetU16l h),
    rdsDes h .sint16 (fun _ => true) (bfRefU16b h) (bfRefU16l h)⟩

/-- `rds_s32_ser`, `rds_s32_des` -/
def rdsS32 : RegisterSerDes :=
  ⟨rdsSer h .sint32 RegisterValueU.w32 (fun _ => true) (bfSetU32b h) (bfSetU32l h),
    rdsDes h .sint32 (fun _ => true) (bfRefU32b h) (bfRefU32l h)⟩

/-- `rds_s64_ser`, `rds_s64_des` -/
def rdsS64 : RegisterSerDes :=
  ⟨rdsSer h .sint64 RegisterValueU.w64 (fun _ => true) (bfSetU64b h) (bfSetU64l h),
    rdsDes h .sint64 (fun _ => true) (bfRefU64b h) (bfRefU64l h)⟩

/-- `rds_f32_ser`, `rds_f32_des` -/
def rdsF32 : RegisterSerDes :=
  ⟨rdsSer h .float32 RegisterValueU.w32 binary32.usable (bfSetU32b h) (bfSetU32l h),
    rdsDes h .float32 binary32.usable (bfRefU32b h) (bfRefU32l h)⟩

/-- `rds_f64_ser`, `rds_f64_des` -/
def rdsF64 : RegisterSerDes :=
  ⟨rdsSer h .float64 RegisterValueU.w64 binary64.usable (bfSetU64b h) (bfSetU64l h),
    rdsDes h .float64 binary64.usable (bfRefU64b h) (bfRefU64l h)⟩

/-- `rds_serdes` -/
def rdsSerdes : RegisterType → RegisterSerDes
  | .invalid => rdsInvalid
  | .uint16 => rdsU16 h
  | .uint32 => rdsU32 h
  | .uint64 => rdsU64 h
  | .sint16 => rdsS16 h
  | .sint32 => rdsS32 h
  | .sint64 => rdsS64 h
  | .float32 => rdsF32 h
  | .float64 => rdsF64 h

end Serdes

/-! ## 3. What they compute -/

namespace RegisterValue

/-- **What the serialiser of its type accepts.** -/
def usable (v : RegisterValue) : Bool :=
  match v.type with
  | .float32 => binary32.usable v.value.w32
  | .float64 => binary64.usable v.value.w64
  | _ => true

end RegisterValue

/-- The octets of a value. -/
def valueOctets (h : Host) (bigendian : Bool) (v : RegisterValue) : List Octet :=
  match v.type with
  | .invalid => []
  | .uint16 | .sint16 => if bigendian then bfSetU16b h v.value.w16 else bfSetU16l h v.value.w16
  | .uint32 | .sint32 | .float32 =>
    if bigendian then bfSetU32b h v.value.w32 else bfSetU32l h v.value.w32
  | .uint64 | .sint64 | .float64 =>
    if bigendian then bfSetU64b h v.value.w64 else bfSetU64l h v.value.w64

/-- The value of octets, read as a type. -/
def octetsValue (h : Host) (bigendian : Bool) (type : RegisterType) (l : List Octet) :
    RegisterValue :=
  match type with
  | .invalid => .ofUnion type 0
  | .uint16 | .sint16 =>
    .ofUnion type ((if bigendian then bfRefU16b h l else bfRefU16l h l).setWidth 64)
  | .uint32 | .sint32 | .float32 =>
    .ofUnion type ((if bigendian then bfRefU32b h l else bfRefU32l h l).setWidth 64)
  | .uint64 | .sint64 | .float64 =>
    .ofUnion type ((if bigendian then bfRefU64b h l else bfRefU64l h l).setWidth 64)

/-- **The atoms of a value.** -/
def valueAtoms (h : Host) (bigendian : Bool) (v : RegisterValue) : List RegisterAtom :=
  octetWords h (valueOctets h bigendian v)

/-- **The value of atoms**, read as a type. -/
def atomsValue (h : Host) (bigendian : Bool) (type : RegisterType) (l : List RegisterAtom) :
    RegisterValue := octetsValue h bigendian type (wordOctets h l)

section Members

/-- A member is read back. -/
theorem setWidth_ofUnion {type : RegisterType} {w : Nat} (hw : 16 * rdsSize type = w)
    (h64 : w ≤ 64) (x : BitVec w) :
    (RegisterValue.ofUnion type (x.setWidth 64)).value.setWidth w = x := by
  have hx : x.toNat < 2 ^ w := x.isLt
  have hle : 2 ^ w ≤ 2 ^ 64 := Nat.pow_le_pow_right (by decide) h64
  apply BitVec.eq_of_toNat_eq
  simp only [RegisterValue.ofUnion, hw, BitVec.toNat_setWidth, BitVec.toNat_ofNat]
  rw [Nat.mod_eq_of_lt (a := x.toNat) (by omega), Nat.mod_eq_of_lt hx,
    Nat.mod_eq_of_lt (a := x.toNat) (by omega), Nat.mod_eq_of_lt hx]

/-- A value is given by its member. -/
theorem ofUnion_setWidth (v : RegisterValue) {w : Nat} (hw : 16 * rdsSize v.type = w) :
    RegisterValue.ofUnion v.type ((v.value.setWidth w).setWidth 64) = v := by
  have hv : v.value.toNat < 2 ^ w := hw ▸ v.fits
  have he : (v.value.setWidth w).setWidth 64 = v.value := by
    apply BitVec.eq_of_toNat_eq
    rw [BitVec.toNat_setWidth, BitVec.toNat_setWidth, Nat.mod_eq_of_lt hv,
      Nat.mod_eq_of_lt v.value.isLt]
  rw [he, RegisterValue.ofUnion_self]

end Members

variable (h : Host) (bigendian : Bool)

theorem rdsSer_eq {w : Nat} {type : RegisterType} (member : RegisterValueU → BitVec w)
    (usable : BitVec w → Bool) (setB setL : BitVec w → List Octet) {v : RegisterValue}
    (hv : v.type = type) :
    rdsSer h type member usable setB setL v bigendian = .ok (if usable (member v.value) then
      some (octetWords h (if bigendian then setB (member v.value) else setL (member v.value)))
      else none) := by
  unfold rdsSer
  rw [require_pos hv]
  cases usable (member v.value) <;> rfl

theorem rdsDes_eq {w : Nat} {type : RegisterType} (hw : 16 * rdsSize type = w) (h64 : w ≤ 64)
    (usable : BitVec w → Bool) (refB refL : List Octet → BitVec w) (r : Mem RegisterAtom) :
    rdsDes h type usable refB refL r bigendian =
      let octets := wordOctets h (r.slice 0 (rdsSize type))
      let v := RegisterValue.ofUnion type
        ((if bigendian then refB octets else refL octets).setWidth 64)
      .ok (v, usable (v.value.setWidth w)) := by
  unfold rdsDes
  simp only
  rw [setWidth_ofUnion hw h64]

/-- **What the serialiser of a type computes.** -/
theorem rdsSerdes_ser {v : RegisterValue} (hv : v.type ≠ .invalid) :
    (rdsSerdes h v.type).ser v bigendian
      = .ok (if v.usable then some (valueAtoms h bigendian v) else none) := by
  unfold valueAtoms valueOctets RegisterValue.usable
  cases ht : v.type with
  | invalid => exact absurd ht hv
  | uint16 =>
    exact rdsSer_eq h bigendian RegisterValueU.w16 (fun _ => true) (bfSetU16b h) (bfSetU16l h) ht
  | uint32 =>
    exact rdsSer_eq h bigendian RegisterValueU.w32 (fun _ => true) (bfSetU32b h) (bfSetU32l h) ht
  | uint64 =>
    exact rdsSer_eq h bigendian RegisterValueU.w64 (fun _ => true) (bfSetU64b h) (bfSetU64l h) ht
  | sint16 =>
    exact rdsSer_eq h bigendian RegisterValueU.w16 (fun _ => true) (bfSetU16b h) (bfSetU16l h) ht
  | sint32 =>
    exact rdsSer_eq h bigendian RegisterValueU.w32 (fun _ => true) (bfSetU32b h) (bfSetU32l h) ht
  | sint64 =>
    exact rdsSer_eq h bigendian RegisterValueU.w64 (fun _ => true) (bfSetU64b h) (bfSetU64l h) ht
  | float32 =>
    exact rdsSer_eq h bigendian RegisterValueU.w32 binary32.usable (bfSetU32b h) (bfSetU32l h) ht
  | float64 =>
    exact rdsSer_eq h bigendian RegisterValueU.w64 binary64.usable (bfSetU64b h) (bfSetU64l h) ht

/-- **What the deserialiser of a type computes.** -/
theorem rdsSerdes_des {type : RegisterType} (ht : type ≠ .invalid) (r : Mem RegisterAtom) :
    (rdsSerdes h type).des r bigendian
      = .ok (atomsValue h bigendian type (r.slice 0 (rdsSize type)),
        (atomsValue h bigendian type (r.slice 0 (rdsSize type))).usable) := by
  cases type with
  | invalid => exact absurd rfl ht
  | float32 => exact rdsDes_eq h bigendian rfl (by decide) _ _ _ r
  | float64 => exact rdsDes_eq h bigendian rfl (by decide) _ _ _ r
  | _ => rfl

/-! ## 4. Values and their atoms -/

section Orders

variable {n w : Nat} (hw : w = 8 * n) {swap : BitVec w → BitVec w}
  (hswap : ∀ v, swap v = ofOctets w (toOctets n v).reverse)

include hw hswap

/-- A word is read back in the order it was written in. -/
theorem bfRef_bfSet (x : BitVec w) :
    (if bigendian then
        bfRefB h swap (if bigendian then bfSetB h n swap x else bfSetL h n swap x)
      else bfRefL h swap (if bigendian then bfSetB h n swap x else bfSetL h n swap x)) = x := by
  cases bigendian with
  | false => exact bfRefL_bfSetL hw hswap h x
  | true => exact bfRefB_bfSetB hw hswap h x

theorem length_bfSet (x : BitVec w) :
    (if bigendian then bfSetB h n swap x else bfSetL h n swap x).length = n := by
  cases bigendian with
  | false => exact length_bfSetL hw hswap h x
  | true => exact length_bfSetB hw hswap h x

/-- Octets are written back in the order they were read in. -/
theorem bfSet_bfRef (l : List Octet) (hl : l.length = n) :
    (if bigendian then
        bfSetB h n swap (if bigendian then bfRefB h swap l else bfRefL h swap l)
      else bfSetL h n swap (if bigendian then bfRefB h swap l else bfRefL h swap l)) = l := by
  cases bigendian with
  | false => exact bfSetL_bfRefL hw hswap h l hl
  | true => exact bfSetB_bfRefB hw hswap h l hl

end Orders

@[simp] theorem length_valueOctets (v : RegisterValue) :
    (valueOctets h bigendian v).length = 2 * rdsSize v.type := by
  unfold valueOctets
  cases v.type with
  | invalid => rfl
  | uint16 | sint16 => exact length_bfSet (n := 2) h bigendian rfl bfSwap16_eq _
  | uint32 | sint32 | float32 => exact length_bfSet (n := 4) h bigendian rfl bfSwap32_eq _
  | uint64 | sint64 | float64 => exact length_bfSet (n := 8) h bigendian rfl bfSwap64_eq _

theorem wordOctets_valueAtoms (v : RegisterValue) :
    wordOctets h (valueAtoms h bigendian v) = valueOctets h bigendian v := by
  apply wordOctets_octetWords
  rw [length_valueOctets, Nat.mul_mod_right]

@[simp] theorem length_valueAtoms (v : RegisterValue) :
    (valueAtoms h bigendian v).length = rdsSize v.type := by
  have hl := congrArg List.length (wordOctets_valueAtoms h bigendian v)
  rw [length_wordOctets, length_valueOctets] at hl
  omega

@[simp] theorem type_atomsValue (type : RegisterType) (l : List RegisterAtom) :
    (atomsValue h bigendian type l).type = type := by
  cases type <;> rfl

/-- **A value is read back from its atoms.** -/
theorem atomsValue_valueAtoms (v : RegisterValue) :
    atomsValue h bigendian v.type (valueAtoms h bigendian v) = v := by
  unfold atomsValue
  rw [wordOctets_valueAtoms]
  unfold valueOctets octetsValue
  obtain ⟨type, value, fits⟩ := v
  cases type with
  | invalid =>
    have hv : value = 0#64 := BitVec.eq_of_toNat_eq (Nat.lt_one_iff.mp fits)
    subst hv
    rfl
  | uint16 | sint16 =>
    refine Eq.trans (congrArg (fun x => RegisterValue.ofUnion _ (BitVec.setWidth 64 x))
      (bfRef_bfSet (n := 2) h bigendian rfl bfSwap16_eq _)) (ofUnion_setWidth ⟨_, value, fits⟩ rfl)
  | uint32 | sint32 | float32 =>
    refine Eq.trans (congrArg (fun x => RegisterValue.ofUnion _ (BitVec.setWidth 64 x))
      (bfRef_bfSet (n := 4) h bigendian rfl bfSwap32_eq _)) (ofUnion_setWidth ⟨_, value, fits⟩ rfl)
  | uint64 | sint64 | float64 =>
    refine Eq.trans (congrArg (fun x => RegisterValue.ofUnion _ (BitVec.setWidth 64 x))
      (bfRef_bfSet (n := 8) h bigendian rfl bfSwap64_eq _)) (ofUnion_setWidth ⟨_, value, fits⟩ rfl)

/-- **Atoms are read back from their value.** -/
theorem valueAtoms_atomsValue (type : RegisterType) (l : List RegisterAtom)
    (hl : l.length = rdsSize type) :
    valueAtoms h bigendian (atomsValue h bigendian type l) = l := by
  have hw : octetWords h (wordOctets h l) = l := octetWords_wordOctets h l
  have ho : (wordOctets h l).length = 2 * rdsSize type := by rw [length_wordOctets, hl]
  refine (congrArg (octetWords h) ?_).trans hw
  unfold atomsValue
  generalize wordOctets h l = octets at ho
  unfold valueOctets octetsValue
  cases type with
  | invalid => exact (List.length_eq_zero_iff.mp ho).symm
  | uint16 | sint16 =>
    refine Eq.trans ?_ (bfSet_bfRef (n := 2) h bigendian rfl bfSwap16_eq octets ho)
    simp only [RegisterValue.type_ofUnion]
    exact congrArg (fun x => if bigendian then bfSetU16b h x else bfSetU16l h x)
      (setWidth_ofUnion (by rfl) (by decide) _)
  | uint32 | sint32 | float32 =>
    refine Eq.trans ?_ (bfSet_bfRef (n := 4) h bigendian rfl bfSwap32_eq octets ho)
    simp only [RegisterValue.type_ofUnion]
    exact congrArg (fun x => if bigendian then bfSetU32b h x else bfSetU32l h x)
      (setWidth_ofUnion (by rfl) (by decide) _)
  | uint64 | sint64 | float64 =>
    refine Eq.trans ?_ (bfSet_bfRef (n := 8) h bigendian rfl bfSwap64_eq octets ho)
    simp only [RegisterValue.type_ofUnion]
    exact congrArg (fun x => if bigendian then bfSetU64b h x else bfSetU64l h x)
      (setWidth_ofUnion (by rfl) (by decide) _)

/-! ## 5. Validators -/

/-- `rv_check_min_value` -/
def rvCheckMinValue (limit : RegisterValueU) (v : RegisterValue) : Bool :=
  match v.type with
  | .invalid => false
  | .uint16 => limit.w16.ule v.value.w16
  | .uint32 => limit.w32.ule v.value.w32
  | .uint64 => limit.w64.ule v.value.w64
  | .sint16 => limit.w16.sle v.value.w16
  | .sint32 => limit.w32.sle v.value.w32
  | .sint64 => limit.w64.sle v.value.w64
  | .float32 => binary32.le limit.w32 v.value.w32
  | .float64 => binary64.le limit.w64 v.value.w64

/-- `rv_check_max_value` -/
def rvCheckMaxValue (limit : RegisterValueU) (v : RegisterValue) : Bool :=
  match v.type with
  | .invalid => false
  | .uint16 => v.value.w16.ule limit.w16
  | .uint32 => v.value.w32.ule limit.w32
  | .uint64 => v.value.w64.ule limit.w64
  | .sint16 => v.value.w16.sle limit.w16
  | .sint32 => v.value.w32.sle limit.w32
  | .sint64 => v.value.w64.sle limit.w64
  | .float32 => binary32.le v.value.w32 limit.w32
  | .float64 => binary64.le v.value.w64 limit.w64

/-- `rv_validate`; an entry that always fails takes its default value during `register_init`. -/
def rvValidate {δ : Type} (t : RegisterTable δ) (e : RegisterEntry) (v : RegisterValue) : Bool :=
  if e.type ≠ v.type then false
  else
    match e.check with
    | .trivial => true
    | .fail => bitIsset t.flags regTfDuringInit
    | .min limit => rvCheckMinValue limit v
    | .max limit => rvCheckMaxValue limit v
    | .range min max => rvCheckMinValue min v && rvCheckMaxValue max v
    | .callback cb => cb v

theorem rvValidate_type {δ : Type} {t : RegisterTable δ} {e : RegisterEntry} {v : RegisterValue}
    (hv : rvValidate t e v = true) : v.type = e.type := by
  unfold rvValidate at hv
  split at hv
  · exact Bool.noConfusion hv
  · rename_i hne
    exact (not_not.mp hne).symm

end Ufw
