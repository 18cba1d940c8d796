/-
  File:      Ufw/RegisterProtocol/Intersections.lean
  Subject:   REGISTER PROTOCOL: ranges of addresses and their intersections (register-protocol.c).

  * `regpRangeIntersection`, `regpFrameIntersection`, `regpEmptyIntersection` -- the functions of
    the source, in its arithmetic of 32 bits;
  * `regpRangeIntersection_denotes_iff` -- **the intersection is that of the sets**, unless an empty
    range at address 0 is taken for the whole address space, or that space is the intersection;
  * `regpIntersection_laws` -- `regp_empty_intersection` says the opposite of its name, so the laws
    never hold together.
-/
import Ufw.RegisterProtocol.Types
import Ufw.Host

namespace Ufw

open Base

/-! ## 1. The source -/

/-- `RPRange` -/
structure RPRange where
  address : BitVec 32
  size : BitVec 64
  deriving DecidableEq, Repr

/-- `address_min` -/
def addressMin (a b : BitVec 32) : BitVec 32 := if a < b then a else b

/-- `address_max` -/
def addressMax (a b : BitVec 32) : BitVec 32 := if a > b then a else b

/-- `range_start` -/
def rangeStart (b : RPRange) : BitVec 32 := b.address

/-- `range_end`: the sum is one of `size_t`, the result has 32 bits. -/
def rangeEnd (b : RPRange) : BitVec 32 := (b.address.setWidth 64 + b.size - 1).setWidth 32

/-- `regp_range_intersection` -/
def regpRangeIntersection (a b : RPRange) : RPRange :=
  let start := addressMax (rangeStart a) (rangeStart b)
  let stop := addressMin (rangeEnd a) (rangeEnd b)
  if stop ≥ start then { address := start, size := (stop - start + 1).setWidth 64 }
  else { address := 0, size := 0 }

/-- The range of addresses a frame is about. -/
def RPFrame.range (f : RPFrame) : RPRange :=
  { address := f.header.address, size := f.header.blocksize.setWidth 64 }

/-- `regp_frame_intersection` -/
def regpFrameIntersection (f : RPFrame) (r : RPRange) : RPRange :=
  regpRangeIntersection f.range r

/-- `regp_empty_intersection` -/
def regpEmptyIntersection (intersect : RPRange) : Bool := intersect.size > 0

/-! ## 2. Sets of addresses -/

namespace RPRange

/-- Address `x` lies in the range. -/
def Holds (r : RPRange) (x : Nat) : Prop := r.address.toNat ≤ x ∧ x < r.address.toNat + r.size.toNat

/-- The range lies in the address space. -/
def Fits (r : RPRange) : Prop := r.address.toNat + r.size.toNat ≤ 2 ^ 32

/-- The range is the whole address space. -/
def Whole (r : RPRange) : Prop := r.size.toNat = 2 ^ 32

/-- The empty range at address 0. -/
def Blank (r : RPRange) : Prop := r.address.toNat = 0 ∧ r.size.toNat = 0

instance (r : RPRange) : Decidable r.Fits := inferInstanceAs (Decidable (_ ≤ _))

end RPRange

/-- The two ranges have no address in common. -/
def Apart (a b : RPRange) : Prop := ∀ x, ¬(a.Holds x ∧ b.Holds x)

/-- `r` is the set of the addresses that lie in both ranges. -/
def Denotes (r a b : RPRange) : Prop := ∀ x, r.Holds x ↔ a.Holds x ∧ b.Holds x

/-- **The laws of an intersection**, for a pair of ranges. -/
structure IntersectionLaws (a b : RPRange) : Prop where
  denotes : Denotes (regpRangeIntersection a b) a b
  comm : regpRangeIntersection a b = regpRangeIntersection b a
  idem : Denotes (regpRangeIntersection a a) a a
  empty : regpEmptyIntersection (regpRangeIntersection a b) = true ↔ Apart a b

/-- The laws of the intersection with the range of a frame. -/
structure FrameIntersectionLaws (f : RPFrame) (r : RPRange) : Prop where
  denotes : Denotes (regpFrameIntersection f r) f.range r
  empty : regpEmptyIntersection (regpFrameIntersection f r) = true ↔ Apart f.range r

/-- **The ends that mislead**: the empty range at address 0 ends at the last address, like the whole
    address space; and the number of addresses in that space is 0 in 32 bits. -/
def Misled (a b : RPRange) : Prop :=
  (a.Blank ∧ 0 < b.size.toNat ∧ ¬b.Whole) ∨ (b.Blank ∧ 0 < a.size.toNat ∧ ¬a.Whole) ∨
    (a.Whole ∧ b.Whole)

/-! ## 3. The intersection -/

theorem toNat_addressMin (a b : BitVec 32) : (addressMin a b).toNat = min a.toNat b.toNat := by
  unfold addressMin
  split <;> rename_i hlt
  · exact (Nat.min_eq_left (Nat.le_of_lt hlt)).symm
  · exact (Nat.min_eq_right (Nat.le_of_not_lt hlt)).symm

theorem toNat_addressMax (a b : BitVec 32) : (addressMax a b).toNat = max a.toNat b.toNat := by
  unfold addressMax
  split <;> rename_i hlt
  · exact (Nat.max_eq_left (Nat.le_of_lt hlt)).symm
  · exact (Nat.max_eq_right (Nat.le_of_not_lt hlt)).symm

theorem addressMin_comm (a b : BitVec 32) : addressMin a b = addressMin b a :=
  BitVec.eq_of_toNat_eq (by rw [toNat_addressMin, toNat_addressMin, Nat.min_comm])

theorem addressMax_comm (a b : BitVec 32) : addressMax a b = addressMax b a :=
  BitVec.eq_of_toNat_eq (by rw [toNat_addressMax, toNat_addressMax, Nat.max_comm])

/-- **The intersection is commutative.** -/
theorem regpRangeIntersection_comm (a b : RPRange) :
    regpRangeIntersection a b = regpRangeIntersection b a := by
  unfold regpRangeIntersection
  rw [addressMax_comm, addressMin_comm]

/-- **The last address of a range**; the empty range at address 0 has that of the whole space. -/
theorem rangeEnd_cases {r : RPRange} (hr : r.Fits) :
    (r.Blank ∧ (rangeEnd r).toNat = 2 ^ 32 - 1) ∨
      (¬r.Blank ∧ (rangeEnd r).toNat + 1 = r.address.toNat + r.size.toNat) := by
  have ha := r.address.isLt
  have hwide : (r.address.setWidth 64).toNat = r.address.toNat := by
    rw [BitVec.toNat_setWidth, Nat.mod_eq_of_lt (by omega)]
  have hone : (1 : BitVec 64).toNat = 1 := rfl
  have hend : (rangeEnd r).toNat
      = (2 ^ 64 - 1 + (r.address.toNat + r.size.toNat) % 2 ^ 64) % 2 ^ 64 % 2 ^ 32 := by
    unfold rangeEnd
    rw [BitVec.toNat_setWidth, BitVec.toNat_sub, BitVec.toNat_add, hwide, hone]
  unfold RPRange.Fits at hr
  unfold RPRange.Blank
  by_cases hz : r.address.toNat + r.size.toNat = 0
  · rw [hz] at hend
    exact .inl ⟨by omega, hend⟩
  · refine .inr ⟨by omega, ?_⟩
    omega

/-- The addresses from `start` to `stop`, unless these are all: their number is 0 in 32 bits. -/
theorem between_holds (start stop : BitVec 32) (x : Nat) :
    (if stop ≥ start then (⟨start, (stop - start + 1).setWidth 64⟩ : RPRange)
        else ⟨0, 0⟩).Holds x ↔
      (start.toNat ≤ x ∧ x ≤ stop.toNat) ∧ ¬(start.toNat = 0 ∧ stop.toNat = 2 ^ 32 - 1) := by
  have hs := start.isLt
  have he := stop.isLt
  unfold RPRange.Holds
  split <;> rename_i hle
  · have hle' : start.toNat ≤ stop.toNat := hle
    have hsize :
        ((stop - start + 1).setWidth 64).toNat = (stop.toNat - start.toNat + 1) % 2 ^ 32 := by
      rw [BitVec.toNat_setWidth, BitVec.toNat_add, BitVec.toNat_sub_of_le (BitVec.le_def.mpr hle')]
      exact Nat.mod_eq_of_lt (lt_trans (Nat.mod_lt _ (by decide)) (by decide))
    simp only [hsize]
    omega
  · have hlt : ¬start.toNat ≤ stop.toNat := hle
    have hz : (0 : BitVec 32).toNat = 0 ∧ (0 : BitVec 64).toNat = 0 := ⟨rfl, rfl⟩
    simp only [hz]
    omega

/-- **What the result holds**: the addresses that both ranges seem to hold, by their ends. -/
theorem regpRangeIntersection_holds (a b : RPRange) (x : Nat) :
    (regpRangeIntersection a b).Holds x ↔
      (max a.address.toNat b.address.toNat ≤ x ∧ x ≤ min (rangeEnd a).toNat (rangeEnd b).toNat) ∧
        ¬(max a.address.toNat b.address.toNat = 0 ∧
          min (rangeEnd a).toNat (rangeEnd b).toNat = 2 ^ 32 - 1) := by
  rw [← toNat_addressMax, ← toNat_addressMin]
  exact between_holds _ _ x

/-- **`regp_empty_intersection` is true of the ranges that are not empty.** -/
theorem regpEmptyIntersection_iff (r : RPRange) :
    regpEmptyIntersection r = true ↔ ∃ x, r.Holds x := by
  have hpos : regpEmptyIntersection r = true ↔ 0 < r.size.toNat := decide_eq_true_iff
  rw [hpos]
  constructor
  · intro hlt
    exact ⟨r.address.toNat, Nat.le_refl _, by omega⟩
  · intro ⟨x, h1, h2⟩
    omega

/-- What denotes the intersection of two ranges is said to be empty where they have addresses in
    common. -/
theorem Denotes.not_empty_law {r a b : RPRange} (hr : Denotes r a b) :
    ¬(regpEmptyIntersection r = true ↔ Apart a b) := by
  have hapart : Apart a b ↔ ¬∃ x, r.Holds x := by
    rw [not_exists]
    exact forall_congr' fun x => not_congr (hr x).symm
  rw [regpEmptyIntersection_iff, hapart]
  exact iff_not_self

section Laws

variable {a b : RPRange} (ha : a.Fits) (hb : b.Fits)

include ha hb

/-- **When the intersection is that of the sets.** -/
theorem regpRangeIntersection_denotes_iff :
    Denotes (regpRangeIntersection a b) a b ↔ ¬Misled a b := by
  have h1 := rangeEnd_cases ha
  have h2 := rangeEnd_cases hb
  have hholds := regpRangeIntersection_holds a b
  unfold Denotes Misled
  simp only [RPRange.Fits, RPRange.Blank, RPRange.Whole] at *
  constructor
  · intro hall hmis
    rcases hmis with ⟨hblank, hpos, hno⟩ | ⟨hblank, hpos, hno⟩ | ⟨hwa, hwb⟩
    · have hx := (hholds b.address.toNat).symm.trans (hall b.address.toNat)
      simp only [RPRange.Holds] at hx
      omega
    · have hx := (hholds a.address.toNat).symm.trans (hall a.address.toNat)
      simp only [RPRange.Holds] at hx
      omega
    · have hx := (hholds 0).symm.trans (hall 0)
      simp only [RPRange.Holds] at hx
      omega
  · intro hno x
    rw [hholds x, max_le_iff, le_min_iff]
    simp only [RPRange.Holds]
    -- the empty range at address 0 has the last address of the whole space
    rcases h1 with ⟨hblank, hend⟩ | ⟨-, hend⟩
    · rcases h2 with ⟨hblank', hend'⟩ | ⟨-, hend'⟩ <;> omega
    · rcases h2 with ⟨hblank', hend'⟩ | ⟨-, hend'⟩ <;> omega

omit hb in
/-- The intersection of a range with itself is the range, unless it is the whole address space. -/
theorem regpRangeIntersection_idem_iff : Denotes (regpRangeIntersection a a) a a ↔ ¬a.Whole := by
  rw [regpRangeIntersection_denotes_iff ha ha]
  unfold Misled RPRange.Blank
  refine not_congr ⟨fun hmis => ?_, fun hw => .inr (.inr ⟨hw, hw⟩)⟩
  rcases hmis with ⟨hblank, hpos, -⟩ | ⟨hblank, hpos, -⟩ | ⟨hw, -⟩
  · omega
  · omega
  · exact hw

/-- **When the test for emptiness is right**: where the intersection is not that of the sets. -/
theorem regpEmptyIntersection_law_iff :
    (regpEmptyIntersection (regpRangeIntersection a b) = true ↔ Apart a b) ↔ Misled a b := by
  constructor
  · intro hlaw
    by_contra hno
    exact ((regpRangeIntersection_denotes_iff ha hb).mpr hno).not_empty_law hlaw
  · intro hmis
    have h1 := rangeEnd_cases ha
    have h2 := rangeEnd_cases hb
    rw [regpEmptyIntersection_iff]
    simp only [regpRangeIntersection_holds]
    unfold Misled at hmis
    simp only [Apart, RPRange.Fits, RPRange.Blank, RPRange.Whole, RPRange.Holds] at *
    rcases hmis with ⟨hblank, hpos, hno⟩ | ⟨hblank, hpos, hno⟩ | ⟨hwa, hwb⟩
    · exact iff_of_true ⟨b.address.toNat, by omega⟩ fun x => by omega
    · exact iff_of_true ⟨a.address.toNat, by omega⟩ fun x => by omega
    · refine iff_of_false (fun ⟨x, hx⟩ => ?_) fun hap => hap 0 ?_ <;> omega

end Laws

/-- **The laws of an intersection** never hold together, neither for ranges nor for frames: where
    the sets are right, the test for emptiness is not. -/
theorem regpIntersection_laws {a b r : RPRange} {f : RPFrame} (ha : a.Fits) (hb : b.Fits)
    (hf : f.range.Fits) (hr : r.Fits) :
    ¬IntersectionLaws a b ∧ ¬FrameIntersectionLaws f r ∧
      (Denotes (regpRangeIntersection a b) a b ↔ ¬Misled a b) ∧
      regpRangeIntersection a b = regpRangeIntersection b a ∧
      (Denotes (regpRangeIntersection a a) a a ↔ ¬a.Whole) ∧
      (Denotes (regpFrameIntersection f r) f.range r ↔ ¬Misled f.range r) :=
  ⟨fun hl => hl.denotes.not_empty_law hl.empty, fun hl => hl.denotes.not_empty_law hl.empty,
    regpRangeIntersection_denotes_iff ha hb, regpRangeIntersection_comm a b,
    regpRangeIntersection_idem_iff ha, regpRangeIntersection_denotes_iff hf hr⟩

/-- The range of eight addresses from 4 on, and that of eight from 8 on. -/
def sampleRanges : RPRange × RPRange := (⟨4, 8⟩, ⟨8, 8⟩)

/-- A frame about these eight addresses from 4 on. -/
def sampleRangeFrame : RPFrame where
  header := { (default : RPHeader) with address := 4, blocksize := 8 }
  payloadSize := 0
  payloadData := 0
  memory := fun _ => 0
  rawSize := 0
  address := 0

theorem regpIntersection_laws_sample :
    ¬IntersectionLaws sampleRanges.1 sampleRanges.2 ∧
      ¬FrameIntersectionLaws sampleRangeFrame sampleRanges.2 ∧
      (Denotes (regpRangeIntersection sampleRanges.1 sampleRanges.2) sampleRanges.1
        sampleRanges.2 ↔ ¬Misled sampleRanges.1 sampleRanges.2) ∧
      regpRangeIntersection sampleRanges.1 sampleRanges.2
        = regpRangeIntersection sampleRanges.2 sampleRanges.1 ∧
      (Denotes (regpRangeIntersection sampleRanges.1 sampleRanges.1) sampleRanges.1
        sampleRanges.1 ↔ ¬sampleRanges.1.Whole) ∧
      (Denotes (regpFrameIntersection sampleRangeFrame sampleRanges.2) sampleRangeFrame.range
        sampleRanges.2 ↔ ¬Misled sampleRangeFrame.range sampleRanges.2) :=
  regpIntersection_laws (by decide) (by decide) (by decide) (by decide)

/-- **Two ranges with four addresses in common** are said to have an empty intersection. -/
theorem regpEmptyIntersection_overlapping :
    ¬∀ a b : RPRange, a.Fits → b.Fits → IntersectionLaws a b := by
  intro hall
  have hlaw := (hall sampleRanges.1 sampleRanges.2 (by decide) (by decide)).empty
  exact hlaw.mp (by decide) 8 ⟨⟨by decide, by decide⟩, by decide, by decide⟩

end Ufw
