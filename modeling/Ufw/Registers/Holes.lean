/-
  File:      Ufw/Registers/Holes.lean
  Subject:   REGISTER TABLE: the hole that `register_block_touches_hole` reports.

  * `Belongs` -- an address lies in an area, in unbounded arithmetic;
  * `HoleReport` -- what the check should say: success, or the lowest address without an area;
  * `registerBlockTouchesHole_report` -- that is what it says of the areas `ra_addr_is_part_of`
    knows;
  * `registerBlockTouchesHole_iff` -- **it is what it says of all areas, unless it comes to an area
    that ends at 2^32**: the end of such an area is 0 in 32 bits, and no address is part of it.
-/
import Ufw.Registers.Block
import Ufw.Registers.Layout

namespace Ufw

open Base

variable {δ : Type}

/-! ## 1. Parts of a block -/

/-- Address `x` belongs to an area. -/
def Mapped (t : RegisterTable δ) (x : Nat) : Prop :=
  ∃ an, an < t.areas ∧ raAddrIsPartOf (t.area an) (BitVec.ofNat 32 x) = true

theorem raAddrIsPartOf_of_bounds {a : RegisterArea δ} {addr : RegisterAddress}
    (h1 : a.base.toNat ≤ addr.toNat) (h2 : addr.toNat < (a.base + a.size).toNat) :
    raAddrIsPartOf a addr = true := by
  unfold raAddrIsPartOf
  rw [if_neg (show ¬a.base > addr from Nat.not_lt_of_le h1),
    if_neg (show ¬a.base + a.size ≤ addr from Nat.not_le_of_lt h2)]

/-- **The part of a block that lies in an area**: it is not empty, and it ends with the block or
    with the area. -/
theorem areaPart_spec {a : RegisterArea δ} {addr : RegisterAddress} {rest : RegisterOffset}
    (hp : raAddrIsPartOf a addr = true) (hrest : rest ≠ 0) :
    0 < (areaPart a addr rest).toNat ∧ (areaPart a addr rest).toNat ≤ rest.toNat ∧
      addr.toNat + (areaPart a addr rest).toNat ≤ (a.base + a.size).toNat := by
  obtain ⟨-, h2⟩ := raAddrIsPartOf_bounds hp
  have hr : rest.toNat ≠ 0 := fun he => hrest (BitVec.eq_of_toNat_eq he)
  have hsub : (a.base + a.size - addr).toNat = (a.base + a.size).toNat - addr.toNat :=
    BitVec.toNat_sub_of_le (BitVec.le_def.mpr (Nat.le_of_lt h2))
  unfold areaPart regMin
  split <;> rename_i hgt
  · have hgt' : rest.toNat < (a.base + a.size - addr).toNat := hgt
    omega
  · have hle : (a.base + a.size - addr).toNat ≤ rest.toNat := Nat.le_of_not_lt hgt
    omega

/-- The area an address is found in. -/
theorem raFindAreaByAddr_part {t : RegisterTable δ} {addr : RegisterAddress}
    (hne : raFindAreaByAddr t addr ≠ t.areas) :
    raFindAreaByAddr t addr < t.areas ∧
      raAddrIsPartOf (t.area (raFindAreaByAddr t addr)) addr = true := by
  have hle := firstFrom_le (p := fun n => raAddrIsPartOf (t.area n) addr) t.areas 0
  rw [Nat.zero_add] at hle
  have hlt : raFindAreaByAddr t addr < t.areas := lt_of_le_of_ne hle hne
  refine ⟨hlt, firstFrom_holds (p := fun n => raAddrIsPartOf (t.area n) addr) ?_⟩
  rw [Nat.zero_add]
  exact hlt

theorem raFindAreaByAddr_none {t : RegisterTable δ} {addr : RegisterAddress}
    (he : raFindAreaByAddr t addr = t.areas) : ¬Mapped t addr.toNat := by
  intro ⟨an, han, hp⟩
  have hf := firstFrom_before (p := fun n => raAddrIsPartOf (t.area n) addr) (k := t.areas)
    (Nat.zero_le an) (by
      show an < raFindAreaByAddr t addr
      omega)
  rw [BitVec.ofNat_toNat, BitVec.setWidth_eq] at hp
  simp only [hp] at hf
  exact Bool.noConfusion hf

/-- An area that holds the first address of a part holds all of it. -/
theorem mapped_areaPart {t : RegisterTable δ} {an x : Nat} {addr : RegisterAddress}
    {rest : RegisterOffset} (han : an < t.areas) (hp : raAddrIsPartOf (t.area an) addr = true)
    (hrest : rest ≠ 0) (h1 : addr.toNat ≤ x)
    (h2 : x < addr.toNat + (areaPart (t.area an) addr rest).toNat) : Mapped t x := by
  obtain ⟨hb, -⟩ := raAddrIsPartOf_bounds hp
  obtain ⟨-, -, he⟩ := areaPart_spec hp hrest
  have hlt := ((t.area an).base + (t.area an).size).isLt
  have hx : (BitVec.ofNat 32 x).toNat = x := by
    rw [BitVec.toNat_ofNat, Nat.mod_eq_of_lt (by omega)]
  exact ⟨an, han, raAddrIsPartOf_of_bounds (by omega) (by omega)⟩

/-- Past a part of a block. -/
theorem toNat_past {addr : RegisterAddress} {rest used : RegisterOffset} {e : Nat}
    (hle : used.toNat ≤ rest.toNat) (he : addr.toNat + used.toNat ≤ e) (hlt : e < 2 ^ 32) :
    (addr + used).toNat = addr.toNat + used.toNat ∧
      (rest - used).toNat = rest.toNat - used.toNat := by
  refine ⟨?_, BitVec.toNat_sub_of_le (BitVec.le_def.mpr hle)⟩
  rw [BitVec.toNat_add, Nat.mod_eq_of_lt (by omega)]

/-! ## 2. What is reported -/

/-- Address `x` lies in the area `an`. -/
def AreaHolds (t : RegisterTable δ) (an x : Nat) : Prop :=
  (t.area an).base.toNat ≤ x ∧ x < (t.area an).base.toNat + (t.area an).size.toNat

instance (t : RegisterTable δ) (an x : Nat) : Decidable (AreaHolds t an x) :=
  inferInstanceAs (Decidable (_ ∧ _))

/-- Address `x` lies in an area. -/
def Belongs (t : RegisterTable δ) (x : Nat) : Prop := ∃ an, an < t.areas ∧ AreaHolds t an x

/-- Every area lies in the address space; it may end at `2 ^ 32`. -/
def AreasFit (t : RegisterTable δ) : Prop :=
  ∀ i, i < t.areas → (t.area i).base.toNat + (t.area i).size.toNat ≤ 2 ^ 32

/-- **What a check for holes should report**: success where all the addresses of the block are in
    `P`, and else NOENTRY with the lowest one that is not. -/
def HoleReport (P : Nat → Prop) (lo n : Nat) (rv : RegisterAccess) : Prop :=
  (rv.code = .success ∧ ∀ x, lo ≤ x → x < lo + n → P x) ∨
    (rv.code = .noentry ∧ LowestIn lo n (fun x => ¬P x) rv.address.toNat)

theorem holeReport_zero (P : Nat → Prop) (lo : Nat) : HoleReport P lo 0 regAccessResultInit :=
  .inl ⟨rfl, fun _ h1 h2 => absurd h2 (Nat.not_lt_of_le h1)⟩

/-- Past a part of the block that is in `P`. -/
theorem HoleReport.past {P : Nat → Prop} {lo n k : Nat} {rv : RegisterAccess} (hk : k ≤ n)
    (hin : ∀ x, lo ≤ x → x < lo + k → P x) (hr : HoleReport P (lo + k) (n - k) rv) :
    HoleReport P lo n rv := by
  rcases hr with ⟨hc, hall⟩ | ⟨hc, hlow⟩
  · refine .inl ⟨hc, fun x h1 h2 => ?_⟩
    by_cases hx : x < lo + k
    · exact hin x h1 hx
    · exact hall x (by omega) (by omega)
  · exact .inr ⟨hc, (lowestIn_past hk fun y h1 h2 => not_not.mpr (hin y h1 h2)).mp hlow⟩

/-- **A report for a smaller set is one for a larger set** if and only if no address makes a
    difference that is not preceded by a hole of both. -/
theorem HoleReport.iff_of_imp {P Q : Nat → Prop} {lo n : Nat} {rv : RegisterAccess}
    (himp : ∀ x, lo ≤ x → x < lo + n → P x → Q x) (hr : HoleReport P lo n rv) :
    HoleReport Q lo n rv ↔
      ∀ x, lo ≤ x → x < lo + n → Q x → P x ∨ ∃ y, lo ≤ y ∧ y < x ∧ ¬Q y := by
  rcases hr with ⟨hc, hall⟩ | ⟨hc, hlow⟩
  · refine iff_of_true (.inl ⟨hc, fun x h1 h2 => ?_⟩) fun x h1 h2 _ => .inl (hall x h1 h2)
    exact himp x h1 h2 (hall x h1 h2)
  · have hcode : ¬rv.code = .success := by
      rw [hc]
      decide
    have hiff : HoleReport Q lo n rv ↔ ¬Q rv.address.toNat := by
      unfold HoleReport
      rw [or_iff_right fun h => hcode h.1, and_iff_right hc]
      exact lowestIn_iff_of_imp (fun y h1 h2 hy hp => hy (himp y h1 h2 hp)) hlow
    obtain ⟨⟨h1, h2, hnp⟩, hleast⟩ := hlow
    rw [hiff]
    constructor
    · intro hnq x hx1 hx2 hq
      by_cases hp : P x
      · exact .inl hp
      · have hle : rv.address.toNat ≤ x := hleast ⟨hx1, hx2, hp⟩
        refine .inr ⟨rv.address.toNat, h1, lt_of_le_of_ne hle fun he => ?_, hnq⟩
        subst he
        exact hnq hq
    · intro hcond hq
      rcases hcond _ h1 h2 hq with hp | ⟨y, hy1, hy2, hny⟩
      · exact hnp hp
      · have hle : rv.address.toNat ≤ y :=
          hleast ⟨hy1, by omega, fun hp => hny (himp y hy1 (by omega) hp)⟩
        omega

/-! ## 3. The walk -/

theorem registerBlockTouchesHoleFuel_report {t : RegisterTable δ} {fuel : Nat}
    {addr : RegisterAddress} {rest : RegisterOffset} (hfuel : rest.toNat ≤ fuel) :
    ∃ rv, registerBlockTouchesHoleFuel t fuel addr rest = .ok rv ∧
      HoleReport (Mapped t) addr.toNat rest.toNat rv := by
  induction fuel generalizing addr rest with
  | zero =>
    have hr : rest = 0 := BitVec.eq_of_toNat_eq (Nat.le_zero.mp hfuel)
    subst hr
    exact ⟨_, rfl, holeReport_zero _ _⟩
  | succ fuel ih =>
    unfold registerBlockTouchesHoleFuel
    split
    · rename_i hr
      subst hr
      exact ⟨_, rfl, holeReport_zero _ _⟩
    rename_i hr
    have hr0 : rest.toNat ≠ 0 := fun he => hr (BitVec.eq_of_toNat_eq he)
    simp only
    split
    · rename_i hnone
      refine ⟨_, rfl, .inr ⟨rfl, ?_⟩⟩
      exact (lowestIn_first (by omega)).mpr (raFindAreaByAddr_none hnone)
    · -- the part of the block that lies in the area is not empty: the rest is shorter
      rename_i hne
      obtain ⟨han, hp⟩ := raFindAreaByAddr_part hne
      obtain ⟨h0, h1, h2⟩ := areaPart_spec hp hr
      obtain ⟨hadd, hsub⟩ := toNat_past h1 h2 (BitVec.isLt _)
      obtain ⟨rv, hrun, hrep⟩ := @ih (addr + areaPart (t.area (raFindAreaByAddr t addr)) addr rest)
        (rest - areaPart (t.area (raFindAreaByAddr t addr)) addr rest) (by omega)
      rw [hadd, hsub] at hrep
      exact ⟨rv, hrun, hrep.past h1 fun x => mapped_areaPart han hp hr⟩

/-- **The check for holes** ends, and it is right about the areas that `ra_addr_is_part_of`
    knows. -/
theorem registerBlockTouchesHole_report (t : RegisterTable δ) (addr : RegisterAddress)
    (n : RegisterOffset) :
    ∃ rv, registerBlockTouchesHole t addr n = .ok rv ∧
      HoleReport (Mapped t) addr.toNat n.toNat rv :=
  registerBlockTouchesHoleFuel_report (Nat.le_refl _)

/-- No address of the block is a hole, and the block ends below `2 ^ 32`. -/
def NoHole (t : RegisterTable δ) (addr n : Nat) : Prop :=
  addr + n < 2 ^ 32 ∧ ∀ x, addr ≤ x → x < addr + n → Mapped t x

theorem noHole_zero (t : RegisterTable δ) (addr : RegisterAddress) : NoHole t addr.toNat 0 := by
  refine ⟨addr.isLt, fun x h1 h2 => ?_⟩
  omega

/-- No address at the end of the address space is part of an area. -/
theorem not_mapped_last (t : RegisterTable δ) : ¬Mapped t (2 ^ 32 - 1) := by
  intro ⟨an, _, hp⟩
  obtain ⟨-, h2⟩ := raAddrIsPartOf_bounds hp
  have hlt := ((t.area an).base + (t.area an).size).isLt
  rw [BitVec.toNat_ofNat, Nat.mod_eq_of_lt (by omega)] at h2
  omega

/-- A block that is reported to have no hole has none, and it ends in range. -/
theorem HoleReport.noHole {t : RegisterTable δ} {addr : RegisterAddress} {n : RegisterOffset}
    {rv : RegisterAccess} (hr : HoleReport (Mapped t) addr.toNat n.toNat rv)
    (hs : rv.code = .success) : NoHole t addr.toNat n.toNat := by
  rcases hr with ⟨-, hall⟩ | ⟨hc, -⟩
  · refine ⟨Nat.lt_of_not_le fun hle => ?_, hall⟩
    have hlt := addr.isLt
    exact not_mapped_last t (hall _ (by omega) (by omega))
  · rw [hc] at hs
    cases hs

/-- **The check for holes** finds one if and only if there is one. -/
theorem registerBlockTouchesHole_eq (t : RegisterTable δ) (addr : RegisterAddress)
    (n : RegisterOffset) :
    ∃ rv, registerBlockTouchesHole t addr n = .ok rv ∧
      (rv.code = .success ↔ NoHole t addr.toNat n.toNat) := by
  obtain ⟨rv, hrun, hrep⟩ := registerBlockTouchesHole_report t addr n
  refine ⟨rv, hrun, hrep.noHole, fun hno => ?_⟩
  rcases hrep with ⟨hc, -⟩ | ⟨-, ⟨h1, h2, hnp⟩, -⟩
  · exact hc
  · exact absurd (hno.2 _ h1 h2) hnp

/-! ## 4. All areas -/

theorem Layout.mapped_iff {t : RegisterTable δ} (hr : AreasInRange t) {x : Nat}
    (hx : x < 2 ^ 32) :
    Mapped t x ↔ ∃ an, an < t.areas ∧ AreaHolds t an x := by
  unfold Mapped
  refine exists_congr fun an => and_congr_right fun han => ?_
  rw [raAddrIsPartOf_iff (hr an han), BitVec.toNat_ofNat, Nat.mod_eq_of_lt hx]
  rfl

/-- Address `x` lies in an area that ends below `2 ^ 32`. -/
def BelongsBelow (t : RegisterTable δ) (x : Nat) : Prop :=
  ∃ an, an < t.areas ∧ AreaHolds t an x ∧
    (t.area an).base.toNat + (t.area an).size.toNat < 2 ^ 32

/-- **The areas that `ra_addr_is_part_of` knows** are those that end below `2 ^ 32`. -/
theorem mapped_iff_belongsBelow (t : RegisterTable δ) {x : Nat} (hx : x < 2 ^ 32) :
    Mapped t x ↔ BelongsBelow t x := by
  refine exists_congr fun an => and_congr_right fun _ => ?_
  have hx' : (BitVec.ofNat 32 x).toNat = x := by rw [BitVec.toNat_ofNat, Nat.mod_eq_of_lt hx]
  constructor
  · intro hp
    have hends := raAddrIsPartOf_ends hp
    have hin := (raAddrIsPartOf_iff hends _).mp hp
    rw [hx'] at hin
    exact ⟨hin, hends⟩
  · intro ⟨hin, hends⟩
    refine (raAddrIsPartOf_iff hends _).mpr ?_
    rw [hx']
    exact hin

/-- **The range comes to no area that ends at `2 ^ 32`** before it comes to a hole: every address of
    it that lies in an area lies in one that ends below, unless there is a hole in front of it. -/
def StaysBelow (t : RegisterTable δ) (lo n : Nat) : Prop :=
  ∀ x, lo ≤ x → x < lo + n → Belongs t x → BelongsBelow t x ∨ ∃ y, lo ≤ y ∧ y < x ∧ ¬Belongs t y

/-- **`register_block_touches_hole`** is right if and only if the range comes to no area that ends
    at the top of the address space. -/
theorem registerBlockTouchesHole_iff (t : RegisterTable δ) (addr : RegisterAddress)
    (n : RegisterOffset) (hn : addr.toNat + n.toNat ≤ 2 ^ 32) :
    ∃ rv, registerBlockTouchesHole t addr n = .ok rv ∧
      (HoleReport (Belongs t) addr.toNat n.toNat rv ↔ StaysBelow t addr.toNat n.toNat) := by
  obtain ⟨rv, hrun, hrep⟩ := registerBlockTouchesHole_report t addr n
  have hmapped : ∀ x, x < addr.toNat + n.toNat → (Mapped t x ↔ BelongsBelow t x) :=
    fun x hx => mapped_iff_belongsBelow t (by omega)
  refine ⟨rv, hrun, (hrep.iff_of_imp fun x _ h2 hm => ?_).trans ?_⟩
  · obtain ⟨an, han, hin, -⟩ := (hmapped x h2).mp hm
    exact ⟨an, han, hin⟩
  · refine forall_congr' fun x => forall_congr' fun _ => forall_congr' fun h2 => ?_
    rw [hmapped x h2]

/-- An area of two atoms that ends at `2 ^ 32`. -/
def topTable : RegisterTable Unit := tableOf [memoryArea 0xfffffffe 2] []

theorem registerBlockTouchesHole_iff_sample :
    ∃ rv, registerBlockTouchesHole (initialTable lp64Host topTable) 0xfffffffe 1 = .ok rv ∧
      (HoleReport (Belongs (initialTable lp64Host topTable)) 0xfffffffe 1 rv ↔
        StaysBelow (initialTable lp64Host topTable) 0xfffffffe 1) :=
  registerBlockTouchesHole_iff (initialTable lp64Host topTable) 0xfffffffe 1 (by decide)

/-- **The area at the top of the address space**: its addresses are reported as a hole. -/
theorem registerBlockTouchesHole_top :
    ¬∀ (t : RegisterTable Unit) (addr : RegisterAddress) (n : RegisterOffset),
      Initialised lp64Host t → AreasFit t → addr.toNat + n.toNat ≤ 2 ^ 32 →
      ∃ rv, registerBlockTouchesHole t addr n = .ok rv ∧
        HoleReport (Belongs t) addr.toNat n.toNat rv := by
  intro hall
  obtain ⟨rv, hrun, hrep⟩ := hall (initialTable lp64Host topTable) 0xfffffffe 1
    (initialised_initialTable (by decide)) (by unfold AreasFit; decide) (by decide)
  have hrv : registerBlockTouchesHole (initialTable lp64Host topTable) 0xfffffffe 1
      = .ok ⟨.noentry, 0xfffffffe⟩ := by rfl
  obtain rfl := Except.ok.inj (hrun.symm.trans hrv)
  rcases hrep with ⟨hc, -⟩ | ⟨-, ⟨-, -, hno⟩, -⟩
  · cases hc
  · exact hno ⟨0, by decide, by decide⟩

end Ufw
