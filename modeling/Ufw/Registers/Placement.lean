/-
  File:      Ufw/Registers/Placement.lean
  Subject:   REGISTER TABLE: the placement of areas and entries, in unbounded arithmetic.

  * `Placement` -- areas and entries are sorted and do not overlap, and every entry lies inside the
    area it is linked to;
  * `NothingWraps` -- the tables where no sum of `register_init` that matters exceeds 32 bits;
  * `registerInit_placement_iff` -- **what `register_init` accepts is well placed if and only if
    nothing wraps**: the sums of its checks have 32 bits, but for that of the order of entries.
-/
import Ufw.Registers.BlockWrite

namespace Ufw

open Base

variable {δ : Type} {h : Host}

/-! ## 1. Placement -/

/-- Address `x` is one of entry `i`. -/
def EntryHolds (t : RegisterTable δ) (i x : Nat) : Prop :=
  (t.entry i).address.toNat ≤ x ∧ x < (t.entry i).address.toNat + rdsSize (t.entry i).type

/-- Entry `i` lies inside the area it is linked to, at the offset that is stored for it. -/
structure EntryInside (t : RegisterTable δ) (i : Nat) : Prop where
  linked : ∃ an, an < t.areas ∧ (t.link i).area = some an ∧
    (∀ x, EntryHolds t i x → AreaHolds t an x) ∧
    (t.area an).base.toNat + (t.link i).offset.toNat = (t.entry i).address.toNat ∧
    (t.link i).offset.toNat + rdsSize (t.entry i).type ≤ (t.area an).size.toNat

/-- **A table that is well placed**; all sums are those of natural numbers. -/
structure Placement (t : RegisterTable δ) : Prop where
  areas_sorted : ∀ i j, i < j → j < t.areas → (t.area i).base.toNat ≤ (t.area j).base.toNat
  areas_disjoint : ∀ i j, i < j → j < t.areas → ∀ x, ¬(AreaHolds t i x ∧ AreaHolds t j x)
  entries_sorted : ∀ i j, i < j → j < t.entries →
    (t.entry i).address.toNat < (t.entry j).address.toNat
  entries_disjoint : ∀ i j, i < j → j < t.entries → ∀ x, ¬(EntryHolds t i x ∧ EntryHolds t j x)
  inside : ∀ i, i < t.entries → EntryInside t i

/-- **Nothing wraps**: every area in front of one that is not empty ends below `2 ^ 32`, and so does
    every entry. -/
structure NothingWraps (t : RegisterTable δ) : Prop where
  areas : ∀ i j, i < j → j < regCountAreas t.area → (t.area j).size ≠ 0 →
    (t.area i).base.toNat + (t.area i).size.toNat < 2 ^ 32
  entries : ∀ i, i < regCountEntries t.entry →
    (t.entry i).address.toNat + rdsSize (t.entry i).type < 2 ^ 32

/-! ## 2. Areas -/

namespace Layout

variable {t : RegisterTable δ} (hl : Layout t)

include hl

/-- **Two areas overlap if and only if the first one wraps** and the second one is not empty. -/
theorem areas_disjoint_iff {i j : Nat} (hij : i < j) (hj : j < t.areas) :
    (∀ x, ¬(AreaHolds t i x ∧ AreaHolds t j x)) ↔
      ((t.area j).size ≠ 0 → (t.area i).base.toNat + (t.area i).size.toNat < 2 ^ 32) := by
  have hsorted := hl.areas_sorted hij hj
  constructor
  · intro hdis hne
    by_contra hwrap
    -- the first address of the second area
    have hb := (t.area j).base.isLt
    have hpos : (t.area j).size.toNat ≠ 0 := fun he => hne (BitVec.eq_of_toNat_eq he)
    exact hdis (t.area j).base.toNat ⟨⟨hsorted, by omega⟩, Nat.le_refl _, by omega⟩
  · rintro hends x ⟨⟨-, h2⟩, h3, h4⟩
    have hne : (t.area j).size ≠ 0 := fun he => by
      have hzero : (t.area j).size.toNat = 0 := congrArg BitVec.toNat he
      omega
    have hnext := BitVec.le_def.mp (hl.areas i (by omega)).2
    rw [BitVec.toNat_add, Nat.mod_eq_of_lt (hends hne)] at hnext
    have hle : (t.area (i + 1)).base.toNat ≤ (t.area j).base.toNat := by
      rcases Nat.eq_or_lt_of_le (show i + 1 ≤ j from hij) with rfl | hlt
      · exact Nat.le_refl _
      · exact hl.areas_sorted hlt hj
    omega

/-! ## 3. Entries -/

theorem entries_sorted {i j : Nat} (hij : i < j) (hj : j < t.entries) :
    (t.entry i).address.toNat < (t.entry j).address.toNat := by
  have hpos := rdsSize_pos (hl.typed i (by omega))
  have hle := hl.entriesAscending.stop_le hij hj
  omega

theorem entries_disjoint {i j : Nat} (hij : i < j) (hj : j < t.entries) (x : Nat) :
    ¬(EntryHolds t i x ∧ EntryHolds t j x) := by
  rintro ⟨hi, hjx⟩
  have he := hl.entriesAscending.unique (by omega) hj hi.1 hi.2 hjx.1 hjx.2
  omega

/-- **An entry lies inside its area if and only if it does not wrap.** -/
theorem entryInside_iff {i : Nat} (hi : i < t.entries) :
    EntryInside t i ↔ (t.entry i).address.toNat + rdsSize (t.entry i).type < 2 ^ 32 := by
  obtain ⟨an, hin, hlink⟩ := hl.linked i hi
  have hends := raAddrIsPartOf_ends hin.part
  constructor
  · rintro ⟨bn, -, harea, -, hoff, hsize⟩
    rw [hlink] at harea
    cases harea
    omega
  · intro he
    have hp := hin.place he hlink
    have hoff := hp.offset_eq
    have hstop := hp.stop_le
    exact ⟨an, hp.area_lt, hp.area_eq,
      fun x hx => ⟨Nat.le_trans (by omega) hx.1, Nat.lt_of_lt_of_le hx.2 hstop⟩, hoff, by omega⟩

end Layout

/-! ## 4. `register_init` -/

/-- The areas and the entries of a table are those its user wrote down. -/
theorem Accepts.same {t t' : RegisterTable δ} (ha : Accepts h t t') :
    t'.area = t.area ∧ t'.entry = t.entry ∧ t'.areas = regCountAreas t.area ∧
      t'.entries = regCountEntries t.entry := by
  obtain ⟨rv, u, hl, hs, rfl⟩ := ha.links
  obtain ⟨link, mem, dev, rfl, -⟩ := registerLinkFrom_links hl hs
  rw [registerSpanFrom_eq]
  exact ⟨rfl, rfl, rfl, rfl⟩

/-- **Where `register_init` succeeds**, the table is well placed if and only if nothing wraps. -/
theorem registerInit_placement_iff {t t' : RegisterTable δ} {rv : RegisterInit}
    (hinit : registerInit h t = .ok (rv, t')) (hs : rv.code = .success) :
    Placement t' ↔ NothingWraps t := by
  have hacc := registerInit_accepts hinit hs
  have hl := hacc.layout
  obtain ⟨harea, hentry, hareas, hentries⟩ := hacc.same
  constructor
  · intro hp
    constructor
    · intro i j hij hj hne
      rw [← harea] at hne ⊢
      rw [← hareas] at hj
      exact (hl.areas_disjoint_iff hij hj).mp (hp.areas_disjoint i j hij hj) hne
    · intro i hi
      rw [← hentry]
      rw [← hentries] at hi
      exact (hl.entryInside_iff hi).mp (hp.inside i hi)
  · intro hw
    constructor
    · exact fun i j hij hj => hl.areas_sorted hij hj
    · intro i j hij hj
      refine (hl.areas_disjoint_iff hij hj).mpr fun hne => ?_
      rw [harea] at hne ⊢
      exact hw.areas i j hij (hareas ▸ hj) hne
    · exact fun i j hij hj => hl.entries_sorted hij hj
    · exact fun i j hij hj => hl.entries_disjoint hij hj
    · intro i hi
      refine (hl.entryInside_iff hi).mpr ?_
      rw [hentry]
      exact hw.entries i (hentries ▸ hi)

theorem sampleTable_nothingWraps : NothingWraps sampleTable where
  areas := by
    show ∀ i j, i < j → j < 2 → _
    intro i j hij hj _
    obtain rfl : i = 0 := by omega
    decide
  entries := by
    show ∀ i, i < 2 → _
    decide

theorem registerInit_placement_iff_sample :
    ∃ t', registerInit lp64Host sampleTable = .ok (regInitResultInit, t') ∧ Placement t' :=
  ⟨_, rfl, (registerInit_placement_iff (h := lp64Host) (t := sampleTable) rfl rfl).mpr
    sampleTable_nothingWraps⟩

/-- A register of two atoms at the last address of an area at the top of the address space: its end
    wraps to zero. -/
def wrappedTable : RegisterTable Unit :=
  tableOf [memoryArea 0xfffffff0 0xf] [⟨.uint32, 7, 0xfffffffe, .trivial⟩]

/-- `register_init` accepts it, with the default value of the register written past the area. -/
theorem registerInit_wrapped :
    ∃ t', registerInit lp64Host wrappedTable = .ok (regInitResultInit, t') ∧ ¬Placement t' := by
  refine ⟨_, rfl, fun hp => ?_⟩
  obtain ⟨an, -, harea, -, -, hsize⟩ := (hp.inside 0 Nat.zero_lt_one).linked
  cases harea
  exact absurd hsize (by decide)

end Ufw
