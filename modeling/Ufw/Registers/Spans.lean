/-
  File:      Ufw/Registers/Spans.lean
  Subject:   REGISTER TABLE: the entries of an area.

  * `Layout.ownerOf` -- the area of an entry; areas follow each other, and so do their entries;
  * `registerSpanFrom_span` -- the pass over the areas finds the run of entries of each;
  * `Accepts.spans` -- **what the areas are linked to**, in the 32-bit arithmetic of the source;
  * `registerInit_spans` -- the same where no area wraps: the handles of an area are those of the
    entries in it, and every entry is counted once.
-/
import Ufw.Registers.Layout

namespace Ufw

open Base

variable {δ : Type} {h : Host}

/-! ## 1. The area of an entry -/

/-- Areas follow each other even if some of them wrap; such an area holds no address. -/
theorem Layout.partsAscending {t : RegisterTable δ} (hl : Layout t) :
    Ascending (fun i => (t.area i).base.toNat)
      (fun i => max (t.area i).base.toNat ((t.area i).base + (t.area i).size).toNat) t.areas where
  le := fun _ _ => Nat.le_max_left _ _
  next := fun i hi => by
    obtain ⟨h1, h2⟩ := hl.areas i hi
    exact Nat.max_le.mpr ⟨BitVec.le_def.mp h1, BitVec.le_def.mp h2⟩

/-- **An address is part of one area at most.** -/
theorem Layout.part_unique {t : RegisterTable δ} (hl : Layout t) {i j : Nat} (hi : i < t.areas)
    (hj : j < t.areas) {addr : RegisterAddress} (h1 : raAddrIsPartOf (t.area i) addr = true)
    (h2 : raAddrIsPartOf (t.area j) addr = true) : i = j := by
  obtain ⟨hi1, hi2⟩ := raAddrIsPartOf_bounds h1
  obtain ⟨hj1, hj2⟩ := raAddrIsPartOf_bounds h2
  exact hl.partsAscending.unique hi hj hi1 (Nat.lt_of_lt_of_le hi2 (Nat.le_max_right _ _)) hj1
    (Nat.lt_of_lt_of_le hj2 (Nat.le_max_right _ _))

/-- The entries are in the order of their addresses. -/
theorem Layout.address_le {t : RegisterTable δ} (hl : Layout t) {i j : Nat} (hij : i ≤ j)
    (hj : j < t.entries) : (t.entry i).address.toNat ≤ (t.entry j).address.toNat := by
  rcases Nat.eq_or_lt_of_le hij with rfl | hlt
  · exact Nat.le_refl _
  · have hs := hl.entriesAscending.stop_le hlt hj
    exact Nat.le_trans (Nat.le_add_right _ _) hs

/-- The area an entry is linked to. -/
def ownerOf (t : RegisterTable δ) (i : Nat) : Nat := (t.link i).area.getD 0

namespace Layout

variable {t : RegisterTable δ} (hl : Layout t)

include hl

theorem ownerOf_inArea {i : Nat} (hi : i < t.entries) : InArea t i (ownerOf t i) := by
  obtain ⟨an, hin, hlink⟩ := hl.linked i hi
  unfold ownerOf
  rw [hlink]
  exact hin

theorem part_iff_ownerOf {i an : Nat} (hi : i < t.entries) (han : an < t.areas) :
    raAddrIsPartOf (t.area an) (t.entry i).address = true ↔ ownerOf t i = an := by
  have hin := hl.ownerOf_inArea hi
  constructor
  · exact fun hp => hl.part_unique hin.area_lt han hin.part hp
  · rintro rfl
    exact hin.part

/-- **Later entries lie in later areas**, or in the same one. -/
theorem ownerOf_mono (i j : Nat) (hij : i ≤ j) (hj : j < t.entries) :
    ownerOf t i ≤ ownerOf t j := by
  have hi := hl.ownerOf_inArea (Nat.lt_of_le_of_lt hij hj)
  have hj' := hl.ownerOf_inArea hj
  refine Nat.le_of_not_lt fun hlt => ?_
  have hstop := hl.partsAscending.stop_le hlt hi.area_lt
  obtain ⟨h1, -⟩ := raAddrIsPartOf_bounds hi.part
  obtain ⟨-, h2⟩ := raAddrIsPartOf_bounds hj'.part
  have h3 := Nat.lt_of_lt_of_le h2 (Nat.le_max_right (t.area (ownerOf t j)).base.toNat _)
  have h4 := hl.address_le hij hj
  omega

end Layout

/-! ## 2. The pass over the areas -/

/-- The span of the entries `first` to `next - 1`, which may be none. -/
def spanOf (first next : Nat) : RegisterSpan :=
  if first < next then ⟨first, next - 1, next - first⟩ else ⟨0, 0, 0⟩

theorem spanOf_count (first next : Nat) : (spanOf first next).count = next - first := by
  unfold spanOf
  split
  · rfl
  · rename_i hge
    exact (Nat.sub_eq_zero_of_le (Nat.le_of_not_lt hge)).symm

section Pass

variable {owner : Nat → Nat} {t : RegisterTable δ}
  (hmono : ∀ i j, i ≤ j → j < t.entries → owner i ≤ owner j)
  (hpart : ∀ i an, i < t.entries → an < t.areas →
    (raAddrIsPartOf (t.area an) (t.entry i).address = true ↔ owner i = an))

include hmono hpart

/-- The first entry behind those of an area. -/
theorem raFirstEntryOfNext_eq {an : Nat} (han : an < t.areas)
    (hlt : runStart owner t.entries an < runStart owner t.entries (an + 1)) :
    raFirstEntryOfNext t (t.area an) (runStart owner t.entries an + 1)
      = runStart owner t.entries (an + 1) := by
  have hle := runStart_le owner t.entries (an + 1)
  unfold raFirstEntryOfNext
  refine firstFrom_unique hlt (by omega) (fun j h1 h2 => ?_) fun hend => ?_
  · rw [(hpart j an (by omega) han).mpr ((mem_run hmono (by omega)).mpr ⟨by omega, h2⟩)]
    rfl
  · rw [Bool.not_eq_true', Bool.eq_false_iff]
    intro hp
    have he := (hpart _ an (by omega) han).mp hp
    exact Nat.lt_irrefl _ ((mem_run hmono (by omega)).mp he).2

/-- One step: area `i` gets the run of its entries, and the next one starts behind it. -/
theorem registerSpanFrom_step (k : Nat) {i : Nat} (hi : i < t.areas) (span : Mem RegisterSpan) :
    registerSpanFrom (k + 1) i (runStart owner t.entries i) { t with span := span }
      = registerSpanFrom k (i + 1) (runStart owner t.entries (i + 1))
        { t with
          span := Function.update span i
            (spanOf (runStart owner t.entries i) (runStart owner t.entries (i + 1))) } := by
  have hle := runStart_mono hmono (Nat.le_add_right i 1)
  have hn := runStart_le owner t.entries (i + 1)
  conv => lhs; unfold registerSpanFrom
  unfold spanOf
  by_cases hlt : runStart owner t.entries i < runStart owner t.entries (i + 1)
  · have hin : runStart owner t.entries i < t.entries := by omega
    have hp := (hpart _ i hin hi).mpr ((mem_run hmono hin).mpr ⟨Nat.le_refl _, hlt⟩)
    have hnext : raFirstEntryOfNext { t with span := span } (t.area i) _ = _ :=
      raFirstEntryOfNext_eq hmono hpart hi hlt
    simp only [hp, hin, decide_true, Bool.and_self, if_true, hnext]
    rw [if_pos hlt]
  · have hcond : (decide (runStart owner t.entries i < t.entries) &&
        raAddrIsPartOf (t.area i) (t.entry (runStart owner t.entries i)).address) = false := by
      refine Bool.eq_false_iff.mpr fun hc => hlt ?_
      obtain ⟨hin, hp⟩ := Bool.and_eq_true_iff.mp hc
      have hin' := of_decide_eq_true hin
      exact ((mem_run hmono hin').mp ((hpart _ i hin' hi).mp hp)).2
    have heq : runStart owner t.entries i = runStart owner t.entries (i + 1) := by omega
    simp only [hcond, Bool.false_eq_true, if_false]
    rw [if_neg hlt, heq]

/-- **Every area gets the run of its entries.** -/
theorem registerSpanFrom_span (k i : Nat) (span : Mem RegisterSpan) (hk : i + k = t.areas) :
    (registerSpanFrom k i (runStart owner t.entries i) { t with span := span }).span
      = fun an => if i ≤ an ∧ an < t.areas then
          spanOf (runStart owner t.entries an) (runStart owner t.entries (an + 1))
        else span an := by
  induction k generalizing i span with
  | zero =>
    funext an
    rw [if_neg (by omega)]
    rfl
  | succ k ih =>
    have hi : i < t.areas := by omega
    rw [registerSpanFrom_step hmono hpart k hi, ih (i + 1) _ (by omega)]
    funext an
    by_cases he : an = i
    · subst he
      rw [if_neg (by omega), if_pos ⟨Nat.le_refl _, hi⟩, Function.update_self]
    · rw [Function.update_of_ne he]
      by_cases h1 : i ≤ an ∧ an < t.areas
      · rw [if_pos (by omega), if_pos h1]
      · rw [if_neg (by omega), if_neg h1]

end Pass

/-! ## 3. What the areas are linked to -/

/-- **The links of areas to entries**, in the arithmetic of the source. -/
structure Spans (t : RegisterTable δ) : Prop where
  run : ∀ an, an < t.areas → ∃ first next, t.span an = spanOf first next ∧
    ∀ i, first ≤ i ∧ i < next ↔
      i < t.entries ∧ raAddrIsPartOf (t.area an) (t.entry i).address = true
  total : ((List.range t.areas).map fun an => (t.span an).count).sum = t.entries

theorem Accepts.spans {t t' : RegisterTable δ} (ha : Accepts h t t') : Spans t' := by
  have hl := ha.layout
  obtain ⟨rv, u, -, -, rfl⟩ := ha.links
  -- the pass over the areas leaves everything but the spans alone
  have hkeep : endInit (registerSpanFrom u.areas 0 0 u)
      = endInit { u with span := (registerSpanFrom u.areas 0 0 u).span } :=
    congrArg endInit (registerSpanFrom_eq _ _ _ u)
  rw [hkeep] at hl ⊢
  have hmono : ∀ i j, i ≤ j → j < u.entries → ownerOf u i ≤ ownerOf u j := hl.ownerOf_mono
  have hpart : ∀ i an, i < u.entries → an < u.areas →
      (raAddrIsPartOf (u.area an) (u.entry i).address = true ↔ ownerOf u i = an) :=
    fun i an hi han => hl.part_iff_ownerOf hi han
  have hspan := registerSpanFrom_span hmono hpart u.areas 0 u.span (Nat.zero_add _)
  rw [runStart_zero] at hspan
  have hat : ∀ an, an < u.areas → (registerSpanFrom u.areas 0 0 u).span an
      = spanOf (runStart (ownerOf u) u.entries an) (runStart (ownerOf u) u.entries (an + 1)) :=
    fun an han => (congrFun hspan an).trans (if_pos ⟨Nat.zero_le _, han⟩)
  constructor
  · intro an han
    refine ⟨_, _, hat an han, fun i => ?_⟩
    constructor
    · intro ⟨h1, h2⟩
      have hi := Nat.lt_of_lt_of_le h2 (runStart_le (ownerOf u) u.entries (an + 1))
      exact ⟨hi, (hpart i an hi han).mpr ((mem_run hmono hi).mpr ⟨h1, h2⟩)⟩
    · intro ⟨hi, hp⟩
      exact (mem_run hmono hi).mp ((hpart i an hi han).mp hp)
  · have hsum : ((List.range u.areas).map fun an =>
        ((registerSpanFrom u.areas 0 0 u).span an).count).sum
        = ((List.range u.areas).map fun an => runStart (ownerOf u) u.entries (an + 1)
          - runStart (ownerOf u) u.entries an).sum := by
      refine congrArg List.sum (List.map_congr_left fun an han => ?_)
      rw [hat an (List.mem_range.mp han), spanOf_count]
    have hend : runStart (ownerOf u) u.entries u.areas = u.entries :=
      runStart_end fun j hj => (hl.ownerOf_inArea (i := j) hj).area_lt
    exact (hsum.trans (sum_runs hmono u.areas)).trans hend

/-- The links do not depend on what a table holds. -/
theorem Initialised.spans {t : RegisterTable δ} (hi : Initialised h t) : Spans t := by
  obtain ⟨t₀, rv, t₁, bigendian, hinit, hs, he⟩ := hi
  have hsp := (registerInit_accepts hinit hs).spans
  have hkeep : t.areas = t₁.areas ∧ t.area = t₁.area ∧ t.entries = t₁.entries ∧
      t.entry = t₁.entry ∧ t.span = t₁.span := by
    rw [he]
    unfold registerMakeBigendian
    split <;> exact ⟨rfl, rfl, rfl, rfl, rfl⟩
  obtain ⟨h1, h2, h3, h4, h5⟩ := hkeep
  constructor
  · rw [h1, h2, h3, h4, h5]
    exact hsp.run
  · rw [h1, h3, h5]
    exact hsp.total

/-! ## 4. Where no area wraps -/

/-- **The links say what lies where.** -/
structure SpansExact (t : RegisterTable δ) : Prop where
  populated : ∀ an, an < t.areas → 0 < (t.span an).count →
    (t.span an).first ≤ (t.span an).last ∧
      (t.span an).count = (t.span an).last - (t.span an).first + 1 ∧
      ∀ i, (t.span an).first ≤ i ∧ i ≤ (t.span an).last ↔
        i < t.entries ∧ (t.area an).base.toNat ≤ (t.entry i).address.toNat ∧
          (t.entry i).address.toNat < (t.area an).base.toNat + (t.area an).size.toNat
  empty : ∀ an, an < t.areas → (t.span an).count = 0 → ∀ i, i < t.entries →
    ¬((t.area an).base.toNat ≤ (t.entry i).address.toNat ∧
      (t.entry i).address.toNat < (t.area an).base.toNat + (t.area an).size.toNat)
  total : ((List.range t.areas).map fun an => (t.span an).count).sum = t.entries

theorem Spans.exact {t : RegisterTable δ} (hsp : Spans t) (hr : AreasInRange t) :
    SpansExact t where
  populated := by
    intro an han hcount
    obtain ⟨first, next, hspan, hrun⟩ := hsp.run an han
    rw [hspan, spanOf_count] at hcount
    have hlt : first < next := by omega
    have he : t.span an = ⟨first, next - 1, next - first⟩ := hspan.trans (if_pos hlt)
    rw [he]
    refine ⟨by show first ≤ next - 1; omega, by show next - first = next - 1 - first + 1; omega,
      fun i => ?_⟩
    show first ≤ i ∧ i ≤ next - 1 ↔ _
    rw [← raAddrIsPartOf_iff (hr an han), ← hrun i]
    omega
  empty := by
    intro an han hcount i hi hin
    obtain ⟨first, next, hspan, hrun⟩ := hsp.run an han
    rw [hspan, spanOf_count] at hcount
    have hp := (hrun i).mpr ⟨hi, (raAddrIsPartOf_iff (hr an han) _).mpr hin⟩
    omega
  total := hsp.total

/-- **What `register_init` links areas to**, in every table it accepts whose areas do not wrap. -/
theorem registerInit_spans {t t' : RegisterTable δ} {rv : RegisterInit}
    (hinit : registerInit h t = .ok (rv, t')) (hs : rv.code = .success) (hr : AreasInRange t') :
    SpansExact t' :=
  (registerInit_accepts hinit hs).spans.exact hr

/-- A table whose first and third area are empty, the third one of no size. -/
def sparseTable : RegisterTable Unit :=
  tableOf [memoryArea 0 2, memoryArea 4 4, memoryArea 8 0, memoryArea 8 2]
    [⟨.uint16, 7, 5, .trivial⟩, ⟨.uint16, 0, 7, .trivial⟩, ⟨.uint32, 1, 8, .trivial⟩]

theorem registerInit_spans_sample :
    (initialTable lp64Host sparseTable).span 1 = ⟨0, 1, 2⟩ ∧
      SpansExact (initialTable lp64Host sparseTable) :=
  ⟨rfl, registerInit_spans (t := sparseTable) (h := lp64Host) rfl rfl
    (by unfold AreasInRange; decide)⟩

end Ufw
