/-
  File:      Ufw/Base/MemoryMap.lean
  Subject:   MEMORY MAPS. Extents of an address space in ascending order, the search for the extent
             an address lies in, and blocks that are laid over cells with addresses.

  * `firstFrom` -- a linear search;
  * `runStart` -- items in ascending order of their owners: **the items of an owner are a run of
    them**, and the runs are all of the items;
  * `Ascending` -- extents none of which begins before the one in front of it has ended;
    **an address lies in one of them at most** (`Ascending.unique`);
  * `overlay` -- the cells of a map after a block was written to it, with `overlay_append`: **a
    block may be written piece by piece**;
  * `LowestIn` -- the lowest address of a block with some property, for walks that stop there.

  Nothing here names a particular program.
-/
import Mathlib.Algebra.GroupWithZero.Nat
import Mathlib.Data.List.Basic
import Mathlib.Order.Bounds.Basic

namespace Base

/-! ## 1. Linear search -/

/-- The first index from `i` on that `p` holds at, or `i + k` if it holds at none before. -/
def firstFrom (p : Nat → Bool) : Nat → Nat → Nat
  | 0, i => i
  | k + 1, i => if p i then i else firstFrom p k (i + 1)

section Search

variable {p : Nat → Bool}

theorem firstFrom_le (k i : Nat) : firstFrom p k i ≤ i + k := by
  induction k generalizing i with
  | zero => exact Nat.le_refl i
  | succ k ih =>
    unfold firstFrom
    split
    · exact Nat.le_add_right i (k + 1)
    · have h := ih (i + 1)
      omega

theorem le_firstFrom (k i : Nat) : i ≤ firstFrom p k i := by
  induction k generalizing i with
  | zero => exact Nat.le_refl i
  | succ k ih =>
    unfold firstFrom
    split
    · exact Nat.le_refl i
    · have h := ih (i + 1)
      omega

/-- Every index before the one found was looked at in vain. -/
theorem firstFrom_before {k i j : Nat} (h1 : i ≤ j) (h2 : j < firstFrom p k i) : p j = false := by
  induction k generalizing i with
  | zero =>
    unfold firstFrom at h2
    omega
  | succ k ih =>
    unfold firstFrom at h2
    split at h2
    · omega
    · rename_i hp
      rcases Nat.eq_or_lt_of_le h1 with rfl | h1
      · exact Bool.eq_false_iff.mpr hp
      · exact ih h1 h2

/-- What was found is what was searched for. -/
theorem firstFrom_holds {k i : Nat} (h : firstFrom p k i < i + k) : p (firstFrom p k i) = true := by
  induction k generalizing i with
  | zero =>
    unfold firstFrom at h
    omega
  | succ k ih =>
    unfold firstFrom at h ⊢
    split at h <;> rename_i hp
    · rw [if_pos hp]
      exact hp
    · rw [if_neg hp]
      exact ih (by omega)

/-- **The search finds the one index there is.** -/
theorem firstFrom_eq {k i m : Nat} (h1 : i ≤ m) (h2 : m < i + k) (hp : p m = true)
    (hu : ∀ j, i ≤ j → j < m → p j = false) : firstFrom p k i = m := by
  have hle : firstFrom p k i ≤ m := by
    by_contra hn
    have h := firstFrom_before h1 (Nat.lt_of_not_le hn)
    rw [hp] at h
    exact Bool.noConfusion h
  rcases Nat.eq_or_lt_of_le hle with he | hlt
  · exact he
  · have h := firstFrom_holds (p := p) (k := k) (i := i) (by omega)
    rw [hu _ (le_firstFrom k i) hlt] at h
    exact Bool.noConfusion h

/-- What a search has found, it has found at the first place there is. -/
theorem firstFrom_unique {k i m : Nat} (h1 : i ≤ m) (h2 : m ≤ i + k)
    (hu : ∀ j, i ≤ j → j < m → p j = false) (hp : m < i + k → p m = true) :
    firstFrom p k i = m := by
  rcases Nat.eq_or_lt_of_le h2 with rfl | hlt
  · refine Nat.le_antisymm (firstFrom_le k i) (Nat.le_of_not_lt fun hn => ?_)
    have h := firstFrom_holds hn
    rw [hu _ (le_firstFrom k i) hn] at h
    exact Bool.noConfusion h
  · exact firstFrom_eq h1 hlt (hp hlt) hu

end Search

/-! ## 2. Runs -/

section Runs

variable (owner : Nat → Nat) (n : Nat)

/-- The first of `n` items that belongs to the owner `i` or to one behind it. -/
def runStart (i : Nat) : Nat := firstFrom (fun j => decide (i ≤ owner j)) n 0

theorem runStart_le (i : Nat) : runStart owner n i ≤ n := by
  have h := firstFrom_le (p := fun j => decide (i ≤ owner j)) n 0
  rwa [Nat.zero_add] at h

@[simp] theorem runStart_zero : runStart owner n 0 = 0 :=
  firstFrom_unique (Nat.le_refl 0) (Nat.zero_le _) (fun _ _ hj => absurd hj (Nat.not_lt_zero _))
    fun _ => decide_eq_true (Nat.zero_le _)

variable {owner n}

/-- No item belongs to the owner `k` or to one behind it. -/
theorem runStart_end {k : Nat} (h : ∀ j, j < n → owner j < k) : runStart owner n k = n :=
  firstFrom_unique (Nat.zero_le n) (by omega)
    (fun j _ hj => decide_eq_false (Nat.not_le_of_lt (h j hj))) (by omega)

variable (hmono : ∀ i j, i ≤ j → j < n → owner i ≤ owner j)

include hmono

theorem runStart_le_iff {i j : Nat} (hj : j < n) : runStart owner n i ≤ j ↔ i ≤ owner j := by
  constructor
  · intro hle
    have hs : runStart owner n i < 0 + n := by omega
    have hh := of_decide_eq_true (firstFrom_holds hs)
    exact Nat.le_trans hh (hmono _ _ hle hj)
  · intro hle
    refine Nat.le_of_not_lt fun hlt => ?_
    exact of_decide_eq_false (firstFrom_before (Nat.zero_le j) hlt) hle

/-- **The items of an owner are a run.** -/
theorem mem_run {i j : Nat} (hj : j < n) :
    owner j = i ↔ runStart owner n i ≤ j ∧ j < runStart owner n (i + 1) := by
  have h1 := runStart_le_iff hmono (i := i) hj
  have h2 := runStart_le_iff hmono (i := i + 1) hj
  omega

theorem runStart_mono {i k : Nat} (hik : i ≤ k) : runStart owner n i ≤ runStart owner n k := by
  by_cases hlt : runStart owner n k < n
  · refine (runStart_le_iff hmono hlt).mpr (Nat.le_trans hik ?_)
    exact (runStart_le_iff hmono hlt).mp (Nat.le_refl _)
  · exact Nat.le_trans (runStart_le owner n i) (Nat.le_of_not_lt hlt)

/-- **The runs are all of the items.** -/
theorem sum_runs (k : Nat) :
    ((List.range k).map fun i => runStart owner n (i + 1) - runStart owner n i).sum
      = runStart owner n k := by
  induction k with
  | zero => rw [List.range_zero, List.map_nil, List.sum_nil, runStart_zero]
  | succ k ih =>
    have h := runStart_mono hmono (Nat.le_succ k)
    rw [List.range_succ, List.map_append, List.sum_append, ih, List.map_singleton,
      List.sum_singleton]
    exact Nat.add_sub_of_le h

end Runs

/-! ## 3. Extents -/

/-- Extent `i` is `start i ≤ x < stop i`; the `n` extents follow each other. -/
structure Ascending (start stop : Nat → Nat) (n : Nat) : Prop where
  le : ∀ i, i < n → start i ≤ stop i
  next : ∀ i, i + 1 < n → stop i ≤ start (i + 1)

namespace Ascending

variable {start stop : Nat → Nat} {n : Nat} (h : Ascending start stop n)

include h

/-- An extent ends before any later one begins. -/
theorem stop_le {i j : Nat} (hij : i < j) (hj : j < n) : stop i ≤ start j := by
  induction j with
  | zero => omega
  | succ j ih =>
    have hn := h.next j hj
    rcases Nat.eq_or_lt_of_le (Nat.le_of_lt_succ hij) with rfl | hlt
    · exact hn
    · have h1 := ih hlt (by omega)
      have h2 := h.le j (by omega)
      omega

/-- **An address lies in one extent at most.** -/
theorem unique {i j x : Nat} (hi : i < n) (hj : j < n) (h1 : start i ≤ x) (h2 : x < stop i)
    (h3 : start j ≤ x) (h4 : x < stop j) : i = j := by
  rcases Nat.lt_trichotomy i j with hlt | he | hlt
  · have hs := h.stop_le hlt hj
    omega
  · exact he
  · have hs := h.stop_le hlt hi
    omega

end Ascending

/-! ## 4. Blocks laid over cells -/

section Overlay

variable {ι α : Type} (address : ι → Option Nat)

/-- The cells after the `n` values of `src` were written from the address `lo` on. A cell may have
    no address: it is not in the map. -/
def overlay (m : ι → α) (lo n : Nat) (src : Nat → α) : ι → α := fun i =>
  match address i with
  | none => m i
  | some x => if lo ≤ x ∧ x < lo + n then src (x - lo) else m i

variable {address} {m : ι → α} {lo n : Nat} {src : Nat → α} {i : ι} {x : Nat}

theorem overlay_inside (ha : address i = some x) (h1 : lo ≤ x) (h2 : x < lo + n) :
    overlay address m lo n src i = src (x - lo) := by
  unfold overlay
  rw [ha]
  exact if_pos ⟨h1, h2⟩

theorem overlay_outside (ha : address i = some x) (h : x < lo ∨ lo + n ≤ x) :
    overlay address m lo n src i = m i := by
  unfold overlay
  rw [ha]
  exact if_neg (by omega)

theorem overlay_unmapped (ha : address i = none) : overlay address m lo n src i = m i := by
  unfold overlay
  rw [ha]

@[simp] theorem overlay_zero : overlay address m lo 0 src = m := by
  funext i
  cases ha : address i with
  | none => exact overlay_unmapped ha
  | some x => exact overlay_outside ha (by omega)

/-- Only the values of the block matter. -/
theorem overlay_congr {src' : Nat → α} (h : ∀ j, j < n → src j = src' j) :
    overlay address m lo n src = overlay address m lo n src' := by
  funext i
  cases ha : address i with
  | none => rw [overlay_unmapped ha, overlay_unmapped ha]
  | some x =>
    by_cases hx : lo ≤ x ∧ x < lo + n
    · rw [overlay_inside ha hx.1 hx.2, overlay_inside ha hx.1 hx.2, h _ (by omega)]
    · rw [overlay_outside ha (by omega), overlay_outside ha (by omega)]

/-- **A block may be written piece by piece.** -/
theorem overlay_append (k : Nat) :
    overlay address (overlay address m lo n src) (lo + n) k (fun j => src (n + j))
      = overlay address m lo (n + k) src := by
  funext i
  cases ha : address i with
  | none => rw [overlay_unmapped ha, overlay_unmapped ha, overlay_unmapped ha]
  | some x =>
    by_cases h2 : lo + n ≤ x ∧ x < lo + n + k
    · rw [overlay_inside ha h2.1 h2.2, overlay_inside ha (by omega) (by omega)]
      exact congrArg src (by omega)
    · rw [overlay_outside ha (by omega)]
      by_cases h1 : lo ≤ x ∧ x < lo + n
      · rw [overlay_inside ha h1.1 h1.2, overlay_inside ha h1.1 (by omega)]
      · rw [overlay_outside ha (by omega), overlay_outside ha (by omega)]

end Overlay

/-! ## 5. The lowest address -/

/-- `x` is the lowest of the `n` addresses from `lo` on that `P` holds at. -/
def LowestIn (lo n : Nat) (P : Nat → Prop) (x : Nat) : Prop :=
  IsLeast {y | lo ≤ y ∧ y < lo + n ∧ P y} x

section Lowest

variable {lo n x : Nat} {P Q : Nat → Prop}

theorem lowestIn_first (hn : 0 < n) : LowestIn lo n P lo ↔ P lo :=
  ⟨fun h => h.1.2.2, fun hp => ⟨⟨Nat.le_refl lo, by omega, hp⟩, fun _ hy => hy.1⟩⟩

/-- A walk goes on past addresses that `P` does not hold at. -/
theorem lowestIn_past {k : Nat} (hk : k ≤ n) (hno : ∀ y, lo ≤ y → y < lo + k → ¬P y) :
    LowestIn (lo + k) (n - k) P x ↔ LowestIn lo n P x := by
  have hset : {y | lo + k ≤ y ∧ y < lo + k + (n - k) ∧ P y} = {y | lo ≤ y ∧ y < lo + n ∧ P y} := by
    ext y
    constructor
    · intro ⟨h1, h2, hp⟩
      exact ⟨by omega, by omega, hp⟩
    · intro ⟨h1, h2, hp⟩
      refine ⟨Nat.le_of_not_lt fun hlt => hno y h1 hlt hp, by omega, hp⟩
  unfold LowestIn
  rw [hset]

/-- The lowest address of the weaker property, if the stronger one holds there, too. -/
theorem lowestIn_iff_of_imp (himp : ∀ y, lo ≤ y → y < lo + n → P y → Q y)
    (hq : LowestIn lo n Q x) : LowestIn lo n P x ↔ P x := by
  obtain ⟨⟨h1, h2, -⟩, hleast⟩ := hq
  exact ⟨fun h => h.1.2.2,
    fun hp => ⟨⟨h1, h2, hp⟩, fun y ⟨hy1, hy2, hpy⟩ => hleast ⟨hy1, hy2, himp y hy1 hy2 hpy⟩⟩⟩

end Lowest

end Base
