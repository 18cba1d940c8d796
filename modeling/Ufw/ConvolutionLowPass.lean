/-
  File:      Ufw/ConvolutionLowPass.lean
  Subject:   CONVOLUTION LOW PASS FILTERS (convolution-low-pass.h), for an integer type.

  * `ConvLowPass` -- a window in memory, filled in turn, with the average of what stands in it;
  * `recent` -- what a filter is for: the last values, as many as the window has cells;
  * `window` -- the same values in the order in which they stand in the window;
  * `ConvLowPass.Shows` -- the invariant: the filter has been given these values;
  * `clpUpdate_eq`, `clpUpdates_shows`, `clpUpdates_exists_iff` -- one update, and a run of them;
  * `clpAnswers_of_len_le` -- a window whose length is a value of the element type;
  * `convLowPass_right_iff` -- **average, median and count are right** just where the divisor
    survives its conversion to the element type.

  The window and the memory for the median are two parts of one memory, counted in elements.
-/
import Ufw.Base.IntTypes
import Ufw.Base.Memory
import Mathlib.Algebra.Order.BigOperators.Group.List
import Mathlib.Algebra.Ring.Int.Defs
import Mathlib.Data.List.Sort
import Mathlib.Data.List.Rotate

namespace Ufw

open Base

/-! ## 1. The code -/

/-- `CONV_LOW_PASS_TYPE__` -/
structure ConvLowPass where
  win : Nat
  len : Nat
  avg : Int
  first : Bool
  cur : Nat
  deriving DecidableEq, Repr

/-- Addition in `unsigned int`. -/
def uintAdd (a b : Nat) : Nat := (a + b) % 2 ^ 32

/-- `NAME_init` -/
def clpInit (m : Mem Int) (buffer len : Nat) : ConvLowPass × Mem Int :=
  ({ win := buffer, len := len, avg := 0, first := true, cur := 0 }, m.fill buffer 0 len)

/-- `NAME_avg` -/
def clpAvg (w : ConvLowPass) : Int := w.avg

/-- `NAME_has_min_values` -/
def clpHasMinValues (w : ConvLowPass) (c : Nat) : Bool :=
  if w.len < c then false
  else if w.first then decide (c ≤ w.cur)
  else true

section Typed

variable (T : IntType)

/-- The loop of `NAME_update`: `sum`, after `n` cells. -/
def clpSum (m : Mem Int) (win : Nat) : Nat → Exec Int
  | 0 => .ok 0
  | n + 1 => do
    let sum ← clpSum m win n
    let sum ← T.plus sum (m (win + n))
    .ok (T.conv sum)

/-- `NAME_update` -/
def clpUpdate (w : ConvLowPass) (m : Mem Int) (value : Int) : Exec (ConvLowPass × Mem Int) := do
  let div := if w.first then uintAdd w.cur 1 else w.len
  let m := m.store (w.win + w.cur) [value]
  let w := { w with cur := uintAdd w.cur 1 }
  let w := if w.len ≤ w.cur then { w with first := false } else w
  -- the remainder by 0 is undefined
  require (w.len ≠ 0)
  let w := { w with cur := w.cur % w.len }
  let sum ← clpSum T m w.win div
  let avg ← T.quotient sum (T.conv (if div = 0 then 1 else div : Nat))
  .ok ({ w with avg := T.conv avg }, m)

/-- Updates, one after the other. -/
def clpUpdates : ConvLowPass → Mem Int → List Int → Exec (ConvLowPass × Mem Int)
  | w, m, [] => .ok (w, m)
  | w, m, v :: vs => do
    let (w, m) ← clpUpdate T w m v
    clpUpdates w m vs

/-- `qsort`, called with `NAME_compare`. -/
def clpSort (l : List Int) : List Int := l.insertionSort (· ≤ ·)

/-- `NAME_median`; `tmp` is where the window is sorted. -/
def clpMedian (w : ConvLowPass) (m : Mem Int) (tmp : Nat) : Exec (Int × Mem Int) :=
  let inUse := if w.first then w.cur else w.len
  if inUse = 0 then .ok (0, m)
  else
    let m := m.copy tmp (m.shift w.win) inUse
    let m := m.store tmp (clpSort (m.slice tmp inUse))
    if inUse % 2 = 1 then .ok (m (tmp + inUse / 2), m)
    else do
      let sum ← T.plus (m (tmp + inUse / 2)) (m (tmp + (inUse / 2 - 1)))
      let mean ← T.quotient sum 2
      .ok (T.conv mean, m)

end Typed

/-! ## 2. What it is for -/

/-- **The last values**, the oldest one first. -/
def recent (len : Nat) (vs : List Int) : List Int := vs.drop (vs.length - len)

/-- The same values as they stand in the window: the oldest one is where the next one will be. -/
def window (len : Nat) (vs : List Int) : List Int :=
  (recent len vs).rotate ((recent len vs).length - vs.length % len)

/-- The two elements in the middle of a list of even length, added. -/
def middleSum (l : List Int) : Int := l.getD (l.length / 2) 0 + l.getD (l.length / 2 - 1) 0

/-- The middle of a sorted list, 0 if it is empty. -/
def middle (l : List Int) : Int :=
  if l.length % 2 = 1 then l.getD (l.length / 2) 0 else (middleSum l).tdiv 2

/-- **The median.** -/
def median (l : List Int) : Int := middle (clpSort l)

/-- **No sum overflows**: not those of the updates on their way through the window, and not the
    one of the two elements in the middle. -/
structure SumsFit (T : IntType) (len : Nat) (vs : List Int) : Prop where
  window : ∀ us, us <+: vs → ∀ i, T.InRange ((window len us).take i).sum
  middle : (recent len vs).length % 2 = 0 → T.promoted.InRange (middleSum (clpSort (recent len vs)))

section Recent

variable {len : Nat} {vs : List Int}

@[simp] theorem length_recent : (recent len vs).length = min vs.length len := by
  rw [recent, List.length_drop]
  omega

@[simp] theorem length_window : (window len vs).length = min vs.length len := by
  rw [window, List.length_rotate, length_recent]

theorem window_perm : (window len vs).Perm (recent len vs) := List.rotate_perm ..

theorem sum_window : (window len vs).sum = (recent len vs).sum := window_perm.sum_eq

@[simp] theorem length_clpSort (l : List Int) : (clpSort l).length = l.length :=
  List.length_insertionSort ..

theorem clpSort_perm (l : List Int) : (clpSort l).Perm l := List.perm_insertionSort ..

/-- What is sorted does not depend on the order before. -/
theorem clpSort_eq_of_perm {l l' : List Int} (h : l.Perm l') : clpSort l = clpSort l' :=
  ((clpSort_perm l).trans (h.trans (clpSort_perm l').symm)).eq_of_pairwise
    (fun _ _ _ _ hab hba => le_antisymm hab hba)
    (List.pairwise_insertionSort ..) (List.pairwise_insertionSort ..)

/-- In a ring of `len` cells, the one with the index `i` is the place of one of the last values. -/
theorem slot_mod {k i : Nat} (hi : i < min k len) :
    (k - len + (i + (min k len - k % len)) % min k len) % len = i := by
  rcases Nat.lt_or_ge k len with hk | hk
  · rw [Nat.min_eq_left (by omega), Nat.mod_eq_of_lt hk, Nat.sub_self, Nat.add_zero,
      Nat.mod_eq_of_lt (by omega : i < k), Nat.sub_eq_zero_of_le (by omega), Nat.zero_add,
      Nat.mod_eq_of_lt (by omega)]
  · rw [Nat.min_eq_right hk] at hi ⊢
    have hlt : k % len < len := Nat.mod_lt _ (by omega)
    obtain ⟨q, hq⟩ : ∃ q, k = len * (q + 1) + k % len := by
      have hdiv : 1 ≤ k / len := Nat.div_pos hk (by omega)
      refine ⟨k / len - 1, ?_⟩
      rw [Nat.sub_add_cancel hdiv, Nat.div_add_mod]
    rw [Nat.mul_succ] at hq
    by_cases hwrap : i < k % len
    · rw [Nat.mod_eq_of_lt (by omega : i + (len - k % len) < len)]
      have hslot : k - len + (i + (len - k % len)) = len * (q + 1) + i := by
        rw [Nat.mul_succ]
        omega
      rw [hslot, Nat.mul_add_mod, Nat.mod_eq_of_lt hi]
    · have hturn : i + (len - k % len) = i - k % len + len := by omega
      rw [hturn, Nat.add_mod_right, Nat.mod_eq_of_lt (by omega : i - k % len < len)]
      have hslot : k - len + (i - k % len) = len * q + i := by omega
      rw [hslot, Nat.mul_add_mod, Nat.mod_eq_of_lt hi]

/-- **Where a value stands**: the value number `t` is in the cell `t % len`. -/
theorem window_eq_of_cells {m : Mem Int} {win : Nat}
    (h : ∀ t (ht : t < vs.length), vs.length ≤ t + len → m (win + t % len) = vs[t]) :
    m.slice win (min vs.length len) = window len vs := by
  refine List.ext_getElem (by rw [Mem.length_slice, length_window]) fun i hi _ => ?_
  rw [Mem.length_slice] at hi
  have hslot := slot_mod hi
  have hn : vs.length - (vs.length - len) = min vs.length len := by omega
  have hlt :=
    Nat.mod_lt (i + (min vs.length len - vs.length % len)) (by omega : 0 < min vs.length len)
  have hcell :=
    h (vs.length - len + (i + (min vs.length len - vs.length % len)) % min vs.length len)
    (by omega) (by omega)
  rw [hslot] at hcell
  simp only [Mem.slice, window, recent, List.getElem_map, List.getElem_range, List.getElem_rotate,
    List.getElem_drop, List.length_drop, hn]
  exact hcell

theorem recent_sublist : List.Sublist (recent len vs) vs := List.drop_sublist ..

theorem getD_of_lt {l : List Int} {i : Nat} (h : i < l.length) : l.getD i 0 = l[i] := by
  rw [List.getD_eq_getElem?_getD, List.getElem?_eq_getElem h, Option.getD_some]

/-- The elements in the middle are two of the list. -/
theorem middleSum_le_sum {l : List Int} (hl : l.length % 2 = 0) (hnonneg : ∀ x ∈ l, 0 ≤ x) :
    middleSum l ≤ l.sum := by
  by_cases hzero : l.length = 0
  · rw [List.length_eq_zero_iff.mp hzero]
    exact le_refl _
  · obtain ⟨k, hk⟩ : ∃ k, l.length / 2 = k + 1 := ⟨l.length / 2 - 1, by omega⟩
    have hdrop : l.drop k = [l[k], l[k + 1]] ++ l.drop (k + 2) := by
      rw [List.drop_eq_getElem_cons (by omega), List.drop_eq_getElem_cons (by omega)]
      rfl
    have hsub : List.Sublist [l[k], l[k + 1]] l :=
      (hdrop ▸ List.sublist_append_left _ _).trans (List.drop_sublist k l)
    have hle := hsub.sum_le_sum hnonneg
    rw [List.sum_cons, List.sum_singleton] at hle
    rw [middleSum, hk, Nat.add_sub_cancel, getD_of_lt (by omega), getD_of_lt (by omega)]
    omega

/-- **Values without a sign** whose sum is a value: no sum of some of them overflows. -/
theorem sumsFit_of_nonneg {T : IntType} (hnonneg : ∀ x ∈ vs, 0 ≤ x) (hsum : vs.sum ≤ T.max) :
    SumsFit T len vs := by
  have hrecent : ∀ us, List.Sublist us vs → (recent len us).sum ≤ T.max := fun us hus =>
    le_trans ((recent_sublist.trans hus).sum_le_sum hnonneg) hsum
  constructor
  · intro us hus i
    have hmem : ∀ x ∈ window len us, 0 ≤ x := fun x hx =>
      hnonneg x (hus.subset (recent_sublist.subset (window_perm.subset hx)))
    have htake := (List.take_sublist i (window len us)).sum_le_sum hmem
    have hpos : 0 ≤ ((window len us).take i).sum :=
      List.sum_nonneg fun x hx => hmem x (List.mem_of_mem_take hx)
    rw [sum_window] at htake
    exact ⟨le_trans T.inRange_zero.1 hpos, le_trans htake (hrecent us hus.sublist)⟩
  · intro heven
    have hmem : ∀ x ∈ clpSort (recent len vs), 0 ≤ x := fun x hx =>
      hnonneg x (recent_sublist.subset ((clpSort_perm _).subset hx))
    have hmiddle := middleSum_le_sum (by rwa [length_clpSort]) hmem
    rw [(clpSort_perm _).sum_eq] at hmiddle
    refine IntType.inRange_promoted ⟨le_trans T.inRange_zero.1 ?_,
      le_trans hmiddle (hrecent vs (List.Sublist.refl vs))⟩
    have hget : ∀ i, 0 ≤ (clpSort (recent len vs)).getD i 0 := fun i => by
      rw [List.getD_eq_getElem?_getD]
      cases hx : (clpSort (recent len vs))[i]? with
      | none => exact le_refl 0
      | some x => exact hmem x (List.mem_of_getElem? hx)
    exact Int.add_nonneg (hget _) (hget _)

end Recent

/-! ## 3. The invariant -/

/-- **The filter has been given these values**: the last ones stand in the window, the next one
    will be stored at the cursor. -/
structure ConvLowPass.Shows (w : ConvLowPass) (m : Mem Int) (buffer len : Nat) (vs : List Int) :
    Prop where
  win_eq : w.win = buffer
  len_eq : w.len = len
  cur_eq : w.cur = vs.length % len
  first_eq : w.first = decide (vs.length < len)
  cell : ∀ t (ht : t < vs.length), vs.length ≤ t + len → m (buffer + t % len) = vs[t]

variable {T : IntType} {w : ConvLowPass} {m : Mem Int} {buffer len : Nat} {vs : List Int} {v : Int}

namespace ConvLowPass.Shows

/-- The average is not part of it. -/
theorem with_avg (h : w.Shows m buffer len vs) (avg : Int) :
    { w with avg := avg }.Shows m buffer len vs :=
  ⟨h.win_eq, h.len_eq, h.cur_eq, h.first_eq, h.cell⟩

/-- How many cells are in use. -/
theorem inUse_eq (h : w.Shows m buffer len vs) :
    (if w.first then w.cur else w.len) = min vs.length len := by
  rw [h.first_eq, h.cur_eq, h.len_eq]
  by_cases hk : vs.length < len
  · rw [decide_eq_true hk, if_pos rfl, Nat.mod_eq_of_lt hk, Nat.min_eq_left (le_of_lt hk)]
  · rw [decide_eq_false hk, if_neg (by decide), Nat.min_eq_right (not_lt.mp hk)]

theorem slice_eq (h : w.Shows m buffer len vs) :
    m.slice w.win (min vs.length len) = window len vs := by
  rw [h.win_eq]
  exact window_eq_of_cells h.cell

/-- **One more value is stored** at the cursor, which goes on to the next cell. -/
theorem store (h : w.Shows m buffer len vs) :
    ConvLowPass.Shows { w with
        first := if w.len ≤ w.cur + 1 then false else w.first, cur := (w.cur + 1) % w.len }
      (m.store (w.win + w.cur) [v]) buffer len (vs ++ [v]) := by
  refine ⟨h.win_eq, h.len_eq, ?_, ?_, fun t ht hlast => ?_⟩
  · rw [h.cur_eq, h.len_eq, Nat.mod_add_mod, List.length_append, List.length_singleton]
  · show (if w.len ≤ w.cur + 1 then false else w.first) = _
    rw [h.first_eq, h.cur_eq, h.len_eq, List.length_append, List.length_singleton]
    by_cases hk : vs.length < len
    · rw [Nat.mod_eq_of_lt hk, decide_eq_true hk]
      split
      · exact (decide_eq_false (by omega)).symm
      · exact (decide_eq_true (by omega)).symm
    · rw [decide_eq_false hk, ite_self, decide_eq_false (by omega)]
  · rw [List.length_append, List.length_singleton] at ht hlast
    rw [h.win_eq, h.cur_eq]
    rcases Nat.lt_or_ge t vs.length with hold | hnew
    · -- two of the last `len` values stand in different cells
      have hapart : t % len ≠ vs.length % len := by
        intro hsame
        have hzero : (vs.length - t) % len = 0 := Nat.sub_mod_eq_zero_of_mod_eq hsame.symm
        rw [Nat.mod_eq_of_lt (by omega)] at hzero
        omega
      rw [Mem.store_outside _ (by rw [List.length_singleton]; omega),
        List.getElem_append_left hold]
      exact h.cell t hold (by omega)
    · obtain rfl : t = vs.length := by omega
      rw [List.getElem_concat_length rfl]
      exact Mem.store_inside m (buffer + vs.length % len) [v] 0 Nat.zero_lt_one

end ConvLowPass.Shows

theorem clpInit_shows (m : Mem Int) (buffer : Nat) (hlen : 1 ≤ len) :
    (clpInit m buffer len).1.Shows (clpInit m buffer len).2 buffer len [] where
  win_eq := rfl
  len_eq := rfl
  cur_eq := (Nat.zero_mod len).symm
  first_eq := (decide_eq_true hlen).symm
  cell := nofun

/-! ## 4. One update -/

/-- **The sum over the cells**, where no sum on the way overflows. -/
theorem clpSum_eq {win n : Nat} (h : ∀ i, i ≤ n → T.InRange (m.slice win i).sum) :
    clpSum T m win n = .ok (m.slice win n).sum := by
  induction n with
  | zero => rfl
  | succ n ih =>
    have hsum : (m.slice win (n + 1)).sum = (m.slice win n).sum + m (win + n) := by
      rw [Mem.slice_append, List.sum_append, Mem.slice_succ, Mem.slice_zero, List.sum_singleton]
    have hrange : T.InRange ((m.slice win n).sum + m (win + n)) := hsum ▸ h (n + 1) (le_refl _)
    rw [clpSum, ih fun i hi => h i (by omega), ok_bind,
      IntType.plus_of_inRange (IntType.inRange_promoted hrange), ok_bind,
      IntType.conv_of_inRange hrange, hsum]

/-- **One update**: only the quotient may be undefined. -/
theorem clpUpdate_eq (h : w.Shows m buffer len vs) (hlen : 1 ≤ len) (hlen' : len < 2 ^ 32)
    (hsums : ∀ i, T.InRange ((window len (vs ++ [v])).take i).sum) :
    ∃ (w' : ConvLowPass) (m' : Mem Int), w'.Shows m' buffer len (vs ++ [v]) ∧
      clpUpdate T w m v =
        (T.quotient (recent len (vs ++ [v])).sum (T.conv (min (vs ++ [v]).length len : Nat))) >>=
          fun avg => .ok ({ w' with avg := T.conv avg }, m') := by
  have hlt : w.cur < len := by
    rw [h.cur_eq]
    exact Nat.mod_lt _ (by omega)
  have hcur : uintAdd w.cur 1 = w.cur + 1 := Nat.mod_eq_of_lt (by omega)
  have hdiv : (if w.first then w.cur + 1 else w.len) = min (vs ++ [v]).length len := by
    rw [h.first_eq, h.cur_eq, h.len_eq, List.length_append, List.length_singleton]
    by_cases hk : vs.length < len
    · rw [decide_eq_true hk, if_pos rfl, Nat.mod_eq_of_lt hk, Nat.min_eq_left hk]
    · rw [decide_eq_false hk, if_neg (by decide), Nat.min_eq_right (by omega)]
  have hstored := h.store (v := v)
  have hslice := hstored.slice_eq
  have hsum : clpSum T (m.store (w.win + w.cur) [v]) w.win (min (vs ++ [v]).length len) =
      .ok (recent len (vs ++ [v])).sum := by
    rw [clpSum_eq, hslice, sum_window]
    intro i hi
    rw [← Mem.slice_take _ _ _ _ hi, hslice]
    exact hsums i
  refine ⟨_, _, hstored, ?_⟩
  have hpos : min (vs ++ [v]).length len ≠ 0 := by
    rw [List.length_append, List.length_singleton]
    omega
  have hne : w.len ≠ 0 := h.len_eq ▸ Nat.ne_of_gt hlen
  unfold clpUpdate
  by_cases hend : w.len ≤ w.cur + 1
  · simp only [hcur, hdiv, if_pos hend, require_pos hne, ok_bind, hsum, if_neg hpos]
  · simp only [hcur, hdiv, if_neg hend, require_pos hne, ok_bind, hsum, if_neg hpos]

/-! ## 5. A run of updates -/

theorem clpUpdates_append (us vs : List Int) :
    clpUpdates T w m (us ++ vs) =
      clpUpdates T w m us >>= fun s => clpUpdates T s.1 s.2 vs := by
  induction us generalizing w m with
  | nil => rfl
  | cons u us ih =>
    rw [List.cons_append, clpUpdates, clpUpdates]
    cases clpUpdate T w m u with
    | error e => rfl
    | ok s => exact ih

theorem clpUpdates_singleton (v : Int) : clpUpdates T w m [v] = clpUpdate T w m v := by
  rw [clpUpdates]
  cases clpUpdate T w m v with
  | error e => rfl
  | ok s => rfl

/-- **What every update divides by**, and what it divides, make a quotient. -/
def Divisible (T : IntType) (len : Nat) (vs : List Int) : Prop :=
  ∀ us, us <+: vs → us ≠ [] → T.Divides (recent len us).sum (T.conv (min us.length len : Nat))

theorem Divisible.of_append {us : List Int} (h : Divisible T len (vs ++ us)) :
    Divisible T len vs := fun ts hts => h ts (hts.trans (List.prefix_append vs us))

section Runs

variable (hlen : 1 ≤ len) (hlen' : len < 2 ^ 32)
include hlen hlen'

/-- **A run that returns** has found every quotient defined, and its state shows the values. -/
theorem clpUpdates_shows (hsums : ∀ us, us <+: vs → ∀ i, T.InRange ((window len us).take i).sum)
    (hw : w.Shows m buffer len []) {s : ConvLowPass × Mem Int}
    (hrun : clpUpdates T w m vs = .ok s) :
    s.1.Shows s.2 buffer len vs ∧ Divisible T len vs ∧
      (vs ≠ [] → s.1.avg =
        T.conv ((recent len vs).sum.tdiv (T.conv (min vs.length len : Nat)))) := by
  induction vs using List.reverseRecOn generalizing s with
  | nil =>
    obtain rfl := Except.ok.inj hrun
    exact ⟨hw, fun us hus hne => absurd (List.prefix_nil.mp hus) hne, fun hne => absurd rfl hne⟩
  | append_singleton vs v ih =>
    rw [clpUpdates_append] at hrun
    obtain ⟨s', hrun', hlast⟩ := bind_eq_ok hrun
    have hpre : vs <+: vs ++ [v] := List.prefix_append vs [v]
    obtain ⟨hshows, hdiv, -⟩ := ih (fun us hus => hsums us (hus.trans hpre)) hrun'
    obtain ⟨w', m', hshows', hupdate⟩ :=
      clpUpdate_eq hshows hlen hlen' (hsums (vs ++ [v]) (List.prefix_refl _))
    rw [clpUpdates_singleton, hupdate, IntType.quotient] at hlast
    by_cases hd : T.Divides (recent len (vs ++ [v])).sum
        (T.conv (min (vs ++ [v]).length len : Nat))
    · rw [require_pos hd, ok_bind, ok_bind] at hlast
      obtain rfl := Except.ok.inj hlast
      refine ⟨hshows'.with_avg _, fun us hus hne => ?_, fun _ => rfl⟩
      rcases List.prefix_concat_iff.mp hus with rfl | hus
      · exact hd
      · exact hdiv us hus hne
    · rw [require_neg hd] at hlast
      cases hlast

/-- **A run returns** if every quotient is defined. -/
theorem clpUpdates_exists (hsums : ∀ us, us <+: vs → ∀ i, T.InRange ((window len us).take i).sum)
    (hw : w.Shows m buffer len []) (hdiv : Divisible T len vs) :
    ∃ s, clpUpdates T w m vs = .ok s := by
  induction vs using List.reverseRecOn with
  | nil => exact ⟨(w, m), rfl⟩
  | append_singleton vs v ih =>
    have hpre : vs <+: vs ++ [v] := List.prefix_append vs [v]
    have hsums' := fun us (hus : us <+: vs) => hsums us (hus.trans hpre)
    obtain ⟨s, hrun⟩ := ih hsums' hdiv.of_append
    obtain ⟨hshows, -, -⟩ := clpUpdates_shows hlen hlen' hsums' hw hrun
    obtain ⟨w', m', -, hupdate⟩ :=
      clpUpdate_eq hshows hlen hlen' (hsums (vs ++ [v]) (List.prefix_refl _))
    have hd := hdiv (vs ++ [v]) (List.prefix_refl _) (List.concat_ne_nil v vs)
    refine ⟨({ w' with avg := T.conv ((recent len (vs ++ [v])).sum.tdiv
      (T.conv (min (vs ++ [v]).length len : Nat))) }, m'), ?_⟩
    rw [clpUpdates_append, hrun, ok_bind, clpUpdates_singleton, hupdate,
      IntType.quotient_of_divides hd, ok_bind]

end Runs

/-! ## 6. Average, median and count -/

/-- **The count of values.** -/
theorem clpHasMinValues_iff (h : w.Shows m buffer len vs) (c : Nat) :
    clpHasMinValues w c = true ↔ c ≤ len ∧ c ≤ vs.length := by
  rw [clpHasMinValues, h.len_eq, h.first_eq, h.cur_eq]
  by_cases hc : len < c
  · rw [if_pos hc]
    exact iff_of_false nofun fun hand => by omega
  · rw [if_neg hc]
    by_cases hk : vs.length < len
    · rw [decide_eq_true hk, if_pos rfl, Nat.mod_eq_of_lt hk, decide_eq_true_iff]
      exact (and_iff_right (not_lt.mp hc)).symm
    · rw [decide_eq_false hk, if_neg (by decide)]
      exact iff_of_true rfl ⟨by omega, by omega⟩

theorem mem_of_mem_clpSort_recent {x : Int} (h : x ∈ clpSort (recent len vs)) : x ∈ vs :=
  List.mem_of_mem_drop ((clpSort_perm _).mem_iff.mp h)

/-- The middle of a sorted list in memory. -/
theorem clpMedian_middle {l : List Int} {tmp : Nat} (hne : l.length ≠ 0)
    (hl : m.slice tmp l.length = l) (hvalues : ∀ x ∈ l, T.InRange x)
    (hmiddle : l.length % 2 = 0 → T.promoted.InRange (middleSum l)) :
    (if l.length % 2 = 1 then .ok (m (tmp + l.length / 2), m)
      else T.plus (m (tmp + l.length / 2)) (m (tmp + (l.length / 2 - 1))) >>= fun sum =>
        T.quotient sum 2 >>= fun mean => .ok (T.conv mean, m)) = Except.ok (middle l, m) := by
  have hcell : ∀ i, i < l.length → l[i]? = some (m (tmp + i)) := fun i hi => by
    rw [← Mem.getElem?_slice m tmp _ i hi, hl]
  have hget : ∀ i, i < l.length → m (tmp + i) = l.getD i 0 := fun i hi => by
    rw [List.getD_eq_getElem?_getD, hcell i hi, Option.getD_some]
  have hvalue : ∀ i, i < l.length → T.InRange (l.getD i 0) := fun i hi => by
    rw [← hget i hi]
    exact hvalues _ (List.mem_of_getElem? (hcell i hi))
  rw [hget _ (by omega), hget _ (by omega), middle]
  split
  · rfl
  · have hfits := hmiddle (by omega)
    rw [middleSum] at hfits ⊢
    have hmean := IntType.inRange_mean (hvalue (l.length / 2) (by omega))
      (hvalue (l.length / 2 - 1) (by omega))
    have hdivides : T.Divides (l.getD (l.length / 2) 0 + l.getD (l.length / 2 - 1) 0) 2 :=
      ⟨by decide, IntType.inRange_promoted hmean⟩
    rw [IntType.plus_of_inRange hfits, ok_bind, IntType.quotient_of_divides hdivides, ok_bind,
      IntType.conv_of_inRange hmean]

/-- **The median**: it is sorted in the other memory, the window stays as it is. -/
theorem clpMedian_eq (h : w.Shows m buffer len vs) (hvs : ∀ x ∈ vs, T.InRange x)
    (hfit : SumsFit T len vs) {tmp : Nat} (htmp : tmp + len ≤ buffer ∨ buffer + len ≤ tmp) :
    ∃ m', clpMedian T w m tmp = .ok (median (recent len vs), m') ∧
      m'.slice buffer len = m.slice buffer len := by
  have hin := h.inUse_eq
  have hwindow := h.slice_eq
  have hlength : (clpSort (recent len vs)).length = min vs.length len := by
    rw [length_clpSort, length_recent]
  unfold clpMedian
  simp only [hin, ← hlength] at hwindow ⊢
  by_cases hzero : (clpSort (recent len vs)).length = 0
  · rw [if_pos hzero, median, List.length_eq_zero_iff.mp hzero]
    exact ⟨m, rfl, rfl⟩
  · rw [if_neg hzero]
    -- the window is copied, and sorted where the copy is
    have hcopied : (m.copy tmp (m.shift w.win) (clpSort (recent len vs)).length).slice tmp
        (clpSort (recent len vs)).length = window len vs := by
      rw [Mem.slice_copy, Mem.slice_shift, Nat.add_zero, hwindow]
    rw [hcopied, clpSort_eq_of_perm window_perm]
    refine ⟨_, clpMedian_middle hzero (Mem.slice_store _ tmp _)
      (fun x hx => hvs x (mem_of_mem_clpSort_recent hx)) ?_, ?_⟩
    · rw [length_clpSort]
      exact hfit.middle
    · rw [Mem.slice_store_apart _ (by omega), Mem.slice_copy_apart _ _ (by omega)]

section Answers

variable {tmp : Nat}

/-- **What a filter answers** after these values: the average is the truncated quotient, the median
    is that of the last values and leaves the window as it is, and the values are counted. -/
def ClpAnswers (T : IntType) (m : Mem Int) (buffer len tmp : Nat) (vs : List Int) : Prop :=
  ∃ w m', clpUpdates T (clpInit m buffer len).1 (clpInit m buffer len).2 vs = .ok (w, m') ∧
    (vs ≠ [] → clpAvg w = (recent len vs).sum.tdiv (min vs.length len : Nat)) ∧
    (∃ m'', clpMedian T w m' tmp = .ok (median (recent len vs), m'') ∧
      m''.slice buffer len = m'.slice buffer len) ∧
    ∀ c, clpHasMinValues w c = true ↔ c ≤ len ∧ c ≤ vs.length

/-- **The divisors survive their conversion** to the element type: no update divides by one that
    became 0, nor the least value by one that became -1; and the last update's is the same as
    before, or larger than the sum still. -/
def DivisorsFit (T : IntType) (len : Nat) (vs : List Int) : Prop :=
  Divisible T len vs ∧ (vs ≠ [] →
    T.conv (min vs.length len : Nat) = (min vs.length len : Nat) ∨
      (recent len vs).sum.natAbs < (T.conv (min vs.length len : Nat)).natAbs)

/-- The quotient of the last update. -/
theorem clpAvg_iff (hlen : 1 ≤ len) (hne : vs ≠ []) (hfit : SumsFit T len vs)
    (hdiv : Divisible T len vs) :
    T.conv ((recent len vs).sum.tdiv (T.conv (min vs.length len : Nat))) =
        (recent len vs).sum.tdiv (min vs.length len : Nat) ↔
      T.conv (min vs.length len : Nat) = (min vs.length len : Nat) ∨
        (recent len vs).sum.natAbs < (T.conv (min vs.length len : Nat)).natAbs := by
  have hpos : 1 ≤ min vs.length len := Nat.le_min.mpr ⟨List.length_pos_iff.mpr hne, hlen⟩
  have hsum : T.InRange (recent len vs).sum := by
    have hwhole := hfit.window vs (List.prefix_refl vs) (window len vs).length
    rwa [List.take_length, sum_window] at hwhole
  exact IntType.conv_tdiv_conv_iff hsum hpos (hdiv vs (List.prefix_refl vs) hne).1

theorem ClpAnswers.divisorsFit (hlen : 1 ≤ len) (hlen' : len < 2 ^ 32) (hfit : SumsFit T len vs)
    (h : ClpAnswers T m buffer len tmp vs) : DivisorsFit T len vs := by
  obtain ⟨w, m', hrun, havg, -, -⟩ := h
  obtain ⟨-, hdiv, hlast⟩ :=
    clpUpdates_shows hlen hlen' hfit.window (clpInit_shows m buffer hlen) hrun
  refine ⟨hdiv, fun hne => (clpAvg_iff hlen hne hfit hdiv).mp ?_⟩
  rw [← hlast hne]
  exact havg hne

theorem DivisorsFit.clpAnswers (h : DivisorsFit T len vs) (hlen : 1 ≤ len) (hlen' : len < 2 ^ 32)
    (hvs : ∀ x ∈ vs, T.InRange x) (hfit : SumsFit T len vs)
    (htmp : tmp + len ≤ buffer ∨ buffer + len ≤ tmp) : ClpAnswers T m buffer len tmp vs := by
  have hinit := clpInit_shows m buffer hlen
  obtain ⟨⟨w, m'⟩, hrun⟩ := clpUpdates_exists hlen hlen' hfit.window hinit h.1
  obtain ⟨hshows, -, hlast⟩ := clpUpdates_shows hlen hlen' hfit.window hinit hrun
  refine ⟨w, m', hrun, fun hne => ?_, clpMedian_eq hshows hvs hfit htmp,
    clpHasMinValues_iff hshows⟩
  exact (hlast hne).trans ((clpAvg_iff hlen hne hfit h.1).mpr (h.2 hne))

/-- The divisors fit where the length of the window is a value of the element type. -/
theorem divisorsFit_of_len_le (hlen : 1 ≤ len) (hmax : (len : Int) ≤ T.max)
    (hfit : SumsFit T len vs) : DivisorsFit T len vs := by
  have hkeep : ∀ n : Nat, n ≤ len → T.conv n = n := fun n hn =>
    IntType.conv_of_inRange ⟨le_trans T.inRange_zero.1 (by omega), by omega⟩
  refine ⟨fun us hus hne => ?_, fun _ => .inl (hkeep _ (Nat.min_le_right _ _))⟩
  have hpos : 1 ≤ min us.length len := Nat.le_min.mpr ⟨List.length_pos_iff.mpr hne, hlen⟩
  have hsum := hfit.window us hus (window len us).length
  rw [List.take_length, sum_window] at hsum
  rw [hkeep _ (Nat.min_le_right _ _)]
  exact ⟨by omega, IntType.inRange_promoted (IntType.inRange_tdiv_of_pos hsum (by omega))⟩

/-- **A filter is right** where the length of its window is a value of the element type. -/
theorem clpAnswers_of_len_le (hlen : 1 ≤ len) (hlen' : len < 2 ^ 32) (hmax : (len : Int) ≤ T.max)
    (hvs : ∀ x ∈ vs, T.InRange x) (hfit : SumsFit T len vs)
    (htmp : tmp + len ≤ buffer ∨ buffer + len ≤ tmp) : ClpAnswers T m buffer len tmp vs :=
  (divisorsFit_of_len_le hlen hmax hfit).clpAnswers hlen hlen' hvs hfit htmp

/-- **A filter is right** just where its divisors survive their conversion. -/
theorem convLowPass_right_iff (hlen : 1 ≤ len) (hlen' : len < 2 ^ 32)
    (hvs : ∀ x ∈ vs, T.InRange x) (hfit : SumsFit T len vs)
    (htmp : tmp + len ≤ buffer ∨ buffer + len ≤ tmp) :
    ClpAnswers T m buffer len tmp vs ↔ DivisorsFit T len vs :=
  ⟨ClpAnswers.divisorsFit hlen hlen' hfit, fun h => h.clpAnswers hlen hlen' hvs hfit htmp⟩

end Answers

/-- Three values in a window of two. -/
theorem convLowPass_right_iff_sample :
    ClpAnswers .int (fun _ => 0) 0 2 2 [7, 3, 5] ↔ DivisorsFit .int 2 [7, 3, 5] :=
  convLowPass_right_iff (by decide) (by decide) (by decide)
    (sumsFit_of_nonneg (by decide) (by decide)) (.inr (by decide))

/-- **A window of 129 values of `int8_t`**: the divisor becomes -127, and 127 / 129 becomes -1. -/
theorem convLowPass_longWindow :
    (∀ x ∈ List.replicate 128 (0 : Int) ++ [127], IntType.int8.InRange x) ∧
      SumsFit .int8 129 (List.replicate 128 0 ++ [127]) ∧
      ¬ ClpAnswers .int8 (fun _ => 0) 0 129 129 (List.replicate 128 0 ++ [127]) := by
  have hvalues : ∀ x ∈ List.replicate 128 (0 : Int) ++ [127], x = 0 ∨ x = 127 := fun x hx => by
    rw [List.mem_append, List.mem_replicate, List.mem_singleton] at hx
    exact hx.imp_left And.right
  have hsum : (List.replicate 128 (0 : Int) ++ [127]).sum = 127 := by
    rw [List.sum_append, List.sum_replicate, nsmul_zero, List.sum_singleton, zero_add]
  have hfit : SumsFit .int8 129 (List.replicate 128 0 ++ [127]) :=
    sumsFit_of_nonneg (fun x hx => by rcases hvalues x hx with rfl | rfl <;> decide)
      (hsum.trans_le (by decide))
  refine ⟨fun x hx => by rcases hvalues x hx with rfl | rfl <;> decide, hfit, fun h => ?_⟩
  have hdivisors := h.divisorsFit (by decide) (by decide) hfit
  have hlast := hdivisors.2 (List.concat_ne_nil _ _)
  have hconv : IntType.int8.conv (min (128 + 1) 129 : Nat) = -127 := by decide
  rw [recent, List.length_append, List.length_replicate, List.length_singleton, Nat.sub_self,
    List.drop_zero, hsum, hconv] at hlast
  omega

end Ufw
