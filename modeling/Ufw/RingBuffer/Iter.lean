/-
  File:      Ufw/RingBuffer/Iter.lean
  Subject:   RING BUFFER ITERATORS (ring-buffer-iter.h, ring-buffer-iter.c).

  * `RbIter` -- an iterator: an index into the memory of a ring buffer, and how many steps are left;
  * `ringIter`, `rbIterDone`, `ringInspect`, `rbIterAdvance` -- the functions of the source;
  * `ringWalk` -- a loop over them, which visits one cell after the other;
  * `ringWalk_visits` -- **an iterator visits the elements of the queue in their order**, or in the
    reverse one, and no cell twice.
-/
import Ufw.Base.Exec
import Ufw.RingBuffer

namespace Ufw

open Base

variable {α : Type}

/-! ## 1. The code -/

/-- `rb_iter_mode` -/
inductive RbIterMode where
  | oldToNew
  | newToOld
  deriving DecidableEq, Repr

/-- `rb_iter` -/
structure RbIter where
  steps : Nat
  index : Nat
  size : Nat
  mode : RbIterMode
  deriving Repr

/-- `NAME_iter` -/
def ringIter (c : RingBuffer α) (mode : RbIterMode) : RbIter where
  steps := c.size
  index :=
    match mode with
    | .oldToNew => c.tail
    | .newToOld => if c.head = 0 then sizeSub c.datasize 1 else sizeSub c.head 1
  size := c.datasize
  mode := mode

/-- `rb_iter_done` -/
def rbIterDone (iter : RbIter) : Bool := iter.steps == 0

/-- `NAME_inspect` -/
def ringInspect (c : RingBuffer α) (iter : RbIter) : α := c.data iter.index

/-- `rb_iter_advance`, which returns the new index. -/
def rbIterAdvance (iter : RbIter) : RbIter :=
  let index :=
    match iter.mode with
    | .oldToNew => sizeAdd iter.index 1 % iter.size
    | .newToOld => if iter.index = 0 then sizeSub iter.size 1 else sizeSub iter.index 1
  { iter with index, steps := sizeSub iter.steps 1 }

/-- A loop that inspects one cell after the other, until the iterator is done: the indices it reads,
    and what it finds there. -/
def ringWalk (c : RingBuffer α) : Nat → RbIter → Exec (List (Nat × α))
  | 0, _ => .error .outOfFuel
  | fuel + 1, iter =>
    if rbIterDone iter then .ok []
    else do
      let visits ← ringWalk c fuel (rbIterAdvance iter)
      .ok ((iter.index, ringInspect c iter) :: visits)

/-! ## 2. The cells that are visited -/

/-- **A loop ends when its steps are done**, and has visited a cell in each of them. -/
theorem ringWalk_steps (c : RingBuffer α) (n : Nat) (hn : n < 2 ^ 64) :
    ∀ iter : RbIter, iter.steps = n → Returns (fun fuel => ringWalk c fuel iter)
      ((List.range n).map fun j =>
        ((rbIterAdvance^[j] iter).index, ringInspect c (rbIterAdvance^[j] iter))) := by
  induction n with
  | zero =>
    intro iter hsteps
    refine Returns.of_succ fun fuel => ?_
    rw [ringWalk, rbIterDone, hsteps]
    rfl
  | succ n ih =>
    intro iter hsteps
    have hdone : rbIterDone iter = false := by
      rw [rbIterDone, hsteps]
      rfl
    have hnext : (rbIterAdvance iter).steps = n := by
      show sizeSub iter.steps 1 = n
      rw [hsteps, sizeSub_eq (by omega) hn, Nat.add_sub_cancel]
    have hrest := ih (by omega) (rbIterAdvance iter) hnext
    rw [List.range_succ_eq_map, List.map_cons, List.map_map]
    refine Returns.step_seq (fun fuel hx => ?_) hrest (Returns.of_eq fun _ => rfl)
    rw [ringWalk, hdone, if_neg Bool.false_ne_true, hx]
    rfl

section Indices

variable {c : RingBuffer α} {l : List α}

/-- From the tail on: the `j`-th cell is that of the `j`-th element. -/
theorem oldToNew_index (h : c.Shows l) {j : Nat} (hj : j < l.length) :
    (rbIterAdvance^[j] (ringIter c .oldToNew)).index = ringIndex c.datasize c.tail j ∧
    (rbIterAdvance^[j] (ringIter c .oldToNew)).size = c.datasize ∧
    (rbIterAdvance^[j] (ringIter c .oldToNew)).mode = .oldToNew := by
  have htail := h.tail_lt (List.ne_nil_of_length_pos (Nat.zero_lt_of_lt hj))
  have hlen := h.length_le
  induction j with
  | zero => exact ⟨((ringIndex_eq_self htail (Nat.zero_le _)).mpr (.inl rfl)).symm, rfl, rfl⟩
  | succ j ih =>
    obtain ⟨hindex, hsize, hmode⟩ := ih (by omega)
    rw [Function.iterate_succ_apply']
    generalize rbIterAdvance^[j] (ringIter c .oldToNew) = iter at hindex hsize hmode
    refine ⟨?_, hsize, hmode⟩
    have hlt : ringIndex c.datasize c.tail j < c.datasize := ringIndex_lt htail (by omega)
    unfold rbIterAdvance
    rw [hmode, hindex, hsize]
    show sizeAdd (ringIndex c.datasize c.tail j) 1 % c.datasize = _
    rw [ringIndex_succ_mod hlt h.datasize_lt]
    unfold ringIndex
    split <;> split <;> split <;> omega

/-- From the head back: the `j`-th cell is that of the `j`-th element from the end. -/
theorem newToOld_index (h : c.Shows l) {j : Nat} (hj : j < l.length) :
    (rbIterAdvance^[j] (ringIter c .newToOld)).index =
      ringIndex c.datasize c.tail (l.length - 1 - j) ∧
    (rbIterAdvance^[j] (ringIter c .newToOld)).size = c.datasize ∧
    (rbIterAdvance^[j] (ringIter c .newToOld)).mode = .newToOld := by
  have hne : l ≠ [] := List.ne_nil_of_length_pos (Nat.zero_lt_of_lt hj)
  have htail := h.tail_lt hne
  have hhead := h.head_eq hne
  have hlen := h.length_le
  have hsize64 := h.datasize_lt
  -- one cell back, in the ring
  have hback : ∀ k, k < l.length →
      (if ringIndex c.datasize c.tail (k + 1) = 0 then sizeSub c.datasize 1
        else sizeSub (ringIndex c.datasize c.tail (k + 1)) 1) = ringIndex c.datasize c.tail k := by
    intro k hk
    have hlt : ringIndex c.datasize c.tail (k + 1) < c.datasize := ringIndex_lt htail (by omega)
    rw [sizeSub_eq (by omega) hsize64]
    by_cases hzero : ringIndex c.datasize c.tail (k + 1) = 0
    · rw [if_pos hzero]
      unfold ringIndex at hzero ⊢
      split at hzero <;> split <;> omega
    · rw [if_neg hzero, sizeSub_eq (by omega) (by omega)]
      unfold ringIndex at hzero ⊢
      split at hzero <;> split <;> split <;> omega
  induction j with
  | zero =>
    refine ⟨?_, rfl, rfl⟩
    have hlast := hback (l.length - 1) (by omega)
    rw [Nat.sub_add_cancel (by omega), ← hhead] at hlast
    exact hlast
  | succ j ih =>
    obtain ⟨hindex, hsize, hmode⟩ := ih (by omega)
    rw [Function.iterate_succ_apply']
    generalize rbIterAdvance^[j] (ringIter c .newToOld) = iter at hindex hsize hmode
    refine ⟨?_, hsize, hmode⟩
    have hstep := hback (l.length - 1 - (j + 1)) (by omega)
    rw [show l.length - 1 - (j + 1) + 1 = l.length - 1 - j by omega] at hstep
    unfold rbIterAdvance
    rw [hmode, hindex, hsize]
    exact hstep

end Indices

/-- The elements of a queue in the order of a mode. -/
def RbIterMode.order (mode : RbIterMode) (l : List α) : List α :=
  match mode with
  | .oldToNew => l
  | .newToOld => l.reverse

/-- **A loop visits the elements in the order of its mode**, and reads no cell behind the memory. -/
theorem ringWalk_shows {c : RingBuffer α} {l : List α} (h : c.Shows l) (mode : RbIterMode) :
    ∃ visits, Returns (fun fuel => ringWalk c fuel (ringIter c mode)) visits ∧
      visits.length = l.length ∧ visits.map Prod.snd = mode.order l ∧
      ∀ p ∈ visits, p.1 < c.datasize := by
  have hsteps : (ringIter c mode).steps = l.length := h.size_eq
  have hlen := h.length_le
  have hlt := h.datasize_lt
  refine ⟨_, ringWalk_steps c l.length (by omega) _ hsteps, ?_, ?_, ?_⟩
  · rw [List.length_map, List.length_range]
  · rw [List.map_map]
    refine List.ext_getElem ?_ fun j hj hj' => ?_
    · rw [List.length_map, List.length_range]
      cases mode with
      | oldToNew => rfl
      | newToOld => exact (List.length_reverse).symm
    · have hin : j < l.length := by
        rwa [List.length_map, List.length_range] at hj
      rw [List.getElem_map, List.getElem_range]
      show c.data (rbIterAdvance^[j] (ringIter c mode)).index = _
      cases mode with
      | oldToNew =>
        rw [(oldToNew_index h hin).1]
        exact h.cell j hin
      | newToOld =>
        rw [(newToOld_index h hin).1, h.cell (l.length - 1 - j) (by omega)]
        exact (List.getElem_reverse _).symm
  · intro p hp
    obtain ⟨j, hj, rfl⟩ := List.mem_map.mp hp
    rw [List.mem_range] at hj
    have htail := h.tail_lt (List.ne_nil_of_length_pos (Nat.zero_lt_of_lt hj))
    cases mode with
    | oldToNew =>
      rw [(oldToNew_index h hj).1]
      exact ringIndex_lt htail (by omega)
    | newToOld =>
      rw [(newToOld_index h hj).1]
      exact ringIndex_lt htail (by omega)

/-- **An iterator visits the elements of the queue**, whatever has been called before: as many cells
    as the ring buffer has elements, none of them behind its memory, and the oldest element first or
    last as the mode says. -/
theorem ringWalk_visits [Zero α] (buf : Mem α) (capacity : Nat) (h1 : 1 ≤ capacity)
    (h2 : capacity < 2 ^ 64) (ops : List (RingOp α)) (mode : RbIterMode) :
    let c := after ringCall (RingBuffer.init buf capacity) ops
    let q := after BoundedQueue.call (BoundedQueue.fresh : BoundedQueue α capacity) ops
    ∃ visits, Returns (fun fuel => ringWalk c fuel (ringIter c mode)) visits ∧
      visits.length = c.size ∧ visits.map Prod.snd = mode.order q.items ∧
      ∀ p ∈ visits, p.1 < capacity := by
  have hinit : RingRefines (RingBuffer.init buf capacity)
      (BoundedQueue.fresh : BoundedQueue α capacity) :=
    ⟨RingBuffer.shows_init buf h1 h2, rfl, rfl⟩
  obtain ⟨-, hshows, hsize, -⟩ := (ringCall_simulates h1).run hinit ops
  obtain ⟨visits, hret, hlength, horder, hall⟩ := ringWalk_shows hshows mode
  exact ⟨visits, hret, hlength.trans hshows.size_eq.symm, horder, fun p hp => hsize ▸ hall p hp⟩

/-- Three elements in a ring of two cells: the oldest one has been overwritten. -/
theorem ringWalk_visits_sample :
    let c := after ringCall (RingBuffer.init (fun _ => 0) 2)
      [.overrideIfFull true, .put 1, .put 2, (.put 3 : RingOp Nat)]
    ∃ visits, Returns (fun fuel => ringWalk c fuel (ringIter c .newToOld)) visits ∧
      visits.length = c.size ∧ visits.map Prod.snd = [3, 2] ∧ ∀ p ∈ visits, p.1 < 2 :=
  ringWalk_visits (fun _ => 0) 2 (by decide) (by decide) _ .newToOld

end Ufw
