/-
  File:      Ufw/Base/Memory.lean
  Subject:   MEMORY BEHIND A POINTER. A pointer is read as the function from an index to the
             cell at that index; the block operations of a C library over it.

  * `Mem.copy` -- `memcpy`; `Mem.fill` -- `memset`; `Mem.store` -- copying a list in;
  * `Mem.slice` -- the cells of a range, in order;
  * `Mem.behind` -- an object, written through a pointer into it;
  * `splice` -- a list with other cells in a part of it, with `Mem.slice_store_within`;
  * `Mem.copy_inside`, `Mem.slice_store`, `Mem.copy_outside` … -- what a block operation
    changes, and that it changes nothing else.

  Nothing here names a particular program.
-/
import Mathlib.Data.List.Basic

namespace Base

variable {α : Type}

/-- The cells behind a pointer. -/
abbrev Mem (α : Type) := Nat → α

namespace Mem

/-- The pointer moved forward by `k` cells. -/
def shift (m : Mem α) (k : Nat) : Mem α := fun i => m (k + i)

/-- Copy `n` cells from `src` to the cells of `dst` from `off` on. -/
def copy (dst : Mem α) (off : Nat) (src : Mem α) (n : Nat) : Mem α :=
  fun i => if off ≤ i ∧ i < off + n then src (i - off) else dst i

/-- Set `n` cells from `off` on to one value. -/
def fill (dst : Mem α) (off : Nat) (x : α) (n : Nat) : Mem α := copy dst off (fun _ => x) n

/-- Copy a list to the cells of `dst` from `off` on. -/
def store (dst : Mem α) (off : Nat) (l : List α) : Mem α :=
  fun i => if i < off then dst i else (l[i - off]?).getD (dst i)

/-- The `n` cells from `off` on, in order. -/
def slice (m : Mem α) (off n : Nat) : List α := (List.range n).map fun i => m (off + i)

@[simp] theorem shift_apply (m : Mem α) (k i : Nat) : m.shift k i = m (k + i) := rfl

theorem copy_apply (dst : Mem α) (off : Nat) (src : Mem α) (n i : Nat) :
    dst.copy off src n i = if off ≤ i ∧ i < off + n then src (i - off) else dst i := rfl

theorem copy_inside (dst : Mem α) {off : Nat} (src : Mem α) {n i : Nat} (h1 : off ≤ i)
    (h2 : i < off + n) : dst.copy off src n i = src (i - off) := if_pos ⟨h1, h2⟩

theorem copy_outside (dst : Mem α) {off : Nat} (src : Mem α) {n i : Nat}
    (h : ¬(off ≤ i ∧ i < off + n)) : dst.copy off src n i = dst i := if_neg h

@[simp] theorem length_slice (m : Mem α) (off n : Nat) : (m.slice off n).length = n := by
  simp [slice]

theorem getElem?_slice (m : Mem α) (off n i : Nat) (h : i < n) :
    (m.slice off n)[i]? = some (m (off + i)) := by
  simp [slice, h]

@[simp] theorem slice_zero (m : Mem α) (off : Nat) : m.slice off 0 = [] := rfl

theorem slice_succ (m : Mem α) (off n : Nat) :
    m.slice off (n + 1) = m off :: m.slice (off + 1) n := by
  unfold slice
  rw [List.range_succ_eq_map, List.map_cons, List.map_map]
  refine congrArg₂ _ rfl (List.map_congr_left fun i _ => ?_)
  show m (off + (i + 1)) = m (off + 1 + i)
  rw [Nat.add_right_comm, Nat.add_assoc]

theorem slice_append (m : Mem α) (off n k : Nat) :
    m.slice off (n + k) = m.slice off n ++ m.slice (off + n) k := by
  induction n generalizing off with
  | zero => simp
  | succ n ih =>
    rw [Nat.add_right_comm, slice_succ, slice_succ, ih, List.cons_append, Nat.add_right_comm off,
      Nat.add_assoc off]

theorem slice_take (m : Mem α) (off n k : Nat) (h : k ≤ n) :
    (m.slice off n).take k = m.slice off k := by
  obtain ⟨r, rfl⟩ : ∃ r, n = k + r := ⟨n - k, by omega⟩
  rw [slice_append, List.take_left' (length_slice m off k)]

theorem slice_drop (m : Mem α) (off n k : Nat) (h : k ≤ n) :
    (m.slice off n).drop k = m.slice (off + k) (n - k) := by
  obtain ⟨r, rfl⟩ : ∃ r, n = k + r := ⟨n - k, by omega⟩
  rw [slice_append, List.drop_left' (length_slice m off k), Nat.add_sub_cancel_left]

theorem slice_shift (m : Mem α) (k off n : Nat) :
    (m.shift k).slice off n = m.slice (k + off) n :=
  List.map_congr_left fun i _ => congrArg m (Nat.add_assoc k off i).symm

/-- A range that holds two lists, one behind the other. -/
theorem slice_append_inv {m : Mem α} {off n : Nat} {a b : List α} (h : m.slice off n = a ++ b) :
    m.slice off a.length = a ∧ m.slice (off + a.length) b.length = b := by
  obtain rfl : n = a.length + b.length := by
    rw [← List.length_append, ← h, length_slice]
  rw [slice_append] at h
  exact List.append_inj h (length_slice m off a.length)

/-- A range that is copied piece by piece. -/
theorem copy_append (dst : Mem α) (off : Nat) (src : Mem α) (n k : Nat) :
    (dst.copy off src n).copy (off + n) (src.shift n) k = dst.copy off src (n + k) := by
  funext i
  by_cases h2 : off + n ≤ i ∧ i < off + n + k
  · rw [copy_inside _ _ h2.1 h2.2, copy_inside _ _ (by omega) (by omega), shift_apply]
    exact congrArg src (by omega)
  · rw [copy_outside _ _ h2]
    by_cases h1 : off ≤ i ∧ i < off + n
    · rw [copy_inside _ _ h1.1 h1.2, copy_inside _ _ h1.1 (by omega)]
    · rw [copy_outside _ _ h1, copy_outside _ _ (by omega)]

theorem copy_congr (dst : Mem α) (off : Nat) {src src' : Mem α} {n : Nat}
    (h : ∀ i, i < n → src i = src' i) : dst.copy off src n = dst.copy off src' n := by
  funext i
  rw [copy_apply, copy_apply]
  split
  · exact h _ (by omega)
  · rfl

/-- What was copied, read back. -/
theorem slice_copy (dst : Mem α) (off : Nat) (src : Mem α) (n : Nat) :
    (dst.copy off src n).slice off n = src.slice 0 n := by
  refine List.map_congr_left fun i hi => ?_
  have hlt := List.mem_range.mp hi
  rw [copy_inside _ _ (by omega) (by omega), Nat.add_sub_cancel_left, Nat.zero_add]

/-- A range apart from the cells that were copied to. -/
theorem slice_copy_apart (m : Mem α) {off a k n : Nat} (src : Mem α)
    (h : a + k ≤ off ∨ off + n ≤ a) : (m.copy off src n).slice a k = m.slice a k :=
  List.map_congr_left fun i hi => copy_outside _ _ fun hin => by
    have hlt := List.mem_range.mp hi
    omega

@[simp] theorem copy_zero (dst : Mem α) (off : Nat) (src : Mem α) : dst.copy off src 0 = dst :=
  funext fun _ => copy_outside _ _ (by omega)

/-! ## A pointer into an object -/

/-- The cells of an object after those behind a pointer into it, `k` cells from its beginning, have
    become `r`. -/
def behind (m : Mem α) (k : Nat) (r : Mem α) : Mem α := fun i => if i < k then m i else r (i - k)

theorem behind_before (m : Mem α) {k : Nat} (r : Mem α) {i : Nat} (h : i < k) :
    m.behind k r i = m i := if_pos h

/-- What is copied behind the pointer is copied into the object. -/
theorem behind_copy (m : Mem α) (k off : Nat) (src : Mem α) (n : Nat) :
    m.behind k ((m.shift k).copy off src n) = m.copy (k + off) src n := by
  funext i
  unfold behind
  split <;> rename_i hi
  · exact (copy_outside _ _ (by omega)).symm
  · by_cases hin : k + off ≤ i ∧ i < k + off + n
    · rw [copy_inside _ _ (by omega) (by omega), copy_inside _ _ hin.1 hin.2, Nat.sub_sub]
    · rw [copy_outside _ _ (by omega), copy_outside _ _ hin, shift_apply,
        Nat.add_sub_cancel' (by omega)]

/-! ## Storing a list -/

theorem store_inside (dst : Mem α) (off : Nat) (l : List α) (i : Nat) (h : i < l.length) :
    dst.store off l (off + i) = l[i] := by
  unfold store
  rw [if_neg (by omega), Nat.add_sub_cancel_left, List.getElem?_eq_getElem h, Option.getD_some]

theorem store_before (dst : Mem α) {off i : Nat} (l : List α) (h : i < off) :
    dst.store off l i = dst i := if_pos h

theorem store_outside (dst : Mem α) {off i : Nat} {l : List α}
    (h : ¬(off ≤ i ∧ i < off + l.length)) :
    dst.store off l i = dst i := by
  by_cases hi : i < off
  · exact store_before dst l hi
  · unfold store
    rw [if_neg hi, List.getElem?_eq_none (by omega), Option.getD_none]

@[simp] theorem store_nil (dst : Mem α) (off : Nat) : dst.store off [] = dst := by
  funext i
  unfold store
  split <;> rfl

/-- **What was stored is read back.** -/
theorem slice_store (dst : Mem α) (off : Nat) (l : List α) :
    (dst.store off l).slice off l.length = l := by
  apply List.ext_getElem (length_slice _ _ _)
  intro i h1 h2
  simp only [slice, List.getElem_map, List.getElem_range]
  exact store_inside dst off l i h2

/-- **Storing what is there already**, or the first part of it, changes nothing. -/
theorem store_slice_take (m : Mem α) (off n k : Nat) :
    m.store off ((m.slice off n).take k) = m := by
  funext i
  by_cases hi : off ≤ i ∧ i < off + ((m.slice off n).take k).length
  · obtain ⟨j, rfl⟩ := Nat.exists_eq_add_of_le hi.1
    rw [store_inside _ _ _ _ (Nat.lt_of_add_lt_add_left hi.2), List.getElem_take]
    simp only [slice, List.getElem_map, List.getElem_range]
  · exact store_outside m hi

/-- Copying cells is storing the list of them. -/
theorem copy_eq_store (dst : Mem α) (off : Nat) (src : Mem α) (n : Nat) :
    dst.copy off src n = dst.store off (src.slice 0 n) := by
  funext i
  by_cases hi : off ≤ i ∧ i < off + n
  · obtain ⟨j, rfl⟩ := Nat.exists_eq_add_of_le hi.1
    have hj : j < (src.slice 0 n).length := by
      rw [length_slice]
      omega
    rw [copy_inside _ _ hi.1 hi.2, store_inside _ _ _ _ hj, Nat.add_sub_cancel_left]
    simp [slice]
  · rw [copy_outside _ _ hi, store_outside _ (by rwa [length_slice])]

/-- Storing two lists one behind the other is storing their concatenation. -/
theorem store_append (dst : Mem α) (off : Nat) (l l' : List α) :
    dst.store off (l ++ l') = (dst.store off l).store (off + l.length) l' := by
  funext i
  by_cases h1 : i < off + l.length
  · rw [store_before _ l' h1]
    by_cases h0 : i < off
    · rw [store_before _ _ h0, store_before _ _ h0]
    · unfold store
      rw [if_neg h0, if_neg h0, List.getElem?_append_left (by omega)]
  · unfold store
    rw [if_neg (by omega), if_neg h1, if_neg (by omega), List.getElem?_append_right (by omega),
      Nat.sub_sub]
    rw [List.getElem?_eq_none (l := l) (by omega), Option.getD_none]

/-- A range apart from the cells that were stored. -/
theorem slice_store_apart (m : Mem α) {off a n : Nat} {l : List α}
    (h : a + n ≤ off ∨ off + l.length ≤ a) : (m.store off l).slice a n = m.slice a n :=
  List.map_congr_left fun i hi => store_outside m fun hin => by
    have hlt := List.mem_range.mp hi
    omega

end Mem

/-! ## Splicing -/

/-- A list whose cells from the `i`-th one on are those of `p`, as many as `p` has. -/
def splice (l : List α) (i : Nat) (p : List α) : List α := l.take i ++ (p ++ l.drop (i + p.length))

theorem splice_whole {l p : List α} (h : p.length = l.length) : splice l 0 p = p := by
  rw [splice, List.take_zero, List.nil_append, Nat.zero_add, h, List.drop_length, List.append_nil]

namespace Mem

/-- **A range in which cells were stored.** -/
theorem slice_store_within (m : Mem α) (a : Nat) {n i : Nat} {l : List α} (h : i + l.length ≤ n) :
    (m.store (a + i) l).slice a n = splice (m.slice a n) i l := by
  obtain ⟨r, rfl⟩ : ∃ r, n = i + (l.length + r) := ⟨n - (i + l.length), by omega⟩
  rw [slice_append, slice_append, slice_store, slice_store_apart m (.inl (Nat.le_refl _)),
    slice_store_apart m (.inr (Nat.le_refl _)), splice, slice_take m a _ i (by omega),
    slice_drop m a _ _ (by omega), Nat.add_assoc a]
  congr 4
  omega

/-- **A range, read from where a list was stored on.** -/
theorem slice_store_take (m : Mem α) (off n : Nat) (l : List α) :
    (m.store off l).slice off n = l.take n ++ (m.slice off n).drop l.length := by
  rcases Nat.le_total l.length n with hle | hle
  · have hfits : 0 + l.length ≤ n := by rwa [Nat.zero_add]
    have hwithin := slice_store_within m off hfits
    rw [Nat.add_zero] at hwithin
    rw [hwithin, splice, List.take_zero, List.nil_append, Nat.zero_add, List.take_of_length_le hle]
  · have hsplit := store_append m off (l.take n) (l.drop n)
    have hlen : (l.take n).length = n := List.length_take_of_le hle
    have hread := slice_store m off (l.take n)
    rw [List.take_append_drop] at hsplit
    rw [hlen] at hread
    rw [hsplit, slice_store_apart _ (.inl (by omega)), hread,
      List.drop_eq_nil_of_le (by rwa [length_slice]), List.append_nil]

/-- The memory a list is laid out in; `x` stands in the cells behind it. -/
def ofList (x : α) (l : List α) : Mem α := fun i => l.getD i x

@[simp] theorem slice_ofList (x : α) (l : List α) : (ofList x l).slice 0 l.length = l := by
  apply List.ext_getElem (length_slice _ _ _)
  intro i h1 h2
  simp [slice, ofList, h2]

end Mem

end Base
