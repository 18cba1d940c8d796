/-
  File:      Ufw/Base/Reads.lean
  Subject:   COMPUTATIONS THAT READ MEMORY. Beside its value, a computation carries the indices it
             read, so that a bound on what it reads can be stated.

  * `Reads` -- the monad; `Reads.slice`, `Reads.cell` -- reading a range of memory, and one cell;
  * `Reads.Within n` -- **every index read is below `n`**, with one rule for each constructor.

  Nothing here names a particular program.
-/
import Ufw.Base.Memory

namespace Base

variable {α β : Type}

/-- A value, and the indices read on the way to it. -/
structure Reads (α : Type) where
  val : α
  log : List Nat

namespace Reads

instance : Monad Reads where
  pure a := ⟨a, []⟩
  bind x f := ⟨(f x.val).val, x.log ++ (f x.val).log⟩

@[simp] theorem val_pure (a : α) : (pure a : Reads α).val = a := rfl

@[simp] theorem log_pure (a : α) : (pure a : Reads α).log = [] := rfl

@[simp] theorem val_bind (x : Reads α) (f : α → Reads β) : (x >>= f).val = (f x.val).val := rfl

@[simp] theorem log_bind (x : Reads α) (f : α → Reads β) :
    (x >>= f).log = x.log ++ (f x.val).log := rfl

@[simp] theorem val_map (f : α → β) (x : Reads α) : (f <$> x).val = f x.val := rfl

@[simp] theorem log_map (f : α → β) (x : Reads α) : (f <$> x).log = x.log :=
  List.append_nil x.log

/-- Read the `n` cells from `off` on. -/
def slice (m : Mem α) (off n : Nat) : Reads (List α) := ⟨m.slice off n, List.range' off n⟩

@[simp] theorem val_slice (m : Mem α) (off n : Nat) : (slice m off n).val = m.slice off n := rfl

@[simp] theorem log_slice (m : Mem α) (off n : Nat) :
    (slice m off n).log = List.range' off n := rfl

/-- Read one cell. -/
def cell (m : Mem α) (i : Nat) : Reads α := ⟨m i, [i]⟩

@[simp] theorem val_cell (m : Mem α) (i : Nat) : (cell m i).val = m i := rfl

/-- What holds of every way to go on holds of the result. -/
theorem val_bind_of {P : β → Prop} {x : Reads α} {f : α → Reads β} (hf : ∀ a, P (f a).val) :
    P (x >>= f).val := hf x.val

theorem val_ite_of {P : α → Prop} {c : Prop} [Decidable c] {x y : Reads α} (hx : P x.val)
    (hy : P y.val) : P (if c then x else y).val := by
  split
  · exact hx
  · exact hy

/-- The same where there are two ways to a value, and one to go on. -/
theorem val_ite_bind_of {P : β → Prop} {c : Prop} [Decidable c] {x y : Reads α} {f : α → Reads β}
    (hf : ∀ a, P (f a).val) : P (if c then x >>= f else y >>= f).val :=
  val_ite_of (val_bind_of hf) (val_bind_of hf)

/-! ## Bounds -/

/-- **Every index read is below `n`.** -/
def Within (n : Nat) (x : Reads α) : Prop := ∀ i ∈ x.log, i < n

instance (n : Nat) (x : Reads α) : Decidable (x.Within n) :=
  inferInstanceAs (Decidable (∀ i ∈ x.log, i < n))

theorem within_pure (n : Nat) (a : α) : (pure a : Reads α).Within n := fun _ hi => nomatch hi

theorem within_bind {n : Nat} {x : Reads α} {f : α → Reads β} (hx : x.Within n)
    (hf : (f x.val).Within n) : (x >>= f).Within n := by
  intro i hi
  rcases List.mem_append.mp hi with h | h
  · exact hx i h
  · exact hf i h

theorem within_bind_iff {n : Nat} {x : Reads α} {f : α → Reads β} :
    (x >>= f).Within n ↔ x.Within n ∧ (f x.val).Within n :=
  ⟨fun h => ⟨fun i hi => h i (List.mem_append_left _ hi),
    fun i hi => h i (List.mem_append_right _ hi)⟩, fun h => within_bind h.1 h.2⟩

theorem within_map_iff {n : Nat} {f : α → β} {x : Reads α} :
    (f <$> x).Within n ↔ x.Within n := by
  unfold Within
  rw [log_map]

theorem within_map {n : Nat} {f : α → β} {x : Reads α} (hx : x.Within n) :
    (f <$> x).Within n := within_map_iff.mpr hx

theorem within_ite {n : Nat} {c : Prop} [Decidable c] {x y : Reads α}
    (hx : c → x.Within n) (hy : ¬c → y.Within n) : (if c then x else y).Within n := by
  split
  · exact hx ‹c›
  · exact hy ‹¬c›

theorem within_cell_iff {m : Mem α} {i n : Nat} : (cell m i).Within n ↔ i < n :=
  ⟨fun h => h i List.mem_cons_self, fun h _ hj => List.mem_singleton.mp hj ▸ h⟩

theorem within_slice {m : Mem α} {off k n : Nat} (h : off + k ≤ n) : (slice m off k).Within n := by
  intro i hi
  have h' := (List.mem_range'_1.mp hi).2
  omega

/-- A range that is not empty reads within the bound if, and only if, it ends there. -/
theorem within_slice_iff {m : Mem α} {off k n : Nat} (hk : 0 < k) :
    (slice m off k).Within n ↔ off + k ≤ n := by
  refine ⟨fun h => ?_, within_slice⟩
  have hlast := h (off + (k - 1)) (List.mem_range'_1.mpr ⟨by omega, by omega⟩)
  omega

end Reads

end Base
