/-
  File:      Ufw/Base/FlatMemory.lean
  Subject:   FLAT MEMORIES WITH FIELDS. A word at every address that is mapped; some windows of the
             memory are fields, which are read as values and hold admitted values only.

  * `Field` -- a window and how it is read, with what a block does to it;
  * `FieldMap.refusal` -- **why a block is refused**: the lowest address of it that is not mapped,
    or the first field that would hold a value that is not admitted;
  * `FieldMap.write`, `FieldMap.read` -- all of a block or nothing;
  * `FieldMap.Sane.write` -- **a field that holds an admitted value goes on to hold one**;
  * `FieldMap.refusal_own` -- the block of a field is refused where its value is not admitted;
  * `replay`, `lastWritten` -- **a memory after some blocks holds what was written last.**

  Nothing here names a particular program.
-/
import Mathlib.Data.List.Induction
import Mathlib.Data.Nat.Find
import Ufw.Base.Memory
import Ufw.Base.MemoryMap

namespace Base

variable {α β : Type}

/-! ## 1. Fields -/

/-- A window of a memory, and the value of the words in it. -/
structure Field (α β : Type) where
  address : Nat
  size : Nat
  decode : List α → β

namespace Field

variable (f : Field α β)

/-- The value of a field. -/
def value (m : Mem α) : β := f.decode (m.slice f.address f.size)

/-- Address `x` is one of the field. -/
def Holds (x : Nat) : Prop := f.address ≤ x ∧ x < f.address + f.size

/-- The field and a block have an address in common. -/
def Meets (lo n : Nat) : Prop := ∃ x, lo ≤ x ∧ x < lo + n ∧ f.Holds x

variable {f}

theorem not_meets_zero (lo : Nat) : ¬f.Meets lo 0 := by
  rintro ⟨x, h1, h2, -⟩
  omega

/-- A block elsewhere leaves a field alone. -/
theorem value_store_apart {lo : Nat} {l : List α} (h : ¬f.Meets lo l.length) (m : Mem α) :
    f.value (m.store lo l) = f.value m := by
  refine congrArg f.decode (List.map_congr_left fun i hi => Mem.store_outside m fun hin => ?_)
  have hlt := List.mem_range.mp hi
  exact h ⟨f.address + i, hin.1, hin.2, Nat.le_add_right _ _, by omega⟩

/-- A field holds the block that was written to it. -/
theorem value_store_own {l : List α} (hl : l.length = f.size) (m : Mem α) :
    f.value (m.store f.address l) = f.decode l := by
  unfold value
  rw [← hl, Mem.slice_store]

end Field

/-! ## 2. Blocks -/

/-- The mapped addresses of a memory, its fields, and what they may hold. -/
structure FieldMap (α β : Type) where
  mapped : Nat → Prop
  count : Nat
  field : Nat → Field α β
  admits : Nat → β → Prop

/-- Why a block is refused: an address, or a field. -/
inductive Refusal where
  | hole (x : Nat)
  | field (i : Nat)
  deriving DecidableEq

namespace FieldMap

variable (M : FieldMap α β)

/-- Every address of a block is mapped. -/
def AllMapped (lo n : Nat) : Prop := ∀ x, lo ≤ x → x < lo + n → M.mapped x

/-- Field `i` is met by the block `l` and would hold a value that is not admitted. -/
def Spoils (m : Mem α) (lo : Nat) (l : List α) (i : Nat) : Prop :=
  i < M.count ∧ (M.field i).Meets lo l.length ∧ ¬M.admits i ((M.field i).value (m.store lo l))

open Classical in
/-- **Why a block is refused**, if it is. -/
noncomputable def refusal (m : Mem α) (lo : Nat) (l : List α) : Option Refusal :=
  if hole : ∃ x, lo ≤ x ∧ x < lo + l.length ∧ ¬M.mapped x then some (.hole (Nat.find hole))
  else if spoiled : ∃ i, M.Spoils m lo l i then some (.field (Nat.find spoiled))
  else none

/-- A block is written, or it is refused and nothing changes. -/
noncomputable def write (m : Mem α) (lo : Nat) (l : List α) : Option Refusal × Mem α :=
  match M.refusal m lo l with
  | none => (none, m.store lo l)
  | some r => (some r, m)

open Classical in
/-- A block is read, or the lowest address that is not mapped is named. -/
noncomputable def read (m : Mem α) (lo n : Nat) : Except Nat (List α) :=
  if hole : ∃ x, lo ≤ x ∧ x < lo + n ∧ ¬M.mapped x then .error (Nat.find hole)
  else .ok (m.slice lo n)

/-- Field `i` holds an admitted value. -/
def Sane (m : Mem α) (i : Nat) : Prop := M.admits i ((M.field i).value m)

/-- The fields are mapped, and they have no address in common. -/
structure Separate : Prop where
  mapped : ∀ i, i < M.count → ∀ x, (M.field i).Holds x → M.mapped x
  apart : ∀ i j x, i < M.count → j < M.count → (M.field i).Holds x → (M.field j).Holds x → i = j

variable {M} {m : Mem α} {lo n : Nat} {l : List α}

theorem allMapped_iff : M.AllMapped lo n ↔ ¬∃ x, lo ≤ x ∧ x < lo + n ∧ ¬M.mapped x := by
  simp only [AllMapped, not_exists, not_and, not_not]

/-- What the lowest address that is not mapped is. -/
theorem find_hole [DecidablePred fun x => lo ≤ x ∧ x < lo + n ∧ ¬M.mapped x] {x : Nat}
    (h : LowestIn lo n (fun x => ¬M.mapped x) x)
    (hole : ∃ x, lo ≤ x ∧ x < lo + n ∧ ¬M.mapped x) : Nat.find hole = x :=
  (Nat.find_eq_iff hole).mpr ⟨h.1, fun _ hlt hy => Nat.not_lt_of_le (h.2 hy) hlt⟩

/-- A block with a hole is refused for the lowest one. -/
theorem refusal_hole {x : Nat} (h : LowestIn lo l.length (fun x => ¬M.mapped x) x) :
    M.refusal m lo l = some (.hole x) := by
  classical
  unfold refusal
  rw [dif_pos ⟨x, h.1⟩, find_hole h]

/-- A block without a hole is refused for the first field it spoils. -/
theorem refusal_field (hall : M.AllMapped lo l.length) {i : Nat} (hi : M.Spoils m lo l i)
    (hfirst : ∀ j, j < i → ¬M.Spoils m lo l j) : M.refusal m lo l = some (.field i) := by
  classical
  unfold refusal
  rw [dif_neg (allMapped_iff.mp hall), dif_pos ⟨i, hi⟩, (Nat.find_eq_iff _).mpr ⟨hi, hfirst⟩]

theorem refusal_eq_none_iff :
    M.refusal m lo l = none ↔ M.AllMapped lo l.length ∧ ∀ i, ¬M.Spoils m lo l i := by
  unfold refusal
  rw [allMapped_iff]
  split
  · rename_i hole
    exact iff_of_false (Option.some_ne_none _) fun h => h.1 hole
  · rename_i hole
    split
    · rename_i spoiled
      exact iff_of_false (Option.some_ne_none _) fun h => spoiled.elim h.2
    · rename_i spoiled
      exact iff_of_true rfl ⟨hole, not_exists.mp spoiled⟩

theorem spoils_of_refusal {i : Nat} (h : M.refusal m lo l = some (.field i)) :
    M.Spoils m lo l i := by
  classical
  unfold refusal at h
  split at h
  · cases h
  · split at h
    · rename_i spoiled
      cases h
      exact Nat.find_spec spoiled
    · cases h

theorem write_none (h : M.refusal m lo l = none) : M.write m lo l = (none, m.store lo l) := by
  unfold write
  rw [h]

theorem write_some {r : Refusal} (h : M.refusal m lo l = some r) :
    M.write m lo l = (some r, m) := by
  unfold write
  rw [h]

theorem read_hole {x : Nat} (h : LowestIn lo n (fun x => ¬M.mapped x) x) :
    M.read m lo n = .error x := by
  classical
  unfold read
  rw [dif_pos ⟨x, h.1⟩, find_hole h]

theorem read_mapped (h : M.AllMapped lo n) : M.read m lo n = .ok (m.slice lo n) :=
  dif_neg (allMapped_iff.mp h)

theorem length_read (h : M.read m lo n = .ok l) : l.length = n := by
  unfold read at h
  split at h
  · cases h
  · cases h
    exact Mem.length_slice m lo n

/-- **A field that holds an admitted value holds one after any write.** -/
theorem Sane.write {i : Nat} (hm : M.Sane m i) (hi : i < M.count) (lo : Nat) (l : List α) :
    M.Sane (M.write m lo l).2 i := by
  cases hr : M.refusal m lo l with
  | some r =>
    rw [write_some hr]
    exact hm
  | none =>
    rw [write_none hr]
    by_cases hmeets : (M.field i).Meets lo l.length
    · by_contra hno
      exact (refusal_eq_none_iff.mp hr).2 i ⟨hi, hmeets, hno⟩
    · show M.admits i ((M.field i).value (m.store lo l))
      rw [Field.value_store_apart hmeets]
      exact hm

/-- **The block of a field is refused exactly where its value is not admitted.** -/
theorem Separate.refusal_own (hs : M.Separate) {i : Nat} (hi : i < M.count)
    (hl : l.length = (M.field i).size) (hpos : 0 < l.length) (m : Mem α) :
    M.refusal m (M.field i).address l = none ↔ M.admits i ((M.field i).decode l) := by
  have hown : (M.field i).Meets (M.field i).address l.length :=
    ⟨(M.field i).address, Nat.le_refl _, by omega, Nat.le_refl _, by omega⟩
  rw [refusal_eq_none_iff]
  constructor
  · rintro ⟨-, hall⟩
    have hadm := hall i
    simp only [Spoils, hi, hown, true_and, not_not, Field.value_store_own hl] at hadm
    exact hadm
  · intro hadm
    refine ⟨fun x h1 h2 => hs.mapped i hi x ⟨h1, by omega⟩, ?_⟩
    rintro j ⟨hj, ⟨x, h1, h2, hx⟩, hno⟩
    obtain rfl := hs.apart i j x hi hj ⟨h1, by omega⟩ hx
    rw [Field.value_store_own hl] at hno
    exact hno hadm

end FieldMap

/-! ## 3. Blocks one after the other -/

/-- A memory after some blocks. -/
def replay (m : Mem α) (blocks : List (Nat × List α)) : Mem α :=
  blocks.foldl (fun m b => m.store b.1 b.2) m

/-- The word a block has for an address. -/
def wordAt (b : Nat × List α) (x : Nat) : Option α := if b.1 ≤ x then b.2[x - b.1]? else none

/-- The word written last to an address, if one was. -/
def lastWritten (blocks : List (Nat × List α)) (x : Nat) : Option α :=
  blocks.reverse.findSome? fun b => wordAt b x

theorem store_apply (m : Mem α) (b : Nat × List α) (x : Nat) :
    m.store b.1 b.2 x = (wordAt b x).getD (m x) := by
  unfold Mem.store wordAt
  by_cases h : x < b.1
  · rw [if_pos h, if_neg (Nat.not_le_of_lt h), Option.getD_none]
  · rw [if_neg h, if_pos (Nat.le_of_not_lt h)]

theorem replay_append (m : Mem α) (blocks more : List (Nat × List α)) :
    replay m (blocks ++ more) = replay (replay m blocks) more := List.foldl_append

/-- **A memory holds what was written last**, and where nothing was written what it held. -/
theorem replay_apply (m : Mem α) (blocks : List (Nat × List α)) (x : Nat) :
    replay m blocks x = (lastWritten blocks x).getD (m x) := by
  induction blocks using List.reverseRecOn with
  | nil => rfl
  | append_singleton blocks b ih =>
    have hlast : lastWritten (blocks ++ [b]) x = (wordAt b x).or (lastWritten blocks x) := by
      unfold lastWritten
      rw [List.reverse_append, List.reverse_singleton, List.singleton_append, List.findSome?_cons]
      cases wordAt b x <;> rfl
    rw [replay_append, hlast]
    show (replay m blocks).store b.1 b.2 x = _
    rw [store_apply, ih]
    cases wordAt b x <;> rfl

end Base
