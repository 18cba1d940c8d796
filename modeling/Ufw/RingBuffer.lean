/-
  File:      Ufw/RingBuffer.lean
  Subject:   RING BUFFERS (ring-buffer.h), for elements of any type that has a 0.

  * `RingBuffer` -- memory with two indices: the head is where the next element is put, the tail is
    where the oldest one is. A tail behind the memory means that there is none, a tail at the head
    that there is no room;
  * `BoundedQueue` -- what a ring buffer is for: a list that has no more than so many elements;
  * `RingBuffer.Shows` -- the list a ring buffer stands for;
  * `ringCall_simulates`, `ringBuffer_isBoundedQueue` -- **a ring buffer is a bounded queue**, under
    any calls.
-/
import Ufw.Base.Calls
import Ufw.Base.Memory
import Ufw.Host

namespace Ufw

open Base

variable {α : Type}

/-! ## 1. The code -/

/-- `RING_BUFFER_TYPE__` -/
structure RingBuffer (α : Type) where
  data : Mem α
  head : Nat
  tail : Nat
  datasize : Nat
  overrideIfFull : Bool

namespace RingBuffer

/-- `RING_BUFFER_INIT__` -/
def init [Zero α] (buf : Mem α) (size : Nat) : RingBuffer α :=
  { data := buf.fill 0 0 size, head := 0, tail := size, datasize := size, overrideIfFull := false }

/-- `STATIC_RING_BUFFER_ADVANCE_HEAD__` -/
def advanceHead (c : RingBuffer α) : RingBuffer α :=
  { c with head := sizeAdd c.head 1 % c.datasize }

/-- `STATIC_RING_BUFFER_ADVANCE_TAIL__` -/
def advanceTail (c : RingBuffer α) : RingBuffer α :=
  let tail := sizeAdd c.tail 1 % c.datasize
  { c with tail := if tail = c.head then c.datasize else tail }

/-- `RING_BUFFER_EMPTY__` -/
def empty (c : RingBuffer α) : Bool := c.tail == c.datasize

/-- `RING_BUFFER_FULL__` -/
def full (c : RingBuffer α) : Bool := c.head == c.tail

/-- `RING_BUFFER_SIZE__` -/
def size (c : RingBuffer α) : Nat :=
  if c.empty then 0
  else if c.tail < c.head then sizeSub c.head c.tail
  else sizeAdd (sizeSub c.datasize c.tail) c.head

/-- `RING_BUFFER_CLEAR__` -/
def clear (c : RingBuffer α) : RingBuffer α := { c with tail := c.datasize }

/-- `RING_BUFFER_OVERRIDE__` -/
def setOverrideIfFull (c : RingBuffer α) (state : Bool) : RingBuffer α :=
  { c with overrideIfFull := state }

/-- `RING_BUFFER_GET__` -/
def get [Zero α] (c : RingBuffer α) : α × RingBuffer α :=
  if c.empty then (0, c) else (c.data c.tail, c.advanceTail)

/-- The part of `RING_BUFFER_PUT__` that finds room. -/
def putItem (c : RingBuffer α) (item : α) : RingBuffer α :=
  let c := if c.empty then { c with tail := c.head } else c
  { c with data := c.data.store c.head [item] }.advanceHead

/-- `RING_BUFFER_PUT__` -/
def put (c : RingBuffer α) (item : α) : RingBuffer α :=
  if c.full then
    if c.overrideIfFull then c.advanceTail.putItem item else c
  else c.putItem item

end RingBuffer

/-- A call of a ring buffer. -/
inductive RingOp (α : Type) where
  | put (item : α)
  | get
  | clear
  | overrideIfFull (state : Bool)

/-- Make a call; `get` is the only one that answers with an element. -/
def ringCall [Zero α] (c : RingBuffer α) : RingOp α → Option α × RingBuffer α
  | .put item => (none, c.put item)
  | .get => (some c.get.1, c.get.2)
  | .clear => (none, c.clear)
  | .overrideIfFull state => (none, c.setOverrideIfFull state)

/-! ## 2. What it is for -/

/-- A list that has no more than `capacity` elements, the oldest one first. -/
structure BoundedQueue (α : Type) (capacity : Nat) where
  items : List α
  length_le : items.length ≤ capacity
  overrides : Bool

namespace BoundedQueue

variable {capacity : Nat}

/-- The list without its oldest element. -/
def drop (q : BoundedQueue α capacity) : BoundedQueue α capacity where
  items := q.items.tail
  length_le := le_trans (by rw [List.length_tail]; exact Nat.sub_le _ _) q.length_le
  overrides := q.overrides

/-- An element behind all others, if there is room. -/
def append (q : BoundedQueue α capacity) (item : α) : BoundedQueue α capacity :=
  if h : q.items.length < capacity then
    { items := q.items ++ [item]
      length_le := by rw [List.length_append]; exact h
      overrides := q.overrides }
  else q

/-- Without room, the oldest element is dropped, or the new one is. -/
def put (q : BoundedQueue α capacity) (item : α) : BoundedQueue α capacity :=
  if q.items.length < capacity then q.append item
  else if q.overrides then q.drop.append item
  else q

/-- The queue under the calls of a ring buffer. -/
def call [Zero α] (q : BoundedQueue α capacity) :
    RingOp α → Option α × BoundedQueue α capacity
  | .put item => (none, q.put item)
  | .get => (some (q.items.head?.getD 0), q.drop)
  | .clear => (none, { q with items := [], length_le := Nat.zero_le _ })
  | .overrideIfFull state => (none, { q with overrides := state })

/-- The queue a fresh ring buffer is. -/
def fresh : BoundedQueue α capacity := ⟨[], Nat.zero_le _, false⟩

end BoundedQueue

/-! ## 3. The list a ring buffer stands for -/

/-- The index `k` cells behind `i`, in a ring of `n` cells. -/
def ringIndex (n i k : Nat) : Nat := if i + k < n then i + k else i + k - n

theorem ringIndex_succ_mod {n i : Nat} (hi : i < n) (hn : n < 2 ^ 64) :
    sizeAdd i 1 % n = ringIndex n i 1 := by
  rw [sizeAdd_eq (by omega), ringIndex]
  split
  · exact Nat.mod_eq_of_lt ‹_›
  · have hend : i + 1 = n := by omega
    rw [hend, Nat.mod_self, Nat.sub_self]

theorem ringIndex_lt {n i k : Nat} (hi : i < n) (hk : k ≤ n) : ringIndex n i k < n := by
  unfold ringIndex
  split <;> omega

theorem ringIndex_step {n i k : Nat} (hi : i < n) (hk : k < n) :
    ringIndex n (ringIndex n i 1) k = ringIndex n i (k + 1) := by
  unfold ringIndex
  split <;> split <;> split <;> omega

theorem ringIndex_eq_self {n i k : Nat} (hi : i < n) (hk : k ≤ n) :
    ringIndex n i k = i ↔ k = 0 ∨ k = n := by
  unfold ringIndex
  split <;> omega

/-- **The list a ring buffer stands for**: it lies between the tail and the head. -/
structure RingBuffer.Shows (c : RingBuffer α) (l : List α) : Prop where
  head_lt : c.head < c.datasize
  datasize_lt : c.datasize < 2 ^ 64
  length_le : l.length ≤ c.datasize
  tail_of_nil : l = [] → c.tail = c.datasize
  tail_lt : l ≠ [] → c.tail < c.datasize
  head_eq : l ≠ [] → c.head = ringIndex c.datasize c.tail l.length
  cell : ∀ i (h : i < l.length), c.data (ringIndex c.datasize c.tail i) = l[i]

namespace RingBuffer

variable {c : RingBuffer α} {l : List α}

theorem Shows.tail_le (h : c.Shows l) : c.tail ≤ c.datasize := by
  by_cases hl : l = []
  · exact le_of_eq (h.tail_of_nil hl)
  · exact le_of_lt (h.tail_lt hl)

theorem Shows.empty_iff (h : c.Shows l) : c.empty = true ↔ l = [] := by
  rw [empty, beq_iff_eq]
  constructor
  · intro htail
    by_contra hl
    exact absurd htail (ne_of_lt (h.tail_lt hl))
  · exact h.tail_of_nil

theorem Shows.full_iff (h : c.Shows l) : c.full = true ↔ l.length = c.datasize := by
  have hhead := h.head_lt
  rw [full, beq_iff_eq]
  by_cases hl : l = []
  · rw [h.tail_of_nil hl, hl, List.length_nil]
    omega
  · have hpos : 0 < l.length := List.length_pos_iff.mpr hl
    rw [h.head_eq hl, ringIndex_eq_self (h.tail_lt hl) h.length_le]
    omega

theorem Shows.size_eq (h : c.Shows l) : c.size = l.length := by
  have hhead := h.head_lt
  have hsize := h.datasize_lt
  have hlen := h.length_le
  unfold size
  by_cases hl : l = []
  · rw [if_pos (h.empty_iff.mpr hl), hl, List.length_nil]
  · have hpos : 0 < l.length := List.length_pos_iff.mpr hl
    have htail := h.tail_lt hl
    have heq := h.head_eq hl
    rw [if_neg fun he => hl (h.empty_iff.mp he)]
    unfold ringIndex at heq
    split
    · rw [sizeSub_eq (by omega) (by omega)]
      split at heq <;> omega
    · rw [sizeSub_eq (by omega) hsize, sizeAdd_eq (by split at heq <;> omega)]
      split at heq <;> omega

theorem shows_init [Zero α] (buf : Mem α) {size : Nat} (h1 : 1 ≤ size) (h2 : size < 2 ^ 64) :
    (init buf size).Shows [] where
  head_lt := h1
  datasize_lt := h2
  length_le := Nat.zero_le _
  tail_of_nil _ := rfl
  tail_lt h := absurd rfl h
  head_eq h := absurd rfl h
  cell _ h := nomatch h

theorem Shows.clear (h : c.Shows l) : c.clear.Shows [] where
  head_lt := h.head_lt
  datasize_lt := h.datasize_lt
  length_le := Nat.zero_le _
  tail_of_nil _ := rfl
  tail_lt h := absurd rfl h
  head_eq h := absurd rfl h
  cell _ h := nomatch h

theorem Shows.setOverrideIfFull (h : c.Shows l) (state : Bool) :
    (c.setOverrideIfFull state).Shows l :=
  ⟨h.head_lt, h.datasize_lt, h.length_le, h.tail_of_nil, h.tail_lt, h.head_eq, h.cell⟩

/-- **The oldest element leaves**; behind the last one, the tail does not meet the head. -/
theorem Shows.advanceTail {x : α} (h : c.Shows (x :: l)) : c.advanceTail.Shows l := by
  have hne : x :: l ≠ [] := List.cons_ne_nil x l
  have htail := h.tail_lt hne
  have hhead := h.head_eq hne
  have hlen : l.length + 1 ≤ c.datasize := h.length_le
  have hnext := ringIndex_succ_mod htail h.datasize_lt
  have hlt : ringIndex c.datasize c.tail 1 < c.datasize := ringIndex_lt htail (by omega)
  have hstep : ringIndex c.datasize (ringIndex c.datasize c.tail 1) l.length = c.head := by
    rw [ringIndex_step htail (by omega), hhead]
    rfl
  have hmeet : ringIndex c.datasize c.tail 1 = c.head ↔ l = [] := by
    rw [← hstep, eq_comm, ringIndex_eq_self hlt (by omega), ← List.length_eq_zero_iff]
    omega
  have heq : c.advanceTail =
      { c with tail := if l = [] then c.datasize else ringIndex c.datasize c.tail 1 } := by
    rw [RingBuffer.advanceTail, hnext, if_congr hmeet rfl rfl]
  rw [heq]
  refine ⟨h.head_lt, h.datasize_lt, by show l.length ≤ c.datasize; omega, fun hl => if_pos hl,
    fun hl => ?_, fun hl => ?_, fun i hi => ?_⟩
  · show (if l = [] then c.datasize else ringIndex c.datasize c.tail 1) < c.datasize
    rw [if_neg hl]
    exact hlt
  · show c.head = ringIndex c.datasize (if l = [] then _ else _) l.length
    rw [if_neg hl, hstep]
  · have hl : l ≠ [] := List.ne_nil_of_length_pos (by omega)
    show c.data (ringIndex c.datasize (if l = [] then _ else _) i) = l[i]
    rw [if_neg hl, ringIndex_step htail (by omega)]
    exact h.cell (i + 1) (Nat.succ_lt_succ hi)

theorem putItem_datasize (c : RingBuffer α) (item : α) :
    (c.putItem item).datasize = c.datasize := by
  unfold putItem
  dsimp only
  split <;> rfl

theorem putItem_overrideIfFull (c : RingBuffer α) (item : α) :
    (c.putItem item).overrideIfFull = c.overrideIfFull := by
  unfold putItem
  dsimp only
  split <;> rfl

/-- **A new element arrives** at the head, where there is room. -/
theorem Shows.putItem (h : c.Shows l) (hroom : l.length < c.datasize) (item : α) :
    (c.putItem item).Shows (l ++ [item]) := by
  -- in an empty ring the first element is put wherever the head is
  obtain ⟨tail, htail, hhead, hcell, heq⟩ : ∃ tail, tail < c.datasize ∧
      c.head = ringIndex c.datasize tail l.length ∧
      (∀ i (hi : i < l.length), c.data (ringIndex c.datasize tail i) = l[i]) ∧
      c.putItem item = { c with
        tail, data := c.data.store c.head [item], head := ringIndex c.datasize c.head 1 } := by
    have hnext := ringIndex_succ_mod h.head_lt h.datasize_lt
    by_cases hl : l = []
    · refine ⟨c.head, h.head_lt, ?_, fun i hi => ?_, ?_⟩
      · rw [hl, eq_comm, List.length_nil, ringIndex_eq_self h.head_lt (Nat.zero_le _)]
        exact .inl rfl
      · rw [hl] at hi
        exact absurd hi (Nat.not_lt_zero i)
      · simp only [RingBuffer.putItem, if_pos (h.empty_iff.mpr hl), RingBuffer.advanceHead, hnext]
    · refine ⟨c.tail, h.tail_lt hl, h.head_eq hl, h.cell, ?_⟩
      have hempty : ¬c.empty = true := fun he => hl (h.empty_iff.mp he)
      simp only [RingBuffer.putItem, if_neg hempty, RingBuffer.advanceHead, hnext]
  rw [heq]
  refine ⟨ringIndex_lt h.head_lt (by omega), h.datasize_lt, ?_, fun hnil => ?_, fun _ => htail,
    fun _ => ?_, fun i hi => ?_⟩
  · rw [List.length_append]
    exact hroom
  · exact absurd hnil (List.append_ne_nil_of_right_ne_nil l (List.cons_ne_nil item []))
  · show ringIndex c.datasize c.head 1 = ringIndex c.datasize tail (l ++ [item]).length
    rw [List.length_append, List.length_singleton, hhead]
    unfold ringIndex
    split <;> split <;> split <;> omega
  · show c.data.store c.head [item] (ringIndex c.datasize tail i) = (l ++ [item])[i]
    rw [List.length_append, List.length_singleton] at hi
    rcases Nat.lt_succ_iff_lt_or_eq.mp hi with hlt | rfl
    · -- the head is not one of the cells in use
      have hother : ringIndex c.datasize tail i ≠ c.head := by
        rw [hhead]
        unfold ringIndex
        split <;> split <;> omega
      rw [List.getElem_append_left hlt, Mem.store_outside, hcell i hlt]
      rw [List.length_singleton]
      omega
    · rw [← hhead, List.getElem_concat_length rfl]
      exact Mem.store_inside c.data c.head [item] 0 Nat.one_pos

end RingBuffer

/-! ## 4. The two under the same calls -/

/-- A ring buffer and the queue it is. -/
structure RingRefines {capacity : Nat} (c : RingBuffer α) (q : BoundedQueue α capacity) : Prop where
  shows_items : c.Shows q.items
  datasize_eq : c.datasize = capacity
  overrides_eq : c.overrideIfFull = q.overrides

section Simulation

variable {capacity : Nat} {c : RingBuffer α} {q : BoundedQueue α capacity}

theorem ringGet_refines [Zero α] (h : RingRefines c q) :
    c.get.1 = q.items.head?.getD 0 ∧ RingRefines c.get.2 q.drop := by
  obtain ⟨hshows, hsize, hover⟩ := h
  obtain ⟨items, length_le, overrides⟩ := q
  dsimp only at hshows hover
  unfold RingBuffer.get
  cases items with
  | nil =>
    rw [if_pos (hshows.empty_iff.mpr rfl)]
    exact ⟨rfl, hshows, hsize, hover⟩
  | cons x l =>
    rw [if_neg fun he => List.cons_ne_nil x l (hshows.empty_iff.mp he)]
    have htail := hshows.tail_lt (List.cons_ne_nil x l)
    have hcell := hshows.cell 0 (Nat.zero_lt_succ _)
    rw [(ringIndex_eq_self htail (Nat.zero_le _)).mpr (.inl rfl)] at hcell
    exact ⟨hcell, hshows.advanceTail, hsize, hover⟩

/-- An element is put where there is room. -/
theorem ringPutItem_refines (h : RingRefines c q) (hroom : q.items.length < capacity) (item : α) :
    RingRefines (c.putItem item) (q.append item) := by
  obtain ⟨hshows, hsize, hover⟩ := h
  refine ⟨?_, (c.putItem_datasize item).trans hsize, (c.putItem_overrideIfFull item).trans ?_⟩
  · rw [BoundedQueue.append, dif_pos hroom]
    exact hshows.putItem (hsize ▸ hroom) item
  · rw [hover, BoundedQueue.append, dif_pos hroom]

/-- The oldest element makes room. -/
theorem ringAdvanceTail_refines (h : RingRefines c q) (hne : q.items ≠ []) :
    RingRefines c.advanceTail q.drop := by
  obtain ⟨hshows, hsize, hover⟩ := h
  obtain ⟨items, length_le, overrides⟩ := q
  obtain ⟨x, l, rfl⟩ := List.exists_cons_of_ne_nil hne
  exact ⟨hshows.advanceTail, hsize, hover⟩

theorem ringPut_refines (h1 : 1 ≤ capacity) (h : RingRefines c q) (item : α) :
    RingRefines (c.put item) (q.put item) := by
  have hle := q.length_le
  have hfull : c.full = true ↔ q.items.length = capacity := by
    rw [h.shows_items.full_iff, h.datasize_eq]
  unfold RingBuffer.put BoundedQueue.put
  by_cases hroom : q.items.length < capacity
  · rw [if_pos hroom, if_neg fun hf => (ne_of_lt hroom) (hfull.mp hf)]
    exact ringPutItem_refines h hroom item
  · rw [if_neg hroom, if_pos (hfull.mpr (by omega)), h.overrides_eq]
    split
    · have hne : q.items ≠ [] := List.ne_nil_of_length_pos (by omega)
      have hlen : q.drop.items.length < capacity := by
        show q.items.tail.length < capacity
        rw [List.length_tail]
        omega
      exact ringPutItem_refines (ringAdvanceTail_refines h hne) hlen item
    · exact h

/-- **Every call of a ring buffer is that call of a bounded queue.** -/
theorem ringCall_simulates [Zero α] (h1 : 1 ≤ capacity) :
    Simulates (@RingRefines α capacity) ringCall BoundedQueue.call := by
  intro c q op h
  cases op with
  | put item => exact ⟨rfl, ringPut_refines h1 h item⟩
  | get =>
    obtain ⟨hitem, hnext⟩ := ringGet_refines h
    exact ⟨congrArg some hitem, hnext⟩
  | clear => exact ⟨rfl, h.shows_items.clear, h.datasize_eq, h.overrides_eq⟩
  | overrideIfFull state =>
    exact ⟨rfl, h.shows_items.setOverrideIfFull state, h.datasize_eq, rfl⟩

end Simulation

/-- **A ring buffer is a bounded queue**: whatever is called, it answers as the queue does, and its
    size, whether it is empty and whether it is full are those of the queue; its indices stay in
    range. -/
theorem ringBuffer_isBoundedQueue [Zero α] (buf : Mem α) (capacity : Nat) (h1 : 1 ≤ capacity)
    (h2 : capacity < 2 ^ 64) (ops : List (RingOp α)) :
    let c := after ringCall (RingBuffer.init buf capacity) ops
    let q := after BoundedQueue.call (BoundedQueue.fresh : BoundedQueue α capacity) ops
    answers ringCall (RingBuffer.init buf capacity) ops =
        answers BoundedQueue.call (BoundedQueue.fresh : BoundedQueue α capacity) ops ∧
      c.size = q.items.length ∧ (c.empty = true ↔ q.items.length = 0) ∧
      (c.full = true ↔ q.items.length = capacity) ∧ c.head < capacity ∧ c.tail ≤ capacity := by
  have hinit : RingRefines (RingBuffer.init buf capacity)
      (BoundedQueue.fresh : BoundedQueue α capacity) :=
    ⟨RingBuffer.shows_init buf h1 h2, rfl, rfl⟩
  obtain ⟨hanswers, hshows, hsize, -⟩ := (ringCall_simulates h1).run hinit ops
  refine ⟨hanswers, hshows.size_eq, ?_, ?_, ?_, ?_⟩
  · rw [hshows.empty_iff, List.length_eq_zero_iff]
  · rw [hshows.full_iff, hsize]
  · exact lt_of_lt_of_eq hshows.head_lt hsize
  · exact le_of_le_of_eq hshows.tail_le hsize

/-- A ring of one cell: the second element drives the first one out. -/
theorem ringBuffer_isBoundedQueue_sample :
    answers ringCall (RingBuffer.init (fun _ => 0) 1)
      [.overrideIfFull true, .put 1, .put 2, .get, (.get : RingOp Nat)] =
        [none, none, none, some 2, some 0] :=
  (ringBuffer_isBoundedQueue _ 1 (by decide) (by decide) _).1

end Ufw
