/-
  File:      Ufw/ByteBuffer/Operations.lean
  Subject:   BYTE BUFFERS over runs of operations with arbitrary arguments.

  * `byteBufferSet` … `byteBufferFillCb` -- the operations `Ufw/ByteBuffer.lean` leaves out;
  * `ByteBufferOp`, `ByteBufferOp.run`, `ByteBufferOp.accesses` -- an operation with its arguments,
    what it makes of a buffer, and the memory it reads or writes, with `ByteBufferOp.run_frame`;
  * `ByteBufferOp.Proper` -- the arguments an operation can cope with;
  * `keepsOrder_iff` -- **a run keeps the marks in order and inside the memory exactly where its
    arguments are proper and no buffer is read to its very end**: `byte_buffer_add` adds in `size_t`
    before it compares, `byte_buffer_fill_cb` does not look at its offset, and `byte_buffer_setpos`
    neither compares the two marks it is given nor accepts a read mark at the end of the memory.
-/
import Ufw.ByteBuffer

namespace Ufw

open Base

/-! ## 1. The code -/

/-- `byte_buffer_set` -/
def byteBufferSet (b : ByteBuffer) (data : Option Block) (size used offset : Nat) :
    Rc × ByteBuffer :=
  if data.isNone ∨ size = 0 ∨ size < used ∨ used < offset then (.error .einval, b)
  else (.ok 0, { data, size, used, offset })

/-- `byte_buffer_use` -/
def byteBufferUse (b : ByteBuffer) (data : Option Block) (size : Nat) : Rc × ByteBuffer :=
  byteBufferSet b data size size 0

/-- `byte_buffer_space` -/
def byteBufferSpace (b : ByteBuffer) (data : Option Block) (size : Nat) : Rc × ByteBuffer :=
  byteBufferSet b data size 0 0

/-- `ByteBufferPos` -/
structure ByteBufferPos where
  used : Nat
  offset : Nat

/-- `byte_buffer_getpos` -/
def byteBufferGetpos (b : ByteBuffer) : ByteBufferPos := { used := b.used, offset := b.offset }

/-- `byte_buffer_setpos` -/
def byteBufferSetpos (b : ByteBuffer) (pos : ByteBufferPos) : Rc × ByteBuffer :=
  if b.size ≤ pos.offset ∨ b.size < pos.used then (.error .einval, b)
  else (.ok 0, { b with offset := pos.offset, used := pos.used })

/-- `byte_buffer_markread` -/
def byteBufferMarkread (b : ByteBuffer) (size : Nat) : Rc × ByteBuffer :=
  if byteBufferRest b < size then (.error .enomem, b)
  else (.ok 0, { b with offset := sizeAdd b.offset size })

/-- `byte_buffer_consume` -/
def byteBufferConsume (b : ByteBuffer) (size : Nat) : Except Errno (List Octet) × ByteBuffer :=
  if byteBufferRest b < size then (.error .enodata, b)
  else (.ok (b.octets.slice b.offset size), { b with offset := sizeAdd b.offset size })

/-- The memory of a buffer, changed. -/
def ByteBuffer.mapMemory (b : ByteBuffer) (f : Mem Octet → Mem Octet) : ByteBuffer :=
  { b with data := b.data.map fun block => { block with octets := f block.octets } }

/-- `byte_buffer_clear` -/
def byteBufferClear (b : ByteBuffer) : ByteBuffer :=
  { b.mapMemory (·.fill 0 0 b.size) with used := 0, offset := 0 }

/-- `byte_buffer_repeat` -/
def byteBufferRepeat (b : ByteBuffer) : ByteBuffer := { b with offset := 0 }

/-- `byte_buffer_fill` -/
def byteBufferFill (b : ByteBuffer) (datum : Octet) : ByteBuffer :=
  { b.mapMemory (·.fill 0 datum b.size) with used := b.size }

/-- The loop of `byte_buffer_fillx`: `left` octets to go. The increment is a `signed char`. -/
def fillxLoop (increment : Octet) : Nat → Nat → Octet → Mem Octet → Mem Octet
  | 0, _, _, data => data
  | left + 1, i, datum, data =>
    fillxLoop increment left (i + 1) (datum + increment) (data.store i [datum])

/-- `byte_buffer_fillx` -/
def byteBufferFillx (b : ByteBuffer) (init increment : Octet) : ByteBuffer :=
  { b.mapMemory (fillxLoop increment b.size 0 init) with used := b.size }

/-- The loop of `byte_buffer_fill_cb`: `left` octets to go. The callback is given an index and the
    octet there; it returns that octet, changed or not. -/
def fillCbLoop (cb : Nat → Octet → Rc × Octet) : Nat → Nat → Mem Octet → Nat × Mem Octet
  | 0, i, data => (i, data)
  | left + 1, i, data =>
    match cb i (data i) with
    | (.error _, o) => (i, data.store i [o])
    | (.ok _, o) => fillCbLoop cb left (i + 1) (data.store i [o])

/-- `byte_buffer_fill_cb` -/
def byteBufferFillCb (b : ByteBuffer) (offset : Nat) (cb : Nat → Octet → Rc × Octet) : ByteBuffer :=
  let left := b.size - offset
  { b.mapMemory (fun data => (fillCbLoop cb left offset data).2) with
    offset
    used := (fillCbLoop cb left offset b.octets).1 }

/-! ## 2. Operations -/

/-- An operation on a buffer, with its arguments. -/
inductive ByteBufferOp where
  | set (data : Option Block) (size used offset : SizeT)
  | use (data : Option Block) (size : SizeT)
  | space (data : Option Block) (size : SizeT)
  | add (data : List Octet) (size_lt : data.length < 2 ^ 64)
  | markread (size : SizeT)
  | consume (size : SizeT)
  | consumeAtMost (size : SizeT)
  | rewind
  | clear
  | reset
  | repeat
  | fill (datum : Octet)
  | fillx (init increment : Octet)
  | fillCb (offset : SizeT) (cb : Nat → Octet → Rc × Octet)
  | setpos (pos : ByteBufferPos)

namespace ByteBufferOp

/-- What an operation makes of a buffer, successful or not. -/
def run (b : ByteBuffer) : ByteBufferOp → ByteBuffer
  | set data size used offset => (byteBufferSet b data size used offset).2
  | use data size => (byteBufferUse b data size).2
  | space data size => (byteBufferSpace b data size).2
  | add data _ => (byteBufferAdd b data).2
  | markread size => (byteBufferMarkread b size).2
  | consume size => (byteBufferConsume b size).2
  | consumeAtMost size => (byteBufferConsumeAtMost b size).2
  | rewind => (byteBufferRewind b).2
  | clear => byteBufferClear b
  | reset => byteBufferReset b
  | .repeat => byteBufferRepeat b
  | fill datum => byteBufferFill b datum
  | fillx init increment => byteBufferFillx b init increment
  | fillCb offset cb => byteBufferFillCb b offset cb
  | setpos pos => (byteBufferSetpos b pos).2

/-- The memory an operation reads or writes: ranges, by their first index and their length. -/
def accesses (b : ByteBuffer) : ByteBufferOp → List (Nat × Nat)
  | add data _ => if b.size < sizeAdd b.used data.length then [] else [(b.used, data.length)]
  | consume size => if byteBufferRest b < size then [] else [(b.offset, size)]
  | consumeAtMost size => [(b.offset, min size (byteBufferRest b))]
  | rewind =>
    if b.offset = 0 then [] else [(b.offset, byteBufferRest b), (0, byteBufferRest b)]
  | clear | fill _ | fillx _ _ => [(0, b.size)]
  | fillCb offset _ => [(offset, b.size - offset)]
  | set _ _ _ _ | use _ _ | space _ _ | markread _ | reset | .repeat | setpos _ => []

/-- Whether an operation gives a buffer other memory. -/
def assigns : ByteBufferOp → Bool
  | set _ _ _ _ | use _ _ | space _ _ => true
  | _ => false

/-- **The arguments an operation can cope with.** -/
def Proper (b : ByteBuffer) : ByteBufferOp → Prop
  | add data _ => b.used + data.length < 2 ^ 64
  | fillCb offset _ => offset ≤ b.size
  | setpos pos => pos.offset ≤ pos.used ∨ b.size ≤ pos.offset
  | _ => True

instance (b : ByteBuffer) : ∀ op : ByteBufferOp, Decidable (op.Proper b)
  | add data _ => inferInstanceAs (Decidable (b.used + data.length < 2 ^ 64))
  | fillCb offset _ => inferInstanceAs (Decidable (offset ≤ b.size))
  | setpos pos => inferInstanceAs (Decidable (pos.offset ≤ pos.used ∨ b.size ≤ pos.offset))
  | set _ _ _ _ | use _ _ | space _ _ | markread _ | consume _ | consumeAtMost _ | rewind | clear
  | reset | .repeat | fill _ | fillx _ _ => .isTrue trivial

end ByteBufferOp

/-- All of some ranges lies inside a memory. -/
def InMemory (size : Nat) (ranges : List (Nat × Nat)) : Prop :=
  ∀ r ∈ ranges, ∀ k, k < r.2 → r.1 + k < size

/-! ## 3. What an operation changes -/

section Frame

variable {b : ByteBuffer} {i : Nat}

theorem octets_mapMemory (f : Mem Octet → Mem Octet) (h : ∀ m, f m i = m i) :
    (b.mapMemory f).octets i = b.octets i := by
  unfold ByteBuffer.octets ByteBuffer.mapMemory
  cases b.data with
  | none => rfl
  | some block => exact h block.octets

theorem fillxLoop_outside (increment : Octet) (left : Nat) : ∀ {j : Nat} {datum : Octet}
    {m : Mem Octet}, ¬(j ≤ i ∧ i < j + left) → fillxLoop increment left j datum m i = m i := by
  induction left with
  | zero => exact fun _ => rfl
  | succ left ih =>
    intro j datum m h
    rw [fillxLoop, ih (by omega)]
    exact Mem.store_outside _ fun hin => h ⟨hin.1, by simp at hin; omega⟩

theorem fillCbLoop_outside (cb : Nat → Octet → Rc × Octet) (left : Nat) : ∀ {j : Nat}
    {m : Mem Octet}, ¬(j ≤ i ∧ i < j + left) → (fillCbLoop cb left j m).2 i = m i := by
  induction left with
  | zero => exact fun _ => rfl
  | succ left ih =>
    intro j m h
    rw [fillCbLoop]
    have hone : ∀ o, m.store j [o] i = m i := fun o =>
      Mem.store_outside _ fun hin => h ⟨hin.1, by simp at hin; omega⟩
    rcases cb j (m j) with ⟨e | rc, o⟩
    · exact hone o
    · exact (ih (by omega)).trans (hone o)

/-- Where the loop of `byte_buffer_fill_cb` stops. -/
theorem fillCbLoop_stops (cb : Nat → Octet → Rc × Octet) (left : Nat) : ∀ (j : Nat)
    (m : Mem Octet), j ≤ (fillCbLoop cb left j m).1 ∧ (fillCbLoop cb left j m).1 ≤ j + left := by
  induction left with
  | zero => exact fun j _ => ⟨le_refl j, le_refl j⟩
  | succ left ih =>
    intro j m
    rw [fillCbLoop]
    rcases cb j (m j) with ⟨e | rc, o⟩
    · exact ⟨le_refl j, Nat.le_add_right j _⟩
    · obtain ⟨h1, h2⟩ := ih (j + 1) (m.store j [o])
      exact ⟨le_trans (Nat.le_succ j) h1, le_trans h2 (by omega)⟩

/-- **Memory an operation does not access stays as it is.** -/
theorem ByteBufferOp.run_frame (op : ByteBufferOp) (hop : op.assigns = false)
    (hi : ∀ r ∈ op.accesses b, ¬(r.1 ≤ i ∧ i < r.1 + r.2)) :
    (op.run b).octets i = b.octets i := by
  cases op with
  | set | use | space => cases hop
  | add data size_lt =>
    simp only [accesses] at hi
    simp only [run, byteBufferAdd]
    split
    · rfl
    · rename_i hfit
      rw [if_neg hfit] at hi
      exact octets_mapMemory _ fun m => Mem.store_outside m (hi _ (List.mem_singleton_self _))
  | markread | consume | consumeAtMost | setpos =>
    simp only [run, byteBufferMarkread, byteBufferConsume, byteBufferConsumeAtMost,
      byteBufferSetpos]
    split <;> rfl
  | rewind =>
    simp only [accesses] at hi
    simp only [run, byteBufferRewind]
    split
    · rfl
    · rename_i block hblock
      split
      · rfl
      · rename_i hoffset
        rw [if_neg hoffset] at hi
        have hfront := hi (0, byteBufferRest b) (by simp)
        have hold : b.octets i = block.octets i := by
          unfold ByteBuffer.octets
          rw [hblock]
        rw [hold]
        show block.octets.store 0 (block.octets.slice b.offset (byteBufferRest b)) i = _
        exact Mem.store_outside _ (by rwa [Mem.length_slice])
  | reset | «repeat» => rfl
  | clear | fill =>
    exact octets_mapMemory _ fun m => Mem.copy_outside m _
      (hi (0, b.size) (List.mem_singleton_self _))
  | fillx init increment =>
    exact octets_mapMemory _ fun m =>
      fillxLoop_outside _ _ (hi (0, b.size) (List.mem_singleton_self _))
  | fillCb offset cb =>
    exact octets_mapMemory _ fun m =>
      fillCbLoop_outside cb _ (hi (↑offset, b.size - ↑offset) (List.mem_singleton_self _))

end Frame

/-! ## 4. One operation -/

section Step

variable {b : ByteBuffer}

theorem byteBufferSet_inOrder (hb : b.InOrder) (data : Option Block) (size used offset : SizeT) :
    (byteBufferSet b data size used offset).2.InOrder := by
  unfold byteBufferSet
  split
  · exact hb
  · rename_i h
    exact ⟨by show (offset : Nat) ≤ used; omega, by show (used : Nat) ≤ size; omega, size.isLt⟩

theorem ByteBuffer.InOrder.consumeAtMost_eq (hb : b.InOrder) (size : Nat) :
    byteBufferConsumeAtMost b size =
      (if b.unread = [] then .error .enodata else .ok (b.unread.take size), b.consumed size) :=
  byteBufferConsumeAtMost_eq hb.offset_le (lt_of_le_of_lt hb.used_le hb.size_lt) size

/-- **An operation keeps the marks in order and inside the memory exactly where its arguments are
    proper.** -/
theorem ByteBufferOp.step_iff (hb : b.InOrder) (op : ByteBufferOp) :
    (InMemory b.size (op.accesses b) ∧ (op.run b).InOrder) ↔ op.Proper b := by
  have ho := hb.offset_le
  have hu := hb.used_le
  have hs := hb.size_lt
  have hnone : InMemory b.size [] := fun r hr => nomatch hr
  have hone : ∀ i n, i + n ≤ b.size → InMemory b.size [(i, n)] := by
    intro i n hin r hr k hk
    obtain rfl := List.mem_singleton.mp hr
    exact lt_of_lt_of_le (Nat.add_lt_add_left hk i) hin
  cases op with
  | set data size used offset =>
    exact ⟨fun _ => trivial, fun _ => ⟨hnone, byteBufferSet_inOrder hb ..⟩⟩
  | use data size =>
    exact ⟨fun _ => trivial, fun _ => ⟨hnone, byteBufferSet_inOrder hb data size size 0⟩⟩
  | space data size =>
    exact ⟨fun _ => trivial, fun _ => ⟨hnone, byteBufferSet_inOrder hb data size 0 0⟩⟩
  | add data size_lt =>
    simp only [accesses, run, Proper, byteBufferAdd]
    constructor
    · rintro ⟨hmem, -⟩
      -- a sum that wraps is below `used`: the octets are accepted, and written past the memory
      by_contra hwrap
      have hsum : sizeAdd b.used data.length = b.used + data.length - 2 ^ 64 := by
        rw [sizeAdd_mod]
        omega
      rw [if_neg (by omega)] at hmem
      have hlast := hmem _ (List.mem_singleton_self _) (data.length - 1)
        (by show data.length - 1 < data.length; omega)
      have hlast' : b.used + (data.length - 1) < b.size := hlast
      omega
    · intro hlt
      rw [sizeAdd_eq hlt]
      split
      · exact ⟨hnone, hb⟩
      · rename_i hfit
        exact ⟨hone _ _ (not_lt.mp hfit), Nat.le_add_right_of_le ho, not_lt.mp hfit, hs⟩
  | markread size =>
    simp only [accesses, run, Proper, byteBufferMarkread, iff_true, hb.rest_eq]
    refine ⟨hnone, ?_⟩
    split
    · exact hb
    · rename_i hfit
      rw [sizeAdd_eq (by omega)]
      exact ⟨by show b.offset + size ≤ b.used; omega, hu, hs⟩
  | consume size =>
    simp only [accesses, run, Proper, byteBufferConsume, iff_true, hb.rest_eq]
    split
    · exact ⟨hnone, hb⟩
    · rename_i hfit
      rw [sizeAdd_eq (by omega)]
      exact ⟨hone _ _ (by omega), by show b.offset + size ≤ b.used; omega, hu, hs⟩
  | consumeAtMost size =>
    simp only [accesses, run, Proper, iff_true, hb.rest_eq, hb.consumeAtMost_eq]
    exact ⟨hone _ _ (by omega), by show b.offset + min _ _ ≤ b.used; omega, hu, hs⟩
  | rewind =>
    simp only [accesses, run, Proper, byteBufferRewind, iff_true, hb.rest_eq]
    constructor
    · split
      · exact hnone
      · intro r hr k hk
        rcases List.mem_pair.mp hr with rfl | rfl
        · show b.offset + k < b.size
          have hk' : k < b.used - b.offset := hk
          omega
        · show 0 + k < b.size
          have hk' : k < b.used - b.offset := hk
          omega
    · split
      · exact hb
      · split
        · exact hb
        · exact ⟨Nat.zero_le _, by show b.used - b.offset ≤ b.size; omega, hs⟩
  | clear => exact ⟨fun _ => trivial, fun _ => ⟨hone 0 _ (by omega), le_refl 0, Nat.zero_le _, hs⟩⟩
  | reset => exact ⟨fun _ => trivial, fun _ => ⟨hnone, le_refl 0, Nat.zero_le _, hs⟩⟩
  | «repeat» => exact ⟨fun _ => trivial, fun _ => ⟨hnone, Nat.zero_le _, hu, hs⟩⟩
  | fill | fillx =>
    exact ⟨fun _ => trivial, fun _ => ⟨hone 0 _ (by omega), le_trans ho hu, le_refl _, hs⟩⟩
  | fillCb offset cb =>
    have hstop := fillCbLoop_stops cb (b.size - offset) offset b.octets
    simp only [accesses, run, Proper]
    constructor
    · rintro ⟨-, hafter⟩
      have h1 : offset ≤ (fillCbLoop cb (b.size - offset) offset b.octets).1 := hafter.offset_le
      have h2 : (fillCbLoop cb (b.size - offset) offset b.octets).1 ≤ b.size := hafter.used_le
      exact le_trans h1 h2
    · intro hle
      have hused : (fillCbLoop cb (b.size - offset) offset b.octets).1 ≤ b.size := by omega
      exact ⟨hone _ _ (by omega), hstop.1, hused, hs⟩
  | setpos pos =>
    simp only [accesses, run, Proper, byteBufferSetpos]
    constructor
    · rintro ⟨-, hafter⟩
      by_contra hbad
      rw [if_neg (by omega)] at hafter
      have hle : pos.offset ≤ pos.used := hafter.offset_le
      omega
    · intro hproper
      refine ⟨hnone, ?_⟩
      split
      · exact hb
      · rename_i hfit
        exact ⟨by show pos.offset ≤ pos.used; omega, by show pos.used ≤ b.size; omega, hs⟩

/-- **A buffer takes its own position back** unless it is read to the very end of its memory. -/
theorem byteBufferSetpos_getpos_iff (hb : b.InOrder) :
    byteBufferSetpos b (byteBufferGetpos b) = (.ok 0, b) ↔ b.offset < b.size := by
  have hu := hb.used_le
  rw [byteBufferSetpos]
  by_cases hend : b.offset < b.size
  · have hfit : ¬(b.size ≤ (byteBufferGetpos b).offset ∨ b.size < (byteBufferGetpos b).used) :=
      not_or.mpr ⟨not_le.mpr hend, not_lt.mpr hu⟩
    rw [if_neg hfit]
    exact ⟨fun _ => hend, fun _ => rfl⟩
  · have hbad : b.size ≤ (byteBufferGetpos b).offset ∨ b.size < (byteBufferGetpos b).used :=
      .inl (not_lt.mp hend)
    rw [if_pos hbad]
    exact ⟨fun h => (nomatch h), fun h => absurd h hend⟩

end Step

/-! ## 5. Runs -/

/-- **A run keeps the marks in order**: every operation stays inside the memory and leaves the marks
    in order, and in every state the buffer takes its own position back. -/
def KeepsOrder (b : ByteBuffer) : List ByteBufferOp → Prop
  | [] => byteBufferSetpos b (byteBufferGetpos b) = (.ok 0, b)
  | op :: ops => byteBufferSetpos b (byteBufferGetpos b) = (.ok 0, b) ∧
    (InMemory b.size (op.accesses b) ∧ (op.run b).InOrder) ∧ KeepsOrder (op.run b) ops

/-- Every operation of a run gets proper arguments, and no state has its read mark at the end of the
    memory. -/
def ProperRun (b : ByteBuffer) : List ByteBufferOp → Prop
  | [] => b.offset < b.size
  | op :: ops => b.offset < b.size ∧ op.Proper b ∧ ProperRun (op.run b) ops

/-- **A run keeps the marks in order exactly where its arguments are proper** and no buffer is read
    to its very end. -/
theorem keepsOrder_iff (b : ByteBuffer) (hb : b.InOrder) (ops : List ByteBufferOp) :
    KeepsOrder b ops ↔ ProperRun b ops := by
  induction ops generalizing b with
  | nil => exact byteBufferSetpos_getpos_iff hb
  | cons op ops ih =>
    rw [KeepsOrder, ProperRun, byteBufferSetpos_getpos_iff hb, ← op.step_iff hb]
    exact and_congr_right fun _ => and_congr_right fun hstep => ih _ hstep.2

theorem keepsOrder_iff_sample :
    KeepsOrder (byteBufferOf (fun _ => 0) 4) [.consume 1, .rewind, .add [7] (by decide)] ↔
      ProperRun (byteBufferOf (fun _ => 0) 4) [.consume 1, .rewind, .add [7] (by decide)] :=
  keepsOrder_iff _ ⟨by decide, by decide, by decide⟩ _

/-- **A read mark past the write mark**: `byte_buffer_setpos` accepts it. -/
theorem not_keepsOrder_setpos :
    ¬ ∀ b : ByteBuffer, b.InOrder → ∀ ops, KeepsOrder b ops := by
  intro hall
  have hrun := hall (byteBufferOf (fun _ => 0) 4) ⟨by decide, by decide, by decide⟩
    [.setpos { used := 1, offset := 2 }]
  exact absurd hrun.2.1.2.offset_le (by decide)

end Ufw
