/-
  File:      Ufw/ByteBuffer/Queue.lean
  Subject:   BYTE BUFFERS AS QUEUES. Between two resets, octets are added behind those in a buffer
             and taken off in front of them, and the rest is moved to the front of the memory at any
             time.

  * `QueueOp` -- an operation that uses a buffer as a queue; `QueueOp.call` makes it;
  * `QueueOp.added`, `QueueOp.passed` -- the octets it adds, and those it reads or skips;
  * `QueueOp.conserved` -- **no operation loses, doubles or moves an octet**;
  * `byteBuffer_isQueue` -- **a run of a byte buffer is a run of a queue.**
-/
import Ufw.Base.Calls
import Ufw.ByteBuffer.Operations

namespace Ufw

open Base

/-! ## 1. Operations -/

/-- An operation that uses a buffer as a queue. -/
inductive QueueOp where
  | add (data : List Octet) (size_lt : data.length < 2 ^ 64)
  | markread (size : SizeT)
  | consume (size : SizeT)
  | consumeAtMost (size : SizeT)
  | rewind

namespace QueueOp

/-- It is an operation of the buffer. -/
def op : QueueOp → ByteBufferOp
  | add data size_lt => .add data size_lt
  | markread size => .markread size
  | consume size => .consume size
  | consumeAtMost size => .consumeAtMost size
  | rewind => .rewind

/-- Make the call: its return code is an error, a 0, or the number of octets read. -/
def call (b : ByteBuffer) : QueueOp → Rc × ByteBuffer
  | add data _ => byteBufferAdd b data
  | markread size => byteBufferMarkread b size
  | consume size => ((byteBufferConsume b size).1.map fun _ => 0, (byteBufferConsume b size).2)
  | consumeAtMost size =>
    ((byteBufferConsumeAtMost b size).1.map List.length, (byteBufferConsumeAtMost b size).2)
  | rewind => byteBufferRewind b

/-- The octets a call adds, if it is successful. -/
def added (b : ByteBuffer) : QueueOp → List Octet
  | add data _ => if (byteBufferAdd b data).1.isOk then data else []
  | markread _ | consume _ | consumeAtMost _ | rewind => []

/-- The octets a call reads, or skips. -/
def passed (b : ByteBuffer) : QueueOp → List Octet
  | markread size => if (byteBufferMarkread b size).1.isOk then b.octets.slice b.offset size else []
  | consume size => (byteBufferConsume b size).1.toOption.getD []
  | consumeAtMost size => (byteBufferConsumeAtMost b size).1.toOption.getD []
  | add _ _ | rewind => []

/-- **How a call fails**: the buffer is as before; adding fails for want of room only. -/
def FailsCleanly (b : ByteBuffer) (q : QueueOp) : Prop :=
  ((q.call b).1.isOk = false → (q.call b).2 = b) ∧
    ∀ data size_lt, q = add data size_lt →
      ((q.call b).1.isOk = false ↔ b.size - b.used < data.length)

/-- A call is that operation of the buffer. -/
theorem call_run (b : ByteBuffer) (q : QueueOp) : (q.call b).2 = q.op.run b := by
  cases q <;> rfl

end QueueOp

/-- A buffer without memory has no room. -/
def ByteBuffer.Backed (b : ByteBuffer) : Prop := b.data = none → b.size = 0

/-! ## 2. One call -/

section Call

variable {b : ByteBuffer}

/-- `byte_buffer_add`, the sum of the lengths being one of a `size_t`. -/
theorem byteBufferAdd_cases {l : List Octet} (h : b.used + l.length < 2 ^ 64) :
    byteBufferAdd b l =
      if b.size < b.used + l.length then (.error .enomem, b) else (.ok 0, b.append l) := by
  rw [byteBufferAdd, sizeAdd_eq h]
  rfl

/-- What is read, and what is not read yet. -/
theorem ByteBuffer.unread_split (b : ByteBuffer) {n : Nat} (h : n ≤ b.used - b.offset) :
    b.octets.slice b.offset n ++ ByteBuffer.unread { b with offset := b.offset + n } =
      b.unread := by
  obtain ⟨r, hr⟩ := Nat.exists_eq_add_of_le h
  have hrest : b.used - (b.offset + n) = r := by omega
  show _ ++ b.octets.slice (b.offset + n) (b.used - (b.offset + n)) =
    b.octets.slice b.offset (b.used - b.offset)
  rw [hrest, hr, Mem.slice_append]

theorem ByteBuffer.unread_append (hb : b.InOrder) (hm : b.Backed) {l : List Octet}
    (hl : b.used + l.length ≤ b.size) : (b.append l).unread = b.unread ++ l := by
  obtain ⟨_ | block, size, used, offset⟩ := b
  · -- no memory, no room: there is nothing to add
    obtain rfl : size = 0 := hm rfl
    obtain rfl : l = [] := List.length_eq_zero_iff.mp (by simp only at hl; omega)
    rw [List.append_nil]
    rfl
  · have ho : offset ≤ used := hb.offset_le
    show (block.octets.store used l).slice offset (used + l.length - offset) =
      block.octets.slice offset (used - offset) ++ l
    rw [Nat.sub_add_comm ho, Mem.slice_append, Nat.add_sub_cancel' ho, Mem.slice_store,
      Mem.slice_store_apart _ (.inl (by omega))]

/-- **Compaction**: the octets not read yet are the same ones, in the same order. -/
theorem ByteBuffer.unread_rewind (hb : b.InOrder) : (byteBufferRewind b).2.unread = b.unread := by
  unfold byteBufferRewind
  split
  · rfl
  · rename_i block hblock
    split
    · rfl
    · have hold : b.unread = block.octets.slice b.offset (b.used - b.offset) := by
        unfold ByteBuffer.unread ByteBuffer.octets
        rw [hblock]
      have hstored := Mem.slice_store block.octets 0
        (block.octets.slice b.offset (b.used - b.offset))
      rw [Mem.length_slice] at hstored
      rw [hold, hb.rest_eq]
      exact hstored

namespace QueueOp

/-- **No call loses, doubles or moves an octet.** -/
theorem conserved (hb : b.InOrder) (hm : b.Backed) (q : QueueOp) (hq : q.op.Proper b) :
    Conserved b.unread (q.added b) (q.passed b) (q.call b).2.unread := by
  have ho := hb.offset_le
  have hu := hb.used_le
  have hs := hb.size_lt
  unfold Conserved
  cases q with
  | add data size_lt =>
    simp only [added, passed, call, byteBufferAdd_cases hq]
    split
    · exact (List.append_nil _).symm
    · exact ByteBuffer.unread_append hb hm (by omega)
  | markread size =>
    simp only [added, passed, call, byteBufferMarkread, hb.rest_eq, List.append_nil]
    split
    · rfl
    · rw [sizeAdd_eq (by omega)]
      exact b.unread_split (by omega)
  | consume size =>
    simp only [added, passed, call, byteBufferConsume, hb.rest_eq, List.append_nil]
    split
    · rfl
    · rw [sizeAdd_eq (by omega)]
      exact b.unread_split (by omega)
  | consumeAtMost size =>
    simp only [added, passed, call, hb.consumeAtMost_eq, List.append_nil]
    rw [ByteBuffer.unread_consumed]
    split
    · rename_i hempty
      rw [hempty, List.drop_nil]
      rfl
    · exact List.take_append_drop size b.unread
  | rewind =>
    simp only [added, passed, call, List.append_nil, List.nil_append]
    exact ByteBuffer.unread_rewind hb

theorem call_backed (hm : b.Backed) (q : QueueOp) : (q.call b).2.Backed := by
  cases q with
  | add data size_lt =>
    simp only [call, byteBufferAdd]
    split
    · exact hm
    · intro hnone
      exact hm (Option.map_eq_none_iff.mp hnone)
  | markread | consume | consumeAtMost =>
    simp only [call, byteBufferMarkread, byteBufferConsume, byteBufferConsumeAtMost]
    split <;> exact hm
  | rewind =>
    simp only [call, byteBufferRewind]
    split
    · exact hm
    · split
      · exact hm
      · intro h
        cases h

theorem failsCleanly (hb : b.InOrder) (q : QueueOp) (hq : q.op.Proper b) : q.FailsCleanly b := by
  have hu := hb.used_le
  constructor
  · cases q with
    | add | markread | consume | consumeAtMost =>
      simp only [call, byteBufferAdd, byteBufferMarkread, byteBufferConsume,
        byteBufferConsumeAtMost]
      split
      · exact fun _ => rfl
      · intro h
        cases h
    | rewind =>
      simp only [call, byteBufferRewind]
      split
      · exact fun _ => rfl
      · intro h
        split at h <;> cases h
  · rintro data size_lt rfl
    simp only [call, byteBufferAdd_cases hq]
    split
    · exact ⟨fun _ => by omega, fun _ => rfl⟩
    · exact ⟨fun h => (by cases h), fun h => by omega⟩

end QueueOp

end Call

/-! ## 3. Runs -/

/-- **A run of a byte buffer is a run of a queue**: what was read and skipped, followed by what is
    left to read, is what there was to read at first, followed by what was added. A call that fails
    leaves the buffer as it is, and octets are refused exactly where they find no room behind the
    write mark. -/
theorem byteBuffer_isQueue (b : ByteBuffer) (hb : b.InOrder) (hm : b.Backed) (ops : List QueueOp)
    (hops : Along QueueOp.call (fun b q => q.op.Proper b) b ops) :
    let run := trace QueueOp.call b ops
    let last := after QueueOp.call b ops
    (run.flatMap fun c => c.2.passed c.1) ++ last.unread =
        b.unread ++ (run.flatMap fun c => c.2.added c.1) ∧
      (∀ c ∈ run, c.2.FailsCleanly c.1) ∧ last.InOrder := by
  have hstep : ∀ (b : ByteBuffer) (q : QueueOp), b.InOrder ∧ b.Backed → q.op.Proper b →
      (Conserved b.unread (q.added b) (q.passed b) (q.call b).2.unread ∧ q.FailsCleanly b) ∧
        (q.call b).2.InOrder ∧ (q.call b).2.Backed := by
    intro b q ⟨hb, hm⟩ hq
    refine ⟨⟨q.conserved hb hm hq, q.failsCleanly hb hq⟩, ?_, q.call_backed hm⟩
    rw [q.call_run b]
    exact ((q.op.step_iff hb).mpr hq).2
  obtain ⟨hrun, hend⟩ := Along.of_step hstep ⟨hb, hm⟩ hops
  exact ⟨Conserved.run fun c hc => (hrun c hc).1, fun c hc => (hrun c hc).2, hend.1⟩

/-- Three octets through a buffer of two: the second one is moved to the front before the third one
    is added. -/
theorem byteBuffer_isQueue_sample :
    let b := byteBufferEmpty ⟨0, fun _ => 0⟩ 2
    let ops : List QueueOp := [.add [1, 2] (by decide), .consume 1, .rewind, .add [3] (by decide)]
    ((trace QueueOp.call b ops).flatMap fun c => c.2.passed c.1) ++
      (after QueueOp.call b ops).unread = [1, 2, 3] :=
  (byteBuffer_isQueue (byteBufferEmpty ⟨0, fun _ => 0⟩ 2) ⟨by decide, by decide, by decide⟩
    (fun h => nomatch h) _ (by decide)).1

end Ufw
