/-
  File:      Ufw/ByteBuffer.lean
  Subject:   BYTE BUFFERS (byte-buffer.c), block allocators (allocator.c) and the source that reads
             a list of buffers (endpoints/buffer.c).

  * `ByteBuffer` -- a piece of memory, filled from `offset` up to `used`;
  * `BlockAllocator` -- where blocks come from; what it hands out is a parameter;
  * `byteBufferConsumeAtMost_eq` -- what a read takes from a buffer, and what it leaves there;
  * `readFromChunksLoop_cases` -- what a read of a list of buffers can do;
  * `ByteChunks.unread`, `sourceFromChunks_delivers` -- **the chunk source hands out the unread
    octets of its chunks, and then ends.**
-/
import Ufw.Base.Memory
import Ufw.Endpoints.Transfers

namespace Ufw

open Base

/-! ## 1. Buffers -/

/-- A block of memory, by its address and its octets. -/
structure Block where
  address : Nat
  octets : Mem Octet

/-- `ByteBuffer` -/
structure ByteBuffer where
  data : Option Block
  size : Nat
  used : Nat
  offset : Nat

namespace ByteBuffer

/-- The octets behind `data`; a NULL buffer has a size of 0. -/
def octets (b : ByteBuffer) : Mem Octet :=
  match b.data with
  | some block => block.octets
  | none => fun _ => 0

/-- Octets are written to the memory of a buffer, from an index on. -/
def write (b : ByteBuffer) (i : Nat) (l : List Octet) : ByteBuffer :=
  { b with data := b.data.map fun block => { block with octets := block.octets.store i l } }

/-- The octets not read yet. -/
def unread (b : ByteBuffer) : List Octet := b.octets.slice b.offset (b.used - b.offset)

end ByteBuffer

/-- A buffer as its operations keep it. -/
structure ByteBuffer.Valid (b : ByteBuffer) : Prop where
  offset_le : b.offset ≤ b.used
  used_le : b.used ≤ b.size
  size_le : b.size ≤ ssizeMax

/-- **The order of a buffer's marks**; its size is a `size_t`. -/
structure ByteBuffer.InOrder (b : ByteBuffer) : Prop where
  offset_le : b.offset ≤ b.used
  used_le : b.used ≤ b.size
  size_lt : b.size < 2 ^ 64

theorem ByteBuffer.Valid.inOrder {b : ByteBuffer} (h : b.Valid) : b.InOrder :=
  ⟨h.offset_le, h.used_le, lt_of_le_of_lt h.size_le (by decide)⟩

/-- `BYTE_BUFFER_EMPTY` -/
def byteBufferEmpty (block : Block) (size : Nat) : ByteBuffer :=
  { data := some block, size, used := 0, offset := 0 }

/-- `BYTE_BUFFER`, over memory at some address. -/
def byteBufferOf (memory : Mem Octet) (size : Nat) : ByteBuffer :=
  { data := some ⟨0, memory⟩, size, used := size, offset := 0 }

/-- `byte_buffer_rest` -/
def byteBufferRest (b : ByteBuffer) : Nat := sizeSub b.used b.offset

/-- `byte_buffer_avail` -/
def byteBufferAvail (b : ByteBuffer) : Nat := sizeSub b.size b.used

/-- `byte_buffer_reset` -/
def byteBufferReset (b : ByteBuffer) : ByteBuffer := { b with used := 0, offset := 0 }

/-- `byte_buffer_add` -/
def byteBufferAdd (b : ByteBuffer) (data : List Octet) : Rc × ByteBuffer :=
  if b.size < sizeAdd b.used data.length then (.error .enomem, b)
  else
    let store (block : Block) : Block :=
      { block with octets := block.octets.store b.used data }
    (.ok 0, { b with data := b.data.map store, used := sizeAdd b.used data.length })

/-- `byte_buffer_consume_at_most` -/
def byteBufferConsumeAtMost (b : ByteBuffer) (size : Nat) :
    Except Errno (List Octet) × ByteBuffer :=
  let rest := byteBufferRest b
  if rest = 0 then (.error .enodata, b)
  else
    let n := if rest < size then rest else size
    (.ok (b.octets.slice b.offset n), { b with offset := sizeAdd b.offset n })

/-- `byte_buffer_rewind` -/
def byteBufferRewind (b : ByteBuffer) : Rc × ByteBuffer :=
  match b.data with
  | none => (.error .einval, b)
  | some block =>
    if b.offset = 0 then (.ok 0, b)
    else
      let rest := byteBufferRest b
      let octets := block.octets.store 0 (block.octets.slice b.offset rest)
      (.ok 0, { b with data := some { block with octets }, used := rest, offset := 0 })

theorem ByteBuffer.InOrder.rest_eq {b : ByteBuffer} (h : b.InOrder) :
    byteBufferRest b = b.used - b.offset :=
  sizeSub_eq h.offset_le (lt_of_le_of_lt h.used_le h.size_lt)

theorem byteBufferRest_eq {b : ByteBuffer} (h : b.Valid) :
    byteBufferRest b = b.used - b.offset := h.inOrder.rest_eq

theorem byteBufferOf_valid (memory : Mem Octet) {size : Nat} (h : size ≤ ssizeMax) :
    (byteBufferOf memory size).Valid :=
  ⟨Nat.zero_le size, le_refl size, h⟩

@[simp] theorem byteBufferOf_unread (memory : Mem Octet) (size : Nat) :
    (byteBufferOf memory size).unread = memory.slice 0 size := rfl

/-- A buffer that can be read: its marks are in order, and it has no more octets than an `ssize_t`
    can count, as any memory. -/
structure ByteBuffer.Readable (b : ByteBuffer) : Prop where
  offset_le : b.offset ≤ b.used
  used_le : b.used ≤ ssizeMax

theorem ByteBuffer.Valid.readable {b : ByteBuffer} (h : b.Valid) : b.Readable :=
  ⟨h.offset_le, le_trans h.used_le h.size_le⟩

/-- A buffer of which `n` more octets were read, or all that there were. -/
def ByteBuffer.consumed (b : ByteBuffer) (n : Nat) : ByteBuffer :=
  { b with offset := b.offset + min n (b.used - b.offset) }

theorem ByteBuffer.take_unread (b : ByteBuffer) (n : Nat) :
    b.unread.take n = b.octets.slice b.offset (min n (b.used - b.offset)) := by
  rw [ByteBuffer.unread]
  rcases Nat.le_total n (b.used - b.offset) with hn | hn
  · rw [Nat.min_eq_left hn, Mem.slice_take _ _ _ _ hn]
  · rw [Nat.min_eq_right hn, List.take_of_length_le (by rwa [Mem.length_slice])]

theorem ByteBuffer.unread_consumed (b : ByteBuffer) (n : Nat) :
    (b.consumed n).unread = b.unread.drop n := by
  show b.octets.slice (b.offset + min n (b.used - b.offset))
    (b.used - (b.offset + min n (b.used - b.offset))) = _
  rw [ByteBuffer.unread, Nat.sub_add_eq]
  rcases Nat.le_total n (b.used - b.offset) with hn | hn
  · rw [Nat.min_eq_left hn, Mem.slice_drop _ _ _ _ hn]
  · rw [Nat.min_eq_right hn, Nat.sub_self, Mem.slice_zero,
      List.drop_eq_nil_of_le (by rwa [Mem.length_slice])]

theorem ByteBuffer.Readable.consumed {b : ByteBuffer} (h : b.Readable) (n : Nat) :
    (b.consumed n).Readable := by
  have ho := h.offset_le
  exact ⟨by show b.offset + min n (b.used - b.offset) ≤ b.used; omega, h.used_le⟩

theorem ByteBuffer.Valid.consumed {b : ByteBuffer} (h : b.Valid) (n : Nat) :
    (b.consumed n).Valid := ⟨(h.readable.consumed n).offset_le, h.used_le, h.size_le⟩

/-- **Reading from a buffer**: as many octets as are asked for, or all that there are. -/
theorem byteBufferConsumeAtMost_eq {b : ByteBuffer} (ho : b.offset ≤ b.used) (hu : b.used < 2 ^ 64)
    (n : Nat) :
    byteBufferConsumeAtMost b n =
      (if b.unread = [] then .error .enodata else .ok (b.unread.take n), b.consumed n) := by
  have hrest : byteBufferRest b = b.used - b.offset := sizeSub_eq ho hu
  have hempty : b.unread = [] ↔ b.used - b.offset = 0 := by
    rw [← List.length_eq_zero_iff, ByteBuffer.unread, Mem.length_slice]
  simp only [byteBufferConsumeAtMost, hrest, hempty]
  by_cases h0 : b.used - b.offset = 0
  · rw [if_pos h0, if_pos h0, ByteBuffer.consumed, h0, Nat.min_zero, Nat.add_zero]
  · have hmin : (if b.used - b.offset < n then b.used - b.offset else n) =
        min n (b.used - b.offset) := by
      split <;> omega
    rw [if_neg h0, if_neg h0, hmin, ByteBuffer.take_unread, sizeAdd_eq (by omega),
      ByteBuffer.consumed]

/-- What a buffer is filled with, read or not. -/
def ByteBuffer.filled (b : ByteBuffer) : List Octet := b.octets.slice 0 b.used

/-- A buffer filled further. -/
def ByteBuffer.append (b : ByteBuffer) (l : List Octet) : ByteBuffer :=
  { b.write b.used l with used := b.used + l.length }

/-- Octets that do not fit are refused. -/
theorem byteBufferAdd_eq {b : ByteBuffer} (h : b.Valid) {l : List Octet}
    (hl : l.length ≤ ssizeMax) :
    byteBufferAdd b l =
      if b.size - b.used < l.length then (.error .enomem, b) else (.ok 0, b.append l) := by
  have hs := h.size_le
  have hu := h.used_le
  unfold ssizeMax at hs hl
  have hadd : sizeAdd b.used l.length = b.used + l.length := sizeAdd_eq (by omega)
  have hfit : b.size < b.used + l.length ↔ b.size - b.used < l.length := by omega
  rw [byteBufferAdd, hadd, if_congr hfit rfl rfl]
  rfl

theorem ByteBuffer.Valid.append {b : ByteBuffer} (h : b.Valid) {l : List Octet}
    (hl : l.length ≤ b.size - b.used) : (b.append l).Valid := by
  have ho := h.offset_le
  have hu := h.used_le
  exact ⟨Nat.le_add_right_of_le ho, by show b.used + l.length ≤ b.size; omega, h.size_le⟩

/-- The octets of a buffer that has no memory do not matter: it has no room. -/
theorem ByteBuffer.filled_append {b : ByteBuffer} (h : b.Valid) (hd : b.data = none → b.size = 0)
    {l : List Octet} (hl : l.length ≤ b.size - b.used) :
    (b.append l).filled = b.filled ++ l := by
  obtain ⟨_ | block, size, used, offset⟩ := b
  · obtain rfl : size = 0 := hd rfl
    obtain rfl : l = [] := List.length_eq_zero_iff.mp (Nat.le_zero.mp (by simpa using hl))
    rw [List.append_nil]
    rfl
  · show (block.octets.store used l).slice 0 (used + l.length) = block.octets.slice 0 used ++ l
    rw [Mem.slice_append, Nat.zero_add, Mem.slice_store]
    refine congrArg (· ++ l) (List.map_congr_left fun i hi => ?_)
    rw [Nat.zero_add]
    exact Mem.store_before _ _ (List.mem_range.mp hi)

/-! ## 2. Allocators -/

/-- The allocation function of an allocator. -/
inductive AllocRun (α : Type) where
  | generic (run : α → Nat → Except Errno Block × α)
  | slab (run : α → Except Errno Block × α)

/-- `BlockAllocator`; no block is larger than the largest object. -/
structure BlockAllocator (α : Type) where
  alloc : AllocRun α
  free : α → Block → α
  driver : α
  blocksize : Nat
  blocksize_le : blocksize ≤ ssizeMax

/-- `block_alloc` -/
def blockAlloc {α : Type} (ba : BlockAllocator α) : Except Errno Block × BlockAllocator α :=
  let (rc, driver) :=
    match ba.alloc with
    | .generic run => run ba.driver ba.blocksize
    | .slab run => run ba.driver
  (rc, { ba with driver })

theorem blockAlloc_blocksize {α : Type} {ba ba' : BlockAllocator α} {rc : Except Errno Block}
    (h : blockAlloc ba = (rc, ba')) : ba'.blocksize = ba.blocksize := by
  rw [← show (blockAlloc ba).2 = ba' from congrArg Prod.snd h]
  rfl

/-- `block_free` -/
def blockFree {α : Type} (ba : BlockAllocator α) (m : Block) : BlockAllocator α :=
  { ba with driver := ba.free ba.driver m }

/-! ## 3. Chunks of octets as a source -/

/-- `ByteChunks` -/
structure ByteChunks where
  chunk : List ByteBuffer
  active : Nat

/-- The loop of `read_from_chunks`; `left` chunks may still hold octets. -/
def readFromChunksLoop (n : Nat) : Nat → ByteChunks → Except Errno (List Octet) × ByteChunks
  | 0, source => (.error .enodata, source)
  | left + 1, source =>
    match source.chunk[source.active]? with
    | none => (.error .enodata, source)
    | some b =>
      let (rc, b) := byteBufferConsumeAtMost b n
      if rc = .error .enodata then
        readFromChunksLoop n left { source with active := source.active + 1 }
      else (rc, { source with chunk := source.chunk.set source.active b })

/-- `read_from_chunks` -/
def readFromChunks (source : ByteChunks) (n : Nat) : Except Errno (List Octet) × ByteChunks :=
  readFromChunksLoop n (source.chunk.length - source.active) source

/-- `source_from_chunks` -/
def sourceFromChunks (chunks : ByteChunks) : Source ByteChunks :=
  chunkSourceInit readFromChunks chunks

/-- The octets of the chunks not read yet. -/
def ByteChunks.unread (c : ByteChunks) : List Octet :=
  (c.chunk.drop c.active).flatMap ByteBuffer.unread

/-- Chunks as the operations of their buffers keep them. -/
def ByteChunks.Valid (c : ByteChunks) : Prop := ∀ b ∈ c.chunk, b.Valid

/-- Chunks over some pieces of memory. -/
def chunksOf (ls : List (List Octet)) : ByteChunks :=
  { chunk := ls.map fun l => byteBufferOf (Mem.ofList 0 l) l.length, active := 0 }

theorem chunksOf_valid {ls : List (List Octet)} (hl : ∀ l ∈ ls, l.length ≤ ssizeMax) :
    (chunksOf ls).Valid := fun b hb => by
  obtain ⟨l, hmem, rfl⟩ := List.mem_map.mp hb
  exact byteBufferOf_valid _ (hl l hmem)

/-- Chunks that can be read, from the active one on. -/
def ByteChunks.Readable (c : ByteChunks) : Prop := ∀ b ∈ c.chunk.drop c.active, b.Readable

theorem ByteChunks.Valid.readable {c : ByteChunks} (h : c.Valid) : c.Readable :=
  fun b hb => (h b (List.mem_of_mem_drop hb)).readable

/-- The chunks from one on that is there. -/
theorem drop_of_getElem? {l : List ByteBuffer} {i : Nat} {b : ByteBuffer} (hb : l[i]? = some b) :
    l.drop i = b :: l.drop (i + 1) := by
  rw [List.drop_eq_getElem?_toList_append, hb]
  rfl

/-- **What `read_from_chunks` can do**: without unread octets it skips all chunks; else it skips
    empty ones, and reads from the first that is not empty. -/
theorem readFromChunksLoop_cases (n left : Nat) {c : ByteChunks} (hc : c.Readable)
    (hleft : left = c.chunk.length - c.active) :
    (c.unread = [] ∧ ∃ i, c.chunk.length ≤ i ∧
      readFromChunksLoop n left c = (.error .enodata, { c with active := i })) ∨
    ∃ i b, c.active ≤ i ∧ c.chunk[i]? = some b ∧ b.unread ≠ [] ∧
      c.unread = b.unread ++ (c.chunk.drop (i + 1)).flatMap ByteBuffer.unread ∧
      readFromChunksLoop n left c =
        (.ok (b.unread.take n), { chunk := c.chunk.set i (b.consumed n), active := i }) := by
  induction left generalizing c with
  | zero =>
    refine .inl ⟨?_, c.active, by omega, rfl⟩
    rw [ByteChunks.unread, List.drop_eq_nil_of_le (by omega), List.flatMap_nil]
  | succ left ih =>
    obtain ⟨b, hb⟩ : ∃ b, c.chunk[c.active]? = some b :=
      ⟨_, List.getElem?_eq_getElem (by omega)⟩
    have hdrop := drop_of_getElem? hb
    have hbr : b.Readable := hc b (hdrop ▸ List.mem_cons_self)
    have hread := byteBufferConsumeAtMost_eq hbr.offset_le
      (lt_of_le_of_lt hbr.used_le (by decide)) n
    have hun : c.unread = b.unread ++ (c.chunk.drop (c.active + 1)).flatMap ByteBuffer.unread := by
      rw [ByteChunks.unread, hdrop, List.flatMap_cons]
    by_cases hempty : b.unread = []
    · -- the chunk is used up: the next one becomes active
      rw [if_pos hempty] at hread
      rw [hempty, List.nil_append] at hun
      have hloop : readFromChunksLoop n (left + 1) c =
          readFromChunksLoop n left { c with active := c.active + 1 } := by
        simp only [readFromChunksLoop, hb, hread, if_true]
      rw [hloop, hun]
      rcases ih (c := { c with active := c.active + 1 })
          (fun x hx => hc x (hdrop ▸ List.mem_cons_of_mem b hx))
          (by show left = c.chunk.length - (c.active + 1); omega) with hnone | ⟨i, b', hi, hsome⟩
      · exact .inl hnone
      · exact .inr ⟨i, b', Nat.le_of_succ_le hi, hsome⟩
    · rw [if_neg hempty] at hread
      refine .inr ⟨c.active, b, le_refl _, hb, hempty, hun, ?_⟩
      simp only [readFromChunksLoop, hb, hread, reduceCtorEq, if_false]

/-- The chunks behind a read from one of them. -/
theorem drop_set_of_getElem? {l : List ByteBuffer} {i : Nat} {b : ByteBuffer} (hb : l[i]? = some b)
    (b' : ByteBuffer) : (l.set i b').drop i = b' :: l.drop (i + 1) := by
  rw [List.drop_set, if_neg (Nat.lt_irrefl i), Nat.sub_self, drop_of_getElem? hb,
    List.set_cons_zero]

/-- What is left in the chunks behind a read. -/
theorem unread_set_consumed {l : List ByteBuffer} {i : Nat} {b : ByteBuffer} (hb : l[i]? = some b)
    (n : Nat) : (ByteChunks.mk (l.set i (b.consumed n)) i).unread =
      b.unread.drop n ++ (l.drop (i + 1)).flatMap ByteBuffer.unread := by
  rw [ByteChunks.unread]
  show ((l.set i (b.consumed n)).drop i).flatMap ByteBuffer.unread = _
  rw [drop_set_of_getElem? hb, List.flatMap_cons, ByteBuffer.unread_consumed]

/-- Reading one octet from the chunks: the first unread one, if there is one. -/
theorem sourceGetOctet_chunks {c : ByteChunks} (hc : c.Valid) :
    ∃ c', c'.Valid ∧ c'.unread = c.unread.tail ∧
      sourceGetOctet (sourceFromChunks c) =
        ((c.unread.head?.elim (.error .enodata) fun o => .ok (some o)), sourceFromChunks c') := by
  rcases readFromChunksLoop_cases 1 _ hc.readable rfl with
    ⟨hnil, i, hi, hread⟩ | ⟨i, b, -, hb, hne, hun, hread⟩
  · refine ⟨{ c with active := i }, hc, ?_, ?_⟩
    · rw [hnil, ByteChunks.unread]
      show (c.chunk.drop i).flatMap ByteBuffer.unread = _
      rw [List.drop_eq_nil_of_le hi]
      rfl
    · simp only [sourceGetOctet, sourceFromChunks, chunkSourceInit, readFromChunks, hread, hnil]
      rfl
  · obtain ⟨o, l, hl⟩ := List.exists_cons_of_ne_nil hne
    refine ⟨{ chunk := c.chunk.set i (b.consumed 1), active := i }, fun x hx => ?_, ?_, ?_⟩
    · rcases List.mem_or_eq_of_mem_set hx with hx | rfl
      · exact hc x hx
      · exact (hc b (List.mem_of_getElem? hb)).consumed 1
    · rw [unread_set_consumed hb, hun, hl]
      rfl
    · simp only [sourceGetOctet, sourceFromChunks, chunkSourceInit, readFromChunks, hread, hun, hl]
      rfl

/-- **The chunk source hands out the unread octets of its chunks, and then ends.** -/
theorem sourceFromChunks_delivers {c : ByteChunks} (hc : c.Valid) :
    ∃ source₁ source', (sourceFromChunks c).Delivers c.unread source₁ ∧
      sourceGetOctet source₁ = (.error .enodata, source') := by
  obtain ⟨c', hv, hu, he⟩ := sourceGetOctet_chunks hc
  cases h : c.unread with
  | nil =>
    rw [h] at he
    exact ⟨_, _, .nil _, he⟩
  | cons o l =>
    rw [h] at he hu
    obtain ⟨source₁, source', hs, hend⟩ := sourceFromChunks_delivers hv
    rw [hu] at hs
    exact ⟨source₁, source', .cons he hs, hend⟩
termination_by c.unread.length
decreasing_by
  rw [hu, h]
  simp

end Ufw
