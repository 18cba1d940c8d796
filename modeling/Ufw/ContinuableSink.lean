/-
  File:      Ufw/ContinuableSink.lean
  Subject:   THE CONTINUABLE SINK (endpoints/continuable-sink.c): a sink that allocates its block
             with the first octet it is given, and that never refuses an octet.

  * `csAdd`, `runContinuableSink`, `continuableSinkInit` -- the functions of the source;
  * `continuableSink_takes` -- **octets that fit the block behind its reserved front are stored
    there, in order**;
  * `continuableSink_busy` -- where allocation fails, everything is taken and dropped.
-/
import Ufw.ByteBuffer

namespace Ufw

open Base

variable {α : Type}

/-- `ContinuableSink` -/
structure ContinuableSink (α : Type) where
  buffer : ByteBuffer
  alloc : Option (BlockAllocator α)
  fallback : Option ByteBuffer
  postalloc : Option (ByteBuffer → Exec ByteBuffer)
  errorId : Option Errno
  datacount : Nat

/-- `cs_add` -/
def csAdd (cs : ContinuableSink α) (data : List Octet) : Rc × ContinuableSink α :=
  let b := if cs.buffer.data.isSome then some cs.buffer else cs.fallback
  match b with
  | none => (.error .enomem, cs)
  | some b =>
    let n := data.length
    let rest := byteBufferRest b
    let tosave := if n < rest then n else rest
    let (_, b) := byteBufferAdd b (data.take tosave)
    let cs :=
      if cs.buffer.data.isSome then { cs with buffer := b } else { cs with fallback := some b }
    (if tosave < n then .error .enomem else .ok 0, cs)

/-- The end of `run_continuable_sink`: "in normal operation, we're here". -/
def csStore (cs : ContinuableSink α) (data : List Octet) : Rc × ContinuableSink α :=
  let n := data.length
  let m :=
    if cs.buffer.data.isSome then cs.buffer.used
    else match cs.fallback with
      | some fallback => fallback.used
      | none => 0
  match csAdd cs data with
  | (.error _, cs) => (.ok n, { cs with errorId := some .enomem, datacount := sizeAdd m n })
  | (.ok _, cs) => (.ok n, cs)

/-- `run_continuable_sink` -/
def runContinuableSink (cs : ContinuableSink α) (data : List Octet) :
    Exec (Rc × ContinuableSink α) :=
  let n := data.length
  if cs.errorId.isSome then
    let (_, cs) := csAdd cs data
    .ok (.ok n, { cs with datacount := sizeAdd cs.datacount n })
  else
    match cs.buffer.data, cs.alloc, cs.fallback with
    | _, none, none =>
      .ok (.ok n, { cs with errorId := some .enomem, datacount := sizeAdd cs.datacount n })
    | none, some alloc, _ =>
      match blockAlloc alloc with
      | (.error _, alloc) =>
        let cs := { cs with alloc := some alloc, errorId := some .ebusy, datacount := n }
        let (_, cs) := csAdd cs data
        .ok (.ok n, cs)
      | (.ok buf, alloc) => do
        let buffer := { cs.buffer with data := some buf, size := alloc.blocksize }
        let buffer ← (cs.postalloc.getD .ok) buffer
        .ok (csStore { cs with alloc := some alloc, buffer } data)
    | _, _, _ => .ok (csStore cs data)

/-- `continuable_sink_init` -/
def continuableSinkInit (driver : ContinuableSink α) : Sink (ContinuableSink α) :=
  chunkSinkInit runContinuableSink
    { driver with
      buffer := { data := none, size := 0, used := 0, offset := 0 }
      errorId := none
      datacount := 0 }

/-! ## Octets, one at a time

The framing decoders hand a continuable sink single octets. -/

/-- The buffer that holds `l` behind a reserved front. -/
def csBuffer (block : Block) (front size : Nat) (l : List Octet) : ByteBuffer where
  data := some { block with octets := block.octets.store front l }
  size := size
  used := front + l.length
  offset := 0

/-- The state a continuable sink begins in. -/
def ContinuableSink.reset (cs : ContinuableSink α) : ContinuableSink α :=
  { cs with
    buffer := { data := none, size := 0, used := 0, offset := 0 }
    errorId := none
    datacount := 0 }

/-- The sink with a driver in some state. -/
def continuableSink (cs : ContinuableSink α) : Sink (ContinuableSink α) :=
  chunkSinkInit runContinuableSink cs

theorem sinkPutOctet_continuable {cs cs' : ContinuableSink α} {o : Octet} {rc : Rc}
    (h : runContinuableSink cs [o] = .ok (rc, cs')) :
    sinkPutOctet (continuableSink cs) o = .ok (rc, continuableSink cs') := by
  simp only [sinkPutOctet, continuableSink, chunkSinkInit, h, ok_bind]

section Holding

variable {cs : ContinuableSink α} {block : Block} {front size : Nat} {l : List Octet} {o : Octet}

@[simp] theorem csBuffer_isSome : (csBuffer block front size l).data.isSome = true := rfl

/-- An octet is added to the buffer if there is room for it, and dropped if there is none. -/
theorem byteBufferAdd_csBuffer (block : Block) (o : Octet) (hfit : front + l.length ≤ size)
    (hsize : size ≤ ssizeMax) :
    (byteBufferAdd (csBuffer block front size l) [o]).2 =
      csBuffer block front size ((l ++ [o]).take (size - front)) := by
  unfold ssizeMax at hsize
  have hused : sizeAdd (front + l.length) 1 = front + l.length + 1 := sizeAdd_eq (by omega)
  have hroom : (csBuffer block front size l).size <
      sizeAdd (csBuffer block front size l).used [o].length ↔ size < front + l.length + 1 := by
    rw [← hused]
    exact Iff.rfl
  unfold byteBufferAdd
  by_cases hfull : size < front + l.length + 1
  · rw [if_pos (hroom.mpr hfull), List.take_append_of_le_length (by omega),
      List.take_of_length_le (by omega)]
  · have hlen : (l ++ [o]).length ≤ size - front := by
      simp only [List.length_append, List.length_singleton]
      omega
    rw [if_neg (mt hroom.mp hfull), List.take_of_length_le hlen]
    unfold csBuffer
    simp only [Option.map_some, List.length_singleton, hused, List.length_append, Nat.add_assoc,
      Mem.store_append]

/-- An octet is stored behind the others, as long as there is room. -/
theorem csStore_holding {cs : ContinuableSink α} (o : Octet)
    (hcs : cs.buffer = csBuffer block front size l) (hfront : 0 < front)
    (hfit : front + l.length ≤ size) (hsize : size ≤ ssizeMax) :
    csStore cs [o] = (.ok 1, { cs with
      buffer := csBuffer block front size ((l ++ [o]).take (size - front)) }) := by
  obtain ⟨buffer, alloc, fallback, postalloc, errorId, datacount⟩ := cs
  obtain rfl : buffer = csBuffer block front size l := hcs
  have hadd := byteBufferAdd_csBuffer block o hfit hsize
  unfold ssizeMax at hsize
  have hrest : byteBufferRest (csBuffer block front size l) = front + l.length :=
    sizeSub_eq (Nat.zero_le _) (by show front + l.length < 2 ^ 64; omega)
  -- the reserved front counts as unread, so the limit of `cs_add` is never below one octet
  have hsave : (if 1 < front + l.length then 1 else front + l.length) = 1 := by
    split <;> omega
  simp only [csStore, csAdd, csBuffer_isSome, if_true, hrest, List.length_singleton, hsave,
    List.take_succ_cons, List.take_zero, hadd, if_neg (Nat.lt_irrefl 1)]

theorem take_take_append {β : Type} (a v : List β) (k : Nat) :
    (a.take k ++ v).take k = (a ++ v).take k := by
  rw [List.take_append, List.take_append, List.take_take, Nat.min_self, List.length_take]
  congr 2
  omega

/-- A sink that has its block takes everything, and keeps what fits. -/
theorem continuableSink_holding (v : List Octet) (cs : ContinuableSink α) {l : List Octet}
    (herr : cs.errorId = none) (hcs : cs.buffer = csBuffer block front size l)
    (hfront : 0 < front) (hfit : front + l.length ≤ size) (hsize : size ≤ ssizeMax)
    (halloc : cs.alloc.isSome = true) :
    (continuableSink cs).Takes v (continuableSink
      { cs with buffer := csBuffer block front size ((l ++ v).take (size - front)) }) := by
  induction v generalizing cs l with
  | nil =>
    rw [List.append_nil, List.take_of_length_le (by omega), ← hcs]
    exact .nil _
  | cons o v ih =>
    have hstore := csStore_holding o hcs hfront hfit hsize
    have hrun : runContinuableSink cs [o] = .ok (.ok 1, { cs with
        buffer := csBuffer block front size ((l ++ [o]).take (size - front)) }) := by
      obtain ⟨buffer, alloc, fallback, postalloc, errorId, datacount⟩ := cs
      obtain rfl : buffer = csBuffer block front size l := hcs
      obtain rfl : errorId = none := herr
      cases alloc with
      | none => cases halloc
      | some alloc => exact congrArg Except.ok hstore
    generalize hcs' : { cs with
      buffer := csBuffer block front size ((l ++ [o]).take (size - front)) } = cs' at hrun
    have hfit' : front + ((l ++ [o]).take (size - front)).length ≤ size := by
      rw [List.length_take]
      omega
    have ht := ih cs' (by rw [← hcs']; exact herr) (by rw [← hcs']) hfit'
      (by rw [← hcs']; exact halloc)
    rw [take_take_append, List.append_assoc] at ht
    rw [← hcs'] at ht hrun
    exact .cons (sinkPutOctet_continuable hrun) ht

end Holding

/-- **What it is given, the sink stores in its block, behind the reserved front: as much of it as
    there is room for.** -/
theorem continuableSink_fills (cs : ContinuableSink α) {alloc alloc' : BlockAllocator α}
    {block : Block} {front : Nat} (hreset : cs.reset = cs) (halloc : cs.alloc = some alloc)
    (hblock : blockAlloc alloc = (.ok block, alloc'))
    (hpost : cs.postalloc.getD .ok ⟨some block, alloc'.blocksize, 0, 0⟩ =
      .ok (csBuffer block front alloc'.blocksize []))
    (hfront : 0 < front) (hroom : front ≤ alloc'.blocksize) {v : List Octet} (hv : v ≠ []) :
    (continuableSink cs).Takes v (continuableSink
      { cs with alloc := some alloc'
                buffer := csBuffer block front alloc'.blocksize
                  (v.take (alloc'.blocksize - front)) }) := by
  have hsize := alloc'.blocksize_le
  have hnil : front + ([] : List Octet).length ≤ alloc'.blocksize := hroom
  cases v with
  | nil => exact absurd rfl hv
  | cons o v =>
    generalize hcs' : { cs with
      alloc := some alloc', buffer := csBuffer block front alloc'.blocksize [] } = cs'
    have hbuf : cs'.buffer = csBuffer block front alloc'.blocksize [] := by rw [← hcs']
    have halloc' : cs'.alloc = some alloc' := by rw [← hcs']
    have herr : cs'.errorId = none := by rw [← hcs', ← hreset]; rfl
    -- the first octet finds no block yet; behind the allocation, it is stored like the others
    have hrun : runContinuableSink cs [o] = runContinuableSink cs' [o] := by
      rw [← hreset] at hcs' halloc hpost ⊢
      obtain ⟨buffer, alloc₀, fallback, postalloc, errorId, datacount⟩ := cs
      obtain rfl : alloc₀ = some alloc := halloc
      subst hcs'
      simp only [ContinuableSink.reset] at hpost ⊢
      simp only [runContinuableSink, Option.isSome_none, Bool.false_eq_true, if_false, hblock,
        hpost, ok_bind]
      rfl
    have ht := continuableSink_holding (o :: v) cs' herr hbuf hfront hnil hsize
      (by rw [halloc']; rfl)
    have hput : sinkPutOctet (continuableSink cs) o = sinkPutOctet (continuableSink cs') o := by
      simp only [sinkPutOctet, continuableSink, chunkSinkInit, hrun]
    subst hcs'
    cases ht with
    | cons put rest => exact .cons (hput.trans put) rest

/-- **Octets that fit the block behind its reserved front are stored there, in order.** -/
theorem continuableSink_takes (cs : ContinuableSink α) {alloc alloc' : BlockAllocator α}
    {block : Block} {front : Nat} (hreset : cs.reset = cs) (halloc : cs.alloc = some alloc)
    (hblock : blockAlloc alloc = (.ok block, alloc'))
    (hpost : cs.postalloc.getD .ok ⟨some block, alloc'.blocksize, 0, 0⟩ =
      .ok (csBuffer block front alloc'.blocksize []))
    (hfront : 0 < front) {v : List Octet} (hv : v ≠ [])
    (hfit : front + v.length ≤ alloc'.blocksize) :
    (continuableSink cs).Takes v (continuableSink
      { cs with alloc := some alloc', buffer := csBuffer block front alloc'.blocksize v }) := by
  have ht := continuableSink_fills cs hreset halloc hblock hpost hfront (by omega) hv
  rwa [List.take_of_length_le (by omega)] at ht

/-! ## Where there is no block -/

/-- An empty fallback buffer stays empty: its room is measured by what it holds. -/
theorem csAdd_fallback (cs : ContinuableSink α) {block : Block} {size : Nat}
    (hdata : cs.buffer.data = none) (hfallback : cs.fallback = some (byteBufferEmpty block size))
    (o : Octet) : csAdd cs [o] = (.error .enomem, cs) := by
  obtain ⟨⟨data, bsize, used, offset⟩, alloc, fallback, postalloc, errorId, datacount⟩ := cs
  obtain rfl : data = none := hdata
  obtain rfl : fallback = some (byteBufferEmpty block size) := hfallback
  have hrest : byteBufferRest (byteBufferEmpty block size) = 0 :=
    sizeSub_eq (Nat.le_refl 0) (show 0 < 2 ^ 64 by decide)
  have hadd : (byteBufferAdd (byteBufferEmpty block size) []).2 = byteBufferEmpty block size := by
    have hused : sizeAdd 0 0 = 0 := sizeAdd_eq (by decide)
    unfold byteBufferAdd byteBufferEmpty
    simp only [List.length_nil, hused, if_neg (Nat.not_lt_zero size), Option.map_some,
      Mem.store_nil]
  simp only [csAdd, Option.isSome_none, Bool.false_eq_true, if_false, hrest, List.length_singleton,
    if_neg (Nat.not_lt_zero 1), List.take_zero, hadd, if_pos Nat.zero_lt_one]

/-- A sink whose allocation failed takes everything and drops it. -/
theorem continuableSink_dropping (v : List Octet) (cs : ContinuableSink α) {block : Block}
    {size : Nat} (herr : cs.errorId.isSome = true) (hdata : cs.buffer.data = none)
    (hfallback : cs.fallback = some (byteBufferEmpty block size)) :
    ∃ n, (continuableSink cs).Takes v (continuableSink { cs with datacount := n }) := by
  induction v generalizing cs with
  | nil => exact ⟨cs.datacount, .nil _⟩
  | cons o v ih =>
    have hrun : runContinuableSink cs [o] =
        .ok (.ok 1, { cs with datacount := sizeAdd cs.datacount 1 }) := by
      simp only [runContinuableSink, herr, if_true, csAdd_fallback cs hdata hfallback,
        List.length_singleton]
    obtain ⟨n, ht⟩ := ih { cs with datacount := sizeAdd cs.datacount 1 }
      herr hdata hfallback
    exact ⟨n, .cons (sinkPutOctet_continuable hrun) ht⟩

/-- **Where allocation fails, everything is taken and dropped.** -/
theorem continuableSink_busy (cs : ContinuableSink α) {alloc alloc' : BlockAllocator α} {e : Errno}
    {block : Block} {size : Nat} (hreset : cs.reset = cs) (halloc : cs.alloc = some alloc)
    (hblock : blockAlloc alloc = (.error e, alloc'))
    (hfallback : cs.fallback = some (byteBufferEmpty block size)) {v : List Octet} (hv : v ≠ []) :
    ∃ n, (continuableSink cs).Takes v (continuableSink
      { cs with alloc := some alloc', errorId := some .ebusy, datacount := n }) := by
  cases v with
  | nil => exact absurd rfl hv
  | cons o v =>
    have hdata : cs.buffer.data = none := by rw [← hreset]; rfl
    have hrun : runContinuableSink cs [o] = .ok (.ok 1, { cs with
        alloc := some alloc', errorId := some .ebusy, datacount := 1 }) := by
      have hadd := csAdd_fallback { cs with
        alloc := some alloc', errorId := some .ebusy, datacount := 1 } hdata hfallback o
      rw [← hreset] at halloc hadd ⊢
      obtain ⟨buffer, alloc₀, fallback, postalloc, errorId, datacount⟩ := cs
      obtain rfl : alloc₀ = some alloc := halloc
      simp only [ContinuableSink.reset] at hadd ⊢
      simp only [runContinuableSink, Option.isSome_none, Bool.false_eq_true, if_false, hblock,
        List.length_singleton, hadd]
    obtain ⟨n, ht⟩ := continuableSink_dropping v { cs with
        alloc := some alloc', errorId := some .ebusy, datacount := 1 } rfl hdata hfallback
    exact ⟨n, .cons (sinkPutOctet_continuable hrun) ht⟩

end Ufw
