/-
  File:      Ufw/ContinuableSink/Writes.lean
  Subject:   THE CONTINUABLE SINK over runs of writes of any sizes.

  * `csWrites`, `ContinuableSink.Opens` -- a run of writes, and the buffer its first write finds;
  * `KeepsPrefix` -- the sink as it is meant: the buffer holds what fits it of everything written,
    and the error tells what became of the rest;
  * `FitsUnread` -- the octets a buffer has unread suffice for the writes to come;
  * `keepsPrefix_iff` -- **the sink keeps what fits exactly where writes are no larger than what the
    buffer has unread**: `cs_add` measures the room of a buffer by `byte_buffer_rest`, which says
    how much there is to read, and not how much room is left.
-/
import Ufw.ContinuableSink

namespace Ufw

open Base

variable {α : Type}

/-! ## 1. Runs -/

/-- A run of writes, with what they return. -/
def csWrites : ContinuableSink α → List (List Octet) → Exec (List Rc × ContinuableSink α)
  | cs, [] => .ok ([], cs)
  | cs, data :: rest => do
    let (rc, cs) ← runContinuableSink cs data
    let (rcs, cs) ← csWrites cs rest
    .ok (rc :: rcs, cs)

/-- The buffer `cs_add` uses. -/
def ContinuableSink.inUse (cs : ContinuableSink α) : Option ByteBuffer :=
  if cs.buffer.data.isSome then some cs.buffer else cs.fallback

/-- **What the first write opens**: whether allocation fails, and the buffer to use. -/
inductive ContinuableSink.Opens (cs : ContinuableSink α) : Bool → Option ByteBuffer → Prop
  | static (halloc : cs.alloc = none) : Opens cs false cs.fallback
  | busy {alloc alloc' : BlockAllocator α} {e : Errno} (halloc : cs.alloc = some alloc)
      (hblock : blockAlloc alloc = (.error e, alloc')) : Opens cs true cs.fallback
  | block {alloc alloc' : BlockAllocator α} {block : Block} {b : ByteBuffer}
      (halloc : cs.alloc = some alloc) (hblock : blockAlloc alloc = (.ok block, alloc'))
      (hpost : cs.postalloc.getD .ok ⟨some block, alloc'.blocksize, 0, 0⟩ = .ok b)
      (hdata : b.data.isSome) : Opens cs false (some b)

/-- A buffer over memory of its own, or over none. -/
structure ByteBuffer.Owned (b : ByteBuffer) : Prop where
  valid : b.Valid
  data : b.data = none → b.size = 0

/-- `EBUSY` if allocation failed -/
def busyIf (failed : Bool) : Option Errno := if failed then some .ebusy else none

/-- `ENOMEM` if something did not fit -/
def enomemIf (full : Prop) [Decidable full] : Option Errno := if full then some .enomem else none

/-! ## 2. One write -/

/-- What `cs_add` makes of a buffer. -/
def ByteBuffer.put (b : ByteBuffer) (data : List Octet) : ByteBuffer :=
  (byteBufferAdd b (data.take (min data.length (byteBufferRest b)))).2

/-- A sink that is done with allocating, with the buffer it uses and its error. -/
structure ContinuableSink.Open (cs : ContinuableSink α) (b : ByteBuffer) (error : Option Errno) :
    Prop where
  inUse : cs.inUse = some b
  errorId : cs.errorId = error
  done : error = none →
    cs.buffer.data.isSome ∧ cs.alloc.isSome ∨ cs.buffer.data = none ∧ cs.alloc = none

section Write

variable {cs : ContinuableSink α} {b : ByteBuffer} {error : Option Errno}

theorem byteBufferAdd_isSome (b : ByteBuffer) (l : List Octet) :
    (byteBufferAdd b l).2.data.isSome = b.data.isSome := by
  unfold byteBufferAdd
  split
  · rfl
  · exact Option.isSome_map

/-- `cs_add` changes nothing but the buffer in use. -/
theorem csAdd_spec (data : List Octet) (h : cs.inUse = some b) :
    ∃ cs', csAdd cs data =
        (if byteBufferRest b < data.length then .error .enomem else .ok 0, cs') ∧
      cs'.inUse = some (b.put data) ∧ cs'.errorId = cs.errorId ∧ cs'.alloc = cs.alloc ∧
      cs'.buffer.data.isSome = cs.buffer.data.isSome := by
  have hmin : (if data.length < byteBufferRest b then data.length else byteBufferRest b) =
      min data.length (byteBufferRest b) := by
    split <;> omega
  have hshort : min data.length (byteBufferRest b) < data.length ↔
      byteBufferRest b < data.length := by omega
  unfold ContinuableSink.inUse at h
  by_cases hd : cs.buffer.data.isSome
  · rw [if_pos hd] at h
    cases h
    have hput : (cs.buffer.put data).data.isSome = true := (byteBufferAdd_isSome _ _).trans hd
    refine ⟨{ cs with buffer := cs.buffer.put data }, ?_, if_pos hput, rfl, rfl, hput.trans hd.symm⟩
    simp only [csAdd, hd, if_true, hmin, if_congr hshort rfl rfl]
    rfl
  · rw [if_neg hd] at h
    refine ⟨{ cs with fallback := some (b.put data) }, ?_, if_neg hd, rfl, rfl, rfl⟩
    simp only [csAdd, hd, Bool.false_eq_true, if_false, h, hmin, if_congr hshort rfl rfl]
    rfl

/-- Without a buffer nothing is kept. -/
theorem csAdd_none (data : List Octet) (h : cs.inUse = none) :
    csAdd cs data = (.error .enomem, cs) := by
  unfold ContinuableSink.inUse at h
  simp only [csAdd, h]

/-- The end of a write that does not allocate. -/
theorem csStore_spec (data : List Octet) (h : cs.inUse = some b) :
    ∃ cs', csStore cs data = (.ok data.length, cs') ∧ cs'.inUse = some (b.put data) ∧
      cs'.errorId = (if byteBufferRest b < data.length then some .enomem else cs.errorId) ∧
      cs'.alloc = cs.alloc ∧ cs'.buffer.data.isSome = cs.buffer.data.isSome := by
  obtain ⟨cs', hadd, huse, herr, halloc, hdata⟩ := csAdd_spec data h
  unfold csStore
  rw [hadd]
  by_cases hfull : byteBufferRest b < data.length
  · simp only [if_pos hfull]
    exact ⟨_, rfl, huse, rfl, halloc, hdata⟩
  · simp only [if_neg hfull]
    exact ⟨_, rfl, huse, herr, halloc, hdata⟩

/-- **A write to an open sink** is taken whole. -/
theorem ContinuableSink.Open.write (h : cs.Open b error) (data : List Octet) :
    ∃ cs', runContinuableSink cs data = .ok (.ok data.length, cs') ∧
      cs'.Open (b.put data) (error.or (enomemIf (byteBufferRest b < data.length))) := by
  cases error with
  | some e =>
    obtain ⟨cs', hadd, huse, herr, -, -⟩ := csAdd_spec data h.inUse
    refine ⟨{ cs' with datacount := sizeAdd cs'.datacount data.length }, ?_, huse,
      herr.trans h.errorId, fun hnone => nomatch hnone⟩
    simp only [runContinuableSink, h.errorId, Option.isSome_some, if_true, hadd]
  | none =>
    obtain ⟨cs', hstore, huse, herr, halloc, hdata⟩ := csStore_spec data h.inUse
    have hrun : runContinuableSink cs data = .ok (csStore cs data) := by
      rcases h.done rfl with ⟨hd, ha⟩ | ⟨hd, ha⟩
      · obtain ⟨block, hblock⟩ := Option.isSome_iff_exists.mp hd
        obtain ⟨alloc, halloc⟩ := Option.isSome_iff_exists.mp ha
        simp only [runContinuableSink, h.errorId, hblock, halloc]
        rfl
      · have huse := h.inUse
        unfold ContinuableSink.inUse at huse
        rw [hd] at huse
        obtain ⟨fallback, hfallback⟩ : ∃ f, cs.fallback = some f := ⟨b, huse⟩
        simp only [runContinuableSink, h.errorId, hd, ha, hfallback]
        rfl
    refine ⟨cs', by rw [hrun, hstore], huse, ?_, fun _ => ?_⟩
    · rw [herr, h.errorId]
      rfl
    · rw [← Option.not_isSome_iff_eq_none, hdata, halloc, Option.not_isSome_iff_eq_none]
      exact h.done rfl

/-- **The first write opens the sink.** -/
theorem ContinuableSink.Opens.write {failed : Bool} (hreset : cs.reset = cs)
    (h : cs.Opens failed (some b)) (data : List Octet) :
    ∃ cs', runContinuableSink cs data = .ok (.ok data.length, cs') ∧
      cs'.Open (b.put data) ((busyIf failed).or (enomemIf (byteBufferRest b < data.length))) := by
  have herror : cs.errorId = none := by rw [← hreset]; rfl
  have hdata : cs.buffer.data = none := by rw [← hreset]; rfl
  generalize hb : some b = b₀ at h
  cases h with
  | static halloc =>
    have huse : cs.inUse = some b := by
      unfold ContinuableSink.inUse
      rw [hdata]
      exact hb.symm
    have hopen : cs.Open b none := ⟨huse, herror, fun _ => .inr ⟨hdata, halloc⟩⟩
    exact hopen.write data
  | @busy alloc alloc' e halloc hblock =>
    have huse : ContinuableSink.inUse { cs with
        alloc := some alloc', errorId := some .ebusy, datacount := data.length } = some b := by
      unfold ContinuableSink.inUse
      rw [hdata]
      exact hb.symm
    obtain ⟨cs', hadd, huse', herr, -, -⟩ := csAdd_spec data huse
    refine ⟨cs', ?_, huse', herr, fun hnone => nomatch hnone⟩
    simp only [runContinuableSink, herror, hdata, halloc, hblock, hadd]
    rfl
  | @block alloc alloc' block b' halloc hblock hpost hsome =>
    cases hb
    have huse : ContinuableSink.inUse { cs with alloc := some alloc', buffer := b } = some b :=
      if_pos hsome
    obtain ⟨cs', hstore, huse', herr, halloc', hdata'⟩ := csStore_spec data huse
    refine ⟨cs', ?_, huse', ?_, fun _ => .inl ⟨hdata'.trans hsome, by rw [halloc']; rfl⟩⟩
    · have hbuffer : cs.buffer = ⟨none, 0, 0, 0⟩ := by rw [← hreset]; rfl
      rw [herror] at hstore
      simp only [runContinuableSink, herror, Option.isSome_none, Bool.false_eq_true, if_false,
        hbuffer, halloc, hblock, hpost, ok_bind, hstore]
    · rw [herr]
      show (if _ then _ else cs.errorId) = _
      rw [herror]
      rfl

end Write

/-! ## 3. What a write keeps -/

/-- **Writes that fit what the buffer has unread**: `rest` octets are unread, `avail` more fit, and
    `failed` says whether there is an error by now. A write that fits the buffer must find as many
    octets unread as it has. One that does not must find as many octets unread as fit, or none may
    fit any more; and it must not fit the unread ones either, or there must be an error. -/
def FitsUnread : Nat → Nat → Bool → List Nat → Prop
  | _, _, _, [] => True
  | rest, avail, failed, n :: sizes =>
    (if n ≤ avail then n ≤ rest
      else (avail = 0 ∨ rest = avail) ∧ (rest < n ∨ failed = true)) ∧
    FitsUnread (rest + min n avail) (avail - n) (failed || decide (avail < n)) sizes

section Put

variable {b : ByteBuffer} {error : Option Errno} {data l : List Octet}

@[simp] theorem ByteBuffer.length_filled (b : ByteBuffer) : b.filled.length = b.used :=
  Mem.length_slice _ _ _

theorem ByteBuffer.Owned.append (hb : b.Owned) (hl : l.length ≤ b.size - b.used) :
    (b.append l).Owned :=
  ⟨hb.valid.append hl, fun hnone => hb.data (Option.map_eq_none_iff.mp hnone)⟩

/-- What `cs_add` saves is at most what is unread, and nothing if that does not fit. -/
theorem ByteBuffer.put_eq (hb : b.Owned) (data : List Octet) :
    b.put data =
      if b.size - b.used < min data.length (b.used - b.offset) then b
      else b.append (data.take (min data.length (b.used - b.offset))) := by
  have hu := hb.valid.used_le
  have hs := hb.valid.size_le
  have hlen : (data.take (min data.length (b.used - b.offset))).length =
      min data.length (b.used - b.offset) := by
    rw [List.length_take]
    omega
  rw [ByteBuffer.put, byteBufferRest_eq hb.valid, byteBufferAdd_eq hb.valid (by rw [hlen]; omega),
    hlen]
  split <;> rfl

theorem ByteBuffer.put_owned (hb : b.Owned) (data : List Octet) :
    (b.put data).Owned ∧ (b.put data).size = b.size ∧ (b.put data).offset = b.offset := by
  rw [ByteBuffer.put_eq hb]
  split
  · exact ⟨hb, rfl, rfl⟩
  · refine ⟨hb.append ?_, rfl, rfl⟩
    rw [List.length_take]
    omega

theorem ByteBuffer.put_filled (hb : b.Owned) (data : List Octet) :
    (b.put data).filled = b.filled ++ data.take
      (if b.size - b.used < min data.length (b.used - b.offset) then 0
        else min data.length (b.used - b.offset)) := by
  rw [ByteBuffer.put_eq hb]
  split
  · rw [List.take_zero, List.append_nil]
  · refine ByteBuffer.filled_append hb.valid hb.data ?_
    rw [List.length_take]
    omega

theorem or_enomemIf_iff (error : Option Errno) (p q : Prop) [Decidable p] [Decidable q] :
    error.or (enomemIf p) = error.or (enomemIf q) ↔ error.isSome = true ∨ (p ↔ q) := by
  cases error with
  | some e => simp
  | none =>
    unfold enomemIf
    by_cases hp : p <;> by_cases hq : q <;> simp [hp, hq]

/-- **One write keeps what fits** exactly where it fits what is unread. -/
theorem ByteBuffer.put_filled_iff (hb : b.Owned) (error : Option Errno) (data : List Octet) :
    ((b.put data).filled = b.filled ++ data.take (b.size - b.used) ∧
      error.or (enomemIf (byteBufferRest b < data.length)) =
        error.or (enomemIf (b.size - b.used < data.length))) ↔
    if data.length ≤ b.size - b.used then data.length ≤ b.used - b.offset
      else (b.size - b.used = 0 ∨ b.used - b.offset = b.size - b.used) ∧
        (b.used - b.offset < data.length ∨ error.isSome = true) := by
  rw [ByteBuffer.put_filled hb, List.append_cancel_left_eq, List.take_eq_take_iff,
    byteBufferRest_eq hb.valid, or_enomemIf_iff]
  generalize b.size - b.used = avail
  generalize b.used - b.offset = rest
  generalize error.isSome = already
  by_cases hfit : data.length ≤ avail
  · have hsave : ¬ avail < min data.length rest := by omega
    rw [if_pos hfit, if_neg hsave]
    constructor
    · rintro ⟨hsaved, -⟩
      omega
    · intro hle
      exact ⟨by omega, .inr (by omega)⟩
  · rw [if_neg hfit]
    constructor
    · rintro ⟨hsaved, herr⟩
      refine ⟨?_, ?_⟩
      · split at hsaved <;> omega
      · rcases herr with hset | hiff
        · exact .inr hset
        · exact .inl (hiff.mpr (by omega))
    · rintro ⟨hroom, herr⟩
      refine ⟨by split <;> omega, ?_⟩
      rcases herr with hlt | hset
      · exact .inr ⟨fun _ => by omega, fun _ => hlt⟩
      · exact .inl hset

end Put

/-! ## 4. What a run keeps -/

/-- The octets that fit the buffer, if there is one. -/
def roomOf (buffer : Option ByteBuffer) : Nat := buffer.elim 0 fun b => b.size - b.used

/-- **The sink as it is meant**, after `data` was written: its buffer holds what it held and the
    longest prefix of `data` that fits, and the error tells whether something did not. -/
structure Holds (buffer : Option ByteBuffer) (error : Option Errno) (data : List Octet)
    (cs : ContinuableSink α) : Prop where
  filled : ∀ b, buffer = some b →
    ∃ b', cs.inUse = some b' ∧ b'.filled = b.filled ++ data.take (b.size - b.used)
  errorId : cs.errorId = error.or (enomemIf (roomOf buffer < data.length))

/-- **Every run of writes is taken whole, and what fits is kept**: for the writes given, and for any
    number of them from the first on. -/
def KeepsPrefix (cs : ContinuableSink α) (buffer : Option ByteBuffer) (error : Option Errno)
    (writes : List (List Octet)) : Prop :=
  ∀ k, 0 < k → k ≤ writes.length → ∃ cs',
    csWrites cs (writes.take k) = .ok ((writes.take k).map fun data => .ok data.length, cs') ∧
    Holds buffer error (writes.take k).flatten cs'

section Run

variable {cs cs₁ cs' : ContinuableSink α} {b : ByteBuffer} {error : Option Errno}
  {data l : List Octet} {writes : List (List Octet)}

theorem csWrites_cons (hrun : runContinuableSink cs data = .ok (.ok data.length, cs₁)) :
    csWrites cs (data :: writes) = .ok ((data :: writes).map fun data => .ok data.length, cs') ↔
      csWrites cs₁ writes = .ok (writes.map fun data => .ok data.length, cs') := by
  rcases hrest : csWrites cs₁ writes with e | ⟨rcs, cs₂⟩
  · simp only [csWrites, hrun, hrest, ok_bind, error_bind, reduceCtorEq]
  · simp only [csWrites, hrun, hrest, ok_bind, List.map_cons, Except.ok.injEq, Prod.mk.injEq,
      List.cons.injEq, true_and]

/-- What is kept of two writes is what the second one adds to the first one. -/
theorem holds_append_iff (hb : b.Owned)
    (hput : (b.put data).filled = b.filled ++ data.take (b.size - b.used)) :
    Holds (some b) error (data ++ l) cs' ↔
      Holds (some (b.put data)) (error.or (enomemIf (b.size - b.used < data.length))) l cs' := by
  have hused : (b.put data).used = b.used + min (b.size - b.used) data.length := by
    have hlen := congrArg List.length hput
    rwa [List.length_append, List.length_take, ByteBuffer.length_filled,
      ByteBuffer.length_filled] at hlen
  have hroom : (b.put data).size - (b.put data).used = b.size - b.used - data.length := by
    rw [(ByteBuffer.put_owned hb data).2.1, hused]
    omega
  have hroomOf : roomOf (some (b.put data)) = b.size - b.used - data.length := hroom
  have hall : (b.put data).filled ++ l.take ((b.put data).size - (b.put data).used) =
      b.filled ++ (data ++ l).take (b.size - b.used) := by
    rw [hput, hroom, List.take_append, List.append_assoc]
  have herr : (error.or (enomemIf (b.size - b.used < data.length))).or
      (enomemIf (b.size - b.used - data.length < l.length)) =
      error.or (enomemIf (b.size - b.used < (data ++ l).length)) := by
    rw [List.length_append]
    cases error with
    | some e => rfl
    | none =>
      unfold enomemIf
      by_cases hfull : b.size - b.used < data.length
      · have hfull' : b.size - b.used < data.length + l.length := Nat.lt_add_right _ hfull
        rw [if_pos hfull, if_pos hfull']
        rfl
      · have hiff : b.size - b.used - data.length < l.length ↔
            b.size - b.used < data.length + l.length := by omega
        rw [if_neg hfull, if_congr hiff rfl rfl]
        rfl
  constructor
  · rintro ⟨hfilled, herror⟩
    refine ⟨fun b' hb' => ?_, ?_⟩
    · obtain rfl : b.put data = b' := Option.some.inj hb'
      rw [hall]
      exact hfilled b rfl
    · rw [herror, hroomOf, herr]
      rfl
  · rintro ⟨hfilled, herror⟩
    refine ⟨fun b' hb' => ?_, ?_⟩
    · obtain rfl : b = b' := Option.some.inj hb'
      rw [← hall]
      exact hfilled _ rfl
    · rw [herror, hroomOf, herr]
      rfl

/-- **One more write**: it keeps what fits, and the others go on from there. -/
theorem keepsPrefix_cons (hb : b.Owned)
    (hrun : runContinuableSink cs data = .ok (.ok data.length, cs₁))
    (hopen : cs₁.Open (b.put data) (error.or (enomemIf (byteBufferRest b < data.length)))) :
    KeepsPrefix cs (some b) error (data :: writes) ↔
      ((b.put data).filled = b.filled ++ data.take (b.size - b.used) ∧
        error.or (enomemIf (byteBufferRest b < data.length)) =
          error.or (enomemIf (b.size - b.used < data.length))) ∧
      KeepsPrefix cs₁ (some (b.put data)) (error.or (enomemIf (byteBufferRest b < data.length)))
        writes := by
  constructor
  · intro hkeeps
    have hfirst : (b.put data).filled = b.filled ++ data.take (b.size - b.used) ∧
        error.or (enomemIf (byteBufferRest b < data.length)) =
          error.or (enomemIf (b.size - b.used < data.length)) := by
      obtain ⟨cs', hret, hfilled, herror⟩ := hkeeps 1 Nat.one_pos (Nat.succ_le_succ (Nat.zero_le _))
      rw [List.take_succ_cons, List.take_zero, csWrites_cons hrun] at hret
      cases hret
      obtain ⟨b', huse, hb'⟩ := hfilled b rfl
      rw [List.take_succ_cons, List.take_zero, List.flatten_singleton] at hb' herror
      rw [hopen.inUse] at huse
      cases huse
      exact ⟨hb', hopen.errorId.symm.trans herror⟩
    refine ⟨hfirst, fun k h0 hk => ?_⟩
    obtain ⟨cs', hret, hholds⟩ := hkeeps (k + 1) (Nat.succ_pos k) (Nat.succ_le_succ hk)
    rw [List.take_succ_cons] at hret hholds
    rw [List.flatten_cons, holds_append_iff hb hfirst.1, ← hfirst.2] at hholds
    exact ⟨cs', (csWrites_cons hrun).mp hret, hholds⟩
  · rintro ⟨hfirst, hkeeps⟩ k h0 hk
    obtain ⟨k, rfl⟩ : ∃ m, k = m + 1 := ⟨k - 1, (Nat.succ_pred_eq_of_pos h0).symm⟩
    rw [List.take_succ_cons]
    rcases Nat.eq_zero_or_pos k with rfl | hpos
    · refine ⟨cs₁, (csWrites_cons hrun).mpr rfl, fun b' hb' => ?_, ?_⟩
      · cases hb'
        refine ⟨_, hopen.inUse, ?_⟩
        rw [hfirst.1, List.take_zero, List.flatten_singleton]
      · rw [hopen.errorId, hfirst.2, List.take_zero, List.flatten_singleton]
        rfl
    · obtain ⟨cs', hret, hholds⟩ := hkeeps k hpos (Nat.le_of_succ_le_succ hk)
      refine ⟨cs', (csWrites_cons hrun).mpr hret, ?_⟩
      rw [List.flatten_cons, holds_append_iff hb hfirst.1, ← hfirst.2]
      exact hholds

/-- A first write that fits, before others that fit. -/
theorem keepsPrefix_step (hb : b.Owned)
    (hrun : runContinuableSink cs data = .ok (.ok data.length, cs₁))
    (hopen : cs₁.Open (b.put data) (error.or (enomemIf (byteBufferRest b < data.length))))
    (hrest : KeepsPrefix cs₁ (some (b.put data))
        (error.or (enomemIf (byteBufferRest b < data.length))) writes ↔
      FitsUnread ((b.put data).used - (b.put data).offset) ((b.put data).size - (b.put data).used)
        (error.or (enomemIf (byteBufferRest b < data.length))).isSome (writes.map List.length)) :
    KeepsPrefix cs (some b) error (data :: writes) ↔
      FitsUnread (b.used - b.offset) (b.size - b.used) error.isSome
        ((data :: writes).map List.length) := by
  rw [keepsPrefix_cons hb hrun hopen, List.map_cons, FitsUnread, ← ByteBuffer.put_filled_iff hb]
  refine and_congr_right fun hfirst => hrest.trans (Eq.to_iff ?_)
  obtain ⟨-, hsize, hoffset⟩ := ByteBuffer.put_owned hb data
  have hle := hb.valid.offset_le
  have hused : (b.put data).used = b.used + min data.length (b.size - b.used) := by
    have hlen := congrArg List.length hfirst.1
    rwa [List.length_append, List.length_take, ByteBuffer.length_filled,
      ByteBuffer.length_filled, Nat.min_comm] at hlen
  have herr : (error.or (enomemIf (byteBufferRest b < data.length))).isSome =
      (error.isSome || decide (b.size - b.used < data.length)) := by
    rw [hfirst.2, Option.isSome_or]
    unfold enomemIf
    by_cases hfull : b.size - b.used < data.length <;> simp [hfull]
  rw [herr, hsize, hoffset, hused]
  congr 1 <;> omega

/-- **An open sink keeps what fits** exactly where the writes fit what is unread. -/
theorem ContinuableSink.Open.keeps_iff (writes : List (List Octet)) :
    ∀ {cs : ContinuableSink α} {b : ByteBuffer} {error : Option Errno}, b.Owned → cs.Open b error →
    (KeepsPrefix cs (some b) error writes ↔ FitsUnread (b.used - b.offset) (b.size - b.used)
      error.isSome (writes.map List.length)) := by
  induction writes with
  | nil =>
    intro cs b error _ _
    exact ⟨fun _ => trivial, fun _ k h0 hk => absurd (lt_of_lt_of_le h0 hk) (Nat.lt_irrefl 0)⟩
  | cons data writes ih =>
    intro cs b error hb hopen
    obtain ⟨cs₁, hrun, hopen₁⟩ := hopen.write data
    exact keepsPrefix_step hb hrun hopen₁ (ih (ByteBuffer.put_owned hb data).1 hopen₁)

end Run

/-! ## 5. Without a buffer -/

section Bufferless

variable {cs : ContinuableSink α} {error : Errno}

/-- A sink in error that has no buffer drops everything. -/
theorem csWrites_dropped (writes : List (List Octet)) : ∀ cs : ContinuableSink α,
    cs.inUse = none → cs.errorId = some error → ∃ cs',
      csWrites cs writes = .ok (writes.map fun data => .ok data.length, cs') ∧
      cs'.errorId = some error := by
  induction writes with
  | nil => exact fun _ _ herr => ⟨_, rfl, herr⟩
  | cons data writes ih =>
    intro cs huse herr
    have hrun : runContinuableSink cs data = .ok (.ok data.length,
        { cs with datacount := sizeAdd cs.datacount data.length }) := by
      simp only [runContinuableSink, herr, Option.isSome_some, if_true, csAdd_none data huse]
    obtain ⟨cs', hret, herr'⟩ := ih
      { cs with datacount := sizeAdd cs.datacount data.length } huse herr
    exact ⟨cs', (csWrites_cons hrun).mpr hret, herr'⟩

/-- The first write finds no buffer. -/
theorem ContinuableSink.Opens.write_none {failed : Bool} (hreset : cs.reset = cs)
    (h : cs.Opens failed none) (data : List Octet) : ∃ cs',
      runContinuableSink cs data = .ok (.ok data.length, cs') ∧ cs'.inUse = none ∧
      cs'.errorId = (busyIf failed).or (some .enomem) := by
  have herror : cs.errorId = none := by rw [← hreset]; rfl
  have hdata : cs.buffer.data = none := by rw [← hreset]; rfl
  generalize hb : (none : Option ByteBuffer) = b₀ at h
  cases h with
  | static halloc =>
    refine ⟨{ cs with
      errorId := some .enomem, datacount := sizeAdd cs.datacount data.length }, ?_, ?_, rfl⟩
    · simp only [runContinuableSink, herror, Option.isSome_none, Bool.false_eq_true, if_false,
        halloc, ← hb]
    · unfold ContinuableSink.inUse
      rw [hdata]
      rfl
  | @busy alloc alloc' e halloc hblock =>
    have huse : ContinuableSink.inUse { cs with
        alloc := some alloc', errorId := some .ebusy, datacount := data.length } = none := by
      unfold ContinuableSink.inUse
      rw [hdata]
      exact hb.symm
    refine ⟨{ cs with
      alloc := some alloc', errorId := some .ebusy, datacount := data.length }, ?_, huse.trans hb,
      rfl⟩
    simp only [runContinuableSink, herror, hdata, halloc, hblock, csAdd_none data huse]
    rfl
  | block => cases hb

/-- **Without a buffer** the error is right, unless the first write is empty and allocation did not
    fail. -/
theorem ContinuableSink.Opens.keepsPrefix_none {failed : Bool} (hreset : cs.reset = cs)
    (h : cs.Opens failed none) (writes : List (List Octet)) :
    KeepsPrefix cs none (busyIf failed) writes ↔
      (failed = true ∨ (writes.map List.length).head? ≠ some 0) := by
  cases writes with
  | nil =>
    exact ⟨fun _ => .inr (by simp),
      fun _ k h0 hk => absurd (lt_of_lt_of_le h0 hk) (Nat.lt_irrefl 0)⟩
  | cons data writes =>
    obtain ⟨cs₁, hrun, huse, herr⟩ := h.write_none hreset data
    have hset : (busyIf failed).isSome = true ↔ failed = true := by cases failed <;> simp [busyIf]
    have hor := or_enomemIf_iff (busyIf failed) True
    constructor
    · intro hkeeps
      obtain ⟨cs', hret, -, herror⟩ := hkeeps 1 Nat.one_pos (Nat.succ_le_succ (Nat.zero_le _))
      rw [List.take_succ_cons, List.take_zero] at hret herror
      rw [List.flatten_singleton] at herror
      cases (csWrites_cons hrun).mp hret
      rcases (hor (0 < data.length)).mp (herr.symm.trans herror) with hf | hiff
      · exact .inl (hset.mp hf)
      · exact .inr fun h0 => Nat.ne_of_gt (hiff.mp trivial) (Option.some.inj h0)
    · intro hfits k h0 _
      obtain ⟨k, rfl⟩ : ∃ m, k = m + 1 := ⟨k - 1, (Nat.succ_pred_eq_of_pos h0).symm⟩
      obtain ⟨error, herror⟩ : ∃ e, (busyIf failed).or (some .enomem) = some e := by
        cases failed <;> exact ⟨_, rfl⟩
      obtain ⟨cs', hret, herr'⟩ := csWrites_dropped (writes.take k) cs₁ huse (herr.trans herror)
      refine ⟨cs', (csWrites_cons hrun).mpr hret, fun b hb => (nomatch hb), ?_⟩
      rw [herr', ← herror]
      refine (hor _).mpr (hfits.imp hset.mpr fun hne => ⟨fun _ => ?_, fun _ => trivial⟩)
      have hpos : 0 < data.length := Nat.pos_of_ne_zero fun h0 => hne (congrArg some h0)
      rw [List.take_succ_cons, List.flatten_cons, List.length_append]
      exact Nat.lt_add_right _ hpos

end Bufferless

/-! ## 6. When a run keeps what fits -/

/-- The writes of some sizes fit what the buffer in use has unread; without a buffer the first one
    has to have octets, unless allocation failed. -/
def FitsInUse (failed : Bool) (sizes : List Nat) : Option ByteBuffer → Prop
  | some b => FitsUnread (b.used - b.offset) (b.size - b.used) failed sizes
  | none => failed = true ∨ sizes.head? ≠ some 0

/-- **The sink keeps what fits exactly where the writes fit what its buffer has unread**, whether
    its buffer was allocated, is the fallback since allocation failed, or is all it has. -/
theorem keepsPrefix_iff (cs : ContinuableSink α) (hreset : cs.reset = cs) {failed : Bool}
    {buffer : Option ByteBuffer} (hopens : cs.Opens failed buffer)
    (howned : ∀ b, buffer = some b → b.Owned) (writes : List (List Octet)) :
    KeepsPrefix cs buffer (busyIf failed) writes ↔
      FitsInUse failed (writes.map List.length) buffer := by
  cases buffer with
  | none => exact hopens.keepsPrefix_none hreset writes
  | some b =>
    have hb := howned b rfl
    have hfailed : (busyIf failed).isSome = failed := by cases failed <;> rfl
    cases writes with
    | nil =>
      exact ⟨fun _ => trivial, fun _ k h0 hk => absurd (lt_of_lt_of_le h0 hk) (Nat.lt_irrefl 0)⟩
    | cons data writes =>
      obtain ⟨cs₁, hrun, hopen⟩ := hopens.write hreset data
      have hiff := keepsPrefix_step hb hrun hopen
        (ContinuableSink.Open.keeps_iff writes (ByteBuffer.put_owned hb data).1 hopen)
      rwa [hfailed] at hiff

/-- A sink without an allocator, whose fallback buffer of four octets holds some already. -/
def fallbackSink (used : Nat) : ContinuableSink Unit where
  buffer := ⟨none, 0, 0, 0⟩
  alloc := none
  fallback := some { byteBufferEmpty ⟨0, fun _ => 0⟩ 4 with used }
  postalloc := none
  errorId := none
  datacount := 0

theorem fallbackSink_opens (used : Nat) : (fallbackSink used).Opens false
    (some { byteBufferEmpty ⟨0, fun _ => 0⟩ 4 with used }) := .static rfl

theorem keepsPrefix_iff_sample :
    KeepsPrefix (fallbackSink 2) (some { byteBufferEmpty ⟨0, fun _ => 0⟩ 4 with used := 2 })
        (busyIf false) [[1], [2, 3]] ↔
      FitsInUse false [1, 2] (some { byteBufferEmpty ⟨0, fun _ => 0⟩ 4 with used := 2 }) :=
  keepsPrefix_iff (fallbackSink 2) rfl (fallbackSink_opens 2)
    (fun _ hb => Option.some.inj hb ▸ ⟨⟨by decide, by decide, by decide⟩, fun h => nomatch h⟩)
    [[1], [2, 3]]

/-- **An empty buffer keeps nothing**: one octet does not fit four. -/
theorem not_holds_emptyFallback :
    ¬ ∀ (cs : ContinuableSink Unit) (failed : Bool) (buffer : Option ByteBuffer), cs.reset = cs →
      cs.Opens failed buffer → (∀ b, buffer = some b → b.Owned) →
      ∀ writes : List (List Octet), writes ≠ [] → ∃ cs',
        csWrites cs writes = .ok (writes.map fun data => .ok data.length, cs') ∧
        Holds buffer (busyIf failed) writes.flatten cs' := by
  intro hall
  obtain ⟨cs', hret, hholds⟩ := hall (fallbackSink 0) false _ rfl (fallbackSink_opens 0)
    (fun _ hb => Option.some.inj hb ▸ ⟨⟨by decide, by decide, by decide⟩, fun h => nomatch h⟩)
    [[1]] (by decide)
  have herr : cs'.errorId = some .enomem := by
    have hrun := congrArg (fun r => r.toOption.bind (·.2.errorId)) hret
    exact hrun.symm.trans (by decide)
  exact absurd (herr.symm.trans hholds.errorId) (by decide)

end Ufw
