/-
  File:      Ufw/VariableLengthInteger/Decoding.lean
  Subject:   VARIABLE LENGTH INTEGERS: both decoders on octets of any kind, and what the one for
             buffers reads.

  * `VarintReadable` -- octets that settle what a decoder does: one of the first ends a number, or
    there are as many as a number can have;
  * `varintDecode_fromSource` -- **on these, a buffer and a source are decoded alike**;
  * `varintDecodeReads` -- the decoder of buffers, with the indices it reads;
  * `varintDecode_bounded_iff` -- **it stays in its buffer on these, and on no others**: its loop
    asks for the octets of the longest number, not for those of the buffer.
-/
import Ufw.Base.Reads
import Ufw.VariableLengthInteger.RoundTrip

namespace Ufw

open Base

variable {σ : Type}

/-! ## 1. Octets that settle what a decoder does -/

/-- One of the first `maxoctets` octets ends a number, or there are that many. -/
def VarintReadable (maxoctets : Nat) (l : List Octet) : Prop :=
  (∃ o ∈ l.take maxoctets, varintDone o = true) ∨ maxoctets ≤ l.length

theorem varintReadable_zero (l : List Octet) : VarintReadable 0 l := .inr (Nat.zero_le _)

theorem not_varintReadable_nil (left : Nat) : ¬ VarintReadable (left + 1) [] := by
  rintro (⟨o, ho, -⟩ | hle)
  · cases ho
  · cases hle

theorem varintReadable_cons (left : Nat) (o : Octet) (l : List Octet) :
    VarintReadable (left + 1) (o :: l) ↔ varintDone o = true ∨ VarintReadable left l := by
  unfold VarintReadable
  rw [List.take_succ_cons, List.length_cons, Nat.succ_le_succ_iff]
  constructor
  · rintro (⟨o', ho, hdone⟩ | hle)
    · rcases List.mem_cons.mp ho with rfl | ho
      · exact .inl hdone
      · exact .inr (.inl ⟨o', ho, hdone⟩)
    · exact .inr (.inr hle)
  · rintro (hdone | ⟨o', ho, hdone⟩ | hle)
    · exact .inl ⟨o, List.mem_cons_self, hdone⟩
    · exact .inl ⟨o', List.mem_cons_of_mem _ ho, hdone⟩
    · exact .inr hle

/-! ## 2. The two loops -/

/-- **The loops of the two decoders do the same**, octet by octet. -/
theorem varintLoops_agree (h : Host) {left : Nat} {l : List Octet} (hl : VarintReadable left l)
    {buf : Mem Octet} {i : Nat} (hbuf : buf.slice i l.length = l) (acc : BitVec 64)
    {source source' : Source σ} (hs : source.Delivers l source') :
    ∃ rc n source₁, varintDecodeLoop buf left i acc = (rc, n) ∧
      varintFromSourceLoop h left i acc source = (rc, n, source₁) ∧
      (rc = .error .eilseq ∨ ∃ m, rc = .ok (i + m) ∧ m ≤ l.length ∧
        source.Delivers (l.take m) source₁ ∧ source₁.Delivers (l.drop m) source') := by
  induction left generalizing l i acc source with
  | zero => exact ⟨_, _, _, rfl, rfl, .inl rfl⟩
  | succ left ih =>
    cases hs with
    | nil => exact absurd hl (not_varintReadable_nil left)
    | @cons _ source₁ _ o l get hrest =>
    rw [List.length_cons, Mem.slice_succ] at hbuf
    obtain ⟨rfl, hbuf'⟩ := List.cons.inj hbuf
    by_cases hdone : varintDone (buf i) = true
    · refine ⟨.ok (i + 1), _, source₁, by rw [varintDecodeLoop, if_pos hdone],
        by simp only [varintFromSourceLoop, get, Option.getD_some, hdone, if_true],
        .inr ⟨1, rfl, Nat.succ_le_succ (Nat.zero_le _), .cons get (.nil _), hrest⟩⟩
    · have hl' := ((varintReadable_cons _ _ _).mp hl).resolve_left hdone
      obtain ⟨rc, n, source₂, hdec, hsrc, hres⟩ := ih hl' hbuf' _ hrest
      refine ⟨rc, n, source₂, by rw [varintDecodeLoop, if_neg hdone]; exact hdec,
        by simp only [varintFromSourceLoop, get, Option.getD_some, if_neg hdone]; exact hsrc, ?_⟩
      rcases hres with herr | ⟨m, rfl, hm, h1, h2⟩
      · exact .inl herr
      · refine .inr ⟨m + 1, by rw [Nat.add_assoc, Nat.add_comm 1], Nat.succ_le_succ hm, ?_, h2⟩
        exact .cons get h1

/-- **Buffers and sources are decoded alike.** For each of the types, and octets that settle what a
    decoder does: the return codes are the same; where they are a success, the values are, and both
    have taken as many octets; where they are a failure, the buffer is as it was. -/
theorem varintDecode_fromSource (h : Host) (k : VarintType) {l : List Octet}
    (hl : VarintReadable k.maxOctets l) {b : ByteBuffer}
    (hb : b.octets.slice b.offset l.length = l) (hfit : b.offset + l.length ≤ b.size)
    (hsize : b.size < 2 ^ 64) {source source' : Source σ} (hs : source.Delivers l source') :
    ∃ rc n b' n' source₁, k.decode b = (rc, n, b') ∧ k.fromSource h source = (rc, n', source₁) ∧
      (∀ m, rc = .ok m → n = n' ∧ b' = { b with offset := b.offset + m } ∧
        source.Delivers (l.take m) source₁ ∧ source₁.Delivers (l.drop m) source') ∧
      ∀ e, rc = .error e → b' = b := by
  have hbuf : (b.octets.shift b.offset).slice 0 l.length = l := by rwa [Mem.slice_shift]
  obtain ⟨rc, n, source₁, hdec, hsrc, hres⟩ := varintLoops_agree h hl hbuf 0 hs
  rw [VarintType.decode_eq, VarintType.fromSource_eq, varintDecodeAs, varintDecode,
    varintFromSourceAs, varintFromSource, hdec, hsrc]
  rcases hres with rfl | ⟨m, rfl, hm, h1, h2⟩
  · exact ⟨_, _, b, _, source₁, rfl, rfl, fun m hm => (by cases hm), fun _ _ => rfl⟩
  · rw [Nat.zero_add]
    refine ⟨_, _, _, _, source₁, rfl, rfl, fun m' hm' => ?_, fun e he => by cases he⟩
    cases hm'
    have hadd : sizeAdd b.offset m = b.offset + m := sizeAdd_eq (by omega)
    exact ⟨rfl, by rw [hadd], h1, h2⟩

/-- A number of two octets in front of another octet. -/
theorem varintDecode_fromSource_sample :
    ∃ n b' n' source₁,
      VarintType.decode .s64 (byteBufferOf (Mem.ofList 0 [0x96, 0x01, 0x33]) 3) =
        (.ok 2, n, b') ∧
      VarintType.fromSource lp64Host .s64 (streamSource [0x96, 0x01, 0x33]) =
        (.ok 2, n', source₁) ∧ n = n' ∧ b'.offset = 2 := by
  obtain ⟨rc, n, b', n', source₁, hdec, hsrc, hok, -⟩ :=
    varintDecode_fromSource lp64Host .s64 (l := [0x96, 0x01, 0x33])
      (.inl ⟨0x01, by decide, by decide⟩)
      (b := byteBufferOf (Mem.ofList 0 [0x96, 0x01, 0x33]) 3) (by decide) (by decide) (by decide)
      (streamSource_delivers_all _)
  obtain rfl : rc = .ok 2 := (congrArg Prod.fst hdec).symm
  obtain ⟨hn, rfl, -⟩ := hok 2 rfl
  exact ⟨n, _, n', source₁, hdec, hsrc, hn, rfl⟩

/-! ## 3. What the decoder of buffers reads -/

/-- The loop of `varint_decode`, with the indices it reads. -/
def varintDecodeLoopReads (octets : Mem Octet) (offset : Nat) :
    Nat → Nat → BitVec 64 → Reads (Rc × BitVec 64)
  | 0, _, n => pure (.error .eilseq, n)
  | left + 1, i, n => do
    let datum ← Reads.cell octets (offset + i)
    let n := n ||| ((datum &&& varintDataMask).setWidth 64 <<< (i * varintDataBits))
    if varintDone datum then pure (.ok (i + 1), n)
    else varintDecodeLoopReads octets offset left (i + 1) n

/-- `varint_decode`, with the indices it reads. -/
def varintDecodeReads (b : ByteBuffer) (maxoctets : Nat) : Reads (Rc × BitVec 64 × ByteBuffer) := do
  match ← varintDecodeLoopReads b.octets b.offset maxoctets 0 0 with
  | (.ok rc, n) => pure (.ok rc, n, { b with offset := sizeAdd b.offset rc })
  | (.error e, n) => pure (.error e, n, b)

/-- `varint_decode_*`, with the indices it reads. -/
def VarintType.decodeReads (k : VarintType) (b : ByteBuffer) :
    Reads (Rc × BitVec k.bits × ByteBuffer) := do
  let (rc, data, b) ← varintDecodeReads b k.maxOctets
  pure (rc, k.take data, b)

theorem varintDecodeLoopReads_val (octets : Mem Octet) (offset left i : Nat) (n : BitVec 64) :
    (varintDecodeLoopReads octets offset left i n).val =
      varintDecodeLoop (octets.shift offset) left i n := by
  induction left generalizing i n with
  | zero => rfl
  | succ left ih =>
    rw [varintDecodeLoopReads, varintDecodeLoop, Reads.val_bind, Reads.val_cell, Mem.shift_apply]
    dsimp only
    split
    · rfl
    · exact ih _ _

/-- **Its result is the decoder's.** -/
theorem VarintType.decodeReads_val (k : VarintType) (b : ByteBuffer) :
    (k.decodeReads b).val = k.decode b := by
  rw [decode_eq, varintDecodeAs, varintDecode, ← varintDecodeLoopReads_val, decodeReads,
    varintDecodeReads, Reads.val_bind, Reads.val_bind]
  rcases (varintDecodeLoopReads b.octets b.offset k.maxOctets 0 0).val with ⟨_ | rc, n⟩ <;> rfl

/-- **The loop stays below a bound** where the octets below it settle what it does, and nowhere
    else. -/
theorem varintDecodeLoopReads_within (octets : Mem Octet) (offset size left i : Nat)
    (n : BitVec 64) (hi : offset + i ≤ size) :
    (varintDecodeLoopReads octets offset left i n).Within size ↔
      VarintReadable left (octets.slice (offset + i) (size - (offset + i))) := by
  induction left generalizing i n with
  | zero => exact iff_of_true (Reads.within_pure _ _) (varintReadable_zero _)
  | succ left ih =>
    rw [varintDecodeLoopReads, Reads.within_bind_iff, Reads.within_cell_iff, Reads.val_cell]
    by_cases hlt : offset + i < size
    · have hrest : size - (offset + i) = size - (offset + (i + 1)) + 1 := by omega
      rw [hrest, Mem.slice_succ, varintReadable_cons, and_iff_right hlt, Nat.add_assoc offset i 1,
        ← ih (i + 1) (n ||| ((octets (offset + i) &&& varintDataMask).setWidth 64 <<<
          (i * varintDataBits))) (by omega)]
      dsimp only
      split
      · rename_i hdone
        exact iff_of_true (Reads.within_pure _ _) (.inl hdone)
      · rename_i hmore
        exact (or_iff_right hmore).symm
    · -- the read mark has reached the bound, and the loop asks for one octet more
      have hend : size - (offset + i) = 0 := by omega
      rw [hend, Mem.slice_zero]
      exact iff_of_false (fun h => hlt h.1) (not_varintReadable_nil left)

theorem VarintType.decodeReads_within (k : VarintType) {b : ByteBuffer} (ho : b.offset ≤ b.size) :
    (k.decodeReads b).Within b.size ↔
      VarintReadable k.maxOctets (b.octets.slice b.offset (b.size - b.offset)) := by
  have hloop := varintDecodeLoopReads_within b.octets b.offset b.size k.maxOctets 0 0 ho
  rw [Nat.add_zero] at hloop
  rw [← hloop, decodeReads, varintDecodeReads, Reads.within_bind_iff, Reads.within_bind_iff]
  refine ⟨fun h => h.1.1, fun h => ⟨⟨h, ?_⟩, Reads.within_pure _ _⟩⟩
  split <;> exact Reads.within_pure _ _

/-- Octets none of which ends a number. -/
theorem varintDecodeLoop_unterminated {buf : Mem Octet} {left i : Nat} {n : BitVec 64}
    (h : ∀ j, i ≤ j → j < i + left → varintDone (buf j) = false) :
    ∃ n', varintDecodeLoop buf left i n = (.error .eilseq, n') := by
  induction left generalizing i n with
  | zero => exact ⟨n, rfl⟩
  | succ left ih =>
    rw [varintDecodeLoop, if_neg (by rw [h i (le_refl i) (by omega)]; decide)]
    exact ih fun j hj hlt => h j (by omega) (by omega)

/-- Where no octet of a buffer ends a number and there are as many as a number can have, the
    decoder fails. -/
theorem VarintType.decode_unterminated (k : VarintType) {b : ByteBuffer}
    (hroom : k.maxOctets ≤ b.size - b.offset)
    (h : ∀ i, b.offset ≤ i → i < b.size → varintDone (b.octets i) = false) :
    ∃ n, k.decode b = (.error .eilseq, n, b) := by
  have hbuf : ∀ j, 0 ≤ j → j < 0 + k.maxOctets →
      varintDone (b.octets.shift b.offset j) = false :=
    fun j _ hj => h (b.offset + j) (Nat.le_add_right _ _) (by omega)
  obtain ⟨n, hloop⟩ := varintDecodeLoop_unterminated (n := 0) hbuf
  refine ⟨k.take n, ?_⟩
  rw [decode_eq, varintDecodeAs, varintDecode, hloop]

/-- **What the decoder of buffers reads.** For each of the types, and each buffer whose read mark
    is not behind its size: the decoder reads below the size only, and refuses a buffer without an
    octet that ends a number, if and only if the octets between the read mark and the size settle
    what it does: one of those a number can have ends it, or there are as many as it can have. -/
theorem varintDecode_bounded_iff (k : VarintType) {b : ByteBuffer} (ho : b.offset ≤ b.size) :
    (k.decodeReads b).val = k.decode b ∧
      ((k.decodeReads b).Within b.size ∧
          ((∀ i, b.offset ≤ i → i < b.size → varintDone (b.octets i) = false) →
            ∃ e n, k.decode b = (.error e, n, b)) ↔
        VarintReadable k.maxOctets (b.octets.slice b.offset (b.size - b.offset))) := by
  refine ⟨k.decodeReads_val b, fun h => (k.decodeReads_within ho).mp h.1, fun hl =>
    ⟨(k.decodeReads_within ho).mpr hl, fun hnone => ?_⟩⟩
  rcases hl with ⟨o, hmem, hdone⟩ | hroom
  · -- an octet of the buffer would end a number
    obtain ⟨i, hi, rfl⟩ := List.mem_map.mp (List.mem_of_mem_take hmem)
    have hlt := List.mem_range.mp hi
    rw [hnone (b.offset + i) (Nat.le_add_right _ _) (by omega)] at hdone
    cases hdone
  · rw [Mem.length_slice] at hroom
    obtain ⟨n, hdec⟩ := k.decode_unterminated hroom hnone
    exact ⟨_, n, hdec⟩

/-- A number of two octets at the end of a buffer. -/
theorem varintDecode_bounded_sample :
    (VarintType.u32.decodeReads (byteBufferOf (Mem.ofList 0 [0x96, 0x01]) 2)).Within 2 :=
  ((varintDecode_bounded_iff .u32 (b := byteBufferOf (Mem.ofList 0 [0x96, 0x01]) 2)
    (by decide)).2.mpr (.inl ⟨0x01, by decide, by decide⟩)).1

/-- A buffer of one octet that says that another one follows: the decoder reads the octet behind
    the buffer, and where that happens to end a number, the read mark is behind the size. -/
theorem varintDecode_truncated :
    ¬ (VarintType.u32.decodeReads (byteBufferOf (Mem.ofList 0 [0x80]) 1)).Within 1 ∧
      (VarintType.u32.decode (byteBufferOf (Mem.ofList 0 [0x80]) 1)).1 = .ok 2 ∧
      (VarintType.u32.decode (byteBufferOf (Mem.ofList 0 [0x80]) 1)).2.2.offset = 2 := by
  decide

end Ufw
