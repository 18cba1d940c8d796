/-
  File:      Ufw/VariableLengthInteger/RoundTrip.lean
  Subject:   VARIABLE LENGTH INTEGERS: the four types, in buffers, from sources and to sinks.

  * `varintEncodeU32` … `varintS64Length` -- the functions of the four types, each its own words to
    what they share;
  * `VarintType` -- the types, and which function is whose;
  * `RoundTrips`, `varint_roundTrip` -- **what an encoder emits, both decoders read back**, and they
    read nothing behind it: so a row of numbers is read back as that row.

  A signed integer is given by its two's complement. Buffers have memory behind them.
-/
import Ufw.ByteBuffer
import Ufw.VariableLengthInteger

namespace Ufw

open Base

variable {σ τ : Type}

/-! ## 1. Buffers -/

/-- `VARINT_32BIT_MAX_OCTETS` -/
def varint32BitMaxOctets : Nat := 5

/-- `varint_encode`: the octets go where the buffer is read next, not behind what it holds. -/
def varintEncodeBuffer (b : ByteBuffer) (n : Nat) : Rc × ByteBuffer :=
  let octets := varintEncode n
  let store (block : Block) : Block := { block with octets := block.octets.store b.offset octets }
  (.ok octets.length, { b with data := b.data.map store, used := sizeAdd b.offset octets.length })

/-- The loop of `varint_decode`: `left` octets may follow, `i` are read. -/
def varintDecodeLoop (buf : Mem Octet) : Nat → Nat → BitVec 64 → Rc × BitVec 64
  | 0, _, n => (.error .eilseq, n)
  | left + 1, i, n =>
    let datum := buf i
    let n := n ||| ((datum &&& varintDataMask).setWidth 64 <<< (i * varintDataBits))
    if varintDone datum then (.ok (i + 1), n) else varintDecodeLoop buf left (i + 1) n

/-- `varint_decode` -/
def varintDecode (b : ByteBuffer) (maxoctets : Nat) : Rc × BitVec 64 × ByteBuffer :=
  match varintDecodeLoop (b.octets.shift b.offset) maxoctets 0 0 with
  | (.ok rc, n) => (.ok rc, n, { b with offset := sizeAdd b.offset rc })
  | (.error e, n) => (.error e, n, b)

/-! ## 2. What the functions of the types share -/

/-- `UINT32_MAX`, as it is applied to an `uint64_t`. -/
def uint32Max : BitVec 64 := 0xffffffff

/-- `data.u & UINT32_MAX`, in a variable of 32 bits. -/
def uint32Of (data : BitVec 64) : BitVec 32 := (data &&& uint32Max).setWidth 32

/-- `varint_encode_*`: room for the longest number is asked for. -/
def varintEncodeAs (maxoctets : Nat) (b : ByteBuffer) (n : BitVec 64) : Rc × ByteBuffer :=
  if byteBufferAvail b < maxoctets then (.error .einval, b) else varintEncodeBuffer b n.toNat

/-- `varint_decode_*`: `take` is what the number is made of. -/
def varintDecodeAs {w : Nat} (maxoctets : Nat) (take : BitVec 64 → BitVec w) (b : ByteBuffer) :
    Rc × BitVec w × ByteBuffer :=
  let (rc, data, b) := varintDecode b maxoctets
  (rc, take data, b)

/-- `varint_*_from_source`; the caller's variable is not written where this fails. -/
def varintFromSourceAs {w : Nat} (h : Host) (maxoctets : Nat) (take : BitVec 64 → BitVec w)
    (source : Source σ) : Rc × BitVec w × Source σ :=
  let (rc, data, source) := varintFromSource h source maxoctets
  (rc, take data, source)

/-- `varint_*_to_sink`: what the encoder makes of an empty array goes out. -/
def varintToSinkAs (h : Host) (fuel maxoctets : Nat) (encode : ByteBuffer → Rc × ByteBuffer)
    (sink : Sink τ) : Exec (Rc × Sink τ) :=
  let buf := (encode (byteBufferEmpty ⟨0, fun _ => h.indeterminate⟩ maxoctets)).2
  sinkPutChunk fuel sink (buf.octets.slice 0 buf.used)

/-- The loop of `varint_u64_length`. -/
def varintLengthLoop (octets n : Nat) : Nat :=
  if n >>> varintDataBits = 0 then octets
  else varintLengthLoop (octets + 1) (n >>> varintDataBits)
termination_by n
decreasing_by
  rename_i hn
  rw [varintDataBits, Nat.shiftRight_eq_div_pow] at hn ⊢
  omega

/-! ## 3. The functions of the four types -/

section Functions

variable (h : Host) (fuel : Nat) (b : ByteBuffer) (source : Source σ) (sink : Sink τ)

/-- `varint_encode_u32` -/
def varintEncodeU32 (n : BitVec 32) : Rc × ByteBuffer :=
  varintEncodeAs varint32BitMaxOctets b (n.setWidth 64 &&& uint32Max)

/-- `varint_encode_s32` -/
def varintEncodeS32 (n : BitVec 32) : Rc × ByteBuffer :=
  varintEncodeAs varint32BitMaxOctets b (n.signExtend 64 &&& uint32Max)

/-- `varint_encode_u64` -/
def varintEncodeU64 (n : BitVec 64) : Rc × ByteBuffer := varintEncodeAs varint64BitMaxOctets b n

/-- `varint_encode_s64` -/
def varintEncodeS64 (n : BitVec 64) : Rc × ByteBuffer := varintEncodeAs varint64BitMaxOctets b n

/-- `varint_decode_u32` -/
def varintDecodeU32 : Rc × BitVec 32 × ByteBuffer := varintDecodeAs varint32BitMaxOctets uint32Of b

/-- `varint_decode_s32` -/
def varintDecodeS32 : Rc × BitVec 32 × ByteBuffer := varintDecodeAs varint32BitMaxOctets uint32Of b

/-- `varint_decode_u64` -/
def varintDecodeU64 : Rc × BitVec 64 × ByteBuffer := varintDecodeAs varint64BitMaxOctets id b

/-- `varint_decode_s64` -/
def varintDecodeS64 : Rc × BitVec 64 × ByteBuffer := varintDecodeAs varint64BitMaxOctets id b

/-- `varint_u32_from_source` -/
def varintU32FromSource : Rc × BitVec 32 × Source σ :=
  varintFromSourceAs h varint32BitMaxOctets uint32Of source

/-- `varint_s32_from_source` -/
def varintS32FromSource : Rc × BitVec 32 × Source σ :=
  varintFromSourceAs h varint32BitMaxOctets uint32Of source

/-- `varint_s64_from_source` -/
def varintS64FromSource : Rc × BitVec 64 × Source σ :=
  varintFromSourceAs h varint64BitMaxOctets id source

/-- `varint_u32_to_sink` -/
def varintU32ToSink (n : BitVec 32) : Exec (Rc × Sink τ) :=
  varintToSinkAs h fuel varint32BitMaxOctets (varintEncodeU32 · n) sink

/-- `varint_s32_to_sink` -/
def varintS32ToSink (n : BitVec 32) : Exec (Rc × Sink τ) :=
  varintToSinkAs h fuel varint32BitMaxOctets (varintEncodeS32 · n) sink

/-- `varint_u64_to_sink` -/
def varintU64ToSink (n : BitVec 64) : Exec (Rc × Sink τ) :=
  varintToSinkAs h fuel varint64BitMaxOctets (varintEncodeU64 · n) sink

/-- `varint_s64_to_sink` -/
def varintS64ToSink (n : BitVec 64) : Exec (Rc × Sink τ) :=
  varintToSinkAs h fuel varint64BitMaxOctets (varintEncodeS64 · n) sink

/-- `varint_u64_length` -/
def varintU64Length (n : BitVec 64) : Nat := varintLengthLoop 1 n.toNat

/-- `varint_s64_length` -/
def varintS64Length (n : BitVec 64) : Nat := varintU64Length n

/-- `varint_u32_length` -/
def varintU32Length (n : BitVec 32) : Nat := varintU64Length (n.setWidth 64)

/-- `varint_s32_length` -/
def varintS32Length (n : BitVec 32) : Nat := varintU64Length (n.setWidth 64)

end Functions

theorem setWidth_signExtend_64 (n : BitVec 32) : (n.signExtend 64).setWidth 32 = n := by
  ext i hi
  simp only [BitVec.getElem_setWidth, BitVec.getLsbD_signExtend, hi, if_true]
  rw [decide_eq_true (by omega), Bool.true_and, BitVec.getLsbD_eq_getElem hi]

/-! ## 4. The types -/

/-- The types of numbers. -/
inductive VarintType where
  | u32 | s32 | u64 | s64
  deriving DecidableEq, Repr

namespace VarintType

/-- The width of a type. -/
def bits : VarintType → Nat
  | .u32 | .s32 => 32
  | .u64 | .s64 => 64

/-- The octets a number of a type takes at most. -/
def maxOctets : VarintType → Nat
  | .u32 | .s32 => varint32BitMaxOctets
  | .u64 | .s64 => varint64BitMaxOctets

/-- `varint_encode_*` -/
def encode : (k : VarintType) → ByteBuffer → BitVec k.bits → Rc × ByteBuffer
  | .u32, b, n => varintEncodeU32 b n
  | .s32, b, n => varintEncodeS32 b n
  | .u64, b, n => varintEncodeU64 b n
  | .s64, b, n => varintEncodeS64 b n

/-- `varint_decode_*` -/
def decode : (k : VarintType) → ByteBuffer → Rc × BitVec k.bits × ByteBuffer
  | .u32, b => varintDecodeU32 b
  | .s32, b => varintDecodeS32 b
  | .u64, b => varintDecodeU64 b
  | .s64, b => varintDecodeS64 b

/-- `varint_*_from_source` -/
def fromSource (h : Host) : (k : VarintType) → Source σ → Rc × BitVec k.bits × Source σ
  | .u32, source => varintU32FromSource h source
  | .s32, source => varintS32FromSource h source
  | .u64, source => varintU64FromSource h source
  | .s64, source => varintS64FromSource h source

/-- `varint_*_to_sink` -/
def toSink (h : Host) (fuel : Nat) :
    (k : VarintType) → Sink τ → BitVec k.bits → Exec (Rc × Sink τ)
  | .u32, sink, n => varintU32ToSink h fuel sink n
  | .s32, sink, n => varintS32ToSink h fuel sink n
  | .u64, sink, n => varintU64ToSink h fuel sink n
  | .s64, sink, n => varintS64ToSink h fuel sink n

/-- `varint_*_length` -/
def length : (k : VarintType) → BitVec k.bits → Nat
  | .u32, n => varintU32Length n
  | .s32, n => varintS32Length n
  | .u64, n => varintU64Length n
  | .s64, n => varintS64Length n

/-- The octets of a number. -/
def octets (k : VarintType) (n : BitVec k.bits) : List Octet := varintEncode n.toNat

/-- What a decoder takes out of 64 bits. -/
def take : (k : VarintType) → BitVec 64 → BitVec k.bits
  | .u32, data => uint32Of data
  | .s32, data => uint32Of data
  | .u64, data => data
  | .s64, data => data

/-- The 64 bits an encoder is handed. -/
def extend : (k : VarintType) → BitVec k.bits → BitVec 64
  | .u32, n => n.setWidth 64 &&& uint32Max
  | .s32, n => n.signExtend 64 &&& uint32Max
  | .u64, n => n
  | .s64, n => n

/-! ## 5. All types alike -/

section Alike

variable (k : VarintType) (n : BitVec k.bits)

theorem encode_eq (b : ByteBuffer) : k.encode b n = varintEncodeAs k.maxOctets b (k.extend n) := by
  cases k <;> rfl

theorem decode_eq (b : ByteBuffer) : k.decode b = varintDecodeAs k.maxOctets k.take b := by
  cases k <;> rfl

theorem fromSource_eq (h : Host) (source : Source σ) :
    k.fromSource h source = varintFromSourceAs h k.maxOctets k.take source := by
  cases k <;> rfl

theorem toSink_eq (h : Host) (fuel : Nat) (sink : Sink τ) :
    k.toSink h fuel sink n = varintToSinkAs h fuel k.maxOctets (k.encode · n) sink := by
  cases k <;> rfl

theorem toNat_extend : (k.extend n).toNat = n.toNat := by
  have hlow : ∀ x : BitVec 64, (x &&& uint32Max).toNat = x.toNat % 2 ^ 32 := fun x => by
    rw [BitVec.toNat_and, show uint32Max.toNat = 2 ^ 32 - 1 by decide,
      Nat.and_two_pow_sub_one_eq_mod]
  cases k with
  | u64 | s64 => rfl
  | u32 =>
    have hn : n.toNat < 2 ^ 32 := n.isLt
    show (n.setWidth 64 &&& uint32Max).toNat = n.toNat
    rw [hlow, BitVec.toNat_setWidth, Nat.mod_eq_of_lt (lt_trans hn (by decide)),
      Nat.mod_eq_of_lt hn]
  | s32 =>
    have hn : n.toNat < 2 ^ 32 := n.isLt
    show (n.signExtend 64 &&& uint32Max).toNat = n.toNat
    rw [hlow, ← BitVec.toNat_setWidth]
    exact congrArg BitVec.toNat (setWidth_signExtend_64 n)

/-- **The number is what its 64 bits make of it.** -/
theorem take_ofNat : k.take (BitVec.ofNat 64 n.toNat) = n := by
  cases k with
  | u64 | s64 => exact (BitVec.ofNat_toNat 64 n).trans (BitVec.setWidth_eq n)
  | u32 | s32 =>
    have hn : n.toNat < 2 ^ 32 := n.isLt
    apply BitVec.eq_of_toNat_eq
    show ((BitVec.ofNat 64 n.toNat &&& uint32Max).setWidth 32).toNat = n.toNat
    rw [BitVec.toNat_setWidth, BitVec.toNat_and, BitVec.toNat_ofNat,
      show uint32Max.toNat = 2 ^ 32 - 1 by decide, Nat.and_two_pow_sub_one_eq_mod,
      Nat.mod_eq_of_lt (lt_trans hn (by decide)), Nat.mod_mod, Nat.mod_eq_of_lt hn]

end Alike

end VarintType

/-! ## 6. Buffers -/

section Buffers

variable {l : List Octet}

/-- **The decoder takes a string of octets off a buffer**, and looks at nothing behind it. -/
theorem varintDecodeLoop_string (hl : VarintString l) {buf : Mem Octet} {left i : Nat}
    {acc : BitVec 64} (hbuf : buf.slice i l.length = l) (hleft : l.length ≤ left) :
    varintDecodeLoop buf left i acc = (.ok (i + l.length), varintValue i acc l) := by
  induction hl generalizing left i acc with
  | last hdone =>
    obtain ⟨left, rfl⟩ : ∃ k, left = k + 1 := ⟨left - 1, by simp at hleft; omega⟩
    rw [List.length_singleton, Mem.slice_succ] at hbuf
    obtain ⟨rfl, -⟩ := List.cons.inj hbuf
    simp only [varintDecodeLoop, hdone, if_true]
    rfl
  | more hmore _ ih =>
    obtain ⟨left, rfl⟩ : ∃ k, left = k + 1 := ⟨left - 1, by simp at hleft; omega⟩
    rw [List.length_cons, Mem.slice_succ] at hbuf
    obtain ⟨rfl, hrest⟩ := List.cons.inj hbuf
    simp only [varintDecodeLoop, hmore, Bool.false_eq_true, if_false]
    rw [ih hrest (by simpa using hleft), List.length_cons, Nat.add_assoc, Nat.add_comm 1]
    rfl

theorem varintDecode_string (hl : VarintString l) {b : ByteBuffer} (hb : b.Valid)
    {suffix : List Octet} (hun : b.unread = l ++ suffix) {maxoctets : Nat}
    (hmax : l.length ≤ maxoctets) :
    ∃ b', varintDecode b maxoctets = (.ok l.length, varintValue 0 0 l, b') ∧
      b' = { b with offset := b.offset + l.length } ∧ b'.Valid ∧ b'.unread = suffix := by
  have hlen : b.used - b.offset = l.length + suffix.length := by
    rw [← List.length_append, ← hun, ByteBuffer.unread, Mem.length_slice]
  have h1 := hb.offset_le
  have h2 := hb.used_le
  have h3 := hb.size_le
  unfold ssizeMax at h3
  unfold ByteBuffer.unread at hun
  obtain ⟨hfront, hrest⟩ := Mem.slice_append_inv hun
  have hloop : varintDecodeLoop (b.octets.shift b.offset) maxoctets 0 0
      = (.ok l.length, varintValue 0 0 l) := by
    rw [varintDecodeLoop_string hl (by rwa [Mem.slice_shift]) hmax, Nat.zero_add]
  have hle : b.offset + l.length ≤ b.used := by omega
  have hadd : sizeAdd b.offset l.length = b.offset + l.length := sizeAdd_eq (by omega)
  refine ⟨{ b with offset := b.offset + l.length }, ?_, rfl, ⟨hle, h2, hb.size_le⟩, ?_⟩
  · unfold varintDecode
    simp only [hloop, hadd]
  · show b.octets.slice (b.offset + l.length) (b.used - (b.offset + l.length)) = suffix
    rw [show b.used - (b.offset + l.length) = suffix.length by omega]
    exact hrest

/-- An empty buffer holds what is encoded into it. -/
theorem varintEncodeBuffer_empty {b : ByteBuffer} (hb : b.Valid) (hdata : b.data ≠ none)
    (hempty : b.offset = b.used) {n : Nat}
    (hroom : (varintEncode n).length ≤ b.size - b.used) :
    ∃ b', varintEncodeBuffer b n = (.ok (varintEncode n).length, b') ∧ b'.Valid ∧
      b'.unread = varintEncode n ∧ b'.offset = b.offset := by
  have h2 := hb.used_le
  have h3 := hb.size_le
  unfold ssizeMax at h3
  have hadd : sizeAdd b.offset (varintEncode n).length = b.offset + (varintEncode n).length :=
    sizeAdd_eq (by omega)
  obtain ⟨block, hblock⟩ := Option.ne_none_iff_exists'.mp hdata
  refine ⟨_, rfl, ⟨?_, ?_, hb.size_le⟩, ?_, rfl⟩
  · show b.offset ≤ sizeAdd b.offset _
    omega
  · show sizeAdd b.offset _ ≤ b.size
    omega
  · unfold ByteBuffer.unread ByteBuffer.octets
    simp only [hblock, Option.map_some, hadd, Nat.add_sub_cancel_left]
    exact Mem.slice_store _ _ _

end Buffers

theorem varintLengthLoop_eq (n octets : Nat) :
    varintLengthLoop (octets + 1) n = octets + (varintEncode n).length := by
  rw [varintEncode_eq]
  unfold varintLengthLoop
  rw [shiftRight_dataBits]
  split
  · rfl
  · rw [varintLengthLoop_eq (n / 128) (octets + 1), List.length_cons]
    omega
termination_by n
decreasing_by omega

namespace VarintType

variable (k : VarintType) (n : BitVec k.bits)

theorem length_octets : (k.octets n).length = k.length n := by
  have hloop := varintLengthLoop_eq n.toNat 0
  rw [Nat.zero_add, Nat.zero_add] at hloop
  cases k with
  | u64 | s64 => exact hloop.symm
  | u32 | s32 =>
    have hn : n.toNat < 2 ^ 32 := n.isLt
    show (varintEncode n.toNat).length = varintLengthLoop 1 (n.setWidth 64).toNat
    rw [BitVec.toNat_setWidth, Nat.mod_eq_of_lt (lt_trans hn (by decide)), hloop]

theorem length_octets_le : (k.octets n).length ≤ k.maxOctets := by
  cases k with
  | u64 | s64 => exact length_varintEncode_le 9 _ (lt_of_lt_of_le n.isLt (by decide))
  | u32 | s32 => exact length_varintEncode_le 4 _ (lt_of_lt_of_le n.isLt (by decide))

/-- What the octets of a number add up to is the number. -/
theorem take_value : k.take (varintValue 0 0 (k.octets n)) = n := by
  have hn : n.toNat < 2 ^ 64 :=
    lt_of_lt_of_le n.isLt (Nat.pow_le_pow_right (by decide) (by cases k <;> decide))
  rw [octets, varintValue_encode_zero hn, take_ofNat]

/-! ## 7. One number -/

/-- **Encoding and decoding a number**: what is emitted, and that it is read back with nothing
    behind it read. -/
structure RoundTrips (h : Host) : Prop where
  /-- The number takes as many octets as the library says. -/
  length_eq : (k.octets n).length = k.length n
  length_le : k.length n ≤ k.maxOctets
  /-- An empty buffer with room for any number of the type holds the octets then. -/
  encode : ∀ b : ByteBuffer, b.Valid → b.data ≠ none → b.offset = b.used →
    k.maxOctets ≤ b.size - b.used →
      ∃ b', k.encode b n = (.ok (k.length n), b') ∧ b'.unread = k.octets n
  /-- An accepting sink is sent the octets. -/
  toSink : ∀ {τ : Type} (sent : τ → List Octet) (sink : Sink τ), sink.Accepting sent →
    ∃ sink', Returns (fun fuel => k.toSink h fuel sink n) (.ok (k.length n), sink') ∧
      sink.Sends sent (k.octets n) sink'
  /-- The octets and any others behind them, in a buffer. -/
  decode : ∀ (b : ByteBuffer) (suffix : List Octet), b.Valid →
    b.unread = k.octets n ++ suffix →
      ∃ b', k.decode b = (.ok (k.length n), n, b') ∧
        b' = { b with offset := b.offset + k.length n } ∧ b'.Valid ∧ b'.unread = suffix
  /-- The octets and any others behind them, from a source. -/
  fromSource : ∀ {σ : Type} (source source' : Source σ) (suffix : List Octet),
    source.Delivers (k.octets n ++ suffix) source' →
      ∃ source₁, k.fromSource h source = (.ok (k.length n), n, source₁) ∧
        source.Delivers (k.octets n) source₁ ∧ source₁.Delivers suffix source'

theorem encode_empty {b : ByteBuffer} (hb : b.Valid) (hdata : b.data ≠ none)
    (hempty : b.offset = b.used) (hroom : k.maxOctets ≤ b.size - b.used) :
    ∃ b', k.encode b n = (.ok (k.length n), b') ∧ b'.unread = k.octets n ∧
      b'.used - b'.offset = k.length n ∧ b'.offset = b.offset := by
  have h2 := hb.used_le
  have h3 := hb.size_le
  unfold ssizeMax at h3
  have havail : byteBufferAvail b = b.size - b.used := sizeSub_eq h2 (by omega)
  obtain ⟨b', he, -, hun, hoff⟩ := varintEncodeBuffer_empty hb hdata hempty
    (le_trans (k.length_octets_le n) hroom)
  rw [← octets, length_octets] at he
  refine ⟨b', ?_, hun, ?_, hoff⟩
  · rw [encode_eq, varintEncodeAs, havail, if_neg (by omega), toNat_extend, he]
  · have hlen := congrArg List.length hun
    rwa [ByteBuffer.unread, Mem.length_slice, ← octets, length_octets] at hlen

theorem toSink_sends (h : Host) {sent : τ → List Octet} {sink : Sink τ}
    (hk : sink.Accepting sent) :
    ∃ sink', Returns (fun fuel => k.toSink h fuel sink n) (.ok (k.length n), sink') ∧
      sink.Sends sent (k.octets n) sink' := by
  have hmax : k.maxOctets ≤ ssizeMax := by cases k <;> decide
  obtain ⟨b', he, hun, hlen, hoff⟩ := k.encode_empty n
    (b := byteBufferEmpty ⟨0, fun _ => h.indeterminate⟩ k.maxOctets)
    ⟨le_refl 0, Nat.zero_le _, hmax⟩ (Option.some_ne_none _) rfl (le_refl _)
  obtain ⟨sink', hput, hs⟩ := sinkPutChunk_sends hk (k.octets n)
    (le_trans (k.length_octets_le n) hmax)
  rw [length_octets] at hput
  refine ⟨sink', Returns.congr (fun fuel => ?_) hput, hs⟩
  have hslice : b'.octets.slice 0 b'.used = k.octets n := by
    have hoff' : b'.offset = 0 := hoff
    rw [← hun, ByteBuffer.unread, hoff', Nat.sub_zero]
  rw [toSink_eq, varintToSinkAs, he, hslice]

/-- **A number is read back.** -/
theorem roundTrips (h : Host) : k.RoundTrips n h where
  length_eq := k.length_octets n
  length_le := k.length_octets n ▸ k.length_octets_le n
  encode := fun b hb hdata hempty hroom => by
    obtain ⟨b', he, hun, -⟩ := k.encode_empty n hb hdata hempty hroom
    exact ⟨b', he, hun⟩
  toSink := fun sent sink hk => k.toSink_sends n h hk
  decode := fun b suffix hb hun => by
    obtain ⟨b', he, hb'⟩ := varintDecode_string (varintString_encode n.toNat) hb hun
      (k.length_octets_le n)
    rw [← octets, length_octets] at he hb'
    refine ⟨b', ?_, hb'⟩
    rw [decode_eq, varintDecodeAs, he]
    simp only [take_value]
  fromSource := fun source source' suffix hs => by
    obtain ⟨source₁, h1, h2⟩ := hs.append_inv
    refine ⟨source₁, ?_, h1, h2⟩
    rw [fromSource_eq, varintFromSourceAs, varintFromSource,
      varintFromSourceLoop_delivers h (varintString_encode n.toNat) h1 (k.length_octets_le n),
      ← octets, length_octets, Nat.zero_add]
    simp only [take_value]

end VarintType

/-! ## 8. A row of numbers -/

/-- A number with its type. -/
abbrev VarintValue := Σ k : VarintType, BitVec k.bits

/-- A row of numbers, read one after the other. -/
def readEach {β : Type} (read : (k : VarintType) → β → Rc × BitVec k.bits × β) :
    List VarintType → β → Except Errno (List VarintValue) × β
  | [], b => (.ok [], b)
  | k :: ks, b =>
    match read k b with
    | (.error e, _, b) => (.error e, b)
    | (.ok _, n, b) =>
      match readEach read ks b with
      | (.error e, b) => (.error e, b)
      | (.ok vs, b) => (.ok (⟨k, n⟩ :: vs), b)

/-- The octets of a row of numbers. -/
def rowOctets (vs : List VarintValue) : List Octet := vs.flatMap fun v => v.1.octets v.2

/-- **A reader of numbers is a reader of rows.** `Holds l b`: the octets of `l` are next at `b`. -/
theorem readEach_row {β : Type} (read : (k : VarintType) → β → Rc × BitVec k.bits × β)
    (Holds : List Octet → β → Prop)
    (hread : ∀ (k : VarintType) (n : BitVec k.bits) (l : List Octet) (b : β),
      Holds (k.octets n ++ l) b → ∃ rc b', read k b = (.ok rc, n, b') ∧ Holds l b')
    (vs : List VarintValue) {l : List Octet} {b : β} (hb : Holds (rowOctets vs ++ l) b) :
    ∃ b', readEach read (vs.map Sigma.fst) b = (.ok vs, b') ∧ Holds l b' := by
  induction vs generalizing b with
  | nil => exact ⟨b, rfl, hb⟩
  | cons v vs ih =>
    rw [rowOctets, List.flatMap_cons, List.append_assoc, ← rowOctets] at hb
    obtain ⟨rc, b₁, he, hb₁⟩ := hread v.1 v.2 _ b hb
    obtain ⟨b', he', hb'⟩ := ih hb₁
    refine ⟨b', ?_, hb'⟩
    rw [List.map_cons, readEach, he]
    simp only [he']

/-- **Numbers of all types are read back**, one by one and in rows, from buffers and from
    sources. -/
theorem varint_roundTrip (h : Host) :
    (∀ (k : VarintType) (n : BitVec k.bits), k.RoundTrips n h) ∧
      ∀ (vs : List VarintValue) (suffix : List Octet),
        (∀ b : ByteBuffer, b.Valid → b.unread = rowOctets vs ++ suffix →
          ∃ b', readEach VarintType.decode (vs.map Sigma.fst) b = (.ok vs, b') ∧
            b'.unread = suffix) ∧
        ∀ {σ : Type} (source source' : Source σ),
          source.Delivers (rowOctets vs ++ suffix) source' →
            ∃ source₁, readEach (VarintType.fromSource h) (vs.map Sigma.fst) source
              = (.ok vs, source₁) ∧ source₁.Delivers suffix source' := by
  refine ⟨fun k n => k.roundTrips n h, fun vs suffix => ⟨fun b hb hun => ?_,
    fun source source' hs => ?_⟩⟩
  · obtain ⟨b', he, -, hun'⟩ := readEach_row VarintType.decode
      (fun l b => b.Valid ∧ b.unread = l) (fun k n l b hb => by
        obtain ⟨b', he, -, hb'⟩ := (k.roundTrips n h).decode b l hb.1 hb.2
        exact ⟨_, b', he, hb'⟩) vs ⟨hb, hun⟩
    exact ⟨b', he, hun'⟩
  · exact readEach_row (VarintType.fromSource h)
      (fun l source => source.Delivers l source') (fun k n l source hs => by
        obtain ⟨source₁, he, -, hs'⟩ := (k.roundTrips n h).fromSource source source' l hs
        exact ⟨_, source₁, he, hs'⟩) vs hs

end Ufw
