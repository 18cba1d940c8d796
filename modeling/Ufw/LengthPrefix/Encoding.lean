/-
  File:      Ufw/LengthPrefix/Encoding.lean
  Subject:   LENGTH PREFIX FRAMING: the encoder that keeps a prefix beside its payload.

  * `encodePrefixBuffer`, `flenpMemoryEncode` -- the code, with the buffers it points at memory;
    `encodePrefix_buffer`: `encodePrefix` is what `encodePrefixBuffer` leaves to read;
  * `encodePrefixBuffer_encodes` -- the buffer of a prefix that is written;
  * `lengthPrefix_agrees` -- **the two directions agree**: a prefix is written exactly for the
    lengths its format can write down, and is read back as that length, in all formats and for every
    `size_t`.
-/
import Ufw.ByteBuffer.Operations
import Ufw.LengthPrefix.Frames
import Ufw.VariableLengthInteger.RoundTrip

namespace Ufw

open Base

/-! ## 1. The code -/

/-- `LengthPrefixBuffer`; `memory` is where its array `prefix_` lies, and what it held before. -/
structure LengthPrefixBuffer where
  memory : Block
  prefixBuffer : ByteBuffer
  payload : ByteBuffer

/-- `encode_prefix`, with the buffer it points at `mem`. What `varint_encode_u64` returns is not
    looked at. -/
def encodePrefixBuffer (h : Host) (k : LengthPrefixKind) (b : ByteBuffer) (mem : Block) (n : Nat) :
    Rc × ByteBuffer :=
  if ssizeMax < n then (.error .einval, b)
  else if k ≠ .variable ∧ k.maximum < n then (.error .einval, b)
  else
    let b :=
      if k = .variable then (byteBufferSpace b (some mem) varint64BitMaxOctets).2
      else (byteBufferUse b (some mem) k.size).2
    match k.size with
    | 1 | 2 | 4 => (.ok 0, b.write 0 (k.generate h n))
    | _ => (.ok 0, (varintEncodeU64 b (BitVec.ofNat 64 n)).2)

/-- `flenp_memory_encode` -/
def flenpMemoryEncode (h : Host) (k : LengthPrefixKind) (lpb : LengthPrefixBuffer)
    (buf : Option Block) (n : Nat) : Rc × LengthPrefixBuffer :=
  match encodePrefixBuffer h k lpb.prefixBuffer lpb.memory n with
  | (.error e, prefixBuffer) => (.error e, { lpb with prefixBuffer })
  | (.ok _, prefixBuffer) =>
    let (rc, payload) := byteBufferUse lpb.payload buf n
    (rc, { lpb with prefixBuffer, payload })

/-! ## 2. The buffer of a prefix -/

section Encoding

variable {k : LengthPrefixKind} {n : Nat}

/-- Memory is used as it is. -/
theorem byteBufferUse_eq (b : ByteBuffer) (block : Block) {n : Nat} (hn : 0 < n) :
    byteBufferUse b (some block) n = (.ok 0, ⟨some block, n, n, 0⟩) := by
  rw [byteBufferUse, byteBufferSet, if_neg]
  simp only [Option.isNone_some, Bool.false_eq_true, false_or, not_or]
  exact ⟨hn.ne', Nat.lt_irrefl n, Nat.not_lt_zero n⟩

/-- A length that cannot be written down is refused, and the buffer left alone. -/
theorem encodePrefixBuffer_refused (h : Host) (hn : ¬ k.Encodes n) (b : ByteBuffer) (mem : Block) :
    encodePrefixBuffer h k b mem n = (.error .einval, b) := by
  unfold encodePrefixBuffer
  by_cases hle : n ≤ ssizeMax
  · obtain ⟨hk, hmax⟩ := not_or.mp fun hmax => hn ⟨hle, hmax⟩
    rw [if_neg (Nat.not_lt.mpr hle), if_pos ⟨hk, Nat.not_le.mp hmax⟩]
  · rw [if_pos (Nat.not_le.mp hle)]

/-- **A length that can be written down** is all there is to read from the buffer then. -/
theorem encodePrefixBuffer_encodes (h : Host) (hn : k.Encodes n) (b : ByteBuffer) (mem : Block) :
    ∃ b', encodePrefixBuffer h k b mem n = (.ok 0, b') ∧ b'.Valid ∧ b'.offset = 0 ∧
      b'.unread = k.generate h n := by
  have hmax : ¬(k ≠ .variable ∧ k.maximum < n) := fun hc =>
    hn.2.elim hc.1 (Nat.not_le.mpr hc.2)
  have hlen := (hn.announces h).length_le
  unfold encodePrefixBuffer
  rw [if_neg (Nat.not_lt.mpr hn.1), if_neg hmax]
  -- the fixed formats: the octets stand where the buffer was pointed at
  have hfixed : ∀ size ≤ ssizeMax, 0 < size → (k.generate h n).length = size →
      ((byteBufferUse b (some mem) size).2.write 0 (k.generate h n)).Valid ∧
      ((byteBufferUse b (some mem) size).2.write 0 (k.generate h n)).offset = 0 ∧
      ((byteBufferUse b (some mem) size).2.write 0 (k.generate h n)).unread = k.generate h n := by
    rintro size hle hpos rfl
    rw [byteBufferUse_eq b mem hpos]
    refine ⟨⟨Nat.zero_le _, le_refl _, hle⟩, rfl, ?_⟩
    show (mem.octets.store 0 (k.generate h n)).slice 0 ((k.generate h n).length - 0) = _
    exact Mem.slice_store _ _ _
  match k, hlen, hn.announces h with
  | .variable, hlen, _ =>
    have hvalid : (byteBufferEmpty mem varint64BitMaxOctets).Valid :=
      ⟨le_refl 0, Nat.zero_le _, show varint64BitMaxOctets ≤ ssizeMax by decide⟩
    have hroom :
        ¬ byteBufferAvail (byteBufferEmpty mem varint64BitMaxOctets) < varint64BitMaxOctets :=
      show ¬ sizeSub varint64BitMaxOctets 0 < varint64BitMaxOctets by decide
    have hmod : (BitVec.ofNat 64 n).toNat = n := LengthPrefixKind.toNat_ofNat_of_le hn.1 (by decide)
    obtain ⟨b', henc, hv, hunread, hoffset⟩ := varintEncodeBuffer_empty (n := n) hvalid
      (Option.some_ne_none mem) rfl hlen
    refine ⟨b', ?_, hv, hoffset, hunread⟩
    show (Except.ok 0, (varintEncodeU64 (byteBufferEmpty mem varint64BitMaxOctets) _).2) = _
    rw [varintEncodeU64, varintEncodeAs, if_neg hroom, hmod, henc]
  | .octet, _, ha => exact ⟨_, rfl, hfixed 1 (by decide) (by decide) ha.1⟩
  | .le16Bit, _, ha | .be16Bit, _, ha => exact ⟨_, rfl, hfixed 2 (by decide) (by decide) ha.1⟩
  | .le32Bit, _, ha | .be32Bit, _, ha => exact ⟨_, rfl, hfixed 4 (by decide) (by decide) ha.1⟩

/-- **The senders' view of a prefix**: the octets the buffer has to read. -/
theorem encodePrefix_buffer (h : Host) (k : LengthPrefixKind) (n : Nat) (b : ByteBuffer)
    (mem : Block) :
    encodePrefix h k n =
      (encodePrefixBuffer h k b mem n).1.map
        fun _ => (encodePrefixBuffer h k b mem n).2.unread := by
  rw [LengthPrefixKind.encodePrefix_eq]
  split
  · next hn =>
    obtain ⟨b', henc, -, -, hunread⟩ := encodePrefixBuffer_encodes h hn b mem
    rw [henc, ← hunread]
    rfl
  · next hn =>
    rw [encodePrefixBuffer_refused h hn]
    rfl

/-- What `flenp_memory_encode` makes of memory whose length can be written down. -/
theorem flenpMemoryEncode_encodes (h : Host) {lpb : LengthPrefixBuffer} {b : ByteBuffer}
    (henc : encodePrefixBuffer h k lpb.prefixBuffer lpb.memory n = (.ok 0, b)) (mem : Block)
    (hpos : 0 < n) :
    flenpMemoryEncode h k lpb (some mem) n =
      (.ok 0, { lpb with prefixBuffer := b, payload := ⟨some mem, n, n, 0⟩ }) := by
  rw [flenpMemoryEncode, henc, byteBufferUse_eq lpb.payload mem hpos]

end Encoding

/-! ## 3. Both directions -/

/-- **The directions agree**, for every format and every `size_t`. The encoder succeeds exactly
    where the length can be written down, and returns -EINVAL elsewhere; the decoder reads what it
    has written back as that length, and takes nothing behind it off the source; and the memory is
    the payload beside it. The other senders put the same octets in front of theirs. -/
theorem lengthPrefix_agrees (h : Host) (k : LengthPrefixKind) (n : SizeT)
    (lpb : LengthPrefixBuffer) :
    (k.Encodes n → ∃ b, encodePrefixBuffer h k lpb.prefixBuffer lpb.memory n = (.ok 0, b) ∧
      encodePrefix h k n = .ok b.unread ∧
      (∀ {σ : Type} {Left : σ → List Octet → Prop} {source : Source σ} {rest : List Octet},
        source.Lossless Left → Left source.driver (b.unread ++ rest) →
        ∃ d', Returns (fun fuel => decodePrefix h fuel k source)
          (.ok n, { source with driver := d' }) ∧ Left d' rest) ∧
      (∀ mem : Block, 1 ≤ n.val → flenpMemoryEncode h k lpb (some mem) n =
        (.ok 0, { lpb with prefixBuffer := b, payload := ⟨some mem, n, n, 0⟩ }))) ∧
    (¬ k.Encodes n →
      encodePrefixBuffer h k lpb.prefixBuffer lpb.memory n = (.error .einval, lpb.prefixBuffer) ∧
      encodePrefix h k n = .error .einval ∧
      ∀ mem : Block, flenpMemoryEncode h k lpb (some mem) n = (.error .einval, lpb)) := by
  constructor
  · intro hn
    obtain ⟨b, henc, -, -, hunread⟩ := encodePrefixBuffer_encodes h hn lpb.prefixBuffer lpb.memory
    refine ⟨b, henc, ?_, fun hs hd => ?_, fun mem => flenpMemoryEncode_encodes h henc mem⟩
    · rw [LengthPrefixKind.encodePrefix_eq, if_pos hn, hunread]
    · rw [hunread] at hd
      exact decodePrefix_announces h hs hd (hn.announces h)
  · intro hn
    have hrefused := encodePrefixBuffer_refused h hn lpb.prefixBuffer lpb.memory
    refine ⟨hrefused, by rw [LengthPrefixKind.encodePrefix_eq, if_neg hn], fun mem => ?_⟩
    rw [flenpMemoryEncode, hrefused]

end Ufw
