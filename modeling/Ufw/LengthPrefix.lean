/-
  File:      Ufw/LengthPrefix.lean
  Subject:   LENGTH PREFIX FRAMING (length-prefix.c): a frame is its length, in one of six formats,
             and its octets.

  * `encodePrefix`, `decodePrefix` -- the length in each of the formats;
  * `Fits` -- the lengths of the payloads a format has a frame for; `Encodes` -- the lengths it can
    write down; `Announces` -- the prefixes of a length;
  * `announces_generate` -- **what the sender puts in front of a payload announces its length**;
  * `flenpChunksToSink`, `flenpDecodeSourceToSink` -- sending chunks as a frame, receiving a frame;
  * `lenpChunksToSink_sends`, `lenpDecodeSourceToSink_delivers` -- **with the variable format the
    sender emits `lenpEncode` of the octets of its chunks, and the receiver takes it apart.**
-/
import Ufw.BinaryFormat
import Ufw.ByteBuffer
import Ufw.VariableLengthInteger

namespace Ufw

open Base

variable {σ τ : Type}

/-! ## 1. Formats -/

/-- `LengthPrefixKind` -/
inductive LengthPrefixKind where
  | variable
  | octet
  | le16Bit
  | le32Bit
  | be16Bit
  | be32Bit
  deriving DecidableEq, Repr

namespace LengthPrefixKind

/-- `kind[k].size` -/
def size : LengthPrefixKind → Nat
  | .variable => 0
  | .octet => 1
  | .le16Bit | .be16Bit => 2
  | .le32Bit | .be32Bit => 4

/-- `kind[k].maximum` -/
def maximum : LengthPrefixKind → Nat
  | .variable => 0
  | .octet => 255
  | .le16Bit | .be16Bit => 65535
  | .le32Bit | .be32Bit => 4294967295

/-- `kind[k].cb.….generate`, and `varint_encode_u64` into a buffer with room for any number. -/
def generate (h : Host) : LengthPrefixKind → Nat → List Octet
  | .variable, n => varintEncode n
  | .octet, n => [BitVec.ofNat 8 n]
  | .le16Bit, n => bfSetU16l h (BitVec.ofNat 16 n)
  | .le32Bit, n => bfSetU32l h (BitVec.ofNat 32 n)
  | .be16Bit, n => bfSetU16b h (BitVec.ofNat 16 n)
  | .be32Bit, n => bfSetU32b h (BitVec.ofNat 32 n)

/-- `kind[k].cb.….parse`; the variable format has none. -/
def parse (h : Host) : LengthPrefixKind → List Octet → Except Errno Nat
  | .variable, _ => .error .einval
  | .octet, buf => .ok (buf.headD 0).toNat
  | .le16Bit, buf => .ok (bfRefU16l h buf).toNat
  | .le32Bit, buf => .ok (bfRefU32l h buf).toNat
  | .be16Bit, buf => .ok (bfRefU16b h buf).toNat
  | .be32Bit, buf => .ok (bfRefU32b h buf).toNat

end LengthPrefixKind

/-- `encode_prefix`: the octets of the prefix. -/
def encodePrefix (h : Host) (k : LengthPrefixKind) (n : Nat) : Except Errno (List Octet) :=
  if ssizeMax < n then .error .einval
  else if k ≠ .variable ∧ k.maximum < n then .error .einval
  else .ok (k.generate h n)

/-- `decode_prefix`: the return code, and the length read. -/
def decodePrefix (h : Host) (fuel : Nat) (k : LengthPrefixKind) (source : Source σ) :
    Exec (Except Errno Nat × Source σ) :=
  if k = .variable then
    match varintU64FromSource h source with
    | (.error e, _, source) => .ok (.error e, source)
    | (.ok _, len, source) => .ok (.ok len.toNat, source)
  else do
    match ← sourceGetChunk fuel source k.size with
    | (.error e, source) => .ok (.error e, source)
    | (.ok buf, source) => .ok (k.parse h buf, source)

/-! ## 2. Sending and receiving -/

/-- The sum of the unread octets of chunks, in `size_t`. -/
def chunksSize (chunks : List ByteBuffer) : Nat :=
  chunks.foldl (fun size b => sizeAdd size (byteBufferRest b)) 0

/-- The loop of `flenp_chunks_to_sink` over the chunks; `total` is its return code at the end. -/
def flenpChunksLoop (fuel : Nat) (total : Nat) :
    List ByteBuffer → Sink τ → Exec (Rc × Sink τ)
  | [], sink => .ok (.ok total, sink)
  | b :: chunks, sink => do
    match ← sinkPutChunk fuel sink (b.octets.slice b.offset (byteBufferRest b)) with
    | (.error e, sink) => .ok (.error e, sink)
    | (.ok 0, sink) => .ok (.ok 0, sink)
    | (.ok _, sink) => flenpChunksLoop fuel total chunks sink

/-- `flenp_chunks_to_sink` -/
def flenpChunksToSink (h : Host) (fuel : Nat) (k : LengthPrefixKind) (sink : Sink τ)
    (oc : ByteChunks) : Exec (Rc × Sink τ) :=
  let chunks := oc.chunk.drop oc.active
  let size := chunksSize chunks
  match encodePrefix h k size with
  | .error e => .ok (.error e, sink)
  | .ok octets =>
    let numlen := octets.length
    if ssizeMax - numlen < size then .ok (.error .einval, sink)
    else do
      match ← sinkPutChunk fuel sink octets with
      | (.error e, sink) => .ok (.error e, sink)
      | (.ok _, sink) => flenpChunksLoop fuel (numlen + size) chunks sink

/-- `lenp_chunks_to_sink` -/
def lenpChunksToSink (h : Host) (fuel : Nat) (sink : Sink τ) (oc : ByteChunks) :
    Exec (Rc × Sink τ) :=
  flenpChunksToSink h fuel .variable sink oc

/-- `flenp_decode_source_to_sink` -/
def flenpDecodeSourceToSink (h : Host) (fuel : Nat) (k : LengthPrefixKind) (source : Source σ)
    (sink : Sink τ) : Exec (Rc × Source σ × Sink τ) := do
  match ← decodePrefix h fuel k source with
  | (.error e, source) => .ok (.error e, source, sink)
  | (.ok len, source) => stsN h fuel source sink len

/-- `lenp_decode_source_to_sink` -/
def lenpDecodeSourceToSink (h : Host) (fuel : Nat) (source : Source σ) (sink : Sink τ) :
    Exec (Rc × Source σ × Sink τ) :=
  flenpDecodeSourceToSink h fuel .variable source sink

/-! ## 3. Prefixes -/

namespace LengthPrefixKind

/-- **The lengths a format has a prefix for.** -/
def Fits : LengthPrefixKind → Nat → Prop
  | .variable, n => (varintEncode n).length + n ≤ ssizeMax
  | k, n => n ≤ k.maximum

instance (k : LengthPrefixKind) (n : Nat) : Decidable (k.Fits n) :=
  match k with
  | .variable => inferInstanceAs (Decidable ((varintEncode n).length + n ≤ ssizeMax))
  | .octet | .le16Bit | .be16Bit | .le32Bit | .be32Bit => inferInstanceAs (Decidable (n ≤ _))

/-- **The octets announce a payload of `n` octets.** -/
def Announces (h : Host) : LengthPrefixKind → List Octet → Nat → Prop
  | .variable, octets, n => VarintString octets ∧ octets.length ≤ varint64BitMaxOctets ∧
      (varintValue 0 0 octets).toNat = n
  | k, octets, n => octets.length = k.size ∧ k.parse h octets = .ok n

/-- A payload behind its prefix. -/
def frame (h : Host) (k : LengthPrefixKind) (l : List Octet) : List Octet :=
  k.generate h l.length ++ l

variable {k : LengthPrefixKind} {n : Nat}

theorem Fits.le (hn : k.Fits n) : n ≤ ssizeMax := by
  have hs : 4294967295 ≤ ssizeMax := by decide
  match k, hn with
  | .variable, hn => exact le_trans (Nat.le_add_left _ _) hn
  | .octet, hn => exact le_trans hn (by decide)
  | .le16Bit, hn | .be16Bit, hn => exact le_trans hn (by decide)
  | .le32Bit, hn | .be32Bit, hn => exact le_trans hn hs

theorem toNat_ofNat_of_le {w m : Nat} (hn : n ≤ m) (hm : m < 2 ^ w) :
    (BitVec.ofNat w n).toNat = n := by
  rw [BitVec.toNat_ofNat, Nat.mod_eq_of_lt (lt_of_le_of_lt hn hm)]

/-- **The lengths a format can write down.** -/
def Encodes (k : LengthPrefixKind) (n : Nat) : Prop :=
  n ≤ ssizeMax ∧ (k = .variable ∨ n ≤ k.maximum)

instance (k : LengthPrefixKind) (n : Nat) : Decidable (k.Encodes n) :=
  inferInstanceAs (Decidable (_ ∧ _))

/-- A payload whose frame is not too long has a length that can be written down. -/
theorem Fits.encodes (hn : k.Fits n) : k.Encodes n := by
  refine ⟨hn.le, ?_⟩
  match k, hn with
  | .variable, _ => exact .inl rfl
  | .octet, hn | .le16Bit, hn | .be16Bit, hn | .le32Bit, hn | .be32Bit, hn => exact .inr hn

/-- **A length that is written down is announced.** -/
theorem Encodes.announces (h : Host) (hn : k.Encodes n) : k.Announces h (k.generate h n) n := by
  have hs64 : ssizeMax < 2 ^ 64 := by decide
  obtain ⟨hle, hmax⟩ := hn
  match k, hmax with
  | .variable, _ =>
    refine ⟨varintString_encode n, length_varintEncode_le 9 n ?_, ?_⟩
    · exact lt_of_lt_of_le (by omega : n < 2 ^ 64) (by decide)
    · rw [generate, varintValue_encode_zero (by omega), toNat_ofNat_of_le hle hs64]
  | .octet, .inr hn => exact ⟨rfl, congrArg Except.ok (toNat_ofNat_of_le hn (by decide))⟩
  | .le16Bit, .inr hn =>
    refine ⟨length_bfSetU16l h _, congrArg Except.ok ?_⟩
    rw [generate, bfRefU16l_bfSetU16l, toNat_ofNat_of_le hn (by decide)]
  | .le32Bit, .inr hn =>
    refine ⟨length_bfSetU32l h _, congrArg Except.ok ?_⟩
    rw [generate, bfRefU32l_bfSetU32l, toNat_ofNat_of_le hn (by decide)]
  | .be16Bit, .inr hn =>
    refine ⟨length_bfSetU16b h _, congrArg Except.ok ?_⟩
    rw [generate, bfRefU16b_bfSetU16b, toNat_ofNat_of_le hn (by decide)]
  | .be32Bit, .inr hn =>
    refine ⟨length_bfSetU32b h _, congrArg Except.ok ?_⟩
    rw [generate, bfRefU32b_bfSetU32b, toNat_ofNat_of_le hn (by decide)]

/-- **What the sender puts in front of a payload announces its length.** -/
theorem announces_generate (h : Host) (hn : k.Fits n) : k.Announces h (k.generate h n) n :=
  hn.encodes.announces h

theorem Announces.length_le {h : Host} {octets : List Octet} (ha : k.Announces h octets n) :
    octets.length ≤ varint64BitMaxOctets := by
  match k, ha with
  | .variable, ha => exact ha.2.1
  | .octet, ha | .le16Bit, ha | .be16Bit, ha | .le32Bit, ha | .be32Bit, ha =>
    rw [ha.1]
    decide

/-- **A sender refuses the lengths that cannot be written down**, and no others. -/
theorem encodePrefix_eq (h : Host) (k : LengthPrefixKind) (n : Nat) :
    encodePrefix h k n = if k.Encodes n then .ok (k.generate h n) else .error .einval := by
  unfold encodePrefix
  by_cases hle : n ≤ ssizeMax
  · rw [if_neg (Nat.not_lt.mpr hle)]
    by_cases hmax : k = .variable ∨ n ≤ k.maximum
    · rw [if_neg fun hc => hmax.elim hc.1 (Nat.not_le.mpr hc.2), if_pos ⟨hle, hmax⟩]
    · obtain ⟨hk, hlt⟩ := not_or.mp hmax
      rw [if_pos ⟨hk, Nat.not_le.mp hlt⟩, if_neg fun hc => hmax hc.2]
  · rw [if_pos (Nat.not_le.mp hle), if_neg fun hc => hle hc.1]

/-- No length that fits is rejected. -/
theorem encodePrefix_fits (h : Host) (hn : k.Fits n) :
    encodePrefix h k n = .ok (k.generate h n) ∧ (k.generate h n).length + n ≤ ssizeMax := by
  have hlen := (announces_generate h hn).length_le
  rw [encodePrefix_eq, if_pos hn.encodes]
  refine ⟨rfl, ?_⟩
  have hs : 4294967295 + varint64BitMaxOctets ≤ ssizeMax := by decide
  match k, hn, hlen with
  | .variable, hn, _ => exact hn
  | .octet, hn, hlen | .le16Bit, hn, hlen | .be16Bit, hn, hlen | .le32Bit, hn, hlen
  | .be32Bit, hn, hlen =>
    have hmax : n ≤ 4294967295 := le_trans hn (by decide)
    omega

/-- Every length that does not fit is. -/
theorem encodePrefix_not_fits (h : Host) (hn : ¬ k.Fits n) :
    encodePrefix h k n = .error .einval ∨
      encodePrefix h k n = .ok (k.generate h n) ∧ ssizeMax - (k.generate h n).length < n := by
  rw [encodePrefix_eq]
  split
  · next henc =>
    match k, hn, henc.2 with
    | .variable, hn, _ =>
      have hlen := (henc.announces h).length_le
      have hs : varint64BitMaxOctets ≤ ssizeMax := by decide
      have hlt : ssizeMax < (varintEncode n).length + n := Nat.not_le.mp hn
      refine .inr ⟨rfl, ?_⟩
      show ssizeMax - (varintEncode n).length < n
      change (varintEncode n).length ≤ _ at hlen
      omega
    | .octet, hn, .inr hmax | .le16Bit, hn, .inr hmax | .be16Bit, hn, .inr hmax
    | .le32Bit, hn, .inr hmax | .be32Bit, hn, .inr hmax => exact absurd hmax hn
  · exact .inl rfl

end LengthPrefixKind

/-! ## 4. The variable format -/

/-- A frame on the line. -/
def lenpEncode (l : List Octet) : List Octet := varintEncode l.length ++ l

/-- **The receiver takes a frame apart.** -/
theorem lenpDecodeSourceToSink_delivers (h : Host) {l : List Octet} {source source' : Source σ}
    {sink sink' : Sink τ} (hl : l.length ≤ ssizeMax)
    (hs : source.Delivers (lenpEncode l) source') (hk : sink.Takes l sink') :
    Returns (fun fuel => lenpDecodeSourceToSink h fuel source sink)
      (.ok l.length, source', sink') := by
  obtain ⟨source₁, hs1, hs2⟩ := hs.append_inv
  have hlt : l.length < 2 ^ 64 := by
    unfold ssizeMax at hl
    omega
  have he := varintU64FromSource_delivers h hlt hs1
  refine Returns.congr (fun fuel => ?_) (stsN_delivers h hs2 hk)
  simp only [lenpDecodeSourceToSink, flenpDecodeSourceToSink, decodePrefix, if_true, he, ok_bind,
    BitVec.toNat_ofNat, Nat.mod_eq_of_lt hlt]

theorem ByteBuffer.Valid.length_unread {b : ByteBuffer} (h : b.Valid) :
    b.unread.length = byteBufferRest b := by
  rw [byteBufferRest_eq h, ByteBuffer.unread, Mem.length_slice]

theorem ByteBuffer.Valid.length_unread_le {b : ByteBuffer} (h : b.Valid) :
    b.unread.length ≤ ssizeMax := by
  have h1 := h.used_le
  have h2 := h.size_le
  rw [ByteBuffer.unread, Mem.length_slice]
  omega

/-- The sizes of the chunks add up to the octets they hold. -/
theorem chunksSize_foldl (chunks : List ByteBuffer) (hv : ∀ b ∈ chunks, b.Valid) (acc : Nat)
    (h : acc + (chunks.flatMap ByteBuffer.unread).length < 2 ^ 64) :
    chunks.foldl (fun size b => sizeAdd size (byteBufferRest b)) acc =
      acc + (chunks.flatMap ByteBuffer.unread).length := by
  induction chunks generalizing acc with
  | nil => rfl
  | cons b chunks ih =>
    rw [List.flatMap_cons, List.length_append] at h ⊢
    have hb := (hv b List.mem_cons_self).length_unread
    rw [List.foldl_cons, ← hb, sizeAdd_eq (by omega),
      ih (fun c hc => hv c (List.mem_cons_of_mem b hc)) _ (by omega), Nat.add_assoc]

theorem chunksSize_eq {chunks : List ByteBuffer} (hv : ∀ b ∈ chunks, b.Valid)
    (h : (chunks.flatMap ByteBuffer.unread).length < 2 ^ 64) :
    chunksSize chunks = (chunks.flatMap ByteBuffer.unread).length := by
  rw [chunksSize, chunksSize_foldl chunks hv 0 (by omega), Nat.zero_add]

/-- **The chunks go out one behind the other, up to the first one that holds nothing**: there the
    loop ends, and returns 0. -/
theorem flenpChunksLoop_run {sent : τ → List Octet} {Room : τ → Nat → Prop} (total : Nat)
    (chunks : List ByteBuffer) (hv : ∀ b ∈ chunks, b.Valid) {sink : Sink τ} {n : Nat}
    (hk : sink.Roomy sent Room) (hroom : Room sink.driver n)
    (hn : (chunks.flatMap ByteBuffer.unread).length ≤ n) :
    ∃ sink', Returns (fun fuel => flenpChunksLoop fuel total chunks sink)
        (.ok (if ∀ b ∈ chunks, b.unread ≠ [] then total else 0), sink') ∧
      sink.Sends sent ((chunks.takeWhile (·.unread ≠ [])).flatMap ByteBuffer.unread) sink' := by
  induction chunks generalizing sink n with
  | nil => exact ⟨sink, Returns.of_eq fun _ => rfl, .refl sent sink⟩
  | cons b chunks ih =>
    rw [List.flatMap_cons, List.length_append] at hn
    have hb := hv b List.mem_cons_self
    obtain ⟨sink₁, hret, hs1, hroom₁⟩ := sinkPutChunk_roomy hk b.unread hroom (by omega)
      hb.length_unread_le
    have hslice : b.octets.slice b.offset (byteBufferRest b) = b.unread := by
      rw [byteBufferRest_eq hb, ByteBuffer.unread]
    by_cases hne : b.unread = []
    · rw [hne] at hret hs1
      refine ⟨sink₁, Returns.seq (y := fun _ => .ok (.ok 0, sink₁)) (fun fuel hx => ?_) hret ?_, ?_⟩
      · simp only [flenpChunksLoop, hslice, hne, hx, ok_bind, List.length_nil]
      · rw [if_neg fun hall => hall b List.mem_cons_self hne]
        exact Returns.of_eq fun _ => rfl
      · rw [List.takeWhile_cons_of_neg (by simpa using hne)]
        exact hs1
    · obtain ⟨m, hm⟩ : ∃ m, b.unread.length = m + 1 :=
        ⟨_, (Nat.succ_pred_eq_of_pos (List.length_pos_iff.mpr hne)).symm⟩
      obtain ⟨sink', hrest, hs2⟩ := ih (fun c hc => hv c (List.mem_cons_of_mem b hc)) (hk.sends hs1)
        hroom₁ (by omega)
      have hall : (∀ c ∈ b :: chunks, c.unread ≠ []) ↔ ∀ c ∈ chunks, c.unread ≠ [] := by
        rw [List.forall_mem_cons]
        exact and_iff_right hne
      simp only [hall]
      refine ⟨sink', Returns.seq (fun fuel hx => ?_) hret hrest, ?_⟩
      · simp only [flenpChunksLoop, hslice, hx, hm, ok_bind]
      · rw [List.takeWhile_cons_of_pos (by simpa using hne), List.flatMap_cons]
        exact hs1.trans hs2

/-- **What the sender of chunks does**, in all formats. -/
theorem flenpChunksToSink_run (h : Host) {k : LengthPrefixKind} {sent : τ → List Octet}
    {Room : τ → Nat → Prop} {sink : Sink τ} {n : Nat} (hk : sink.Roomy sent Room)
    (hroom : Room sink.driver n) {oc : ByteChunks} (hv : oc.Valid) (hfits : k.Fits oc.unread.length)
    (hn : (k.frame h oc.unread).length ≤ n) :
    ∃ sink', Returns (fun fuel => flenpChunksToSink h fuel k sink oc)
        (.ok (if ∀ b ∈ oc.chunk.drop oc.active, b.unread ≠ [] then (k.frame h oc.unread).length
          else 0), sink') ∧
      sink.Sends sent (k.generate h oc.unread.length ++
        ((oc.chunk.drop oc.active).takeWhile (·.unread ≠ [])).flatMap ByteBuffer.unread) sink' := by
  have hv' : ∀ b ∈ oc.chunk.drop oc.active, b.Valid := fun b hb => hv b (List.mem_of_mem_drop hb)
  have hs64 : ssizeMax < 2 ^ 64 := by decide
  have hle := hfits.le
  have htotal : chunksSize (oc.chunk.drop oc.active) = oc.unread.length :=
    chunksSize_eq hv' (by rw [← ByteChunks.unread]; omega)
  obtain ⟨henc, hmax⟩ := LengthPrefixKind.encodePrefix_fits h hfits
  have hlen : (k.frame h oc.unread).length = (k.generate h oc.unread.length).length +
    oc.unread.length := List.length_append
  obtain ⟨sink₁, hret, hs1, hroom₁⟩ := sinkPutChunk_roomy hk
    (k.generate h oc.unread.length) hroom (by omega) (by omega)
  obtain ⟨sink', hrest, hs2⟩ := flenpChunksLoop_run (k.frame h oc.unread).length _ hv'
    (hk.sends hs1) hroom₁ (by rw [← ByteChunks.unread]; omega)
  refine ⟨sink', Returns.seq (fun fuel hx => ?_) hret hrest, hs1.trans hs2⟩
  simp only [flenpChunksToSink, htotal, henc]
  rw [if_neg (by omega), hx, hlen]
  rfl

/-- All chunks are written if none but the last one holds nothing. -/
theorem flatMap_takeWhile_unread (chunks : List ByteBuffer)
    (hne : ∀ b ∈ chunks.dropLast, b.unread ≠ []) :
    (chunks.takeWhile (·.unread ≠ [])).flatMap ByteBuffer.unread =
      chunks.flatMap ByteBuffer.unread := by
  induction chunks with
  | nil => rfl
  | cons b chunks ih =>
    by_cases hb : b.unread = []
    · have hlast : chunks = [] := by
        cases chunks with
        | nil => rfl
        | cons c cs => exact absurd hb (hne b List.mem_cons_self)
      subst hlast
      rw [List.takeWhile_cons_of_neg (by simpa using hb), List.flatMap_cons, hb]
      rfl
    · rw [List.takeWhile_cons_of_pos (by simpa using hb), List.flatMap_cons, List.flatMap_cons,
        ih fun c hc => hne c ?_]
      cases chunks with
      | nil => exact absurd hc List.not_mem_nil
      | cons d ds => exact List.mem_cons_of_mem b hc

/-- **The sender emits the frame of the octets of its chunks.** -/
theorem lenpChunksToSink_sends (h : Host) {sent : τ → List Octet} {sink : Sink τ}
    (hk : sink.Accepting sent) {oc : ByteChunks} (hv : oc.Valid)
    (hsize : oc.unread.length + varint64BitMaxOctets ≤ ssizeMax)
    (hne : ∀ b ∈ (oc.chunk.drop oc.active).dropLast, b.unread ≠ []) :
    ∃ sink' rc, Returns (fun fuel => lenpChunksToSink h fuel sink oc) (.ok rc, sink') ∧
      sink.Sends sent (lenpEncode oc.unread) sink' := by
  have hs64 : ssizeMax < 128 ^ (9 + 1) := by decide
  have hlen : (varintEncode oc.unread.length).length ≤ varint64BitMaxOctets :=
    length_varintEncode_le 9 _ (by omega)
  have hfits : LengthPrefixKind.variable.Fits oc.unread.length := by
    show _ + _ ≤ ssizeMax
    omega
  obtain ⟨sink', hret, hs⟩ := flenpChunksToSink_run h hk.roomy trivial hv hfits (le_refl _)
  rw [flatMap_takeWhile_unread _ hne] at hs
  exact ⟨sink', _, hret, hs⟩

end Ufw
