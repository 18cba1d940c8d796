/-
  File:      Ufw/LengthPrefix/Buffers.lean
  Subject:   LENGTH PREFIX FRAMING of byte buffers, with endpoints that may fail, in builds with and
             without assertions.

  * `flenpBufferToSink`, `flenpBufferToSinkN`, `flenpBufferEncodeN`, `flenpBufferFromSource` -- the
    code;
  * `SendsUnread`, `SendsFirst`, `EncodesFirst`, `Receives` -- what they are for;
  * `flenpBuffer_iff` -- **when they do it**. The two senders take the free room of a buffer for
    what it has to read; the receiver writes where the buffer is read, and moves the mark it is read
    from; and the counting functions move their mark as if all that is left were used, also where
    they fail.
-/
import Ufw.LengthPrefix.Encoding
import Ufw.LengthPrefix.Failures

namespace Ufw

open Base

variable {σ τ : Type}

/-! ## 1. The code -/

/-- What is left of an `ssize_t` in an `int`: its low 32 bits, as a two's complement. -/
def intOfSsize : Rc → Rc
  | .error e => .error e
  | .ok n =>
    let low := n % 2 ^ 32
    if low < 2 ^ 31 then .ok low else .error (.other (2 ^ 32 - low))

/-- `b->data + b->offset` -/
def ByteBuffer.readPointer (b : ByteBuffer) : Option Block :=
  b.data.map fun block =>
    { address := block.address + b.offset, octets := block.octets.shift b.offset }

/-- `flenp_buffer_encode_n` -/
def flenpBufferEncodeN (h : Host) (k : LengthPrefixKind) (lpb : LengthPrefixBuffer) (b : ByteBuffer)
    (n : Nat) : Rc × LengthPrefixBuffer × ByteBuffer :=
  let rest := byteBufferRest b
  if rest < n then (.error .einval, lpb, b)
  else
    let (rc, lpb) := flenpMemoryEncode h k lpb b.readPointer n
    (rc, lpb, { b with offset := sizeAdd b.offset rest })

/-- `flenp_buffer_to_sink` -/
def flenpBufferToSink (asserts : Bool) (h : Host) (fuel : Nat) (k : LengthPrefixKind)
    (sink : Sink τ) (b : ByteBuffer) : Exec (Rc × Sink τ) :=
  flenpMemoryToSinkBuild asserts h fuel k sink (b.octets.slice b.offset (byteBufferAvail b))

/-- `flenp_buffer_to_sink_n`; its return code passes through an `int`. -/
def flenpBufferToSinkN (asserts : Bool) (h : Host) (fuel : Nat) (k : LengthPrefixKind)
    (sink : Sink τ) (b : ByteBuffer) (n : Nat) : Exec (Rc × Sink τ × ByteBuffer) :=
  let rest := byteBufferAvail b
  if rest < n then .ok (.error .einval, sink, b)
  else do
    let (rc, sink) ←
      flenpMemoryToSinkBuild asserts h fuel k sink (b.octets.slice b.offset rest)
    .ok (intOfSsize rc, sink, { b with offset := sizeAdd b.offset rest })

/-- `flenp_buffer_from_source`; what a source handed out before it failed is in the buffer. -/
def flenpBufferFromSource (asserts : Bool) (h : Host) (fuel : Nat) (k : LengthPrefixKind)
    (source : Source σ) (b : ByteBuffer) : Exec (Rc × Source σ × ByteBuffer) := do
  let (rc, octets, source) ←
    flenpMemoryFromSourceBuild asserts h fuel k source (byteBufferAvail b)
  let b := b.write b.offset octets
  match rc with
  | .error e => .ok (.error e, source, b)
  | .ok rc => .ok (.ok rc, source, { b with offset := sizeAdd b.offset rc })

/-! ## 2. What it is for -/

section Purpose

variable (asserts : Bool) (h : Host) (k : LengthPrefixKind) (b : ByteBuffer)

/-- **`flenp_buffer_to_sink` sends the unread octets of a buffer**, where they have a frame, and the
    sink has `room` for it. -/
def SendsUnread (sent : τ → List Octet) (sink : Sink τ) (room : Nat) : Prop :=
  ∃ rc sink', Returns (fun fuel => flenpBufferToSink asserts h fuel k sink b) (rc, sink') ∧
    (∀ m, rc = .ok m → sink.Sends sent (k.frame h b.unread) sink') ∧
    (k.Sendable h room b.unread.length → ∃ m, rc = .ok m)

/-- **`flenp_buffer_to_sink_n` sends the first `n` unread octets of a buffer**, which are read then;
    an error leaves the buffer alone. -/
def SendsFirst (n : Nat) (sent : τ → List Octet) (sink : Sink τ) (room : Nat) : Prop :=
  ∃ rc sink' b',
    Returns (fun fuel => flenpBufferToSinkN asserts h fuel k sink b n) (rc, sink', b') ∧
    (∀ m, rc = .ok m → sink.Sends sent (k.frame h (b.unread.take n)) sink' ∧
      b' = { b with offset := b.offset + n }) ∧
    (∀ e, rc = .error e → b' = b) ∧ (k.Sendable h room n → ∃ m, rc = .ok m)

/-- **`flenp_buffer_encode_n` makes the first `n` unread octets of a buffer a payload**, which are
    read then; an error leaves the buffer alone. Without any octet it may fail. -/
def EncodesFirst (n : Nat) (lpb : LengthPrefixBuffer) : Prop :=
  ∃ rc lpb' b', flenpBufferEncodeN h k lpb b n = (rc, lpb', b') ∧
    (∀ m, rc = .ok m → lpb'.prefixBuffer.unread = k.generate h n ∧
      lpb'.payload.unread = b.unread.take n ∧ b' = { b with offset := b.offset + n }) ∧
    (∀ e, rc = .error e → b' = b) ∧ (0 < n → k.Encodes n → ∃ m, rc = .ok m)

/-- **`flenp_buffer_from_source` puts the payload at the beginning of a stock behind what a buffer
    has to read**, where there is room for it; an error leaves the marks of the buffer alone, and
    what it has to read. -/
def Receives (source : Source σ) (stock : List Octet) : Prop :=
  ∃ rc d' b', Returns (fun fuel => flenpBufferFromSource asserts h fuel k source b)
      (rc, { source with driver := d' }, b') ∧
    (∀ m, rc = .ok m → ∃ l rest, k.Opens h stock l.length (l ++ rest) ∧
      b'.unread = b.unread ++ l ∧ b'.InOrder) ∧
    (∀ e, rc = .error e → b'.offset = b.offset ∧ b'.used = b.used ∧ b'.size = b.size ∧
      b'.unread = b.unread) ∧
    (∀ l rest, k.Opens h stock l.length (l ++ rest) → l ≠ [] → l.length ≤ b.size - b.used →
      ∃ m, rc = .ok m)

end Purpose

/-! ## 3. Sending -/

theorem Sink.Sends.payload_unique {sent : τ → List Octet} {sink sink' : Sink τ} {l l' : List Octet}
    (h1 : sink.Sends sent l sink') (h2 : sink.Sends sent l' sink') : l = l' := by
  obtain ⟨d₁, rfl, hd₁⟩ := h1
  obtain ⟨d₂, heq, hd₂⟩ := h2
  obtain rfl : d₁ = d₂ := congrArg Sink.driver heq
  exact List.append_cancel_left (hd₁.symm.trans hd₂)

/-- Of two strings of octets in front of one text, neither is longer than the other. -/
theorem VarintString.unique {a a' r r' : List Octet} (ha : VarintString a) (ha' : VarintString a')
    (heq : a ++ r = a' ++ r') : a = a' := by
  induction ha generalizing a' with
  | last hdone =>
    cases ha' with
    | last => rw [(List.cons.inj heq).1]
    | more hmore =>
      rw [(List.cons.inj heq).1, hmore] at hdone
      cases hdone
  | more hmore _ ih =>
    cases ha' with
    | last hdone =>
      rw [(List.cons.inj heq).1, hdone] at hmore
      cases hmore
    | more _ rest => rw [(List.cons.inj heq).1, ih rest (List.cons.inj heq).2]

namespace LengthPrefixKind

/-- **Payloads with one frame are one payload**, whether they fit or not. -/
theorem frame_inj {h : Host} {k : LengthPrefixKind} {l l' : List Octet}
    (heq : k.frame h l = k.frame h l') : l = l' := by
  have hprefix : (k.generate h l.length).length = (k.generate h l'.length).length := by
    match k with
    | .variable =>
      have henc := (varintString_encode l.length).unique (varintString_encode l'.length) heq
      exact congrArg List.length henc
    | .octet => rfl
    | .le16Bit => exact (length_bfSetU16l h _).trans (length_bfSetU16l h _).symm
    | .le32Bit => exact (length_bfSetU32l h _).trans (length_bfSetU32l h _).symm
    | .be16Bit => exact (length_bfSetU16b h _).trans (length_bfSetU16b h _).symm
    | .be32Bit => exact (length_bfSetU32b h _).trans (length_bfSetU32b h _).symm
  exact (List.append_inj heq hprefix).2

/-- An empty payload fits. -/
theorem fits_zero (k : LengthPrefixKind) : k.Fits 0 := by
  match k with
  | .variable =>
    have hlen : (varintEncode 0).length ≤ 0 + 1 := length_varintEncode_le 0 0 (by decide)
    have hs : 1 ≤ ssizeMax := by decide
    show (varintEncode 0).length + 0 ≤ ssizeMax
    omega
  | .octet | .le16Bit | .le32Bit | .be16Bit | .be32Bit => exact Nat.zero_le _

end LengthPrefixKind

/-- A count stays one in an `int` if its low bits are no negative number. -/
theorem intOfSsize_ok_iff (n : Nat) : (∃ m, intOfSsize (.ok n) = .ok m) ↔ n % 2 ^ 32 < 2 ^ 31 := by
  unfold intOfSsize
  by_cases hlow : n % 2 ^ 32 < 2 ^ 31
  · exact ⟨fun _ => hlow, fun _ => ⟨_, if_pos hlow⟩⟩
  · refine ⟨?_, fun hc => absurd hc hlow⟩
    rintro ⟨m, hm⟩
    simp only [if_neg hlow] at hm
    cases hm

section Sending

variable {asserts : Bool} {h : Host} {k : LengthPrefixKind} {b : ByteBuffer} {n room : Nat}
  {sent : τ → List Octet} {Room : τ → Nat → Prop} {ends : Prop} {Report : Errno → Prop}
  {sink : Sink τ} {l : List Octet}

/-- What was sent can be counted in an `int`; of an empty payload nothing is counted, and its frame
    is short anyway. -/
theorem intOfSsize_sentRc_iff (hf : k.Fits l.length) :
    (∃ count, intOfSsize (.ok (sentRc h k l)) = .ok count) ↔
      k.frameLength h l.length % 2 ^ 32 < 2 ^ 31 := by
  have hle : k.frameLength h l.length ≤ l.length + varint64BitMaxOctets := hf.frameLength_le
  unfold varint64BitMaxOctets at hle
  rw [intOfSsize_ok_iff, sentRc]
  by_cases hnil : l = []
  · rw [if_pos hnil]
    rw [hnil, List.length_nil] at hle ⊢
    omega
  · rw [if_neg hnil]

/-- **`flenp_buffer_to_sink` does what it is for** exactly where as many octets are unread as there
    is room left, and these can be sent; or neither number of octets can be sent, and no assertion
    fails on the attempt. -/
theorem flenpBufferToSink_iff (hb : b.InOrder) (hk : sink.Limited sent Room ends Report)
    (hroom : Room sink.driver room) (hends : ends ∨ b.size + varint64BitMaxOctets ≤ room) :
    SendsUnread asserts h k b sent sink room ↔
      b.used - b.offset = b.size - b.used ∧ k.Sendable h room (b.size - b.used) ∨
        ¬ k.Sendable h room (b.used - b.offset) ∧ ¬ k.Sendable h room (b.size - b.used) ∧
          (asserts = true → ¬ k.Fits (b.size - b.used)) := by
  have havail : byteBufferAvail b = b.size - b.used := sizeSub_eq hb.used_le hb.size_lt
  have hunread : b.unread.length = b.used - b.offset := Mem.length_slice _ _ _
  obtain ⟨l, hl⟩ : ∃ l, b.octets.slice b.offset (b.size - b.used) = l := ⟨_, rfl⟩
  have hlen : l.length = b.size - b.used := by rw [← hl, Mem.length_slice]
  have hcall : ∀ fuel, flenpBufferToSink asserts h fuel k sink b =
      flenpMemoryToSinkBuild asserts h fuel k sink l := fun fuel => by
    rw [flenpBufferToSink, havail, hl]
  unfold SendsUnread
  simp only [hcall, hunread]
  rw [← hlen]
  rcases flenpMemoryToSinkBuild_outcome asserts h k hk hroom (l := l) (hends.imp id (by omega)) with
    ⟨hs, sink', hret, hsends⟩ | ⟨hno, hassert, e, sink', hret⟩ | ⟨hno, rfl, hf, hstops⟩
  · constructor
    · rintro ⟨rc, sink'', hret', hok, -⟩
      cases hret.unique hret'
      have hsame := LengthPrefixKind.frame_inj ((hok _ rfl).payload_unique hsends)
      exact .inl ⟨by rw [← hunread, hsame], hs⟩
    · rintro (⟨heq, -⟩ | ⟨-, hno, -⟩)
      · have hsame : b.unread = l := by
          rw [← hl, ← hlen, ← heq]
          rfl
        exact ⟨_, sink', hret, fun _ _ => hsame ▸ hsends, fun _ => ⟨_, rfl⟩⟩
      · exact absurd hs hno
  · constructor
    · rintro ⟨rc, sink'', hret', -, hmust⟩
      cases hret.unique hret'
      refine .inr ⟨fun hu => ?_, hno, hassert⟩
      obtain ⟨_, he⟩ := hmust hu
      cases he
    · rintro (⟨-, hs⟩ | ⟨hu, -, -⟩)
      · exact absurd hs hno
      · exact ⟨_, sink', hret, fun _ he => (by cases he), fun hs => absurd hs hu⟩
  · constructor
    · rintro ⟨rc, sink'', hret, -⟩
      exact absurd hret (hstops.not_returns _)
    · rintro (⟨-, hs⟩ | ⟨-, -, hc⟩)
      · exact absurd hs hno
      · exact absurd hf (hc rfl)

/-- Where more is asked for than there is room, nothing is sent. -/
theorem flenpBufferToSinkN_refused (hb : b.InOrder) (hlt : b.size - b.used < n) :
    SendsFirst asserts h k b n sent sink room ↔ ¬ k.Sendable h room n := by
  have havail : byteBufferAvail b = b.size - b.used := sizeSub_eq hb.used_le hb.size_lt
  have hcall : Returns (fun fuel => flenpBufferToSinkN asserts h fuel k sink b n)
      (.error .einval, sink, b) := Returns.of_eq fun fuel => by
    simp only [flenpBufferToSinkN, havail, if_pos hlt]
  constructor
  · rintro ⟨rc, sink', b', hret, -, -, hmust⟩ hs
    cases hcall.unique hret
    obtain ⟨_, he⟩ := hmust hs
    cases he
  · intro hno
    exact ⟨_, sink, b, hcall, fun _ he => (by cases he), fun _ _ => rfl, fun hs => absurd hs hno⟩

/-- Else as many octets are sent as there is room for, and they count as read. -/
theorem flenpBufferToSinkN_returns (hb : b.InOrder) (hle : n ≤ b.size - b.used) {rc : Rc}
    {sink' : Sink τ} (hret : Returns (fun fuel => flenpMemoryToSinkBuild asserts h fuel k sink
      (b.octets.slice b.offset (b.size - b.used))) (rc, sink')) :
    Returns (fun fuel => flenpBufferToSinkN asserts h fuel k sink b n)
      (intOfSsize rc, sink', { b with offset := b.offset + (b.size - b.used) }) := by
  have hoffset := hb.offset_le
  have hused := hb.used_le
  have hsize := hb.size_lt
  have havail : byteBufferAvail b = b.size - b.used := sizeSub_eq hused hsize
  have hadd : sizeAdd b.offset (b.size - b.used) = b.offset + (b.size - b.used) :=
    sizeAdd_eq (by omega)
  refine hret.after fun fuel hx => ?_
  simp only [flenpBufferToSinkN, havail, if_neg (Nat.not_lt.mpr hle), hx, ok_bind, hadd]

/-- An error leaves the buffer alone only where there is no room to count. -/
theorem ByteBuffer.room_of_unmoved (hle : n ≤ b.size - b.used)
    (hsame : { b with offset := b.offset + (b.size - b.used) } = b) :
    n = 0 ∧ b.size - b.used = 0 := by
  have hoffset : b.offset + (b.size - b.used) = b.offset := congrArg ByteBuffer.offset hsame
  omega

/-- Where the octets are sent, they are the first `n` unread ones if they are `n`, and the number
    sent has to be one that an `int` can hold. -/
theorem flenpBufferToSinkN_sent (hb : b.InOrder) (hn : n ≤ b.used - b.offset)
    (hle : n ≤ b.size - b.used) (hs : k.Sendable h room (b.size - b.used)) {sink' : Sink τ}
    (hret : Returns (fun fuel => flenpMemoryToSinkBuild asserts h fuel k sink
      (b.octets.slice b.offset (b.size - b.used)))
      (.ok (sentRc h k (b.octets.slice b.offset (b.size - b.used))), sink'))
    (hsends : sink.Sends sent (k.frame h (b.octets.slice b.offset (b.size - b.used))) sink') :
    SendsFirst asserts h k b n sent sink room ↔
      n = b.size - b.used ∧ k.frameLength h n % 2 ^ 32 < 2 ^ 31 := by
  have hcall := flenpBufferToSinkN_returns hb hle hret
  have hlen : (b.octets.slice b.offset (b.size - b.used)).length = b.size - b.used :=
    Mem.length_slice _ _ _
  have hcount := intOfSsize_sentRc_iff (h := h) (by rw [hlen]; exact hs.1)
  rw [hlen] at hcount
  constructor
  · rintro ⟨rc, sink'', b', hret', hok, herror, hmust⟩
    cases hcall.unique hret'
    cases hrc : intOfSsize (.ok (sentRc h k (b.octets.slice b.offset (b.size - b.used)))) with
    | error e =>
      obtain ⟨rfl, hzero⟩ := ByteBuffer.room_of_unmoved hle (herror e hrc)
      obtain ⟨_, he⟩ := hmust (hzero ▸ hs)
      rw [hrc] at he
      cases he
    | ok count =>
      have hsame : b.offset + (b.size - b.used) = b.offset + n :=
        congrArg ByteBuffer.offset (hok count hrc).2
      obtain rfl : n = b.size - b.used := by omega
      exact ⟨rfl, hcount.mp ⟨count, hrc⟩⟩
  · rintro ⟨heq, hlow⟩
    obtain ⟨count, hrc⟩ := hcount.mpr (heq ▸ hlow)
    have hfirst : b.unread.take n = b.octets.slice b.offset (b.size - b.used) := by
      rw [← heq]
      exact Mem.slice_take _ _ _ _ hn
    refine ⟨_, sink', _, hcall, fun _ _ => ⟨hfirst ▸ hsends, by rw [heq]⟩, fun e he => ?_,
      fun _ => ⟨count, hrc⟩⟩
    rw [hrc] at he
    cases he

/-- Where the octets are not sent, none of them may count as read. -/
theorem flenpBufferToSinkN_failed (hb : b.InOrder) (hle : n ≤ b.size - b.used)
    (hno : ¬ k.Sendable h room (b.size - b.used)) {e : Errno} {sink' : Sink τ}
    (hret : Returns (fun fuel => flenpMemoryToSinkBuild asserts h fuel k sink
      (b.octets.slice b.offset (b.size - b.used))) (.error e, sink')) :
    SendsFirst asserts h k b n sent sink room ↔ n = 0 ∧ b.size - b.used = 0 := by
  have hcall := flenpBufferToSinkN_returns hb hle hret
  constructor
  · rintro ⟨rc, sink'', b', hret', -, herror, -⟩
    cases hcall.unique hret'
    exact ByteBuffer.room_of_unmoved hle (herror e rfl)
  · rintro ⟨hn, hzero⟩
    refine ⟨_, sink', _, hcall, fun _ he => (by cases he), fun _ _ => ?_, fun hs => ?_⟩
    · rw [hzero, Nat.add_zero]
    · rw [hn, ← hzero] at hs
      exact absurd hs hno

/-- **`flenp_buffer_to_sink_n` does what it is for** exactly where all of the free room is asked
    for, can be sent, and is counted in an `int` then; or where more than the free room is asked
    for, and cannot be sent anyway; or where nothing is asked for, there is no room in the buffer
    and none in the sink, and no assertion that says so. -/
theorem flenpBufferToSinkN_iff (hb : b.InOrder) (hn : n ≤ b.used - b.offset)
    (hk : sink.Limited sent Room ends Report) (hroom : Room sink.driver room)
    (hends : ends ∨ b.size + varint64BitMaxOctets ≤ room) :
    SendsFirst asserts h k b n sent sink room ↔
      n = b.size - b.used ∧ k.Sendable h room n ∧ k.frameLength h n % 2 ^ 32 < 2 ^ 31 ∨
        b.size - b.used < n ∧ ¬ k.Sendable h room n ∨
        n = 0 ∧ b.size - b.used = 0 ∧ ¬ k.Sendable h room 0 ∧ asserts = false := by
  rcases Nat.lt_or_ge (b.size - b.used) n with hlt | hle
  · rw [flenpBufferToSinkN_refused hb hlt]
    have hne : n ≠ b.size - b.used := hlt.ne'
    have hpos : n ≠ 0 := Nat.ne_of_gt (Nat.zero_lt_of_lt hlt)
    simp only [hne, hpos, hlt, false_and, false_or, or_false, true_and]
  have hlt := Nat.not_lt.mpr hle
  have hlen : (b.octets.slice b.offset (b.size - b.used)).length = b.size - b.used :=
    Mem.length_slice _ _ _
  rcases flenpMemoryToSinkBuild_outcome asserts h k hk hroom
    (l := b.octets.slice b.offset (b.size - b.used)) (hends.imp id (by omega)) with
    ⟨hs, sink', hret, hsends⟩ | ⟨hno, hassert, e, sink', hret⟩ | ⟨hno, rfl, hf, hstops⟩
  · rw [hlen] at hs
    rw [flenpBufferToSinkN_sent hb hn hle hs hret hsends]
    refine ⟨fun hc => .inl ⟨hc.1, hc.1 ▸ hs, hc.2⟩, fun hc => ?_⟩
    rcases hc with ⟨heq, -, hlow⟩ | ⟨hc, -⟩ | ⟨-, hzero, hno, -⟩
    · exact ⟨heq, hlow⟩
    · exact absurd hc hlt
    · exact absurd (hzero ▸ hs) hno
  · rw [hlen] at hno hassert
    rw [flenpBufferToSinkN_failed hb hle hno hret]
    constructor
    · rintro ⟨hzero, hfree⟩
      rw [hfree] at hno hassert
      exact .inr (.inr ⟨hzero, hfree, hno, Bool.eq_false_iff.mpr fun hc =>
        hassert hc (LengthPrefixKind.fits_zero k)⟩)
    · intro hc
      rcases hc with ⟨heq, hs, -⟩ | ⟨hc, -⟩ | ⟨hzero, hfree, -, -⟩
      · exact absurd (heq ▸ hs) hno
      · exact absurd hc hlt
      · exact ⟨hzero, hfree⟩
  · rw [hlen] at hno
    refine iff_of_false ?_ ?_
    · rintro ⟨rc, sink'', b', hret, -⟩
      refine absurd hret (Stops.not_returns (hstops.part fun fuel hx => ?_) _)
      have havail : byteBufferAvail b = b.size - b.used := sizeSub_eq hb.used_le hb.size_lt
      simp only [flenpBufferToSinkN, havail, if_neg hlt, hx, error_bind]
    · intro hc
      rcases hc with ⟨heq, hs, -⟩ | ⟨hc, -⟩ | ⟨-, -, -, hc⟩
      · exact absurd (heq ▸ hs) hno
      · exact absurd hc hlt
      · cases hc

end Sending

/-! ## 4. Encoding and receiving -/

/-- **`flenp_buffer_encode_n` does what it is for** exactly where it is asked for all unread octets,
    and these are none or can be written down. -/
theorem flenpBufferEncodeN_iff (h : Host) (k : LengthPrefixKind) {b : ByteBuffer} (hb : b.InOrder)
    (hdata : b.data = none → b.size = 0) {n : Nat} (hn : n ≤ b.used - b.offset)
    (lpb : LengthPrefixBuffer) :
    EncodesFirst h k b n lpb ↔ n = b.used - b.offset ∧ (n = 0 ∨ k.Encodes n) := by
  have hoffset := hb.offset_le
  have hused := hb.used_le
  have hsize := hb.size_lt
  have hadd : sizeAdd b.offset (b.used - b.offset) = b.used := by rw [sizeAdd_eq] <;> omega
  have hcall : flenpBufferEncodeN h k lpb b n =
      ((flenpMemoryEncode h k lpb b.readPointer n).1, (flenpMemoryEncode h k lpb b.readPointer n).2,
        { b with offset := b.used }) := by
    simp only [flenpBufferEncodeN, hb.rest_eq, if_neg (Nat.not_lt.mpr hn), hadd]
  -- where all is asked for, what `flenp_memory_encode` answers decides
  have hall : n = b.used - b.offset → { b with offset := b.offset + n } =
    { b with offset := b.used } :=
    fun heq => by rw [show b.offset + n = b.used by omega]
  constructor
  · rintro ⟨rc, lpb', b', hret, hok, herror, hfits⟩
    rw [hcall] at hret
    cases hret
    cases hrc : (flenpMemoryEncode h k lpb b.readPointer n).1 with
    | error e =>
      have hsame : b.used = b.offset := congrArg ByteBuffer.offset (herror e hrc)
      exact ⟨by omega, .inl (by omega)⟩
    | ok m =>
      have hsame : b.used = b.offset + n := congrArg ByteBuffer.offset (hok m hrc).2.2
      refine ⟨by omega, .inr ?_⟩
      by_contra hnot
      rw [flenpMemoryEncode, encodePrefixBuffer_refused h hnot] at hrc
      cases hrc
  · rintro ⟨heq, hcond⟩
    rw [EncodesFirst, hcall]
    rcases Nat.eq_zero_or_pos n with rfl | hpos
    · -- no octets are no payload
      have hrefused : ∃ e, (flenpMemoryEncode h k lpb b.readPointer 0).1 = .error e := by
        unfold flenpMemoryEncode
        split
        · exact ⟨_, rfl⟩
        · exact ⟨.einval, by rw [byteBufferUse, byteBufferSet, if_pos (.inr (.inl rfl))]⟩
      obtain ⟨e, he⟩ := hrefused
      refine ⟨_, _, _, rfl, fun m hrc => ?_, fun _ _ => ?_, fun hc => absurd hc (Nat.lt_irrefl 0)⟩
      · rw [he] at hrc
        cases hrc
      · exact (hall heq).symm
    · have hencodes : k.Encodes n := hcond.resolve_left hpos.ne'
      obtain ⟨block, hblock⟩ : ∃ block, b.data = some block :=
        Option.ne_none_iff_exists'.mp fun hnone => by have := hdata hnone; omega
      obtain ⟨p, henc, -, -, hunread⟩ :=
        encodePrefixBuffer_encodes h hencodes lpb.prefixBuffer lpb.memory
      have hmem := flenpMemoryEncode_encodes h henc
        { address := block.address + b.offset, octets := block.octets.shift b.offset } hpos
      rw [ByteBuffer.readPointer, hblock, Option.map_some, hmem]
      refine ⟨_, _, _, rfl, fun _ _ => ⟨hunread, ?_, by rw [← hblock]; exact (hall heq).symm⟩,
        fun _ he => (by cases he), fun _ _ => ⟨0, rfl⟩⟩
      have hoctets : b.octets = block.octets := by rw [ByteBuffer.octets, hblock]
      show (block.octets.shift b.offset).slice 0 n = b.unread.take n
      rw [ByteBuffer.unread, hoctets, Mem.slice_shift, Mem.slice_take _ _ _ _ hn, Nat.add_zero]

section Receiving

variable {asserts : Bool} {h : Host} {k : LengthPrefixKind} {Left : σ → List Octet → Prop}
  {ends : Prop} {Report : Errno → Prop} {source : Source σ} {stock rest : List Octet}
  {b : ByteBuffer} {n : Nat}

namespace LengthPrefixKind

/-- The prefixes of one format that begin one stock are one. -/
theorem Opens.unique {m : Nat} {rest' : List Octet} (ho : k.Opens h stock n rest)
    (ho' : k.Opens h stock m rest') : n = m ∧ rest = rest' := by
  obtain ⟨octets, rfl, ha⟩ := ho
  obtain ⟨octets', heq, ha'⟩ := ho'
  have hsame : octets = octets' := by
    match k, ha, ha' with
    | .variable, ha, ha' => exact ha.1.unique ha'.1 heq
    | .octet, ha, ha' | .le16Bit, ha, ha' | .le32Bit, ha, ha' | .be16Bit, ha, ha'
    | .be32Bit, ha, ha' => exact (List.append_inj heq (ha.1.trans ha'.1.symm)).1
  subst hsame
  refine ⟨?_, List.append_cancel_left heq⟩
  match k, ha, ha' with
  | .variable, ha, ha' => exact ha.2.2.symm.trans ha'.2.2
  | .octet, ha, ha' | .le16Bit, ha, ha' | .le32Bit, ha, ha' | .be16Bit, ha, ha'
  | .be32Bit, ha, ha' => exact Except.ok.inj (ha.2.symm.trans ha'.2)

/-- A stock that begins with a prefix is no shorter than that, and not much longer than what is
    behind it. -/
theorem Opens.length_le (ho : k.Opens h stock n rest) :
    k.size ≤ stock.length ∧ stock.length ≤ rest.length + varint64BitMaxOctets := by
  obtain ⟨octets, rfl, ha⟩ := ho
  have hle := ha.length_le
  have hsize : k.size ≤ octets.length := by
    match k, ha with
    | .variable, ha => exact Nat.zero_le _
    | .octet, ha | .le16Bit, ha | .le32Bit, ha | .be16Bit, ha | .be32Bit, ha => exact ha.1.ge
  rw [List.length_append]
  omega

/-- There is no payload to receive where it is empty, or too large, or not all there. -/
theorem Opens.payload_iff (ho : k.Opens h stock n rest) (room : Nat) :
    (∀ l rest', k.Opens h stock l.length (l ++ rest') → l ≠ [] → room < l.length) ↔
      n = 0 ∨ room < n ∨ rest.length < n := by
  constructor
  · intro hall
    by_contra hcond
    obtain ⟨h0, hcond⟩ := not_or.mp hcond
    obtain ⟨hle, hlt⟩ := not_or.mp hcond
    have hlen : (rest.take n).length = n := List.length_take_of_le (Nat.not_lt.mp hlt)
    refine hle (hlen ▸ hall (rest.take n) (rest.drop n) ?_ ?_)
    · rwa [hlen, List.take_append_drop]
    · exact List.length_pos_iff.mp (hlen.symm ▸ Nat.pos_of_ne_zero h0)
  · intro hcond l rest' ho' hne
    obtain ⟨hn, hrest'⟩ := ho.unique ho'
    have hpos := List.length_pos_iff.mpr hne
    have hlen := congrArg List.length hrest'
    rw [List.length_append] at hlen
    omega

end LengthPrefixKind

/-- The octets that are unread after some were written over them. -/
theorem ByteBuffer.unread_write (b : ByteBuffer) (hdata : b.data = none → b.size = 0)
    (hb : b.InOrder) (l : List Octet) : (b.write b.offset l).unread = b.unread ↔
      l.take (b.used - b.offset) = b.unread.take l.length := by
  obtain ⟨_ | block, size, used, offset⟩ := b
  · obtain rfl : size = 0 := hdata rfl
    obtain rfl : used = 0 := Nat.le_zero.mp hb.used_le
    obtain rfl : offset = 0 := Nat.le_zero.mp hb.offset_le
    exact ⟨fun _ => by simp [ByteBuffer.unread], fun _ => rfl⟩
  · show (block.octets.store offset l).slice offset (used - offset) =
      block.octets.slice offset (used - offset) ↔ _
    rw [Mem.slice_store_take]
    nth_rewrite 2 [← List.take_append_drop l.length (block.octets.slice offset (used - offset))]
    exact List.append_left_inj _

/-- **Where an error is returned**, the buffer is as it should be if what was written over its
    unread octets is what they were, and there was no payload to receive. -/
theorem receives_error_iff (hb : b.InOrder) (hdata : b.data = none → b.size = 0) {e : Errno}
    {octets : List Octet} {d' : σ}
    (hret : Returns (fun fuel => flenpMemoryFromSourceBuild asserts h fuel k source
      (b.size - b.used)) (.error e, octets, { source with driver := d' })) :
    Receives asserts h k b source stock ↔
      octets.take (b.used - b.offset) = b.unread.take octets.length ∧
        ∀ l rest, k.Opens h stock l.length (l ++ rest) → l ≠ [] → b.size - b.used < l.length := by
  have havail : byteBufferAvail b = b.size - b.used := sizeSub_eq hb.used_le hb.size_lt
  have hcall : Returns (fun fuel => flenpBufferFromSource asserts h fuel k source b)
      (.error e, { source with driver := d' }, b.write b.offset octets) := by
    refine hret.after fun fuel hx => ?_
    rw [flenpBufferFromSource, havail, hx, ok_bind]
  rw [← b.unread_write hdata hb]
  constructor
  · rintro ⟨rc, d'', b', hret', -, herror, hmust⟩
    cases hcall.unique hret'
    refine ⟨(herror e rfl).2.2.2, fun l rest ho hne => Nat.not_le.mp fun hle => ?_⟩
    obtain ⟨_, he⟩ := hmust l rest ho hne hle
    cases he
  · rintro ⟨hsame, hnone⟩
    exact ⟨_, d', _, hcall, fun _ he => (by cases he), fun _ _ => ⟨rfl, rfl, rfl, hsame⟩,
      fun l rest ho hne hle => absurd (hnone l rest ho hne) (Nat.not_lt.mpr hle)⟩

/-- **Where a payload is received**, it is not behind what is unread: less is unread than before. -/
theorem not_receives_payload (hb : b.InOrder) (ho : k.Opens h stock n rest) (h0 : 0 < n)
    (hle : n ≤ b.size - b.used) {octets : List Octet} {d' : σ}
    (hret : Returns (fun fuel => flenpMemoryFromSourceBuild asserts h fuel k source
      (b.size - b.used)) (.ok n, octets, { source with driver := d' })) :
    ¬ Receives asserts h k b source stock := by
  have hoffset := hb.offset_le
  have hused := hb.used_le
  have hsize := hb.size_lt
  have havail : byteBufferAvail b = b.size - b.used := sizeSub_eq hused hsize
  have hcall : Returns (fun fuel => flenpBufferFromSource asserts h fuel k source b)
      (.ok n, { source with driver := d' },
        { b.write b.offset octets with offset := sizeAdd b.offset n }) := by
    refine hret.after fun fuel hx => ?_
    rw [flenpBufferFromSource, havail, hx, ok_bind]
    rfl
  rintro ⟨rc, d'', b', hret', hok, -⟩
  cases hcall.unique hret'
  obtain ⟨l, rest', ho', hunread, -⟩ := hok n rfl
  have hlen := congrArg List.length hunread
  have hadd : sizeAdd b.offset n = b.offset + n := sizeAdd_eq (by omega)
  have hsame := (ho.unique ho').1
  rw [List.length_append, ByteBuffer.unread, ByteBuffer.unread, Mem.length_slice,
    Mem.length_slice] at hlen
  change b.used - sizeAdd b.offset n = _ at hlen
  omega

theorem not_receives_stops (hb : b.InOrder)
    (hstops : Stops (fun fuel => flenpMemoryFromSourceBuild asserts h fuel k source
      (b.size - b.used))) : ¬ Receives asserts h k b source stock := by
  have havail : byteBufferAvail b = b.size - b.used := sizeSub_eq hb.used_le hb.size_lt
  rintro ⟨rc, d', b', hret, -⟩
  refine absurd hret (Stops.not_returns (hstops.part fun fuel hx => ?_) _)
  rw [flenpBufferFromSource, havail, hx, error_bind]

/-- Behind a prefix, the receiver does what it is for where there is nothing to receive: the payload
    is empty, or too large; or it does not come, no assertion says so, and what does come is what
    the buffer has to read. -/
theorem receives_opens_iff (hb : b.InOrder) (hdata : b.data = none → b.size = 0)
    (hs : source.Stocked Left ends Report) (hd : Left source.driver stock)
    (hends : ends ∨ b.size + varint64BitMaxOctets ≤ stock.length) (ho : k.Opens h stock n rest) :
    Receives asserts h k b source stock ↔ n = 0 ∨ b.size - b.used < n ∨
      rest.length < n ∧ asserts = false ∧
        (n ≤ ssizeMax → rest.take (b.used - b.offset) = b.unread.take rest.length) := by
  obtain ⟨d, hrest, hlarge, hreturns, hstops⟩ :=
    flenpMemoryFromSourceBuild_opens asserts hs hd ho (b.size - b.used)
  have hsd : ({ source with driver := d } : Source σ).Stocked Left ends Report := hs.driver d
  have hopens := ho.payload_iff (b.size - b.used)
  rcases Nat.eq_zero_or_pos n with rfl | h0
  · have hret := hreturns (Nat.zero_le _) _
      (Returns.of_eq fun fuel => sourceGetChunkBuild_zero asserts fuel _)
    rw [receives_error_iff hb hdata hret, hopens]
    exact ⟨fun _ => .inl rfl, fun _ => ⟨by simp, .inl rfl⟩⟩
  · rcases Nat.lt_or_ge (b.size - b.used) n with hlt | hle
    · rw [receives_error_iff hb hdata (hlarge hlt), hopens]
      exact ⟨fun _ => .inr (.inl hlt), fun _ => ⟨by simp, .inr (.inl hlt)⟩⟩
    · have hcond : (n = 0 ∨ b.size - b.used < n ∨ rest.length < n ∧ asserts = false ∧
          (n ≤ ssizeMax → rest.take (b.used - b.offset) = b.unread.take rest.length)) ↔
          rest.length < n ∧ asserts = false ∧
          (n ≤ ssizeMax → rest.take (b.used - b.offset) = b.unread.take rest.length) := by
        rw [or_iff_right h0.ne', or_iff_right (Nat.not_lt.mpr hle)]
      rw [hcond]
      rw [or_iff_right h0.ne', or_iff_right (Nat.not_lt.mpr hle)] at hopens
      rcases Nat.lt_or_ge ssizeMax n with hbig | hsmall
      · obtain ⟨hstop, hret⟩ := sourceGetChunkBuild_large { source with driver := d } hbig
        cases asserts with
        | true =>
          exact iff_of_false (not_receives_stops hb (hstops hle hstop)) fun hc => by cases hc.2.1
        | false =>
          rw [receives_error_iff hb hdata (hreturns hle _ hret), hopens]
          exact ⟨fun hc => ⟨hc.2, rfl, fun hn => absurd hn (Nat.not_le.mpr hbig)⟩,
            fun hc => ⟨by simp, hc.1⟩⟩
      · rcases Nat.lt_or_ge rest.length n with hlt | hge
        · have hlen := ho.length_le.2
          obtain ⟨hstop, e, d', hret⟩ := sourceGetChunkBuild_fails hsd
            (hends.resolve_right (by omega)) hrest hlt hsmall
          cases asserts with
          | true =>
            exact iff_of_false (not_receives_stops hb (hstops hle hstop)) fun hc => by cases hc.2.1
          | false =>
            rw [receives_error_iff hb hdata (hreturns hle _ hret), hopens]
            exact ⟨fun hc => ⟨hc.2, rfl, fun _ => hc.1⟩, fun hc => ⟨hc.2.2 hsmall, hc.1⟩⟩
        · obtain ⟨d', hret⟩ := sourceGetChunkBuild_payload asserts hsd hrest h0 hsmall hge
          exact iff_of_false (not_receives_payload hb ho h0 hle (hreturns hle _ hret))
            fun hc => absurd hc.1 (Nat.not_lt.mpr hge)

/-- **`flenp_buffer_from_source` does what it is for** exactly where it receives nothing: no length
    is announced; or that of an empty payload, or of one that is too large, or of one that does not
    come. Of the last one, what does come must be what the buffer has to read. With assertions, the
    program stops where the source fails in the middle of a payload, or of a prefix of a fixed
    size. -/
theorem flenpBufferFromSource_iff (hb : b.InOrder) (hdata : b.data = none → b.size = 0)
    (hs : source.Stocked Left ends Report) (hd : Left source.driver stock)
    (hends : ends ∨ b.size + varint64BitMaxOctets ≤ stock.length) :
    Receives asserts h k b source stock ↔
      (∀ n rest, k.Opens h stock n rest → n = 0 ∨ b.size - b.used < n ∨
        rest.length < n ∧ asserts = false ∧
          (n ≤ ssizeMax → rest.take (b.used - b.offset) = b.unread.take rest.length)) ∧
      (asserts = true → k = .variable ∨ k.size ≤ stock.length) := by
  by_cases hopen : ∃ n rest, k.Opens h stock n rest
  · obtain ⟨n, rest, ho⟩ := hopen
    rw [receives_opens_iff hb hdata hs hd hends ho]
    refine ⟨fun hc => ⟨fun n' rest' ho' => ?_, fun _ => .inr ho.length_le.1⟩,
      fun hc => hc.1 n rest ho⟩
    obtain ⟨rfl, rfl⟩ := ho.unique ho'
    exact hc
  · have hno : ∀ n rest, ¬ k.Opens h stock n rest := fun n rest ho => hopen ⟨n, rest, ho⟩
    -- an error of the prefix is one of the receiver, and nothing is written
    have herror : ∀ {e d'}, Returns (fun fuel => decodePrefixBuild asserts h fuel k source)
        (.error e, { source with driver := d' }) →
        Receives asserts h k b source stock := fun hret => by
      have hmemory := hret.after (f := fun fuel =>
          flenpMemoryFromSourceBuild asserts h fuel k source (b.size - b.used)) fun fuel hx => by
        rw [flenpMemoryFromSourceBuild, hx, ok_bind]
      rw [receives_error_iff hb hdata hmemory]
      exact ⟨by simp, fun l rest ho => absurd ho (hno _ _)⟩
    by_cases hk : k = .variable
    · subst hk
      obtain ⟨e, d', hret⟩ := decodePrefixBuild_missing asserts hs hd (hends.imp id (by omega)) hno
      exact ⟨fun _ => ⟨fun n rest ho => absurd ho (hno n rest), fun _ => .inl rfl⟩,
        fun _ => herror hret⟩
    · have hlt : stock.length < k.size := Nat.not_le.mp fun hle =>
        hopen (LengthPrefixKind.opens_of_size h hk hle)
      have hsize : k.size ≤ varint64BitMaxOctets := by cases k <;> decide
      obtain ⟨hstop, e, d', hret⟩ := decodePrefixBuild_short h hs
        (hends.resolve_right (by omega)) hd hk hlt
      cases asserts with
      | true =>
        refine iff_of_false (not_receives_stops hb (hstop.part fun fuel hx => ?_)) fun hc => ?_
        · rw [flenpMemoryFromSourceBuild, hx, error_bind]
        · exact (hc.2 rfl).elim hk (Nat.not_le.mpr hlt)
      | false =>
        exact ⟨fun _ => ⟨fun n rest ho => absurd ho (hno n rest),
          fun hc => absurd hc Bool.false_ne_true⟩, fun _ => herror hret⟩

end Receiving

/-! ## 5. All four -/

/-- **When the functions do what they are for**: for any buffer whose marks are in order, any number
    of its unread octets, any sink that takes some octets and any source that has some, whether they
    fail behind them or go on, and in any build. -/
theorem flenpBuffer_iff (asserts : Bool) (h : Host) (k : LengthPrefixKind) {b : ByteBuffer}
    (hb : b.InOrder) (hdata : b.data = none → b.size = 0) {n : Nat} (hn : n ≤ b.used - b.offset)
    (lpb : LengthPrefixBuffer) {sent : τ → List Octet} {Room : τ → Nat → Prop} {full : Prop}
    {Refusal : Errno → Prop} {sink : Sink τ} (hk : sink.Limited sent Room full Refusal) {room : Nat}
    (hroom : Room sink.driver room) (hfull : full ∨ b.size + varint64BitMaxOctets ≤ room)
    {Left : σ → List Octet → Prop} {ends : Prop} {Report : Errno → Prop} {source : Source σ}
    (hs : source.Stocked Left ends Report) {stock : List Octet} (hd : Left source.driver stock)
    (hends : ends ∨ b.size + varint64BitMaxOctets ≤ stock.length) :
    (SendsUnread asserts h k b sent sink room ↔
      b.used - b.offset = b.size - b.used ∧ k.Sendable h room (b.size - b.used) ∨
        ¬ k.Sendable h room (b.used - b.offset) ∧ ¬ k.Sendable h room (b.size - b.used) ∧
          (asserts = true → ¬ k.Fits (b.size - b.used))) ∧
    (SendsFirst asserts h k b n sent sink room ↔
      n = b.size - b.used ∧ k.Sendable h room n ∧ k.frameLength h n % 2 ^ 32 < 2 ^ 31 ∨
        b.size - b.used < n ∧ ¬ k.Sendable h room n ∨
        n = 0 ∧ b.size - b.used = 0 ∧ ¬ k.Sendable h room 0 ∧ asserts = false) ∧
    (EncodesFirst h k b n lpb ↔ n = b.used - b.offset ∧ (n = 0 ∨ k.Encodes n)) ∧
    (Receives asserts h k b source stock ↔
      (∀ n rest, k.Opens h stock n rest → n = 0 ∨ b.size - b.used < n ∨
        rest.length < n ∧ asserts = false ∧
          (n ≤ ssizeMax → rest.take (b.used - b.offset) = b.unread.take rest.length)) ∧
      (asserts = true → k = .variable ∨ k.size ≤ stock.length)) :=
  ⟨flenpBufferToSink_iff hb hk hroom hfull, flenpBufferToSinkN_iff hb hn hk hroom hfull,
    flenpBufferEncodeN_iff h k hb hdata hn lpb, flenpBufferFromSource_iff hb hdata hs hd hends⟩

/-- A buffer of so many octets with three in it, one of them read. -/
def halfReadBuffer (size : Nat) : ByteBuffer :=
  { data := some ⟨0, Mem.store (fun _ => 0) 0 [1, 2, 3]⟩, size, used := 3, offset := 1 }

theorem halfReadBuffer_inOrder {size : Nat} (hle : 3 ≤ size) (hlt : size < 2 ^ 64) :
    (halfReadBuffer size).InOrder := ⟨show 1 ≤ 3 by decide, hle, hlt⟩

theorem flenpBuffer_iff_sample :
    (SendsUnread false lp64Host .octet (halfReadBuffer 6) Prod.fst (limitedSink 2) 2 ↔
      2 = 3 ∧ LengthPrefixKind.octet.Sendable lp64Host 2 3 ∨
        ¬ LengthPrefixKind.octet.Sendable lp64Host 2 2 ∧
          ¬ LengthPrefixKind.octet.Sendable lp64Host 2 3 ∧
          (false = true → ¬ LengthPrefixKind.octet.Fits 3)) ∧
    (SendsFirst false lp64Host .octet (halfReadBuffer 6) 2 Prod.fst (limitedSink 2) 2 ↔
      2 = 3 ∧ LengthPrefixKind.octet.Sendable lp64Host 2 2 ∧
          LengthPrefixKind.octet.frameLength lp64Host 2 % 2 ^ 32 < 2 ^ 31 ∨
        3 < 2 ∧ ¬ LengthPrefixKind.octet.Sendable lp64Host 2 2 ∨
        2 = 0 ∧ 3 = 0 ∧ ¬ LengthPrefixKind.octet.Sendable lp64Host 2 0 ∧ false = false) ∧
    (EncodesFirst lp64Host .octet (halfReadBuffer 6) 2
        ⟨⟨0, fun _ => 0⟩, halfReadBuffer 6, halfReadBuffer 6⟩ ↔
      2 = 2 ∧ (2 = 0 ∨ LengthPrefixKind.octet.Encodes 2)) ∧
    (Receives false lp64Host .octet (halfReadBuffer 6) (streamSource [3, 9]) [3, 9] ↔
      (∀ n rest, LengthPrefixKind.octet.Opens lp64Host [3, 9] n rest → n = 0 ∨ 3 < n ∨
        rest.length < n ∧ false = false ∧
          (n ≤ ssizeMax → rest.take 2 = (halfReadBuffer 6).unread.take rest.length)) ∧
      (false = true → LengthPrefixKind.octet = .variable ∨
        LengthPrefixKind.octet.size ≤ ([3, 9] : List Octet).length)) :=
  flenpBuffer_iff (n := 2) false lp64Host .octet (halfReadBuffer_inOrder (by decide) (by decide))
    (fun hnone => nomatch hnone) (by decide) _ (limitedSink_limited 2) rfl (.inl trivial)
    (streamSource_stocked _) rfl (.inl trivial)

/-- **Two unread octets, and room for three**: all three are sent, of which one is none of the
    buffer's, also where one octet was asked for; an encoded octet leaves nothing to read; and what
    is received cannot be read. Where the sink fails, two octets are read all the same; and where
    the source does, the octet it handed out is read instead of the one that was there. -/
theorem flenpBuffer_halfRead :
    ¬ SendsUnread false lp64Host .octet (halfReadBuffer 6) id (collectSink []) 16 ∧
    ¬ SendsFirst false lp64Host .octet (halfReadBuffer 6) 1 id (collectSink []) 16 ∧
    ¬ SendsFirst false lp64Host .octet (halfReadBuffer 5) 2 Prod.fst (limitedSink 0) 0 ∧
    ¬ EncodesFirst lp64Host .octet (halfReadBuffer 6) 1
      ⟨⟨0, fun _ => 0⟩, halfReadBuffer 6, halfReadBuffer 6⟩ ∧
    ¬ Receives false lp64Host .octet (halfReadBuffer 6) (streamSource [1, 9]) [1, 9] ∧
    ¬ Receives false lp64Host .octet (halfReadBuffer 6) (streamSource [3, 9]) [3, 9] := by
  have hb : (halfReadBuffer 6).InOrder := halfReadBuffer_inOrder (by decide) (by decide)
  have hb' : (halfReadBuffer 5).InOrder := halfReadBuffer_inOrder (by decide) (by decide)
  have hdata : (halfReadBuffer 6).data = none → (halfReadBuffer 6).size = 0 :=
    fun hnone => nomatch hnone
  have hk := (collectSink_accepting []).roomy.limited
  refine ⟨fun h => ?_, fun h => ?_, fun h => ?_, fun h => ?_, fun h => ?_, fun h => ?_⟩
  · exact absurd ((flenpBufferToSink_iff hb hk trivial (.inr (by decide))).mp h) (by decide)
  · exact absurd ((flenpBufferToSinkN_iff hb (by decide) hk trivial (.inr (by decide))).mp h)
      (by decide)
  · exact absurd ((flenpBufferToSinkN_iff hb' (by decide) (limitedSink_limited 0) rfl
      (.inl trivial)).mp h) (by decide)
  · exact absurd ((flenpBufferEncodeN_iff _ _ hb hdata (by decide) _).mp h).1 (by decide)
  · have hone : LengthPrefixKind.octet.Opens lp64Host [1, 9] 1 [9] := ⟨[1], rfl, rfl, rfl⟩
    have hcond := ((flenpBufferFromSource_iff hb hdata (streamSource_stocked _) rfl
      (.inl trivial)).mp h).1 1 [9] hone
    exact absurd hcond (by decide)
  · have hthree : LengthPrefixKind.octet.Opens lp64Host [3, 9] 3 [9] := ⟨[3], rfl, rfl, rfl⟩
    have hcond := ((flenpBufferFromSource_iff hb hdata (streamSource_stocked _) rfl
      (.inl trivial)).mp h).1 3 [9] hthree
    exact absurd hcond (by decide)

end Ufw
