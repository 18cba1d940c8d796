/-
  File:      Ufw/LengthPrefix/Frames.lean
  Subject:   LENGTH PREFIX FRAMING (length-prefix.c) of memory, in all formats: what a sender
             writes, and what the two receivers take apart.

  * `flenpMemoryToSink`, `flenpMemoryFromSource`, `flenpDecodeSourceToSinkExt` -- the code;
  * `decodePrefix_announces` -- **a receiver takes a prefix off the source, and nothing behind it**;
  * `flenpMemoryToSink_sends`, `flenpDecodeSourceToSinkExt_delivers` -- a frame, written and
    received.
-/
import Ufw.LengthPrefix
import Ufw.Plumbing

namespace Ufw

open Base

variable {σ τ : Type}

/-! ## 1. The code -/

/-- `flenp_memory_to_sink` -/
def flenpMemoryToSink (h : Host) (fuel : Nat) (k : LengthPrefixKind) (sink : Sink τ)
    (buf : List Octet) : Exec (Rc × Sink τ) :=
  match encodePrefix h k buf.length with
  | .error e => .ok (.error e, sink)
  | .ok octets =>
    let numlen := octets.length
    if ssizeMax - numlen < buf.length then .ok (.error .einval, sink)
    else do
      match ← sinkPutChunk fuel sink octets with
      | (.error e, sink) => .ok (.error e, sink)
      | (.ok _, sink) => do
        match ← sinkPutChunk fuel sink buf with
        | (.error e, sink) => .ok (.error e, sink)
        | (.ok 0, sink) => .ok (.ok 0, sink)
        | (.ok _, sink) => .ok (.ok (numlen + buf.length), sink)

/-- `flenp_memory_from_source`, into a memory of `size` octets. -/
def flenpMemoryFromSource (h : Host) (fuel : Nat) (k : LengthPrefixKind) (source : Source σ)
    (size : Nat) : Exec (Except Errno (List Octet) × Source σ) := do
  match ← decodePrefix h fuel k source with
  | (.error e, source) => .ok (.error e, source)
  | (.ok len, source) =>
    if size < len then .ok (.error .enomem, source) else sourceGetChunk fuel source len

/-- `flenp_decode_source_to_sink`, where the source may have the `getbuffer` extension. -/
def flenpDecodeSourceToSinkExt (h : Host) (fuel : Nat) (k : LengthPrefixKind)
    (getbuffer : SourceGetBuffer σ) (source : Source σ) (sink : Sink τ) :
    Exec (Rc × Source σ × Sink τ) := do
  match ← decodePrefix h fuel k source with
  | (.error e, source) => .ok (.error e, source, sink)
  | (.ok len, source) => stsNExt h fuel getbuffer source sink len

/-- Without the extension this is the receiver for endpoints that have none. -/
theorem flenpDecodeSourceToSinkExt_none (h : Host) (fuel : Nat) (k : LengthPrefixKind)
    (source : Source σ) (sink : Sink τ) :
    flenpDecodeSourceToSinkExt h fuel k none source sink =
      flenpDecodeSourceToSink h fuel k source sink := by
  unfold flenpDecodeSourceToSinkExt flenpDecodeSourceToSink
  cases decodePrefix h fuel k source with
  | error e => rfl
  | ok r =>
    match r with
    | (.error e, source) => rfl
    | (.ok len, source) => exact stsNExt_none h fuel source sink len

/-! ## 2. Sending and receiving -/

section Lossless

variable {Left : σ → List Octet → Prop} {source : Source σ} {octets rest : List Octet}
  {k : LengthPrefixKind} {n : Nat}

/-- **A receiver takes a prefix off the source, and nothing behind it.** -/
theorem decodePrefix_announces (h : Host) (hs : source.Lossless Left)
    (hd : Left source.driver (octets ++ rest)) (ha : k.Announces h octets n) :
    ∃ d', Returns (fun fuel => decodePrefix h fuel k source) (.ok n, { source with driver := d' }) ∧
      Left d' rest := by
  by_cases hk : k = .variable
  · subst hk
    obtain ⟨hstring, hlen, rfl⟩ := ha
    obtain ⟨d', hdel, hd'⟩ := hs.delivers hd
    refine ⟨d', Returns.of_eq fun fuel => ?_, hd'⟩
    rw [decodePrefix, if_pos rfl, varintU64FromSource, varintFromSource,
      varintFromSourceLoop_delivers h hstring hdel hlen]
  · obtain ⟨hlen, hparse⟩ : octets.length = k.size ∧ k.parse h octets = .ok n := by
      cases k <;> first | exact ha | exact absurd rfl hk
    have hne : octets ≠ [] := fun h0 => by
      rw [h0] at hlen
      cases k <;> first | exact absurd hlen (by decide) | exact absurd rfl hk
    have hle : octets.length ≤ ssizeMax := by
      rw [hlen]
      cases k <;> decide
    obtain ⟨d', hget, hd'⟩ := sourceGetChunk_lossless hs hd hne hle
    rw [hlen] at hget
    refine ⟨d', Returns.seq (y := fun _ => .ok (.ok n, { source with driver := d' }))
      (fun fuel hx => ?_) hget (Returns.of_eq fun _ => rfl), hd'⟩
    rw [decodePrefix, if_neg hk, hx]
    simp only [ok_bind, hparse]

end Lossless

section Roomy

variable {sent : τ → List Octet} {Room : τ → Nat → Prop} {sink : Sink τ} {k : LengthPrefixKind}
  {l : List Octet} {n : Nat}

/-- **The sender writes the frame of a payload that fits.** Where that is empty, it returns 0, as it
    does for a sink that took nothing. -/
theorem flenpMemoryToSink_sends (h : Host) (hl : k.Fits l.length) (hk : sink.Roomy sent Room)
    (hroom : Room sink.driver n) (hn : (k.frame h l).length ≤ n) :
    ∃ sink', Returns (fun fuel => flenpMemoryToSink h fuel k sink l)
        (.ok (if l = [] then 0 else (k.frame h l).length), sink') ∧
      sink.Sends sent (k.frame h l) sink' ∧ Room sink'.driver (n - (k.frame h l).length) := by
  obtain ⟨henc, hle⟩ := LengthPrefixKind.encodePrefix_fits h hl
  have hlen : (k.frame h l).length = (k.generate h l.length).length + l.length :=
    List.length_append
  obtain ⟨sink₁, hput₁, hs₁, hroom₁⟩ := sinkPutChunk_roomy hk (k.generate h l.length)
    hroom (by omega) (by omega)
  obtain ⟨sink₂, hput₂, hs₂, hroom₂⟩ := sinkPutChunk_roomy (hk.sends hs₁) l hroom₁
    (by omega) (by omega)
  rw [Nat.sub_sub, ← hlen] at hroom₂
  refine ⟨sink₂, Returns.both (fun fuel hx hy => ?_) hput₁ hput₂, hs₁.trans hs₂, hroom₂⟩
  unfold flenpMemoryToSink
  simp only [henc]
  rw [if_neg (by omega), hx]
  simp only [ok_bind, hy]
  cases l with
  | nil => rfl
  | cons o l => rw [if_neg (List.cons_ne_nil o l), hlen]; rfl

/-- **A payload that does not fit is rejected**, before anything is written. -/
theorem flenpMemoryToSink_rejects (h : Host) (hl : ¬ k.Fits l.length) (fuel : Nat) :
    flenpMemoryToSink h fuel k sink l = .ok (.error .einval, sink) := by
  unfold flenpMemoryToSink
  rcases LengthPrefixKind.encodePrefix_not_fits h hl with henc | ⟨henc, hlt⟩
  · rw [henc]
  · rw [henc]
    exact if_pos hlt

/-- **The receiver passes a payload on**, whatever announces its length, and takes nothing behind
    it. -/
theorem flenpDecodeSourceToSinkExt_delivers (h : Host) {Left : σ → List Octet → Prop}
    {source : Source σ} {getbuffer : SourceGetBuffer σ} (hg : Offers Left getbuffer)
    (hs : source.Lossless Left) {octets rest : List Octet}
    (hd : Left source.driver (octets ++ (l ++ rest))) (ha : k.Announces h octets l.length)
    (hl : l.length ≤ ssizeMax) (hk : sink.Roomy sent Room) (hroom : Room sink.driver n)
    (hn : l.length ≤ n) :
    ∃ d' sink', Returns (fun fuel => flenpDecodeSourceToSinkExt h fuel k getbuffer source sink)
        (.ok l.length, { source with driver := d' }, sink') ∧
      Left d' rest ∧ sink.Sends sent l sink' ∧ Room sink'.driver (n - l.length) := by
  obtain ⟨d₁, hprefix, hd₁⟩ := decodePrefix_announces h hs hd ha
  obtain ⟨d', sink', hmove, hd', hsends, hroom'⟩ := stsNExt_lossless h hg (hs.driver d₁) hd₁ hl hk
    hroom hn
  refine ⟨d', sink', Returns.seq (fun fuel hx => ?_) hprefix hmove, hd', hsends, hroom'⟩
  rw [flenpDecodeSourceToSinkExt, hx]
  rfl

end Roomy

end Ufw
