/-
  File:      Ufw/LengthPrefix/RoundTrip.lean
  Subject:   LENGTH PREFIX FRAMING: any number of frames, one behind the other.

  * `sendEach`, `receiveEach` -- a sender and a receiver, call by call;
  * `flenp_roundTrip` -- **what is written payload by payload is received payload by payload**, in
    all formats, and each call takes its frame off the source and nothing else.
-/
import Ufw.LengthPrefix.Frames

namespace Ufw

open Base

variable {σ τ υ : Type}

/-- `flenp_memory_to_sink`, for one payload after the other. -/
def sendEach (h : Host) (fuel : Nat) (k : LengthPrefixKind) :
    List (List Octet) → Sink υ → Exec (Sink υ)
  | [], out => .ok out
  | l :: payloads, out => do
    let (_, out) ← flenpMemoryToSink h fuel k out l
    sendEach h fuel k payloads out

/-- A number of calls of `flenp_decode_source_to_sink`, and what they return. -/
def receiveEach (h : Host) (fuel : Nat) (k : LengthPrefixKind) (getbuffer : SourceGetBuffer σ) :
    Nat → Source σ → Sink τ → Exec (List Rc × Source σ × Sink τ)
  | 0, source, sink => .ok ([], source, sink)
  | n + 1, source, sink => do
    let (rc, source, sink) ← flenpDecodeSourceToSinkExt h fuel k getbuffer source sink
    let (rcs, source, sink) ← receiveEach h fuel k getbuffer n source sink
    .ok (rc :: rcs, source, sink)

/-- The frames of some payloads. -/
def LengthPrefixKind.frames (h : Host) (k : LengthPrefixKind) (payloads : List (List Octet)) :
    List Octet := payloads.flatMap (k.frame h)

section Runs

variable {k : LengthPrefixKind} {payloads : List (List Octet)}

/-- A run of the sender writes the frames of its payloads. -/
theorem sendEach_sends (h : Host) (hfits : ∀ l ∈ payloads, k.Fits l.length)
    {sent : υ → List Octet} {Room : υ → Nat → Prop} {out : Sink υ} {n : Nat}
    (hk : out.Roomy sent Room) (hroom : Room out.driver n)
    (hn : (k.frames h payloads).length ≤ n) :
    ∃ out', Returns (fun fuel => sendEach h fuel k payloads out) out' ∧
      out.Sends sent (k.frames h payloads) out' := by
  induction payloads generalizing out n with
  | nil => exact ⟨out, Returns.of_eq fun _ => rfl, .refl sent out⟩
  | cons l payloads ih =>
    have hlen : (k.frames h (l :: payloads)).length =
        (k.frame h l).length + (k.frames h payloads).length := List.length_append
    obtain ⟨out₁, hsend, hs₁, hroom₁⟩ := flenpMemoryToSink_sends h (hfits l List.mem_cons_self) hk
      hroom (by omega)
    obtain ⟨out', hret, hs⟩ := ih (fun l hl => hfits l (List.mem_cons_of_mem _ hl)) (hk.sends hs₁)
      hroom₁ (by omega)
    refine ⟨out', Returns.seq (fun fuel hx => ?_) hsend hret, hs₁.trans hs⟩
    rw [sendEach, hx]
    rfl

/-- A run of the receiver passes the payloads on, and takes their frames off the source. -/
theorem receiveEach_delivers (h : Host) (hfits : ∀ l ∈ payloads, k.Fits l.length)
    {Left : σ → List Octet → Prop} {source : Source σ} {getbuffer : SourceGetBuffer σ}
    (hg : Offers Left getbuffer) (hs : source.Lossless Left) {rest : List Octet}
    (hd : Left source.driver (k.frames h payloads ++ rest)) {sent : τ → List Octet}
    {Room : τ → Nat → Prop} {sink : Sink τ} {n : Nat} (hk : sink.Roomy sent Room)
    (hroom : Room sink.driver n) (hn : payloads.flatten.length ≤ n) :
    ∃ d' sink', Returns (fun fuel => receiveEach h fuel k getbuffer payloads.length source sink)
        (payloads.map fun l => .ok l.length, { source with driver := d' }, sink') ∧
      Left d' rest ∧ sink.Sends sent payloads.flatten sink' := by
  induction payloads generalizing source sink n with
  | nil => exact ⟨source.driver, sink, Returns.of_eq fun _ => rfl, hd, .refl sent sink⟩
  | cons l payloads ih =>
    rw [List.flatten_cons, List.length_append] at hn
    have hl := hfits l List.mem_cons_self
    have hd₀ : Left source.driver
        (k.generate h l.length ++ (l ++ (k.frames h payloads ++ rest))) := by
      rwa [LengthPrefixKind.frames, List.flatMap_cons, LengthPrefixKind.frame, List.append_assoc,
        List.append_assoc] at hd
    obtain ⟨d₁, sink₁, hreceive, hd₁, hs₁, hroom₁⟩ :=
      flenpDecodeSourceToSinkExt_delivers h hg hs hd₀
      (LengthPrefixKind.announces_generate h hl) hl.le hk hroom (by omega)
    obtain ⟨d', sink', hret, hd', hs'⟩ := ih (fun l hl => hfits l (List.mem_cons_of_mem _ hl))
      (hs.driver d₁) hd₁ (hk.sends hs₁) hroom₁ (by omega)
    refine ⟨d', sink', Returns.both (fun fuel hx hy => ?_) hreceive hret, hd', hs₁.trans hs'⟩
    rw [List.length_cons, receiveEach, hx]
    simp only [ok_bind, hy]
    rfl

end Runs

/-- **Round trip.** The sender writes the frames of the payloads. On a source that holds them, the
    first `i` calls of the receiver return the first `i` lengths, the sink has the first `i`
    payloads then, and the source the frames of the others and what is behind them. A payload that
    does not fit is rejected, and nothing is written. -/
theorem flenp_roundTrip (h : Host) (k : LengthPrefixKind) (payloads : List (List Octet))
    (hfits : ∀ l ∈ payloads, k.Fits l.length) {sentOut : υ → List Octet} {RoomOut : υ → Nat → Prop}
    {out : Sink υ} {n : Nat} (hout : out.Roomy sentOut RoomOut) (hroomOut : RoomOut out.driver n)
    (hn : (k.frames h payloads).length ≤ n) {Left : σ → List Octet → Prop} {source : Source σ}
    {getbuffer : SourceGetBuffer σ} (hg : Offers Left getbuffer) (hs : source.Lossless Left)
    {rest : List Octet} (hd : Left source.driver (k.frames h payloads ++ rest))
    {sent : τ → List Octet} {Room : τ → Nat → Prop} {sink : Sink τ} {m : Nat}
    (hk : sink.Roomy sent Room) (hroom : Room sink.driver m) (hm : payloads.flatten.length ≤ m) :
    (∃ out', Returns (fun fuel => sendEach h fuel k payloads out) out' ∧
      out.Sends sentOut (k.frames h payloads) out') ∧
    (∀ i ≤ payloads.length, ∃ d' sink',
      Returns (fun fuel => receiveEach h fuel k getbuffer i source sink)
        ((payloads.take i).map fun l => .ok l.length, { source with driver := d' }, sink') ∧
      Left d' (k.frames h (payloads.drop i) ++ rest) ∧
      sink.Sends sent (payloads.take i).flatten sink') ∧
    ∀ (l : List Octet) (fuel : Nat), ¬ k.Fits l.length →
      flenpMemoryToSink h fuel k out l = .ok (.error .einval, out) := by
  refine ⟨sendEach_sends h hfits hout hroomOut hn, fun i hi => ?_,
    fun l fuel hl => flenpMemoryToSink_rejects h hl fuel⟩
  have hsplit : k.frames h payloads =
      k.frames h (payloads.take i) ++ k.frames h (payloads.drop i) := by
    unfold LengthPrefixKind.frames
    rw [← List.flatMap_append, List.take_append_drop]
  have hlen : (payloads.take i).flatten.length ≤ payloads.flatten.length := by
    conv => rhs; rw [← List.take_append_drop i payloads, List.flatten_append, List.length_append]
    exact Nat.le_add_right _ _
  rw [hsplit, List.append_assoc] at hd
  have hreceive :=
    receiveEach_delivers h (fun l hl => hfits l (List.mem_of_mem_take hl)) hg hs hd hk
    hroom (le_trans hlen hm)
  rwa [List.length_take_of_le hi] at hreceive

theorem flenp_roundTrip_sample :
    (∃ out', Returns
    (fun fuel => sendEach lp64Host fuel .be16Bit [[1, 2], [], [3]] (collectSink []))
        out' ∧ (collectSink []).Sends id [0, 2, 1, 2, 0, 0, 0, 1, 3] out') ∧
    (∀ i ≤ 3, ∃ d' sink',
      Returns (fun fuel => receiveEach lp64Host fuel .be16Bit none i
          (streamSource [0, 2, 1, 2, 0, 0, 0, 1, 3, 9]) (collectSink []))
        (([[1, 2], [], [3]].take i).map fun l : List Octet => .ok l.length,
          { streamSource [0, 2, 1, 2, 0, 0, 0, 1, 3, 9] with driver := d' }, sink') ∧
      d' = LengthPrefixKind.be16Bit.frames lp64Host ([[1, 2], [], [3]].drop i) ++ [9] ∧
      (collectSink []).Sends id ([[1, 2], [], [3]].take i).flatten sink') ∧
    ∀ (l : List Octet) (fuel : Nat), ¬ LengthPrefixKind.be16Bit.Fits l.length →
      flenpMemoryToSink lp64Host fuel .be16Bit (collectSink []) l =
        .ok (.error .einval, collectSink []) :=
  flenp_roundTrip lp64Host .be16Bit [[1, 2], [], [3]] (by decide)
    (collectSink_accepting []).roomy trivial (le_refl _) (.none _)
    (streamSource_lossless _)
    (show _ = LengthPrefixKind.be16Bit.frames lp64Host [[1, 2], [], [3]] ++ [9] by decide)
    (collectSink_accepting []).roomy trivial
    (le_refl _)

end Ufw
