/-
  File:      Ufw/Rfc1055/Streams.lean
  Subject:   SLIP OVER STREAMS. What the decoder makes of encoded frames, one behind the other, and
             of a stream that begins with octets of any kind.

  * `slipFrame_segment` -- an encoded frame is one segment of the automaton;
  * `rfc1055_roundTrip` -- **a stream of encoded frames is decoded frame by frame**;
  * `slipCall_run_delimiter`, `slipCall_run_frame` -- where the automaton stands behind a delimiter
    and behind an encoded frame, whatever came before;
  * `rfc1055_resync` -- **the decoder finds back into step.**
-/
import Ufw.Rfc1055.Automaton

namespace Ufw

open Base

variable {σ τ : Type}

/-! ## 1. Encoded frames -/

section Frames

variable (sof : Bool)

/-- The automaton reads an escaped octet back. -/
theorem slipCall_run_escape (o : Octet) (w : List Octet) :
    (slipCall sof).run (.normal, w) (slipEscape o) = ((.normal, w ++ [o]), []) := by
  unfold slipEscape
  split
  · rename_i h
    subst h
    simp only [Mealy.run_cons, Mealy.run_nil, slipCall_pass (slipStep_esc sof),
      slipCall_put (slipStep_escEsc sof), Option.toList, List.append_nil]
  · split
    · rename_i h
      subst h
      simp only [Mealy.run_cons, Mealy.run_nil, slipCall_pass (slipStep_esc sof),
        slipCall_put (slipStep_escEof sof), Option.toList, List.append_nil]
    · rename_i h1 h2
      simp only [Mealy.run_cons, Mealy.run_nil, slipCall_put (slipStep_plain sof h1 h2),
        Option.toList, List.append_nil]

/-- The automaton reads the body of a frame back. -/
theorem slipCall_run_body (p w : List Octet) :
    (slipCall sof).run (.normal, w) (slipBody p) = ((.normal, w ++ p), []) := by
  induction p generalizing w with
  | nil => rw [List.append_nil]; rfl
  | cons o p ih =>
    rw [slipBody_cons, Mealy.run_append, slipCall_run_escape, ih, List.append_assoc]
    rfl

/-- Behind the end of a frame, the automaton reads a frame up to its closing delimiter. -/
theorem slipCall_run_frame (flags : BitVec 32) (p : List Octet) :
    (slipCall (bitIsset flags rfc1055WithSof)).run
        (slipAfterFrame (bitIsset flags rfc1055WithSof), [])
        ((if bitIsset flags rfc1055WithSof then [rawEof] else []) ++ slipBody p) =
      ((.normal, p), []) := by
  rw [Mealy.run_append]
  unfold slipAfterFrame
  split
  · simp only [Mealy.run_cons, Mealy.run_nil, slipCall_pass (slipStep_open _), slipCall_run_body]
    rfl
  · simp only [Mealy.run_nil, slipCall_run_body]
    rfl

/-- **An encoded frame is one segment of the automaton.** -/
theorem slipFrame_segment (flags : BitVec 32) (p : List Octet) :
    (slipCall (bitIsset flags rfc1055WithSof)).Segment
      ((afterFrame flags).slip, []) (slipEncode flags p) (.ok 1, p)
      ((afterFrame flags).slip, []) := by
  rw [slip_afterFrame]
  exact Mealy.segment_of_run _ (slipCall_run_frame flags p) (slipCall_done (slipStep_close _) p)

end Frames

/-! ## 2. The round trip -/

/-- A call on an encoded frame, into a sink that takes it. -/
theorem rfc1055Decode_takes (h : Host) (flags : BitVec 32) {p : List Octet}
    {source source₁ : Source σ} {sink sink₁ : Sink τ}
    (hs : source.Delivers (slipEncode flags p) source₁) (hk : sink.Takes p sink₁) :
    Returns (fun fuel => rfc1055Decode h fuel (rfc1055ContextInit flags) source sink)
      (.ok 1, rfc1055ContextInit flags, source₁, sink₁) := by
  obtain ⟨v, s', hv, hq, hret⟩ :=
    rfc1055Decode_segment (τ := τ) h flags (slipFrame_segment flags p) _ _ hs
  obtain rfl : p = v := hv
  have hs' : s' = afterFrame flags := Rfc1055State.slip_injective (congrArg Prod.fst hq).symm
  subst hs'
  exact hret sink sink₁ hk

/-- A call on an encoded frame. -/
theorem rfc1055Decode_frame (h : Host) (flags : BitVec 32) (p : List Octet)
    {source source₁ : Source σ} {sink : Sink τ} {sent : τ → List Octet}
    (hs : source.Delivers (slipEncode flags p) source₁) (hk : sink.Accepting sent) :
    ∃ sink₁, sink.Sends sent p sink₁ ∧
      Returns (fun fuel => rfc1055Decode h fuel (rfc1055ContextInit flags) source sink)
        (.ok 1, rfc1055ContextInit flags, source₁, sink₁) := by
  obtain ⟨sink₁, ht, hsend⟩ := hk.takes p
  exact ⟨sink₁, hsend, rfc1055Decode_takes h flags hs ht⟩

/-- The calls on a stream of frames. -/
theorem rfc1055Decode_frames (h : Host) (flags : BitVec 32) (frames : List (List Octet))
    {source source' : Source σ} {sink : Sink τ} {sent : τ → List Octet}
    (hs : source.Delivers (frames.flatMap (slipEncode flags)) source')
    (hk : sink.Accepting sent) :
    ∃ sink', DecodeRun h sent (rfc1055ContextInit flags) source sink
      (frames.map fun p => ⟨.ok 1, slipEncode flags p, p, rfc1055ContextInit flags⟩)
      source' sink' := by
  induction frames generalizing source sink with
  | nil =>
    cases hs
    exact ⟨sink, .nil _ _ _⟩
  | cons p frames ih =>
    rw [List.flatMap_cons] at hs
    obtain ⟨source₁, hs1, hs2⟩ := hs.append_inv
    obtain ⟨sink₁, hsend, hret⟩ := rfc1055Decode_frame h flags p hs1 hk
    obtain ⟨sink', hrun⟩ := ih hs2 (hk.sends hsend)
    exact ⟨sink', .cons hs1 hsend hret hrun⟩

/-- **SLIP round trip over streams.** The encoder, given the octets of a frame, sends
    `slipEncode flags p`; and of a stream of such frames the decoder, begun in its initial context,
    reads one frame in each call: the call returns 1, reads exactly the frame's octets on the line,
    writes exactly the frame, and leaves the initial context behind. -/
theorem rfc1055_roundTrip (h : Host) (flags : BitVec 32) {σ₁ τ₁ σ₂ τ₂ : Type}
    (sent₁ : τ₁ → List Octet) (sent₂ : τ₂ → List Octet) :
    (∀ (p : List Octet) (source source₁ source' : Source σ₁) (sink : Sink τ₁),
      source.Delivers p source₁ → source₁.Ends source' → sink.Accepting sent₁ →
      ∃ sink', Returns (fun fuel => rfc1055Encode fuel (rfc1055ContextInit flags) source sink)
          (.ok 0, source', sink') ∧
        sink.Sends sent₁ (slipEncode flags p) sink') ∧
    (∀ (frames : List (List Octet)) (source source' : Source σ₂) (sink : Sink τ₂),
      source.Delivers (frames.flatMap (slipEncode flags)) source' → sink.Accepting sent₂ →
      ∃ sink', DecodeRun h sent₂ (rfc1055ContextInit flags) source sink
        (frames.map fun p => ⟨.ok 1, slipEncode flags p, p, rfc1055ContextInit flags⟩)
        source' sink') where
  left := fun _ _ _ _ _ hs he hk => rfc1055Encode_sends hs he _ hk
  right := fun frames _ _ _ hs hk => rfc1055Decode_frames h flags frames hs hk

/-- A frame of control characters and an empty frame, with start-of-frame delimiters. -/
theorem rfc1055_roundTrip_control :
    ∃ sink', DecodeRun lp64Host id (rfc1055ContextInit rfc1055WithSof)
      (streamSource [0xc0, 0xdb, 0xdc, 0xdb, 0xdd, 0xc0, 0xc0, 0xc0]) (collectSink [])
      ([[rawEof, rawEsc], []].map fun p =>
        ⟨.ok 1, slipEncode rfc1055WithSof p, p, rfc1055ContextInit rfc1055WithSof⟩)
      (streamSource []) sink' :=
  (@rfc1055_roundTrip lp64Host rfc1055WithSof Unit (List Octet) _ _ id id).2
    [[rawEof, rawEsc], []] _ _ _ (streamSource_delivers_all _) (collectSink_accepting [])

/-! ## 3. Resynchronisation -/

section Resync

variable {sof : Bool}

/-- Octets are collected inside a frame only. -/
def SlipInv (q : SlipState × List Octet) : Prop := q.2 = [] ∨ q.1 = .normal ∨ q.1 = .escaped

theorem SlipInv.nil_of {s : SlipState} {w : List Octet} (hq : SlipInv (s, w))
    (h1 : s ≠ .normal) (h2 : s ≠ .escaped) : w = [] := by
  rcases hq with hw | hn | he
  · exact hw
  · exact absurd hn h1
  · exact absurd he h2

theorem slipCall_step_inv {q : SlipState × List Octet} (hq : SlipInv q) (o : Octet) :
    SlipInv ((slipCall sof).step q o).1 := by
  obtain ⟨s, w⟩ := q
  rcases hs : slipStep sof s o with ⟨s', ev⟩
  cases slipStep_move_of hs with
  | start =>
    rw [slipCall_pass hs]
    exact .inr (.inl rfl)
  | endFound | skip _ =>
    rw [slipCall_pass hs]
    exact .inl (hq.nil_of (by decide) (by decide))
  | esc =>
    rw [slipCall_pass hs]
    exact .inr (.inr rfl)
  | plain _ _ | escEof | escEsc =>
    rw [slipCall_put hs]
    exact .inr (.inl rfl)
  | noStart _ | close | broken _ _ =>
    rw [slipCall_done hs]
    exact .inl rfl

theorem slipCall_run_inv {q : SlipState × List Octet} (hq : SlipInv q) (l : List Octet) :
    SlipInv ((slipCall sof).run q l).1 := by
  induction l generalizing q with
  | nil => exact hq
  | cons o l ih => exact ih (slipCall_step_inv hq o)

/-- Behind a delimiter the automaton has opened a frame, or stands behind the end of one; in both
    cases nothing is pending. -/
theorem slipCall_delimiter {q : SlipState × List Octet} (hq : SlipInv q) :
    ((slipCall sof).step q rawEof).1 = (.normal, []) ∨
      ((slipCall sof).step q rawEof).1 = (slipAfterFrame sof, []) := by
  obtain ⟨s, w⟩ := q
  rcases hs : slipStep sof s rawEof with ⟨s', ev⟩
  cases slipStep_move_of hs with
  | start =>
    obtain rfl : w = [] := hq.nil_of (by decide) (by decide)
    rw [slipCall_pass hs]
    exact .inl rfl
  | endFound =>
    obtain rfl : w = [] := hq.nil_of (by decide) (by decide)
    rw [slipCall_pass hs]
    exact .inr rfl
  | close | broken _ _ =>
    rw [slipCall_done hs]
    exact .inr rfl
  | noStart ho | skip ho | plain _ ho => exact absurd rfl ho

/-- Behind a broken frame the automaton skips everything up to a delimiter. -/
theorem slipCall_run_skip (l w : List Octet) (hl : rawEof ∉ l) :
    (slipCall sof).run (.searchForEnd, w) l = ((.searchForEnd, w), []) := by
  induction l with
  | nil => rfl
  | cons o l ih =>
    have ho : o ≠ rawEof := fun he => hl (he ▸ List.mem_cons_self)
    rw [Mealy.run_cons, slipCall_pass (slipStep_skip sof ho),
      ih fun hm => hl (List.mem_cons_of_mem o hm)]
    rfl

theorem rawEof_not_mem_slipEscape (o : Octet) : rawEof ∉ slipEscape o := by
  unfold slipEscape
  split
  · decide
  · split
    · decide
    · rename_i h2
      exact fun hm => h2 (List.mem_singleton.mp hm).symm

theorem rawEof_not_mem_slipBody (p : List Octet) : rawEof ∉ slipBody p := by
  intro hm
  obtain ⟨o, -, ho⟩ := List.mem_flatMap.mp hm
  exact rawEof_not_mem_slipEscape o ho

theorem slipBody_ne_nil {p : List Octet} (hp : p ≠ []) : slipBody p ≠ [] := by
  cases p with
  | nil => exact absurd rfl hp
  | cons o p =>
    rw [slipBody_cons]
    unfold slipEscape
    split
    · exact List.cons_ne_nil _ _
    · split <;> exact List.cons_ne_nil _ _

/-- **With start-of-frame delimiters**: behind any octets and a frame that is not empty, the
    automaton stands behind the end of a frame. Either it reads that frame, or it takes the opening
    delimiter for a closing one, trips over the body and skips it. -/
theorem slipCall_run_sofFrame {q : SlipState × List Octet} (hq : SlipInv q) {p : List Octet}
    (hp : p ≠ []) :
    ((slipCall true).run q (rawEof :: (slipBody p ++ [rawEof]))).1 = (.searchForStart, []) := by
  rw [Mealy.run_cons]
  rcases @slipCall_delimiter true _ hq with h1 | h1
  · rw [h1, Mealy.run_append, slipCall_run_body, Mealy.run_cons,
      slipCall_done (slipStep_close true)]
    rfl
  · rw [h1]
    have hmem := rawEof_not_mem_slipBody p
    cases hb : slipBody p with
    | nil => exact absurd hb (slipBody_ne_nil hp)
    | cons o l =>
      rw [hb] at hmem
      have ho : o ≠ rawEof := fun he => hmem (he ▸ List.mem_cons_self)
      have hl : rawEof ∉ l := fun hm => hmem (List.mem_cons_of_mem o hm)
      show ((slipCall true).run (.searchForStart, []) (o :: (l ++ [rawEof]))).1 = _
      rw [Mealy.run_cons, slipCall_done (slipStep_noStart true ho), Mealy.run_append,
        slipCall_run_skip l [] hl, Mealy.run_cons, slipCall_pass (slipStep_endFound true)]
      rfl

end Resync

/-- What the calls on a stream come to, where the automaton is about to close the frame `p` with
    the last octet of the stream. -/
theorem decodeRun_last (h : Host) {flags : BitVec 32} {s : Rfc1055State} {l p : List Octet}
    {source source' : Source σ} {sink : Sink τ} {sent : τ → List Octet}
    (hrun : ((slipCall (bitIsset flags rfc1055WithSof)).run (s.slip, []) l).1 = (.normal, p))
    (hs : source.Delivers (l ++ [rawEof]) source') (hk : sink.Accepting sent) :
    ∃ calls last sink',
      DecodeRun h sent ⟨s, flags⟩ source sink (calls ++ [last]) source' sink' ∧
      last.rc = .ok 1 ∧ last.wrote = p := by
  have hstep := slipCall_done (slipStep_close (bitIsset flags rfc1055WithSof)) p
  rw [← hrun] at hstep
  obtain ⟨calls, sink', hcalls, hmap⟩ :=
    decodeRun_of_segments h (Mealy.segments_of_run _ hstep) rfl hs hk
  obtain ⟨front, back, rfl, -, hback⟩ := List.map_eq_append_iff.mp hmap
  obtain ⟨last, rfl, hlast⟩ := List.map_eq_singleton_iff.mp hback
  exact ⟨front, last, sink', hcalls, congrArg Prod.fst hlast, congrArg Prod.snd hlast⟩

/-- **SLIP resynchronisation.** Whatever the context and whatever octets come first: in classic
    mode a delimiter puts the decoder into step, so that the frame behind it is delivered as a
    frame of its own; with start-of-frame delimiters a frame that is not empty does. -/
theorem rfc1055_resync (h : Host) (flags : BitVec 32) (state : Rfc1055State)
    (sent : τ → List Octet) (g : List Octet) (source source' : Source σ) (sink : Sink τ)
    (hk : sink.Accepting sent) :
    (bitIsset flags rfc1055WithSof = false → ∀ p,
      source.Delivers (g ++ [rawEof] ++ slipEncode flags p) source' →
      ∃ calls last sink',
        DecodeRun h sent ⟨state, flags⟩ source sink (calls ++ [last]) source' sink' ∧
        last.rc = .ok 1 ∧ last.wrote = p) ∧
    (bitIsset flags rfc1055WithSof = true → ∀ p q, p ≠ [] →
      source.Delivers (g ++ slipEncode flags p ++ slipEncode flags q) source' →
      ∃ calls last sink',
        DecodeRun h sent ⟨state, flags⟩ source sink (calls ++ [last]) source' sink' ∧
        last.rc = .ok 1 ∧ last.wrote = q) := by
  have hinv : SlipInv ((slipCall (bitIsset flags rfc1055WithSof)).run (state.slip, []) g).1 :=
    slipCall_run_inv (.inl rfl) g
  constructor
  · intro hsof p hs
    rw [hsof] at hinv
    have hl : g ++ [rawEof] ++ slipEncode flags p =
        (g ++ rawEof :: slipBody p) ++ [rawEof] := by simp [slipEncode, hsof]
    rw [hl] at hs
    refine decodeRun_last h ?_ hs hk
    rw [hsof, Mealy.run_append, Mealy.run_cons]
    rcases slipCall_delimiter hinv with h1 | h1 <;>
      (rw [h1]; exact congrArg Prod.fst (slipCall_run_body false p []))
  · intro hsof p q hp hs
    rw [hsof] at hinv
    have hl : g ++ slipEncode flags p ++ slipEncode flags q =
        (g ++ rawEof :: (slipBody p ++ [rawEof]) ++ rawEof :: slipBody q) ++ [rawEof] := by
      simp [slipEncode, hsof]
    rw [hl] at hs
    refine decodeRun_last h ?_ hs hk
    rw [hsof, Mealy.run_append, Mealy.run_append]
    dsimp only
    rw [slipCall_run_sofFrame hinv hp, Mealy.run_cons, slipCall_pass (slipStep_open true)]
    exact congrArg Prod.fst (slipCall_run_body true q [])

/-- A broken escape sequence, a delimiter and a frame. -/
theorem rfc1055_resync_brokenEscape :
    ∃ calls last sink',
      DecodeRun lp64Host id ⟨.normal, 0⟩ (streamSource [0xdb, 0x07, 0xc0, 0x01, 0xc0])
        (collectSink []) (calls ++ [last]) (streamSource []) sink' ∧
      last.rc = .ok 1 ∧ last.wrote = [0x01] :=
  (rfc1055_resync lp64Host 0 .normal id [0xdb, 0x07] _ _ _ (collectSink_accepting [])).1 rfl
    [0x01] (streamSource_delivers_all _)

end Ufw
