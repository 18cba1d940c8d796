/-
  File:      Ufw/Rfc1055/Automaton.lean
  Subject:   THE SLIP DECODER AS AN AUTOMATON. Octet by octet, with the pending escape as a state
             of its own; a call of the decoder is a segment of the automaton's input.

  * `slipStep` -- what one octet does: nothing, an octet for the sink, or the end of a call;
  * `slipCall` -- the automaton that collects the octets of a call and outputs its result;
  * `rfc1055Decode_segment` -- **the decoder simulates it**: on a segment, `rfc1055Decode` returns
    the output's code, has written the output's octets, and has read the segment;
  * `DecodeRun`, `decodeRun_of_segments` -- calls one behind the other.
-/
import Ufw.Base.Mealy
import Ufw.Rfc1055

namespace Ufw

open Base

variable {σ τ : Type}

/-! ## 1. The automaton -/

/-- The states of a context, and the one inside `rfc1055_decode_octet` behind `RAW_ESC`. -/
inductive SlipState where
  | searchForStart
  | searchForEnd
  | normal
  | escaped
  deriving DecidableEq, Repr

/-- What an octet of the line leads to. -/
inductive SlipEvent where
  | put (o : Octet)
  | done (rc : Rc)
  deriving DecidableEq

/-- The state behind the end of a frame. -/
def slipAfterFrame (sof : Bool) : SlipState := if sof then .searchForStart else .normal

/-- One octet of the line. -/
def slipStep (sof : Bool) : SlipState → Octet → SlipState × Option SlipEvent
  | .searchForStart, o =>
    if o = rawEof then (.normal, none) else (.searchForEnd, some (.done (.error .eilseq)))
  | .searchForEnd, o => if o = rawEof then (slipAfterFrame sof, none) else (.searchForEnd, none)
  | .normal, o =>
    if o = rawEsc then (.escaped, none)
    else if o = rawEof then (slipAfterFrame sof, some (.done (.ok 1)))
    else (.normal, some (.put o))
  | .escaped, o =>
    if o = escEof then (.normal, some (.put rawEof))
    else if o = escEsc then (.normal, some (.put rawEsc))
    else if o = rawEof then (slipAfterFrame sof, some (.done (.error .eilseq)))
    else (.searchForEnd, some (.done (.error .eilseq)))

section Branches

variable (sof : Bool) {o : Octet}

theorem slipStep_open : slipStep sof .searchForStart rawEof = (.normal, none) := rfl

theorem slipStep_noStart (h : o ≠ rawEof) :
    slipStep sof .searchForStart o = (.searchForEnd, some (.done (.error .eilseq))) := if_neg h

theorem slipStep_endFound :
    slipStep sof .searchForEnd rawEof = (slipAfterFrame sof, none) := rfl

theorem slipStep_skip (h : o ≠ rawEof) :
    slipStep sof .searchForEnd o = (.searchForEnd, none) := if_neg h

theorem slipStep_esc : slipStep sof .normal rawEsc = (.escaped, none) := rfl

theorem slipStep_close :
    slipStep sof .normal rawEof = (slipAfterFrame sof, some (.done (.ok 1))) := rfl

theorem slipStep_plain (h1 : o ≠ rawEsc) (h2 : o ≠ rawEof) :
    slipStep sof .normal o = (.normal, some (.put o)) := by
  rw [slipStep, if_neg h1, if_neg h2]

theorem slipStep_escEof : slipStep sof .escaped escEof = (.normal, some (.put rawEof)) := rfl

theorem slipStep_escEsc : slipStep sof .escaped escEsc = (.normal, some (.put rawEsc)) := rfl

theorem slipStep_broken (h1 : o ≠ escEof) (h2 : o ≠ escEsc) :
    slipStep sof .escaped o = (if o = rawEof then slipAfterFrame sof else .searchForEnd,
      some (.done (.error .eilseq))) := by
  rw [slipStep, if_neg h1, if_neg h2]
  split <;> rfl

end Branches

/-- What an octet of the line can lead to, branch by branch. -/
inductive SlipMove (sof : Bool) : SlipState → Octet → SlipState × Option SlipEvent → Prop
  | start : SlipMove sof .searchForStart rawEof (.normal, none)
  | noStart {o : Octet} (h : o ≠ rawEof) :
      SlipMove sof .searchForStart o (.searchForEnd, some (.done (.error .eilseq)))
  | endFound : SlipMove sof .searchForEnd rawEof (slipAfterFrame sof, none)
  | skip {o : Octet} (h : o ≠ rawEof) : SlipMove sof .searchForEnd o (.searchForEnd, none)
  | esc : SlipMove sof .normal rawEsc (.escaped, none)
  | close : SlipMove sof .normal rawEof (slipAfterFrame sof, some (.done (.ok 1)))
  | plain {o : Octet} (h1 : o ≠ rawEsc) (h2 : o ≠ rawEof) :
      SlipMove sof .normal o (.normal, some (.put o))
  | escEof : SlipMove sof .escaped escEof (.normal, some (.put rawEof))
  | escEsc : SlipMove sof .escaped escEsc (.normal, some (.put rawEsc))
  | broken {o : Octet} (h1 : o ≠ escEof) (h2 : o ≠ escEsc) :
      SlipMove sof .escaped o (if o = rawEof then slipAfterFrame sof else .searchForEnd,
        some (.done (.error .eilseq)))

/-- **These are all the branches.** -/
theorem slipStep_move (sof : Bool) (s : SlipState) (o : Octet) :
    SlipMove sof s o (slipStep sof s o) := by
  cases s with
  | searchForStart =>
    by_cases ho : o = rawEof
    · subst ho
      exact .start
    · rw [slipStep_noStart sof ho]
      exact .noStart ho
  | searchForEnd =>
    by_cases ho : o = rawEof
    · subst ho
      exact .endFound
    · rw [slipStep_skip sof ho]
      exact .skip ho
  | normal =>
    by_cases h1 : o = rawEsc
    · subst h1
      exact .esc
    · by_cases h2 : o = rawEof
      · subst h2
        exact .close
      · rw [slipStep_plain sof h1 h2]
        exact .plain h1 h2
  | escaped =>
    by_cases h1 : o = escEof
    · subst h1
      exact .escEof
    · by_cases h2 : o = escEsc
      · subst h2
        exact .escEsc
      · rw [slipStep_broken sof h1 h2]
        exact .broken h1 h2

theorem slipStep_move_of {sof : Bool} {s : SlipState} {o : Octet}
    {r : SlipState × Option SlipEvent} (hs : slipStep sof s o = r) : SlipMove sof s o r :=
  hs ▸ slipStep_move sof s o

/-- The automaton of calls: beside the state, the octets written since the call began. -/
def slipCall (sof : Bool) : Mealy (SlipState × List Octet) Octet (Rc × List Octet) where
  step := fun (s, w) o =>
    match slipStep sof s o with
    | (s', none) => ((s', w), none)
    | (s', some (.put d)) => ((s', w ++ [d]), none)
    | (s', some (.done rc)) => ((s', []), some (rc, w))

section Step

variable {sof : Bool} {s s' : SlipState} {o : Octet}

theorem slipCall_pass (hs : slipStep sof s o = (s', none)) (w : List Octet) :
    (slipCall sof).step (s, w) o = ((s', w), none) := by simp only [slipCall, hs]

theorem slipCall_put {d : Octet} (hs : slipStep sof s o = (s', some (.put d))) (w : List Octet) :
    (slipCall sof).step (s, w) o = ((s', w ++ [d]), none) := by simp only [slipCall, hs]

theorem slipCall_done {rc : Rc} (hs : slipStep sof s o = (s', some (.done rc)))
    (w : List Octet) : (slipCall sof).step (s, w) o = ((s', []), some (rc, w)) := by
  simp only [slipCall, hs]

end Step

/-- The state of a context, in the automaton. -/
def Rfc1055State.slip : Rfc1055State → SlipState
  | .searchForStart => .searchForStart
  | .searchForEnd => .searchForEnd
  | .normal => .normal

theorem Rfc1055State.slip_injective : Function.Injective Rfc1055State.slip := by
  intro s t h
  cases s <;> cases t <;> first | rfl | cases h

theorem slip_afterFrame (flags : BitVec 32) :
    (afterFrame flags).slip = slipAfterFrame (bitIsset flags rfc1055WithSof) := by
  unfold afterFrame slipAfterFrame
  split <;> rfl

/-! ## 2. The decoder simulates it -/

section Simulation

variable (h : Host) {source source₁ : Source σ} {o : Octet}

theorem transition_get (get : sourceGetOctet source = (.ok (some o), source₁)) :
    transition h source = (.ok (if o = rawEof then 1 else 0), source₁) := by
  unfold transition
  rw [get]
  rfl

theorem rfc1055DecodeOctet_plain (get : sourceGetOctet source = (.ok (some o), source₁))
    (h1 : o ≠ rawEsc) (h2 : o ≠ rawEof) : rfc1055DecodeOctet h source = (.ok 1, o, source₁) := by
  unfold rfc1055DecodeOctet
  simp only [get, Option.getD_some, if_neg h1, if_neg h2]

theorem rfc1055DecodeOctet_eof (get : sourceGetOctet source = (.ok (some rawEof), source₁)) :
    rfc1055DecodeOctet h source = (.ok 0, 0, source₁) := by
  unfold rfc1055DecodeOctet
  simp only [get, Option.getD_some, if_neg (show rawEof ≠ rawEsc by decide), if_true]

theorem rfc1055DecodeOctet_esc {source₂ : Source σ}
    (get : sourceGetOctet source = (.ok (some rawEsc), source₁))
    (get2 : sourceGetOctet source₁ = (.ok (some o), source₂)) :
    rfc1055DecodeOctet h source =
      if o = escEof then (.ok 2, rawEof, source₂)
      else if o = escEsc then (.ok 2, rawEsc, source₂)
      else (.error .eilseq, o, source₂) := by
  unfold rfc1055DecodeOctet
  simp only [get, get2, Option.getD_some, if_true]

end Simulation

/-- A call whose loop comes from one place to another: what it returns from there, it returns. -/
def DecodesTo (h : Host) (ctx : Rfc1055Context) (source : Source σ) (sink : Sink τ)
    (ctx' : Rfc1055Context) (source' : Source σ) (sink' : Sink τ) : Prop :=
  ∀ r, Returns (fun fuel => rfc1055Decode h fuel ctx' source' sink') r →
    Returns (fun fuel => rfc1055Decode h fuel ctx source sink) r

/-- One pass of the loop, and the way from there. -/
theorem DecodesTo.step {h : Host} {ctx ctx₁ ctx' : Rfc1055Context}
    {source source₁ source' : Source σ} {sink sink₁ sink' : Sink τ}
    (hrest : DecodesTo h ctx₁ source₁ sink₁ ctx' source' sink')
    (hpass : ∀ fuel, rfc1055Decode h (fuel + 1) ctx source sink =
      rfc1055Decode h fuel ctx₁ source₁ sink₁) : DecodesTo h ctx source sink ctx' source' sink' :=
  fun r hr => (hrest r hr).step hpass

/-- An octet for the sink, and the call goes on. -/
theorem rfc1055Decode_put {h : Host} {flags : BitVec 32} {s' : Rfc1055State}
    {source source₁ source' : Source σ} {d : Octet} {m : Nat} {w w' : List Octet}
    (hoct : rfc1055DecodeOctet h source = (.ok (m + 1), d, source₁))
    (hrest : ∃ v, w' = (w ++ [d]) ++ v ∧ ∀ sink sink' : Sink τ, sink.Takes v sink' →
      DecodesTo h ⟨.normal, flags⟩ source₁ sink ⟨s', flags⟩ source' sink') :
    ∃ v, w' = w ++ v ∧ ∀ sink sink' : Sink τ, sink.Takes v sink' →
      DecodesTo h ⟨.normal, flags⟩ source sink ⟨s', flags⟩ source' sink' := by
  obtain ⟨v, hv, hto⟩ := hrest
  refine ⟨d :: v, by rw [hv, List.append_assoc]; rfl, fun sink sink' ht => ?_⟩
  cases ht with
  | cons put ht =>
    refine (hto _ sink' ht).step fun fuel => ?_
    simp only [rfc1055Decode, hoct, put, ok_bind]

/-- **Octets that end no call take its loop along the automaton.** -/
theorem rfc1055Decode_silent (h : Host) (flags : BitVec 32) {s t : Rfc1055State}
    {w w' l : List Octet}
    (hrun : (slipCall (bitIsset flags rfc1055WithSof)).run (s.slip, w) l = ((t.slip, w'), []))
    {source source' : Source σ} (hs : source.Delivers l source') :
    ∃ v, w' = w ++ v ∧ ∀ sink sink' : Sink τ, sink.Takes v sink' →
      DecodesTo h ⟨s, flags⟩ source sink ⟨t, flags⟩ source' sink' := by
  cases hs with
  | nil =>
    obtain ⟨hq, -⟩ := Prod.mk.inj hrun
    obtain ⟨hslip, rfl⟩ := Prod.mk.inj hq
    obtain rfl := Rfc1055State.slip_injective hslip
    refine ⟨[], (List.append_nil w).symm, fun sink sink' ht r hr => ?_⟩
    cases ht
    exact hr
  | @cons _ source₁ _ o l get hrest =>
  rcases hstep : slipStep (bitIsset flags rfc1055WithSof) s.slip o with ⟨q, ev⟩
  have hmove := slipStep_move_of hstep
  cases s with
  | searchForStart =>
    cases hmove with
    | start =>
      have hrun' := (Mealy.run_of_pass (slipCall_pass hstep w) l).symm.trans hrun
      obtain ⟨v, hv, hto⟩ := rfc1055Decode_silent h flags (s := .normal) hrun' hrest
      refine ⟨v, hv, fun sink sink' ht => (hto sink sink' ht).step fun fuel => ?_⟩
      simp only [rfc1055Decode, transition_get h get, if_true]
    | noStart _ => exact absurd hrun (Mealy.not_silent (slipCall_done hstep w) l _)
  | searchForEnd =>
    cases hmove with
    | endFound =>
      have hrun' := (Mealy.run_of_pass (slipCall_pass hstep w) l).symm.trans hrun
      rw [← slip_afterFrame] at hrun'
      obtain ⟨v, hv, hto⟩ := rfc1055Decode_silent h flags hrun' hrest
      refine ⟨v, hv, fun sink sink' ht => (hto sink sink' ht).step fun fuel => ?_⟩
      simp only [rfc1055Decode, transition_get h get, if_true]
    | skip ho =>
      have hrun' := (Mealy.run_of_pass (slipCall_pass hstep w) l).symm.trans hrun
      obtain ⟨v, hv, hto⟩ := rfc1055Decode_silent h flags (s := .searchForEnd) hrun' hrest
      refine ⟨v, hv, fun sink sink' ht => (hto sink sink' ht).step fun fuel => ?_⟩
      simp only [rfc1055Decode, transition_get h get, if_neg ho, if_neg Nat.zero_ne_one]
  | normal =>
    cases hmove with
    | close => exact absurd hrun (Mealy.not_silent (slipCall_done hstep w) l _)
    | plain hesc heof =>
      have hrun' := (Mealy.run_of_pass (slipCall_put hstep w) l).symm.trans hrun
      exact rfc1055Decode_put (rfc1055DecodeOctet_plain h get hesc heof)
        (rfc1055Decode_silent h flags (s := .normal) hrun' hrest)
    | esc =>
      -- the octet behind the escape belongs to the same pass of the loop
      have hrun' := (Mealy.run_of_pass (slipCall_pass hstep w) l).symm.trans hrun
      cases hrest with
      | nil => cases t <;> cases hrun'
      | @cons _ source₂ _ o l get2 hrest =>
      have hoct := rfc1055DecodeOctet_esc h get get2
      rcases hstep2 : slipStep (bitIsset flags rfc1055WithSof) .escaped o with ⟨q, ev⟩
      cases slipStep_move_of hstep2 with
      | escEof =>
        have hrun'' := (Mealy.run_of_pass (slipCall_put hstep2 w) l).symm.trans hrun'
        exact rfc1055Decode_put hoct (rfc1055Decode_silent h flags (s := .normal) hrun'' hrest)
      | escEsc =>
        have hrun'' := (Mealy.run_of_pass (slipCall_put hstep2 w) l).symm.trans hrun'
        exact rfc1055Decode_put hoct (rfc1055Decode_silent h flags (s := .normal) hrun'' hrest)
      | broken _ _ => exact absurd hrun' (Mealy.not_silent (slipCall_done hstep2 w) l _)
termination_by l.length

/-- The automaton is in the state that no context has directly behind an escape in a frame. -/
theorem slipCall_run_escaped {sof : Bool} {s : Rfc1055State} {w w' l : List Octet}
    (hrun : (slipCall sof).run (s.slip, w) l = ((.escaped, w'), [])) :
    ∃ l₀, l = l₀ ++ [rawEsc] ∧ (slipCall sof).run (s.slip, w) l₀ = ((.normal, w'), []) := by
  rcases List.eq_nil_or_concat' l with rfl | ⟨l₀, o, rfl⟩
  · cases s <;> cases hrun
  · obtain ⟨⟨q, w₁⟩, h0, hlast⟩ := Mealy.silent_concat hrun
    rcases hstep : slipStep sof q o with ⟨q', ev⟩
    cases slipStep_move_of hstep with
    | esc =>
      rw [slipCall_pass hstep] at hlast
      cases hlast
      exact ⟨l₀, rfl, h0⟩
    | start | skip _ =>
      rw [slipCall_pass hstep] at hlast
      cases hlast
    | endFound =>
      rw [slipCall_pass hstep] at hlast
      cases sof <;> cases hlast
    | plain _ _ | escEof | escEsc =>
      rw [slipCall_put hstep] at hlast
      cases hlast
    | noStart _ | close | broken _ _ =>
      rw [slipCall_done hstep] at hlast
      cases congrArg Prod.snd hlast

/-- **A call of the decoder is a segment of the automaton.** -/
theorem rfc1055Decode_segment (h : Host) (flags : BitVec 32) {s : Rfc1055State} {w w' : List Octet}
    {l : List Octet} {rc : Rc} {q : SlipState × List Octet}
    (hseg : (slipCall (bitIsset flags rfc1055WithSof)).Segment (s.slip, w) l (rc, w') q) :
    ∀ source source' : Source σ, source.Delivers l source' →
      ∃ v s', w' = w ++ v ∧ q = (s'.slip, []) ∧ ∀ sink sink' : Sink τ, sink.Takes v sink' →
        Returns (fun fuel => rfc1055Decode h fuel ⟨s, flags⟩ source sink)
          (rc, ⟨s', flags⟩, source', sink') := by
  intro source source' hs
  obtain ⟨l₀, o, ⟨q₁, w₁⟩, rfl, hrun, hlast⟩ := hseg.split
  obtain ⟨source₁, hs1, hs2⟩ := hs.append_inv
  cases hs2 with
  | cons get hnil =>
  cases hnil
  rcases hstep : slipStep (bitIsset flags rfc1055WithSof) q₁ o with ⟨q', ev⟩
  cases slipStep_move_of hstep with
  | start | endFound | skip _ | esc =>
    rw [slipCall_pass hstep] at hlast
    cases hlast
  | plain _ _ | escEof | escEsc =>
    rw [slipCall_put hstep] at hlast
    cases hlast
  | noStart ho =>
    rw [slipCall_done hstep] at hlast
    cases hlast
    obtain ⟨v, hv, hto⟩ := rfc1055Decode_silent (τ := τ) h flags (t := .searchForStart) hrun hs1
    refine ⟨v, .searchForEnd, hv, rfl, fun sink sink' ht => hto sink sink' ht _ ?_⟩
    refine Returns.of_succ fun fuel => ?_
    simp only [rfc1055Decode, transition_get h get, if_neg ho, if_neg Nat.zero_ne_one]
  | close =>
    rw [slipCall_done hstep] at hlast
    cases hlast
    obtain ⟨v, hv, hto⟩ := rfc1055Decode_silent (τ := τ) h flags (t := .normal) hrun hs1
    refine ⟨v, afterFrame flags, hv, by rw [slip_afterFrame], fun sink sink' ht =>
      hto sink sink' ht _ ?_⟩
    refine Returns.of_succ fun fuel => ?_
    simp only [rfc1055Decode, rfc1055DecodeOctet_eof h get, afterFrame]
    split <;> rfl
  | broken h1 h2 =>
    rw [slipCall_done hstep] at hlast
    cases hlast
    -- the last pass of the loop begins with the escape
    obtain ⟨l₁, rfl, hrun₁⟩ := slipCall_run_escaped hrun
    obtain ⟨source₀, hs0, hs1⟩ := hs1.append_inv
    cases hs1 with
    | cons get0 hnil =>
    cases hnil
    have hoct := rfc1055DecodeOctet_esc h get0 get
    rw [if_neg h1, if_neg h2] at hoct
    obtain ⟨v, hv, hto⟩ := rfc1055Decode_silent (τ := τ) h flags (t := .normal) hrun₁ hs0
    refine ⟨v, if o = rawEof then afterFrame flags else .searchForEnd, hv, ?_,
      fun sink sink' ht => hto sink sink' ht _ ?_⟩
    · split
      · rw [slip_afterFrame]
      · rfl
    · refine Returns.of_succ fun fuel => ?_
      simp only [rfc1055Decode, hoct, afterFrame]
      split <;> rfl

/-! ## 3. Runs of calls -/

/-- A call of the decoder: its return code, the octets it read and those it wrote, and the context
    it left behind. -/
structure DecodeCall where
  rc : Rc
  read : List Octet
  wrote : List Octet
  ctx : Rfc1055Context

/-- Calls of the decoder, one behind the other, on one context. -/
inductive DecodeRun (h : Host) (sent : τ → List Octet) :
    Rfc1055Context → Source σ → Sink τ → List DecodeCall → Source σ → Sink τ → Prop
  | nil (ctx : Rfc1055Context) (source : Source σ) (sink : Sink τ) :
      DecodeRun h sent ctx source sink [] source sink
  | cons {ctx : Rfc1055Context} {source source₁ source' : Source σ} {sink sink₁ sink' : Sink τ}
      {call : DecodeCall} {calls : List DecodeCall}
      (read : source.Delivers call.read source₁) (wrote : sink.Sends sent call.wrote sink₁)
      (ret : Returns (fun fuel => rfc1055Decode h fuel ctx source sink)
        (call.rc, call.ctx, source₁, sink₁))
      (rest : DecodeRun h sent call.ctx source₁ sink₁ calls source' sink') :
      DecodeRun h sent ctx source sink (call :: calls) source' sink'

/-- One call, on a segment that is the next the source delivers. -/
theorem rfc1055Decode_call (h : Host) {flags : BitVec 32} {s : Rfc1055State} {l v : List Octet}
    {rc : Rc} {q : SlipState × List Octet} {source source₁ : Source σ} {sink : Sink τ}
    {sent : τ → List Octet}
    (hseg : (slipCall (bitIsset flags rfc1055WithSof)).Segment (s.slip, []) l (rc, v) q)
    (hs : source.Delivers l source₁) (hk : sink.Accepting sent) :
    ∃ s' sink₁, q = (s'.slip, []) ∧ sink.Sends sent v sink₁ ∧
      Returns (fun fuel => rfc1055Decode h fuel ⟨s, flags⟩ source sink)
        (rc, ⟨s', flags⟩, source₁, sink₁) := by
  obtain ⟨v', s', hv, hq, hret⟩ := rfc1055Decode_segment (τ := τ) h flags hseg _ _ hs
  obtain rfl : v = v' := hv
  obtain ⟨sink₁, ht, hsend⟩ := hk.takes v
  exact ⟨s', sink₁, hq, hsend, hret sink sink₁ ht⟩

/-- **Segments are calls**: with the codes and the octets the automaton outputs. -/
theorem decodeRun_of_segments (h : Host) {flags : BitVec 32} {sent : τ → List Octet}
    {q q' : SlipState × List Octet} {l : List Octet} {outs : List (Rc × List Octet)}
    (hseg : (slipCall (bitIsset flags rfc1055WithSof)).Segments q l outs q')
    {s : Rfc1055State} (hq : q = (s.slip, [])) {source source' : Source σ} {sink : Sink τ}
    (hs : source.Delivers l source') (hk : sink.Accepting sent) :
    ∃ calls sink', DecodeRun h sent ⟨s, flags⟩ source sink calls source' sink' ∧
      calls.map (fun call => (call.rc, call.wrote)) = outs := by
  induction hseg generalizing s source sink with
  | nil =>
    cases hs
    exact ⟨[], sink, .nil _ _ _, rfl⟩
  | @cons _ _ _ l l' o os head tail ih =>
    subst hq
    obtain ⟨source₁, hs1, hs2⟩ := hs.append_inv
    obtain ⟨s₁, sink₁, hq1, hsend, hret⟩ := rfc1055Decode_call h head hs1 hk
    obtain ⟨calls, sink', hrun, hmap⟩ := ih hq1 hs2 (hk.sends hsend)
    exact ⟨⟨o.1, l, o.2, ⟨s₁, flags⟩⟩ :: calls, sink', .cons hs1 hsend hret hrun,
      by rw [List.map_cons, hmap]⟩

end Ufw
