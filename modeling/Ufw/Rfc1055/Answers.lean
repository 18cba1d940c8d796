/-
  File:      Ufw/Rfc1055/Answers.lean
  Subject:   SLIP AND ITS SOURCE'S ANSWERS. The decoder on a source that answers with octets and
             with errors, as they come: a call ends with its frame, or with the source's error.

  * `Source.Answers` -- the answers a source gives, one at a time;
  * `slipAnswers` -- the automaton of calls, over answers; an error ends a call, and of the state
    only what a context can hold is kept;
  * `rfc1055Decode_cut`, `rfc1055Decode_answers` -- **a call is a segment of that automaton**;
  * `AnsweredRun`, `answeredRun_stream` -- the calls on a whole stream, up to its end.
-/
import Ufw.Rfc1055.Streams

namespace Ufw

open Base

variable {σ τ : Type}

/-! ## 1. Answers -/

/-- What a source answers when it is asked for an octet. -/
abbrev Answer := Except Errno Octet

/-- `source` gives the answers of a list, one at a time, and is `source'` then. -/
inductive Source.Answers : Source σ → List Answer → Source σ → Prop
  | nil (source : Source σ) : Answers source [] source
  | cons {source source₁ source' : Source σ} {a : Answer} {l : List Answer}
      (get : sourceGetOctet source = (a.map some, source₁)) (rest : Answers source₁ l source') :
      Answers source (a :: l) source'

theorem Source.Answers.append_inv {l l' : List Answer} : ∀ {source source' : Source σ},
    source.Answers (l ++ l') source' →
    ∃ source₁, source.Answers l source₁ ∧ source₁.Answers l' source' := by
  induction l with
  | nil => exact fun h => ⟨_, .nil _, h⟩
  | cons a l ih =>
    intro source source' h
    cases h with
    | cons get rest =>
      obtain ⟨source₁, h1, h2⟩ := ih rest
      exact ⟨source₁, .cons get h1, h2⟩

/-- A source that answers with octets only hands them out. -/
theorem Source.Answers.delivers {l : List Octet} : ∀ {source source' : Source σ},
    source.Answers (l.map .ok) source' → source.Delivers l source' := by
  induction l with
  | nil =>
    intro source source' h
    cases h
    exact .nil _
  | cons o l ih =>
    intro source source' h
    cases h with
    | cons get rest => exact .cons get (ih rest)

theorem Source.Delivers.answers {l : List Octet} {source source' : Source σ}
    (h : source.Delivers l source') : source.Answers (l.map .ok) source' := by
  induction h with
  | nil => exact .nil _
  | cons get _ ih => exact .cons get ih

/-- A source that gives the answers of a list and then has no data. -/
def answerSource (l : List Answer) : Source (List Answer) where
  run := .octet fun
    | [] => (.error .enodata, [])
    | a :: l => (a.map some, l)
  retry := epRetryInit
  driver := l

theorem answerSource_answers (l : List Answer) :
    (answerSource l).Answers (l ++ [.error .enodata]) (answerSource []) := by
  induction l with
  | nil => exact .cons rfl (.nil _)
  | cons a l ih => exact .cons rfl ih

/-! ## 2. The automaton -/

/-- What a context keeps of a state of the automaton when a call is cut short. -/
def SlipState.kept : SlipState → Rfc1055State
  | .searchForStart => .searchForStart
  | .searchForEnd => .searchForEnd
  | .normal => .normal
  | .escaped => .normal

/-- The automaton of calls, over the answers of a source. -/
def slipAnswers (sof : Bool) : Mealy (SlipState × List Octet) Answer (Rc × List Octet) where
  step := fun q a =>
    match a with
    | .ok o => (slipCall sof).step q o
    | .error e => ((q.1.kept.slip, []), some (.error e, q.2))

/-- On octets, the two automata agree. -/
theorem slipAnswers_run (sof : Bool) (q : SlipState × List Octet) (l : List Octet) :
    (slipAnswers sof).run q (l.map .ok) = (slipCall sof).run q l := by
  induction l generalizing q with
  | nil => rfl
  | cons o l ih =>
    rw [List.map_cons, Mealy.run_cons, Mealy.run_cons, ih]
    rfl

/-- Answers passed over in silence are octets. -/
theorem slipAnswers_silent {sof : Bool} {q q' : SlipState × List Octet} {l : List Answer}
    (hrun : (slipAnswers sof).run q l = (q', [])) : ∃ l₀ : List Octet, l = l₀.map .ok := by
  induction l generalizing q with
  | nil => exact ⟨[], rfl⟩
  | cons a l ih =>
    cases a with
    | error e => exact absurd hrun (Mealy.not_silent rfl l q')
    | ok o =>
      rw [Mealy.run_cons] at hrun
      obtain ⟨hq, hout⟩ := Prod.mk.inj hrun
      obtain ⟨-, hl⟩ := List.append_eq_nil_iff.mp hout
      obtain ⟨l₀, rfl⟩ := ih (Prod.ext hq hl)
      exact ⟨o :: l₀, rfl⟩

/-! ## 3. The decoder simulates it -/

/-- A call whose first question is answered with an error. -/
theorem rfc1055Decode_error (h : Host) (ctx : Rfc1055Context) {source source₁ : Source σ}
    {e : Errno} (get : sourceGetOctet source = (.error e, source₁)) (he : e ≠ .eilseq)
    (sink : Sink τ) :
    Returns (fun fuel => rfc1055Decode h fuel ctx source sink) (.error e, ctx, source₁, sink) := by
  refine Returns.of_succ fun fuel => ?_
  obtain ⟨state, flags⟩ := ctx
  cases state with
  | searchForStart | searchForEnd => simp only [rfc1055Decode, transition, get]
  | normal => simp only [rfc1055Decode, rfc1055DecodeOctet, get]

/-- **An error cuts a call short**: it is what the call returns, and an escape whose second octet
    is missing is forgotten. -/
theorem rfc1055Decode_cut (h : Host) (flags : BitVec 32) {s : Rfc1055State} {q : SlipState}
    {v l : List Octet} {e : Errno} {source source₁ source₂ : Source σ}
    (hrun : (slipCall (bitIsset flags rfc1055WithSof)).run (s.slip, []) l = ((q, v), []))
    (hs : source.Delivers l source₁) (get : sourceGetOctet source₁ = (.error e, source₂))
    (he : e ≠ .eilseq) {sink sink' : Sink τ} (ht : sink.Takes v sink') :
    Returns (fun fuel => rfc1055Decode h fuel ⟨s, flags⟩ source sink)
      (.error e, ⟨q.kept, flags⟩, source₂, sink') := by
  have hkept {t : Rfc1055State}
      (hrun : (slipCall (bitIsset flags rfc1055WithSof)).run (s.slip, []) l =
        ((t.slip, v), [])) :
      Returns (fun fuel => rfc1055Decode h fuel ⟨s, flags⟩ source sink)
        (.error e, ⟨t, flags⟩, source₂, sink') := by
    obtain ⟨v', hv, hto⟩ := rfc1055Decode_silent (τ := τ) h flags hrun hs
    obtain rfl : v = v' := hv
    exact hto sink sink' ht _ (rfc1055Decode_error h _ get he sink')
  cases q with
  | searchForStart => exact hkept (t := .searchForStart) hrun
  | searchForEnd => exact hkept (t := .searchForEnd) hrun
  | normal => exact hkept (t := .normal) hrun
  | escaped =>
    obtain ⟨l₀, rfl, hrun₀⟩ := slipCall_run_escaped hrun
    obtain ⟨source₀, hs0, hs1⟩ := hs.append_inv
    cases hs1 with
    | cons get0 hnil =>
    cases hnil
    obtain ⟨v', hv, hto⟩ := rfc1055Decode_silent (τ := τ) h flags (t := .normal) hrun₀ hs0
    obtain rfl : v = v' := hv
    refine hto sink sink' ht _ (Returns.of_succ fun fuel => ?_)
    simp only [rfc1055Decode, rfc1055DecodeOctet, get0, Option.getD_some, if_true, get]
    rfl

/-- **A call is a segment of the automaton over answers.** -/
theorem rfc1055Decode_answers (h : Host) (flags : BitVec 32) {s : Rfc1055State}
    {l : List Answer} {rc : Rc} {v : List Octet} {q : SlipState × List Octet}
    (hseg : (slipAnswers (bitIsset flags rfc1055WithSof)).Segment (s.slip, []) l (rc, v) q)
    (hl : .error .eilseq ∉ l) {source source' : Source σ} (hs : source.Answers l source') :
    ∃ s' : Rfc1055State, q = (s'.slip, []) ∧ ∀ sink sink' : Sink τ, sink.Takes v sink' →
      Returns (fun fuel => rfc1055Decode h fuel ⟨s, flags⟩ source sink)
        (rc, ⟨s', flags⟩, source', sink') := by
  obtain ⟨l₀, a, q₁, rfl, hrun, hlast⟩ := hseg.split
  obtain ⟨l₁, rfl⟩ := slipAnswers_silent hrun
  rw [slipAnswers_run] at hrun
  cases a with
  | ok o =>
    have hseg' := Mealy.segment_of_run (slipCall (bitIsset flags rfc1055WithSof)) hrun hlast
    have hs' : source.Delivers (l₁ ++ [o]) source' :=
      Source.Answers.delivers (by rw [List.map_append]; exact hs)
    obtain ⟨v', s', hv, hq, hret⟩ := rfc1055Decode_segment (τ := τ) h flags hseg' _ _ hs'
    obtain rfl : v = v' := hv
    exact ⟨s', hq, hret⟩
  | error e =>
    obtain ⟨source₁, hs1, hs2⟩ := hs.append_inv
    cases hs2 with
    | cons get hnil =>
    cases hnil
    cases hlast
    have he : e ≠ .eilseq := fun h => hl (h ▸ List.mem_append_right _ List.mem_cons_self)
    exact ⟨q₁.1.kept, rfl, fun sink sink' ht =>
      rfc1055Decode_cut h flags hrun hs1.delivers get he ht⟩

/-! ## 4. Runs of calls -/

/-- A call: the answers it was given, and what it returned and wrote. -/
abbrev AnsweredCall := List Answer × (Rc × List Octet)

/-- Calls of the decoder, one behind the other, on one context. -/
inductive AnsweredRun (h : Host) (sent : τ → List Octet) :
    Rfc1055Context → Source σ → Sink τ → List AnsweredCall → Source σ → Sink τ → Prop
  | nil (ctx : Rfc1055Context) (source : Source σ) (sink : Sink τ) :
      AnsweredRun h sent ctx source sink [] source sink
  | cons {ctx ctx₁ : Rfc1055Context} {source source₁ source' : Source σ}
      {sink sink₁ sink' : Sink τ} {l : List Answer} {rc : Rc} {v : List Octet}
      {calls : List AnsweredCall} (read : source.Answers l source₁)
      (wrote : sink.Sends sent v sink₁)
      (ret : Returns (fun fuel => rfc1055Decode h fuel ctx source sink)
        (rc, ctx₁, source₁, sink₁))
      (rest : AnsweredRun h sent ctx₁ source₁ sink₁ calls source' sink') :
      AnsweredRun h sent ctx source sink ((l, (rc, v)) :: calls) source' sink'

/-- **Pieces are calls**, into a sink that works. -/
theorem answeredRun_of_pieces (h : Host) {flags : BitVec 32} {sent : τ → List Octet}
    {q q' : SlipState × List Octet} {calls : List AnsweredCall}
    (hps : (slipAnswers (bitIsset flags rfc1055WithSof)).Pieces q calls q')
    (hl : .error .eilseq ∉ calls.flatMap Prod.fst) {s : Rfc1055State} (hq : q = (s.slip, []))
    {source source' : Source σ} (hs : source.Answers (calls.flatMap Prod.fst) source')
    {sink : Sink τ} (hk : sink.Works sent) :
    ∃ sink', AnsweredRun h sent ⟨s, flags⟩ source sink calls source' sink' := by
  induction hps generalizing s source sink with
  | nil =>
    cases hs
    exact ⟨sink, .nil _ _ _⟩
  | @cons _ _ _ l o ps head tail ih =>
    subst hq
    rw [List.flatMap_cons] at hl hs
    obtain ⟨source₁, hs1, hs2⟩ := hs.append_inv
    obtain ⟨s₁, hq₁, hret⟩ := rfc1055Decode_answers (τ := τ) h flags head
      (fun hm => hl (List.mem_append_left _ hm)) hs1
    obtain ⟨sink₁, ht, -⟩ := hk o.2
    obtain ⟨hsend, hk₁⟩ := hk.takes ht
    obtain ⟨sink', hrun⟩ := ih (fun hm => hl (List.mem_append_right _ hm)) hq₁ hs2 hk₁
    exact ⟨sink', .cons hs1 hsend (hret sink sink₁ ht) hrun⟩

/-- What the calls on a stream return and write, up to the call that meets its end. -/
def slipReturned (sof : Bool) (s : SlipState) (l : List Answer) : List (Rc × List Octet) :=
  ((slipAnswers sof).run (s, []) (l ++ [.error .enodata])).2

/-- **The calls on a stream**, from any context, up to the one that meets the end of the data. -/
theorem answeredRun_stream (h : Host) (flags : BitVec 32) (s : Rfc1055State)
    {l : List Answer} (hl : .error .eilseq ∉ l) {source source' : Source σ}
    (hs : source.Answers (l ++ [.error .enodata]) source') {sent : τ → List Octet}
    {sink : Sink τ} (hk : sink.Works sent) :
    ∃ calls sink' q', AnsweredRun h sent ⟨s, flags⟩ source sink calls source' sink' ∧
      (slipAnswers (bitIsset flags rfc1055WithSof)).Pieces (s.slip, []) calls q' ∧
      calls.flatMap Prod.fst = l ++ [.error .enodata] ∧
      calls.map Prod.snd = slipReturned (bitIsset flags rfc1055WithSof) s.slip l := by
  obtain ⟨ps, hps, hread, hout⟩ := Mealy.pieces_of_run
    (slipAnswers (bitIsset flags rfc1055WithSof)) (s := (s.slip, [])) (l := l)
    (i := .error .enodata) rfl
  have hne : .error .eilseq ∉ ps.flatMap Prod.fst := by
    rw [hread, List.mem_append, List.mem_singleton]
    exact fun hm => hm.elim hl fun he => nomatch he
  obtain ⟨sink', hrun⟩ := answeredRun_of_pieces h hps hne rfl (hread ▸ hs) hk
  refine ⟨ps, sink', _, hrun, hps, hread, hout.trans ?_⟩
  rw [slipReturned, Mealy.run_append]
  rfl

end Ufw
