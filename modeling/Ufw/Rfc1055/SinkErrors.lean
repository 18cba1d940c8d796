/-
  File:      Ufw/Rfc1055/SinkErrors.lean
  Subject:   A SINK THAT REFUSES AN OCTET in the middle of a SLIP frame, and what the calls behind
             that deliver.

  * `rfc1055Decode_refused` -- **the call returns the sink's error**, and leaves a context that
    stands inside the frame, without the octet that was refused;
  * `InFrames` -- where the automaton stands behind octets that began inside a frame;
  * `LaterFrames` -- every success delivers a whole frame that begins behind a delimiter;
  * `rfc1055Decode_refused_iff` -- **what is left of the frame is delivered as a frame, unless it is
    broken or never ends.**
-/
import Ufw.Rfc1055.Answers

namespace Ufw

open Base

variable {σ τ : Type}

/-! ## 1. The refusal -/

/-- **A call whose sink refuses an octet** returns the error of the sink. The source has handed out
    the octets the refused one stands for; the context stands in the frame, as if it was taken. -/
theorem rfc1055Decode_refused (h : Host) (flags : BitVec 32) {s : Rfc1055State} {q : SlipState}
    {l v : List Octet} {o d : Octet} {e : Errno}
    (hrun : (slipCall (bitIsset flags rfc1055WithSof)).run (s.slip, []) l = ((q, v), []))
    (hstep : slipStep (bitIsset flags rfc1055WithSof) q o = (.normal, some (.put d)))
    {source source' : Source σ} (hs : source.Delivers (l ++ [o]) source')
    {sink sink₁ sink' : Sink τ} (ht : sink.Takes v sink₁)
    (hput : sinkPutOctet sink₁ d = .ok (.error e, sink')) :
    Returns (fun fuel => rfc1055Decode h fuel ⟨s, flags⟩ source sink)
      (.error e, ⟨.normal, flags⟩, source', sink') := by
  obtain ⟨source₁, hs1, hs2⟩ := hs.append_inv
  cases hs2 with
  | cons get hnil =>
  cases hnil
  -- the last pass of the loop reads the octet, or the two octets, and is refused
  have hpass {l₀ : List Octet} {source₀ : Source σ} {m : Nat}
      (hrun₀ : (slipCall (bitIsset flags rfc1055WithSof)).run (s.slip, []) l₀ = ((.normal, v), []))
      (hs0 : source.Delivers l₀ source₀)
      (hoct : rfc1055DecodeOctet h source₀ = (.ok (m + 1), d, source')) :
      Returns (fun fuel => rfc1055Decode h fuel ⟨s, flags⟩ source sink)
        (.error e, ⟨.normal, flags⟩, source', sink') := by
    obtain ⟨v', hv, hto⟩ := rfc1055Decode_silent (τ := τ) h flags (t := .normal) hrun₀ hs0
    obtain rfl : v = v' := hv
    refine hto sink sink₁ ht _ (Returns.of_succ fun fuel => ?_)
    simp only [rfc1055Decode, hoct, hput, ok_bind]
  rcases hmove : slipStep (bitIsset flags rfc1055WithSof) q o with ⟨q', ev⟩
  obtain ⟨-, hev⟩ := Prod.mk.inj (hmove.symm.trans hstep)
  cases slipStep_move_of hmove with
  | start | endFound | skip _ | esc | noStart _ | close | broken _ _ => cases hev
  | plain hesc heof =>
    cases hev
    exact hpass hrun hs1 (rfc1055DecodeOctet_plain h get hesc heof)
  | escEof | escEsc =>
    cases hev
    obtain ⟨l₀, rfl, hrun₀⟩ := slipCall_run_escaped hrun
    obtain ⟨source₀, hs0, hs1⟩ := hs1.append_inv
    cases hs1 with
    | cons get0 hnil =>
    cases hnil
    exact hpass hrun₀ hs0 (rfc1055DecodeOctet_esc h get0 get)

/-! ## 2. Inside a frame and behind it -/

/-- What opens a frame. -/
def slipOpening (flags : BitVec 32) : List Octet :=
  if bitIsset flags rfc1055WithSof then [rawEof] else []

/-- What comes before the body of a frame: nothing, where the octets begin inside that frame, or
    anything up to a delimiter, and what opens the frame. -/
def BeforeBody (flags : BitVec 32) (x : List Octet) : Prop :=
  x = [] ∨ ∃ b, x = b ++ rawEof :: slipOpening flags

/-- **Where the automaton stands** behind the octets `c`, the first of which stood in a frame. -/
def InFrames (flags : BitVec 32) (c : List Octet) : SlipState × List Octet → Prop
  | (.normal, w) => ∃ x, BeforeBody flags x ∧ c = x ++ slipBody w
  | (.escaped, w) => ∃ x, BeforeBody flags x ∧ c = x ++ slipBody w ++ [rawEsc]
  | (.searchForStart, w) =>
    w = [] ∧ bitIsset flags rfc1055WithSof = true ∧ ∃ b, c = b ++ [rawEof]
  | (.searchForEnd, w) => w = []

/-- Behind a delimiter that ends a frame, a new one may begin. -/
theorem inFrames_afterFrame (flags : BitVec 32) (c : List Octet) :
    InFrames flags (c ++ [rawEof]) (slipAfterFrame (bitIsset flags rfc1055WithSof), []) := by
  unfold slipAfterFrame
  cases hf : bitIsset flags rfc1055WithSof with
  | true => exact ⟨rfl, hf, c, rfl⟩
  | false =>
    refine ⟨c ++ [rawEof], .inr ⟨c, ?_⟩, (List.append_nil _).symm⟩
    rw [slipOpening, if_neg (by rw [hf]; decide)]

theorem slipBody_concat (w : List Octet) (o : Octet) :
    slipBody (w ++ [o]) = slipBody w ++ slipEscape o := by
  unfold slipBody
  rw [List.flatMap_append, List.flatMap_singleton]

/-- One octet of the line. -/
theorem InFrames.step {flags : BitVec 32} {c : List Octet} {q : SlipState × List Octet}
    (hq : InFrames flags c q) (o : Octet) :
    InFrames flags (c ++ [o]) ((slipCall (bitIsset flags rfc1055WithSof)).step q o).1 := by
  obtain ⟨s, w⟩ := q
  rcases hs : slipStep (bitIsset flags rfc1055WithSof) s o with ⟨s', ev⟩
  cases slipStep_move_of hs with
  | start =>
    obtain ⟨rfl, hf, b, rfl⟩ := hq
    rw [slipCall_pass hs]
    refine ⟨b ++ [rawEof] ++ [rawEof], .inr ⟨b, ?_⟩, (List.append_nil _).symm⟩
    rw [slipOpening, if_pos hf, List.append_assoc]
    rfl
  | noStart _ =>
    rw [slipCall_done hs]
    exact rfl
  | endFound =>
    obtain rfl : w = [] := hq
    rw [slipCall_pass hs]
    exact inFrames_afterFrame flags c
  | skip _ =>
    rw [slipCall_pass hs]
    exact hq
  | esc =>
    obtain ⟨x, hx, rfl⟩ := hq
    rw [slipCall_pass hs]
    exact ⟨x, hx, rfl⟩
  | close =>
    rw [slipCall_done hs]
    exact inFrames_afterFrame flags c
  | plain h1 h2 =>
    obtain ⟨x, hx, rfl⟩ := hq
    rw [slipCall_put hs]
    refine ⟨x, hx, ?_⟩
    rw [slipBody_concat, slipEscape, if_neg h1, if_neg h2, List.append_assoc]
  | escEof =>
    obtain ⟨x, hx, rfl⟩ := hq
    rw [slipCall_put hs]
    refine ⟨x, hx, ?_⟩
    rw [slipBody_concat, List.append_assoc, List.append_assoc]
    rfl
  | escEsc =>
    obtain ⟨x, hx, rfl⟩ := hq
    rw [slipCall_put hs]
    refine ⟨x, hx, ?_⟩
    rw [slipBody_concat, List.append_assoc, List.append_assoc]
    rfl
  | broken _ _ =>
    rw [slipCall_done hs]
    split
    · subst_vars
      exact inFrames_afterFrame flags c
    · exact rfl

/-- The octets of a line, one by one. -/
theorem InFrames.run {flags : BitVec 32} {c : List Octet} {q : SlipState × List Octet}
    (hq : InFrames flags c q) (l : List Octet) :
    InFrames flags (c ++ l) ((slipCall (bitIsset flags rfc1055WithSof)).run q l).1 := by
  induction l generalizing c q with
  | nil =>
    rw [List.append_nil]
    exact hq
  | cons o l ih =>
    have hnext := ih (hq.step o)
    rwa [List.append_assoc] at hnext

/-! ## 3. What the calls behind the refusal deliver -/

/-- **Every success delivers a later frame**: the octets read up to it end with the whole frame,
    and the frame begins behind a delimiter. -/
def LaterFrames (flags : BitVec 32) (calls : List AnsweredCall) : Prop :=
  ∀ front read p back, calls = front ++ (read, (.ok 1, p)) :: back →
    ∃ b : List Octet, front.flatMap Prod.fst ++ read =
      (b ++ rawEof :: slipEncode flags p).map .ok

/-- The octets before one of the octets of a stream that ends with an error. -/
theorem octets_before {e : Errno} {o : Octet} {r : List Octet} {l l' : List Answer}
    (hl : l ++ .ok o :: l' = r.map .ok ++ [.error e]) :
    ∃ c later, l = c.map .ok ∧ r = c ++ o :: later := by
  induction r generalizing l with
  | nil =>
    cases l with
    | nil => cases hl
    | cons a l => exact absurd (List.cons.inj hl).2 (by simp)
  | cons o' r ih =>
    cases l with
    | nil =>
      cases hl
      exact ⟨[], r, rfl, rfl⟩
    | cons a l =>
      obtain ⟨rfl, htail⟩ := List.cons.inj hl
      obtain ⟨c, later, rfl, rfl⟩ := ih htail
      exact ⟨o' :: c, later, rfl, rfl⟩

/-- A success of the automaton is a delimiter in a frame. -/
theorem slipAnswers_success {sof : Bool} {q q' : SlipState × List Octet} {a : Answer}
    {p : List Octet} (hstep : (slipAnswers sof).step q a = (q', some (.ok 1, p))) :
    a = .ok rawEof ∧ q = (.normal, p) := by
  obtain ⟨s, w⟩ := q
  cases a with
  | error e => cases congrArg Prod.snd hstep
  | ok o =>
    rcases hs : slipStep sof s o with ⟨s', ev⟩
    have hcall : (slipCall sof).step (s, w) o = (q', some (.ok 1, p)) := hstep
    cases slipStep_move_of hs with
    | start | endFound | skip _ | esc =>
      rw [slipCall_pass hs] at hcall
      cases congrArg Prod.snd hcall
    | plain _ _ | escEof | escEsc =>
      rw [slipCall_put hs] at hcall
      cases congrArg Prod.snd hcall
    | noStart _ | broken _ _ =>
      rw [slipCall_done hs] at hcall
      cases congrArg Prod.snd hcall
    | close =>
      rw [slipCall_done hs] at hcall
      cases congrArg Prod.snd hcall
      exact ⟨rfl, rfl⟩

/-- Where what is left of the frame is not the body of a frame, every success delivers a later
    one. -/
theorem laterFrames_of_pieces {flags : BitVec 32} {r : List Octet} {e : Errno}
    (hr : ¬ ∃ p later, r = slipBody p ++ rawEof :: later) {calls : List AnsweredCall}
    {q : SlipState × List Octet}
    (hps : (slipAnswers (bitIsset flags rfc1055WithSof)).Pieces (.normal, []) calls q)
    (hread : calls.flatMap Prod.fst = r.map .ok ++ [.error e]) : LaterFrames flags calls := by
  intro front read p back hcalls
  rw [hcalls] at hps hread
  obtain ⟨l₀, a, q₁, rfl, hrun, q₂, hstep⟩ := hps.at
  obtain ⟨rfl, rfl⟩ := slipAnswers_success hstep
  have hbefore : (front.flatMap Prod.fst ++ l₀) ++ .ok rawEof :: back.flatMap Prod.fst =
      r.map .ok ++ [.error e] := by
    rw [← hread, List.flatMap_append, List.flatMap_cons]
    simp only [List.append_assoc, List.cons_append, List.nil_append]
  obtain ⟨c, later, hc, rfl⟩ := octets_before hbefore
  rw [hc, slipAnswers_run] at hrun
  have hstart : InFrames flags [] (.normal, []) := ⟨[], .inl rfl, rfl⟩
  have hin := hstart.run c
  rw [hrun, List.nil_append] at hin
  obtain ⟨x, rfl | ⟨b, rfl⟩, rfl⟩ := hin
  · exact absurd ⟨p, later, rfl⟩ hr
  · refine ⟨b, ?_⟩
    rw [← List.append_assoc, hc, slipEncode, slipOpening, List.map_append, List.map_append]
    simp

/-- Where what is left of the frame is the body of a frame, the first call delivers it. -/
theorem not_laterFrames_of_pieces {flags : BitVec 32} {p later : List Octet} {e : Errno}
    {calls : List AnsweredCall} {q : SlipState × List Octet}
    (hps : (slipAnswers (bitIsset flags rfc1055WithSof)).Pieces (.normal, []) calls q)
    (hread : calls.flatMap Prod.fst =
      (slipBody p ++ rawEof :: later).map .ok ++ [.error e]) : ¬ LaterFrames flags calls := by
  have hfirst : (slipAnswers (bitIsset flags rfc1055WithSof)).Segment (.normal, [])
      ((slipBody p).map .ok ++ [.ok rawEof]) (.ok 1, p)
      (slipAfterFrame (bitIsset flags rfc1055WithSof), []) :=
    Mealy.segment_of_run _ ((slipAnswers_run _ _ _).trans (slipCall_run_body _ p []))
      (slipCall_done (slipStep_close _) p)
  have hsplit : (slipBody p ++ rawEof :: later).map .ok ++ [.error e] =
      ((slipBody p).map .ok ++ [.ok rawEof]) ++ (later.map .ok ++ [Except.error e]) := by
    rw [List.map_append, List.map_cons]
    simp only [List.append_assoc, List.cons_append, List.nil_append]
  rw [hsplit] at hread
  intro hlater
  cases hps with
  | nil => exact absurd hread (by simp)
  | @cons _ _ _ l o ps head tail =>
    rw [List.flatMap_cons] at hread
    obtain ⟨rfl, rfl⟩ := head.unique hfirst hread
    obtain ⟨b, hb⟩ := hlater [] _ p ps rfl
    -- one delimiter was read, and the frame and the delimiter before it take two
    have hlen := congrArg List.length hb
    simp only [List.flatMap_nil, List.nil_append, List.length_append, List.length_map,
      List.length_cons, List.length_nil, slipEncode] at hlen
    omega

/-- **A sink error in the middle of a SLIP frame.** Wherever the sink refuses an octet, in either
    mode: the call returns the sink's error. The calls on what is left of the stream, into a sink
    that works, deliver later frames only, each of them whole, if and only if what is left of the
    broken frame is broken once more or never ends: where it is the body of a frame up to a
    delimiter, the next call delivers it as if it was one. -/
theorem rfc1055Decode_refused_iff (h : Host) (flags : BitVec 32) {s : Rfc1055State}
    {q : SlipState} {l v r : List Octet} {o d : Octet} {e : Errno}
    (hrun : (slipCall (bitIsset flags rfc1055WithSof)).run (s.slip, []) l = ((q, v), []))
    (hstep : slipStep (bitIsset flags rfc1055WithSof) q o = (.normal, some (.put d)))
    {source source₁ source' : Source σ} (hs : source.Delivers (l ++ [o]) source₁)
    (hrest : source₁.Answers (r.map .ok ++ [.error .enodata]) source')
    {sink sink₁ sink₂ : Sink τ} (ht : sink.Takes v sink₁)
    (hput : sinkPutOctet sink₁ d = .ok (.error e, sink₂))
    {sent : τ → List Octet} {sink₃ : Sink τ} (hk : sink₃.Works sent) :
    Returns (fun fuel => rfc1055Decode h fuel ⟨s, flags⟩ source sink)
      (.error e, ⟨.normal, flags⟩, source₁, sink₂) ∧
    ∃ calls sink', AnsweredRun h sent ⟨.normal, flags⟩ source₁ sink₃ calls source' sink' ∧
      calls.flatMap Prod.fst = r.map .ok ++ [.error .enodata] ∧
      (LaterFrames flags calls ↔ ¬ ∃ p later, r = slipBody p ++ rawEof :: later) := by
  refine ⟨rfc1055Decode_refused h flags hrun hstep hs ht hput, ?_⟩
  have hne : Except.error Errno.eilseq ∉ r.map Except.ok :=
    fun hm => nomatch (List.mem_map.mp hm).choose_spec.2
  obtain ⟨calls, sink', q', hcalls, hps, hread, -⟩ :=
    answeredRun_stream h flags .normal hne hrest hk
  refine ⟨calls, sink', hcalls, hread, ?_, fun hr => laterFrames_of_pieces hr hps hread⟩
  rintro hlater ⟨p, later, rfl⟩
  exact not_laterFrames_of_pieces hps hread hlater

/-- A sink that collects, and refuses the next octet where it is told to. -/
def refusingSink (refuse : Bool) (l : List Octet) : Sink (Bool × List Octet) where
  run := .octet fun (refuse, l) o =>
    if refuse then .ok (.error .enomem, (false, l)) else .ok (.ok 1, (false, l ++ [o]))
  retry := epRetryInit
  driver := (refuse, l)

theorem refusingSink_works (l : List Octet) : (refusingSink false l).Works Prod.snd := by
  intro v
  have htakes (v l : List Octet) :
      (refusingSink false l).Takes v (refusingSink false (l ++ v)) := by
    induction v generalizing l with
    | nil => rw [List.append_nil]; exact .nil _
    | cons o v ih =>
      refine .cons (m := 0) rfl ?_
      have hrest := ih (l ++ [o])
      rwa [List.append_assoc] at hrest
  exact ⟨_, htakes v l, _, rfl, rfl⟩

/-- A sink that refuses the first octet of a frame that never ends, and works then. -/
theorem rfc1055Decode_refused_sample :
    Returns (fun fuel => rfc1055Decode lp64Host fuel (rfc1055ContextInit rfc1055Default)
        (streamSource [0x01, 0x02]) (refusingSink true []))
      (.error .enomem, rfc1055ContextInit rfc1055Default, streamSource [0x02],
        refusingSink false []) ∧
    ∃ calls sink', AnsweredRun lp64Host Prod.snd (rfc1055ContextInit rfc1055Default)
      (streamSource [0x02]) (refusingSink false []) calls (streamSource []) sink' ∧
      LaterFrames rfc1055Default calls := by
  have hfirst : (streamSource [0x01, 0x02]).Delivers [0x01] (streamSource [0x02]) :=
    streamSource_delivers [0x01] [0x02]
  have hrest : (streamSource [0x02]).Answers [.ok 0x02, .error .enodata] (streamSource []) :=
    .cons rfl (.cons rfl (.nil _))
  obtain ⟨hret, calls, sink', hrun, -, hiff⟩ :=
    rfc1055Decode_refused_iff lp64Host rfc1055Default (s := .normal) (q := .normal) (l := [])
      (v := []) (o := 0x01) (d := 0x01) (r := [0x02]) rfl rfl hfirst hrest
      (.nil (refusingSink true [])) rfl (refusingSink_works [])
  refine ⟨hret, calls, sink', hrun, hiff.mpr ?_⟩
  rintro ⟨p, later, hr⟩
  have hmem : rawEof ∈ ([0x02] : List Octet) :=
    hr ▸ List.mem_append_right _ List.mem_cons_self
  exact absurd hmem (by decide)

/-- A frame of two octets whose first one the sink refuses: the call behind the error delivers the
    second one as a frame. -/
theorem rfc1055Decode_refused_truncated :
    Returns (fun fuel => rfc1055Decode lp64Host fuel (rfc1055ContextInit rfc1055Default)
        (streamSource (slipEncode rfc1055Default [0x01, 0x02])) (refusingSink true []))
      (.error .enomem, rfc1055ContextInit rfc1055Default, streamSource [0x02, rawEof],
        refusingSink false []) ∧
    Returns (fun fuel => rfc1055Decode lp64Host fuel (rfc1055ContextInit rfc1055Default)
        (streamSource [0x02, rawEof]) (refusingSink false []))
      (.ok 1, rfc1055ContextInit rfc1055Default, streamSource [], refusingSink false [0x02]) := by
  constructor
  · exact ⟨1, fun fuel hf => by
      obtain ⟨m, rfl⟩ := Nat.exists_eq_add_of_le' hf
      rfl⟩
  · exact ⟨2, fun fuel hf => by
      obtain ⟨m, rfl⟩ := Nat.exists_eq_add_of_le' hf
      rfl⟩

end Ufw
