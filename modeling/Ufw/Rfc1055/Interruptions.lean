/-
  File:      Ufw/Rfc1055/Interruptions.lean
  Subject:   INTERRUPTED STREAMS. What the SLIP decoder makes of a stream whose source answers with
             a transient error now and then, compared with the same stream without the errors.

  * `resumed` -- the calls of a run, each joined with those that were cut short before it;
  * `delivered` -- what the run of a stream comes to, joined so, in closed form;
  * `Standing`, `Resumable` -- how an interrupted run stands to the other one, and the streams at
    whose end the two agree (`resumable_of_whole`: all that cut no escape off);
  * `rfc1055Decode_resumable_iff` -- **they agree on exactly these**: an escape whose second octet
    is late is forgotten.
-/
import Ufw.Rfc1055.Answers

namespace Ufw

open Base

variable {σ τ : Type}

/-! ## 1. Interruptions -/

/-- The errors after which a source is asked again. -/
def Transient (e : Errno) : Prop := e = .eagain ∨ e = .eintr

instance : DecidablePred Transient := fun _ => inferInstanceAs (Decidable (_ ∨ _))

/-- A stream all whose errors are transient. -/
def Interrupted (l : List Answer) : Prop := ∀ e, .error e ∈ l → Transient e

/-- The stream without its errors. -/
def uninterrupted (l : List Answer) : List Answer := l.filter Except.isOk

/-- The calls of a run without those that met a transient error; what these wrote is joined to the
    call that goes on where they stopped. `w` is what is left from the calls before. -/
def resumed : List Octet → List (Rc × List Octet) → List (Rc × List Octet)
  | _, [] => []
  | w, (.error e, v) :: calls =>
    if Transient e then resumed (w ++ v) calls else (.error e, w ++ v) :: resumed [] calls
  | w, (.ok n, v) :: calls => (.ok n, w ++ v) :: resumed [] calls

/-- A run that met no transient error. -/
theorem resumed_eq_self {calls : List (Rc × List Octet)}
    (h : ∀ call ∈ calls, ∀ e, call.1 = .error e → ¬ Transient e) : resumed [] calls = calls := by
  induction calls with
  | nil => rfl
  | cons call calls ih =>
    have hrest := ih fun c hc => h c (List.mem_cons_of_mem _ hc)
    obtain ⟨rc, v⟩ := call
    cases rc with
    | ok n => rw [resumed, hrest, List.nil_append]
    | error e =>
      rw [resumed, if_neg (h _ List.mem_cons_self e rfl), hrest, List.nil_append]

/-! ## 2. What a run delivers -/

/-- What the calls on a stream come to, once they are joined: `w` is what the call that is under
    way has written. -/
def delivered (sof : Bool) : SlipState → List Octet → List Answer → List (Rc × List Octet)
  | _, w, [] => [(.error .enodata, w)]
  | s, w, .error _ :: l => delivered sof s.kept.slip w l
  | s, w, .ok o :: l =>
    match slipStep sof s o with
    | (s', none) => delivered sof s' w l
    | (s', some (.put d)) => delivered sof s' (w ++ [d]) l
    | (s', some (.done rc)) => (rc, w) :: delivered sof s' [] l

section Delivered

variable {sof : Bool} {s s' : SlipState} {o : Octet} {l : List Answer} {w : List Octet}

theorem delivered_pass (hs : slipStep sof s o = (s', none)) :
    delivered sof s w (.ok o :: l) = delivered sof s' w l := by simp only [delivered, hs]

theorem delivered_put {d : Octet} (hs : slipStep sof s o = (s', some (.put d))) :
    delivered sof s w (.ok o :: l) = delivered sof s' (w ++ [d]) l := by simp only [delivered, hs]

theorem delivered_done {rc : Rc} (hs : slipStep sof s o = (s', some (.done rc))) :
    delivered sof s w (.ok o :: l) = (rc, w) :: delivered sof s' [] l := by
  simp only [delivered, hs]

/-- What is written stays written: it is the beginning of the first result. -/
theorem delivered_head (sof : Bool) (s : SlipState) (w : List Octet) (l : List Answer) :
    ∃ rc v rest, delivered sof s w l = (rc, w ++ v) :: rest := by
  induction l generalizing s w with
  | nil => exact ⟨.error .enodata, [], [], by rw [List.append_nil]; rfl⟩
  | cons a l ih =>
    cases a with
    | error e => exact ih s.kept.slip w
    | ok o =>
      rcases hs : slipStep sof s o with ⟨s', _ | d | rc⟩
      · rw [delivered_pass hs]
        exact ih s' w
      · rw [delivered_put hs]
        obtain ⟨rc, v, rest, he⟩ := ih s' (w ++ [d])
        exact ⟨rc, d :: v, rest, by rw [he, List.append_assoc]; rfl⟩
      · exact ⟨rc, [], _, by rw [delivered_done hs, List.append_nil]⟩

/-- A call that has written more than the other run's first one. -/
theorem delivered_put_ne_done (sof : Bool) (s : SlipState) (w : List Octet) (d : Octet)
    (l : List Answer) (rc : Rc) (rest : List (Rc × List Octet)) :
    delivered sof s (w ++ [d]) l ≠ (rc, w) :: rest := by
  obtain ⟨rc', v, rest', he⟩ := delivered_head sof s (w ++ [d]) l
  rw [he]
  intro h
  have hlen := congrArg List.length (Prod.mk.inj (List.cons.inj h).1).2
  rw [List.length_append, List.length_append, List.length_singleton] at hlen
  omega

/-- Calls that have written different octets. -/
theorem delivered_put_ne_put (sof : Bool) (s s' : SlipState) (w : List Octet) {d d' : Octet}
    (hd : d ≠ d') (l l' : List Answer) :
    delivered sof s (w ++ [d]) l ≠ delivered sof s' (w ++ [d']) l' := by
  obtain ⟨rc, v, rest, he⟩ := delivered_head sof s (w ++ [d]) l
  obtain ⟨rc', v', rest', he'⟩ := delivered_head sof s' (w ++ [d']) l'
  rw [he, he']
  intro h
  have hw := (Prod.mk.inj (List.cons.inj h).1).2
  rw [List.append_assoc, List.append_assoc] at hw
  exact hd (List.cons.inj (List.append_cancel_left hw)).1

end Delivered

/-- What ends a call of the automaton's own accord is no transient error. -/
theorem SlipMove.done_rc {sof : Bool} {s s' : SlipState} {o : Octet} {rc : Rc}
    (hm : SlipMove sof s o (s', some (.done rc))) : rc = .error .eilseq ∨ rc = .ok 1 := by
  cases hm with
  | noStart _ | broken _ _ => exact .inl rfl
  | close => exact .inr rfl

/-- **Joined, the calls on a stream are what `delivered` says.** -/
theorem resumed_run {sof : Bool} {l : List Answer} (hl : Interrupted l) (s : SlipState)
    (v w : List Octet) :
    resumed w ((slipAnswers sof).run (s, v) (l ++ [.error .enodata])).2 =
      delivered sof s (w ++ v) l := by
  induction l generalizing s v w with
  | nil => rfl
  | cons a l ih =>
    have hl' : Interrupted l := fun e he => hl e (List.mem_cons_of_mem _ he)
    cases a with
    | error e =>
      show resumed w ((.error e, v) :: _) = _
      rw [resumed, if_pos (hl e List.mem_cons_self)]
      exact (ih hl' s.kept.slip [] (w ++ v)).trans (by rw [List.append_nil]; rfl)
    | ok o =>
      rw [List.cons_append]
      rcases hs : slipStep sof s o with ⟨s', _ | d | rc⟩
      · have hstep : (slipAnswers sof).step (s, v) (.ok o) = ((s', v), none) := slipCall_pass hs v
        rw [Mealy.run_of_pass hstep, delivered_pass hs, ih hl']
      · have hstep : (slipAnswers sof).step (s, v) (.ok o) = ((s', v ++ [d]), none) :=
          slipCall_put hs v
        rw [Mealy.run_of_pass hstep, delivered_put hs, ih hl', List.append_assoc]
      · have hstep : (slipAnswers sof).step (s, v) (.ok o) = ((s', []), some (rc, v)) :=
          slipCall_done hs v
        rw [Mealy.run_of_emit hstep, delivered_done hs]
        rcases (slipStep_move_of hs).done_rc with rfl | rfl
        · rw [resumed, if_neg (by decide), ih hl']
          rfl
        · rw [resumed, ih hl']
          rfl

/-- What the calls on a stream without errors return is no transient error. -/
theorem slipReturned_octets {sof : Bool} (s : SlipState) (p : List Octet) :
    ∀ call ∈ slipReturned sof s (p.map .ok), ∀ e, call.1 = .error e → ¬ Transient e := by
  have hrun (q : SlipState × List Octet) :
      ∀ call ∈ ((slipCall sof).run q p).2, ∀ e, call.1 = .error e → ¬ Transient e := by
    induction p generalizing q with
    | nil => exact fun call hc => nomatch hc
    | cons o p ih =>
      obtain ⟨s, v⟩ := q
      rcases hs : slipStep sof s o with ⟨s', _ | d | rc⟩
      · rw [Mealy.run_of_pass (slipCall_pass hs v)]
        exact ih _
      · rw [Mealy.run_of_pass (slipCall_put hs v)]
        exact ih _
      · rw [Mealy.run_of_emit (slipCall_done hs v)]
        intro call hc e he
        rcases List.mem_cons.mp hc with rfl | hc
        · rcases (slipStep_move_of hs).done_rc with rfl | rfl
          · cases he
            decide
          · cases he
        · exact ih _ call hc e he
  unfold slipReturned
  rw [Mealy.run_append, slipAnswers_run]
  intro call hc e he
  rcases List.mem_append.mp hc with hc | hc
  · exact hrun _ call hc e he
  · obtain rfl := List.mem_singleton.mp hc
    cases he
    decide

/-! ## 3. Where the two runs agree -/

/-- How the run of an interrupted stream stands to the run of the stream without the errors. -/
inductive Standing where
  /-- Both are in the same state. -/
  | inStep (s : SlipState)
  /-- The interrupted run has forgotten the escape the other one is behind. -/
  | missed
  /-- The other run has reported a broken escape; the interrupted one is behind its second octet,
      another `RAW_ESC`, and takes it for an escape. -/
  | behind
  /-- As `behind`, but that escape is forgotten as well. -/
  | missedAgain

/-- **The streams on which the two runs agree.** An escape that is forgotten does no harm where
    nothing follows it, and where it is broken in any case: then the octet that breaks it is
    another `RAW_ESC`, and so on, until one that is not forgotten is broken by another octet. -/
def Resumable (sof : Bool) : Standing → List Answer → Prop
  | .inStep _, [] | .missed, [] => True
  | .behind, [] | .missedAgain, [] => False
  | .inStep s, .error _ :: l => Resumable sof (if s = .escaped then .missed else .inStep s) l
  | .missed, .error _ :: l => Resumable sof .missed l
  | .behind, .error _ :: l | .missedAgain, .error _ :: l => Resumable sof .missedAgain l
  | .inStep s, .ok o :: l => Resumable sof (.inStep (slipStep sof s o).1) l
  | .missed, .ok o :: l | .missedAgain, .ok o :: l => o = rawEsc ∧ Resumable sof .behind l
  | .behind, .ok o :: l =>
    o ≠ escEof ∧ o ≠ escEsc ∧ Resumable sof (.inStep (slipStep sof .escaped o).1) l

/-- The two runs deliver the same from here on; `w` is what both have written in the call that is
    under way, or, where a broken escape is reported by one only, in the call it ended. -/
def Standing.Agrees (sof : Bool) (w : List Octet) (l : List Answer) : Standing → Prop
  | .inStep s => delivered sof s w l = delivered sof s w (uninterrupted l)
  | .missed => delivered sof .normal w l = delivered sof .escaped w (uninterrupted l)
  | .behind => delivered sof .escaped w l =
      (.error .eilseq, w) :: delivered sof .searchForEnd [] (uninterrupted l)
  | .missedAgain => delivered sof .normal w l =
      (.error .eilseq, w) :: delivered sof .searchForEnd [] (uninterrupted l)

theorem uninterrupted_ok (o : Octet) (l : List Answer) :
    uninterrupted (.ok o :: l) = .ok o :: uninterrupted l := rfl

/-- Behind an escape that is forgotten, only another one keeps the runs together. -/
theorem Standing.missed_agrees {sof : Bool} {w : List Octet} {l : List Answer} (o : Octet) :
    Standing.missed.Agrees sof w (.ok o :: l) ↔ o = rawEsc ∧ Standing.behind.Agrees sof w l := by
  unfold Standing.Agrees
  dsimp only
  rw [uninterrupted_ok]
  rcases hs : slipStep sof .normal o with ⟨s', ev⟩
  cases slipStep_move_of hs with
  | esc =>
    rw [delivered_pass hs, delivered_done (slipStep_broken sof (by decide) (by decide)),
      if_neg (by decide)]
    exact (and_iff_right rfl).symm
  | close =>
    rw [delivered_done hs, delivered_done (slipStep_broken sof (by decide) (by decide))]
    exact ⟨fun h => (nomatch (List.cons.inj h).1), fun h => absurd h.1 (by decide)⟩
  | plain hesc _ =>
    refine ⟨fun h => ?_, fun h => absurd h.1 hesc⟩
    rw [delivered_put hs] at h
    rcases hs' : slipStep sof .escaped o with ⟨s'', ev⟩
    cases slipStep_move_of hs' with
    | escEof | escEsc =>
      rw [delivered_put hs'] at h
      exact absurd h (delivered_put_ne_put sof _ _ w (by decide) _ _)
    | broken _ _ =>
      rw [delivered_done hs'] at h
      exact absurd h (delivered_put_ne_done sof _ w _ _ _ _)

theorem Standing.missedAgain_agrees {sof : Bool} {w : List Octet} {l : List Answer} (o : Octet) :
    Standing.missedAgain.Agrees sof w (.ok o :: l) ↔
      o = rawEsc ∧ Standing.behind.Agrees sof w l := by
  unfold Standing.Agrees
  dsimp only
  rw [uninterrupted_ok]
  rcases hs : slipStep sof .normal o with ⟨s', ev⟩
  cases slipStep_move_of hs with
  | esc =>
    rw [delivered_pass hs, delivered_pass (slipStep_skip sof (by decide))]
    exact (and_iff_right rfl).symm
  | close =>
    rw [delivered_done hs]
    exact ⟨fun h => (nomatch (List.cons.inj h).1), fun h => absurd h.1 (by decide)⟩
  | plain hesc _ =>
    rw [delivered_put hs]
    exact ⟨fun h => absurd h (delivered_put_ne_done sof _ w _ _ _ _), fun h => absurd h.1 hesc⟩

/-- The escape the interrupted run is behind has to be broken as well. -/
theorem Standing.behind_agrees {sof : Bool} {w : List Octet} {l : List Answer} (o : Octet) :
    Standing.behind.Agrees sof w (.ok o :: l) ↔ o ≠ escEof ∧ o ≠ escEsc ∧
      (Standing.inStep (slipStep sof .escaped o).1).Agrees sof [] l := by
  unfold Standing.Agrees
  dsimp only
  rw [uninterrupted_ok]
  rcases hs : slipStep sof .escaped o with ⟨s', ev⟩
  cases slipStep_move_of hs with
  | escEof =>
    rw [delivered_put hs]
    exact ⟨fun h => absurd h (delivered_put_ne_done sof _ w _ _ _ _), fun h => absurd rfl h.1⟩
  | escEsc =>
    rw [delivered_put hs]
    exact ⟨fun h => absurd h (delivered_put_ne_done sof _ w _ _ _ _), fun h => absurd rfl h.2.1⟩
  | broken h1 h2 =>
    -- the other run skips the octet, and comes into the same state
    have hskip : slipStep sof .searchForEnd o =
        (if o = rawEof then slipAfterFrame sof else .searchForEnd, none) := by
      rw [slipStep]
      split <;> rfl
    rw [delivered_done hs, delivered_pass hskip, List.cons.injEq]
    exact ⟨fun h => ⟨h1, h2, h.2⟩, fun h => ⟨rfl, h.2.2⟩⟩

/-- **The two runs agree on exactly these streams.** -/
theorem Standing.agrees_iff (sof : Bool) (st : Standing) (w : List Octet) (l : List Answer) :
    st.Agrees sof w l ↔ Resumable sof st l := by
  induction l generalizing st w with
  | nil =>
    cases st with
    | inStep s => exact iff_of_true rfl trivial
    | missed => exact iff_of_true rfl trivial
    | behind | missedAgain =>
      exact iff_of_false (fun h => nomatch (List.cons.inj h).1) fun h => h
  | cons a l ih =>
    cases a with
    | error e =>
      cases st with
      | inStep s =>
        rw [Resumable, ← ih _ w]
        cases s <;> rfl
      | missed => exact ih .missed w
      | behind | missedAgain => exact ih .missedAgain w
    | ok o =>
      cases st with
      | missed => rw [Standing.missed_agrees, ih, Resumable]
      | missedAgain => rw [Standing.missedAgain_agrees, ih, Resumable]
      | behind => rw [Standing.behind_agrees, ih, Resumable]
      | inStep s =>
        rcases hs : slipStep sof s o with ⟨s', _ | d | rc⟩
        · rw [Resumable, hs, ← ih (.inStep s') w]
          unfold Standing.Agrees
          dsimp only
          rw [uninterrupted_ok, delivered_pass hs, delivered_pass hs]
        · rw [Resumable, hs, ← ih (.inStep s') (w ++ [d])]
          unfold Standing.Agrees
          dsimp only
          rw [uninterrupted_ok, delivered_put hs, delivered_put hs]
        · rw [Resumable, hs, ← ih (.inStep s') []]
          unfold Standing.Agrees
          dsimp only
          rw [uninterrupted_ok, delivered_done hs, delivered_done hs, List.cons.injEq,
            and_iff_right rfl]

/-- **No escape cut off, no harm**: a stream none of whose errors comes directly behind an escape
    in a frame is one of them. -/
theorem resumable_of_whole {sof : Bool} {l : List Answer} : ∀ {s : SlipState} {w : List Octet},
    (∀ pre e post, l = pre ++ .error e :: post →
      ((slipAnswers sof).run (s, w) pre).1.1 ≠ .escaped) → Resumable sof (.inStep s) l := by
  induction l with
  | nil => exact fun _ => trivial
  | cons a l ih =>
    intro s w h
    cases a with
    | error e =>
      have hs : s ≠ .escaped := h [] e l rfl
      rw [Resumable, if_neg hs]
      refine ih (w := []) fun pre e' post hl => ?_
      have hnext := h (.error e :: pre) e' post (by rw [hl]; rfl)
      have hkept : s.kept.slip = s := by cases s <;> first | rfl | exact absurd rfl hs
      rwa [Mealy.run_of_emit rfl, hkept] at hnext
    | ok o =>
      rw [Resumable]
      have hstep : ((slipAnswers sof).step (s, w) (.ok o)).1.1 = (slipStep sof s o).1 := by
        show ((slipCall sof).step (s, w) o).1.1 = _
        rcases hs : slipStep sof s o with ⟨s', _ | d | rc⟩
        · rw [slipCall_pass hs]
        · rw [slipCall_put hs]
        · rw [slipCall_done hs]
      refine ih (w := ((slipAnswers sof).step (s, w) (.ok o)).1.2) fun pre e post hl => ?_
      rw [← hstep]
      exact h (.ok o :: pre) e post (by rw [hl]; rfl)

/-! ## 4. Interrupted streams -/

/-- Without its errors, a stream is octets. -/
theorem uninterrupted_octets (l : List Answer) : ∃ p : List Octet, uninterrupted l = p.map .ok := by
  induction l with
  | nil => exact ⟨[], rfl⟩
  | cons a l ih =>
    obtain ⟨p, hp⟩ := ih
    cases a with
    | error e => exact ⟨p, hp⟩
    | ok o => exact ⟨o :: p, by rw [uninterrupted_ok, hp]; rfl⟩

/-- **Interruptions of a SLIP stream.** Whatever the context, the mode, the stream and the places
    of the transient errors in it: the calls on the interrupted stream, each begun again on the
    same context where an error cut it short, return and deliver what the calls on the stream
    without the errors do if and only if no escape that an error has cut off is missed: an error
    directly behind a `RAW_ESC` in a frame does no harm only if nothing follows, or if the octets
    that follow break the escape in any case. -/
theorem rfc1055Decode_resumable_iff (h : Host) (flags : BitVec 32) (state : Rfc1055State)
    {σ₁ σ₂ τ₁ τ₂ : Type} {stream : List Answer} (hl : Interrupted stream)
    {source₁ source₁' : Source σ₁} {source₂ source₂' : Source σ₂}
    (h1 : source₁.Answers (stream ++ [.error .enodata]) source₁')
    (h2 : source₂.Answers (uninterrupted stream ++ [.error .enodata]) source₂')
    {sent₁ : τ₁ → List Octet} {sent₂ : τ₂ → List Octet} {sink₁ : Sink τ₁} {sink₂ : Sink τ₂}
    (hk₁ : sink₁.Works sent₁) (hk₂ : sink₂.Works sent₂) :
    ∃ calls₁ sink₁' calls₂ sink₂',
      AnsweredRun h sent₁ ⟨state, flags⟩ source₁ sink₁ calls₁ source₁' sink₁' ∧
      calls₁.flatMap Prod.fst = stream ++ [.error .enodata] ∧
      AnsweredRun h sent₂ ⟨state, flags⟩ source₂ sink₂ calls₂ source₂' sink₂' ∧
      calls₂.flatMap Prod.fst = uninterrupted stream ++ [.error .enodata] ∧
      (resumed [] (calls₁.map Prod.snd) = calls₂.map Prod.snd ↔
        Resumable (bitIsset flags rfc1055WithSof) (.inStep state.slip) stream) := by
  obtain ⟨p, hp⟩ := uninterrupted_octets stream
  have hne : Except.error Errno.eilseq ∉ stream := fun hm => absurd (hl _ hm) (by decide)
  have hne' : Except.error Errno.eilseq ∉ uninterrupted stream := by
    rw [hp]
    exact fun hm => nomatch (List.mem_map.mp hm).choose_spec.2
  have hl' : Interrupted (uninterrupted stream) := by
    rw [hp]
    exact fun e he => nomatch (List.mem_map.mp he).choose_spec.2
  obtain ⟨calls₁, sink₁', _, hrun₁, -, hread₁, hout₁⟩ :=
    answeredRun_stream h flags state hne h1 hk₁
  obtain ⟨calls₂, sink₂', _, hrun₂, -, hread₂, hout₂⟩ :=
    answeredRun_stream h flags state hne' h2 hk₂
  refine ⟨calls₁, sink₁', calls₂, sink₂', hrun₁, hread₁, hrun₂, hread₂, ?_⟩
  have hown : resumed [] (calls₂.map Prod.snd) = calls₂.map Prod.snd := by
    rw [hout₂, hp]
    exact resumed_eq_self (slipReturned_octets _ p)
  rw [← hown, hout₁, hout₂, slipReturned, slipReturned, resumed_run hl, resumed_run hl']
  exact Standing.agrees_iff _ (.inStep state.slip) [] stream

/-- Errors between the octets of a frame, before an escape and behind a whole one. -/
theorem rfc1055Decode_resumable_sample :
    ∃ calls₁ sink₁' calls₂ sink₂',
      AnsweredRun lp64Host id (rfc1055ContextInit rfc1055Default)
        (answerSource [.ok 0x01, .error .eagain, .ok rawEsc, .ok escEof, .error .eintr, .ok rawEof])
        (collectSink []) calls₁ (answerSource []) sink₁' ∧
      AnsweredRun lp64Host id (rfc1055ContextInit rfc1055Default)
        (answerSource [.ok 0x01, .ok rawEsc, .ok escEof, .ok rawEof])
        (collectSink []) calls₂ (answerSource []) sink₂' ∧
      resumed [] (calls₁.map Prod.snd) = calls₂.map Prod.snd := by
  have hl : Interrupted
      [.ok 0x01, .error .eagain, .ok rawEsc, .ok escEof, .error .eintr, .ok rawEof] := by
    intro e he
    simp only [List.mem_cons, List.not_mem_nil, or_false, reduceCtorEq, false_or,
      Except.error.injEq] at he
    exact he
  obtain ⟨calls₁, sink₁', calls₂, sink₂', hrun₁, -, hrun₂, -, hiff⟩ :=
    rfc1055Decode_resumable_iff lp64Host rfc1055Default .normal hl (answerSource_answers _)
      (answerSource_answers _) (collectSink_accepting []).works (collectSink_accepting []).works
  exact ⟨calls₁, sink₁', calls₂, sink₂', hrun₁, hrun₂, hiff.mpr trivial⟩

/-- A frame of one `RAW_EOF`, with an error behind its `RAW_ESC`: the call that goes on delivers
    `ESC_EOF` as it stands. -/
theorem rfc1055Decode_interrupted_escape :
    ∃ calls₁ sink₁' calls₂ sink₂',
      AnsweredRun lp64Host id (rfc1055ContextInit rfc1055Default)
        (answerSource [.ok rawEsc, .error .eagain, .ok escEof, .ok rawEof])
        (collectSink []) calls₁ (answerSource []) sink₁' ∧
      calls₁.map Prod.snd = [(.error .eagain, []), (.ok 1, [escEof]), (.error .enodata, [])] ∧
      AnsweredRun lp64Host id (rfc1055ContextInit rfc1055Default)
        (answerSource [.ok rawEsc, .ok escEof, .ok rawEof])
        (collectSink []) calls₂ (answerSource []) sink₂' ∧
      calls₂.map Prod.snd = [(.ok 1, [rawEof]), (.error .enodata, [])] ∧
      resumed [] (calls₁.map Prod.snd) ≠ calls₂.map Prod.snd := by
  obtain ⟨calls₁, sink₁', _, hrun₁, -, -, hout₁⟩ :=
    answeredRun_stream lp64Host rfc1055Default .normal
      (l := [.ok rawEsc, .error .eagain, .ok escEof, .ok rawEof]) (by decide)
      (answerSource_answers _) (collectSink_accepting []).works
  obtain ⟨calls₂, sink₂', _, hrun₂, -, -, hout₂⟩ :=
    answeredRun_stream lp64Host rfc1055Default .normal
      (l := [.ok rawEsc, .ok escEof, .ok rawEof]) (by decide)
      (answerSource_answers _) (collectSink_accepting []).works
  refine ⟨calls₁, sink₁', calls₂, sink₂', hrun₁, hout₁, hrun₂, hout₂, ?_⟩
  rw [hout₁, hout₂]
  decide

end Ufw
