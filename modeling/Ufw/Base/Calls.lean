/-
  File:      Ufw/Base/Calls.lean
  Subject:   A STATE UNDER CALLS. A call is made in a state; it answers and leaves a state behind.

  * `trace` -- the calls of a run, each with the state it is made in; `after`, `answers`;
  * `Along` -- **a property of every call of a run**, with the rule for invariants
    (`Along.of_step`);
  * `answers_split`, `after_told` -- runs told by their answers;
  * `Simulates` -- a relation that calls keep, with equal answers; `Simulates.run`;
  * `Conserved` -- **queues**: what was there and what came in, in order, is what went out and what
    is left, with `Conserved.run`;
  * `visit` -- calls on the items of a list, up to the first answer that stops them; `record` is the
    callback that tells **what is visited** (`visit_record`).

  Nothing here names a particular program.
-/
import Mathlib.Data.List.Basic

namespace Base

variable {σ τ ι ω α : Type}

section Runs

variable (call : σ → ι → ω × σ)

/-- The calls of a run, each with the state it is made in. -/
def trace : σ → List ι → List (σ × ι)
  | _, [] => []
  | s, i :: l => (s, i) :: trace (call s i).2 l

/-- The state behind a run. -/
def after (s : σ) (l : List ι) : σ := l.foldl (fun s i => (call s i).2) s

/-- What the calls of a run answer. -/
def answers (s : σ) (l : List ι) : List ω := (trace call s l).map fun c => (call c.1 c.2).1

/-- `P` holds of every call of a run, in the state it is made in. -/
def Along (P : σ → ι → Prop) (s : σ) (l : List ι) : Prop := ∀ c ∈ trace call s l, P c.1 c.2

instance (P : σ → ι → Prop) [∀ s i, Decidable (P s i)] (s : σ) (l : List ι) :
    Decidable (Along call P s l) :=
  inferInstanceAs (Decidable (∀ c ∈ trace call s l, P c.1 c.2))

end Runs

variable {call : σ → ι → ω × σ}

@[simp] theorem trace_nil (s : σ) : trace call s [] = [] := rfl

@[simp] theorem trace_cons (s : σ) (i : ι) (l : List ι) :
    trace call s (i :: l) = (s, i) :: trace call (call s i).2 l := rfl

@[simp] theorem after_nil (s : σ) : after call s [] = s := rfl

@[simp] theorem after_cons (s : σ) (i : ι) (l : List ι) :
    after call s (i :: l) = after call (call s i).2 l := rfl

theorem answers_cons (s : σ) (i : ι) (l : List ι) :
    answers call s (i :: l) = (call s i).1 :: answers call (call s i).2 l := rfl

theorem Along.nil (P : σ → ι → Prop) (s : σ) : Along call P s [] := fun _ h => nomatch h

theorem along_cons {P : σ → ι → Prop} {s : σ} {i : ι} {l : List ι} :
    Along call P s (i :: l) ↔ P s i ∧ Along call P (call s i).2 l := List.forall_mem_cons

/-- **What every call keeps is there behind a run**, and what every call made there does, every call
    of the run does. -/
theorem Along.of_step {I : σ → Prop} {G P : σ → ι → Prop}
    (step : ∀ s i, I s → G s i → P s i ∧ I (call s i).2) {s : σ} {l : List ι} (hs : I s)
    (hl : Along call G s l) : Along call P s l ∧ I (after call s l) := by
  induction l generalizing s with
  | nil => exact ⟨.nil P s, hs⟩
  | cons i l ih =>
    obtain ⟨hi, hl⟩ := along_cons.mp hl
    obtain ⟨hP, hI⟩ := step s i hs hi
    obtain ⟨hrest, hend⟩ := ih hI hl
    exact ⟨along_cons.mpr ⟨hP, hrest⟩, hend⟩

/-- What every call keeps is there behind a run. -/
theorem after_keeps {I : σ → Prop} (step : ∀ s i, I s → I (call s i).2) {s : σ} (hs : I s)
    (l : List ι) : I (after call s l) := by
  induction l generalizing s with
  | nil => exact hs
  | cons i l ih => exact ih (step s i hs)

/-! ## Answers -/

/-- **What a call answered, it answered in the state behind the calls before it.** -/
theorem answers_split {s : σ} {l : List ι} {before rest : List ω} {o : ω}
    (h : answers call s l = before ++ o :: rest) : ∃ l₁ i l₂, l = l₁ ++ i :: l₂ ∧
      answers call s l₁ = before ∧ (call (after call s l₁) i).1 = o := by
  induction l generalizing s before with
  | nil => exact absurd h.symm (by simp [answers])
  | cons i l ih =>
    rw [answers_cons] at h
    cases before with
    | nil =>
      obtain ⟨ho, -⟩ := List.cons.inj h
      exact ⟨[], i, l, rfl, rfl, ho⟩
    | cons o' before =>
      obtain ⟨ho, hrest⟩ := List.cons.inj h
      obtain ⟨l₁, j, l₂, rfl, hbefore, hlast⟩ := ih hrest
      refine ⟨i :: l₁, j, l₂, rfl, ?_, hlast⟩
      rw [answers_cons, ho, hbefore]

/-- **A state that goes on by what is answered** can be told from the answers. -/
theorem after_told {f : σ → ω → σ} (h : ∀ s i, (call s i).2 = f s (call s i).1) (s : σ)
    (l : List ι) : after call s l = (answers call s l).foldl f s := by
  induction l generalizing s with
  | nil => rfl
  | cons i l ih => rw [after_cons, ih, answers_cons, List.foldl_cons, ← h]

/-! ## Simulation -/

/-- **The calls of one state are those of another one**: they keep a relation between the two and
    give the same answers. -/
def Simulates (R : σ → τ → Prop) (call : σ → ι → ω × σ) (spec : τ → ι → ω × τ) : Prop :=
  ∀ s t i, R s t → (call s i).1 = (spec t i).1 ∧ R (call s i).2 (spec t i).2

theorem Simulates.run {R : σ → τ → Prop} {spec : τ → ι → ω × τ} (h : Simulates R call spec) {s : σ}
    {t : τ} (hst : R s t) (l : List ι) :
    answers call s l = answers spec t l ∧ R (after call s l) (after spec t l) := by
  induction l generalizing s t with
  | nil => exact ⟨rfl, hst⟩
  | cons i l ih =>
    obtain ⟨hanswer, hnext⟩ := h s t i hst
    obtain ⟨hanswers, hend⟩ := ih hnext
    refine ⟨?_, hend⟩
    rw [answers_cons, answers_cons, hanswer, hanswers]

/-- **Calls that are simulated as far as they go well**: `G` is what the calls have to be, and `f`
    makes answers of the answers there. -/
theorem simulated_run {ω' : Type} {R : σ → τ → Prop} {G : ι → Prop} {spec : τ → ι → ω' × τ}
    {f : ω' → ω} (h : ∀ s t i, R s t → G i → (call s i).1 = f (spec t i).1 ∧
      R (call s i).2 (spec t i).2) {s : σ} {t : τ} (hst : R s t) {l : List ι} (hl : ∀ i ∈ l, G i) :
    answers call s l = (answers spec t l).map f ∧ R (after call s l) (after spec t l) := by
  induction l generalizing s t with
  | nil => exact ⟨rfl, hst⟩
  | cons i l ih =>
    obtain ⟨hi, hl⟩ := List.forall_mem_cons.mp hl
    obtain ⟨hanswer, hnext⟩ := h s t i hst hi
    obtain ⟨hanswers, hend⟩ := ih hnext hl
    refine ⟨?_, hend⟩
    rw [answers_cons, answers_cons, List.map_cons, hanswer, hanswers]

/-! ## Queues -/

/-- **What was there and what came in is what went out and what is left**, in order. -/
def Conserved (q came went q' : List α) : Prop := went ++ q' = q ++ came

theorem Conserved.refl (q : List α) : Conserved q [] [] q := (List.append_nil q).symm

/-- One step of a queue, and another one. -/
theorem Conserved.trans {q q' q'' came came' went went' : List α} (h : Conserved q came went q')
    (h' : Conserved q' came' went' q'') : Conserved q (came ++ came') (went ++ went') q'' := by
  unfold Conserved at *
  rw [List.append_assoc, h', ← List.append_assoc, h, List.append_assoc]

/-- **A run of a queue**: nothing is lost, doubled or moved before anything else. -/
theorem Conserved.run {view : σ → List α} {came went : σ → ι → List α} {s : σ} {l : List ι}
    (h : Along call (fun s i => Conserved (view s) (came s i) (went s i) (view (call s i).2)) s l) :
    Conserved (view s) ((trace call s l).flatMap fun c => came c.1 c.2)
      ((trace call s l).flatMap fun c => went c.1 c.2) (view (after call s l)) := by
  induction l generalizing s with
  | nil => exact .refl _
  | cons i l ih =>
    obtain ⟨hi, hl⟩ := along_cons.mp h
    exact hi.trans (ih hl)

/-! ## Visits -/

/-- Call on one item after the other, up to and including the first whose answer stops the visit:
    the item and the answer it stopped at. -/
def visit (call : σ → ι → ω × σ) (stop : ω → Bool) : List ι → σ → Option (ι × ω) × σ
  | [], s => (none, s)
  | i :: l, s =>
    let (r, s) := call s i
    if stop r then (some (i, r), s) else visit call stop l s

/-- The callback that writes down what it is called on, and answers `r`. -/
def record (r : ω) (s : List ι) (i : ι) : ω × List ι := (r, s ++ [i])

/-- **What is visited**: a callback can tell. -/
theorem visit_record {stop : ω → Bool} {r : ω} (hr : stop r = false) (l s : List ι) :
    visit (record r) stop l s = (none, s ++ l) := by
  induction l generalizing s with
  | nil => rw [List.append_nil]; rfl
  | cons i l ih =>
    unfold visit
    simp only [record, hr, Bool.false_eq_true, if_false]
    rw [ih, List.append_assoc]
    rfl

end Base
