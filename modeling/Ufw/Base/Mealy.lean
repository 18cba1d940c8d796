/-
  File:      Ufw/Base/Mealy.lean
  Subject:   MEALY MACHINES with at most one output for each input, and the segments of an input
             that end with an output.

  * `Mealy.run` -- the state and the outputs after an input, with `run_append`;
  * `Mealy.Segment` -- an input whose last letter yields the only output;
  * `Mealy.Segments` -- an input cut behind each of its outputs;
  * `segments_of_run` -- **an input whose last letter yields an output is cut into segments**;
  * `Mealy.Pieces`, `pieces_of_run` -- the segments with their outputs, one by one.

  Nothing here names a particular program.
-/
import Mathlib.Data.List.Basic

namespace Base

variable {σ ι ω : Type}

/-- A machine that answers a letter with a new state and, possibly, an output. -/
structure Mealy (σ ι ω : Type) where
  step : σ → ι → σ × Option ω

namespace Mealy

/-- The state and the outputs after an input. -/
def run (M : Mealy σ ι ω) : σ → List ι → σ × List ω
  | s, [] => (s, [])
  | s, i :: l =>
    let next := M.step s i
    let rest := run M next.1 l
    (rest.1, next.2.toList ++ rest.2)

@[simp] theorem run_nil (M : Mealy σ ι ω) (s : σ) : M.run s [] = (s, []) := rfl

theorem run_cons (M : Mealy σ ι ω) (s : σ) (i : ι) (l : List ι) :
    M.run s (i :: l) =
      ((M.run (M.step s i).1 l).1, (M.step s i).2.toList ++ (M.run (M.step s i).1 l).2) := rfl

theorem run_append (M : Mealy σ ι ω) (s : σ) (l l' : List ι) :
    M.run s (l ++ l') =
      ((M.run (M.run s l).1 l').1, (M.run s l).2 ++ (M.run (M.run s l).1 l').2) := by
  induction l generalizing s with
  | nil => rfl
  | cons i l ih => simp only [List.cons_append, run_cons, ih, List.append_assoc]

/-- A letter without an output. -/
theorem run_of_pass {M : Mealy σ ι ω} {s s₁ : σ} {i : ι} (step : M.step s i = (s₁, none))
    (l : List ι) : M.run s (i :: l) = M.run s₁ l := by
  rw [run_cons, step]
  rfl

/-- A letter with an output. -/
theorem run_of_emit {M : Mealy σ ι ω} {s s₁ : σ} {i : ι} {o : ω} (step : M.step s i = (s₁, some o))
    (l : List ι) : M.run s (i :: l) = ((M.run s₁ l).1, o :: (M.run s₁ l).2) := by
  rw [run_cons, step]
  rfl

/-- A letter with an output is not passed over in silence. -/
theorem not_silent {M : Mealy σ ι ω} {s s₁ : σ} {i : ι} {o : ω}
    (step : M.step s i = (s₁, some o)) (l : List ι) (s' : σ) : M.run s (i :: l) ≠ (s', []) := by
  rw [run_of_emit step]
  exact fun h => List.cons_ne_nil o _ (congrArg Prod.snd h)

/-- What is passed over in silence before the last letter, and that letter. -/
theorem silent_concat {M : Mealy σ ι ω} {s s' : σ} {l : List ι} {i : ι}
    (h : M.run s (l ++ [i]) = (s', [])) : ∃ s₁, M.run s l = (s₁, []) ∧
      M.step s₁ i = (s', none) := by
  rw [run_append, run_cons] at h
  obtain ⟨hs, hout⟩ := Prod.mk.inj h
  obtain ⟨hl, hi⟩ := List.append_eq_nil_iff.mp hout
  rcases hstep : M.step (M.run s l).1 i with ⟨s₂, _ | o⟩
  · rw [hstep] at hs
    exact ⟨(M.run s l).1, Prod.ext rfl hl, hstep.trans (Prod.ext hs rfl)⟩
  · rw [hstep] at hi
    cases hi

/-- An input whose last letter yields an output, and no letter before it does. -/
inductive Segment (M : Mealy σ ι ω) : σ → List ι → ω → σ → Prop
  | emit {s s' : σ} {i : ι} {o : ω} (step : M.step s i = (s', some o)) : Segment M s [i] o s'
  | pass {s s₁ s' : σ} {i : ι} {l : List ι} {o : ω} (step : M.step s i = (s₁, none))
      (rest : Segment M s₁ l o s') : Segment M s (i :: l) o s'

/-- An input that is segments, one behind the other. -/
inductive Segments (M : Mealy σ ι ω) : σ → List ι → List ω → σ → Prop
  | nil (s : σ) : Segments M s [] [] s
  | cons {s s₁ s' : σ} {l l' : List ι} {o : ω} {os : List ω} (head : M.Segment s l o s₁)
      (tail : Segments M s₁ l' os s') : Segments M s (l ++ l') (o :: os) s'

/-- A segment is an input without an output, and a letter with one. -/
theorem Segment.split {M : Mealy σ ι ω} {s s' : σ} {l : List ι} {o : ω}
    (h : M.Segment s l o s') : ∃ l₀ i s₁, l = l₀ ++ [i] ∧ M.run s l₀ = (s₁, []) ∧
      M.step s₁ i = (s', some o) := by
  induction h with
  | @emit s _ i _ step => exact ⟨[], i, s, rfl, rfl, step⟩
  | @pass _ _ _ j _ _ step _ ih =>
    obtain ⟨l₀, i, s₁, rfl, hrun, hi⟩ := ih
    exact ⟨j :: l₀, i, s₁, rfl, (run_of_pass step l₀).trans hrun, hi⟩

/-- The segment an input begins with is determined. -/
theorem Segment.unique {M : Mealy σ ι ω} {s s₁ s₂ : σ} {l l' r r' : List ι} {o o' : ω}
    (h : M.Segment s l o s₁) (h' : M.Segment s l' o' s₂) (hl : l ++ r = l' ++ r') :
    l = l' ∧ o = o' := by
  induction h generalizing l' with
  | emit step =>
    cases h' with
    | emit step' =>
      obtain ⟨rfl, -⟩ := List.cons.inj hl
      rw [step] at step'
      cases step'
      exact ⟨rfl, rfl⟩
    | pass step' _ =>
      obtain ⟨rfl, -⟩ := List.cons.inj hl
      rw [step] at step'
      cases step'
  | pass step _ ih =>
    cases h' with
    | emit step' =>
      obtain ⟨rfl, -⟩ := List.cons.inj hl
      rw [step] at step'
      cases step'
    | pass step' rest' =>
      obtain ⟨rfl, htail⟩ := List.cons.inj hl
      rw [step] at step'
      cases step'
      obtain ⟨rfl, rfl⟩ := ih rest' htail
      exact ⟨rfl, rfl⟩

/-- An input without an output, and a letter with one. -/
theorem segment_of_run (M : Mealy σ ι ω) {s s₁ s' : σ} {l : List ι} {i : ι} {o : ω}
    (hl : M.run s l = (s₁, [])) (h : M.step s₁ i = (s', some o)) : M.Segment s (l ++ [i]) o s' := by
  induction l generalizing s with
  | nil => cases hl; exact .emit h
  | cons j l ih =>
    rcases hj : M.step s j with ⟨s₂, _ | o'⟩
    · rw [run_cons, hj] at hl
      exact .pass hj (ih hl)
    · rw [run_cons, hj] at hl
      cases hl

/-- **An input whose last letter yields an output is cut into segments.** -/
theorem segments_of_run (M : Mealy σ ι ω) {s s' : σ} {l : List ι} {i : ι} {o : ω}
    (h : M.step (M.run s l).1 i = (s', some o)) :
    M.Segments s (l ++ [i]) ((M.run s l).2 ++ [o]) s' := by
  induction l generalizing s with
  | nil => exact .cons (l := [i]) (.emit h) (.nil s')
  | cons j l ih =>
    have ht := ih (s := (M.step s j).1) h
    rw [run_cons]
    rcases hj : M.step s j with ⟨s₁, out⟩
    rw [hj] at ht
    cases out with
    | some o' => exact .cons (l := [j]) (.emit hj) ht
    | none =>
      -- the letter belongs to the first of the segments that follow
      have hne : l ++ [i] ≠ [] := List.append_ne_nil_of_right_ne_nil l (List.cons_ne_nil i [])
      show M.Segments s (j :: (l ++ [i])) ((M.run s₁ l).2 ++ [o]) s'
      dsimp only at ht
      generalize l ++ [i] = l', (M.run s₁ l).2 ++ [o] = os at ht hne ⊢
      cases ht with
      | nil => exact absurd rfl hne
      | cons head tail => exact .cons (.pass hj head) tail

/-- Segments one behind the other, each with its output. -/
inductive Pieces (M : Mealy σ ι ω) : σ → List (List ι × ω) → σ → Prop
  | nil (s : σ) : Pieces M s [] s
  | cons {s s₁ s' : σ} {l : List ι} {o : ω} {ps : List (List ι × ω)}
      (head : M.Segment s l o s₁) (tail : Pieces M s₁ ps s') : Pieces M s ((l, o) :: ps) s'

theorem Segments.pieces {M : Mealy σ ι ω} {s s' : σ} {l : List ι} {os : List ω}
    (h : M.Segments s l os s') :
    ∃ ps, M.Pieces s ps s' ∧ ps.flatMap Prod.fst = l ∧ ps.map Prod.snd = os := by
  induction h with
  | nil s => exact ⟨[], .nil s, rfl, rfl⟩
  | @cons _ _ _ l _ o _ head _ ih =>
    obtain ⟨ps, hps, rfl, rfl⟩ := ih
    exact ⟨(l, o) :: ps, .cons head hps, rfl, rfl⟩

/-- **An input whose last letter yields an output, in pieces.** -/
theorem pieces_of_run (M : Mealy σ ι ω) {s s' : σ} {l : List ι} {i : ι} {o : ω}
    (h : M.step (M.run s l).1 i = (s', some o)) :
    ∃ ps, M.Pieces s ps s' ∧ ps.flatMap Prod.fst = l ++ [i] ∧
      ps.map Prod.snd = (M.run s l).2 ++ [o] := (segments_of_run M h).pieces

/-- A piece, where the run before it ends, up to its last letter. -/
theorem Pieces.at {M : Mealy σ ι ω} {s s' : σ} {ps ps' : List (List ι × ω)} {l : List ι} {o : ω}
    (h : M.Pieces s (ps ++ (l, o) :: ps') s') :
    ∃ l₀ i s₁, l = l₀ ++ [i] ∧ (M.run s (ps.flatMap Prod.fst ++ l₀)).1 = s₁ ∧
      ∃ s₂, M.step s₁ i = (s₂, some o) := by
  induction ps generalizing s with
  | nil =>
    cases h with
    | cons head _ =>
      obtain ⟨l₀, i, s₁, rfl, hrun, hstep⟩ := head.split
      exact ⟨l₀, i, s₁, rfl, congrArg Prod.fst hrun, _, hstep⟩
  | cons p ps ih =>
    cases h with
    | @cons _ s₃ _ _ _ _ head tail =>
      obtain ⟨l₀, i, s₁, rfl, hrun, hstep⟩ := ih tail
      obtain ⟨l₁, j, s₂, rfl, hrun₁, hstep₁⟩ := head.split
      refine ⟨l₀, i, s₁, rfl, ?_, hstep⟩
      have hhead : (M.run s (l₁ ++ [j])).1 = s₃ := by
        rw [run_append, hrun₁, run_cons, hstep₁]
        rfl
      rw [List.flatMap_cons, List.append_assoc, run_append, hhead]
      exact hrun

end Mealy

end Base
