/-
  File:      Ufw/Base/Pipeline.lean
  Subject:   PIPELINED SERVICES. A client asks questions without waiting for the answers; a service
             takes them one by one; the client collects the answers.

  * `Course` -- runs of a labelled system, with the rule for simulations (`Course.simulates`);
  * `Pipeline`, `Pipeline.Step` -- the questions and the answers on their way;
  * `Pipeline.course_sequential` -- **any interleaving is the sequential run of the questions**;
  * `Pipeline.course_length` -- without new questions a run ends.

  Nothing here names a particular program.
-/
import Mathlib.Data.List.Forall2
import Ufw.Base.Calls

namespace Base

variable {σ ι ω S T L K : Type}

/-! ## 1. Runs of a labelled system -/

/-- A run, with the labels of its steps. -/
inductive Course (step : S → L → S → Prop) : S → List L → S → Prop
  | nil (s : S) : Course step s [] s
  | cons {s s₁ s' : S} {l : L} {ls : List L} (head : step s l s₁) (tail : Course step s₁ ls s') :
      Course step s (l :: ls) s'

/-- **A system whose steps another one can follow, with labels related by `Q`.** -/
def Follows (step : S → L → S → Prop) (step' : T → K → T → Prop) (R : S → T → Prop)
    (Q : L → K → Prop) : Prop :=
  ∀ s t l s', R s t → step s l s' → ∃ k t', Q l k ∧ step' t k t' ∧ R s' t'

theorem Course.append {step : S → L → S → Prop} {s s₁ s' : S} {ls ls' : List L}
    (h : Course step s ls s₁) (h' : Course step s₁ ls' s') : Course step s (ls ++ ls') s' := by
  induction h with
  | nil => exact h'
  | cons head _ ih => exact .cons head (ih h')

/-- **Runs are followed by runs.** -/
theorem Course.simulates {step : S → L → S → Prop} {step' : T → K → T → Prop} {R : S → T → Prop}
    {Q : L → K → Prop} (hfollows : Follows step step' R Q) {s s' : S} {ls : List L}
    (h : Course step s ls s') {t : T} (hR : R s t) :
    ∃ ks t', List.Forall₂ Q ls ks ∧ Course step' t ks t' ∧ R s' t' := by
  induction h generalizing t with
  | nil => exact ⟨[], t, .nil, .nil t, hR⟩
  | cons head _ ih =>
    obtain ⟨k, t₁, hQ, hstep, hR₁⟩ := hfollows _ _ _ _ hR head
    obtain ⟨ks, t', hQs, hmoves, hR'⟩ := ih hR₁
    exact ⟨k :: ks, t', .cons hQ hQs, .cons hstep hmoves, hR'⟩

/-! ## 2. The questions and the answers on their way -/

/-- A service in the state `state`, the questions it has not taken yet, and the answers that have
    not been collected. -/
structure Pipeline (σ ι ω : Type) where
  state : σ
  waiting : List ι
  ready : List ω

/-- What happens: a question is asked, the service takes one, or an answer is collected. -/
inductive Move (ι ω : Type) where
  | ask (i : ι)
  | serve
  | collect (o : ω)

namespace Move

/-- The questions of a run. -/
def asked : List (Move ι ω) → List ι
  | [] => []
  | ask i :: ms => i :: asked ms
  | _ :: ms => asked ms

/-- The answers of a run. -/
def collected : List (Move ι ω) → List ω
  | [] => []
  | collect o :: ms => o :: collected ms
  | _ :: ms => collected ms

/-- The service or the client goes on with what is there already. -/
def Inner : Move ι ω → Prop
  | ask _ => False
  | _ => True

/-- Moves that differ in the answers collected: those are related by `Q`. -/
inductive Related {ω' : Type} (Q : ω → ω' → Prop) : Move ι ω → Move ι ω' → Prop
  | ask (i : ι) : Related Q (ask i) (ask i)
  | serve : Related Q serve serve
  | collect {o : ω} {o' : ω'} (h : Q o o') : Related Q (collect o) (collect o')

theorem asked_append (ms ms' : List (Move ι ω)) : asked (ms ++ ms') = asked ms ++ asked ms' := by
  induction ms with
  | nil => rfl
  | cons m ms ih => cases m <;> simp [asked, ih]

theorem asked_of_inner {ms : List (Move ι ω)} (h : ∀ m ∈ ms, m.Inner) : asked ms = [] := by
  induction ms with
  | nil => rfl
  | cons m ms ih =>
    have hrest := ih fun m' hm' => h m' (List.mem_cons_of_mem m hm')
    cases m with
    | ask i => exact (h (ask i) List.mem_cons_self).elim
    | serve | collect o => exact hrest

section Related

variable {ω' : Type} {Q : ω → ω' → Prop} {ms : List (Move ι ω)} {ms' : List (Move ι ω')}

theorem related_asked (h : List.Forall₂ (Related Q) ms ms') : asked ms = asked ms' := by
  induction h with
  | nil => rfl
  | cons h _ ih => cases h <;> simp [asked, ih]

theorem related_collected (h : List.Forall₂ (Related Q) ms ms') :
    List.Forall₂ Q (collected ms) (collected ms') := by
  induction h with
  | nil => exact .nil
  | cons h _ ih =>
    cases h with
    | ask i => exact ih
    | serve => exact ih
    | collect hQ => exact .cons hQ ih

theorem related_inner (h : List.Forall₂ (Related Q) ms ms') (hinner : ∀ m ∈ ms, m.Inner) :
    ∀ m ∈ ms', m.Inner := by
  induction h with
  | nil => exact fun m hm => absurd hm List.not_mem_nil
  | cons h _ ih =>
    obtain ⟨hhead, hrest⟩ := List.forall_mem_cons.mp hinner
    refine List.forall_mem_cons.mpr ⟨?_, ih hrest⟩
    cases h with
    | ask i => exact hhead
    | serve => exact hhead
    | collect hQ => exact trivial

end Related

end Move

namespace Pipeline

/-- **The steps of a pipelined service.** Its questions are taken, and its answers are collected, in
    the order they were asked and given in; nothing else is fixed. -/
inductive Step (call : σ → ι → ω × σ) : Pipeline σ ι ω → Move ι ω → Pipeline σ ι ω → Prop
  | ask (s : σ) (w : List ι) (r : List ω) (i : ι) :
      Step call ⟨s, w, r⟩ (.ask i) ⟨s, w ++ [i], r⟩
  | serve (s : σ) (i : ι) (w : List ι) (r : List ω) :
      Step call ⟨s, i :: w, r⟩ .serve ⟨(call s i).2, w, r ++ [(call s i).1]⟩
  | collect (s : σ) (w : List ι) (o : ω) (r : List ω) :
      Step call ⟨s, w, o :: r⟩ (.collect o) ⟨s, w, r⟩

/-- Nothing is on its way. -/
def Quiet (p : Pipeline σ ι ω) : Prop := p.waiting = [] ∧ p.ready = []

/-- How many steps are left: two for each question, one for each answer. -/
def left (p : Pipeline σ ι ω) : Nat := 2 * p.waiting.length + p.ready.length

variable {call : σ → ι → ω × σ} {p p' : Pipeline σ ι ω} {ms : List (Move ι ω)}

/-! ## 3. Sequential runs -/

/-- **Any interleaving is the sequential run**: the questions asked are those served and those still
    waiting, the state is that behind the questions served, and their answers are those collected
    and those still to be. -/
theorem course_sequential (h : Course (Step call) p ms p') : ∃ served,
    p.waiting ++ Move.asked ms = served ++ p'.waiting ∧ p'.state = after call p.state served ∧
    p.ready ++ answers call p.state served = Move.collected ms ++ p'.ready := by
  induction h with
  | nil p => exact ⟨[], List.append_nil _, rfl, List.append_nil _⟩
  | cons head _ ih =>
    obtain ⟨served, hasked, hstate, hready⟩ := ih
    cases head with
    | ask s w r i =>
      refine ⟨served, ?_, hstate, hready⟩
      rw [← hasked, List.append_assoc]
      rfl
    | serve s i w r =>
      refine ⟨i :: served, ?_, hstate, ?_⟩
      · exact congrArg (List.cons i) hasked
      · exact (List.append_assoc r [_] _).symm.trans hready
    | collect s w o r => exact ⟨served, hasked, hstate, congrArg (List.cons o) hready⟩

theorem length_answers (call : σ → ι → ω × σ) (s : σ) (l : List ι) :
    (answers call s l).length = l.length := by
  induction l generalizing s with
  | nil => rfl
  | cons i l ih => rw [answers_cons, List.length_cons, List.length_cons, ih]

/-! ## 4. Runs that end -/

/-- A step without a question uses up one of the steps that are left. -/
theorem Step.left {m : Move ι ω} (h : Step call p m p') (hm : m.Inner) : p.left = p'.left + 1 := by
  cases h with
  | ask s w r i => exact hm.elim
  | serve s i w r =>
    simp only [Pipeline.left, List.length_cons, List.length_append, List.length_nil]
    omega
  | collect s w o r => simp only [Pipeline.left, List.length_cons]; omega

/-- **Without new questions, a run is as long as the steps it uses up.** -/
theorem course_length (h : Course (Step call) p ms p') (hms : ∀ m ∈ ms, m.Inner) :
    p.left = p'.left + ms.length := by
  induction h with
  | nil => rfl
  | cons head _ ih =>
    obtain ⟨hhead, hrest⟩ := List.forall_mem_cons.mp hms
    rw [head.left hhead, ih hrest, List.length_cons, Nat.add_assoc]

end Pipeline

end Base
