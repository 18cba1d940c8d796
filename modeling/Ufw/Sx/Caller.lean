/-
  File:      Ufw/Sx/Caller.lean
  Subject:   PROGRAMS THAT USE S-EXPRESSIONS: any sequence of calls of the functions that make,
             link, take apart and free nodes.

  * `SxCall` -- a call, with the variables of the program its arguments and its result are in;
  * `SxCall.Allowed` -- what the program has to see to: no pointer is overwritten, and none is given
    away twice;
  * `sxCalls_run` -- **such a program runs, its variables hold the trees they should, and every
    block that is allocated belongs to one of them.**
-/
import Ufw.Base.Calls
import Ufw.Sx.Ownership

namespace Ufw

open Base Base.Assertion

variable {ι : Type} [DecidableEq ι]

/-! ## 1. Calls -/

/-- A call, on variables of the program. -/
inductive SxCall (ι : Type) where
  | integer (v : ι) (n : BitVec 64)
  | symbol (v : ι) (s : List Octet)
  | emptyList (v : ι)
  | cons (v a d : ι)
  | pop (v r : ι)
  | append (v a b : ι)
  | destroy (v : ι)
  deriving DecidableEq, Repr

/-- The call is made. What a pointer that is given away pointed to belongs to the result, and the
    variable is NULL from there on. -/
def SxCall.run (fuel : Nat) (vars : ι → SxPtr) : SxCall ι → SxM (ι → SxPtr)
  | .integer v n => do
    let p ← sxMakeInteger n
    pure (Function.update vars v p)
  | .symbol v s => do
    let p ← sxMakeSymbol s
    pure (Function.update vars v p)
  | .emptyList v => do
    let p ← sxMakeEmptyList
    pure (Function.update vars v p)
  | .cons v a d => do
    let p ← sxCons (vars a) (vars d)
    pure (Function.update (Function.update (Function.update vars a none) d none) v p)
  | .pop v r => do
    let res ← sxPop (vars r)
    pure (Function.update (Function.update vars r res.2) v res.1)
  | .append v a b => do
    let p ← sxAppend fuel (vars a) (vars b)
    if p.isNone then pure vars
    else pure (Function.update (Function.update (Function.update vars a none) b none) v p)
  | .destroy v => do
    let left ← sxDestroy fuel (vars v)
    pure (Function.update vars v left)

/-- Calls, one after the other. -/
def SxCall.runAll (fuel : Nat) : List (SxCall ι) → (ι → SxPtr) → SxM (ι → SxPtr)
  | [], vars => pure vars
  | c :: calls, vars => do
    let vars ← c.run fuel vars
    runAll fuel calls vars

/-- What a call does to the trees. -/
def SxCall.apply (vals : ι → SxNode) : SxCall ι → ι → SxNode
  | .integer v n => Function.update vals v (.integer n)
  | .symbol v s => Function.update vals v (.symbol s)
  | .emptyList v => Function.update vals v .emptyList
  | .cons v a d => Function.update (Function.update (Function.update vals a .null) d .null) v
      (.pair (vals a) (vals d))
  | .pop v r => Function.update (Function.update vals r (vals r).pop.2) v (vals r).pop.1
  | .append v a b =>
    match (vals a).append (vals b) with
    | none => vals
    | some t => Function.update (Function.update (Function.update vals a .null) b .null) v t
  | .destroy v => Function.update vals v .null

/-- **What the program has to see to**: a result is not put where a tree is, the trees of two
    arguments are two, and lists end in a node. -/
def SxCall.Allowed (vals : ι → SxNode) : SxCall ι → Prop
  | .integer v _ | .symbol v _ | .emptyList v => vals v = .null
  | .cons v a d => a ≠ d ∧ (v = a ∨ v = d ∨ vals v = .null)
  | .pop v r => v ≠ r ∧ vals v = .null
  | .append v a b => a ≠ b ∧ (v = a ∨ v = b ∨ vals v = .null) ∧
      ((vals a).isPair = true → (vals a).spineEnds = true)
  | .destroy _ => True

instance SxCall.decidableAllowed (vals : ι → SxNode) (c : SxCall ι) : Decidable (c.Allowed vals) :=
  match c with
  | .integer .. | .symbol .. | .emptyList .. | .cons .. | .pop .. | .append .. | .destroy .. => by
    unfold Allowed
    infer_instance

/-- Calls as steps between trees. -/
def SxCall.step (vals : ι → SxNode) (c : SxCall ι) : Unit × (ι → SxNode) := ((), c.apply vals)

/-! ## 2. The blocks of all variables -/

section Variables

variable [Fintype ι]

/-- **Every variable points to its tree**, and these are all the blocks there are. -/
def sxVars (vals : ι → SxNode) (vars : ι → SxPtr) : Assertion SxBlock :=
  ∏ v, sxTree (vals v) (vars v)

variable {vals : ι → SxNode} {vars : ι → SxPtr} {t : SxNode} {p : SxPtr} {v : ι}
  {R : Assertion SxBlock}

/-- What a variable points to, and what the others do. -/
theorem sxVars_update : sxVars (Function.update vals v t) (Function.update vars v p) =
    sxTree t p * ∏ w ∈ Finset.univ.erase v, sxTree (vals w) (vars w) := by
  unfold sxVars
  rw [← Finset.mul_prod_erase Finset.univ _ (Finset.mem_univ v), Function.update_self,
    Function.update_self]
  refine congrArg _ (Finset.prod_congr rfl fun w hw => ?_)
  rw [Function.update_of_ne (Finset.ne_of_mem_erase hw),
    Function.update_of_ne (Finset.ne_of_mem_erase hw)]

/-- **A variable is given away.** -/
theorem sxVars_take (v : ι) : sxVars vals vars = sxTree (vals v) (vars v) *
    sxVars (Function.update vals v .null) (Function.update vars v none) := by
  rw [sxVars_update, sxTree_none, one_mul, ← sxVars_update, Function.update_eq_self,
    Function.update_eq_self]

/-- **A variable that is NULL is given a tree.** -/
theorem le_sxVars (hv : vals v = .null) : sxTree t p * sxVars vals vars ≤
    sxVars (Function.update vals v t) (Function.update vars v p) := by
  rw [sxVars_take v, hv, sxTree_null, mul_left_comm]
  refine fact_mul_le fun _ => ?_
  rw [sxVars_update, sxTree_none, one_mul, sxVars_update]

/-- A tree that is made is put into a variable. -/
theorem sxVars_store {f : Nat → SxM SxPtr} {k : SxPtr → ι → SxPtr} (hv : vals v = .null)
    (h : Spec R f fun p => sxTree t p) (hk : ∀ p, k p = Function.update vars v p) :
    Spec (R * sxVars vals vars) (fun fuel => f fuel >>= fun p => pure (k p))
      (sxVars (Function.update vals v t)) := by
  refine .call h fun p => .pure ?_
  rw [hk]
  exact le_sxVars hv

/-- **Two variables are given away.** -/
theorem sxVars_take_two {a b : ι} (hne : a ≠ b) : sxVars vals vars =
    sxTree (vals a) (vars a) * sxTree (vals b) (vars b) *
      sxVars (Function.update (Function.update vals a .null) b .null)
        (Function.update (Function.update vars a none) b none) := by
  rw [sxVars_take a, sxVars_take b, Function.update_of_ne hne.symm, Function.update_of_ne hne.symm,
    mul_assoc]

omit [Fintype ι] in
/-- The result may go where one of two trees was that are given away. -/
theorem update_null {a b : ι} (hv : v = a ∨ v = b ∨ vals v = .null) :
    Function.update (Function.update vals a .null) b .null v = .null := by
  by_cases hb : v = b
  · rw [hb, Function.update_self]
  rw [Function.update_of_ne hb]
  by_cases ha : v = a
  · rw [ha, Function.update_self]
  · rw [Function.update_of_ne ha]
    exact (hv.resolve_left ha).resolve_left hb

theorem SxNode.append_isNull {t u w : SxNode} (h : t.append u = some w) : w.isNull = false := by
  unfold SxNode.append at h
  split at h
  · cases h
  · rename_i hnull
    obtain ⟨ht, hu⟩ := Bool.or_eq_false_iff.mp (Bool.not_eq_true _ ▸ hnull)
    split at h
    · exact Option.some.inj h ▸ hu
    · split at h
      · exact Option.some.inj h ▸ ht
      · split at h
        · cases h
        · rename_i hpair
          obtain ⟨htp, -⟩ := Bool.and_eq_true_iff.mp (Bool.not_eq_false _ ▸ hpair)
          obtain ⟨x, d, rfl⟩ := SxNode.eq_pair htp
          exact Option.some.inj h ▸ rfl

/-! ## 3. Calls on the blocks of all variables -/

/-- **A call takes the trees of the variables to those they should have.** -/
theorem SxCall.run_spec (c : SxCall ι) (h : c.Allowed vals) :
    Spec (sxVars vals vars) (fun fuel => c.run fuel vars) (sxVars (c.apply vals)) := by
  cases c with
  | integer v n =>
    rw [← one_mul (sxVars vals vars)]
    exact sxVars_store h (sxMakeInteger_spec n) fun _ => rfl
  | symbol v s =>
    rw [← one_mul (sxVars vals vars)]
    exact sxVars_store h (sxMakeSymbol_spec s) fun _ => rfl
  | emptyList v =>
    rw [← one_mul (sxVars vals vars)]
    exact sxVars_store h sxMakeEmptyList_spec fun _ => rfl
  | cons v a d =>
    obtain ⟨hne, hv⟩ := h
    rw [sxVars_take_two hne]
    exact sxVars_store (update_null hv) sxCons_spec fun _ => rfl
  | pop v r =>
    obtain ⟨hne, hv⟩ := h
    rw [sxVars_take r]
    refine .call sxPop_spec fun res => .pure ?_
    rw [mul_assoc]
    refine le_trans (mul_le_mul_right (le_sxVars (Function.update_self ..)) _) ?_
    rw [Function.update_idem, Function.update_idem]
    refine le_sxVars ?_
    rw [Function.update_of_ne hne]
    exact hv
  | append v a b =>
    obtain ⟨hne, hv, hends⟩ := h
    have htake : sxVars vals vars = _ := sxVars_take_two hne
    rw [htake]
    refine .call (sxAppend_spec hends) fun p => ?_
    cases happ : (vals a).append (vals b) with
    | none =>
      have happly : (SxCall.append v a b).apply vals = vals := by simp only [apply, happ]
      rw [happly, Option.elim_none, mul_assoc]
      refine .known fun hp => ?_
      simp only [hp, Option.isNone_none, if_true]
      exact .pure htake.ge
    | some t =>
      have happly : (SxCall.append v a b).apply vals =
          Function.update (Function.update (Function.update vals a .null) b .null) v t := by
        simp only [apply, happ]
      rw [happly, Option.elim_some]
      refine sxTree_isNone_rule fun hp => ?_
      rw [SxNode.append_isNull happ] at hp
      simp only [hp, Bool.false_eq_true, if_false]
      exact .pure (le_sxVars (update_null hv))
  | destroy v =>
    rw [sxVars_take v]
    refine .call sxDestroy_spec fun left => .known fun hleft => .pure ?_
    rw [hleft]
    exact le_rfl

/-- The calls of a run. -/
theorem SxCall.runAll_spec (calls : List (SxCall ι))
    (h : Along SxCall.step SxCall.Allowed vals calls) :
    Spec (sxVars vals vars) (fun fuel => runAll fuel calls vars)
      (sxVars (after SxCall.step vals calls)) := by
  induction calls generalizing vals vars with
  | nil => exact .pure le_rfl
  | cons c calls ih =>
    obtain ⟨hc, hcalls⟩ := along_cons.mp h
    exact .bind (run_spec c hc) fun vars => ih hcalls

omit [DecidableEq ι] in
/-- No variable, no block. -/
theorem sxVars_none : sxVars (fun _ : ι => .null) (fun _ => none) = 1 := by
  unfold sxVars
  simp only [sxTree_none, Finset.prod_const_one]

/-- A run from nothing. -/
theorem SxCall.runAll_returns (calls : List (SxCall ι))
    (h : Along SxCall.step SxCall.Allowed (fun _ => .null) calls) :
    ∃ vars heap, Returns (fun fuel => SxCall.runAll fuel calls (fun _ => none) (.empty SxBlock))
        (vars, heap) ∧
      (sxVars (after SxCall.step (fun _ => .null) calls) vars).Holds heap.blocks := by
  have hrun : Spec (sxVars (fun _ => .null) fun _ => none) _ _ := SxCall.runAll_spec calls h
  rw [sxVars_none] at hrun
  obtain ⟨vars, heap, hret, hpost⟩ := hrun 1 (.empty SxBlock) (by rw [mul_one]; rfl)
  rw [mul_one] at hpost
  exact ⟨vars, heap, hret, hpost⟩

/-- **A program that uses S-expressions runs**: from variables that are all NULL and memory that is
    not in use, every sequence of calls returns, no block being used after it was freed, or freed
    twice; the variables hold the trees they should; and there are exactly the blocks of these
    trees, so that none is left when all variables are NULL. -/
theorem sxCalls_run (calls : List (SxCall ι))
    (h : Along SxCall.step SxCall.Allowed (fun _ => .null) calls) :
    ∃ vars heap, Returns (fun fuel => SxCall.runAll fuel calls (fun _ => none) (.empty SxBlock))
        (vars, heap) ∧
      (sxVars (after SxCall.step (fun _ => .null) calls) vars).Holds heap.blocks ∧
      Set.encard {a | heap.blocks a ≠ none} =
        ∑ v, (after SxCall.step (fun _ => .null) calls v).blocks := by
  obtain ⟨vars, heap, hret, hpost⟩ := SxCall.runAll_returns calls h
  refine ⟨vars, heap, hret, hpost, ?_⟩
  exact HasCount.prod Finset.univ (fun v => sxTree_count) heap.blocks hpost

end Variables

/-- The variables of a small program. -/
abbrev sxSampleCalls : List (SxCall (Fin 3)) :=
  [.integer 0 1, .emptyList 1, .cons 0 0 1, .symbol 1 [0x61], .emptyList 2, .cons 1 1 2,
    .append 0 0 1, .pop 2 0, .destroy 2, .pop 1 0, .destroy 0, .destroy 1]

/-- Two lists are made, appended and taken apart; everything is freed. -/
theorem sxCalls_run_sample :
    ∃ vars heap, Returns (fun fuel => SxCall.runAll fuel sxSampleCalls (fun _ => none)
        (.empty SxBlock)) (vars, heap) ∧
      (sxVars (after SxCall.step (fun _ => .null) sxSampleCalls) vars).Holds heap.blocks ∧
      Set.encard {a | heap.blocks a ≠ none} =
        ∑ v, (after SxCall.step (fun _ => .null) sxSampleCalls v).blocks :=
  sxCalls_run sxSampleCalls (by decide)

end Ufw
