/-
  File:      Ufw/Sx/ParserMemory.lean
  Subject:   THE S-EXPRESSION PARSER IN MEMORY: the nodes it makes, and those it frees again.

  * `sxParseTokenNode` … `sxParseNode` -- the functions of the parser, with nodes in memory;
  * `sxParseNode_spec` -- **the pointer that is returned leads to the tree the parser reads**, and
    nothing else is allocated behind the call, whether or not the text is one.
-/
import Ufw.Sx.Ownership
import Ufw.Sx.Parser

namespace Ufw

open Base Base.Assertion

/-! ## 1. The functions -/

/-- `struct sx_parse_result`, with its node in memory. -/
structure SxNodeResult where
  position : Nat
  status : SxStatus
  node : SxPtr
  deriving DecidableEq, Repr

/-- The node of a token, which is no pair. -/
def sxMakeToken : SxNode → SxM SxPtr
  | .null => pure none
  | .symbol name => sxMakeSymbol name
  | .integer n => sxMakeInteger n
  | .emptyList => sxMakeEmptyList
  | .pair _ _ => Heap.stop .fault

/-- `sx_parse_token`: the text is read, and a node made of it. -/
def sxParseTokenNode (fuel : Nat) (s : SxText) (n i : Nat) : SxM SxNodeResult := do
  let rv ← StateT.lift (sxParseToken fuel s n i)
  let node ← sxMakeToken rv.node
  pure { position := rv.position, status := rv.status, node }

/-- `result_is_empty_listp` -/
def nodeIsEmptyListp (res : SxNodeResult) : SxM Bool :=
  if res.status = .success ∧ res.node.isSome then sxIsNull res.node else pure false

/-- `result_is_error` -/
def nodeIsError (res : SxNodeResult) : Bool := res.status != .success && res.status != .foundList

mutual

/-- `sx_parse_list` -/
def sxParseListNode : Nat → SxText → Nat → Nat → SxM SxNodeResult
  | 0, _, _, _ => Heap.stop .outOfFuel
  | fuel + 1, s, n, i =>
    if n ≤ i then pure { position := 0, status := .unexpectedEnd, node := none }
    else do
      let carres ← sxParseNode_ fuel s n i
      let isEmpty ← nodeIsEmptyListp carres
      if isEmpty || nodeIsError carres then pure carres
      else do
        let cdrres ← sxParseListNode fuel s n carres.position
        let cons ← sxCons carres.node cdrres.node
        pure { cdrres with node := cons }

/-- `sx_parse_` -/
def sxParseNode_ : Nat → SxText → Nat → Nat → SxM SxNodeResult
  | 0, _, _, _ => Heap.stop .outOfFuel
  | fuel + 1, s, n, i => do
    let rv ← sxParseTokenNode fuel s n i
    if rv.status = .foundList then sxParseListNode fuel s n rv.position
    else if n ≤ i ∧ rv.node.isNone then pure { rv with status := .unexpectedEnd }
    else pure rv

end

/-- `sx_parse`: the nodes of what was read in front of an error are freed. -/
def sxParseNode (fuel : Nat) (s : SxText) (n i : Nat) : SxM SxNodeResult := do
  let rv ← sxParseNode_ fuel s n i
  if nodeIsError rv then do
    let node ← sxDestroy fuel rv.node
    pure { rv with node }
  else pure rv

/-! ## 2. Tokens -/

section Tokens

variable {s : SxText} {n i : Nat} {res : SxParseResult} {node : SxNode}

/-- What is returned with some fuel is returned with more. -/
theorem strlcpyTraverse_succ (s : SxText) (fuel src : Nat) :
    Below (strlcpyTraverse s fuel src) (strlcpyTraverse s (fuel + 1) src) := by
  induction fuel generalizing src with
  | zero => exact fun _ h => by cases h
  | succ fuel ih => exact (Below.refl _).bind fun c => (Below.refl _).ite (ih (src + 1))

theorem sxParseToken_succ (s : SxText) (n fuel i : Nat) :
    Below (sxParseToken fuel s n i) (sxParseToken (fuel + 1) s n i) := by
  refine (Below.refl _).bind fun j => (Below.refl _).ite ((Below.refl _).bind fun what => ?_)
  cases what with
  | symbol =>
    refine Below.map _ ((Below.refl _).bind fun j => (Below.refl _).bind fun _ =>
      (Below.refl _).ite (Below.bind ?_ fun _ => .refl _))
    refine Below.bind ((Below.refl _).bind fun copied => ?_) fun _ => .refl _
    exact (Below.refl _).ite ((strlcpyTraverse_succ s fuel _).bind fun _ => .refl _)
  | intDec | intHex | parenOpen | parenClose | unknown => exact .refl _

theorem sxParseToken_returns {fuel : Nat} (h : sxParseToken fuel s n i = .ok res) :
    Returns (fun fuel => sxParseToken fuel s n i) res := by
  refine ⟨fuel, fun k hk => ?_⟩
  induction hk with
  | refl => exact h
  | step _ ih => exact sxParseToken_succ s n _ i _ ih

theorem parseInteger_atom {offset : Nat} {digitpredicate : Octet → Bool} {base : BitVec 64}
    {rv : SxNode × Nat} (h : parseInteger_ s n i offset digitpredicate base = .ok rv) :
    rv.1.isPair = false := by
  unfold parseInteger_ at h
  obtain ⟨j, -, h⟩ := bind_eq_ok h
  obtain ⟨broken, -, h⟩ := bind_eq_ok h
  cases broken with
  | true => exact Except.ok.inj h ▸ rfl
  | false =>
    obtain ⟨newi, -, h⟩ := bind_eq_ok h
    exact Except.ok.inj h ▸ rfl

theorem parseSymbol_atom {fuel : Nat} {rv : SxNode × Nat} (h : parseSymbol fuel s n i = .ok rv) :
    rv.1.isPair = false := by
  unfold parseSymbol sxMakeSymboln at h
  obtain ⟨j, -, h⟩ := bind_eq_ok h
  obtain ⟨broken, -, h⟩ := bind_eq_ok h
  cases broken with
  | true => exact Except.ok.inj h ▸ rfl
  | false =>
    obtain ⟨node, hnode, h⟩ := bind_eq_ok h
    obtain ⟨name, -, hnode⟩ := bind_eq_ok hnode
    rw [← Except.ok.inj h, ← Except.ok.inj hnode]
    rfl

/-- A token is no pair. -/
theorem sxParseToken_atom {fuel : Nat} (h : sxParseToken fuel s n i = .ok res) :
    res.node.isPair = false := by
  unfold sxParseToken at h
  obtain ⟨j, -, h⟩ := bind_eq_ok h
  split at h
  · exact Except.ok.inj h ▸ rfl
  obtain ⟨what, -, h⟩ := bind_eq_ok h
  cases what with
  | intDec | intHex =>
    obtain ⟨rv, hrv, rfl⟩ := map_eq_ok h
    exact parseInteger_atom hrv
  | symbol =>
    obtain ⟨rv, hrv, rfl⟩ := map_eq_ok h
    exact parseSymbol_atom hrv
  | parenOpen | parenClose | unknown => exact Except.ok.inj h ▸ rfl

theorem tokenResult_foundList {broken : SxStatus} {rv : SxNode × Nat} (hb : broken ≠ .foundList) :
    (tokenResult broken rv).status ≠ .foundList := by
  show (if rv.1.isNull then broken else .success) ≠ .foundList
  split
  · exact hb
  · exact nofun

/-- In front of a list there is no node. -/
theorem sxParseToken_foundList {fuel : Nat} (h : sxParseToken fuel s n i = .ok res)
    (hlist : res.status = .foundList) : res.node = .null := by
  unfold sxParseToken at h
  obtain ⟨j, -, h⟩ := bind_eq_ok h
  split at h
  · exact Except.ok.inj h ▸ rfl
  obtain ⟨what, -, h⟩ := bind_eq_ok h
  cases what with
  | intDec | intHex | symbol =>
    obtain ⟨rv, -, rfl⟩ := map_eq_ok h
    exact absurd hlist (tokenResult_foundList (by decide))
  | parenOpen | unknown => exact Except.ok.inj h ▸ rfl
  | parenClose =>
    rw [← Except.ok.inj h] at hlist
    cases hlist

theorem sxMakeToken_spec (h : node.isPair = false) :
    Spec 1 (fun _ => sxMakeToken node) (sxTree node) := by
  cases node with
  | null => exact .pure (fact_of rfl).ge
  | symbol name => exact sxMakeSymbol_spec name
  | integer n => exact sxMakeInteger_spec n
  | emptyList => exact sxMakeEmptyList_spec
  | pair t u => cases h

/-! ## 3. Expressions -/

/-- **The result has the node of `res` in memory**, and the same position and status. -/
def SxReturned (res : SxParseResult) (rv : SxNodeResult) : Assertion SxBlock :=
  fact (rv.position = res.position ∧ rv.status = res.status) * sxTree res.node rv.node

theorem le_sxReturned (res : SxParseResult) (rv : SxNodeResult) (hpos : rv.position = res.position)
    (hstatus : rv.status = res.status) : sxTree res.node rv.node ≤ SxReturned res rv := by
  unfold SxReturned
  rw [fact_of ⟨hpos, hstatus⟩, one_mul]

theorem nodeIsError_eq {rv : SxNodeResult} (hstatus : rv.status = res.status) :
    nodeIsError rv = resultIsError res := by
  unfold nodeIsError resultIsError
  rw [hstatus]

theorem sxParseTokenNode_spec {fuel : Nat} (h : sxParseToken fuel s n i = .ok res) :
    Spec 1 (fun fuel => sxParseTokenNode fuel s n i) (SxReturned res) := by
  refine .lift (sxParseToken_returns h) (.bind (sxMakeToken_spec (sxParseToken_atom h)) fun p => ?_)
  exact .pure (le_sxReturned res ⟨_, _, p⟩ rfl rfl)

variable {α : Type} {rv : SxNodeResult} {Q : α → Assertion SxBlock} {R : Assertion SxBlock}

/-- The predicate on the result in memory. -/
theorem nodeIsEmptyListp_rule {k : Bool → Nat → SxM α} (hstatus : rv.status = res.status)
    (h : Spec (sxTree res.node rv.node * R) (k (resultIsEmptyListp res)) Q) :
    Spec (sxTree res.node rv.node * R)
    (fun fuel => nodeIsEmptyListp rv >>= fun x => k x fuel) Q := by
  refine sxTree_isNone_rule fun hnone => ?_
  unfold nodeIsEmptyListp
  rw [hstatus, ← Option.not_isNone, hnone]
  by_cases hc : res.status = .success ∧ (!res.node.isNull) = true
  · have hempty : resultIsEmptyListp res = (res.node == .emptyList) := by
      rw [resultIsEmptyListp, hc.1, beq_self_eq_true, Bool.true_and]
    rw [if_pos hc]
    exact sxIsNull_rule (by simpa using hc.2) (hempty ▸ h)
  · have hempty : resultIsEmptyListp res = false := by
      rw [resultIsEmptyListp, Bool.and_eq_false_iff]
      by_cases hs : res.status = .success
      · have hnull : res.node.isNull = true := by simpa [hs] using hc
        exact .inr (by rw [SxNode.eq_null hnull]; rfl)
      · exact .inl (beq_eq_false_iff_ne.mpr hs)
    rw [if_neg hc]
    simpa only [pure_bind, hempty] using h

/-- The functions that call each other. -/
def sxRunNode : SxPart → Nat → SxText → Nat → Nat → SxM SxNodeResult
  | .datum => sxParseNode_
  | .rest => sxParseListNode

/-- **What is read is in memory**, and nothing else is. -/
theorem sxRunNode_spec (fuel : Nat) : ∀ (part : SxPart) (i : Nat) (res : SxParseResult),
    sxRun part fuel s n i = .ok res → Spec 1 (fun fuel => sxRunNode part fuel s n i)
      (SxReturned res) := by
  induction fuel with
  | zero =>
    intro part i res h
    cases part <;> cases h
  | succ fuel ih =>
    intro part i res h
    cases part with
    | datum =>
      obtain ⟨rv, hrv, h⟩ := bind_eq_ok h
      refine .step (.bind (sxParseTokenNode_spec hrv) fun rvn => .known fun heq => ?_) fun _ => rfl
      obtain ⟨hpos, hstatus⟩ := heq
      rw [hpos, hstatus]
      split at h
      · -- the node of an opening parenthesis is NULL
        rename_i hlist
        simp only [hlist, if_true]
        rw [sxParseToken_foundList hrv hlist, ← mul_one (sxTree _ _)]
        exact sxTree_null_rule fun _ => ih .rest _ _ h
      · rename_i hlist
        simp only [hlist, if_false]
        rw [← mul_one (sxTree _ _)]
        refine sxTree_isNone_rule fun hnone => ?_
        rw [hnone, mul_one]
        split at h
        · rename_i hend
          obtain rfl := Except.ok.inj h
          simp only [hend, and_self, if_true]
          exact .pure (le_sxReturned ⟨rv.position, .unexpectedEnd, rv.node⟩
            ⟨rv.position, .unexpectedEnd, rvn.node⟩ rfl rfl)
        · rename_i hend
          obtain rfl := Except.ok.inj h
          simp only [hend, if_false]
          exact .pure (le_sxReturned rv rvn hpos hstatus)
    | rest =>
      rw [sxRun, sxParseList] at h
      split at h
      · rename_i hi
        obtain rfl := Except.ok.inj h
        refine .step ?_ fun _ => rfl
        simp only [sxRunNode, sxParseListNode, hi, if_true]
        show Spec _ _ (SxReturned ⟨0, .unexpectedEnd, .null⟩)
        exact .pure (sxTree_none.ge.trans
          (le_sxReturned ⟨0, .unexpectedEnd, .null⟩ ⟨0, .unexpectedEnd, none⟩ rfl rfl))
      · rename_i hi
        obtain ⟨carres, hcar, h⟩ := bind_eq_ok h
        refine .step ?_ fun _ => rfl
        simp only [sxRunNode, sxParseListNode, hi, if_false]
        refine .bind (ih .datum i carres hcar) fun carn => .known fun heq => ?_
        obtain ⟨hpos, hstatus⟩ := heq
        rw [← mul_one (sxTree _ _)]
        refine nodeIsEmptyListp_rule hstatus ?_
        rw [nodeIsError_eq hstatus]
        split at h
        · rename_i hstop
          obtain rfl := Except.ok.inj h
          simp only [hstop, if_true]
          rw [mul_one]
          exact .pure (le_sxReturned carres carn hpos hstatus)
        · rename_i hgo
          obtain ⟨cdrres, hcdr, h⟩ := bind_eq_ok h
          obtain rfl := Except.ok.inj h
          simp only [hgo]
          rw [hpos, mul_comm]
          refine .call (ih .rest _ _ hcdr) fun cdrn => ?_
          unfold SxReturned
          rw [mul_assoc]
          refine .known fun heq => ?_
          rw [mul_comm]
          exact .bind sxCons_spec fun cons => .pure
            (le_sxReturned ⟨_, _, _⟩ ⟨_, _, cons⟩ heq.1 heq.2)

theorem sxParseNode_spec {fuel : Nat} (h : sxParse fuel s n i = .ok res) :
    Spec 1 (fun fuel => sxParseNode fuel s n i) (SxReturned res) := by
  obtain ⟨rv, hrv, h⟩ := bind_eq_ok h
  obtain rfl := Except.ok.inj h
  refine .bind (sxRunNode_spec fuel .datum i rv hrv) fun rvn => .known fun heq => ?_
  obtain ⟨hpos, hstatus⟩ := heq
  rw [nodeIsError_eq hstatus]
  by_cases herr : resultIsError rv = true
  · simp only [herr, if_true]
    rw [← mul_one (sxTree _ _)]
    refine .call sxDestroy_spec fun left => .known fun hleft => .pure ?_
    rw [hleft]
    exact sxTree_none.ge.trans
      (le_sxReturned ⟨rv.position, rv.status, .null⟩ ⟨_, _, none⟩ hpos hstatus)
  · simp only [herr]
    exact .pure (le_sxReturned rv rvn hpos hstatus)

/-- There is no node beside an error. -/
theorem sxParse_error {fuel : Nat} (h : sxParse fuel s n i = .ok res)
    (herr : resultIsError res = true) : res.node = .null := by
  obtain ⟨rv, -, h⟩ := bind_eq_ok h
  obtain rfl := Except.ok.inj h
  by_cases hrv : resultIsError rv = true
  · rw [if_pos hrv]
  · rw [if_neg hrv] at herr
    exact absurd herr hrv

/-- **What `sx_parse` returns is in memory, and nothing else is**: the position and the status, and
    a pointer to the tree that was read. Of a text that is not accepted no block is left, and
    neither is one of any text once its tree is destroyed. -/
theorem sxParse_memory (s : SxText) (n i fuel : Nat) (res : SxParseResult)
    (h : sxParse fuel s n i = .ok res) :
    Spec 1 (fun fuel => sxParseNode fuel s n i) (SxReturned res) ∧
    (resultIsError res = true → ∀ heap, ∃ rv heap',
      Returns (fun fuel => sxParseNode fuel s n i heap) (rv, heap') ∧
        rv.node = none ∧ heap'.blocks = heap.blocks) ∧
    ∀ heap, ∃ left heap',
      Returns (fun fuel => (sxParseNode fuel s n i >>= fun rv => sxDestroy fuel rv.node) heap)
        (left, heap') ∧ left = none ∧ heap'.blocks = heap.blocks := by
  have hspec := sxParseNode_spec h
  refine ⟨hspec, fun herr => ?_, ?_⟩
  · refine (hspec.post fun rv => ?_).leaves
    unfold SxReturned
    rw [sxParse_error h herr, sxTree_null]
    exact fact_mul_le fun _ => le_rfl
  · exact (hspec.bind fun rv => .known fun _ => sxDestroy_spec).leaves

end Tokens

/-- Two lists that are not closed: what was read of them is freed. -/
theorem sxParse_memory_open :
    Spec 1 (fun fuel => sxParseNode fuel
        (sxMemory (['(', 'a', ' ', '(', '1'].map sxChar ++ [0])) 5 0)
      (SxReturned ⟨0, .unexpectedEnd, .null⟩) :=
  (sxParse_memory (sxMemory (['(', 'a', ' ', '(', '1'].map sxChar ++ [0])) 5 0 9
    ⟨0, .unexpectedEnd, .null⟩ (by decide)).1

end Ufw
