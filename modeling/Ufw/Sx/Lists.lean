/-
  File:      Ufw/Sx/Lists.lean
  Subject:   LISTS IN MEMORY: the functions that walk along one, and a list that is used as a queue.

  * `sxIsList_spec`, `sxForeach_spec`, `sxCxr_spec` -- what is read agrees with the tree, and the
    tree is left as it was;
  * `SxCall.Queue` -- the calls a program makes on a list it uses as a queue;
  * `sxQueue_run` -- **such a list is one**: what is taken off it, in order, is what was appended.
-/
import Ufw.Sx.Caller

namespace Ufw

open Base Base.Assertion

/-! ## 1. Lists -/

/-- `sx_is_list`, on trees. -/
def SxNode.isList : SxNode → Bool
  | emptyList => true
  | pair _ cdr => cdr.isList
  | null | symbol _ | integer _ => false

/-- The elements of a list, up to what ends it. -/
def SxNode.items : SxNode → List SxNode
  | pair car cdr => car :: cdr.items
  | null | symbol _ | integer _ | emptyList => []

theorem SxNode.items_atom {t : SxNode} (h : t.isPair = false) : t.items = [] := by
  cases t with
  | pair car cdr => cases h
  | null | symbol _ | integer _ | emptyList => rfl

section Walks

variable {t u : SxNode} {p : SxPtr} {α : Type} {Q : α → Assertion SxBlock} {R : Assertion SxBlock}

/-- The cdr of a pair, and the pair without it: any tree fits in its place. -/
theorem sxCdrUnsafe_rule {k : SxPtr → Nat → SxM α}
    (h : ∀ cdr C, (∀ w, C * sxTree w cdr ≤ sxTree (.pair t w) p) →
      Spec (sxTree u cdr * (C * R)) (k cdr) Q) :
    Spec (sxTree (.pair t u) p * R) (fun fuel => sxCdrUnsafe p >>= fun x => k x fuel) Q := by
  refine sxTree_pair_rule fun a b car cdr hp => ?_
  subst hp
  refine sxCdrUnsafe_at ?_
  have horder : single a (SxBlock.node (.pair (some b))) *
      (single b (SxBlock.pair car cdr) * (sxTree t car * (sxTree u cdr * R))) =
      sxTree u cdr * (single a (.node (.pair (some b))) *
        (single b (.pair car cdr) * sxTree t car) * R) := by ac_rfl
  rw [horder]
  refine h cdr _ fun w => ?_
  rw [mul_assoc, mul_assoc]
  exact le_sxTree_pair

/-- The car of a pair, and the pair without it: any tree fits in its place. -/
theorem sxCarUnsafe_rule {k : SxPtr → Nat → SxM α}
    (h : ∀ car C, (∀ w, C * sxTree w car ≤ sxTree (.pair w u) p) →
      Spec (sxTree t car * (C * R)) (k car) Q) :
    Spec (sxTree (.pair t u) p * R) (fun fuel => sxCarUnsafe p >>= fun x => k x fuel) Q := by
  refine sxTree_pair_rule fun a b car cdr hp => ?_
  subst hp
  refine sxCarUnsafe_at ?_
  have horder : single a (SxBlock.node (.pair (some b))) *
      (single b (SxBlock.pair car cdr) * (sxTree t car * (sxTree u cdr * R))) =
      sxTree t car * (single a (.node (.pair (some b))) *
        (single b (.pair car cdr) * sxTree u cdr) * R) := by ac_rfl
  rw [horder]
  refine h car _ fun w => ?_
  rw [mul_assoc, mul_assoc, mul_comm (sxTree u cdr)]
  exact le_sxTree_pair

/-- **`sx_is_list` tells whether a tree is a list.** -/
theorem sxIsList_spec (h : t.spineEnds = true) : Spec (sxTree t p) (fun fuel => sxIsList fuel p)
    fun isList => fact (isList = t.isList) * sxTree t p := by
  induction t generalizing p with
  | null => cases h
  | emptyList =>
    rw [← mul_one (sxTree _ _)]
    refine .step (sxIsNull_rule rfl (.pure ?_)) fun _ => rfl
    rw [SxNode.isList, fact_of rfl, one_mul]
  | symbol _ | integer _ =>
    rw [← mul_one (sxTree _ _)]
    refine .step (sxIsNull_rule rfl (sxIsPair_rule rfl (.pure ?_))) fun _ => rfl
    rw [SxNode.isList, fact_of rfl, one_mul]
  | pair x u _ ih =>
    rw [← mul_one (sxTree _ _)]
    refine .step (sxIsNull_rule rfl (sxIsPair_rule rfl (sxCdrUnsafe_rule fun cdr C hC => ?_)))
      fun _ => rfl
    rw [mul_one, mul_one]
    refine ((ih h).frame C).post fun isList => ?_
    rw [mul_assoc, mul_comm _ C]
    exact mul_le_mul_right (hC u) _

/-- The part of a tree an address leads to, its octets taken from the last one to the first. -/
def SxNode.part : List Octet → SxNode → Option SxNode
  | [], t => some t
  | c :: addr, pair car cdr =>
    if c = sxChar 'a' then car.part addr else if c = sxChar 'd' then cdr.part addr else none
  | _ :: _, null | _ :: _, symbol _ | _ :: _, integer _ | _ :: _, emptyList => none

/-- The tree with another one in the place an address leads to. -/
def SxNode.place : List Octet → SxNode → SxNode → SxNode
  | [], _, u => u
  | c :: addr, pair car cdr, u =>
    if c = sxChar 'a' then pair (car.place addr u) cdr
    else if c = sxChar 'd' then pair car (cdr.place addr u) else pair car cdr
  | _ :: _, t@null, _ | _ :: _, t@(symbol _), _ | _ :: _, t@(integer _), _
  | _ :: _, t@emptyList, _ => t

/-- The part put back in its place. -/
theorem SxNode.place_part {addr : List Octet} (h : t.part addr = some u) : t.place addr u = t := by
  induction addr generalizing t with
  | nil => exact (Option.some.inj h).symm
  | cons c addr ih =>
    cases t with
    | null | symbol _ | integer _ | emptyList => cases h
    | pair car cdr =>
      rw [part] at h
      rw [place]
      by_cases ha : c = sxChar 'a'
      · rw [if_pos ha] at h ⊢
        rw [ih h]
      · rw [if_neg ha] at h ⊢
        by_cases hd : c = sxChar 'd'
        · rw [if_pos hd] at h ⊢
          rw [ih h]
        · rw [if_neg hd] at h
          cases h

/-- No NULL pointer is followed on the way. -/
def SxNode.partThere : List Octet → SxNode → Bool
  | [], _ => true
  | c :: addr, pair car cdr =>
    if c = sxChar 'a' then car.partThere addr
    else if c = sxChar 'd' then cdr.partThere addr else true
  | _ :: _, null => false
  | _ :: _, symbol _ | _ :: _, integer _ | _ :: _, emptyList => true

/-- A pointer into a tree: NULL, or to the part in the place its address leads to, beside the rest.
    The place is the one where another tree at that pointer would stand. -/
def sxInside (t : SxNode) (p : SxPtr) (addr : List Octet) (r : SxPtr) : Assertion SxBlock :=
  (t.part addr).elim (fact (r = none) * sxTree t p) fun u =>
    ⨆ C : Assertion SxBlock,
      fact (∀ w, C * sxTree w r ≤ sxTree (t.place addr w) p) * (C * sxTree u r)

/-- The part and the rest are the tree. -/
theorem sxInside_le {addr : List Octet} {r : SxPtr} : sxInside t p addr r ≤ sxTree t p := by
  unfold sxInside
  cases hpart : t.part addr with
  | none => exact fact_mul_le fun _ => le_rfl
  | some u =>
    refine iSup_le fun C => fact_mul_le fun hC => ?_
    calc C * sxTree u r ≤ sxTree (t.place addr u) p := hC u
      _ = sxTree t p := by rw [SxNode.place_part hpart]

/-- A pointer into a part is one into the whole. -/
theorem sxInside_mul {C : Assertion SxBlock} {addr addr' : List Octet} {q r : SxPtr}
    (hpart : t.part addr' = u.part addr)
    (hC : ∀ w, C * sxTree (u.place addr w) q ≤ sxTree (t.place addr' w) p)
    (ht : C * sxTree u q ≤ sxTree t p) : sxInside u q addr r * C ≤ sxInside t p addr' r := by
  unfold sxInside
  rw [hpart]
  cases u.part addr with
  | none =>
    rw [Option.elim_none, Option.elim_none, mul_assoc, mul_comm _ C]
    exact mul_le_mul_right ht _
  | some v =>
    rw [Option.elim_some, Option.elim_some, Quantale.iSup_mul_distrib]
    refine iSup_le fun D => ?_
    rw [mul_assoc]
    refine fact_mul_le fun hD => le_iSup_of_le (C * D) ?_
    rw [fact_of, one_mul]
    · exact (by ac_rfl : _ = _).le
    · intro w
      rw [mul_assoc]
      exact le_trans (mul_le_mul_right (hD w) _) (hC w)

theorem sxCxrLoop_spec {addr : List Octet} (h : t.partThere addr = true) :
    Spec (sxTree t p) (fun _ => sxCxrLoop addr p) (sxInside t p addr) := by
  induction addr generalizing t p with
  | nil =>
    refine .pure ?_
    unfold sxInside
    refine le_iSup_of_le 1 ?_
    have hplace : ∀ w, 1 * sxTree w p ≤ sxTree (SxNode.place [] t w) p := fun w => (one_mul _).le
    rw [fact_of hplace, one_mul, one_mul]
  | cons c addr ih =>
    rw [← mul_one (sxTree t p)]
    cases t with
    | null => cases h
    | symbol _ | integer _ | emptyList =>
      unfold sxCxrLoop
      refine sxIsPair_rule rfl ?_
      simp only [SxNode.isPair, if_true]
      refine .pure ?_
      rw [sxInside, SxNode.part, Option.elim_none, fact_of rfl, one_mul, mul_one]
    | pair car cdr =>
      unfold sxCxrLoop
      refine sxIsPair_rule rfl ?_
      simp only [SxNode.isPair, Bool.true_eq_false, if_false]
      rw [SxNode.partThere] at h
      by_cases ha : c = sxChar 'a'
      · rw [if_pos ha] at h
        simp only [ha, if_true]
        refine sxCarUnsafe_rule fun q C hC => ?_
        rw [mul_one]
        refine ((ih h).frame C).post fun r => sxInside_mul ?_ (fun w => ?_) (hC car)
        · rw [SxNode.part, if_pos rfl]
        · rw [SxNode.place, if_pos rfl]
          exact hC _
      · rw [if_neg ha] at h
        simp only [ha, if_false]
        by_cases hd : c = sxChar 'd'
        · rw [if_pos hd] at h
          simp only [hd, if_true]
          refine sxCdrUnsafe_rule fun q C hC => ?_
          rw [mul_one]
          rw [hd] at ha
          refine ((ih h).frame C).post fun r => sxInside_mul ?_ (fun w => ?_) (hC cdr)
          · rw [SxNode.part, if_neg ha, if_pos rfl]
          · rw [SxNode.place, if_neg ha, if_pos rfl]
            exact hC _
        · simp only [hd, if_false]
          refine .pure ?_
          rw [sxInside, SxNode.part, if_neg ha, if_neg hd, Option.elim_none, fact_of rfl, one_mul,
            mul_one]

/-- **`sx_cxr` finds the part of a tree its address leads to**, or returns NULL, and leaves the tree
    as it was. -/
theorem sxCxr_spec {addr : List Octet} (h : t.partThere addr.reverse = true) :
    Spec (sxTree t p) (fun _ => sxCxr p addr) (sxInside t p addr.reverse) ∧
      ∀ r, sxInside t p addr.reverse r ≤ sxTree t p :=
  ⟨sxCxrLoop_spec h, fun _ => sxInside_le⟩

variable {τ : Type} {f : SxPtr → τ → SxM τ} {I : List SxNode → τ → Assertion SxBlock}

/-- The loop of `sx_foreach`, from a state in which the elements `done` have been visited. -/
theorem sxForeachLoop_spec
    (hf : ∀ done t p arg, Spec (sxTree t p * I done arg) (fun _ => f p arg)
      fun arg => sxTree t p * I (done ++ [t]) arg)
    (h : t.spineEnds = true) (done : List SxNode) (arg : τ) :
    Spec (sxTree t p * I done arg) (fun fuel => sxForeachLoop f fuel p arg)
      fun arg => sxTree t p * I (done ++ t.items) arg := by
  induction t generalizing p done arg with
  | null => cases h
  | symbol _ | integer _ | emptyList =>
    refine .step (sxIsPair_rule rfl (.pure ?_)) fun _ => rfl
    rw [SxNode.items, List.append_nil]
  | pair x u _ ih =>
    refine .step (sxIsPair_rule rfl ?_) fun _ => rfl
    refine sxTree_pair_rule fun a b car cdr hp => ?_
    subst hp
    refine sxCarUnsafe_at ?_
    -- the callback has the first element and what it keeps
    have horder : single a (SxBlock.node (.pair (some b))) *
        (single b (SxBlock.pair car cdr) * (sxTree x car * (sxTree u cdr * I done arg))) =
        sxTree x car * I done arg * (single a (.node (.pair (some b))) *
          (single b (.pair car cdr) * sxTree u cdr)) := by ac_rfl
    rw [horder]
    refine .call (hf done x car arg) fun arg => ?_
    rw [mul_comm, mul_assoc, mul_assoc]
    refine sxCdrUnsafe_at ?_
    -- the rest of the list
    have horder : single a (SxBlock.node (.pair (some b))) *
        (single b (SxBlock.pair car cdr) * (sxTree u cdr * (sxTree x car * I (done ++ [x]) arg))) =
        sxTree u cdr * I (done ++ [x]) arg * (single a (.node (.pair (some b))) *
          (single b (.pair car cdr) * sxTree x car)) := by ac_rfl
    rw [horder]
    refine ((ih h (done ++ [x]) arg).frame _).post fun arg => ?_
    rw [List.append_assoc, List.singleton_append]
    calc _ = single a (SxBlock.node (.pair (some b))) *
          (single b (SxBlock.pair car cdr) * (sxTree x car * sxTree u cdr)) *
            I (done ++ x :: u.items) arg := by ac_rfl
      _ ≤ _ := mul_le_mul_left le_sxTree_pair _

/-- **`sx_foreach` calls its callback on the elements of a list, in order**, and leaves the list as
    it was: what each call keeps, given the element it is called on, is there behind the last
    one. -/
theorem sxForeach_spec
    (hf : ∀ done t p arg, Spec (sxTree t p * I done arg) (fun _ => f p arg)
      fun arg => sxTree t p * I (done ++ [t]) arg)
    (h : t.spineEnds = true) (arg : τ) :
    Spec (sxTree t p * I [] arg) (fun fuel => sxForeach f fuel p arg)
      fun arg => sxTree t p * I t.items arg := by
  unfold sxForeach
  refine sxIsPair_rule (SxNode.isNull_of_spineEnds h) ?_
  cases hpair : t.isPair with
  | true =>
    simp only [Bool.true_eq_false, if_false]
    exact sxForeachLoop_spec hf h [] arg
  | false =>
    simp only [if_true]
    refine .pure ?_
    rw [SxNode.items_atom hpair]

end Walks

/-- A list of two. -/
abbrev sxTwo : SxNode := .pair (.integer 1) (.pair (.integer 2) .emptyList)

/-- The second element. -/
theorem sxCxr_spec_second :
    Spec (sxTree sxTwo (some 0)) (fun _ => sxCxr (some 0) [sxChar 'a', sxChar 'd'])
        (sxInside sxTwo (some 0) [sxChar 'd', sxChar 'a']) ∧
      ∀ r, sxInside sxTwo (some 0) [sxChar 'd', sxChar 'a'] r ≤ sxTree sxTwo (some 0) :=
  sxCxr_spec (by decide)

/-- The callback counts. -/
theorem sxForeach_spec_count : Spec (sxTree sxTwo (some 0) * fact (0 = ([] : List SxNode).length))
    (fun fuel => sxForeach (fun _ n => pure (n + 1)) fuel (some 0) 0)
    fun n => sxTree sxTwo (some 0) * fact (n = sxTwo.items.length) := by
  refine sxForeach_spec (I := fun done n => fact (n = done.length)) (fun done t p n => ?_) rfl 0
  rw [mul_comm]
  refine .known fun hn => .pure ?_
  rw [fact_of (by rw [hn, List.length_append, List.length_singleton]), mul_one]

/-! ## 2. A list as a queue -/

/-- What is appended to the list in `q`. -/
def SxCall.came {ι : Type} [DecidableEq ι] (q : ι) (vals : ι → SxNode) : SxCall ι → List SxNode
  | .append v a b => if v = q ∧ a = q then (vals b).items else []
  | .integer .. | .symbol .. | .emptyList .. | .cons .. | .pop .. | .destroy .. => []

/-- What is taken off the list in `q`. -/
def SxCall.went {ι : Type} [DecidableEq ι] (q : ι) (vals : ι → SxNode) : SxCall ι → List SxNode
  | .pop _ r => if r = q then [(vals q).pop.1] else []
  | .integer .. | .symbol .. | .emptyList .. | .cons .. | .append .. | .destroy .. => []

/-- **The calls on a list that is a queue**: a list is appended, an element is taken off unless
    there is none, and other calls leave the elements alone. -/
def SxCall.Queue {ι : Type} [DecidableEq ι] (q : ι) (vals : ι → SxNode) (c : SxCall ι) : Prop :=
  (∃ b, c = .append q q b ∧ (vals q).isList = true ∧ (vals b).isList = true) ∨
  (∃ v, c = .pop v q ∧ v ≠ q ∧ (vals q).isPair = true) ∨
  ((c.apply vals q).items = (vals q).items ∧ c.came q vals = [] ∧ c.went q vals = [])

section Queue

variable {ι : Type} [DecidableEq ι] {q : ι} {vals : ι → SxNode} {t u : SxNode} {c : SxCall ι}

theorem SxNode.items_graft : (t.graft u).items = t.items ++ u.items := by
  induction t with
  | pair car cdr _ ih => rw [graft, items, ih, items, List.cons_append]
  | null | symbol _ | integer _ | emptyList => rfl

/-- Lists are appended. -/
theorem SxNode.items_append (ht : t.isList = true) (hu : u.isList = true) :
    ∃ w, t.append u = some w ∧ w.items = t.items ++ u.items := by
  cases t with
  | null | symbol _ | integer _ => cases ht
  | emptyList =>
    cases u with
    | null | symbol _ | integer _ => cases hu
    | emptyList => exact ⟨_, rfl, rfl⟩
    | pair a d => exact ⟨_, rfl, rfl⟩
  | pair x y =>
    cases u with
    | null | symbol _ | integer _ => cases hu
    | emptyList => exact ⟨_, rfl, (List.append_nil _).symm⟩
    | pair a d => exact ⟨_, rfl, items_graft⟩

/-- **A call keeps the queue.** -/
theorem SxCall.Queue.conserved (h : c.Queue q vals) :
    Conserved (vals q).items (c.came q vals) (c.went q vals) (c.apply vals q).items := by
  rcases h with ⟨b, rfl, hq, hb⟩ | ⟨v, rfl, hv, hpair⟩ | ⟨hkept, hcame, hwent⟩
  · obtain ⟨w, happ, hitems⟩ := SxNode.items_append hq hb
    show [] ++ (apply vals (.append q q b) q).items = (vals q).items ++ came q vals (.append q q b)
    simp only [apply, happ, came, and_self, if_true, Function.update_self, hitems, List.nil_append]
  · obtain ⟨car, cdr, heq⟩ := SxNode.eq_pair hpair
    show went q vals (.pop v q) ++ (apply vals (.pop v q) q).items = (vals q).items ++ []
    simp only [apply, went, if_true, Function.update_of_ne hv.symm, Function.update_self, heq,
      SxNode.pop, SxNode.items, List.append_nil, List.singleton_append]
  · rw [hkept, hcame, hwent]
    exact .refl _

/-- **A list that is appended to and popped from is a queue**, in memory: in every run of such
    calls, what is taken off the list, and what is on it at the end, is what was appended, in order;
    and every variable points to its tree. -/
theorem sxQueue_run [Fintype ι] (q : ι) (calls : List (SxCall ι))
    (h : Along SxCall.step SxCall.Allowed (fun _ => .null) calls)
    (hq : Along SxCall.step (fun vals c => c.Queue q vals) (fun _ => .null) calls) :
    ∃ vars heap, Returns (fun fuel => SxCall.runAll fuel calls (fun _ => none) (.empty SxBlock))
        (vars, heap) ∧
      (sxVars (after SxCall.step (fun _ => .null) calls) vars).Holds heap.blocks ∧
      Conserved [] ((trace SxCall.step (fun _ => .null) calls).flatMap fun c => c.2.came q c.1)
        ((trace SxCall.step (fun _ => .null) calls).flatMap fun c => c.2.went q c.1)
        (after SxCall.step (fun _ => .null) calls q).items := by
  obtain ⟨vars, heap, hret, hpost⟩ := SxCall.runAll_returns calls h
  refine ⟨vars, heap, hret, hpost, ?_⟩
  exact @Conserved.run _ _ _ _ _
    (fun vals => (vals q).items) _ _ _ _ fun c hc => (hq c hc).conserved

end Queue

/-- An empty list is made, and one of an integer; it is appended, and the integer is taken off. -/
abbrev sxQueueCalls : List (SxCall (Option Bool)) :=
  [.emptyList none, .integer (some false) 7#64, .emptyList (some true),
    .cons (some false) (some false) (some true), .append none none (some false),
    .pop (some false) none]

theorem sxQueue_run_sample :
    ∃ vars heap, Returns (fun fuel => SxCall.runAll fuel sxQueueCalls (fun _ => none)
        (.empty SxBlock)) (vars, heap) ∧
      (sxVars (after SxCall.step (fun _ => .null) sxQueueCalls) vars).Holds heap.blocks ∧
      Conserved [] [SxNode.integer 7#64] [SxNode.integer 7#64] [] := by
  have hother : ∀ {vals : Option Bool → SxNode} {c : SxCall (Option Bool)},
      (c.apply vals none).items = (vals none).items → c.came none vals = [] →
        c.went none vals = [] → c.Queue none vals :=
    fun h hcame hwent => .inr (.inr ⟨h, hcame, hwent⟩)
  exact sxQueue_run none sxQueueCalls (by decide) (along_cons.mpr ⟨hother rfl rfl rfl,
    along_cons.mpr ⟨hother rfl rfl rfl, along_cons.mpr ⟨hother rfl rfl rfl,
    along_cons.mpr ⟨hother rfl rfl rfl, along_cons.mpr ⟨.inl ⟨some false, rfl, rfl, rfl⟩,
    along_cons.mpr ⟨.inr (.inl ⟨some false, rfl, by decide, rfl⟩), .nil _ _⟩⟩⟩⟩⟩⟩)

end Ufw
