/-
  File:      Ufw/Sx/Ownership.lean
  Subject:   WHO OWNS THE BLOCKS OF AN S-EXPRESSION.

  * `sxTree t p` -- **`p` points to the tree `t`**: these blocks, and no others, belong to it;
  * `sxTree_count` -- how many blocks a tree has;
  * `sxDestroy_spec` … `sxAppend_spec` -- what each function is given, and what it leaves.
-/
import Ufw.Sx.Memory

namespace Ufw

open Base Base.Assertion

/-! ## 1. Trees -/

/-- A pointer: NULL, or to a node with some data, `D` being about the blocks behind it. -/
def sxPointer (isNull : Bool) (D : SxData → Assertion SxBlock) (p : SxPtr) : Assertion SxBlock :=
  if isNull then fact (p = none)
  else ⨆ x : Nat × SxData, fact (p = some x.1) * (single x.1 (.node x.2) * D x.2)

/-- The blocks behind a node with the data `data`, for a tree. -/
def sxBehind : SxNode → SxData → Assertion SxBlock
  | .null, _ => ⊥
  | .integer n, data => fact (data = .integer n)
  | .emptyList, data => fact (data = .emptyList)
  | .symbol name, data =>
    ⨆ a : Nat, fact (data = .symbol (some a)) * single a (.string name)
  | .pair t u, data =>
    ⨆ x : Nat × SxPtr × SxPtr, fact (data = .pair (some x.1)) *
      (single x.1 (.pair x.2.1 x.2.2) *
        (sxPointer t.isNull (sxBehind t) x.2.1 * sxPointer u.isNull (sxBehind u) x.2.2))

/-- **`p` points to the tree `t`**, and these are its blocks. -/
def sxTree (t : SxNode) (p : SxPtr) : Assertion SxBlock := sxPointer t.isNull (sxBehind t) p

/-- Whether it is a pair. -/
def SxNode.isPair : SxNode → Bool
  | pair _ _ => true
  | null | symbol _ | integer _ | emptyList => false

theorem SxNode.eq_null {t : SxNode} (h : t.isNull = true) : t = null := by
  cases t with
  | null => rfl
  | symbol _ | integer _ | emptyList | pair _ _ => cases h

theorem SxNode.eq_pair {t : SxNode} (h : t.isPair = true) : ∃ car cdr, t = pair car cdr := by
  cases t with
  | pair car cdr => exact ⟨car, cdr, rfl⟩
  | null | symbol _ | integer _ | emptyList => cases h

section Trees

variable {α : Type} {t u : SxNode} {p : SxPtr} {f : Nat → SxM α} {Q : α → Assertion SxBlock}
  {R : Assertion SxBlock} {n : BitVec 64} {name : List Octet} {data : SxData} {a b : Nat}
  {car cdr : SxPtr}

theorem sxTree_null : sxTree .null p = fact (p = none) := rfl

theorem sxTree_none : sxTree .null none = 1 := fact_of rfl

theorem sxTree_node (ht : t.isNull = false) :
    sxTree t p = ⨆ x : Nat × SxData,
      fact (p = some x.1) * (single x.1 (.node x.2) * sxBehind t x.2) := by
  rw [sxTree, sxPointer, ht, if_neg Bool.false_ne_true]

theorem sxBehind_pair : sxBehind (.pair t u) data = ⨆ x : Nat × SxPtr × SxPtr,
    fact (data = .pair (some x.1)) *
      (single x.1 (.pair x.2.1 x.2.2) * (sxTree t x.2.1 * sxTree u x.2.2)) := rfl

/-- A node and what is behind it. -/
theorem le_sxTree (data : SxData) (ht : t.isNull = false) :
    single a (.node data) * sxBehind t data ≤ sxTree t (some a) := by
  rw [sxTree_node ht]
  refine le_iSup_of_le (a, data) ?_
  rw [fact_of rfl, one_mul]

theorem le_sxTree_integer : single a (.node (.integer n)) ≤ sxTree (.integer n) (some a) := by
  refine le_trans ?_ (le_sxTree (.integer n) rfl)
  rw [sxBehind, fact_of rfl, mul_one]

theorem le_sxTree_emptyList : single a (.node .emptyList) ≤ sxTree .emptyList (some a) := by
  refine le_trans ?_ (le_sxTree .emptyList rfl)
  rw [sxBehind, fact_of rfl, mul_one]

theorem le_sxTree_symbol :
    single a (.node (.symbol (some b))) * single b (.string name) ≤
    sxTree (.symbol name) (some a) := by
  refine le_trans (mul_le_mul_right ?_ _) (le_sxTree (.symbol (some b)) rfl)
  refine le_iSup_of_le b ?_
  rw [fact_of rfl, one_mul]

theorem le_sxTree_pair :
    single a (.node (.pair (some b))) * (single b (.pair car cdr) * (sxTree t car * sxTree u cdr)) ≤
      sxTree (.pair t u) (some a) := by
  refine le_trans (mul_le_mul_right ?_ _) (le_sxTree (.pair (some b)) rfl)
  rw [sxBehind_pair]
  refine le_iSup_of_le (b, car, cdr) ?_
  rw [fact_of rfl, one_mul]

/-- A tree that is given: its node, and what is behind it. -/
theorem sxTree_rule (ht : t.isNull = false)
    (h : ∀ a data, p = some a → Spec (single a (.node data) * (sxBehind t data * R)) f Q) :
    Spec (sxTree t p * R) f Q := by
  rw [sxTree_node ht, Quantale.iSup_mul_distrib]
  refine .alternatives fun x => ?_
  rw [mul_assoc]
  refine .known fun hp => ?_
  rw [mul_assoc]
  exact h x.1 x.2 hp

/-- A pair that is given: its two blocks, and the two trees. -/
theorem sxTree_pair_rule
    (h : ∀ a b car cdr, p = some a → Spec (single a (.node (.pair (some b))) *
      (single b (.pair car cdr) * (sxTree t car * (sxTree u cdr * R)))) f Q) :
    Spec (sxTree (.pair t u) p * R) f Q := by
  refine sxTree_rule rfl fun a data hp => ?_
  rw [mul_left_comm, sxBehind_pair, Quantale.iSup_mul_distrib]
  refine .alternatives fun x => ?_
  rw [mul_assoc]
  refine .known fun hdata => ?_
  rw [mul_left_comm, hdata]
  simp only [mul_assoc]
  exact h a x.1 x.2.1 x.2.2 hp

/-- A pointer is NULL if there is no tree. -/
theorem sxTree_isNone_rule (h : p.isNone = t.isNull → Spec (sxTree t p * R) f Q) :
    Spec (sxTree t p * R) f Q := by
  have hle : sxTree t p ≤ fact (p.isNone = t.isNull) * sxTree t p := by
    refine le_fact_mul fun m hm => ?_
    cases ht : t.isNull with
    | true =>
      rw [SxNode.eq_null ht] at hm
      rw [hm.1]
      rfl
    | false =>
      rw [sxTree_node ht] at hm
      obtain ⟨x, hx⟩ := iSup_iff.mp hm
      rw [(fact_mul_iff.mp hx).1]
      rfl
  refine (Spec.known h).conseq ?_ fun _ => le_rfl
  rw [← mul_assoc]
  exact mul_le_mul_left hle R

/-- A NULL pointer. -/
theorem sxTree_null_rule (h : p = none → Spec R f Q) : Spec (sxTree .null p * R) f Q := .known h

end Trees

/-! ## 2. Following pointers -/

section Rules

variable {α : Type} {f : Nat → SxM α} {Q : α → Assertion SxBlock} {R : Assertion SxBlock}
  {data : SxData} {a c : Nat} {b : SxBlock} {car cdr p : SxPtr} {t : SxNode}

theorem sxNode_rule {k : SxData → Nat → SxM α} (h : Spec (single a (.node data) * R) (k data) Q) :
    Spec (single a (.node data) * R) (fun fuel => sxNode (some a) >>= fun x => k x fuel) Q := by
  simp only [sxNode, bind_assoc]
  exact .read h

theorem sxPair_rule {k : SxPtr × SxPtr → Nat → SxM α}
    (h : Spec (single a (.pair car cdr) * R) (k (car, cdr)) Q) :
    Spec (single a (.pair car cdr) * R) (fun fuel => sxPair (some a) >>= fun x => k x fuel) Q := by
  simp only [sxPair, bind_assoc]
  exact .read h

theorem sxDataPair_rule {k : SxPtr → Nat → SxM α}
    (h : Spec (single a (.node (.pair p)) * R) (k p) Q) :
    Spec (single a (.node (.pair p)) * R)
    (fun fuel => sxDataPair (some a) >>= fun x => k x fuel) Q := by
  simp only [sxDataPair, bind_assoc]
  exact sxNode_rule h

theorem sxSetCar_rule {k : Nat → SxM α} (h : Spec (single a (.pair p cdr) * R) k Q) :
    Spec (single a (.pair car cdr) * R)
    (fun fuel => sxSetCar (some a) p >>= fun _ => k fuel) Q := by
  simp only [sxSetCar, bind_assoc]
  exact sxPair_rule (.write h)

theorem sxSetCdr_rule {k : Nat → SxM α} (h : Spec (single a (.pair car p) * R) k Q) :
    Spec (single a (.pair car cdr) * R)
    (fun fuel => sxSetCdr (some a) p >>= fun _ => k fuel) Q := by
  simp only [sxSetCdr, bind_assoc]
  exact sxPair_rule (.write h)

theorem sxAlloc_rule {k : SxPtr → Nat → SxM α} (h : ∀ a, Spec (single a b * R) (k (some a)) Q) :
    Spec R (fun fuel => sxAlloc b >>= fun x => k x fuel) Q := by
  simp only [sxAlloc, bind_map_left]
  exact .alloc h

/-- The type of a node is that of the tree. -/
theorem sxBehind_le_type :
    sxBehind t data ≤ fact (data.isPair = t.isPair ∧ data.isNull = (t == .emptyList)) *
      sxBehind t data := by
  refine le_fact_mul fun m hm => ?_
  cases t with
  | null => exact hm.elim
  | integer n | emptyList =>
    obtain ⟨rfl, -⟩ := hm
    exact ⟨rfl, rfl⟩
  | symbol name =>
    obtain ⟨a, ha⟩ := iSup_iff.mp hm
    obtain ⟨rfl, -⟩ := fact_mul_iff.mp ha
    exact ⟨rfl, rfl⟩
  | pair t u =>
    obtain ⟨x, hx⟩ := iSup_iff.mp hm
    obtain ⟨rfl, -⟩ := fact_mul_iff.mp hx
    exact ⟨rfl, rfl⟩

/-- The node of a tree is read, for its type. -/
theorem sxType_rule (ht : t.isNull = false) {k : SxData → Nat → SxM α}
    (h : ∀ data : SxData, data.isPair = t.isPair → data.isNull = (t == .emptyList) →
      Spec (sxTree t p * R) (k data) Q) :
    Spec (sxTree t p * R) (fun fuel => sxNode p >>= fun x => k x fuel) Q := by
  refine sxTree_rule ht fun a data hp => ?_
  subst hp
  have hle : single a (.node data) * (sxBehind t data * R) ≤
      fact (data.isPair = t.isPair ∧ data.isNull = (t == .emptyList)) *
      (sxTree t (some a) * R) := by
    rw [← mul_assoc, ← mul_assoc]
    refine mul_le_mul_left (le_trans (mul_le_mul_right sxBehind_le_type _) ?_) R
    rw [mul_left_comm]
    exact mul_le_mul_right (le_sxTree data ht) _
  exact sxNode_rule ((Spec.known fun htype => h data htype.1 htype.2).conseq hle fun _ => le_rfl)

theorem sxIsPair_at {k : Bool → Nat → SxM α}
    (h : Spec (single a (.node data) * R) (k data.isPair) Q) :
    Spec (single a (.node data) * R) (fun fuel => sxIsPair (some a) >>= fun x => k x fuel) Q := by
  simp only [sxIsPair, bind_map_left]
  exact sxNode_rule h

theorem sxCarUnsafe_at {k : SxPtr → Nat → SxM α}
    (h : Spec (single a (.node (.pair (some c))) * (single c (.pair car cdr) * R)) (k car) Q) :
    Spec (single a (.node (.pair (some c))) * (single c (.pair car cdr) * R))
      (fun fuel => sxCarUnsafe (some a) >>= fun x => k x fuel) Q := by
  simp only [sxCarUnsafe, bind_assoc, pure_bind]
  refine sxDataPair_rule ?_
  rw [mul_left_comm] at h ⊢
  exact sxPair_rule h

theorem sxCdrUnsafe_at {k : SxPtr → Nat → SxM α}
    (h : Spec (single a (.node (.pair (some c))) * (single c (.pair car cdr) * R)) (k cdr) Q) :
    Spec (single a (.node (.pair (some c))) * (single c (.pair car cdr) * R))
      (fun fuel => sxCdrUnsafe (some a) >>= fun x => k x fuel) Q := by
  simp only [sxCdrUnsafe, bind_assoc, pure_bind]
  refine sxDataPair_rule ?_
  rw [mul_left_comm] at h ⊢
  exact sxPair_rule h

theorem sxIsPair_rule (ht : t.isNull = false) {k : Bool → Nat → SxM α}
    (h : Spec (sxTree t p * R) (k t.isPair) Q) :
    Spec (sxTree t p * R) (fun fuel => sxIsPair p >>= fun x => k x fuel) Q := by
  simp only [sxIsPair, bind_map_left]
  exact sxType_rule ht fun data hpair _ => by rwa [hpair]

theorem sxIsNull_rule (ht : t.isNull = false) {k : Bool → Nat → SxM α}
    (h : Spec (sxTree t p * R) (k (t == .emptyList)) Q) :
    Spec (sxTree t p * R) (fun fuel => sxIsNull p >>= fun x => k x fuel) Q := by
  simp only [sxIsNull, bind_map_left]
  exact sxType_rule ht fun data _ hnull => by rwa [hnull]

end Rules

/-! ## 3. Making nodes -/

section Makers

variable {t u : SxNode} {car cdr : SxPtr}

theorem sxMakeInteger_spec (n : BitVec 64) :
    Spec 1 (fun _ => sxMakeInteger n) fun p => sxTree (.integer n) p := by
  unfold sxMakeInteger makeNode
  refine sxAlloc_rule fun a => .write (.pure ?_)
  rw [mul_one]
  exact le_sxTree_integer

theorem sxMakeEmptyList_spec : Spec 1 (fun _ => sxMakeEmptyList) fun p => sxTree .emptyList p := by
  unfold sxMakeEmptyList makeNode
  refine sxAlloc_rule fun a => .write (.pure ?_)
  rw [mul_one]
  exact le_sxTree_emptyList

theorem sxMakeSymbol_spec (s : List Octet) :
    Spec 1 (fun _ => sxMakeSymbol s) fun p => sxTree (.symbol s) p := by
  unfold sxMakeSymbol makeNode
  refine sxAlloc_rule fun a => sxAlloc_rule fun b => ?_
  rw [mul_left_comm]
  refine .write ?_
  rw [mul_left_comm]
  refine .write (.pure ?_)
  rw [mul_one, mul_comm]
  exact le_sxTree_symbol

theorem sxCons_spec : Spec (sxTree t car * sxTree u cdr) (fun _ => sxCons car cdr)
    fun p => sxTree (.pair t u) p := by
  unfold sxCons makePair makeNode
  simp only [bind_assoc, pure_bind]
  refine sxAlloc_rule fun a => sxAlloc_rule fun b => ?_
  rw [mul_left_comm]
  refine .write (sxDataPair_rule ?_)
  rw [mul_left_comm]
  refine sxSetCar_rule (sxSetCdr_rule (.pure ?_))
  rw [mul_left_comm]
  exact le_sxTree_pair

end Makers

/-! ## 4. Destroying, taking apart -/

section Functions

variable {α : Type} {t u : SxNode} {p a b : SxPtr} {Q : α → Assertion SxBlock}
    {R : Assertion SxBlock}

/-- **`sx_destroy` frees every block of a tree, and each of them once.** -/
theorem sxDestroy_spec : Spec (sxTree t p) (fun fuel => sxDestroy fuel p) fun left =>
    fact (left = none) := by
  induction t generalizing p with
  | null =>
    rw [sxTree_null, ← mul_one (fact _)]
    refine .known fun hp => ?_
    subst hp
    exact .step (.pure (fact_of rfl).ge) fun _ => rfl
  | integer n | emptyList =>
    rw [← mul_one (sxTree _ _)]
    refine sxTree_rule rfl fun a data hp => ?_
    subst hp
    rw [mul_left_comm]
    refine .known fun hdata => ?_
    subst hdata
    refine .step (sxNode_rule ?_) fun _ => rfl
    exact .free (.pure (fact_of rfl).ge)
  | symbol name =>
    rw [← mul_one (sxTree _ _)]
    refine sxTree_rule rfl fun a data hp => ?_
    subst hp
    rw [mul_left_comm, sxBehind, Quantale.iSup_mul_distrib]
    refine .alternatives fun b => ?_
    rw [mul_assoc]
    refine .known fun hdata => ?_
    subst hdata
    rw [mul_left_comm]
    refine .step (sxNode_rule ?_) fun _ => rfl
    rw [mul_left_comm]
    exact .free (.write (.free (.pure (fact_of rfl).ge)))
  | pair t u iht ihu =>
    rw [← mul_one (sxTree _ _)]
    refine sxTree_pair_rule fun a b car cdr hp => ?_
    subst hp
    refine .step (sxNode_rule ?_) fun _ => rfl
    rw [mul_left_comm]
    refine sxPair_rule ?_
    -- the car
    rw [← mul_assoc, mul_left_comm]
    refine .call iht fun left => .known fun hleft => ?_
    rw [mul_assoc]
    refine sxSetCar_rule (sxPair_rule ?_)
    -- the cdr
    rw [← mul_assoc, mul_left_comm]
    refine .call ihu fun left' => .known fun hleft' => ?_
    rw [mul_one]
    refine sxSetCdr_rule (.free ?_)
    rw [← mul_one (single _ _)]
    exact .write (.free (.pure (fact_of rfl).ge))

/-- What `sx_pop` returns, and what it leaves. -/
def SxNode.pop : SxNode → SxNode × SxNode
  | pair car cdr => (car, cdr)
  | null => (null, null)
  | symbol s => (symbol s, null)
  | integer n => (integer n, null)
  | emptyList => (emptyList, null)

theorem SxNode.pop_atom (h : t.isPair = false) : t.pop = (t, null) := by
  cases t with
  | pair car cdr => cases h
  | null | symbol _ | integer _ | emptyList => rfl

/-- **`sx_pop` takes the first element off a list**, and frees the pair that held it. -/
theorem sxPop_spec : Spec (sxTree t p) (fun _ => sxPop p) fun r =>
    sxTree t.pop.1 r.1 * sxTree t.pop.2 r.2 := by
  rw [← mul_one (sxTree t p)]
  by_cases hnull : t.isNull = true
  · obtain rfl := SxNode.eq_null hnull
    refine sxTree_null_rule fun hp => ?_
    subst hp
    refine .pure ?_
    show 1 ≤ fact _ * fact _
    rw [fact_of rfl, one_mul]
  rw [Bool.not_eq_true] at hnull
  by_cases hpair : t.isPair = true
  · obtain ⟨car, cdr, rfl⟩ := SxNode.eq_pair hpair
    refine sxTree_pair_rule fun a b pcar pcdr hp => ?_
    subst hp
    unfold sxPop
    simp only [Option.isNone_some, Bool.false_eq_true, if_false]
    refine sxIsPair_at ?_
    simp only [SxData.isPair, Bool.true_eq_false, if_false]
    refine sxCdrUnsafe_at (sxCarUnsafe_at (sxDataPair_rule ?_))
    rw [mul_left_comm]
    refine .free (.free (.pure ?_))
    rw [mul_one]
    rfl
  · rw [Bool.not_eq_true] at hpair
    refine sxTree_isNone_rule fun hp => ?_
    unfold sxPop
    simp only [hp, hnull, Bool.false_eq_true, if_false]
    refine sxIsPair_rule hnull ?_
    simp only [hpair, if_true]
    refine .pure ?_
    rw [SxNode.pop_atom hpair, sxTree_null, fact_of rfl]

end Functions

/-! ## 5. Appending -/

/-- A tree with another one in the place of what ends its spine. -/
def SxNode.graft : SxNode → SxNode → SxNode
  | pair car cdr, u => pair car (cdr.graft u)
  | null, u | symbol _, u | integer _, u | emptyList, u => u

/-- Whether a spine ends in a node, and not in a NULL pointer. -/
def SxNode.spineEnds : SxNode → Bool
  | pair _ cdr => cdr.spineEnds
  | null => false
  | symbol _ | integer _ | emptyList => true

/-- `sx_append`, on trees: NULL and atoms are not appended. -/
def SxNode.append (t u : SxNode) : Option SxNode :=
  if t.isNull || u.isNull then none
  else if t == emptyList then some u
  else if u == emptyList then some t
  else if (t.isPair && u.isPair) = false then none
  else some (t.graft u)

section Append

variable {t u v w : SxNode} {p q a b car cdr : SxPtr} {c : Nat}

theorem SxNode.graft_atom (h : t.isPair = false) : t.graft u = u := by
  cases t with
  | pair car cdr => cases h
  | null | symbol _ | integer _ | emptyList => rfl

theorem SxNode.isNull_of_spineEnds (h : t.spineEnds = true) : t.isNull = false := by
  cases t with
  | null => cases h
  | symbol _ | integer _ | emptyList | pair _ _ => rfl

/-- **The last pair of a spine**, found from the pair at `c`: the block `d` with a pointer to the
    tree `v` that ends the spine, and the other blocks `C`. With another tree in the place of `v`,
    they are the blocks of the grafted tree. -/
def sxLast (c : Nat) (car : SxPtr) (u : SxNode) (ptr : SxPtr) : Assertion SxBlock :=
  ⨆ x : Nat × SxPtr × SxPtr × SxNode × Assertion SxBlock,
    fact (ptr = some x.1 ∧ ∀ w q, single x.1 (.pair x.2.1 q) * (sxTree w q * x.2.2.2.2) ≤
      ⨆ cdr, single c (.pair car cdr) * sxTree (u.graft w) cdr) *
    (single x.1 (.pair x.2.1 x.2.2.1) * (sxTree x.2.2.2.1 x.2.2.1 * x.2.2.2.2))

/-- A spine of one pair. -/
theorem le_sxLast (hu : u.isPair = false) :
    single c (.pair car cdr) * sxTree u cdr ≤ sxLast c car u (some c) := by
  have hlast : ∀ w q, single c (.pair car q) * (sxTree w q * 1) ≤
      ⨆ cdr, single c (.pair car cdr) * sxTree (u.graft w) cdr := by
    intro w q
    rw [mul_one, SxNode.graft_atom hu]
    exact le_iSup_of_le q le_rfl
  refine le_iSup_of_le (c, car, cdr, u, 1) ?_
  rw [fact_of ⟨rfl, hlast⟩, one_mul, mul_one]

/-- A pair in front of a spine. -/
theorem sxLast_pair {x : SxNode} {ptr : SxPtr} {a d : Nat} {carx : SxPtr} :
    sxLast d carx u ptr * (single c (.pair car (some a)) *
        (single a (.node (.pair (some d))) * sxTree x carx)) ≤ sxLast c car (.pair x u) ptr := by
  unfold sxLast
  rw [Quantale.iSup_mul_distrib]
  refine iSup_le fun y => ?_
  obtain ⟨e, pcar, pcdr, v, C⟩ := y
  rw [mul_assoc]
  refine fact_mul_le fun h => ?_
  obtain ⟨hptr, hlast⟩ := h
  have hpair : ∀ w q, single e (.pair pcar q) * (sxTree w q * (C * (single c (.pair car (some a)) *
      (single a (.node (.pair (some d))) * sxTree x carx)))) ≤
      ⨆ cdr, single c (.pair car cdr) * sxTree ((SxNode.pair x u).graft w) cdr := by
    intro w q
    calc _ = single e (.pair pcar q) * (sxTree w q * C) * (single c (.pair car (some a)) *
          (single a (.node (.pair (some d))) * sxTree x carx)) := by simp only [mul_assoc]
      _ ≤ (⨆ cdr, single d (.pair carx cdr) * sxTree (u.graft w) cdr) *
          (single c (.pair car (some a)) *
            (single a (.node (.pair (some d))) * sxTree x carx)) := mul_le_mul_left (hlast w q) _
      _ = ⨆ cdr, single c (.pair car (some a)) * (single a (.node (.pair (some d))) *
          (single d (.pair carx cdr) * (sxTree x carx * sxTree (u.graft w) cdr))) := by
        rw [Quantale.iSup_mul_distrib]
        exact iSup_congr fun cdr => by ac_rfl
      _ ≤ _ := iSup_le fun cdr => le_iSup_of_le (some a) (mul_le_mul_right le_sxTree_pair _)
  refine le_iSup_of_le (e, pcar, pcdr, v, C * (single c (.pair car (some a)) *
    (single a (.node (.pair (some d))) * sxTree x carx))) ?_
  rw [fact_of ⟨hptr, hpair⟩, one_mul]
  simp only [mul_assoc, le_refl]

theorem sxLastPair_spec (hu : u.spineEnds = true) :
    Spec (single c (.pair car cdr) * sxTree u cdr) (fun fuel => sxLastPair fuel (some c))
      fun ptr => sxLast c car u ptr := by
  induction u generalizing c car cdr with
  | null => cases hu
  | symbol _ | integer _ | emptyList =>
    refine .step (sxPair_rule ?_) fun _ => rfl
    rw [mul_comm]
    refine sxIsPair_rule rfl (.pure ?_)
    rw [mul_comm]
    exact le_sxLast rfl
  | pair x u _ ih =>
    refine .step (sxPair_rule ?_) fun _ => rfl
    rw [mul_comm]
    refine sxTree_pair_rule fun a d car' cdr' hp => ?_
    subst hp
    refine sxIsPair_at (sxDataPair_rule ?_)
    refine ((@ih car' cdr' d hu).frame (single c (.pair car (some a)) *
      (single a (.node (.pair (some d))) * sxTree x car'))).conseq ?_ fun ptr => sxLast_pair
    exact (by ac_rfl : _ = _).le

/-- **What `sx_append` returns owns what both lists owned**, less the ends that it frees. Where it
    returns NULL, both lists are what they were. -/
theorem sxAppend_spec (ht : t.isPair = true → t.spineEnds = true) :
    Spec (sxTree t a * sxTree u b) (fun fuel => sxAppend fuel a b) fun p =>
      (t.append u).elim (fact (p = none) * (sxTree t a * sxTree u b)) (sxTree · p) := by
  refine sxTree_isNone_rule fun hta => ?_
  rw [mul_comm]
  refine sxTree_isNone_rule fun hub => ?_
  rw [mul_comm]
  unfold sxAppend SxNode.append
  rw [hta, hub]
  by_cases hnull : (t.isNull || u.isNull) = true
  · simp only [hnull, if_true]
    refine .pure ?_
    rw [fact_of rfl, one_mul]
    exact le_rfl
  obtain ⟨htn, hun⟩ := Bool.or_eq_false_iff.mp (Bool.not_eq_true _ ▸ hnull)
  simp only [hnull, Bool.false_eq_true, if_false]
  refine sxIsNull_rule htn ?_
  by_cases htl : (t == .emptyList) = true
  · simp only [htl, if_true]
    refine .call sxDestroy_spec fun left => .known fun _ => .pure le_rfl
  simp only [htl, Bool.false_eq_true, if_false]
  rw [mul_comm]
  refine sxIsNull_rule hun ?_
  by_cases hul : (u == .emptyList) = true
  · simp only [hul, if_true]
    refine .call sxDestroy_spec fun left => .known fun _ => .pure le_rfl
  simp only [hul, Bool.false_eq_true, if_false]
  rw [mul_comm]
  refine sxIsPair_rule htn ?_
  rw [mul_comm]
  refine sxIsPair_rule hun ?_
  by_cases hpair : (t.isPair && u.isPair) = false
  · simp only [hpair, if_true]
    refine .pure ?_
    rw [fact_of rfl, one_mul, mul_comm]
    exact le_rfl
  simp only [hpair, Bool.true_eq_false, if_false]
  obtain ⟨htp, -⟩ := Bool.and_eq_true_iff.mp (Bool.not_eq_false _ ▸ hpair)
  obtain ⟨x, d, rfl⟩ := SxNode.eq_pair htp
  rw [mul_comm]
  refine sxTree_pair_rule fun a c car cdr hp => ?_
  subst hp
  refine sxDataPair_rule ?_
  -- the last pair
  have horder : single a (.node (.pair (some c))) *
      (single c (.pair car cdr) * (sxTree x car * (sxTree d cdr * sxTree u b))) =
      single c (.pair car cdr) * sxTree d cdr *
        (single a (.node (.pair (some c))) * (sxTree x car * sxTree u b)) := by ac_rfl
  rw [horder]
  refine .call (sxLastPair_spec (ht rfl)) fun ptr => ?_
  unfold sxLast
  rw [Quantale.iSup_mul_distrib]
  refine .alternatives fun y => ?_
  obtain ⟨e, pcar, pcdr, v, C⟩ := y
  rw [mul_assoc]
  refine .known fun h => ?_
  obtain ⟨rfl, hlast⟩ := h
  rw [mul_assoc]
  refine sxPair_rule ?_
  -- what ended the first list
  rw [mul_assoc, mul_left_comm]
  refine .call sxDestroy_spec fun left => .known fun _ => ?_
  refine sxSetCdr_rule (sxSetCdr_rule (.pure ?_))
  calc single e (.pair pcar b) * (C * (single a (.node (.pair (some c))) *
        (sxTree x car * sxTree u b)))
    _ = single e (.pair pcar b) * (sxTree u b * C) *
        (single a (.node (.pair (some c))) * sxTree x car) := by ac_rfl
    _ ≤ (⨆ cdr, single c (.pair car cdr) * sxTree (d.graft u) cdr) *
        (single a (.node (.pair (some c))) * sxTree x car) := mul_le_mul_left (hlast u b) _
    _ = ⨆ cdr, single a (.node (.pair (some c))) *
        (single c (.pair car cdr) * (sxTree x car * sxTree (d.graft u) cdr)) := by
      rw [Quantale.iSup_mul_distrib]
      exact iSup_congr fun cdr => by ac_rfl
    _ ≤ _ := iSup_le fun cdr => le_sxTree_pair

end Append

/-! ## 6. How many blocks a tree has -/

/-- The blocks of a tree: one for each node, and one more for a pair and for a symbol. -/
def SxNode.blocks : SxNode → Nat
  | null => 0
  | integer _ | emptyList => 1
  | symbol _ => 2
  | pair t u => 1 + (1 + (t.blocks + u.blocks))

theorem sxTree_count {t : SxNode} {p : SxPtr} : HasCount (sxTree t p) t.blocks := by
  induction t generalizing p with
  | null => exact .fact
  | integer n | emptyList =>
    rw [sxTree_node rfl]
    exact .iSup fun x => .fact_mul fun _ => .mul .single .fact
  | symbol name =>
    rw [sxTree_node rfl]
    exact .iSup fun x => .fact_mul fun _ => .mul .single (.iSup fun b => .fact_mul fun _ => .single)
  | pair t u iht ihu =>
    rw [sxTree_node rfl]
    exact .iSup fun x => .fact_mul fun _ => .mul .single (.iSup fun y => .fact_mul fun _ =>
      .mul .single (.mul iht ihu))

end Ufw
