/-
  File:      Ufw/Base/Separation.lean
  Subject:   BLOCKS OF MEMORY AND WHO OWNS THEM. Programs that allocate, read, write and free
             blocks, and assertions about the blocks a program may use.

  * `Heap` -- memory that blocks are taken from; what is not allocated cannot be read, written or
    freed;
  * `Assertion` -- what holds of some blocks, and of no others; `P * Q` splits the blocks in two.
    The assertions are a commutative quantale, and with it have everything Mathlib knows of one;
  * `HasCount` -- how many blocks an assertion is about;
  * `Spec P f Q` -- **on the blocks `P` describes, `f` returns, and leaves those `Q` describes**,
    with all others as they were; the rules for sequences, and one rule for each operation.

  Nothing here names a particular program.
-/
import Mathlib.Algebra.BigOperators.Group.Finset.Basic
import Mathlib.Algebra.Order.Quantale
import Mathlib.Data.Set.Card
import Ufw.Base.Exec

namespace Base

variable {β α γ ι : Type}

/-! ## 1. Memory -/

/-- The blocks of a part of memory, by address. -/
abbrev Blocks (β : Type) := Nat → Option β

/-- Memory, with the first of the addresses that were never used. -/
structure Heap (β : Type) where
  blocks : Blocks β
  next : Nat
  fresh : ∀ a, next ≤ a → blocks a = none

/-- Programs that use memory. -/
abbrev HeapM (β : Type) := StateT (Heap β) Exec

namespace Heap

/-- Nothing is allocated. -/
def empty (β : Type) : Heap β := { blocks := fun _ => none, next := 0, fresh := fun _ _ => rfl }

/-- Memory with another content at an address in use. -/
def put (h : Heap β) (a : Nat) (b : Option β) (ha : a < h.next) : Heap β where
  blocks := Function.update h.blocks a b
  next := h.next
  fresh x hx := by
    rw [Function.update_of_ne (by omega)]
    exact h.fresh x hx

/-- Memory with a new block. -/
def push (h : Heap β) (b : β) : Heap β where
  blocks := Function.update h.blocks h.next (some b)
  next := h.next + 1
  fresh x hx := by
    rw [Function.update_of_ne (by omega)]
    exact h.fresh x (by omega)

theorem lt_next {h : Heap β} {a : Nat} {b : β} (ha : h.blocks a = some b) : a < h.next := by
  by_contra hle
  rw [h.fresh a (Nat.not_lt.mp hle)] at ha
  cases ha

/-- A block of its own, at an address that was never used. -/
def alloc (b : β) : HeapM β Nat := fun h => .ok (h.next, h.push b)

/-- What a block holds. -/
def read (a : Nat) : HeapM β β := fun h =>
  match h.blocks a with
  | some b => .ok (b, h)
  | none => .error .fault

/-- A block with another content. -/
def write (a : Nat) (b : β) : HeapM β Unit := fun h =>
  if ha : a < h.next ∧ (h.blocks a).isSome then .ok ((), h.put a (some b) ha.1) else .error .fault

/-- A block is given back. -/
def free (a : Nat) : HeapM β Unit := fun h =>
  if ha : a < h.next ∧ (h.blocks a).isSome then .ok ((), h.put a none ha.1) else .error .fault

/-- The program stops here. -/
def stop (e : Halt) : HeapM β α := fun _ => .error e

end Heap

/-! ## 2. Assertions -/

/-- What holds of some blocks, and of no others. -/
def Assertion (β : Type) := Blocks β → Prop

/-- The blocks are those the assertion is about. -/
def Assertion.Holds (P : Assertion β) (m : Blocks β) : Prop := P m

open Classical in
/-- Some of the blocks. -/
noncomputable def Blocks.within (m : Blocks β) (S : Set Nat) : Blocks β :=
  fun a => if a ∈ S then m a else none

theorem Blocks.within_within (m : Blocks β) (S T : Set Nat) :
    (m.within S).within T = m.within (S ∩ T) := by
  funext a
  by_cases hS : a ∈ S <;> by_cases hT : a ∈ T <;> simp [within, hS, hT]

theorem Blocks.within_univ (m : Blocks β) : m.within Set.univ = m := by
  funext a
  simp [within]

theorem Blocks.within_empty (m : Blocks β) : m.within ∅ = fun _ => none := by
  funext a
  simp [within]

namespace Assertion

@[ext] theorem ext {P Q : Assertion β} (h : ∀ m, P.Holds m ↔ Q.Holds m) : P = Q :=
  funext fun m => propext (h m)

instance completeLattice : CompleteLattice (Assertion β) :=
  inferInstanceAs (CompleteLattice (Blocks β → Prop))

instance partialOrder : PartialOrder (Assertion β) := completeLattice.toPartialOrder

instance preorder : Preorder (Assertion β) := partialOrder.toPreorder

instance le : LE (Assertion β) := preorder.toLE

instance supSet : SupSet (Assertion β) := completeLattice.toSupSet

instance bot : Bot (Assertion β) := completeLattice.toBot

theorem Holds.mono {P Q : Assertion β} {m : Blocks β} (h : P.Holds m) (hPQ : P ≤ Q) : Q.Holds m :=
  hPQ m h

/-- No block at all. -/
def emp : Assertion β := fun m => m = fun _ => none

/-- The blocks fall into those of `P` and those of `Q`. -/
def sep (P Q : Assertion β) : Assertion β :=
  fun m => ∃ S : Set Nat, P.Holds (m.within S) ∧ Q.Holds (m.within Sᶜ)

/-- One block. -/
def single (a : Nat) (b : β) : Assertion β :=
  fun m => m = Function.update (fun _ => none) a (some b)

/-- These blocks. -/
def exactly (m : Blocks β) : Assertion β := fun m' => m' = m

/-- A fact, and no block. -/
def fact (p : Prop) : Assertion β := fun m => p ∧ emp m

theorem sep_comm (P Q : Assertion β) : sep P Q = sep Q P := by
  have hswap : ∀ (P Q : Assertion β) m, (sep P Q).Holds m → (sep Q P).Holds m := by
    rintro P Q m ⟨S, hP, hQ⟩
    exact ⟨Sᶜ, hQ, by rwa [compl_compl]⟩
  ext m
  exact ⟨hswap P Q m, hswap Q P m⟩

theorem sep_assoc (P Q R : Assertion β) : sep (sep P Q) R = sep P (sep Q R) := by
  have hright : ∀ (P Q R : Assertion β) m,
      (sep (sep P Q) R).Holds m → (sep P (sep Q R)).Holds m := by
    rintro P Q R m ⟨S, ⟨T, hP, hQ⟩, hR⟩
    rw [Blocks.within_within] at hP hQ
    refine ⟨S ∩ T, hP, S, ?_, ?_⟩
    · rw [Blocks.within_within]
      convert hQ using 2
      ext a
      simp only [Set.mem_inter_iff, Set.mem_compl_iff]
      tauto
    · rw [Blocks.within_within]
      convert hR using 2
      ext a
      simp only [Set.mem_inter_iff, Set.mem_compl_iff]
      tauto
  ext m
  refine ⟨hright P Q R m, fun h => ?_⟩
  rw [sep_comm, sep_comm P Q]
  rw [sep_comm P, sep_comm Q] at h
  exact hright R Q P m h

theorem emp_sep (P : Assertion β) : sep emp P = P := by
  ext m
  refine ⟨?_, fun h => ⟨∅, m.within_empty, ?_⟩⟩
  · rintro ⟨S, hS, hP⟩
    convert hP
    funext a
    have ha := congrFun hS a
    by_cases haS : a ∈ S
    · simpa [Blocks.within, haS] using ha
    · simp [Blocks.within, haS]
  · rwa [Set.compl_empty, Blocks.within_univ]

/-- **Assertions are multiplied by splitting the blocks.** -/
instance commMonoid : CommMonoid (Assertion β) where
  mul := sep
  one := emp
  mul_assoc := sep_assoc
  mul_comm := sep_comm
  one_mul := emp_sep
  mul_one P := (sep_comm P emp).trans (emp_sep P)

theorem mul_iff {P Q : Assertion β} {m : Blocks β} :
    (P * Q).Holds m ↔ ∃ S : Set Nat, P.Holds (m.within S) ∧ Q.Holds (m.within Sᶜ) := Iff.rfl

theorem iSup_iff {κ : Sort*} {P : κ → Assertion β} {m : Blocks β} :
    (⨆ x, P x).Holds m ↔ ∃ x, (P x).Holds m := by
  have hsup : (⨆ x, P x).Holds m = ⨆ x, (P x).Holds m := iSup_apply
  rw [hsup, iSup_Prop_eq]

theorem sSup_iff {s : Set (Assertion β)} {m : Blocks β} :
    (sSup s).Holds m ↔ ∃ P ∈ s, P.Holds m := by
  rw [sSup_eq_iSup]
  simp only [iSup_iff, exists_prop]

/-- A product of alternatives is the alternative of the products. -/
instance isQuantale : IsQuantale (Assertion β) where
  mul_sSup_distrib P s := by
    ext m
    simp only [mul_iff, sSup_iff, iSup_iff, exists_prop]
    constructor
    · rintro ⟨S, hP, Q, hs, hQ⟩
      exact ⟨Q, hs, S, hP, hQ⟩
    · rintro ⟨Q, hs, S, hP, hQ⟩
      exact ⟨S, hP, Q, hs, hQ⟩
  sSup_mul_distrib s P := by
    ext m
    simp only [mul_iff, sSup_iff, iSup_iff, exists_prop]
    constructor
    · rintro ⟨S, ⟨Q, hs, hQ⟩, hP⟩
      exact ⟨Q, hs, S, hQ, hP⟩
    · rintro ⟨Q, hs, S, hQ, hP⟩
      exact ⟨S, ⟨Q, hs, hQ⟩, hP⟩

theorem fact_mul_iff {p : Prop} {P : Assertion β} {m : Blocks β} :
    (fact p * P).Holds m ↔ p ∧ P.Holds m := by
  constructor
  · rintro ⟨S, ⟨hp, hS⟩, hP⟩
    refine ⟨hp, ?_⟩
    rw [← one_mul P]
    exact ⟨S, hS, hP⟩
  · rintro ⟨hp, hP⟩
    rw [← one_mul P] at hP
    obtain ⟨S, hS, hP⟩ := hP
    exact ⟨S, ⟨hp, hS⟩, hP⟩

theorem fact_of {p : Prop} (hp : p) : fact p = (1 : Assertion β) := by
  ext m
  exact and_iff_right hp

/-- What follows from an assertion is a fact beside it. -/
theorem le_fact_mul {p : Prop} {P : Assertion β} (h : ∀ m, P.Holds m → p) : P ≤ fact p * P :=
  fun m hm => fact_mul_iff.mpr ⟨h m hm, hm⟩

theorem fact_mul_le {p : Prop} {P Q : Assertion β} (h : p → P ≤ Q) : fact p * P ≤ Q := by
  intro m hm
  obtain ⟨hp, hP⟩ := fact_mul_iff.mp hm
  exact h hp m hP

/-- A block and what else there is. -/
theorem single_mul_iff {a : Nat} {b : β} {P : Assertion β} {m : Blocks β} :
    (single a b * P).Holds m ↔ m a = some b ∧ P.Holds (Function.update m a none) := by
  have hrest : ∀ S : Set Nat, m.within S = Function.update (fun _ => none) a (some b) →
      m.within Sᶜ = Function.update m a none := by
    intro S hS
    funext x
    have hx := congrFun hS x
    by_cases hxa : x = a
    · subst hxa
      by_cases hxS : x ∈ S <;> simp [Blocks.within, hxS] at hx ⊢
    · by_cases hxS : x ∈ S <;> simp [Blocks.within, hxS, hxa] at hx ⊢
      exact hx.symm
  constructor
  · rintro ⟨S, hS, hP⟩
    have ha := congrFun hS a
    rw [hrest S hS] at hP
    refine ⟨?_, hP⟩
    by_cases haS : a ∈ S
    · simpa [Blocks.within, haS] using ha
    · simp [Blocks.within, haS] at ha
  · rintro ⟨ha, hP⟩
    have hS : m.within {a} = Function.update (fun _ => none) a (some b) := by
      funext x
      by_cases hxa : x = a
      · simp [Blocks.within, hxa, ha]
      · simp [Blocks.within, hxa]
    exact ⟨{a}, hS, by rwa [hrest _ hS]⟩

/-! ## 3. How many blocks there are -/

/-- The assertion is about `n` blocks. -/
def HasCount (P : Assertion β) (n : Nat) : Prop :=
  ∀ m, P.Holds m → Set.encard {a | m a ≠ none} = n

namespace HasCount

variable {P Q : Assertion β} {n k : Nat}

theorem bot : HasCount (⊥ : Assertion β) n := fun _ h => h.elim

theorem iSup {κ : Sort*} {P : κ → Assertion β} (h : ∀ x, HasCount (P x) n) :
    HasCount (⨆ x, P x) n := by
  intro m hm
  obtain ⟨x, hx⟩ := iSup_iff.mp hm
  exact h x m hx

theorem fact_mul {p : Prop} (h : p → HasCount P n) : HasCount (fact p * P) n := by
  intro m hm
  obtain ⟨hp, hP⟩ := fact_mul_iff.mp hm
  exact h hp m hP

theorem one : HasCount (1 : Assertion β) 0 := by
  rintro m rfl
  simp

theorem fact {p : Prop} : HasCount (fact p : Assertion β) 0 := by
  rw [← mul_one (Assertion.fact p)]
  exact fact_mul fun _ => one

theorem single {a : Nat} {b : β} : HasCount (single a b) 1 := by
  rintro m rfl
  have hset : {x | Function.update (fun _ => none) a (some b) x ≠ none} = {a} := by
    ext x
    by_cases hx : x = a <;> simp [hx]
  rw [hset, Set.encard_singleton]
  rfl

/-- The blocks of both parts, none of them twice. -/
theorem mul (hP : HasCount P n) (hQ : HasCount Q k) : HasCount (P * Q) (n + k) := by
  rintro m ⟨S, hm, hm'⟩
  have hdisj : Disjoint {a | m.within S a ≠ none} {a | m.within Sᶜ a ≠ none} := by
    refine Set.disjoint_left.mpr fun a ha ha' => ?_
    by_cases haS : a ∈ S <;> simp [Blocks.within, haS] at ha ha'
  have hunion : {a | m a ≠ none} = {a | m.within S a ≠ none} ∪ {a | m.within Sᶜ a ≠ none} := by
    ext a
    by_cases haS : a ∈ S <;> simp [Blocks.within, haS]
  rw [hunion, Set.encard_union_eq hdisj, hP _ hm, hQ _ hm', Nat.cast_add]

/-- The blocks of several owners. -/
theorem prod {P : ι → Assertion β} {n : ι → Nat} (s : Finset ι) (h : ∀ i, HasCount (P i) (n i)) :
    HasCount (∏ i ∈ s, P i) (∑ i ∈ s, n i) := by
  induction s using Finset.cons_induction with
  | empty => exact one
  | cons i s hi ih =>
    rw [Finset.prod_cons, Finset.sum_cons]
    exact (h i).mul ih

end HasCount

end Assertion

/-! ## 4. Specifications -/

open Assertion

/-- **On the blocks `P` describes, `f` returns, and leaves those `Q` describes**, whatever else
    there is, and without touching it. -/
def Spec (P : Assertion β) (f : Nat → HeapM β α) (Q : α → Assertion β) : Prop :=
  ∀ (R : Assertion β) (h : Heap β), (P * R).Holds h.blocks →
    ∃ a h', Returns (fun fuel => f fuel h) (a, h') ∧ (Q a * R).Holds h'.blocks

namespace Spec

variable {P P' : Assertion β} {Q Q' : α → Assertion β} {f g : Nat → HeapM β α}

theorem conseq (h : Spec P f Q) (hP : P' ≤ P) (hQ : ∀ a, Q a ≤ Q' a) : Spec P' f Q' := by
  intro R heap hR
  obtain ⟨a, heap', hret, hpost⟩ := h R heap (hR.mono (mul_le_mul_left hP R))
  exact ⟨a, heap', hret, hpost.mono (mul_le_mul_left (hQ a) R)⟩

theorem post (h : Spec P f Q) (hQ : ∀ a, Q a ≤ Q' a) : Spec P f Q' := h.conseq le_rfl hQ

/-- **What a program is not given, it leaves alone.** -/
theorem frame (h : Spec P f Q) (R : Assertion β) : Spec (P * R) f fun a => Q a * R := by
  intro R' heap hR
  rw [mul_assoc] at hR
  obtain ⟨a, heap', hret, hpost⟩ := h _ heap hR
  exact ⟨a, heap', hret, by rwa [mul_assoc]⟩

/-- The program is there already. -/
theorem pure {a : α} (h : P ≤ Q a) : Spec P (fun _ => Pure.pure a) Q :=
  fun R heap hR => ⟨a, heap, .of_eq fun _ => rfl, hR.mono (mul_le_mul_left h R)⟩

/-- **A sequence**: what the first part leaves is what the second part is given. -/
theorem bind {x : Nat → HeapM β γ} {k : γ → Nat → HeapM β α} {M : γ → Assertion β} (hx : Spec P x M)
    (hk : ∀ c, Spec (M c) (k c) Q) : Spec P (fun fuel => x fuel >>= fun c => k c fuel) Q := by
  intro R heap hR
  obtain ⟨c, heap₁, hret, hmid⟩ := hx R heap hR
  obtain ⟨a, heap', hret', hpost⟩ := hk c R heap₁ hmid
  exact ⟨a, heap', Returns.seq (fun fuel hc => by
    show (x fuel heap >>= fun c => k c.1 fuel c.2) = _
    rw [hc, ok_bind]) hret hret', hpost⟩

/-- **A call**: what the function called is not given is there behind it. -/
theorem call {x : Nat → HeapM β γ} {k : γ → Nat → HeapM β α} {M : γ → Assertion β}
    {R : Assertion β} (hx : Spec P x M) (hk : ∀ c, Spec (M c * R) (k c) Q) :
    Spec (P * R) (fun fuel => x fuel >>= fun c => k c fuel) Q := (hx.frame R).bind hk

/-- A computation that uses no memory. -/
theorem lift {x : Nat → Exec γ} {k : γ → Nat → HeapM β α} {c : γ} (hx : Returns x c)
    (hk : Spec P (k c) Q) : Spec P (fun fuel => StateT.lift (x fuel) >>= fun c => k c fuel) Q := by
  intro R heap hR
  obtain ⟨a, heap', hret, hpost⟩ := hk R heap hR
  exact ⟨a, heap', Returns.seq (fun fuel hc => by
    show ((x fuel >>= fun c => Except.ok (c, heap)) >>= fun c => k c.1 fuel c.2) = _
    rw [hc, ok_bind, ok_bind]) hx hret, hpost⟩

/-- One pass of a recursion. -/
theorem step (h : Spec P g Q) (hf : ∀ fuel, f (fuel + 1) = g fuel) : Spec P f Q := by
  intro R heap hR
  obtain ⟨a, heap', hret, hpost⟩ := h R heap hR
  exact ⟨a, heap', hret.step fun fuel => by rw [hf], hpost⟩

theorem congr (h : Spec P g Q) (hf : ∀ fuel, f fuel = g fuel) : Spec P f Q := by
  rwa [funext hf]

/-- Whichever of the alternatives it is. -/
theorem alternatives {A : ι → Assertion β} (h : ∀ x, Spec (A x) f Q) :
    Spec (⨆ x, A x) f Q := by
  intro R heap hR
  rw [Quantale.iSup_mul_distrib] at hR
  obtain ⟨x, hx⟩ := iSup_iff.mp hR
  exact h x R heap hx

/-- **A program that owns nothing in the end leaves memory as it was.** -/
theorem leaves {p : α → Prop} (h : Spec 1 f fun a => fact (p a)) (heap : Heap β) :
    ∃ a heap', Returns (fun fuel => f fuel heap) (a, heap') ∧ p a ∧ heap'.blocks = heap.blocks := by
  obtain ⟨a, heap', hret, hpost⟩ := h (exactly heap.blocks) heap (by rw [one_mul]; rfl)
  obtain ⟨hp, hblocks⟩ := fact_mul_iff.mp hpost
  exact ⟨a, heap', hret, hp, hblocks⟩

/-- A fact that is known. -/
theorem known {p : Prop} (h : p → Spec P f Q) : Spec (fact p * P) f Q := by
  intro R heap hR
  rw [mul_assoc] at hR
  obtain ⟨hp, hR⟩ := fact_mul_iff.mp hR
  exact h hp R heap hR

end Spec

/-! ## 5. The operations -/

section Operations

variable {P : Assertion β} {Q : α → Assertion β} {a : Nat} {b b' : β}

theorem Heap.read_eq {h : Heap β} (ha : h.blocks a = some b) : Heap.read a h = .ok (b, h) := by
  unfold Heap.read
  rw [ha]

/-- **A block that is owned can be read.** -/
theorem Spec.read {k : β → Nat → HeapM β α} (h : Spec (single a b * P) (k b) Q) :
    Spec (single a b * P) (fun fuel => Heap.read a >>= fun x => k x fuel) Q := by
  intro R heap hR
  have ha : heap.blocks a = some b := by
    rw [mul_assoc] at hR
    exact (single_mul_iff.mp hR).1
  obtain ⟨r, heap', hret, hpost⟩ := h R heap hR
  refine ⟨r, heap', hret.congr fun fuel => ?_, hpost⟩
  show (Heap.read a heap >>= fun c => k c.1 fuel c.2) = _
  rw [Heap.read_eq ha, ok_bind]

theorem Heap.write_eq {h : Heap β} (ha : h.blocks a = some b) :
    Heap.write a b' h = .ok ((), h.put a (some b') (Heap.lt_next ha)) := by
  unfold Heap.write
  rw [dif_pos ⟨Heap.lt_next ha, by rw [ha]; rfl⟩]

/-- **A block that is owned can be written.** -/
theorem Spec.write {k : Nat → HeapM β α} (h : Spec (single a b' * P) k Q) :
    Spec (single a b * P) (fun fuel => Heap.write a b' >>= fun _ => k fuel) Q := by
  intro R heap hR
  rw [mul_assoc] at hR
  obtain ⟨ha, hrest⟩ := single_mul_iff.mp hR
  have hlt := Heap.lt_next ha
  obtain ⟨r, heap', hret, hpost⟩ := h R (heap.put a (some b') hlt) (by
    rw [mul_assoc]
    refine single_mul_iff.mpr ⟨Function.update_self .., ?_⟩
    show (P * R).Holds (Function.update (Function.update heap.blocks a (some b')) a none)
    rwa [Function.update_idem])
  refine ⟨r, heap', hret.congr fun fuel => ?_, hpost⟩
  show (Heap.write a b' heap >>= fun c => k fuel c.2) = _
  rw [Heap.write_eq ha, ok_bind]

theorem Heap.free_eq {h : Heap β} (ha : h.blocks a = some b) :
    Heap.free a h = .ok ((), h.put a none (Heap.lt_next ha)) := by
  unfold Heap.free
  rw [dif_pos ⟨Heap.lt_next ha, by rw [ha]; rfl⟩]

/-- **A block that is owned can be freed**, and is not owned any more. -/
theorem Spec.free {k : Nat → HeapM β α} (h : Spec P k Q) :
    Spec (single a b * P) (fun fuel => Heap.free a >>= fun _ => k fuel) Q := by
  intro R heap hR
  rw [mul_assoc] at hR
  obtain ⟨ha, hrest⟩ := single_mul_iff.mp hR
  obtain ⟨r, heap', hret, hpost⟩ := h R (heap.put a none (Heap.lt_next ha)) hrest
  refine ⟨r, heap', hret.congr fun fuel => ?_, hpost⟩
  show (Heap.free a heap >>= fun c => k fuel c.2) = _
  rw [Heap.free_eq ha, ok_bind]

/-- **A block that is allocated is owned.** -/
theorem Spec.alloc {k : Nat → Nat → HeapM β α} (h : ∀ a, Spec (single a b * P) (k a) Q) :
    Spec P (fun fuel => Heap.alloc b >>= fun a => k a fuel) Q := by
  intro R heap hR
  have hfresh := heap.fresh heap.next (le_refl _)
  obtain ⟨r, heap', hret, hpost⟩ := h heap.next R (heap.push b) (by
    rw [mul_assoc]
    refine single_mul_iff.mpr ⟨Function.update_self .., ?_⟩
    show (P * R).Holds
        (Function.update (Function.update heap.blocks heap.next (some b)) heap.next none)
    rwa [Function.update_idem, ← hfresh, Function.update_eq_self])
  exact ⟨r, heap', hret, hpost⟩

end Operations

end Base
