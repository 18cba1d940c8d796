/-
  File:      Ufw/Base/Exec.lean
  Subject:   EXECUTION WITH FUEL. A loop of a program that need not end is a function of a
             fuel; a program may also stop for good (a failed assertion, a NULL pointer).

  * `Exec α` -- a result, or the reason why there is none (`Halt`);
  * `require` -- the program goes on only if a condition holds;
  * `Guarded x P` -- no call through a NULL pointer, and a postcondition;
  * `Below x y` -- what `x` returns, `y` returns, with one rule for each constructor;
  * `Returns f r` -- **with enough fuel `f` returns `r`**, with the rules that follow a program
    text (`Returns.seq`, `Returns.step`) and the one that reads a run backwards
    (`Returns.bind_inv`);
  * `Diverges f` -- `f` never returns, with the rule for loops (`Diverges.of_progress`);
  * `Stops f` -- with enough fuel the program stops, with the rules that follow a program text;
  * `Terminates f` -- `f` returns something, with the rule for loops (`Terminates.of_measure`).

  Nothing here names a particular program.
-/
import Mathlib.Order.Nat

namespace Base

variable {α β : Type}

/-- Why a computation has no result: its fuel ran out, the program stops here, or it calls a
    function through a NULL pointer. -/
inductive Halt where
  | outOfFuel
  | fault
  | nullCall
  deriving DecidableEq, Repr

/-- A computation that may have no result. -/
abbrev Exec (α : Type) := Except Halt α

/-- The program stops here unless `b` holds. -/
def require (b : Prop) [Decidable b] : Exec Unit :=
  if b then .ok () else .error .fault

@[simp] theorem require_pos {b : Prop} [Decidable b] (h : b) : require b = .ok () := if_pos h

@[simp] theorem require_neg {b : Prop} [Decidable b] (h : ¬b) : require b = .error .fault :=
  if_neg h

@[simp] theorem ok_bind (a : α) (f : α → Exec β) : (Except.ok a : Exec α) >>= f = f a := rfl

@[simp] theorem error_bind (e : Halt) (f : α → Exec β) :
    (Except.error e : Exec α) >>= f = .error e := rfl

@[simp] theorem exec_pure (a : α) : (pure a : Exec α) = .ok a := rfl

/-- What a sequence returns, its first part returned. -/
theorem bind_eq_ok {x : Exec α} {f : α → Exec β} {b : β} (h : x >>= f = .ok b) :
    ∃ a, x = .ok a ∧ f a = .ok b := by
  cases x with
  | error e => cases h
  | ok a => exact ⟨a, rfl, h⟩

/-- The same for a result that is mapped. -/
theorem map_eq_ok {f : α → β} {x : Exec α} {b : β} (h : f <$> x = .ok b) :
    ∃ a, x = .ok a ∧ f a = b := by
  cases x with
  | error e => cases h
  | ok a => exact ⟨a, rfl, Except.ok.inj h⟩

/-- A sequence does not stop for a reason neither of its parts stops for. -/
theorem bind_ne_error {x : Exec α} {f : α → Exec β} {e : Halt} (hx : x ≠ .error e)
    (hf : ∀ a, x = .ok a → f a ≠ .error e) : x >>= f ≠ .error e := by
  cases x with
  | error e' => exact fun h => hx (congrArg _ (Except.error.inj h))
  | ok a => exact hf a rfl

/-! ## NULL pointers -/

/-- **No function is called through a NULL pointer**, and what is returned satisfies `P`. -/
structure Guarded (x : Exec α) (P : α → Prop) : Prop where
  noNullCall : x ≠ .error .nullCall
  post : ∀ a, x = .ok a → P a

namespace Guarded

variable {P Q : α → Prop} {R : β → Prop}

theorem of_ok {a : α} (ha : P a) : Guarded (.ok a) P :=
  ⟨fun h => (nomatch h), fun _ h => Except.ok.inj h ▸ ha⟩

theorem of_error {e : Halt} (he : e ≠ .nullCall) : Guarded (.error e : Exec α) P :=
  ⟨fun h => he (Except.error.inj h), fun _ h => (nomatch h)⟩

/-- **A sequence**: what the first part returns is what the second part may assume. -/
theorem bind {x : Exec α} {f : α → Exec β} (hx : Guarded x P) (hf : ∀ a, P a → Guarded (f a) R) :
    Guarded (x >>= f) R := by
  cases x with
  | error e => exact of_error fun he => hx.noNullCall (congrArg _ he)
  | ok a => exact hf a (hx.post a rfl)

theorem mono {x : Exec α} (hx : Guarded x P) (h : ∀ a, P a → Q a) : Guarded x Q :=
  ⟨hx.noNullCall, fun a ha => h a (hx.post a ha)⟩

theorem require (b : Prop) [Decidable b] : Guarded (Base.require b) fun _ => b := by
  unfold Base.require
  split
  · exact of_ok ‹_›
  · exact of_error (by decide)

end Guarded

/-! ## Computations that return more -/

/-- **What `x` returns, `y` returns**, too. -/
def Below (x y : Exec α) : Prop := ∀ a, x = .ok a → y = .ok a

namespace Below

theorem refl (x : Exec α) : Below x x := fun _ h => h

/-- A sequence, part by part. -/
theorem bind {x y : Exec α} {f g : α → Exec β} (h : Below x y) (hf : ∀ a, Below (f a) (g a)) :
    Below (x >>= f) (y >>= g) := by
  intro b hb
  obtain ⟨a, ha, hb⟩ := bind_eq_ok hb
  rw [h a ha, ok_bind]
  exact hf a b hb

theorem ite {c : Prop} [Decidable c] {x x' y y' : Exec α} (h : Below x y) (h' : Below x' y') :
    Below (if c then x else x') (if c then y else y') := by
  split
  · exact h
  · exact h'

theorem map {x y : Exec α} (f : α → β) (h : Below x y) : Below (f <$> x) (f <$> y) := by
  intro b hb
  obtain ⟨a, ha, rfl⟩ := map_eq_ok hb
  rw [h a ha]
  rfl

end Below

/-! ## Fuel -/

/-- **With enough fuel `f` returns `r`.** -/
def Returns (f : Nat → Exec α) (r : α) : Prop :=
  ∃ n, ∀ fuel, n ≤ fuel → f fuel = .ok r

/-- A computation that needs no fuel. -/
theorem Returns.of_eq {f : Nat → Exec α} {r : α} (h : ∀ fuel, f fuel = .ok r) : Returns f r :=
  ⟨0, fun fuel _ => h fuel⟩

theorem Returns.congr {f g : Nat → Exec α} {r : α} (h : ∀ fuel, f fuel = g fuel)
    (hg : Returns g r) : Returns f r := by
  obtain ⟨n, hn⟩ := hg
  exact ⟨n, fun fuel hf => (h fuel).trans (hn fuel hf)⟩

/-- **One pass of a loop**: what the rest of the loop returns, the loop returns. -/
theorem Returns.step {f g : Nat → Exec α} {r : α} (hg : Returns g r)
    (h : ∀ fuel, f (fuel + 1) = g fuel) : Returns f r := by
  obtain ⟨n, hn⟩ := hg
  refine ⟨n + 1, fun fuel hf => ?_⟩
  obtain ⟨m, rfl⟩ : ∃ m, fuel = m + 1 := ⟨fuel - 1, by omega⟩
  rw [h, hn m (by omega)]

/-- **Some passes of a loop** change nothing about what it returns. -/
theorem Returns.shift_iff {f g : Nat → Exec α} {r : α} {passes : Nat}
    (h : ∀ fuel, f (fuel + passes) = g fuel) : Returns f r ↔ Returns g r := by
  constructor
  · rintro ⟨n, hn⟩
    exact ⟨n, fun fuel hf => (h fuel).symm.trans (hn _ (Nat.le_add_right_of_le hf))⟩
  · rintro ⟨n, hn⟩
    refine ⟨n + passes, fun fuel hf => ?_⟩
    obtain ⟨m, rfl⟩ := Nat.exists_eq_add_of_le' (le_trans (Nat.le_add_left passes n) hf)
    rw [h, hn m (by omega)]

/-- A loop that ends in its first pass. -/
theorem Returns.of_succ {f : Nat → Exec α} {r : α} (h : ∀ fuel, f (fuel + 1) = .ok r) :
    Returns f r := (Returns.of_eq fun _ => rfl).step h

/-- **A sequence**: `x` returns `a`, `f` goes on as `y` then, and `y` returns `b`. -/
theorem Returns.seq {f : Nat → Exec β} {x : Nat → Exec α} {y : Nat → Exec β} {a : α} {b : β}
    (h : ∀ fuel, x fuel = .ok a → f fuel = y fuel) (hx : Returns x a) (hy : Returns y b) :
    Returns f b := by
  obtain ⟨n, hn⟩ := hx
  obtain ⟨m, hm⟩ := hy
  refine ⟨max n m, fun fuel hfuel => ?_⟩
  rw [h fuel (hn fuel (le_trans (le_max_left n m) hfuel)),
    hm fuel (le_trans (le_max_right n m) hfuel)]

/-- A pass of a loop that begins with `x`. -/
theorem Returns.step_seq {f : Nat → Exec β} {x : Nat → Exec α} {y : Nat → Exec β} {a : α} {b : β}
    (h : ∀ fuel, x fuel = .ok a → f (fuel + 1) = y fuel) (hx : Returns x a)
    (hy : Returns y b) : Returns f b :=
  (Returns.seq (f := fun fuel => f (fuel + 1)) h hx hy).step fun _ => rfl

/-- A sequence: the first part returns `a`, the second part, given `a`, returns `b`. -/
theorem Returns.bind {f : Nat → Exec α} {g : Nat → α → Exec β} {a : α} {b : β}
    (hf : Returns f a) (hg : Returns (fun fuel => g fuel a) b) :
    Returns (fun fuel => f fuel >>= g fuel) b :=
  Returns.seq (fun fuel h => by rw [h, ok_bind]) hf hg

/-- Two parts of a sequence, with what both return at hand. -/
theorem Returns.both {γ : Type} {f : Nat → Exec γ} {x : Nat → Exec α} {y : Nat → Exec β} {a : α}
    {b : β} {c : γ} (h : ∀ fuel, x fuel = .ok a → y fuel = .ok b → f fuel = .ok c)
    (hx : Returns x a) (hy : Returns y b) : Returns f c := by
  obtain ⟨n, hn⟩ := hx
  obtain ⟨m, hm⟩ := hy
  exact ⟨max n m, fun fuel hfuel => h fuel (hn fuel (le_trans (le_max_left n m) hfuel))
    (hm fuel (le_trans (le_max_right n m) hfuel))⟩

/-- What is returned is returned by what returns more. -/
theorem Returns.below {f g : Nat → Exec α} {a : α} (hf : Returns f a)
    (h : ∀ fuel, Below (f fuel) (g fuel)) : Returns g a := by
  obtain ⟨n, hn⟩ := hf
  exact ⟨n, fun fuel hfuel => h fuel a (hn fuel hfuel)⟩

/-- What is left to do, once `x` has returned, needs no fuel. -/
theorem Returns.after {f : Nat → Exec β} {x : Nat → Exec α} {a : α} {b : β} (hx : Returns x a)
    (h : ∀ fuel, x fuel = .ok a → f fuel = .ok b) : Returns f b := by
  obtain ⟨n, hn⟩ := hx
  exact ⟨n, fun fuel hf => h fuel (hn fuel hf)⟩

/-- A computation has one result. -/
theorem Returns.unique {f : Nat → Exec α} {r r' : α} (h : Returns f r) (h' : Returns f r') :
    r = r' := by
  obtain ⟨n, hn⟩ := h
  obtain ⟨m, hm⟩ := h'
  have h1 := hn (max n m) (le_max_left n m)
  have h2 := hm (max n m) (le_max_right n m)
  exact Except.ok.inj (h1.symm.trans h2)

/-- **A sequence, backwards**: where the first part returns `a`, what the whole returns is what
    the second part returns on `a`. -/
theorem Returns.bind_inv {f : Nat → Exec α} {g : Nat → α → Exec β} {a : α} {b : β}
    (hf : Returns f a) (h : Returns (fun fuel => f fuel >>= g fuel) b) :
    Returns (fun fuel => g fuel a) b := by
  obtain ⟨n, hn⟩ := hf
  obtain ⟨m, hm⟩ := h
  refine ⟨max n m, fun fuel hfuel => ?_⟩
  have h1 := hn fuel (le_trans (le_max_left n m) hfuel)
  have h2 := hm fuel (le_trans (le_max_right n m) hfuel)
  simpa only [h1, ok_bind] using h2

/-- **A computation that never returns**: it uses up any fuel. -/
def Diverges (f : Nat → Exec α) : Prop := ∀ fuel, f fuel = .error .outOfFuel

theorem Diverges.not_returns {f : Nat → Exec α} (h : Diverges f) (r : α) : ¬ Returns f r := by
  rintro ⟨n, hn⟩
  have hok := hn n (le_refl n)
  rw [h n] at hok
  cases hok

/-- One pass of a loop. -/
theorem Diverges.step {f g : Nat → Exec α} (hg : Diverges g) (h0 : f 0 = .error .outOfFuel)
    (h : ∀ fuel, f (fuel + 1) = g fuel) : Diverges f
  | 0 => h0
  | fuel + 1 => (h fuel).trans (hg fuel)

/-- **A loop never ends** where every pass leads from a state with `I` to another one. -/
theorem Diverges.of_progress {ι : Type} {f : ι → Nat → Exec α} {I : ι → Prop}
    (h0 : ∀ i, f i 0 = .error .outOfFuel)
    (hI : ∀ i, I i → ∃ j, I j ∧ ∀ fuel, f i (fuel + 1) = f j fuel) {i : ι} (hi : I i) :
    Diverges (f i) := by
  intro fuel
  induction fuel generalizing i with
  | zero => exact h0 i
  | succ fuel ih =>
    obtain ⟨j, hj, hstep⟩ := hI i hi
    rw [hstep, ih hj]

/-- **With enough fuel the program stops**, and returns nothing. -/
def Stops (f : Nat → Exec α) : Prop := ∃ n, ∀ fuel, n ≤ fuel → f fuel = .error .fault

theorem Stops.not_returns {f : Nat → Exec α} (h : Stops f) (r : α) : ¬ Returns f r := by
  rintro ⟨n, hn⟩
  obtain ⟨m, hm⟩ := h
  have hok := hn (max n m) (le_max_left n m)
  rw [hm (max n m) (le_max_right n m)] at hok
  cases hok

/-- It stops once `x` has returned. -/
theorem Stops.after {f : Nat → Exec β} {x : Nat → Exec α} {a : α} (hx : Returns x a)
    (h : ∀ fuel, x fuel = .ok a → f fuel = .error .fault) : Stops f := by
  obtain ⟨n, hn⟩ := hx
  exact ⟨n, fun fuel hf => h fuel (hn fuel hf)⟩

/-- A sequence stops where its first part does. -/
theorem Stops.part {f : Nat → Exec β} {x : Nat → Exec α} (hx : Stops x)
    (h : ∀ fuel, x fuel = .error .fault → f fuel = .error .fault) : Stops f := by
  obtain ⟨n, hn⟩ := hx
  exact ⟨n, fun fuel hf => h fuel (hn fuel hf)⟩

/-- A sequence stops where its first part returns, and its second part stops. -/
theorem Stops.both {γ : Type} {f : Nat → Exec γ} {x : Nat → Exec α} {y : Nat → Exec β} {a : α}
    (h : ∀ fuel, x fuel = .ok a → y fuel = .error .fault → f fuel = .error .fault)
    (hx : Returns x a) (hy : Stops y) : Stops f := by
  obtain ⟨n, hn⟩ := hx
  obtain ⟨m, hm⟩ := hy
  exact ⟨max n m, fun fuel hfuel => h fuel (hn fuel (le_trans (le_max_left n m) hfuel))
    (hm fuel (le_trans (le_max_right n m) hfuel))⟩

/-- **A computation that returns** something. -/
def Terminates (f : Nat → Exec α) : Prop := ∃ r, Returns f r

theorem Terminates.of_eq {f : Nat → Exec α} {r : α} (h : ∀ fuel, f fuel = .ok r) : Terminates f :=
  ⟨r, Returns.of_eq h⟩

/-- What a computation that terminates returns, it returns with some fuel. -/
theorem Terminates.exists_ok {f : Nat → Exec α} (h : Terminates f) : ∃ fuel r, f fuel = .ok r := by
  obtain ⟨r, n, hn⟩ := h
  exact ⟨n, r, hn n (le_refl n)⟩

/-- A sequence terminates where its first part does, and its second part on what the first one
    returns. -/
theorem Terminates.bind {f : Nat → Exec α} {g : Nat → α → Exec β} (hf : Terminates f)
    (hg : ∀ a, Returns f a → Terminates fun fuel => g fuel a) :
    Terminates fun fuel => f fuel >>= g fuel := by
  obtain ⟨a, ha⟩ := hf
  obtain ⟨b, hb⟩ := hg a ha
  exact ⟨b, ha.bind hb⟩

/-- **A loop ends** where every pass is its last one, or leaves less to do. -/
theorem Terminates.of_measure {ι : Type} {f : ι → Nat → Exec α} (rest : ι → Nat)
    (h : ∀ i, (∃ r, ∀ fuel, f i (fuel + 1) = .ok r) ∨
      ∃ j, rest j < rest i ∧ ∀ fuel, f i (fuel + 1) = f j fuel) (i : ι) : Terminates (f i) := by
  induction hrest : rest i using Nat.strongRecOn generalizing i with
  | ind n ih =>
    subst hrest
    rcases h i with ⟨r, hr⟩ | ⟨j, hlt, hstep⟩
    · exact ⟨r, Returns.of_succ hr⟩
    · obtain ⟨r, hr⟩ := ih (rest j) hlt j rfl
      exact ⟨r, hr.step hstep⟩

end Base
