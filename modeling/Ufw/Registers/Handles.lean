/-
  File:      Ufw/Registers/Handles.lean
  Subject:   REGISTER TABLE: handles no entry of a table has.

  * `HandleCall` -- the operations on the register of a handle;
  * `Refuses` -- THE PROPERTY: a call answers `noentry`, whatever the slots of the table hold;
  * `refuses_iff` -- **every call refuses every handle out of range**, but for `register_set` and
    `register_set_unsafe`: they let the handle of the end marker through.
-/
import Ufw.Registers.Layout

namespace Ufw

open Base

variable {δ : Type} {h : Host}

/-! ## 1. Calls -/

/-- The operations on a single register, with their value arguments. -/
inductive HandleCall where
  | set (v : RegisterValue)
  | setUnsafe (v : RegisterValue)
  | get
  | default (v : RegisterValue)
  | bitSet (v : RegisterValue)
  | bitClear (v : RegisterValue)

/-- What a call answers, and the table it leaves behind. -/
def HandleCall.run (h : Host) (t : RegisterTable δ) (idx : Nat) :
    HandleCall → Exec (RegisterAccess × RegisterTable δ)
  | .set v => registerSet h t idx v
  | .setUnsafe v => registerSetUnsafe h t idx v
  | .get => do
    let (rv, _, t) ← registerGet h t idx
    return (rv, t)
  | .default v => .ok ((registerDefault t idx v).1, t)
  | .bitSet v => registerBitSet h t idx v
  | .bitClear v => registerBitClear h t idx v

/-- **A call refuses a handle**: it looks at nothing but the flags of the table and the number of
    its entries. Areas with their methods, entries with their validators, links and memory may be
    any. -/
def Refuses (h : Host) (t : RegisterTable δ) (idx : Nat) (c : HandleCall) : Prop :=
  ∀ u : RegisterTable δ, u.flags = t.flags → u.entries = t.entries →
    c.run h u idx = .ok (⟨.noentry, BitVec.ofNat 32 idx⟩, u)

/-! ## 2. The three checks of a handle -/

section Checks

variable {u : RegisterTable δ} {idx : Nat} (hinit : bitIsset u.flags regTfInitialised = true)

include hinit

theorem registerSetx_refuses (hidx : u.entries < idx) (v : RegisterValue) (withvalidator : Bool) :
    registerSetx h u idx v withvalidator = .ok (⟨.noentry, BitVec.ofNat 32 idx⟩, u) := by
  unfold registerSetx
  simp only [hinit]
  rw [if_neg (by decide), if_pos hidx]

theorem registerGet_refuses (hidx : u.entries ≤ idx) :
    registerGet h u idx
      = .ok (⟨.noentry, BitVec.ofNat 32 idx⟩, RegisterValue.ofUnion .invalid 0, u) := by
  unfold registerGet
  simp only [hinit]
  rw [if_neg (by decide), if_pos hidx]

theorem registerDefault_refuses (hidx : u.entries ≤ idx) (v : RegisterValue) :
    registerDefault u idx v = (⟨.noentry, BitVec.ofNat 32 idx⟩, v) := by
  unfold registerDefault
  simp only [hinit]
  rw [if_neg (by decide), if_pos hidx]

theorem registerBits_refuses (hidx : u.entries ≤ idx) (op : BitVec 64 → BitVec 64 → BitVec 64)
    (v : RegisterValue) :
    registerBits h u idx op v = .ok (⟨.noentry, BitVec.ofNat 32 idx⟩, u) := by
  unfold registerBits
  rw [registerGet_refuses hinit hidx, ok_bind]
  rfl

/-- `register_setx` lets the slot behind the last entry through: where that is not linked, it
    answers something else, or it does not return. -/
theorem registerSetx_end (hlink : (u.link u.entries).area = none) (v : RegisterValue)
    (withvalidator : Bool) :
    registerSetx h u u.entries v withvalidator
      = if withvalidator && !rvValidate u (u.entry u.entries) v then
          .ok (⟨.range, (u.entry u.entries).address⟩, u)
        else .error .fault := by
  unfold registerSetx
  simp only [hinit, hlink]
  rw [if_neg (by decide), if_neg (Nat.lt_irrefl _)]

end Checks

/-! ## 3. Handles out of range -/

/-- The slots of a table, cleared: nothing is linked. -/
def RegisterTable.unlinked (t : RegisterTable δ) : RegisterTable δ :=
  { t with link := fun _ => ⟨none, 0⟩ }

/-- The end marker is not refused by `register_setx`. -/
theorem registerSetx_unlinked_ne {t : RegisterTable δ}
    (hinit : bitIsset t.flags regTfInitialised = true) (v : RegisterValue) (withvalidator : Bool) :
    registerSetx h t.unlinked t.entries v withvalidator
      ≠ .ok (⟨.noentry, BitVec.ofNat 32 t.entries⟩, t.unlinked) := by
  have hend : registerSetx h t.unlinked t.entries v withvalidator = _ :=
    registerSetx_end (u := t.unlinked) hinit rfl v withvalidator
  rw [hend]
  split
  · intro he
    cases congrArg (RegisterAccess.code ∘ Prod.fst) (Except.ok.inj he)
  · intro he
    cases he

/-- **Handles out of range**: which calls on a handle that no entry has are refused. -/
theorem refuses_iff {t : RegisterTable δ} (ht : Initialised h t) {idx : Nat}
    (hidx : t.entries ≤ idx) (c : HandleCall) :
    Refuses h t idx c ↔ (idx = t.entries → ∀ v, c ≠ .set v ∧ c ≠ .setUnsafe v) := by
  have hinit := ht.layout.initialised
  constructor
  · rintro hr rfl v
    constructor
    · rintro rfl
      exact registerSetx_unlinked_ne (h := h) hinit v true (hr t.unlinked rfl rfl)
    · rintro rfl
      exact registerSetx_unlinked_ne (h := h) hinit v false (hr t.unlinked rfl rfl)
  · intro hc u hflags hentries
    have hu : bitIsset u.flags regTfInitialised = true := by rw [hflags, hinit]
    have hidx' : u.entries ≤ idx := hentries.symm ▸ hidx
    have hlt : (∃ v, c = .set v ∨ c = .setUnsafe v) → u.entries < idx := by
      intro ⟨v, hv⟩
      refine lt_of_le_of_ne hidx' fun he => ?_
      obtain ⟨h1, h2⟩ := hc (he.symm.trans hentries) v
      exact hv.elim h1 h2
    cases c with
    | set v => exact registerSetx_refuses hu (hlt ⟨v, .inl rfl⟩) v true
    | setUnsafe v => exact registerSetx_refuses hu (hlt ⟨v, .inr rfl⟩) v false
    | get => exact congrArg (· >>= _) (registerGet_refuses hu hidx')
    | default v =>
      simp only [HandleCall.run, registerDefault_refuses hu hidx' v]
    | bitSet v => exact registerBits_refuses hu hidx' bitSet v
    | bitClear v => exact registerBits_refuses hu hidx' bitClear v

/-- Of the table of two registers, the handle 2 is that of the end marker. -/
theorem refuses_iff_sample :
    Refuses lp64Host (initialTable lp64Host sampleTable) 2 .get ∧
      ¬Refuses lp64Host (initialTable lp64Host sampleTable) 2
        (.set (RegisterValue.ofUnion .uint16 1)) := by
  have ht := initialised_initialTable (h := lp64Host) (t := sampleTable) rfl
  constructor
  · exact (refuses_iff ht (by decide) _).mpr fun _ v => ⟨nofun, nofun⟩
  · exact fun hr => ((refuses_iff ht (by decide) _).mp hr rfl _).1 rfl

/-- `register_set` answers `range` on the handle of the end marker, and `register_set_unsafe`
    follows the area it is not linked to. -/
theorem not_refuses :
    ¬∀ t : RegisterTable Unit, Initialised lp64Host t → ∀ idx, t.entries ≤ idx → ∀ c,
      Refuses lp64Host t idx c := by
  intro hall
  have ht := initialised_initialTable (h := lp64Host) (t := sampleTable) rfl
  have hset := hall _ ht 2 (by decide) (.set (RegisterValue.ofUnion .uint16 1))
  cases congrArg (RegisterAccess.code ∘ Prod.fst) (Except.ok.inj (hset _ rfl rfl))

end Ufw
