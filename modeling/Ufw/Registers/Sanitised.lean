/-
  File:      Ufw/Registers/Sanitised.lean
  Subject:   REGISTER TABLE: what `register_sanitise` makes of arbitrary memory.

  * `SanitisePass` -- all that one pass of the loop over the entries can do;
  * `Sanitised` -- what the table is behind the first `n` passes; `SanitisePass.sanitised`, one pass
    more;
  * `registerSanitise_sanitised` -- **where `register_sanitise` succeeds, every entry holds a value
    it admits**: its own where it was one, and its default where it was not;
  * `registerInit_sanitise_iff` -- behind `register_init` there is nothing to do, **unless an entry
    admits no value**: its default is not admitted, either.
-/
import Ufw.Registers.Invariant
import Ufw.Registers.Placement
import Ufw.Registers.Sanitise

namespace Ufw

open Base

variable {δ : Type} {h : Host}

/-! ## 1. Sane entries -/

/-- **An entry that deserialises to a value its validator accepts.** -/
def EntrySane (h : Host) (t : RegisterTable δ) (i : Nat) : Prop :=
  ∃ v, (rdsSerdes h (t.entry i).type).des (entryRaw h t i) (bitIsset t.flags regTfBigEndian)
      = .ok (v, true) ∧ rvValidate t (t.entry i) v = true

/-- The table with another memory and other flags of its entries. -/
def RegisterTable.holding (t : RegisterTable δ) (mem : Mem (Mem RegisterAtom))
    (entryFlags : Mem (BitVec 16)) : RegisterTable δ :=
  { t with mem := mem, entryFlags := entryFlags }

/-- What a pass finds: a table with its layout, whatever it holds. -/
structure Sanitisable (t : RegisterTable δ) : Prop where
  layout : Layout t
  inRange : InRange t
  memoryBacked : MemoryBacked t

theorem Sanitisable.holding {t : RegisterTable δ} (ht : Sanitisable t)
    (mem : Mem (Mem RegisterAtom)) (entryFlags : Mem (BitVec 16)) :
    Sanitisable (t.holding mem entryFlags) where
  layout := ht.layout.congr mem t.dev entryFlags
  inRange := ⟨ht.inRange.areas, ht.inRange.entries⟩
  memoryBacked := ⟨ht.memoryBacked.read, ht.memoryBacked.write, ht.memoryBacked.hasMem⟩

theorem Place.holding {t : RegisterTable δ} {i an : Nat} (hp : Place t i an)
    (mem : Mem (Mem RegisterAtom)) (entryFlags : Mem (BitVec 16)) :
    Place (t.holding mem entryFlags) i an :=
  ⟨hp.area_lt, hp.area_eq, hp.offset_eq, hp.stop_le⟩

section Sane

variable {t : RegisterTable δ} (ht : Sanitisable t) {i : Nat} (hi : i < t.entries)

include ht hi

theorem Sanitisable.entrySane_iff :
    EntrySane h t i ↔ (entryValue h t i).usable = true ∧
      rvValidate t (t.entry i) (entryValue h t i) = true := by
  obtain ⟨an, hp⟩ := ht.layout.place ht.inRange hi
  exact deserialises_iff (ht.layout.typed i hi) hp

/-- **`reg_entry_sane`** reads, and it tells sane entries from others. -/
theorem Sanitisable.regEntrySane_eq :
    ∃ rv, regEntrySane h t i = .ok (rv, t) ∧ (EntrySane h t i → rv.code = .success) ∧
      (¬EntrySane h t i → rv.code = .invalid ∨ rv.code = .range) := by
  obtain ⟨an, hp⟩ := ht.layout.place ht.inRange hi
  unfold regEntrySane
  rw [registerGet_eq ht.layout ht.memoryBacked hi hp, ok_bind, ht.entrySane_iff hi]
  simp only
  by_cases hu : (entryValue h t i).usable = true
  · rw [if_pos hu]
    cases hv : rvValidate t (t.entry i) (entryValue h t i) with
    | false => exact ⟨_, rfl, fun hc => Bool.noConfusion hc.2, fun _ => .inr rfl⟩
    | true => exact ⟨_, rfl, fun _ => rfl, fun hc => absurd ⟨hu, rfl⟩ hc⟩
  · rw [if_neg hu]
    exact ⟨_, rfl, fun hc => absurd hc.1 hu, fun _ => .inl rfl⟩

end Sane

/-! ## 2. Passes -/

/-- The table with entry `i` set to its default value. -/
def RegisterTable.defaulted (h : Host) (t : RegisterTable δ) (i : Nat) : RegisterTable δ :=
  t.writing (t.entry i).address.toNat (rdsSize (t.entry i).type)
    (Mem.ofList 0 (valueAtoms h (bitIsset t.flags regTfBigEndian) (t.entry i).default))

/-- **All that a pass over entry `i` can do**, unless it ends the loop. -/
inductive SanitisePass (h : Host) (i : Nat) (t : RegisterTable δ) : RegisterTable δ → Prop where
  | keep (hsane : EntrySane h t i) : SanitisePass h i t (registerUntouch t i)
  | reset (hbad : ¬EntrySane h t i) (hu : (t.entry i).default.usable = true)
      (hv : rvValidate t (t.entry i) (t.entry i).default = true) :
      SanitisePass h i t (registerUntouch (t.defaulted h i) i)

/-- **`reg_entry_load_default`** is admitted as any other value is. -/
theorem Sanitisable.regEntryLoadDefault_eq {t : RegisterTable δ} (ht : Sanitisable t) {i : Nat}
    (hi : i < t.entries) :
    ∃ rv t', regEntryLoadDefault h t i = .ok (rv, t') ∧
      (rv.code = .success ↔ rvValidate t (t.entry i) (t.entry i).default = true ∧
        (t.entry i).default.usable = true) ∧
      (rv.code = .success → t' = t.defaulted h i) ∧ (rv.code ≠ .success → t' = t) := by
  obtain ⟨an, hp⟩ := ht.layout.place ht.inRange hi
  exact registerSet_eq ht.layout.initialised (ht.layout.areasAscending ht.inRange.areas)
    ht.memoryBacked hi (ht.layout.typed i hi) hp _

theorem Sanitisable.registerSanitiseFrom_succ {t t' : RegisterTable δ} (ht : Sanitisable t)
    {k i : Nat} (hi : i < t.entries) {rv : RegisterAccess}
    (hrun : registerSanitiseFrom h (k + 1) i t = .ok (rv, t')) (hs : rv.code = .success) :
    ∃ t₁, SanitisePass h i t t₁ ∧ registerSanitiseFrom h k (i + 1) t₁ = .ok (rv, t') := by
  obtain ⟨access, hsane, hyes, hno⟩ := ht.regEntrySane_eq (h := h) hi
  unfold registerSanitiseFrom at hrun
  rw [hsane, ok_bind] at hrun
  simp only at hrun
  by_cases hg : EntrySane h t i
  · rw [hyes hg] at hrun
    exact ⟨_, .keep hg, hrun⟩
  · obtain ⟨loaded, u, hload, hiff, hdone, -⟩ := ht.regEntryLoadDefault_eq (h := h) hi
    have hrest : (if loaded.code ≠ .success then .ok (loaded, u)
        else registerSanitiseFrom h k (i + 1) (registerUntouch u i)) = .ok (rv, t') := by
      rcases hno hg with hc | hc <;> rw [hc] at hrun <;> simp only at hrun <;>
        rw [hload, ok_bind] at hrun <;> exact hrun
    split at hrest
    · rename_i hne
      cases hrest
      exact absurd hs hne
    · rename_i hc
      have hcode := not_not.mp hc
      obtain ⟨hv, hu⟩ := hiff.mp hcode
      rw [hdone hcode] at hrest
      exact ⟨_, .reset hg hu hv, hrest⟩

/-! ## 3. One entry is set to its default -/

section Defaulted

variable {t : RegisterTable δ} (ht : Sanitisable t) {i : Nat} (hi : i < t.entries)

include ht hi

theorem Sanitisable.entryValue_defaulted :
    entryValue h (t.defaulted h i) i = (t.entry i).default := by
  obtain ⟨an, hp⟩ := ht.layout.place ht.inRange hi
  exact entryValue_writing_self hp rfl t.entryFlags

theorem Sanitisable.entryAtoms_defaulted {j : Nat} (hj : j < t.entries) (hne : j ≠ i) :
    entryAtoms (t.defaulted h i) j = entryAtoms t j := by
  obtain ⟨an, hp⟩ := ht.layout.place ht.inRange hj
  refine entryAtoms_writing_of_not_overlaps hp t.entryFlags fun ⟨x, h1, h2, h3, h4⟩ => hne ?_
  exact ht.layout.entriesAscending.unique hj hi h3 h4 h1 h2

end Defaulted

/-- An atom of no entry: none of the entries holds its address, or it has none. -/
def OfNoEntry (t : RegisterTable δ) (an k : Nat) : Prop :=
  ∀ i, i < t.entries → ¬(an < t.areas ∧ k < (t.area an).size.toNat ∧
    EntryHolds t i ((t.area an).base.toNat + k))

theorem mem_defaulted {t : RegisterTable δ} {i an k : Nat} (hi : i < t.entries)
    (ho : OfNoEntry t an k) : (t.defaulted h i).mem an k = t.mem an k :=
  writing_outside (ho i hi)

/-- An entry is sane by what it holds. -/
theorem Sanitisable.entrySane_congr {t u : RegisterTable δ} (ht : Sanitisable t)
    (hu : Sanitisable u) {i : Nat} (hi : i < t.entries)
    (hsame : ∃ mem entryFlags, u = t.holding mem entryFlags)
    (hatoms : entryAtoms u i = entryAtoms t i) : EntrySane h u i ↔ EntrySane h t i := by
  obtain ⟨mem, entryFlags, rfl⟩ := hsame
  have hvalue : entryValue h (t.holding mem entryFlags) i = entryValue h t i :=
    congrArg (atomsValue h _ _) hatoms
  rw [ht.entrySane_iff hi, hu.entrySane_iff hi, hvalue]
  rfl

/-! ## 4. The loop -/

/-- **The first `n` entries of `t` are sanitised** in `t'`, and the others are as they were. -/
structure Sanitised (h : Host) (t : RegisterTable δ) (n : Nat) (t' : RegisterTable δ) : Prop where
  same : ∃ mem entryFlags, t' = t.holding mem entryFlags
  sane : ∀ i, i < n → EntrySane h t' i
  kept : ∀ i, i < n → EntrySane h t i → entryAtoms t' i = entryAtoms t i
  reset : ∀ i, i < n → ¬EntrySane h t i → entryValue h t' i = (t.entry i).default
  rest : ∀ i, n ≤ i → i < t.entries → entryAtoms t' i = entryAtoms t i
  others : ∀ an k, OfNoEntry t an k → t'.mem an k = t.mem an k
  untouched : ∀ i, i < n → registerWasTouched t' i = false

theorem registerWasTouched_untouch (t : RegisterTable δ) (i j : Nat) :
    registerWasTouched (registerUntouch t i) j
      = if j = i then false else registerWasTouched t j := by
  unfold registerWasTouched registerUntouch
  simp only
  by_cases he : j = i
  · rw [if_pos he, he, Function.update_self]
    exact bitIsset_bitClear _ (by decide)
  · rw [if_neg he, Function.update_of_ne he]

theorem Sanitised.start {t : RegisterTable δ} : Sanitised h t 0 t where
  same := ⟨t.mem, t.entryFlags, rfl⟩
  sane := fun i hi => absurd hi (Nat.not_lt_zero i)
  kept := fun i hi => absurd hi (Nat.not_lt_zero i)
  reset := fun i hi => absurd hi (Nat.not_lt_zero i)
  rest := fun _ _ _ => rfl
  others := fun _ _ _ => rfl
  untouched := fun i hi => absurd hi (Nat.not_lt_zero i)

/-- No entry up to `i` is touched behind a pass over `i`. -/
theorem untouched_succ {t : RegisterTable δ} {i : Nat}
    (hu : ∀ j, j < i → registerWasTouched t j = false) (j : Nat) (hj : j < i + 1) :
    registerWasTouched (registerUntouch t i) j = false := by
  rw [registerWasTouched_untouch]
  split
  · rfl
  · exact hu j (by omega)

section Pass

variable {t u : RegisterTable δ} (ht : Sanitisable t) {i : Nat} (hi : i < t.entries)
  (hdone : Sanitised h t i u)

include hdone ht

theorem Sanitised.sanitisable : Sanitisable u := by
  obtain ⟨mem, entryFlags, rfl⟩ := hdone.same
  exact ht.holding mem entryFlags

include hi

/-- An entry the loop has not come to is sane if it was. -/
theorem Sanitised.entrySane_iff : EntrySane h u i ↔ EntrySane h t i :=
  ht.entrySane_congr (hdone.sanitisable ht) hi hdone.same (hdone.rest i (Nat.le_refl i) hi)

/-- A pass that finds its entry sane. -/
theorem Sanitised.keep (hg : EntrySane h u i) : Sanitised h t (i + 1) (registerUntouch u i) where
  same := by
    obtain ⟨mem, entryFlags, rfl⟩ := hdone.same
    exact ⟨_, _, rfl⟩
  sane := Nat.forall_lt_succ_right.mpr ⟨hdone.sane, hg⟩
  kept := Nat.forall_lt_succ_right.mpr ⟨hdone.kept, fun _ => hdone.rest i (Nat.le_refl i) hi⟩
  reset := Nat.forall_lt_succ_right.mpr
    ⟨hdone.reset, fun hs => absurd ((hdone.entrySane_iff ht hi).mp hg) hs⟩
  rest := fun j h1 h2 => hdone.rest j (by omega) h2
  others := hdone.others
  untouched := untouched_succ hdone.untouched

/-- A pass that sets its entry to the default: what the other entries hold is left alone. -/
theorem Sanitised.setDefault (hbad : ¬EntrySane h u i) (hdef : (u.entry i).default.usable = true)
    (hv : rvValidate u (u.entry i) (u.entry i).default = true) :
    Sanitised h t (i + 1) (registerUntouch (u.defaulted h i) i) := by
  have hsame := hdone.entrySane_iff ht hi
  obtain ⟨mem, entryFlags, rfl⟩ := hdone.same
  have hu := ht.holding mem entryFlags
  have hw : Sanitisable ((t.holding mem entryFlags).defaulted h i) := hu.holding _ entryFlags
  have hvalue := hu.entryValue_defaulted (h := h) hi
  have hkeep : ∀ j, j < t.entries → j ≠ i →
      entryAtoms ((t.holding mem entryFlags).defaulted h i) j
        = entryAtoms (t.holding mem entryFlags) j :=
    fun j hj hne => hu.entryAtoms_defaulted (h := h) hi hj hne
  exact
    { same := ⟨_, _, rfl⟩
      sane := Nat.forall_lt_succ_right.mpr ⟨fun j hj => by
          have hj' : j < t.entries := Nat.lt_trans hj hi
          exact (hu.entrySane_congr (h := h) hw hj' ⟨_, _, rfl⟩ (hkeep j hj' (by omega))).mpr
            (hdone.sane j hj), by
          refine (hw.entrySane_iff hi).mpr ?_
          rw [hvalue]
          exact ⟨hdef, hv⟩⟩
      kept := Nat.forall_lt_succ_right.mpr
        ⟨fun j hj hs => (hkeep j (by omega) (by omega)).trans (hdone.kept j hj hs),
          fun hs => absurd (hsame.mpr hs) hbad⟩
      reset := Nat.forall_lt_succ_right.mpr
        ⟨fun j hj hs => (congrArg (atomsValue h _ _) (hkeep j (by omega) (by omega))).trans
          (hdone.reset j hj hs), fun _ => hvalue⟩
      rest := fun j h1 h2 => (hkeep j h2 (by omega)).trans (hdone.rest j (by omega) h2)
      others := fun an k ho => (mem_defaulted (t := t.holding mem entryFlags) hi ho).trans
        (hdone.others an k ho)
      untouched := untouched_succ hdone.untouched }

/-- **A pass sanitises one entry more.** -/
theorem SanitisePass.sanitised {u' : RegisterTable δ} (hpass : SanitisePass h i u u') :
    Sanitised h t (i + 1) u' := by
  cases hpass with
  | keep hg => exact hdone.keep ht hi hg
  | reset hbad hdef hv => exact hdone.setDefault ht hi hbad hdef hv

end Pass

/-- **The loop sanitises all of them.** -/
theorem registerSanitiseFrom_sanitised {t : RegisterTable δ} (ht : Sanitisable t) {k i : Nat}
    (hk : i + k = t.entries) {u t' : RegisterTable δ} (hdone : Sanitised h t i u)
    {rv : RegisterAccess} (hrun : registerSanitiseFrom h k i u = .ok (rv, t'))
    (hs : rv.code = .success) : Sanitised h t t.entries t' := by
  induction k generalizing i u with
  | zero =>
    cases hrun
    rwa [← hk]
  | succ k ih =>
    have hu := hdone.sanitisable ht
    have hi : i < u.entries := by
      obtain ⟨mem, entryFlags, rfl⟩ := hdone.same
      show i < t.entries
      omega
    obtain ⟨u', hpass, hrest⟩ := hu.registerSanitiseFrom_succ hi hrun hs
    exact ih (by omega) (hpass.sanitised ht (by omega) hdone) hrest

theorem Sanitisable.sanitised {t t' : RegisterTable δ} (ht : Sanitisable t) {rv : RegisterAccess}
    (hrun : registerSanitise h t = .ok (rv, t')) (hs : rv.code = .success) :
    Sanitised h t t.entries t' := by
  unfold registerSanitise at hrun
  rw [ht.layout.initialised, if_neg (by decide)] at hrun
  exact registerSanitiseFrom_sanitised ht (Nat.zero_add _) .start hrun hs

/-- **What `register_sanitise` makes of arbitrary memory**, where it succeeds. -/
theorem registerSanitise_sanitised {t t' : RegisterTable δ} (hinit : Initialised h t)
    (hr : InRange t) (hm : MemoryBacked t) {rv : RegisterAccess}
    (hrun : registerSanitise h t = .ok (rv, t')) (hs : rv.code = .success) :
    Sanitised h t t.entries t' :=
  Sanitisable.sanitised ⟨hinit.layout, hr, hm⟩ hrun hs

/-- The table of two areas, with every atom of its memory lost. -/
def corruptTable : RegisterTable Unit :=
  (initialTable lp64Host sampleTable).holding (fun _ _ => 0xffff) (fun _ => regEfTouched)

theorem Initialised.holding {t : RegisterTable δ} (hi : Initialised h t)
    (mem : Mem (Mem RegisterAtom)) (entryFlags : Mem (BitVec 16)) :
    Initialised h (t.holding mem entryFlags) := by
  obtain ⟨t₀, rv, t₁, bigendian, hinit, hs, he⟩ := hi
  exact ⟨t₀, rv, t₁, bigendian, hinit, hs,
    congrArg (fun u : RegisterTable δ => u.holding mem entryFlags) he⟩

/-- Its second register was beyond its limit of 10, and is zero again. -/
theorem registerSanitise_sanitised_sample :
    ∃ t', registerSanitise lp64Host corruptTable = .ok (regAccessResultInit, t') ∧
      Sanitised lp64Host corruptTable 2 t' ∧ entryAtoms t' 0 = [0xffff] ∧
      entryAtoms t' 1 = [0, 0, 0, 0] :=
  ⟨_, rfl, registerSanitise_sanitised ((initialised_initialTable rfl).holding _ _)
    ⟨sampleTable_inRange.areas, sampleTable_inRange.entries⟩
    ⟨sampleTable_memoryBacked.read, sampleTable_memoryBacked.write,
      sampleTable_memoryBacked.hasMem⟩ rfl rfl, by decide, by decide⟩

/-! ## 5. Behind `register_init` -/

/-- **The property**: sanitising succeeds and leaves the memory alone. -/
def SanitiseIdle (h : Host) (t : RegisterTable δ) : Prop :=
  ∃ rv t', registerSanitise h t = .ok (rv, t') ∧ rv.code = .success ∧ t'.mem = t.mem

/-- Where every entry is sane there is nothing to do. -/
theorem registerSanitiseFrom_idle {t : RegisterTable δ} (ht : Sanitisable t) {k i : Nat}
    (hk : i + k = t.entries) (hsane : ∀ j, j < t.entries → EntrySane h t j) :
    ∃ rv t', registerSanitiseFrom h k i t = .ok (rv, t') ∧ rv.code = .success ∧
      t'.mem = t.mem := by
  induction k generalizing i t with
  | zero => exact ⟨_, t, rfl, rfl, rfl⟩
  | succ k ih =>
    have hi : i < t.entries := by omega
    obtain ⟨access, hrun, hyes, -⟩ := ht.regEntrySane_eq (h := h) hi
    unfold registerSanitiseFrom
    rw [hrun, ok_bind]
    simp only [hyes (hsane i hi)]
    exact ih (ht.holding t.mem (registerUntouch t i).entryFlags)
      (by show i + 1 + k = t.entries; omega) hsane

/-- An entry that admits no value is never sane once `register_init` is done. -/
theorem Layout.not_entrySane {t : RegisterTable δ} (hl : Layout t) {i : Nat}
    (hf : (t.entry i).check = .fail) : ¬EntrySane h t i := by
  rintro ⟨v, -, hv⟩
  unfold rvValidate at hv
  split at hv
  · cases hv
  · rw [hf] at hv
    exact Bool.noConfusion (hl.settled.symm.trans hv)

/-- **Sanitising behind `register_init`** has nothing to do, if and only if no entry is one that
    admits no value. -/
theorem registerInit_sanitise_iff {t₀ t : RegisterTable δ} {rv : RegisterInit}
    (hinit : registerInit h t₀ = .ok (rv, t)) (hs : rv.code = .success) (hm : MemoryBacked t)
    (hskip : ∀ i, i < t.areas → bitIsset (t.area i).flags regAfSkipDefaults = false)
    (hr : InRange t) :
    SanitiseIdle h t ↔ ∀ i, i < t.entries → (t.entry i).check ≠ .fail := by
  have hvalid := (registerInit_accepts hinit hs).valid hr hm hskip
  have ht : Sanitisable t := ⟨hvalid.layout, hr, hm⟩
  constructor
  · rintro ⟨rv', t', hrun, hcode, -⟩ i hi hf
    have hdone := ht.sanitised hrun hcode
    obtain ⟨mem, entryFlags, rfl⟩ := hdone.same
    exact (ht.holding mem entryFlags).layout.not_entrySane hf (hdone.sane i hi)
  · intro hnone
    have hsane : ∀ i, i < t.entries → EntrySane h t i := by
      intro i hi
      obtain ⟨v, hdes, hsat⟩ := hvalid.valid i hi
      refine ⟨v, hdes, ?_⟩
      unfold Satisfies at hsat
      have hne := hnone i hi
      split at hsat
      · rename_i hf
        exact absurd hf hne
      · exact hsat
    unfold SanitiseIdle registerSanitise
    rw [ht.layout.initialised, if_neg (by decide)]
    exact registerSanitiseFrom_idle ht (Nat.zero_add _) hsane

/-- A register of two atoms with a default value, and one that admits no other. -/
def constantTable : RegisterTable Unit :=
  tableOf [memoryArea 0 4] [⟨.uint32, 7, 0, .max 10⟩, ⟨.uint16, 9, 2, .fail⟩]

theorem constantTable_memoryBacked : MemoryBacked (initialTable lp64Host constantTable) := by
  have hall : ∀ i, i < 1 →
      (initialTable lp64Host constantTable).area i = memoryArea 0 4 := by
    intro i hi
    obtain rfl : i = 0 := by omega
    rfl
  refine ⟨fun i hi => ?_, fun i hi => ?_, fun i hi => ?_⟩ <;> rw [hall i hi] <;> rfl

/-- The table of two areas is left alone, that with the constant is not. -/
theorem registerInit_sanitise_iff_sample :
    SanitiseIdle lp64Host (initialTable lp64Host sampleTable) ∧
      ¬SanitiseIdle lp64Host (initialTable lp64Host constantTable) := by
  constructor
  · refine (@registerInit_sanitise_iff _ _ sampleTable _ _ rfl rfl sampleTable_memoryBacked
      (by decide) sampleTable_inRange).mpr ?_
    show ∀ i, i < 2 → _
    intro i hi hf
    interval_cases i <;> cases hf
  · intro hidle
    exact (@registerInit_sanitise_iff _ _ constantTable _ _ rfl rfl constantTable_memoryBacked
      (by decide) ⟨by decide, by decide⟩).mp hidle 1 (by decide) rfl

/-- The default value of a constant is admitted while `register_init` is at work, and refused from
    then on: sanitising fails with `range`. -/
theorem not_sanitiseIdle :
    ¬∀ (t₀ t : RegisterTable Unit) (rv : RegisterInit), registerInit lp64Host t₀ = .ok (rv, t) →
      rv.code = .success → MemoryBacked t →
      (∀ i, i < t.areas → bitIsset (t.area i).flags regAfWriteable = true) →
      (∀ i, i < t.areas → bitIsset (t.area i).flags regAfSkipDefaults = false) → InRange t →
      SanitiseIdle lp64Host t := by
  intro hall
  obtain ⟨rv, t', hrun, hcode, -⟩ := hall constantTable _ _ rfl rfl constantTable_memoryBacked
    (by decide) (by decide) ⟨by decide, by decide⟩
  cases hrun
  cases hcode

end Ufw
