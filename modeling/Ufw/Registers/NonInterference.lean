/-
  File:      Ufw/Registers/NonInterference.lean
  Subject:   REGISTER TABLE: a value that was set is read back, and nothing else changes.

  * `registerSet_nonInterference` -- **after `register_set`, `register_get` returns the value that
    was set**; of every other entry it returns what it did before, and the atoms outside are
    unchanged.
-/
import Ufw.Registers.TypedRaw

namespace Ufw

open Base

variable {δ : Type} {h : Host}

/-- **Setting a register** is reading it back, and leaves everything else alone. -/
theorem registerSet_nonInterference {t t' : RegisterTable δ} (hinit : Initialised h t)
    (hr : InRange t) (hm : MemoryBacked t) {i : Nat} (hi : i < t.entries) {v : RegisterValue}
    {rv : RegisterAccess} (hset : registerSet h t i v = .ok (rv, t')) (hs : rv.code = .success) :
    registerGet h t' i = .ok (regAccessResultInit, v, t') ∧
      (∀ j, j < t.entries → j ≠ i → ∃ rv w, registerGet h t j = .ok (rv, w, t) ∧
        registerGet h t' j = .ok (rv, w, t')) ∧
      ∀ an k, ¬(an < t.areas ∧ k < (t.area an).size.toNat ∧
        (t.entry i).address.toNat ≤ (t.area an).base.toNat + k ∧
        (t.area an).base.toNat + k < (t.entry i).address.toNat + rdsSize (t.entry i).type) →
        t'.mem an k = t.mem an k := by
  have hl := hinit.layout
  obtain ⟨an, hp⟩ := hl.place hr hi
  obtain ⟨rv', u, hrun, hiff, hdone, -⟩ := registerSet_eq (h := h) hl.initialised
    (hl.areasAscending hr.areas) hm hi (hl.typed i hi) hp v
  cases hrun.symm.trans hset
  obtain ⟨hval, hu⟩ := hiff.mp hs
  have htype := rvValidate_type hval
  rw [hdone hs]
  -- the table after the write: the places are the same
  have hl' := hl.writing (t.entry i).address.toNat (rdsSize (t.entry i).type)
    (Mem.ofList 0 (valueAtoms h (bitIsset t.flags regTfBigEndian) v))
  have hm' := hm.writing (t.entry i).address.toNat (rdsSize (t.entry i).type)
    (Mem.ofList 0 (valueAtoms h (bitIsset t.flags regTfBigEndian) v))
  have hplace : ∀ {j bn}, Place t j bn → Place (t.writing (t.entry i).address.toNat
      (rdsSize (t.entry i).type)
      (Mem.ofList 0 (valueAtoms h (bitIsset t.flags regTfBigEndian) v))) j bn :=
    fun hpj => ⟨hpj.area_lt, hpj.area_eq, hpj.offset_eq, hpj.stop_le⟩
  refine ⟨?_, fun j hj hne => ?_, fun bn k hk => writing_outside hk⟩
  · have hget := registerGet_eq (h := h) hl' hm' hi (hplace hp)
    have hvalue : entryValue h (t.writing (t.entry i).address.toNat (rdsSize (t.entry i).type)
        (Mem.ofList 0 (valueAtoms h (bitIsset t.flags regTfBigEndian) v))) i = v :=
      entryValue_writing_self hp htype t.entryFlags
    rwa [hvalue, if_pos hu] at hget
  · obtain ⟨bn, hpj⟩ := hl.place hr hj
    have hkeep : entryValue h (t.writing (t.entry i).address.toNat (rdsSize (t.entry i).type)
        (Mem.ofList 0 (valueAtoms h (bitIsset t.flags regTfBigEndian) v))) j
        = entryValue h t j :=
      entryValue_writing_of_not_overlaps hpj t.entryFlags fun ⟨x, h1, h2, h3, h4⟩ =>
        hne (hl.entriesAscending.unique hj hi h3 h4 h1 h2)
    have hget := registerGet_eq (h := h) hl' hm' hj (hplace hpj)
    rw [hkeep] at hget
    exact ⟨_, _, registerGet_eq hl hm hj hpj, hget⟩

theorem registerSet_nonInterference_sample :
    ∃ t', registerSet lp64Host (initialTable lp64Host sampleTable) 1
        (RegisterValue.ofUnion .uint64 9) = .ok (regAccessResultInit, t') ∧
      registerGet lp64Host t' 1 = .ok (regAccessResultInit, RegisterValue.ofUnion .uint64 9, t') :=
  ⟨_, rfl, (registerSet_nonInterference (initialised_initialTable (by decide)) sampleTable_inRange
    sampleTable_memoryBacked (by decide) rfl rfl).1⟩

end Ufw
