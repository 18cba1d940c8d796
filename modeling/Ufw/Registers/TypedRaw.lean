/-
  File:      Ufw/Registers/TypedRaw.lean
  Subject:   REGISTER TABLE: typed and raw writes agree.

  * `registerSet_iff_registerBlockWrite` -- **writing a value with `register_set` and writing its
    atoms with `register_block_write`** succeed on the same values, and leave the same memory.
-/
import Ufw.Registers.Entries

namespace Ufw

open Base

variable {δ : Type} {h : Host}

/-- Every area is readable and writeable (`REG_AF_RW`). -/
def ReadWrite (t : RegisterTable δ) : Prop :=
  ∀ i, i < t.areas → bitIsset (t.area i).flags regAfReadable = true ∧
    bitIsset (t.area i).flags regAfWriteable = true

/-! ## 1. The checks of a block that is an entry -/

theorem raWriteable_success {t : RegisterTable δ} (hm : MemoryBacked t) (hrw : ReadWrite t)
    (addr : RegisterAddress) (n : RegisterOffset) : (raWriteable t addr n).code = .success := by
  rcases @raWriteableFrom_cases δ t addr n _ _ (Nat.zero_add t.areas) with
    ⟨-, an, han, hro, -⟩ | ⟨hrun, -⟩
  · -- no area is read-only
    unfold registerAreaIsWriteable registerAreaCanWrite at hro
    rw [hm.write an han, (hrw an han).2] at hro
    cases hro
  · rw [raWriteable, hrun]
    rfl

theorem Place.noHole {t : RegisterTable δ} (hr : InRange t) {i an : Nat} (hi : i < t.entries)
    (hp : Place t i an) :
    NoHole t (t.entry i).address.toNat (rdsSize (t.entry i).type) := by
  have hlt := hr.entries i hi
  have h1 := hp.offset_eq
  have h2 := hp.stop_le
  exact ⟨hlt, fun x hx1 hx2 =>
    (Layout.mapped_iff hr.areas (by omega)).mpr ⟨an, hp.area_lt, by omega, by omega⟩⟩

/-- After its own atoms were written, an entry holds them. -/
theorem entryAtoms_writing_self {t : RegisterTable δ} {i an : Nat} (hp : Place t i an)
    (buf : Mem RegisterAtom) (flags : Mem (BitVec 16)) :
    entryAtoms { t.writing (t.entry i).address.toNat (rdsSize (t.entry i).type) buf with
      entryFlags := flags } i = buf.slice 0 (rdsSize (t.entry i).type) := by
  rw [entryAtoms_writing hp]
  refine List.map_congr_left fun k hk => ?_
  have hk' := List.mem_range.mp hk
  rw [if_pos ⟨by omega, by omega⟩]
  exact congrArg buf (by omega)

/-- After a value of its type was written to it, an entry holds it. -/
theorem entryValue_writing_self {t : RegisterTable δ} {i an : Nat} (hp : Place t i an)
    {v : RegisterValue} (hv : v.type = (t.entry i).type) (flags : Mem (BitVec 16)) :
    entryValue h { t.writing (t.entry i).address.toNat (rdsSize (t.entry i).type)
      (Mem.ofList 0 (valueAtoms h (bitIsset t.flags regTfBigEndian) v)) with
      entryFlags := flags } i = v := by
  have hbuf := Mem.slice_ofList 0 (valueAtoms h (bitIsset t.flags regTfBigEndian) v)
  rw [length_valueAtoms, hv] at hbuf
  have hatoms := (entryAtoms_writing_self hp _ flags).trans hbuf
  have hval := atomsValue_valueAtoms h (bitIsset t.flags regTfBigEndian) v
  rw [hv] at hval
  exact (congrArg (atomsValue h _ _) hatoms).trans hval

/-- **The block check of an entry's own atoms** is the check of its value. -/
theorem blockAccepted_entry {t : RegisterTable δ} (hl : Layout t) (hr : InRange t)
    (hm : MemoryBacked t) (hrw : ReadWrite t) {i : Nat} (hi : i < t.entries) {v : RegisterValue}
    (hv : v.type = (t.entry i).type) {buf : Mem RegisterAtom}
    (hbuf : buf.slice 0 (rdsSize (t.entry i).type)
      = valueAtoms h (bitIsset t.flags regTfBigEndian) v) :
    BlockAccepted h t (t.entry i).address (registerEntrySize (t.entry i)) buf ↔
      rvValidate t (t.entry i) v = true ∧ v.usable = true := by
  have ht := hl.typed i hi
  have hsize := toNat_registerEntrySize (t.entry i)
  have hpos : 0 < (registerEntrySize (t.entry i)).toNat := by
    rw [hsize]
    exact rdsSize_pos ht
  have hlt := hr.entries i hi
  obtain ⟨an, hp⟩ := hl.place hr hi
  have hself : (t.entry i).Overlaps (t.entry i).address.toNat
      (registerEntrySize (t.entry i)).toNat :=
    (RegisterEntry.overlaps_iff ht _ hpos).mpr ⟨by omega, by omega⟩
  have hdatum : entryDatum h t i (t.entry i).address (registerEntrySize (t.entry i)) buf = v := by
    rw [entryDatum_eq hl hr hi hpos (by omega) buf t.entryFlags hself fun hh => by
      have he := hh.2.1
      omega]
    have hatoms := entryAtoms_writing_self hp buf t.entryFlags
    unfold entryValue
    rw [hsize, hatoms, hbuf]
    exact hv ▸ atomsValue_valueAtoms h _ v
  have hadmits : Admits h t i (t.entry i).address (registerEntrySize (t.entry i)) buf ↔
      v.usable = true ∧ rvValidate t (t.entry i) v = true := by
    unfold Admits
    rw [hdatum]
  constructor
  · intro ha
    exact (hadmits.mp (ha.admits i hi hself)).symm
  · intro hok
    refine ⟨raWriteable_success hm hrw _ _, ?_, fun j hj hov => ?_⟩
    · rw [hsize]
      exact hp.noHole hr hi
    · -- the entries do not overlap, so the block touches this one only
      rw [hsize] at hov
      obtain ⟨x, h1, h2, h3, h4⟩ := hov
      obtain rfl := hl.entriesAscending.unique hj hi h3 h4 h1 h2
      exact hadmits.mpr hok.symm

/-! ## 2. Typed and raw writes -/

/-- **Typed and raw writes agree.** -/
theorem registerSet_iff_registerBlockWrite {t : RegisterTable δ} (ht : Initialised h t)
    (hr : InRange t) (hm : MemoryBacked t) (hrw : ReadWrite t) {i : Nat} (hi : i < t.entries)
    {v : RegisterValue} (hv : v.type = (t.entry i).type) {buf : Mem RegisterAtom}
    (hbuf : buf.slice 0 (rdsSize (t.entry i).type)
      = valueAtoms h (bitIsset t.flags regTfBigEndian) v) :
    ∃ rv t₁ rv' t₂, registerSet h t i v = .ok (rv, t₁) ∧
      registerBlockWrite h t (t.entry i).address (registerEntrySize (t.entry i)) buf
        = .ok (rv', t₂) ∧
      (rv.code = .success ↔ rv'.code = .success) ∧
      (rv.code = .success → t₁.mem = t₂.mem) := by
  have hl := ht.layout
  obtain ⟨an, hp⟩ := hl.place hr hi
  have hsize := toNat_registerEntrySize (t.entry i)
  have hpos := rdsSize_pos (hl.typed i hi)
  have hne : registerEntrySize (t.entry i) ≠ 0 := fun he => by
    rw [he] at hsize
    exact absurd hsize.symm (by simpa using Nat.ne_of_gt hpos)
  obtain ⟨rv, t₁, hset, hiff, hdone, -⟩ :=
    registerSet_eq (h := h) hl.initialised (hl.areasAscending hr.areas) hm hi (hl.typed i hi) hp v
  obtain ⟨rv', t₂, hblock, hiff', hdone', -⟩ :=
    registerBlockWrite_eq (h := h) hl hr hm (t.entry i).address hne buf
  have hsame := (hiff'.trans (blockAccepted_entry hl hr hm hrw hi hv hbuf)).trans hiff.symm
  refine ⟨rv, t₁, rv', t₂, hset, hblock, hsame.symm, fun hc => ?_⟩
  obtain ⟨flags, -, rfl⟩ := hdone' (hsame.mpr hc)
  have hw : t.writing (t.entry i).address.toNat (rdsSize (t.entry i).type)
      (Mem.ofList 0 (valueAtoms h (bitIsset t.flags regTfBigEndian) v))
      = t.writing (t.entry i).address.toNat (rdsSize (t.entry i).type) buf := by
    refine writing_congr t _ _ fun j hj => ?_
    rw [← hbuf, Mem.ofList, List.getD_eq_getElem?_getD, Mem.getElem?_slice _ _ _ _ hj,
      Option.getD_some, Nat.zero_add]
  have hmem := congrArg RegisterTable.mem ((hdone hc).trans hw)
  rw [hsize]
  exact hmem

theorem registerSet_iff_registerBlockWrite_sample :
    ∃ rv t₁ rv' t₂,
      registerSet lp64Host (initialTable lp64Host sampleTable) 1
        (RegisterValue.ofUnion .uint64 9) = .ok (rv, t₁) ∧
      registerBlockWrite lp64Host (initialTable lp64Host sampleTable) 2 4
        (Mem.ofList 0 [9, 0, 0, 0]) = .ok (rv', t₂) ∧
      (rv.code = .success ↔ rv'.code = .success) ∧ (rv.code = .success → t₁.mem = t₂.mem) :=
  registerSet_iff_registerBlockWrite (i := 1) (initialised_initialTable (by decide))
    sampleTable_inRange sampleTable_memoryBacked (by unfold ReadWrite; decide) (by decide)
    (by decide) (by decide)

end Ufw
