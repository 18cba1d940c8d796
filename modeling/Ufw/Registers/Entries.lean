/-
  File:      Ufw/Registers/Entries.lean
  Subject:   REGISTER TABLE: what an entry holds, and what a write makes of it.

  * `regCopyOf_computes` -- the four cases of `ra_malformed_write`, in unbounded arithmetic;
  * `entryDatum_eq` -- **the value that is checked is the value that will be stored**, save for the
    writes of one atom to the third atom of an entry of four (`Unchecked`);
  * `registerSet_eq`, `registerGet_eq` -- what `register_set` and `register_get` do.
-/
import Ufw.Registers.BlockWrite

namespace Ufw

open Base

variable {δ : Type} {h : Host}

/-! ## 1. The four cases -/

/-- The atoms `ra_malformed_write` copies, for `N` atoms from `A` on and an entry of `S` from `E`
    on: where the block starts inside the entry, it is one more than the atoms they share. -/
def copyLength (E S A N : Nat) : Nat :=
  if A ≤ E then if E + S ≤ A + N then S else A + N - E
  else if E + S ≤ A + N then E + S + 1 - A else E + N + 1 - A

/-- `c` is what the source computes for an entry of `S` atoms from `E` on and a block of `N` atoms
    from `A` on; no subtraction has wrapped. -/
structure RegisterCopy.Computes (c : RegisterCopy) (E S A N : Nat) : Prop where
  size_eq : c.size.toNat = S
  bs_eq : c.bs.toNat = E - A
  rs_eq : c.rs.toNat = A - E
  rlen_eq : c.rlen.toNat = copyLength E S A N
  exact_eq : c.exact = copyLength E S A N

/-- **The four cases**: the block covers the entry, its beginning, its end, or a part inside it. -/
theorem regCopyOf_computes {e : RegisterEntry} {addr : RegisterAddress} {n : RegisterOffset}
    (ht : e.type ≠ .invalid) (he : e.address.toNat + rdsSize e.type ≤ 2 ^ 32) (hn : 0 < n.toNat)
    (hlt : addr.toNat + n.toNat < 2 ^ 32) (h1 : e.address.toNat < addr.toNat + n.toNat)
    (h2 : addr.toNat < e.address.toNat + rdsSize e.type) :
    (regCopyOf e addr n).Computes e.address.toNat (rdsSize e.type) addr.toNat n.toNat := by
  have hs := rdsSize_pos ht
  have hs4 : rdsSize e.type ≤ 4 := rdsSize_le e.type
  have hsize := toNat_registerEntrySize e
  have hend := toNat_regEntryEnd ht he
  have hlast := toNat_blockLast hn hlt
  have hz : (0 : BitVec 32).toNat = 0 := rfl
  unfold regCopyOf
  simp only
  by_cases ha : addr > e.address
  · have ha' : e.address.toNat < addr.toNat := ha
    have hrs : (addr - e.address).toNat = addr.toNat - e.address.toNat :=
      BitVec.toNat_sub_of_le (BitVec.le_def.mpr ha'.le)
    rw [if_pos ha]
    by_cases hb : regEntryEnd e > addr + n - 1
    · -- a part inside the entry
      have hb' : (addr + n - 1).toNat < (regEntryEnd e).toNat := hb
      have hn1 : (n + 1).toNat = n.toNat + 1 := by
        rw [BitVec.toNat_add]
        exact Nat.mod_eq_of_lt (show n.toNat + 1 < 2 ^ 32 by omega)
      have hlen : registerEntrySize e - (addr - e.address - 1) - (0 + registerEntrySize e - n)
          = n + 1 - (addr - e.address) := by ring
      have hc : copyLength e.address.toNat (rdsSize e.type) addr.toNat n.toNat
          = e.address.toNat + n.toNat + 1 - addr.toNat := by
        unfold copyLength
        rw [if_neg (by omega), if_neg (by omega)]
      rw [if_pos hb]
      refine ⟨hsize, by simp only [hz]; omega, hrs, ?_, by simp only [hsize, hrs, hz, hc]; omega⟩
      simp only [hlen]
      rw [hc, BitVec.toNat_sub_of_le (BitVec.le_def.mpr (by omega)), hn1, hrs]
      omega
    · -- its end
      have hb' : (regEntryEnd e).toNat ≤ (addr + n - 1).toNat := Nat.le_of_not_lt hb
      have hs1 : (registerEntrySize e + 1).toNat = rdsSize e.type + 1 := by
        rw [BitVec.toNat_add, hsize]
        exact Nat.mod_eq_of_lt (show rdsSize e.type + 1 < 2 ^ 32 by omega)
      have hlen : registerEntrySize e - (addr - e.address - 1)
          = registerEntrySize e + 1 - (addr - e.address) := by ring
      have hc : copyLength e.address.toNat (rdsSize e.type) addr.toNat n.toNat
          = e.address.toNat + rdsSize e.type + 1 - addr.toNat := by
        unfold copyLength
        rw [if_neg (by omega), if_pos (by omega)]
      rw [if_neg hb]
      refine ⟨hsize, by simp only [hz]; omega, hrs, ?_, by simp only [hsize, hrs, hc]; omega⟩
      simp only [hlen]
      rw [hc, BitVec.toNat_sub_of_le (BitVec.le_def.mpr (by omega)), hs1, hrs]
      omega
  · have ha' : addr.toNat ≤ e.address.toNat := Nat.le_of_not_lt ha
    have hbs : (e.address - addr).toNat = e.address.toNat - addr.toNat :=
      BitVec.toNat_sub_of_le (BitVec.le_def.mpr ha')
    rw [if_neg ha]
    by_cases hb : regEntryEnd e > addr + n - 1
    · -- its beginning
      have hb' : (addr + n - 1).toNat < (regEntryEnd e).toNat := hb
      have hlen : registerEntrySize e - (e.address - addr + registerEntrySize e - n)
          = n - (e.address - addr) := by ring
      have hc : copyLength e.address.toNat (rdsSize e.type) addr.toNat n.toNat
          = addr.toNat + n.toNat - e.address.toNat := by
        unfold copyLength
        rw [if_pos (by omega), if_neg (by omega)]
      rw [if_pos hb]
      refine ⟨hsize, hbs, by simp only [hz]; omega, ?_, by simp only [hsize, hbs, hc]; omega⟩
      simp only [hlen]
      rw [hc, BitVec.toNat_sub_of_le (BitVec.le_def.mpr (by omega)), hbs]
      omega
    · -- all of it
      have hb' : (regEntryEnd e).toNat ≤ (addr + n - 1).toNat := Nat.le_of_not_lt hb
      have hc : copyLength e.address.toNat (rdsSize e.type) addr.toNat n.toNat
          = rdsSize e.type := by
        unfold copyLength
        rw [if_pos (by omega), if_pos (by omega)]
      rw [if_neg hb]
      exact ⟨hsize, hbs, by simp only [hz]; omega, hsize.trans hc.symm, by simp only [hsize, hc]⟩

/-! ## 2. The atoms of an entry -/

/-- The atoms an entry holds. -/
def entryAtoms (t : RegisterTable δ) (i : Nat) : List RegisterAtom :=
  match (t.link i).area with
  | none => []
  | some an => (t.mem an).slice (t.link i).offset.toNat (rdsSize (t.entry i).type)

/-- **The value of an entry.** -/
def entryValue (h : Host) (t : RegisterTable δ) (i : Nat) : RegisterValue :=
  atomsValue h (bitIsset t.flags regTfBigEndian) (t.entry i).type (entryAtoms t i)

theorem entryAtoms_eq {t : RegisterTable δ} {i an : Nat} (hp : Place t i an) :
    entryAtoms t i
      = (t.mem an).slice (t.link i).offset.toNat (rdsSize (t.entry i).type) := by
  unfold entryAtoms
  rw [hp.area_eq]

theorem entryRaw_slice {t : RegisterTable δ} {i an : Nat} (hp : Place t i an) :
    (entryRaw h t i).slice 0 (rdsSize (t.entry i).type) = entryAtoms t i := by
  rw [entryAtoms_eq hp]
  refine List.map_congr_left fun k hk => ?_
  rw [Nat.zero_add]
  exact entryRaw_apply hp (List.mem_range.mp hk)

/-- What the atoms of an entry deserialise to. -/
theorem deserialises_iff {t : RegisterTable δ} {i an : Nat} (ht : (t.entry i).type ≠ .invalid)
    (hp : Place t i an) {Q : RegisterValue → Prop} :
    (∃ v, (rdsSerdes h (t.entry i).type).des (entryRaw h t i) (bitIsset t.flags regTfBigEndian)
        = .ok (v, true) ∧ Q v) ↔
      (entryValue h t i).usable = true ∧ Q (entryValue h t i) := by
  rw [rdsSerdes_des h _ ht, entryRaw_slice hp]
  constructor
  · intro ⟨v, hv, hq⟩
    obtain ⟨hval, hu⟩ := Prod.mk.inj (Except.ok.inj hv)
    subst hval
    exact ⟨hu, hq⟩
  · intro ⟨hu, hq⟩
    exact ⟨entryValue h t i, by rw [← hu]; rfl, hq⟩

/-- The cells of an entry are in its area, at the addresses of the entry. -/
theorem Place.cell {t : RegisterTable δ} {i an k : Nat} (hp : Place t i an)
    (hk : k < rdsSize (t.entry i).type) :
    (t.link i).offset.toNat + k < (t.area an).size.toNat ∧
      (t.area an).base.toNat + ((t.link i).offset.toNat + k) = (t.entry i).address.toNat + k := by
  have h1 := hp.offset_eq
  have h2 := hp.stop_le
  omega

/-- An atom of an entry after a block was written. -/
theorem Place.atom_writing {t : RegisterTable δ} {i an k : Nat} (hp : Place t i an)
    (hk : k < rdsSize (t.entry i).type) (lo n : Nat) (buf : Mem RegisterAtom) :
    (t.writing lo n buf).mem an ((t.link i).offset.toNat + k) =
      if lo ≤ (t.entry i).address.toNat + k ∧ (t.entry i).address.toNat + k < lo + n then
        buf ((t.entry i).address.toNat + k - lo)
      else t.mem an ((t.link i).offset.toNat + k) := by
  obtain ⟨hcell, haddr⟩ := hp.cell hk
  split <;> rename_i hin
  · rw [writing_inside hp.area_lt hcell (by omega) (by omega), haddr]
  · exact writing_outside (by omega)

theorem entryAtoms_writing {t : RegisterTable δ} {i an : Nat} (hp : Place t i an) (lo n : Nat)
    (buf : Mem RegisterAtom) (flags : Mem (BitVec 16)) :
    entryAtoms { t.writing lo n buf with entryFlags := flags } i =
      (List.range (rdsSize (t.entry i).type)).map fun k =>
        if lo ≤ (t.entry i).address.toNat + k ∧ (t.entry i).address.toNat + k < lo + n then
          buf ((t.entry i).address.toNat + k - lo)
        else t.mem an ((t.link i).offset.toNat + k) := by
  have hp' : Place { t.writing lo n buf with entryFlags := flags } i an :=
    ⟨hp.area_lt, hp.area_eq, hp.offset_eq, hp.stop_le⟩
  rw [entryAtoms_eq hp']
  exact List.map_congr_left fun k hk => hp.atom_writing (List.mem_range.mp hk) lo n buf

/-- An entry outside the block keeps its atoms. -/
theorem entryAtoms_writing_of_not_overlaps {t : RegisterTable δ} {i an : Nat} (hp : Place t i an)
    {lo n : Nat} {buf : Mem RegisterAtom} (flags : Mem (BitVec 16))
    (ho : ¬(t.entry i).Overlaps lo n) :
    entryAtoms { t.writing lo n buf with entryFlags := flags } i = entryAtoms t i := by
  rw [entryAtoms_writing hp, entryAtoms_eq hp]
  refine List.map_congr_left fun k hk => if_neg fun ⟨h1, h2⟩ => ho ?_
  have hk' := List.mem_range.mp hk
  exact ⟨(t.entry i).address.toNat + k, h1, h2, by omega, by omega⟩

/-- **An entry outside the block keeps its value.** -/
theorem entryValue_writing_of_not_overlaps {t : RegisterTable δ} {i an : Nat} (hp : Place t i an)
    {lo n : Nat} {buf : Mem RegisterAtom} (flags : Mem (BitVec 16))
    (ho : ¬(t.entry i).Overlaps lo n) :
    entryValue h { t.writing lo n buf with entryFlags := flags } i = entryValue h t i :=
  congrArg (atomsValue h _ _) (entryAtoms_writing_of_not_overlaps hp flags ho)

/-! ## 3. What is checked and what is stored -/

/-- **The write that is not checked**: of one atom, the third one of an entry of four. -/
def Unchecked (e : RegisterEntry) (lo n : Nat) : Prop :=
  rdsSize e.type = 4 ∧ lo = e.address.toNat + 2 ∧ n = 1

/-- What `memcpy` makes of the entry: the atoms of the block where it overlaps the entry. -/
theorem RegisterCopy.Computes.copy_apply {c : RegisterCopy} {E S A N : Nat}
    (hc : c.Computes E S A N) (hS : S ≤ 4) (h1 : E < A + N) (h2 : A < E + S)
    (hh : ¬(S = 4 ∧ A = E + 2 ∧ N = 1)) (raw buf : Mem RegisterAtom) {k : Nat} (hk : k < S) :
    raw.copy c.rs.toNat (buf.shift c.bs.toNat) c.rlen.toNat k =
      if A ≤ E + k ∧ E + k < A + N then buf (E + k - A) else raw k := by
  have hiff : (A - E ≤ k ∧ k < A - E + copyLength E S A N) ↔ (A ≤ E + k ∧ E + k < A + N) := by
    unfold copyLength
    split <;> split <;> omega
  rw [Mem.copy_apply, hc.rs_eq, hc.bs_eq, hc.rlen_eq]
  by_cases hin : A ≤ E + k ∧ E + k < A + N
  · rw [if_pos hin, if_pos (hiff.mpr hin), Mem.shift_apply]
    exact congrArg buf (by omega)
  · rw [if_neg hin, if_neg fun hc => hin (hiff.mp hc)]

/-- **The value that is checked is the value that will be stored.** -/
theorem entryDatum_eq {t : RegisterTable δ} (hl : Layout t) (hr : InRange t) {i : Nat}
    (hi : i < t.entries) {addr : RegisterAddress} {n : RegisterOffset} (hn : 0 < n.toNat)
    (hlt : addr.toNat + n.toNat < 2 ^ 32) (buf : Mem RegisterAtom) (flags : Mem (BitVec 16))
    (ho : (t.entry i).Overlaps addr.toNat n.toNat)
    (hh : ¬Unchecked (t.entry i) addr.toNat n.toNat) :
    entryDatum h t i addr n buf
      = entryValue h { t.writing addr.toNat n.toNat buf with entryFlags := flags } i := by
  have ht := hl.typed i hi
  obtain ⟨an, hp⟩ := hl.place hr hi
  obtain ⟨h1, h2⟩ := (RegisterEntry.overlaps_iff ht _ hn).mp ho
  have hc := regCopyOf_computes ht (hr.entries i hi).le hn hlt h1 h2
  refine congrArg (atomsValue h _ _) ?_
  rw [entryAtoms_writing hp]
  refine List.map_congr_left fun k hk => ?_
  have hk' := List.mem_range.mp hk
  rw [Nat.zero_add, hc.copy_apply (rdsSize_le _) h1 h2 hh _ _ hk', entryRaw_apply hp hk']

/-! ## 4. `register_set` and `register_get` -/

theorem writing_ofList (t : RegisterTable δ) (lo : Nat) (l : List RegisterAtom)
    (buf : Mem RegisterAtom) :
    t.writing lo l.length (buf.store 0 l) = t.writing lo l.length (Mem.ofList 0 l) := by
  refine writing_congr t lo l.length fun j hj => ?_
  have hs := buf.store_inside 0 l j hj
  rw [Nat.zero_add] at hs
  rw [hs]
  simp [Mem.ofList, hj]

/-- **What `register_set` does** to an entry that has its place in an area. -/
theorem registerSet_eq {t : RegisterTable δ} (hinit : bitIsset t.flags regTfInitialised = true)
    (hasc : AreasAscending t) (hm : MemoryBacked t) {i an : Nat} (hi : i < t.entries)
    (ht : (t.entry i).type ≠ .invalid) (hp : Place t i an) (v : RegisterValue) :
    ∃ rv t', registerSet h t i v = .ok (rv, t') ∧
      (rv.code = .success ↔ rvValidate t (t.entry i) v = true ∧ v.usable = true) ∧
      (rv.code = .success → t' = t.writing (t.entry i).address.toNat (rdsSize (t.entry i).type)
        (Mem.ofList 0 (valueAtoms h (bitIsset t.flags regTfBigEndian) v))) ∧
      (rv.code ≠ .success → t' = t) := by
  unfold registerSet registerSetx
  simp only [hinit, Bool.true_and]
  rw [if_neg (by decide), if_neg (by omega)]
  cases hval : rvValidate t (t.entry i) v with
  | false =>
    rw [if_pos (by decide)]
    exact ⟨_, t, rfl, ⟨fun hc => (nomatch hc), fun hc => Bool.noConfusion hc.1⟩,
      fun hc => (nomatch hc), fun _ => rfl⟩
  | true =>
    have hv := rvValidate_type hval
    have hcan : registerAreaCanWrite (t.area an) = true := by
      unfold registerAreaCanWrite
      rw [hm.write an hp.area_lt]
      rfl
    have hser := rdsSerdes_ser h (bitIsset t.flags regTfBigEndian) (v := v) (by rwa [hv])
    rw [hv] at hser
    rw [if_neg (by decide), hp.area_eq]
    simp only [hcan, hser, ok_bind]
    rw [if_neg (by decide)]
    cases hu : v.usable with
    | false =>
      exact ⟨_, t, rfl, ⟨fun hc => (nomatch hc), fun hc => Bool.noConfusion hc.2⟩,
        fun hc => (nomatch hc), fun _ => rfl⟩
    | true =>
      have hlen : (valueAtoms h (bitIsset t.flags regTfBigEndian) v).length
          = rdsSize (t.entry i).type := by rw [length_valueAtoms, hv]
      have hoff : (t.link i).offset.toNat
          = (t.entry i).address.toNat - (t.area an).base.toNat := by
        have he := hp.offset_eq
        omega
      have hle := hp.offset_eq
      refine ⟨regAccessResultInit, _, ?_, ⟨fun _ => ⟨trivial, rfl⟩, fun _ => rfl⟩, fun _ => rfl,
        fun hne => absurd rfl hne⟩
      show areaWrite t an _ (t.link i).offset (registerEntrySize (t.entry i)) = _
      rw [areaWrite_mem hm hp.area_lt, toNat_registerEntrySize, hoff,
        update_copy_eq hasc hp.area_lt _ (by omega) hp.stop_le, ← hlen, writing_ofList]

/-- **What `register_get` reads**: the value of the entry, which its deserialiser accepts or not. -/
theorem registerGet_eq {t : RegisterTable δ} (hl : Layout t) (hm : MemoryBacked t) {i an : Nat}
    (hi : i < t.entries) (hp : Place t i an) :
    registerGet h t i = .ok (if (entryValue h t i).usable = true then regAccessResultInit
      else ⟨.invalid, BitVec.ofNat 32 i⟩, entryValue h t i, t) := by
  unfold registerGet
  simp only [hl.initialised]
  rw [if_neg (by decide), if_neg (Nat.not_le_of_lt hi), regReadEntry_mem hm hp, ok_bind]
  simp only [regAccessResultInit, ne_eq, not_true_eq_false, if_false,
    rdsSerdes_des h _ (hl.typed i hi), ok_bind]
  rw [entryRaw_slice hp]
  cases hu : (entryValue h t i).usable with
  | false =>
    have hu' := hu
    unfold entryValue at hu'
    rw [hu', if_pos rfl, if_neg (by decide)]
    rfl
  | true =>
    have hu' := hu
    unfold entryValue at hu'
    rw [hu', if_neg (by decide), if_pos rfl]
    rfl

end Ufw
