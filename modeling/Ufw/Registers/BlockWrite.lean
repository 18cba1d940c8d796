/-
  File:      Ufw/Registers/BlockWrite.lean
  Subject:   REGISTER TABLE: a block write is all or nothing.

  * `cellAddress`, `writing` -- the abstract write: a block laid over the cells of a table;
  * `registerBlockWriteUnsafeFuel_eq` -- **the write, area by area, is the abstract one**;
  * `raWriteable_cases` -- what `ra_writeable` finds, as a condition on the areas;
  * `BlockOutcome` -- **all that `register_block_write` can do** with a block;
  * `registerBlockWrite_allOrNothing` -- where `register_block_write` succeeds, the block is in the
    table, also across the borders of areas; where it does not, nothing has changed.
-/
import Ufw.Registers.Holes
import Mathlib.Tactic.Ring

namespace Ufw

open Base

variable {δ : Type} {h : Host}

/-! ## 1. The abstract write -/

/-- The address of atom `c.2` of area `c.1`. -/
def cellAddress (t : RegisterTable δ) (c : Nat × Nat) : Option Nat :=
  if c.1 < t.areas ∧ c.2 < (t.area c.1).size.toNat then some ((t.area c.1).base.toNat + c.2)
  else none

/-- **The abstract write**: the table with a block laid over its cells. -/
def RegisterTable.writing (t : RegisterTable δ) (lo n : Nat) (buf : Mem RegisterAtom) :
    RegisterTable δ :=
  { t with
    mem := fun an k => overlay (cellAddress t) (fun c => t.mem c.1 c.2) lo n buf (an, k) }

theorem mem_writing (t : RegisterTable δ) (lo n : Nat) (buf : Mem RegisterAtom) (an k : Nat) :
    (t.writing lo n buf).mem an k
      = overlay (cellAddress t) (fun c => t.mem c.1 c.2) lo n buf (an, k) := rfl

theorem cellAddress_eq {t : RegisterTable δ} {an k : Nat} (h1 : an < t.areas)
    (h2 : k < (t.area an).size.toNat) :
    cellAddress t (an, k) = some ((t.area an).base.toNat + k) := if_pos ⟨h1, h2⟩

theorem writing_inside {t : RegisterTable δ} {an k lo n : Nat} {buf : Mem RegisterAtom}
    (h1 : an < t.areas) (h2 : k < (t.area an).size.toNat)
    (h3 : lo ≤ (t.area an).base.toNat + k) (h4 : (t.area an).base.toNat + k < lo + n) :
    (t.writing lo n buf).mem an k = buf ((t.area an).base.toNat + k - lo) := by
  rw [mem_writing]
  exact overlay_inside (cellAddress_eq h1 h2) h3 h4

theorem writing_outside {t : RegisterTable δ} {an k lo n : Nat} {buf : Mem RegisterAtom}
    (ho : ¬(an < t.areas ∧ k < (t.area an).size.toNat ∧ lo ≤ (t.area an).base.toNat + k ∧
      (t.area an).base.toNat + k < lo + n)) :
    (t.writing lo n buf).mem an k = t.mem an k := by
  rw [mem_writing]
  by_cases hc : an < t.areas ∧ k < (t.area an).size.toNat
  · rw [overlay_outside (cellAddress_eq hc.1 hc.2) (by omega)]
  · have hnone : cellAddress t (an, k) = none := if_neg hc
    rw [overlay_unmapped hnone]

theorem writing_zero (t : RegisterTable δ) (lo : Nat) (buf : Mem RegisterAtom) :
    t.writing lo 0 buf = t := by
  refine congrArg (fun m => { t with mem := m }) ?_
  funext an k
  exact congrFun overlay_zero (an, k)

theorem writing_congr (t : RegisterTable δ) (lo n : Nat) {buf buf' : Mem RegisterAtom}
    (hb : ∀ j, j < n → buf j = buf' j) : t.writing lo n buf = t.writing lo n buf' := by
  refine congrArg (fun m => { t with mem := m }) ?_
  funext an k
  exact congrFun (overlay_congr hb) (an, k)

/-- A block that is written in two parts. -/
theorem writing_append (t : RegisterTable δ) (lo n k : Nat) (buf : Mem RegisterAtom) :
    (t.writing lo n buf).writing (lo + n) k (buf.shift n) = t.writing lo (n + k) buf := by
  unfold RegisterTable.writing
  refine congrArg (fun m => { t with mem := m }) ?_
  funext an i
  exact congrFun (overlay_append k) (an, i)

/-! ## 2. The write, area by area -/

theorem areaWrite_mem {t : RegisterTable δ} (hm : MemoryBacked t) {an : Nat} (han : an < t.areas)
    (src : Mem RegisterAtom) (offset n : RegisterOffset) :
    areaWrite t an src offset n = .ok (regAccessResultInit,
      { t with mem := Function.update t.mem an ((t.mem an).copy offset.toNat src n.toNat) }) := by
  unfold areaWrite
  rw [hm.write an han]
  simp only [require_pos (hm.hasMem an han), ok_bind]
  rfl

/-- **What goes into one area** is written to its addresses and to no others. -/
theorem update_copy_eq {t : RegisterTable δ} (hasc : AreasAscending t) {an lo n : Nat}
    (han : an < t.areas) (src : Mem RegisterAtom) (h1 : (t.area an).base.toNat ≤ lo)
    (h2 : lo + n ≤ (t.area an).base.toNat + (t.area an).size.toNat) :
    { t with
      mem := Function.update t.mem an ((t.mem an).copy (lo - (t.area an).base.toNat) src n) }
      = t.writing lo n src := by
  refine congrArg (fun m => { t with mem := m }) ?_
  funext bn k
  symm
  by_cases hb : bn = an
  · subst hb
    rw [Function.update_self, Mem.copy_apply]
    split <;> rename_i hk
    · exact (writing_inside han (by omega) (by omega) (by omega)).trans
        (congrArg src (by omega))
    · exact writing_outside (by omega)
  · rw [Function.update_of_ne hb]
    refine writing_outside fun ⟨hbn, hk, h3, h4⟩ => hb ?_
    exact hasc.unique (x := (t.area bn).base.toNat + k) hbn han (by omega) (by omega) (by omega)
      (by omega)

section Writing

variable {t : RegisterTable δ} (lo n : Nat) (buf : Mem RegisterAtom)

theorem Layout.writing (hl : Layout t) : Layout (t.writing lo n buf) :=
  hl.congr _ t.dev t.entryFlags

theorem InRange.writing (hr : InRange t) : InRange (t.writing lo n buf) := ⟨hr.areas, hr.entries⟩

theorem MemoryBacked.writing (hm : MemoryBacked t) : MemoryBacked (t.writing lo n buf) :=
  ⟨hm.read, hm.write, hm.hasMem⟩

end Writing

/-- The rest of a block without holes has none. -/
theorem NoHole.past {t : RegisterTable δ} {addr : RegisterAddress} {rest used : RegisterOffset}
    (hno : NoHole t addr.toNat rest.toNat) (hle : used.toNat ≤ rest.toNat)
    (hadd : (addr + used).toNat = addr.toNat + used.toNat)
    (hsub : (rest - used).toNat = rest.toNat - used.toNat) :
    NoHole t (addr + used).toNat (rest - used).toNat := by
  rw [hadd, hsub]
  have hlt := hno.1
  exact ⟨by omega, fun x h1 h2 => hno.2 x (by omega) (by omega)⟩

/-- **One pass of a loop over a block**, in the area `an`: it goes through the `used` atoms of the
    block that lie there. -/
structure AreaPass (t : RegisterTable δ) (an : Nat) (addr : RegisterAddress)
    (rest used : RegisterOffset) : Prop where
  find : raFindAreaByAddr t addr = an
  holds : AreaHolds t an addr.toNat
  used_eq : areaPart (t.area an) addr rest = used
  pos : 0 < used.toNat
  le : used.toNat ≤ rest.toNat
  stop_le : addr.toNat + used.toNat ≤ (t.area an).base.toNat + (t.area an).size.toNat
  stop_eq : used.toNat < rest.toNat →
    addr.toNat + used.toNat = (t.area an).base.toNat + (t.area an).size.toNat
  offset_eq : (addr - (t.area an).base).toNat = addr.toNat - (t.area an).base.toNat
  addr_eq : (addr + used).toNat = addr.toNat + used.toNat
  rest_eq : (rest - used).toNat = rest.toNat - used.toNat

theorem areaPart_end {a : RegisterArea δ} {addr : RegisterAddress} {rest : RegisterOffset}
    (hp : raAddrIsPartOf a addr = true) (hlt : (areaPart a addr rest).toNat < rest.toNat) :
    addr.toNat + (areaPart a addr rest).toNat = (a.base + a.size).toNat := by
  obtain ⟨-, h2⟩ := raAddrIsPartOf_bounds hp
  have hsub : (a.base + a.size - addr).toNat = (a.base + a.size).toNat - addr.toNat :=
    BitVec.toNat_sub_of_le (BitVec.le_def.mpr (Nat.le_of_lt h2))
  unfold areaPart regMin at hlt ⊢
  split at hlt <;> rename_i hgt
  · exact absurd hlt (Nat.lt_irrefl _)
  · rw [if_neg hgt]
    omega

/-- An address of an area begins a pass. -/
theorem Layout.areaPass {t : RegisterTable δ} (hl : Layout t) (hr : AreasInRange t) {an : Nat}
    (han : an < t.areas) {addr : RegisterAddress} {rest : RegisterOffset} (hrest : rest ≠ 0)
    (hx : AreaHolds t an addr.toNat) :
    ∃ used, AreaPass t an addr rest used := by
  have hp := (raAddrIsPartOf_iff (hr an han) addr).mpr hx
  have hend : ((t.area an).base + (t.area an).size).toNat
      = (t.area an).base.toNat + (t.area an).size.toNat := by
    rw [BitVec.toNat_add, Nat.mod_eq_of_lt (hr an han)]
  obtain ⟨h1, h2, h3⟩ := areaPart_spec hp hrest
  obtain ⟨hadd, hsub⟩ := toNat_past h2 h3 (BitVec.isLt _)
  exact ⟨areaPart (t.area an) addr rest,
    { find := hl.raFindAreaByAddr_eq hr han hx.1 hx.2
      holds := hx
      used_eq := rfl
      pos := h1
      le := h2
      stop_le := hend ▸ h3
      stop_eq := fun hlt => (areaPart_end hp hlt).trans hend
      offset_eq := BitVec.toNat_sub_of_le (BitVec.le_def.mpr hx.1)
      addr_eq := hadd
      rest_eq := hsub }⟩

theorem registerBlockWriteUnsafeFuel_eq {t : RegisterTable δ} (hl : Layout t) (hr : InRange t)
    (hm : MemoryBacked t) {fuel : Nat} {addr : RegisterAddress} {rest : RegisterOffset}
    {buf : Mem RegisterAtom} (hfuel : rest.toNat ≤ fuel)
    (hno : NoHole t addr.toNat rest.toNat) :
    registerBlockWriteUnsafeFuel fuel t addr rest buf
      = .ok (regAccessResultInit, t.writing addr.toNat rest.toNat buf) := by
  induction fuel generalizing t addr rest buf with
  | zero =>
    have hr0 : rest = 0 := BitVec.eq_of_toNat_eq (Nat.le_zero.mp hfuel)
    subst hr0
    exact congrArg (fun u => Except.ok (regAccessResultInit, u)) (writing_zero t _ buf).symm
  | succ fuel ih =>
    unfold registerBlockWriteUnsafeFuel
    split
    · rename_i hr0
      subst hr0
      exact congrArg (fun u => Except.ok (regAccessResultInit, u)) (writing_zero t _ buf).symm
    rename_i hr0
    have hrest : rest.toNat ≠ 0 := fun he => hr0 (BitVec.eq_of_toNat_eq he)
    obtain ⟨an, han, hx⟩ := (Layout.mapped_iff hr.areas (by omega)).mp
      (hno.2 addr.toNat (Nat.le_refl _) (by omega))
    obtain ⟨used, hp⟩ := hl.areaPass hr.areas han hr0 hx
    have hpos := hp.pos
    have hle := hp.le
    have hsub := hp.rest_eq
    simp only [hp.find, hp.used_eq]
    rw [require_pos han, ok_bind, areaWrite_mem hm han, ok_bind, hp.offset_eq,
      update_copy_eq (hl.areasAscending hr.areas) han buf hx.1 hp.stop_le]
    simp only [regAccessResultInit, ne_eq, not_true_eq_false, if_false]
    refine (ih (hl.writing _ _ buf) (hr.writing _ _ buf) (hm.writing _ _ buf) (by omega)
      (hno.past hle hp.addr_eq hsub)).trans (congrArg (fun u => Except.ok (_, u)) ?_)
    rw [hp.addr_eq, hsub, writing_append]
    exact congrArg (fun k => t.writing _ k buf) (by omega)

/-! ## 3. The check of entries -/

/-- The entry has an address in the block. -/
def RegisterEntry.Overlaps (e : RegisterEntry) (lo n : Nat) : Prop :=
  ∃ x, lo ≤ x ∧ x < lo + n ∧ e.address.toNat ≤ x ∧ x < e.address.toNat + rdsSize e.type

theorem RegisterEntry.overlaps_iff {e : RegisterEntry} (ht : e.type ≠ .invalid) (lo : Nat)
    {n : Nat} (hn : 0 < n) :
    e.Overlaps lo n ↔ e.address.toNat < lo + n ∧ lo < e.address.toNat + rdsSize e.type := by
  have hs := rdsSize_pos ht
  constructor
  · intro ⟨x, h1, h2, h3, h4⟩
    exact ⟨by omega, by omega⟩
  · intro ⟨h1, h2⟩
    by_cases hx : lo ≤ e.address.toNat
    · exact ⟨e.address.toNat, hx, h1, Nat.le_refl _, by omega⟩
    · exact ⟨lo, Nat.le_refl _, by omega, by omega, h2⟩

/-- Entries behind one above a block do not reach into it. -/
theorem Layout.not_overlaps_above {t : RegisterTable δ} (hl : Layout t) {lo n i j : Nat}
    (hn : 0 < n) (habove : lo + n ≤ (t.entry i).address.toNat) (hij : i ≤ j) (hj : j < t.entries) :
    ¬(t.entry j).Overlaps lo n := by
  rw [RegisterEntry.overlaps_iff (hl.typed j hj) lo hn]
  rcases Nat.eq_or_lt_of_le hij with rfl | hij
  · omega
  · have hasc := hl.entriesAscending.stop_le hij hj
    omega

theorem areaRead_mem {t : RegisterTable δ} {an : Nat}
    (hread : (t.area an).read = some .regMemRead) (hmem : (t.area an).hasMem = true)
    (dest : Mem RegisterAtom) (offset n : RegisterOffset) :
    areaRead t an dest offset n = .ok (regAccessResultInit,
      dest.copy 0 ((t.mem an).shift offset.toNat) n.toNat, t) := by
  unfold areaRead
  rw [hread]
  simp only [require_pos hmem, ok_bind]
  rfl

/-- What `reg_read_entry` makes of a local array: the atoms of the entry stand in its front. -/
def entryRaw (h : Host) (t : RegisterTable δ) (i : Nat) : Mem RegisterAtom :=
  match (t.link i).area with
  | none => h.localAtoms
  | some an =>
    h.localAtoms.copy 0 ((t.mem an).shift (t.link i).offset.toNat) (rdsSize (t.entry i).type)

theorem entryRaw_apply {t : RegisterTable δ} {i an k : Nat} (hp : Place t i an)
    (hk : k < rdsSize (t.entry i).type) :
    entryRaw h t i k = t.mem an ((t.link i).offset.toNat + k) := by
  unfold entryRaw
  rw [hp.area_eq]
  exact Mem.copy_inside _ _ (Nat.zero_le k) (by omega)

theorem regReadEntry_mem {t : RegisterTable δ} (hm : MemoryBacked t) {i an : Nat}
    (hp : Place t i an) :
    regReadEntry t i h.localAtoms = .ok (regAccessResultInit, entryRaw h t i, t) := by
  unfold regReadEntry entryRaw
  rw [hp.area_eq]
  simp only
  rw [areaRead_mem (hm.read an hp.area_lt) (hm.hasMem an hp.area_lt), toNat_registerEntrySize]

/-- The entry as `ra_malformed_write` puts it together. -/
def entryDatum (h : Host) (t : RegisterTable δ) (i : Nat) (addr : RegisterAddress)
    (n : RegisterOffset) (buf : Mem RegisterAtom) : RegisterValue :=
  let c := regCopyOf (t.entry i) addr n
  atomsValue h (bitIsset t.flags regTfBigEndian) (t.entry i).type
    (((entryRaw h t i).copy c.rs.toNat (buf.shift c.bs.toNat) c.rlen.toNat).slice 0
      (rdsSize (t.entry i).type))

/-- Its deserialiser and its validator accept an entry after the block. -/
def Admits (h : Host) (t : RegisterTable δ) (i : Nat) (addr : RegisterAddress)
    (n : RegisterOffset) (buf : Mem RegisterAtom) : Prop :=
  (entryDatum h t i addr n buf).usable = true ∧
    rvValidate t (t.entry i) (entryDatum h t i addr n buf) = true

theorem toNat_sub_one {x : BitVec 32} (hx : 0 < x.toNat) : (x - 1).toNat = x.toNat - 1 :=
  BitVec.toNat_sub_of_le (BitVec.le_def.mpr hx)

section Addresses

variable {e : RegisterEntry} {addr : RegisterAddress} {n : RegisterOffset}

theorem toNat_regEntryEnd (ht : e.type ≠ .invalid)
    (he : e.address.toNat + rdsSize e.type ≤ 2 ^ 32) :
    (regEntryEnd e).toNat = e.address.toNat + rdsSize e.type - 1 := by
  have hs := rdsSize_pos ht
  have hsize := toNat_registerEntrySize e
  -- the last atom first: the end of the entry may be 2 ^ 32 itself
  have hend : regEntryEnd e = e.address + (registerEntrySize e - 1) := by
    unfold regEntryEnd
    ring
  have hone : (registerEntrySize e - 1).toNat = rdsSize e.type - 1 := by
    rw [toNat_sub_one (by omega), hsize]
  rw [hend, BitVec.toNat_add, hone, Nat.mod_eq_of_lt (by omega)]
  omega

/-- The last address of a block. -/
theorem toNat_blockLast (hn : 0 < n.toNat) (hlt : addr.toNat + n.toNat < 2 ^ 32) :
    (addr + n - 1).toNat = addr.toNat + n.toNat - 1 := by
  have hsum : (addr + n).toNat = addr.toNat + n.toNat := by
    rw [BitVec.toNat_add, Nat.mod_eq_of_lt hlt]
  rw [toNat_sub_one (by omega), hsum]

end Addresses

/-- What holds from `i` on holds at `i` and behind it. -/
theorem forall_from {n i : Nat} (hi : i < n) {Q : Nat → Prop} :
    (∀ j, i ≤ j → j < n → Q j) ↔ Q i ∧ ∀ j, i + 1 ≤ j → j < n → Q j := by
  constructor
  · intro hq
    exact ⟨hq i (Nat.le_refl i) hi, fun j h1 h2 => hq j (by omega) h2⟩
  · intro ⟨h0, hq⟩ j h1 h2
    rcases Nat.eq_or_lt_of_le h1 with rfl | hlt
    · exact h0
    · exact hq j hlt h2

/-- **What the checks say of a value** for the entry `e`. -/
def valueVerdict (t : RegisterTable δ) (e : RegisterEntry) (v : RegisterValue) :
    RegisterAccessCode :=
  if v.usable = false then .invalid
  else if rvValidate t e v = false then .range
  else .success

theorem valueVerdict_success {t : RegisterTable δ} {e : RegisterEntry} {v : RegisterValue} :
    valueVerdict t e v = .success ↔ v.usable = true ∧ rvValidate t e v = true := by
  unfold valueVerdict
  cases v.usable <;> cases rvValidate t e v <;> simp

theorem valueVerdict_invalid {t : RegisterTable δ} {e : RegisterEntry} {v : RegisterValue}
    (hu : v.usable = false) : valueVerdict t e v = .invalid := if_pos hu

theorem valueVerdict_range {t : RegisterTable δ} {e : RegisterEntry} {v : RegisterValue}
    (hu : ¬v.usable = false) (hv : rvValidate t e v = false) : valueVerdict t e v = .range := by
  unfold valueVerdict
  rw [if_neg hu, if_pos hv]

/-- What `ra_malformed_write` returns about entry `i`. -/
def malformedAt (h : Host) (t : RegisterTable δ) (addr : RegisterAddress) (n : RegisterOffset)
    (buf : Mem RegisterAtom) (i : Nat) : RegisterAccess :=
  ⟨valueVerdict t (t.entry i) (entryDatum h t i addr n buf),
    addr + (regCopyOf (t.entry i) addr n).bs⟩

/-- Entry `i` is the first one from `lo` on that overlaps the block and is not admitted. -/
structure FirstRefused (h : Host) (t : RegisterTable δ) (addr : RegisterAddress)
    (n : RegisterOffset) (buf : Mem RegisterAtom) (lo i : Nat) : Prop where
  le : lo ≤ i
  lt : i < t.entries
  overlaps : (t.entry i).Overlaps addr.toNat n.toNat
  refused : ¬Admits h t i addr n buf
  first : ∀ j, lo ≤ j → j < i → (t.entry j).Overlaps addr.toNat n.toNat → Admits h t j addr n buf

/-- **The loop over the entries** either admits all that overlap the block, or returns what is
    wrong with the first one that is not admitted. -/
theorem raMalformedWriteFrom_mem {t : RegisterTable δ} (hl : Layout t) (hr : InRange t)
    (hm : MemoryBacked t) {addr : RegisterAddress} {n : RegisterOffset} (hn : 0 < n.toNat)
    (hlt : addr.toNat + n.toNat < 2 ^ 32) (buf : Mem RegisterAtom) (k i : Nat)
    (hk : i + k = t.entries) (rv : RegisterAccess) (hs : rv.code = .success) :
    ∃ rv', (raMalformedWriteFrom h addr n buf k i rv t).2 = .ok (rv', t) ∧
      ((rv'.code = .success ∧ ∀ j, i ≤ j → j < t.entries →
          (t.entry j).Overlaps addr.toNat n.toNat → Admits h t j addr n buf) ∨
        ∃ j, FirstRefused h t addr n buf i j ∧ rv' = malformedAt h t addr n buf j) := by
  induction k generalizing i rv with
  | zero => exact ⟨rv, rfl, .inl ⟨hs, fun j h1 h2 => by omega⟩⟩
  | succ k ih =>
    have hi : i < t.entries := by omega
    have ht := hl.typed i hi
    have hover := RegisterEntry.overlaps_iff ht addr.toNat hn
    have hend := toNat_regEntryEnd ht (hr.entries i hi).le
    have hpos := rdsSize_pos ht
    obtain ⟨an, hp⟩ := hl.place hr hi
    have hlast := toNat_blockLast hn hlt
    -- an entry that is passed leaves the result to the entries behind it
    have hpass : ((t.entry i).Overlaps addr.toNat n.toNat → Admits h t i addr n buf) →
        ∀ rv', rv'.code = .success →
        ∃ rv'', (raMalformedWriteFrom h addr n buf k (i + 1) rv' t).2 = .ok (rv'', t) ∧
          ((rv''.code = .success ∧ ∀ j, i ≤ j → j < t.entries →
              (t.entry j).Overlaps addr.toNat n.toNat → Admits h t j addr n buf) ∨
            ∃ j, FirstRefused h t addr n buf i j ∧ rv'' = malformedAt h t addr n buf j) := by
      intro hadm rv' hs'
      obtain ⟨rv'', hrun, hout⟩ := ih (i + 1) (by omega) rv' hs'
      refine ⟨rv'', hrun, hout.imp (fun ⟨hc, hall⟩ => ⟨hc, ?_⟩) fun ⟨j, hj, he⟩ => ⟨j, ?_, he⟩⟩
      · exact (forall_from hi).mpr ⟨hadm, hall⟩
      · refine ⟨by have := hj.le; omega, hj.lt, hj.overlaps, hj.refused, ?_⟩
        exact (forall_from hj.le).mpr ⟨hadm, hj.first⟩
    unfold raMalformedWriteFrom
    simp only
    split
    · -- the entry lies below the block
      rename_i hgt
      have hgt' : (regEntryEnd (t.entry i)).toNat < addr.toNat := hgt
      refine hpass (fun ho => ?_) rv hs
      have hov := hover.mp ho
      omega
    rename_i hle
    have hle' : addr.toNat ≤ (regEntryEnd (t.entry i)).toNat := Nat.le_of_not_lt hle
    split
    · -- it lies above the block, and so do all the entries behind it
      rename_i hgt
      have hgt' : (addr + n - 1).toNat < (t.entry i).address.toNat := hgt
      refine ⟨rv, rfl, .inl ⟨hs, fun j h1 h2 ho => ?_⟩⟩
      exact absurd ho (hl.not_overlaps_above hn (by omega) h1 h2)
    · -- it overlaps the block
      rename_i hnot
      have hge : (t.entry i).address.toNat ≤ (addr + n - 1).toNat := Nat.le_of_not_lt hnot
      have ho : (t.entry i).Overlaps addr.toNat n.toNat := hover.mpr ⟨by omega, by omega⟩
      have hrefused : ¬Admits h t i addr n buf → FirstRefused h t addr n buf i i := fun hno =>
        ⟨Nat.le_refl i, hi, ho, hno, fun j h1 h2 => by omega⟩
      rw [regReadEntry_mem hm hp]
      simp only [regAccessResultInit, ne_eq, not_true_eq_false, if_false]
      rw [rdsSerdes_des h _ ht]
      simp only
      split
      · rename_i hu
        refine ⟨_, rfl, .inr ⟨i, hrefused fun ha => Bool.noConfusion (hu.symm.trans ha.1), ?_⟩⟩
        exact congrArg (RegisterAccess.mk · _)
          (valueVerdict_invalid (v := entryDatum h t i addr n buf) hu).symm
      split
      · rename_i hu hv
        refine ⟨_, rfl, .inr ⟨i, hrefused fun ha => Bool.noConfusion (hv.symm.trans ha.2), ?_⟩⟩
        exact congrArg (RegisterAccess.mk · _)
          (valueVerdict_range (v := entryDatum h t i addr n buf) hu hv).symm
      · rename_i hu hv
        exact hpass (fun _ => ⟨Bool.eq_true_of_not_eq_false hu, Bool.eq_true_of_not_eq_false hv⟩)
          regAccessResultInit rfl

/-! ## 4. Touched flags -/

theorem regRangeTouches_eq {e : RegisterEntry} {addr : RegisterAddress} {n : RegisterOffset}
    (h1 : e.address.toNat + rdsSize e.type < 2 ^ 32) (h2 : addr.toNat + n.toNat < 2 ^ 32) :
    regRangeTouches e addr n =
      if e.address.toNat + rdsSize e.type ≤ addr.toNat then -1
      else if addr.toNat + n.toNat ≤ e.address.toNat then 1 else 0 := by
  unfold regRangeTouches rangeTouches
  simp only [BitVec.le_def, BitVec.toNat_add, toNat_registerEntrySize, Nat.mod_eq_of_lt h1,
    Nat.mod_eq_of_lt h2]

theorem regTaintInRangeFrom_flags {t : RegisterTable δ} (hl : Layout t) (hr : InRange t)
    {addr : RegisterAddress} {n : RegisterOffset} (hn : 0 < n.toNat)
    (hlt : addr.toNat + n.toNat < 2 ^ 32) (k i : Nat) (hk : i + k = t.entries)
    (flags : Mem (BitVec 16)) :
    ∃ flags', regTaintInRangeFrom addr n k i { t with entryFlags := flags }
        = { t with entryFlags := flags' } ∧
      (∀ j, i ≤ j → j < t.entries → (t.entry j).Overlaps addr.toNat n.toNat →
        flags' j = bitSet (flags j) regEfTouched) ∧
      ∀ j, ¬(i ≤ j ∧ j < t.entries ∧ (t.entry j).Overlaps addr.toNat n.toNat) →
        flags' j = flags j := by
  induction k generalizing i flags with
  | zero => exact ⟨flags, rfl, fun j h1 h2 => by omega, fun j _ => rfl⟩
  | succ k ih =>
    have hi : i < t.entries := by omega
    have ht := hl.typed i hi
    have hover := RegisterEntry.overlaps_iff ht addr.toNat hn
    unfold regTaintInRangeFrom
    simp only
    rw [regRangeTouches_eq (hr.entries i hi) hlt]
    by_cases hbelow : (t.entry i).address.toNat + rdsSize (t.entry i).type ≤ addr.toNat
    · -- the entry lies below the block
      rw [if_pos hbelow, if_neg (by decide), if_pos (by decide)]
      obtain ⟨flags', hrun, hset, hkeep⟩ := ih (i + 1) (by omega) flags
      have hno : ¬(t.entry i).Overlaps addr.toNat n.toNat := by
        rw [hover]
        omega
      refine ⟨flags', hrun, fun j h1 h2 ho => ?_, fun j hj => ?_⟩
      · rcases Nat.eq_or_lt_of_le h1 with rfl | h1
        · exact absurd ho hno
        · exact hset j h1 h2 ho
      · exact hkeep j fun ⟨h1, h2, ho⟩ => hj ⟨by omega, h2, ho⟩
    rw [if_neg hbelow]
    by_cases habove : addr.toNat + n.toNat ≤ (t.entry i).address.toNat
    · -- it lies above the block, and so do all the entries behind it
      rw [if_pos habove, if_pos (by decide)]
      refine ⟨flags, rfl, fun j h1 h2 ho => ?_, fun j _ => rfl⟩
      exact absurd ho (hl.not_overlaps_above hn habove h1 h2)
    · -- it overlaps the block
      rw [if_neg habove, if_neg (by decide), if_neg (by decide)]
      have ho : (t.entry i).Overlaps addr.toNat n.toNat := hover.mpr ⟨by omega, by omega⟩
      obtain ⟨flags', hrun, hset, hkeep⟩ :=
        ih (i + 1) (by omega) (Function.update flags i (bitSet (flags i) regEfTouched))
      refine ⟨flags', hrun, fun j h1 h2 hj => ?_, fun j hj => ?_⟩
      · rcases Nat.eq_or_lt_of_le h1 with rfl | h1
        · rw [hkeep i (by omega), Function.update_self]
        · rw [hset j h1 h2 hj, Function.update_of_ne (by omega)]
      · have hne : j ≠ i := by
          intro he
          subst he
          exact hj ⟨Nat.le_refl j, hi, ho⟩
        rw [hkeep j (fun ⟨h1, h2, hj'⟩ => hj ⟨by omega, h2, hj'⟩), Function.update_of_ne hne]

/-! ## 5. `ra_writeable` -/

/-- An area that is not writeable touches the block, as `ra_range_touches` sees it. -/
def TouchesReadOnly (t : RegisterTable δ) (addr : RegisterAddress) (n : RegisterOffset) : Prop :=
  ∃ an, an < t.areas ∧ registerAreaIsWriteable (t.area an) = false ∧
    raRangeTouches (t.area an) addr n = 0

/-- Behind an area that begins behind the block, no area touches it. -/
theorem raRangeTouches_above {a b : RegisterArea δ} {addr : RegisterAddress} {n : RegisterOffset}
    (ha : 0 < raRangeTouches a addr n) (hle : a.base ≤ b.base) : raRangeTouches b addr n ≠ 0 := by
  unfold raRangeTouches rangeTouches at ha ⊢
  split at ha
  · omega
  split at ha
  · rename_i habove
    have hb : addr + n ≤ b.base := BitVec.le_trans habove hle
    split
    · decide
    · decide
  · omega

/-- **The walk over the areas**: it finds one that is not writeable, or lets through every area that
    touches the block up to the first one that begins behind it. -/
theorem raWriteableFrom_cases {t : RegisterTable δ} {addr : RegisterAddress} {n : RegisterOffset}
    {k i : Nat} (hk : i + k = t.areas) :
    (raWriteableFrom t addr n k i = ⟨.readonly, addr⟩ ∧ TouchesReadOnly t addr n) ∨
      (raWriteableFrom t addr n k i = regAccessResultInit ∧
        ∀ an, i ≤ an → an < t.areas →
        (∀ m, i ≤ m → m < an → ¬0 < raRangeTouches (t.area m) addr n) →
          raRangeTouches (t.area an) addr n = 0 → registerAreaIsWriteable (t.area an) = true) := by
  induction k generalizing i with
  | zero => exact .inr ⟨rfl, fun an h1 h2 => by omega⟩
  | succ k ih =>
    -- an area that is passed leaves the result to the areas behind it
    have hpass : (raRangeTouches (t.area i) addr n = 0 →
        registerAreaIsWriteable (t.area i) = true) →
        (raWriteableFrom t addr n k (i + 1) = ⟨.readonly, addr⟩ ∧ TouchesReadOnly t addr n) ∨
          (raWriteableFrom t addr n k (i + 1) = regAccessResultInit ∧
            ∀ an, i ≤ an → an < t.areas →
              (∀ m, i ≤ m → m < an → ¬0 < raRangeTouches (t.area m) addr n) →
              raRangeTouches (t.area an) addr n = 0 →
              registerAreaIsWriteable (t.area an) = true) := by
      intro hi
      refine (ih (by omega)).imp_right fun ⟨hrun, hall⟩ => ⟨hrun, fun an h1 h2 hle => ?_⟩
      rcases Nat.eq_or_lt_of_le h1 with rfl | hlt
      · exact hi
      · exact hall an hlt h2 fun m hm => hle m (by omega)
    unfold raWriteableFrom
    simp only
    split
    · rename_i hlt
      exact hpass fun hz => by omega
    split
    · rename_i hgt
      refine .inr ⟨rfl, fun an h1 _ hle hz => ?_⟩
      rcases Nat.eq_or_lt_of_le h1 with rfl | hlt
      · omega
      · exact absurd hgt (hle i (Nat.le_refl i) hlt)
    split
    · rename_i hro
      exact .inl ⟨rfl, i, by omega, hro, by omega⟩
    · rename_i hrw
      exact hpass fun _ => Bool.eq_true_of_not_eq_false hrw

/-- **What `ra_writeable` finds**: an area that is not writeable, whose address it does not tell. -/
theorem raWriteable_cases {t : RegisterTable δ} (hl : Layout t) (addr : RegisterAddress)
    (n : RegisterOffset) :
    (raWriteable t addr n = ⟨.readonly, addr⟩ ∧ TouchesReadOnly t addr n) ∨
      (raWriteable t addr n = regAccessResultInit ∧ ¬TouchesReadOnly t addr n) := by
  refine (raWriteableFrom_cases (Nat.zero_add _)).imp_right fun ⟨hrun, hall⟩ => ⟨hrun, ?_⟩
  intro ⟨an, han, hro, hz⟩
  have hrw := hall an (Nat.zero_le an) han
    (fun m _ hm hgt => raRangeTouches_above hgt (hl.areas_sorted hm han) hz) hz
  rw [hro] at hrw
  cases hrw

/-! ## 6. `register_block_write` -/

/-- The flags of the entries in a block are set, the other ones are left alone. -/
structure Tainted (t : RegisterTable δ) (lo n : Nat) (flags : Mem (BitVec 16)) : Prop where
  touched : ∀ i, i < t.entries → (t.entry i).Overlaps lo n →
    flags i = bitSet (t.entryFlags i) regEfTouched
  untouched : ∀ i, ¬(i < t.entries ∧ (t.entry i).Overlaps lo n) → flags i = t.entryFlags i

theorem regTaintInRange_flags {t : RegisterTable δ} (hl : Layout t) (hr : InRange t)
    {addr : RegisterAddress} {n : RegisterOffset} (hn : 0 < n.toNat)
    (hlt : addr.toNat + n.toNat < 2 ^ 32) :
    ∃ flags, regTaintInRange t addr n = { t with entryFlags := flags } ∧
      Tainted t addr.toNat n.toNat flags := by
  obtain ⟨flags, hrun, hset, hkeep⟩ :=
    regTaintInRangeFrom_flags hl hr hn hlt t.entries 0 (by omega) t.entryFlags
  exact ⟨flags, hrun, fun i => hset i (Nat.zero_le i),
    fun i hi => hkeep i fun ⟨_, h2, h3⟩ => hi ⟨h2, h3⟩⟩

/-- What `register_block_write` asks for. -/
structure BlockAccepted (h : Host) (t : RegisterTable δ) (addr : RegisterAddress)
    (n : RegisterOffset) (buf : Mem RegisterAtom) : Prop where
  writeable : (raWriteable t addr n).code = .success
  noHole : NoHole t addr.toNat n.toNat
  admits : ∀ i, i < t.entries → (t.entry i).Overlaps addr.toNat n.toNat →
    Admits h t i addr n buf

/-- **All that `register_block_write` can do** with a block that is not empty. -/
inductive BlockOutcome (h : Host) (t : RegisterTable δ) (addr : RegisterAddress)
    (n : RegisterOffset) (buf : Mem RegisterAtom) : RegisterAccess → RegisterTable δ → Prop where
  | readonly (hw : (raWriteable t addr n).code ≠ .success) :
      BlockOutcome h t addr n buf (raWriteable t addr n) t
  | hole {rv : RegisterAccess} (hw : (raWriteable t addr n).code = .success)
      (hc : rv.code = .noentry)
      (hlow : LowestIn addr.toNat n.toNat (fun x => ¬Mapped t x) rv.address.toNat) :
      BlockOutcome h t addr n buf rv t
  | malformed {i : Nat} (hw : (raWriteable t addr n).code = .success)
      (hno : NoHole t addr.toNat n.toNat) (hi : FirstRefused h t addr n buf 0 i) :
      BlockOutcome h t addr n buf (malformedAt h t addr n buf i) t
  | written {flags : Mem (BitVec 16)} (ha : BlockAccepted h t addr n buf)
      (hf : Tainted t addr.toNat n.toNat flags) :
      BlockOutcome h t addr n buf regAccessResultInit
        { t.writing addr.toNat n.toNat buf with entryFlags := flags }

theorem registerBlockWrite_outcome {t : RegisterTable δ} (hl : Layout t) (hr : InRange t)
    (hm : MemoryBacked t) (addr : RegisterAddress) {n : RegisterOffset} (hn : n ≠ 0)
    (buf : Mem RegisterAtom) :
    ∃ rv t', registerBlockWrite h t addr n buf = .ok (rv, t') ∧
      BlockOutcome h t addr n buf rv t' := by
  have hpos : 0 < n.toNat := Nat.pos_of_ne_zero fun he => hn (BitVec.eq_of_toNat_eq he)
  unfold registerBlockWrite
  rw [hl.initialised, if_neg (by decide), if_neg hn]
  simp only
  split
  · rename_i hc
    exact ⟨_, t, rfl, .readonly hc⟩
  rename_i hc
  have hw := not_not.mp hc
  obtain ⟨rv₁, hhole, hrep⟩ := registerBlockTouchesHole_report t addr n
  rw [hhole, ok_bind]
  split
  · rename_i hc₁
    rcases hrep with ⟨hc', -⟩ | ⟨hc', hlow⟩
    · exact absurd hc' hc₁
    · exact ⟨_, t, rfl, .hole hw hc' hlow⟩
  rename_i hc₁
  have hno := hrep.noHole (not_not.mp hc₁)
  obtain ⟨rv₂, hmal, hout⟩ := raMalformedWriteFrom_mem hl hr hm hpos hno.1 buf t.entries 0
    (by omega) regAccessResultInit rfl
  unfold raMalformedWrite
  rw [hmal, ok_bind]
  simp only
  split
  · rename_i hc₂
    rcases hout with ⟨hc', -⟩ | ⟨i, hi, rfl⟩
    · exact absurd hc' hc₂
    · exact ⟨_, t, rfl, .malformed hw hno hi⟩
  rename_i hc₂
  rcases hout with ⟨-, hall⟩ | ⟨i, hi, rfl⟩
  · unfold registerBlockWriteUnsafe
    rw [registerBlockWriteUnsafeFuel_eq hl hr hm (Nat.le_refl _) hno, ok_bind]
    obtain ⟨flags, hrun, htaint⟩ := regTaintInRange_flags (hl.writing addr.toNat n.toNat buf)
      (hr.writing addr.toNat n.toNat buf) hpos hno.1
    simp only [regAccessResultInit, ne_eq, not_true_eq_false, if_false]
    refine ⟨_, _, congrArg (fun u => Except.ok (regAccessResultInit, u)) hrun, ?_⟩
    exact .written ⟨hw, hno, fun i => hall i (Nat.zero_le i)⟩ ⟨htaint.touched, htaint.untouched⟩
  · exact absurd (not_not.mp hc₂) fun hc' => hi.refused (valueVerdict_success.mp hc')

/-- **What `register_block_write` does** to a block that is not empty. -/
theorem registerBlockWrite_eq {t : RegisterTable δ} (hl : Layout t) (hr : InRange t)
    (hm : MemoryBacked t) (addr : RegisterAddress) {n : RegisterOffset} (hn : n ≠ 0)
    (buf : Mem RegisterAtom) :
    ∃ rv t', registerBlockWrite h t addr n buf = .ok (rv, t') ∧
      (rv.code = .success ↔ BlockAccepted h t addr n buf) ∧
      (rv.code = .success → ∃ flags, Tainted t addr.toNat n.toNat flags ∧
        t' = { t.writing addr.toNat n.toNat buf with entryFlags := flags }) ∧
      (rv.code ≠ .success → t' = t) := by
  obtain ⟨rv, t', hrun, hout⟩ := registerBlockWrite_outcome (h := h) hl hr hm addr hn buf
  refine ⟨rv, t', hrun, ?_⟩
  -- a check that fails ends the call before anything has changed
  have hfail : ∀ {rv : RegisterAccess}, rv.code ≠ .success → ¬BlockAccepted h t addr n buf →
      (rv.code = .success ↔ BlockAccepted h t addr n buf) ∧
        (rv.code = .success → ∃ flags, Tainted t addr.toNat n.toNat flags ∧
          t = { t.writing addr.toNat n.toNat buf with entryFlags := flags }) ∧
        (rv.code ≠ .success → t = t) :=
    fun hne hno => ⟨iff_of_false hne hno, fun hc => absurd hc hne, fun _ => rfl⟩
  cases hout with
  | readonly hw => exact hfail hw fun ha => hw ha.writeable
  | hole hw hc hlow =>
    refine hfail (by rw [hc]; decide) fun ha => ?_
    obtain ⟨⟨h1, h2, hnp⟩, -⟩ := hlow
    exact hnp (ha.noHole.2 _ h1 h2)
  | malformed hw hno hi =>
    exact hfail (fun hc => hi.refused (valueVerdict_success.mp hc))
      fun ha => hi.refused (ha.admits _ hi.lt hi.overlaps)
  | written ha hf => exact ⟨iff_of_true rfl ha, fun _ => ⟨_, hf, rfl⟩, fun hne => absurd rfl hne⟩

/-- **A block was written**: it is in the table, and nothing else has changed. -/
structure BlockWritten (t t' : RegisterTable δ) (lo n : Nat) (buf : Mem RegisterAtom) : Prop where
  /-- Every address of the block belongs to an area. -/
  mapped : ∀ j, j < n → ∃ an k, an < t.areas ∧ k < (t.area an).size.toNat ∧
    (t.area an).base.toNat + k = lo + j
  /-- The atoms of the block are stored in order. -/
  stored : ∀ an k j, an < t.areas → k < (t.area an).size.toNat → j < n →
    (t.area an).base.toNat + k = lo + j → t'.mem an k = buf j
  /-- All other memory is unchanged. -/
  kept : ∀ an k, (∀ j, j < n → ¬(an < t.areas ∧ k < (t.area an).size.toNat ∧
    (t.area an).base.toNat + k = lo + j)) → t'.mem an k = t.mem an k
  tainted : Tainted t lo n t'.entryFlags
  rest : t' = { t with mem := t'.mem, entryFlags := t'.entryFlags }

theorem blockWritten_writing {t : RegisterTable δ} (hr : InRange t) {lo n : Nat}
    (buf : Mem RegisterAtom) (hno : NoHole t lo n) {flags : Mem (BitVec 16)}
    (hf : Tainted t lo n flags) :
    BlockWritten t { t.writing lo n buf with entryFlags := flags } lo n buf where
  mapped := fun j hj => by
    have hlt := hno.1
    obtain ⟨an, han, h1, h2⟩ := (Layout.mapped_iff hr.areas (by omega)).mp
      (hno.2 (lo + j) (by omega) (by omega))
    exact ⟨an, lo + j - (t.area an).base.toNat, han, by omega, by omega⟩
  stored := fun an k j han hk hj he => by
    show (t.writing lo n buf).mem an k = buf j
    rw [writing_inside han hk (by omega) (by omega)]
    exact congrArg buf (by omega)
  kept := fun an k hk => by
    refine writing_outside fun ⟨h1, h2, h3, h4⟩ => ?_
    exact hk ((t.area an).base.toNat + k - lo) (by omega) ⟨h1, h2, by omega⟩
  tainted := hf
  rest := rfl

/-- **All or nothing.** Where `register_block_write` succeeds, the block is in the table; where it
    does not, the table is what it was. -/
theorem registerBlockWrite_allOrNothing {t : RegisterTable δ} (hi : Initialised h t)
    (hr : InRange t) (hm : MemoryBacked t) (addr : RegisterAddress) (n : RegisterOffset)
    (buf : Mem RegisterAtom) :
    ∃ rv t', registerBlockWrite h t addr n buf = .ok (rv, t') ∧
      (rv.code = .success → BlockWritten t t' addr.toNat n.toNat buf) ∧
      (rv.code ≠ .success → t' = t) := by
  by_cases hn : n = 0
  · subst hn
    refine ⟨regAccessResultInit, t, ?_, fun _ => ?_, fun _ => rfl⟩
    · unfold registerBlockWrite
      rw [hi.layout.initialised]
      rfl
    · have hf : Tainted t addr.toNat (0 : RegisterOffset).toNat t.entryFlags :=
        ⟨fun i _ ⟨x, h1, h2, _, _⟩ => absurd h2 (Nat.not_lt_of_le h1), fun i _ => rfl⟩
      have hw := blockWritten_writing hr buf (noHole_zero t addr) hf
      rw [writing_zero] at hw
      exact hw
  · obtain ⟨rv, t', hrun, hiff, hs, hf⟩ := registerBlockWrite_eq hi.layout hr hm addr hn buf
    refine ⟨rv, t', hrun, fun hc => ?_, hf⟩
    obtain ⟨flags, hflags, rfl⟩ := hs hc
    exact blockWritten_writing hr buf (hiff.mp hc).noHole hflags

theorem registerBlockWrite_allOrNothing_sample :
    ∃ rv t', registerBlockWrite lp64Host (initialTable lp64Host sampleTable) 1 3
        (Mem.ofList 0 [5, 6, 7]) = .ok (rv, t') ∧
      (rv.code = .success →
        BlockWritten (initialTable lp64Host sampleTable) t' 1 3 (Mem.ofList 0 [5, 6, 7])) ∧
      (rv.code ≠ .success → t' = initialTable lp64Host sampleTable) :=
  registerBlockWrite_allOrNothing (initialised_initialTable (by decide)) sampleTable_inRange
    sampleTable_memoryBacked 1 3 (Mem.ofList 0 [5, 6, 7])

end Ufw
