/-
  File:      Ufw/Registers/Rejections.lean
  Subject:   REGISTER TABLE: the address that a rejected block write reports.

  * `RejectionReport` -- the address each result should carry;
  * `registerBlockWrite_report_iff` -- **when the right address is reported**: READONLY always names
    the beginning of the block, and the write that is not checked (`Unchecked`) is judged by what is
    there before it.
-/
import Ufw.Registers.Entries
import Ufw.Registers.Placement
import Mathlib.Tactic.IntervalCases

namespace Ufw

open Base

variable {δ : Type} {h : Host}

/-! ## 1. What is reported -/

/-- Address `x` lies in an area that is not writeable. -/
def ReadOnlyAt (t : RegisterTable δ) (x : Nat) : Prop :=
  ∃ an, an < t.areas ∧ AreaHolds t an x ∧ registerAreaIsWriteable (t.area an) = false

/-- What the deserialiser and the validator of an entry say of what it holds. -/
def entryVerdict (h : Host) (t : RegisterTable δ) (i : Nat) : RegisterAccessCode :=
  valueVerdict t (t.entry i) (entryValue h t i)

/-- Entry `i` is the first one in the range that fails in the table `u`. -/
structure FirstFails (h : Host) (u : RegisterTable δ) (lo n i : Nat) : Prop where
  lt : i < u.entries
  overlaps : (u.entry i).Overlaps lo n
  fails : entryVerdict h u i ≠ .success
  first : ∀ j, j < i → (u.entry j).Overlaps lo n → entryVerdict h u j = .success

/-- **The address a rejection should carry**: the lowest one in the range that lies in an area that
    is not writeable, that lies in no area, or that belongs to the first entry that fails once the
    block is laid over the table. -/
def RejectionReport (h : Host) (t : RegisterTable δ) (lo n : Nat) (buf : Mem RegisterAtom)
    (rv : RegisterAccess) : Prop :=
  match rv.code with
  | .readonly => LowestIn lo n (ReadOnlyAt t) rv.address.toNat
  | .noentry => LowestIn lo n (fun x => ¬Belongs t x) rv.address.toNat
  | .range | .invalid => ∃ i, FirstFails h (t.writing lo n buf) lo n i ∧
      entryVerdict h (t.writing lo n buf) i = rv.code ∧
      LowestIn lo n (EntryHolds t i) rv.address.toNat
  | _ => True

/-- **When the right address is reported.** A block that touches an area that is not writeable has
    to begin in one; a write of one atom to the third atom of an entry of four is judged by the old
    value of that entry, which has to fail as the new one does. -/
structure ReportsRightly (h : Host) (t : RegisterTable δ) (addr : RegisterAddress)
    (n : RegisterOffset) (buf : Mem RegisterAtom) : Prop where
  readonly : TouchesReadOnly t addr n → ReadOnlyAt t addr.toNat
  unchecked : ¬TouchesReadOnly t addr n → ∀ i, i < t.entries →
    Unchecked (t.entry i) addr.toNat n.toNat → entryVerdict h t i ≠ .success →
    entryVerdict h (t.writing addr.toNat n.toNat buf) i = entryVerdict h t i

/-! ## 2. Areas that are not writeable -/

/-- An area that touches a block without atoms holds its address. -/
theorem readOnlyAt_of_touches_zero {t : RegisterTable δ} (hr : AreasInRange t)
    {addr : RegisterAddress} (ht : TouchesReadOnly t addr 0) : ReadOnlyAt t addr.toNat := by
  obtain ⟨an, han, hro, hz⟩ := ht
  refine ⟨an, han, ?_, hro⟩
  unfold raRangeTouches rangeTouches at hz
  split at hz
  · cases hz
  rename_i hend
  split at hz
  · cases hz
  rename_i hbase
  have hsum : addr + 0 = addr := BitVec.add_zero addr
  have h1 : (t.area an).base.toNat < (addr + 0).toNat := Nat.lt_of_not_le hbase
  have h2 : addr.toNat < ((t.area an).base + (t.area an).size).toNat := Nat.lt_of_not_le hend
  rw [hsum] at h1
  rw [BitVec.toNat_add, Nat.mod_eq_of_lt (hr an han)] at h2
  exact ⟨h1.le, h2⟩

/-! ## 3. The four reports -/

section Reports

variable {t : RegisterTable δ} {addr : RegisterAddress} {n : RegisterOffset}
  {buf : Mem RegisterAtom}

/-- The lowest address that is part of no area is the lowest one that lies in none. -/
theorem lowestIn_belongs (hr : InRange t) {lo k : Nat} {x : RegisterAddress}
    (hlow : LowestIn lo k (fun x => ¬Mapped t x) x.toNat) :
    LowestIn lo k (fun x => ¬Belongs t x) x.toNat := by
  obtain ⟨⟨h1, h2, hno⟩, hleast⟩ := hlow
  refine ⟨⟨h1, h2, fun hb => hno ((Layout.mapped_iff hr.areas x.isLt).mpr hb)⟩, ?_⟩
  intro y ⟨hy1, hy2, hny⟩
  by_cases hy : y < 2 ^ 32
  · exact hleast ⟨hy1, hy2, fun hm => hny ((Layout.mapped_iff hr.areas hy).mp hm)⟩
  · have hx := x.isLt
    omega

/-- An entry lies in areas: what it holds is not a hole. -/
theorem Layout.entry_mapped (hl : Layout t) (hr : InRange t) {i x : Nat} (hi : i < t.entries)
    (hx : EntryHolds t i x) : Mapped t x := by
  obtain ⟨an, hp⟩ := hl.place hr hi
  have h1 := hp.offset_eq
  have h2 := hp.stop_le
  have h3 := hr.entries i hi
  obtain ⟨hx1, hx2⟩ := hx
  exact (Layout.mapped_iff hr.areas (by omega)).mpr ⟨an, hp.area_lt, by omega, by omega⟩

/-- **The address in a report about an entry** is the lowest one that belongs to the entry. -/
theorem lowestIn_entry (hl : Layout t) (hr : InRange t) {i : Nat} (hi : i < t.entries)
    (hn : 0 < n.toNat) (hlt : addr.toNat + n.toNat < 2 ^ 32)
    (ho : (t.entry i).Overlaps addr.toNat n.toNat) :
    LowestIn addr.toNat n.toNat (EntryHolds t i) (malformedAt h t addr n buf i).address.toNat := by
  have ht := hl.typed i hi
  obtain ⟨h1, h2⟩ := (RegisterEntry.overlaps_iff ht _ hn).mp ho
  have hc := regCopyOf_computes ht (hr.entries i hi).le hn hlt h1 h2
  have hbs := hc.bs_eq
  have haddr : (malformedAt h t addr n buf i).address.toNat
      = addr.toNat + ((t.entry i).address.toNat - addr.toNat) := by
    unfold malformedAt
    rw [BitVec.toNat_add, hbs, Nat.mod_eq_of_lt (by omega)]
  have hpos := rdsSize_pos ht
  rw [haddr]
  refine ⟨⟨by omega, by omega, ?_⟩, fun y ⟨hy1, hy2, hy3, hy4⟩ => by omega⟩
  exact ⟨by omega, by omega⟩

/-- An entry is judged by its value after the block, unless the write is not checked. -/
theorem datumVerdict_eq (hl : Layout t) (hr : InRange t) {i : Nat} (hi : i < t.entries)
    (hn : 0 < n.toNat) (hlt : addr.toNat + n.toNat < 2 ^ 32)
    (ho : (t.entry i).Overlaps addr.toNat n.toNat)
    (hh : ¬Unchecked (t.entry i) addr.toNat n.toNat) :
    valueVerdict t (t.entry i) (entryDatum h t i addr n buf)
      = entryVerdict h (t.writing addr.toNat n.toNat buf) i := by
  rw [entryDatum_eq hl hr hi hn hlt buf t.entryFlags ho hh]
  rfl

theorem Unchecked.overlaps {e : RegisterEntry} {lo k : Nat} (hu : Unchecked e lo k) :
    e.Overlaps lo k := by
  obtain ⟨hsize, hlo, hk⟩ := hu
  exact ⟨lo, Nat.le_refl lo, by omega, by omega, by omega⟩

/-- **The write that is not checked** is judged by what the entry holds. -/
theorem entryDatum_unchecked (hl : Layout t) (hr : InRange t) {i : Nat} (hi : i < t.entries)
    (hh : Unchecked (t.entry i) addr.toNat n.toNat) :
    entryDatum h t i addr n buf = entryValue h t i := by
  obtain ⟨hsize, haddr, hone⟩ := hh
  have he := hr.entries i hi
  have hc : (regCopyOf (t.entry i) addr n).Computes (t.entry i).address.toNat
      (rdsSize (t.entry i).type) addr.toNat n.toNat :=
    regCopyOf_computes (hl.typed i hi) he.le (by omega) (by omega) (by omega) (by omega)
  obtain ⟨an, hp⟩ := hl.place hr hi
  have hlen : (regCopyOf (t.entry i) addr n).rlen.toNat = 0 := by
    rw [hc.rlen_eq]
    unfold copyLength
    rw [if_neg (by omega), if_neg (by omega)]
    omega
  unfold entryDatum entryValue
  simp only
  rw [hlen, Mem.copy_zero, entryRaw_slice hp]

/-- Where every write is checked, the entry that is refused is the first one that fails. -/
theorem FirstRefused.firstFails (hl : Layout t) (hr : InRange t) (hn : 0 < n.toNat)
    (hlt : addr.toNat + n.toNat < 2 ^ 32) {i : Nat} (hi : FirstRefused h t addr n buf 0 i)
    (hh : ∀ j, j < t.entries → ¬Unchecked (t.entry j) addr.toNat n.toNat) :
    FirstFails h (t.writing addr.toNat n.toNat buf) addr.toNat n.toNat i where
  lt := hi.lt
  overlaps := hi.overlaps
  fails := by
    rw [← datumVerdict_eq hl hr hi.lt hn hlt hi.overlaps (hh i hi.lt)]
    exact fun hc => hi.refused (valueVerdict_success.mp hc)
  first := fun j hj ho => by
    have hjlt := Nat.lt_trans hj hi.lt
    rw [← datumVerdict_eq hl hr hjlt hn hlt ho (hh j hjlt)]
    exact valueVerdict_success.mpr (hi.first j (Nat.zero_le j) hj ho)

theorem rejectionReport_entry {rv : RegisterAccess} (hc : rv.code = .range ∨ rv.code = .invalid) :
    RejectionReport h t addr.toNat n.toNat buf rv ↔
      ∃ i, FirstFails h (t.writing addr.toNat n.toNat buf) addr.toNat n.toNat i ∧
        entryVerdict h (t.writing addr.toNat n.toNat buf) i = rv.code ∧
        LowestIn addr.toNat n.toNat (EntryHolds t i) rv.address.toNat := by
  unfold RejectionReport
  rcases hc with hc | hc <;> rw [hc]

theorem valueVerdict_ne {e : RegisterEntry} {v : RegisterValue}
    (hne : valueVerdict t e v ≠ .success) :
    valueVerdict t e v = .range ∨ valueVerdict t e v = .invalid := by
  unfold valueVerdict at hne ⊢
  split
  · exact .inr rfl
  rename_i hu
  split
  · exact .inl rfl
  · rename_i hv
    rw [if_neg hu, if_neg hv] at hne
    exact absurd rfl hne

/-- **The report about an entry** is right, unless the write is not checked and the entry gets
    better by it, or fails in another way. -/
theorem rejectionReport_malformed (hl : Layout t) (hr : InRange t) (hn : 0 < n.toNat)
    (hlt : addr.toNat + n.toNat < 2 ^ 32) {i : Nat} (hi : FirstRefused h t addr n buf 0 i) :
    RejectionReport h t addr.toNat n.toNat buf (malformedAt h t addr n buf i) ↔
      ∀ j, j < t.entries → Unchecked (t.entry j) addr.toNat n.toNat →
        entryVerdict h t j ≠ .success →
        entryVerdict h (t.writing addr.toNat n.toNat buf) j = entryVerdict h t j := by
  have hne : valueVerdict t (t.entry i) (entryDatum h t i addr n buf) ≠ .success :=
    fun hc => hi.refused (valueVerdict_success.mp hc)
  have hlow : LowestIn addr.toNat n.toNat (EntryHolds t i)
      (malformedAt h t addr n buf i).address.toNat := lowestIn_entry hl hr hi.lt hn hlt hi.overlaps
  rw [rejectionReport_entry (valueVerdict_ne hne)]
  by_cases hh : ∃ j, j < t.entries ∧ Unchecked (t.entry j) addr.toNat n.toNat
  · -- the block is one address, and there is no other entry at it
    obtain ⟨j, hj, hu⟩ := hh
    have hone : ∀ {k}, k < t.entries → (t.entry k).Overlaps addr.toNat n.toNat → k = j := by
      intro k hk ⟨x, h1, h2, h3, h4⟩
      obtain ⟨hsize, haddr, hn1⟩ := hu
      exact hl.entriesAscending.unique hk hj h3 h4 (by omega) (by omega)
    obtain rfl := hone hi.lt hi.overlaps
    have hcode : (malformedAt h t addr n buf i).code = entryVerdict h t i :=
      congrArg (valueVerdict t (t.entry i)) (entryDatum_unchecked hl hr hi.lt hu)
    rw [hcode]
    constructor
    · intro ⟨k, hk, hv, _⟩ l hl' hul _
      obtain rfl := hone hk.lt hk.overlaps
      obtain rfl := hone hl' hul.overlaps
      exact hv
    · intro hall
      have hold : entryVerdict h t i ≠ .success := hcode ▸ hne
      have hv := hall i hi.lt hu hold
      refine ⟨i, ⟨hi.lt, hi.overlaps, by rw [hv]; exact hold, fun k hk ho => ?_⟩, hv, hlow⟩
      have hki := hone (Nat.lt_trans hk hi.lt) ho
      omega
  · have hno : ∀ j, j < t.entries → ¬Unchecked (t.entry j) addr.toNat n.toNat :=
      fun j hj hu => hh ⟨j, hj, hu⟩
    refine iff_of_true ⟨i, hi.firstFails hl hr hn hlt hno, ?_, hlow⟩ fun j hj hu => ?_
    · exact (datumVerdict_eq hl hr hi.lt hn hlt hi.overlaps (hno i hi.lt)).symm
    · exact absurd hu (hno j hj)

end Reports

/-! ## 4. `register_block_write` -/

/-- **The address of a rejected block write** is the right one if and only if `ReportsRightly`. -/
theorem registerBlockWrite_report_iff {t : RegisterTable δ} (hi : Initialised h t) (hr : InRange t)
    (hm : MemoryBacked t) (addr : RegisterAddress) (n : RegisterOffset) (buf : Mem RegisterAtom) :
    ∃ rv t', registerBlockWrite h t addr n buf = .ok (rv, t') ∧
      (RejectionReport h t addr.toNat n.toNat buf rv ↔ ReportsRightly h t addr n buf) := by
  have hl := hi.layout
  by_cases hn : n = 0
  · subst hn
    refine ⟨regAccessResultInit, t, ?_, iff_of_true trivial ⟨?_, ?_⟩⟩
    · unfold registerBlockWrite
      rw [hl.initialised]
      rfl
    · exact readOnlyAt_of_touches_zero hr.areas
    · exact fun _ i _ hu => absurd hu.2.2 (by decide)
  have hpos : 0 < n.toNat := Nat.pos_of_ne_zero fun he => hn (BitVec.eq_of_toNat_eq he)
  obtain ⟨rv, t', hrun, hout⟩ := registerBlockWrite_outcome (h := h) hl hr hm addr hn buf
  refine ⟨rv, t', hrun, ?_⟩
  -- past `ra_writeable`, no area that is not writeable touches the block
  have hpassed : (raWriteable t addr n).code = .success → ¬TouchesReadOnly t addr n := by
    intro hw
    rcases raWriteable_cases hl addr n with ⟨he, -⟩ | ⟨-, hno⟩
    · rw [he] at hw
      cases hw
    · exact hno
  have hiff : (raWriteable t addr n).code = .success → (ReportsRightly h t addr n buf ↔
      ∀ j, j < t.entries → Unchecked (t.entry j) addr.toNat n.toNat →
        entryVerdict h t j ≠ .success →
        entryVerdict h (t.writing addr.toNat n.toNat buf) j = entryVerdict h t j) := fun hw =>
    ⟨fun hrr => hrr.unchecked (hpassed hw), fun hall => ⟨fun ht => absurd ht (hpassed hw),
      fun _ => hall⟩⟩
  cases hout with
  | readonly hw =>
    rcases raWriteable_cases hl addr n with ⟨he, ht⟩ | ⟨he, -⟩
    · rw [he]
      refine (lowestIn_first hpos).trans ⟨fun hro => ⟨fun _ => hro, fun hno => absurd ht hno⟩,
        fun hrr => hrr.readonly ht⟩
    · rw [he] at hw
      exact absurd rfl hw
  | hole hw hc hlow =>
    rw [hiff hw]
    refine iff_of_true ?_ fun j hj hu => ?_
    · unfold RejectionReport
      rw [hc]
      exact lowestIn_belongs hr hlow
    · -- the entry lies in an area, so its third address is no hole
      obtain ⟨hsize, haddr, hone⟩ := hu
      obtain ⟨⟨h1, h2, hno⟩, -⟩ := hlow
      exact absurd (hl.entry_mapped hr hj ⟨by omega, by omega⟩) hno
  | malformed hw hno hi =>
    rw [hiff hw]
    exact rejectionReport_malformed hl hr hpos hno.1 hi
  | written ha hf =>
    rw [hiff ha.writeable]
    refine iff_of_true trivial fun j hj hu hold => absurd ?_ hold
    have hadm := valueVerdict_success.mpr (ha.admits j hj hu.overlaps)
    rw [entryDatum_unchecked hl hr hj hu] at hadm
    exact hadm

/-- Two areas side by side, of which the second one is not writeable. -/
def readOnlyTable : RegisterTable Unit :=
  tableOf [memoryArea 0 2, { memoryArea 2 2 with flags := regAfReadable }]
    [⟨.uint16, 7, 1, .trivial⟩]

theorem readOnlyTable_inRange : InRange (initialTable lp64Host readOnlyTable) :=
  ⟨by decide, by decide⟩

theorem readOnlyTable_memoryBacked : MemoryBacked (initialTable lp64Host readOnlyTable) := by
  have hall : ∀ i, i < 2 → (initialTable lp64Host readOnlyTable).area i = memoryArea 0 2 ∨
      (initialTable lp64Host readOnlyTable).area i
        = { memoryArea 2 2 with flags := regAfReadable } := by
    intro i hi
    interval_cases i
    · exact .inl rfl
    · exact .inr rfl
  refine ⟨fun i hi => ?_, fun i hi => ?_, fun i hi => ?_⟩ <;>
    rcases hall i hi with he | he <;> rw [he] <;> rfl

theorem registerBlockWrite_report_iff_sample :
    ∃ rv t', registerBlockWrite lp64Host (initialTable lp64Host sampleTable) 1 3
        (Mem.ofList 0 [5, 6, 7]) = .ok (rv, t') ∧
      (RejectionReport lp64Host (initialTable lp64Host sampleTable) 1 3
          (Mem.ofList 0 [5, 6, 7]) rv ↔
        ReportsRightly lp64Host (initialTable lp64Host sampleTable) 1 3 (Mem.ofList 0 [5, 6, 7])) :=
  registerBlockWrite_report_iff (initialised_initialTable (by decide)) sampleTable_inRange
    sampleTable_memoryBacked 1 3 (Mem.ofList 0 [5, 6, 7])

/-- **READONLY names the beginning of the block**, also where the area that is not writeable begins
    behind it. -/
theorem registerBlockWrite_report_readOnly :
    ¬∀ (t : RegisterTable Unit) (addr : RegisterAddress) (n : RegisterOffset)
      (buf : Mem RegisterAtom), Initialised lp64Host t → InRange t → MemoryBacked t →
      ∃ rv t', registerBlockWrite lp64Host t addr n buf = .ok (rv, t') ∧
        RejectionReport lp64Host t addr.toNat n.toNat buf rv := by
  intro hall
  obtain ⟨rv, t', hrun, hrep⟩ := hall (initialTable lp64Host readOnlyTable) 0 4 (fun _ => 0)
    (initialised_initialTable (by decide)) readOnlyTable_inRange readOnlyTable_memoryBacked
  have hrv : registerBlockWrite lp64Host (initialTable lp64Host readOnlyTable) 0 4 (fun _ => 0)
      = .ok (⟨.readonly, 0⟩, initialTable lp64Host readOnlyTable) := by rfl
  cases hrun.symm.trans hrv
  -- address 0 lies in the first area only, and that one is writeable
  obtain ⟨⟨-, -, an, han, hin, hro⟩, -⟩ := hrep
  have han' : an < 2 := han
  interval_cases an
  · cases hro
  · exact absurd hin.1 (by decide)

end Ufw
