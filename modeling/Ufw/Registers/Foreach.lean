/-
  File:      Ufw/Registers/Foreach.lean
  Subject:   REGISTER TABLE: a callback for every register in a range of addresses
             (registers/core.c).

  * `registerForeachIn` -- the search for a first register, and the iteration from there on;
  * `foreachStart_iff` -- **the search finds the entry that holds the first address**, and no other;
  * `foreachVisits_iff` -- when the callback is called on the entries that overlap the range, and on
    no other: **a range that begins in a hole is not looked at**, and one that goes beyond the last
    address is cut off.
-/
import Mathlib.Data.List.Sort
import Ufw.Base.Calls
import Ufw.Registers.BlockWrite
import Ufw.Registers.Spans

namespace Ufw

open Base

variable {δ σ : Type} {h : Host}

/-! ## 1. `register_foreach_in` -/

/-- `registerCallback`, with `arg` and the contents of the table among what it works on: the
    iteration looks at neither. -/
abbrev RegisterCallback (σ : Type) := σ → Nat → Int × σ

/-- `find_area` -/
def findArea (t : RegisterTable δ) (first last : Nat) (addr : RegisterAddress) : Option Nat :=
  let i := firstFrom (fun i => raAddrIsPartOf (t.area i) addr) (last + 1 - first) first
  if i ≤ last then some i else none

/-- `find_reg` -/
def findReg (t : RegisterTable δ) (first last : Nat) (addr : RegisterAddress) : Option Nat :=
  let i := firstFrom (fun i => regRangeTouches (t.entry i) addr 1 == 0) (last + 1 - first) first
  if i ≤ last then some i else none

/-- The loop of `reg_iterate`, over the `k` entries from `start` on. -/
def regIterateFrom (t : RegisterTable δ) (stop : RegisterAddress) (f : RegisterCallback σ) :
    Nat → Nat → σ → RegisterAccess × σ
  | 0, _, s => (regAccessResultInit, s)
  | k + 1, start, s =>
    if (t.entry start).address ≤ stop then
      let (iret, s) := f s start
      if iret = 0 then regIterateFrom t stop f k (start + 1) s
      else if iret < 0 then (⟨.failure, (t.entry start).address⟩, s)
      else (regAccessResultInit, s)
    else (regAccessResultInit, s)

/-- `reg_iterate` -/
def regIterate (t : RegisterTable δ) (start : Nat) (stop : RegisterAddress)
    (f : RegisterCallback σ) (s : σ) : RegisterAccess × σ :=
  let last := t.entries - 1
  regIterateFrom t stop f (last + 1 - start) start s

/-- Where `register_foreach_in` begins. -/
def foreachStart (t : RegisterTable δ) (addr : RegisterAddress) : Option Nat :=
  match findArea t 0 (t.areas - 1) addr with
  | some an => findReg t (t.span an).first (t.span an).last addr
  | none => findReg t 0 (t.entries - 1) addr

/-- **`register_foreach_in`** -/
def registerForeachIn (t : RegisterTable δ) (addr : RegisterAddress) (off : RegisterOffset)
    (f : RegisterCallback σ) (s : σ) : RegisterAccess × σ :=
  if bitIsset t.flags regTfInitialised = false then (⟨.uninitialised, 0⟩, s)
  else if off = 0 || t.entries = 0 then (regAccessResultInit, s)
  else
    match foreachStart t addr with
    | none => (regAccessResultInit, s)
    | some start => regIterate t start (addr + off - 1) f s

/-! ## 2. What it is for -/

instance (e : RegisterEntry) (lo n : Nat) : Decidable (e.Overlaps lo n) :=
  decidable_of_iff
    (max lo e.address.toNat < min (lo + n) (e.address.toNat + rdsSize e.type)) <| by
      unfold RegisterEntry.Overlaps
      constructor
      · exact fun hlt => ⟨max lo e.address.toNat, by omega, by omega, by omega, by omega⟩
      · intro ⟨x, h1, h2, h3, h4⟩
        omega

/-- The entries that overlap a range of addresses. -/
def registersIn (t : RegisterTable δ) (lo n : Nat) : List Nat :=
  (List.range t.entries).filter fun i => decide ((t.entry i).Overlaps lo n)

/-- The result of a visit: a failure where the call that stopped it was negative. -/
def foreachResult (t : RegisterTable δ) : Option (Nat × Int) → RegisterAccess
  | none => regAccessResultInit
  | some (i, iret) =>
    if iret < 0 then ⟨.failure, (t.entry i).address⟩ else regAccessResultInit

/-- A visit to some entries, up to the first call that is not 0. -/
def visitRegisters (t : RegisterTable δ) (l : List Nat) (f : RegisterCallback σ) (s : σ) :
    RegisterAccess × σ :=
  let (stopped, s) := visit f (fun iret => iret != 0) l s
  (foreachResult t stopped, s)

/-- **The property**: every callback is called on the entries that overlap the range, in their
    order, up to the first call that is not 0; and the result is that of the visit. -/
def ForeachVisits (t : RegisterTable δ) (addr : RegisterAddress) (off : RegisterOffset) : Prop :=
  ∀ (σ : Type) (f : RegisterCallback σ) (s : σ),
    registerForeachIn t addr off f s = visitRegisters t (registersIn t addr.toNat off.toNat) f s

/-! ## 3. The search -/

/-- The entry holds an address, and it ends below `2 ^ 32`. -/
def RegisterEntry.Holds (e : RegisterEntry) (addr : RegisterAddress) : Prop :=
  e.address.toNat ≤ addr.toNat ∧ addr.toNat < e.address.toNat + rdsSize e.type ∧
    e.address.toNat + rdsSize e.type < 2 ^ 32

instance (e : RegisterEntry) (addr : RegisterAddress) : Decidable (e.Holds addr) :=
  inferInstanceAs (Decidable (_ ∧ _ ∧ _))

theorem regRangeTouches_one (e : RegisterEntry) (addr : RegisterAddress) :
    (regRangeTouches e addr 1 == 0) = true ↔ e.Holds addr := by
  have hs4 : rdsSize e.type ≤ 4 := rdsSize_le e.type
  have hend : (e.address + registerEntrySize e).toNat
      = (e.address.toNat + rdsSize e.type) % 2 ^ 32 := by
    rw [BitVec.toNat_add, toNat_registerEntrySize]
  have hnext : (addr + 1).toNat = (addr.toNat + 1) % 2 ^ 32 := BitVec.toNat_add _ _
  have ha := addr.isLt
  unfold regRangeTouches rangeTouches RegisterEntry.Holds
  simp only [BitVec.le_def, hend, hnext]
  split
  · simp
    omega
  · split
    · simp
      omega
    · simp
      omega

/-- **What `find_reg` finds** among entries of the table. -/
theorem findReg_iff {t : RegisterTable δ} (hl : Layout t) {first last i : Nat}
    (hlast : last < t.entries) {addr : RegisterAddress} :
    findReg t first last addr = some i ↔ first ≤ i ∧ i ≤ last ∧ (t.entry i).Holds addr := by
  unfold findReg
  simp only
  constructor
  · intro hf
    split at hf
    · rename_i hle
      cases hf
      have h1 := le_firstFrom (p := fun i => regRangeTouches (t.entry i) addr 1 == 0)
        (last + 1 - first) first
      have hp := firstFrom_holds (p := fun i => regRangeTouches (t.entry i) addr 1 == 0)
        (k := last + 1 - first) (i := first) (by omega)
      exact ⟨h1, hle, (regRangeTouches_one _ _).mp hp⟩
    · cases hf
  · intro ⟨h1, h2, hi⟩
    have he := firstFrom_eq (p := fun i => regRangeTouches (t.entry i) addr 1 == 0)
      (k := last + 1 - first) h1 (by omega) ((regRangeTouches_one _ _).mpr hi) fun j h3 h4 => by
        refine Bool.eq_false_iff.mpr fun hp => ?_
        have hj := (regRangeTouches_one _ _).mp hp
        have := hl.entriesAscending.unique (by omega) (by omega) hj.1 hj.2.1 hi.1 hi.2.1
        omega
    rw [he, if_pos h2]

theorem findArea_some {t : RegisterTable δ} {last an : Nat} {addr : RegisterAddress}
    (hf : findArea t 0 last addr = some an) :
    an ≤ last ∧ raAddrIsPartOf (t.area an) addr = true := by
  unfold findArea at hf
  simp only at hf
  split at hf
  · rename_i hle
    cases hf
    exact ⟨hle, firstFrom_holds (p := fun i => raAddrIsPartOf (t.area i) addr) (by omega)⟩
  · cases hf

/-- An address of an entry is part of the area of the entry. -/
theorem RegisterEntry.Holds.part {t : RegisterTable δ} {i : Nat} {addr : RegisterAddress}
    (hi : (t.entry i).Holds addr) {an : Nat} (hin : InArea t i an) :
    raAddrIsPartOf (t.area an) addr = true := by
  have hends := raAddrIsPartOf_ends hin.part
  have hfit := hin.fits
  obtain ⟨h1, -⟩ := (raAddrIsPartOf_iff hends _).mp hin.part
  unfold raRegFitsInto at hfit
  rw [decide_eq_true_eq, BitVec.le_def, BitVec.toNat_add, BitVec.toNat_add,
    toNat_registerEntrySize, Nat.mod_eq_of_lt hi.2.2, Nat.mod_eq_of_lt hends] at hfit
  exact (raAddrIsPartOf_iff hends _).mpr ⟨Nat.le_trans h1 hi.1, Nat.lt_of_lt_of_le hi.2.1 hfit⟩

/-- **Where the iteration begins**: at the entry that holds the first address. -/
theorem foreachStart_iff {t : RegisterTable δ} (ht : Initialised h t) (he : 0 < t.entries)
    {addr : RegisterAddress} {i : Nat} :
    foreachStart t addr = some i ↔ i < t.entries ∧ (t.entry i).Holds addr := by
  have hl := ht.layout
  unfold foreachStart
  split
  · rename_i an hf
    obtain ⟨hle, hpart⟩ := findArea_some hf
    have hareas := (hl.ownerOf_inArea he).area_lt
    have han : an < t.areas := by omega
    obtain ⟨first, next, hspan, hrun⟩ := ht.spans.run an han
    -- an entry that holds the address is one of the area it is looked for in
    have hown : ∀ j, j < t.entries → (t.entry j).Holds addr → first ≤ j ∧ j < next := by
      intro j hj hh
      have hin := hl.ownerOf_inArea hj
      refine (hrun j).mpr ⟨hj, (hl.part_iff_ownerOf hj han).mpr ?_⟩
      exact hl.part_unique hin.area_lt han (hh.part hin) hpart
    rw [hspan]
    unfold spanOf
    split
    · rename_i hlt
      have hnext := ((hrun (next - 1)).mp ⟨by omega, by omega⟩).1
      rw [findReg_iff hl hnext]
      constructor
      · intro ⟨h1, h2, hh⟩
        exact ⟨by omega, hh⟩
      · intro ⟨hi, hh⟩
        obtain ⟨h1, h2⟩ := hown i hi hh
        exact ⟨h1, by omega, hh⟩
    · rename_i hge
      rw [findReg_iff hl he]
      constructor
      · intro ⟨h1, h2, hh⟩
        exact ⟨by omega, hh⟩
      · intro ⟨hi, hh⟩
        obtain ⟨h1, h2⟩ := hown i hi hh
        omega
  · rw [findReg_iff hl (by omega)]
    exact ⟨fun ⟨_, h2, hh⟩ => ⟨by omega, hh⟩, fun ⟨hi, hh⟩ => ⟨Nat.zero_le _, by omega, hh⟩⟩

/-! ## 4. The iteration -/

/-- The entries `reg_iterate` goes through. -/
def iterated (t : RegisterTable δ) (stop : RegisterAddress) (k start : Nat) : List Nat :=
  (List.range' start k).takeWhile fun i => decide ((t.entry i).address ≤ stop)

theorem iterated_succ (t : RegisterTable δ) (stop : RegisterAddress) (k start : Nat) :
    iterated t stop (k + 1) start = if (t.entry start).address ≤ stop then
      start :: iterated t stop k (start + 1) else [] := by
  unfold iterated
  rw [List.range'_succ, List.takeWhile_cons]
  simp only [decide_eq_true_eq]

theorem regIterateFrom_eq (t : RegisterTable δ) (stop : RegisterAddress) (f : RegisterCallback σ)
    (k start : Nat) (s : σ) :
    regIterateFrom t stop f k start s = visitRegisters t (iterated t stop k start) f s := by
  induction k generalizing start s with
  | zero => rfl
  | succ k ih =>
    unfold regIterateFrom
    rw [iterated_succ]
    split
    · unfold visitRegisters visit
      simp only
      split
      · rename_i hzero
        rw [ih, hzero]
        rfl
      · rename_i hzero
        simp only [bne_iff_ne, ne_eq, hzero, not_false_eq_true, if_true, foreachResult]
        split <;> rfl
    · rfl

/-- The iteration goes on while the addresses are not beyond `stop`; they ascend. -/
theorem mem_iterated {t : RegisterTable δ} (hl : Layout t) {stop : RegisterAddress}
    {k start i : Nat} (hk : start + k = t.entries) :
    i ∈ iterated t stop k start ↔ start ≤ i ∧ i < t.entries ∧ (t.entry i).address ≤ stop := by
  induction k generalizing start with
  | zero => exact ⟨fun hm => (nomatch hm), fun ⟨h1, h2, _⟩ => by omega⟩
  | succ k ih =>
    rw [iterated_succ]
    split
    · rename_i hle
      rw [List.mem_cons, ih (by omega)]
      constructor
      · rintro (rfl | ⟨h1, h2⟩)
        · exact ⟨Nat.le_refl _, by omega, hle⟩
        · exact ⟨by omega, h2⟩
      · intro ⟨h1, h2⟩
        rcases Nat.eq_or_lt_of_le h1 with he | hlt
        · exact .inl he.symm
        · exact .inr ⟨hlt, h2⟩
    · rename_i hgt
      refine ⟨fun hm => (nomatch hm), fun ⟨h1, h2, h3⟩ => absurd ?_ hgt⟩
      exact BitVec.le_def.mpr (Nat.le_trans (hl.address_le h1 h2) h3)

/-- The entries `register_foreach_in` goes through. -/
def foreachVisited (t : RegisterTable δ) (addr : RegisterAddress) (off : RegisterOffset) :
    List Nat :=
  match foreachStart t addr with
  | none => []
  | some start => iterated t (addr + off - 1) (t.entries - start) start

section Visits

variable {t : RegisterTable δ} {addr : RegisterAddress} {off : RegisterOffset}

theorem registerForeachIn_eq (hinit : bitIsset t.flags regTfInitialised = true)
    (he : 0 < t.entries) (hoff : 0 < off.toNat) (f : RegisterCallback σ) (s : σ) :
    registerForeachIn t addr off f s = visitRegisters t (foreachVisited t addr off) f s := by
  have hne : off ≠ 0 := by
    rintro rfl
    exact Nat.lt_irrefl 0 hoff
  have hlast : t.entries - 1 + 1 = t.entries := by omega
  unfold registerForeachIn foreachVisited
  rw [if_neg (by rw [hinit]; decide),
    if_neg (by simp only [Bool.or_eq_true, decide_eq_true_eq, hne, false_or]; omega)]
  split
  · rfl
  · unfold regIterate
    simp only [hlast]
    exact regIterateFrom_eq t _ f _ _ s

theorem mem_foreachVisited (ht : Initialised h t) (he : 0 < t.entries) {i : Nat} :
    i ∈ foreachVisited t addr off ↔ ∃ start, start < t.entries ∧ (t.entry start).Holds addr ∧
      start ≤ i ∧ i < t.entries ∧ (t.entry i).address ≤ addr + off - 1 := by
  unfold foreachVisited
  cases hs : foreachStart t addr with
  | none =>
    refine ⟨fun hm => (nomatch hm), fun ⟨start, h1, h2, _⟩ => ?_⟩
    have hsome := (foreachStart_iff ht he).mpr ⟨h1, h2⟩
    rw [hs] at hsome
    cases hsome
  | some start =>
    obtain ⟨h1, h2⟩ := (foreachStart_iff ht he).mp hs
    rw [mem_iterated ht.layout (by omega)]
    constructor
    · exact fun hm => ⟨start, h1, h2, hm⟩
    · intro ⟨start', h3, h4, hm⟩
      have hsome := (foreachStart_iff ht he).mpr ⟨h3, h4⟩
      rw [hs] at hsome
      cases hsome
      exact hm

theorem mem_registersIn {lo n i : Nat} :
    i ∈ registersIn t lo n ↔ i < t.entries ∧ (t.entry i).Overlaps lo n := by
  unfold registersIn
  rw [List.mem_filter, List.mem_range, decide_eq_true_eq]

/-- Both go through entries in ascending order. -/
theorem foreachVisited_eq_iff :
    foreachVisited t addr off = registersIn t addr.toNat off.toNat ↔
      ∀ i, i ∈ foreachVisited t addr off ↔ i ∈ registersIn t addr.toNat off.toNat := by
  constructor
  · exact fun he i => by rw [he]
  · refine List.Pairwise.eq_of_mem_iff (r := (· < ·)) ?_ ?_
    · unfold foreachVisited
      split
      · exact .nil
      · exact List.Pairwise.sublist (List.takeWhile_sublist _) (List.pairwise_lt_range' 1)
    · exact List.pairwise_lt_range.filter _

end Visits

/-! ## 5. What is visited -/

/-- The address the iteration ends at: it wraps where the range goes beyond the last address. -/
theorem toNat_foreachStop (addr : RegisterAddress) {off : RegisterOffset} (hoff : 0 < off.toNat) :
    (addr + off - 1).toNat = if addr.toNat + off.toNat ≤ 2 ^ 32 then addr.toNat + off.toNat - 1
      else addr.toNat + off.toNat - 1 - 2 ^ 32 := by
  have ha := addr.isLt
  have ho := off.isLt
  have hone : (1 : BitVec 32).toNat = 1 := rfl
  rw [BitVec.toNat_sub, BitVec.toNat_add, hone]
  split <;> omega

/-- **The ranges that are gone through**: they begin in an entry; and they do not go beyond the last
    address, unless they begin in the last entry and come round to where that begins. -/
def GoneThrough (t : RegisterTable δ) (addr : RegisterAddress) (off : RegisterOffset) : Prop :=
  ∃ i, i < t.entries ∧ (t.entry i).Holds addr ∧
    (addr.toNat + off.toNat ≤ 2 ^ 32 ∨
      i + 1 = t.entries ∧ (t.entry i).address.toNat + 2 ^ 32 < addr.toNat + off.toNat)

section Range

variable {t : RegisterTable δ} (hl : Layout t) {addr : RegisterAddress} {off : RegisterOffset}
  (hoff : 0 < off.toNat)

include hl hoff

/-- Behind the entry that holds the first address, an entry overlaps the range if it begins in it;
    before that entry none overlaps it. -/
theorem overlaps_iff_of_holds {start i : Nat} (hs : start < t.entries)
    (hh : (t.entry start).Holds addr) (hi : i < t.entries) :
    (t.entry i).Overlaps addr.toNat off.toNat ↔
      start ≤ i ∧ (t.entry i).address.toNat < addr.toNat + off.toNat := by
  obtain ⟨h1, h2, -⟩ := hh
  rw [RegisterEntry.overlaps_iff (hl.typed i hi) _ hoff]
  constructor
  · intro ⟨h3, h4⟩
    refine ⟨Nat.le_of_not_lt fun hlt => ?_, h3⟩
    have hstop := hl.entriesAscending.stop_le hlt hs
    omega
  · intro ⟨hle, h3⟩
    refine ⟨h3, ?_⟩
    rcases Nat.eq_or_lt_of_le hle with rfl | hlt
    · exact h2
    · have hstop := hl.entriesAscending.stop_le hlt hi
      omega

omit hl in
/-- Where the range is gone through, the iteration ends where the range does. -/
theorem le_foreachStop_iff {start i : Nat} (hs : start < t.entries)
    (hg : addr.toNat + off.toNat ≤ 2 ^ 32 ∨ start + 1 = t.entries ∧
      (t.entry start).address.toNat + 2 ^ 32 < addr.toNat + off.toNat)
    (hle : start ≤ i) (hi : i < t.entries) :
    (t.entry i).address ≤ addr + off - 1 ↔
      (t.entry i).address.toNat < addr.toNat + off.toNat := by
  rw [BitVec.le_def, toNat_foreachStop addr hoff]
  have hlt := (t.entry i).address.isLt
  rcases hg with hsum | ⟨hlast, hwrap⟩
  · rw [if_pos hsum]
    omega
  · obtain rfl : i = start := by omega
    split <;> omega

/-- Where the iteration comes to the last entry although the range goes beyond the last address, it
    begins there. -/
theorem last_of_beyond (hsum : ¬addr.toNat + off.toNat ≤ 2 ^ 32) {start : Nat}
    (hs : start < t.entries) (hh : (t.entry start).Holds addr)
    (hlast : (t.entry (t.entries - 1)).address ≤ addr + off - 1) :
    start + 1 = t.entries ∧
      (t.entry start).address.toNat + 2 ^ 32 < addr.toNat + off.toNat := by
  obtain ⟨h1, h2, -⟩ := hh
  rw [BitVec.le_def, toNat_foreachStop addr hoff, if_neg hsum] at hlast
  have ho := off.isLt
  by_cases he : start + 1 = t.entries
  · refine ⟨he, ?_⟩
    obtain rfl : start = t.entries - 1 := by omega
    omega
  · have hstop :=
      hl.entriesAscending.stop_le (i := start) (j := t.entries - 1) (by omega) (by omega)
    omega

end Range

theorem visitRegisters_record (t : RegisterTable δ) (l : List Nat) :
    visitRegisters t l (record 0) [] = (regAccessResultInit, l) := by
  unfold visitRegisters
  rw [visit_record rfl]
  rfl

/-- A callback can tell whether other entries are visited than those that overlap the range. -/
theorem foreachVisits_iff_visited {t : RegisterTable δ}
    (hinit : bitIsset t.flags regTfInitialised = true) (he : 0 < t.entries)
    {addr : RegisterAddress} {off : RegisterOffset} (hoff : 0 < off.toNat) :
    ForeachVisits t addr off ↔
      foreachVisited t addr off = registersIn t addr.toNat off.toNat := by
  constructor
  · intro hall
    have hrec := hall (List Nat) (record 0) []
    rw [registerForeachIn_eq hinit he hoff, visitRegisters_record, visitRegisters_record] at hrec
    exact (Prod.mk.inj hrec).2
  · intro hlist σ f s
    rw [registerForeachIn_eq hinit he hoff, hlist]

section Cover

variable {t : RegisterTable δ} (ht : Initialised h t) (he : 0 < t.entries)
  {addr : RegisterAddress} {off : RegisterOffset} (hoff : 0 < off.toNat)

include ht he hoff

/-- Where an entry overlaps the range and all that do are visited, the range is gone through. -/
theorem goneThrough_of_visited {o : Nat} (ho : o < t.entries)
    (hov : (t.entry o).Overlaps addr.toNat off.toNat)
    (hall : ∀ i, i ∈ registersIn t addr.toNat off.toNat → i ∈ foreachVisited t addr off) :
    GoneThrough t addr off := by
  have hl := ht.layout
  obtain ⟨start, hs, hh, -⟩ := (mem_foreachVisited ht he).mp
    (hall o (mem_registersIn.mpr ⟨ho, hov⟩))
  refine ⟨start, hs, hh, or_iff_not_imp_left.mpr fun hsum => ?_⟩
  -- the last entry overlaps a range that goes beyond the last address
  have hlt := (t.entry (t.entries - 1)).address.isLt
  have hlast := (overlaps_iff_of_holds hl hoff hs hh (i := t.entries - 1) (by omega)).mpr
    ⟨by omega, by omega⟩
  obtain ⟨-, -, -, -, -, hle⟩ := (mem_foreachVisited ht he).mp
    (hall _ (mem_registersIn.mpr ⟨by omega, hlast⟩))
  exact last_of_beyond hl hoff hsum hs hh hle

/-- Where the range is gone through, the entries that are visited are those that overlap it. -/
theorem GoneThrough.mem_visited_iff (hg : GoneThrough t addr off) (i : Nat) :
    i ∈ foreachVisited t addr off ↔ i ∈ registersIn t addr.toNat off.toNat := by
  have hl := ht.layout
  obtain ⟨start, hs, hh, hend⟩ := hg
  rw [mem_foreachVisited ht he, mem_registersIn]
  constructor
  · intro ⟨start', hs', hh', hle, hi, hstop⟩
    obtain rfl := hl.entriesAscending.unique hs' hs hh'.1 hh'.2.1 hh.1 hh.2.1
    exact ⟨hi, (overlaps_iff_of_holds hl hoff hs hh hi).mpr
      ⟨hle, (le_foreachStop_iff hoff hs hend hle hi).mp hstop⟩⟩
  · intro ⟨hi, hov⟩
    obtain ⟨hle, hlt⟩ := (overlaps_iff_of_holds hl hoff hs hh hi).mp hov
    exact ⟨start, hs, hh, hle, hi, (le_foreachStop_iff hoff hs hend hle hi).mpr hlt⟩

/-- Where no entry overlaps the range, none is visited: the first one would. -/
theorem mem_visited_iff_of_none
    (hnone : ∀ i, i < t.entries → ¬(t.entry i).Overlaps addr.toNat off.toNat) (i : Nat) :
    i ∈ foreachVisited t addr off ↔ i ∈ registersIn t addr.toNat off.toNat := by
  rw [mem_foreachVisited ht he, mem_registersIn]
  constructor
  · intro ⟨start, hs, hh, _⟩
    refine absurd ?_ (hnone start hs)
    exact (overlaps_iff_of_holds ht.layout hoff hs hh hs).mpr
      ⟨Nat.le_refl _, Nat.lt_of_le_of_lt hh.1 (Nat.lt_add_of_pos_right hoff)⟩
  · intro ⟨hi, hov⟩
    exact absurd hov (hnone i hi)

end Cover

/-- **When the callback is called on the entries that overlap a range**: where the range is gone
    through, or where there is no such entry. -/
theorem foreachVisits_iff {t : RegisterTable δ} (ht : Initialised h t) {addr : RegisterAddress}
    {off : RegisterOffset} (hoff : 0 < off.toNat) :
    ForeachVisits t addr off ↔ GoneThrough t addr off ∨
      ∀ i, i < t.entries → ¬(t.entry i).Overlaps addr.toNat off.toNat := by
  have hinit := ht.layout.initialised
  rcases Nat.eq_zero_or_pos t.entries with he | he
  · -- a table without entries
    refine ⟨fun _ => .inr fun i hi => by omega, fun _ σ f s => ?_⟩
    have hnone : registersIn t addr.toNat off.toNat = [] := by
      unfold registersIn
      rw [he]
      rfl
    rw [hnone]
    unfold registerForeachIn
    rw [if_neg (by rw [hinit]; decide), if_pos (by rw [he]; simp)]
    rfl
  · rw [foreachVisits_iff_visited hinit he hoff, foreachVisited_eq_iff]
    constructor
    · intro hall
      refine or_iff_not_imp_right.mpr fun hsome => ?_
      push Not at hsome
      obtain ⟨o, ho, hov⟩ := hsome
      exact goneThrough_of_visited ht he hoff ho hov fun i => (hall i).mpr
    · rintro (hg | hnone)
      · exact hg.mem_visited_iff ht he hoff
      · exact mem_visited_iff_of_none ht he hoff hnone

/-- From the register at 5 on, a callback is called on all three; from 4 on, on none. -/
theorem foreachVisits_iff_sample :
    ForeachVisits (initialTable lp64Host sparseTable) 5 4 ∧
      ¬ForeachVisits (initialTable lp64Host sparseTable) 4 4 := by
  have ht := initialised_initialTable (h := lp64Host) (t := sparseTable) rfl
  constructor
  · exact (foreachVisits_iff ht (by decide)).mpr (.inl ⟨0, by decide, by decide, .inl (by decide)⟩)
  · intro hv
    rcases (foreachVisits_iff ht (by decide)).mp hv with ⟨i, hi, hh, -⟩ | hnone
    · exact absurd hh (by revert i; decide)
    · exact hnone 0 (by decide) (by decide)

/-- The addresses 4 and 6 belong to no register. A range that begins at 4 is not gone through,
    although there is a register at 5, and one at 7. -/
theorem not_foreachVisits :
    ¬∀ t : RegisterTable Unit, Initialised lp64Host t → ∀ (addr : RegisterAddress)
      (off : RegisterOffset), 0 < off.toNat → ForeachVisits t addr off := by
  intro hall
  have ht := initialised_initialTable (h := lp64Host) (t := sparseTable) rfl
  have hv := hall _ ht 4 4 (by decide) (List Nat) (record 0) []
  cases (Prod.mk.inj hv).2

end Ufw
