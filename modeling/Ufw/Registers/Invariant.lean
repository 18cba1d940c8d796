/-
  File:      Ufw/Registers/Invariant.lean
  Subject:   REGISTER TABLE: every entry holds a value its validator accepts.

  * `EntryValid` -- THE INVARIANT, of one entry: its atoms deserialise, and the value satisfies its
    validator; an entry that always fails holds its default value;
  * `Accepts.valid` -- `register_init` establishes it;
  * `RegisterCall.step` -- a call keeps it, unless it is a block write of one atom to the third atom
    of an entry of four: such a write is not checked (`Unchecked`);
  * `registerCalls_entriesValid` -- **so it holds in every run without such writes**.

  A call that does not return (it hands the slot behind the last entry to `register_set`, with a
  value of no type) ends a run.
-/
import Ufw.Registers.TypedRaw

namespace Ufw

open Base

variable {δ : Type} {h : Host}

/-! ## 1. The invariant -/

/-- A value satisfies the validator of an entry. The validator that always fails stands for the
    default value: nothing else may be stored once `register_init` is done. -/
def Satisfies (t : RegisterTable δ) (e : RegisterEntry) (v : RegisterValue) : Prop :=
  match e.check with
  | .fail => v = RegisterValue.ofUnion e.type e.defaultValue
  | _ => rvValidate t e v = true

/-- **The invariant**, of one entry. -/
def EntryValid (h : Host) (t : RegisterTable δ) (i : Nat) : Prop :=
  ∃ v, (rdsSerdes h (t.entry i).type).des (entryRaw h t i) (bitIsset t.flags regTfBigEndian)
      = .ok (v, true) ∧ Satisfies t (t.entry i) v

theorem entryValid_iff {t : RegisterTable δ} {i an : Nat} (ht : (t.entry i).type ≠ .invalid)
    (hp : Place t i an) :
    EntryValid h t i ↔
      (entryValue h t i).usable = true ∧ Satisfies t (t.entry i) (entryValue h t i) :=
  deserialises_iff ht hp

/-- What a validator accepts after `register_init` satisfies it. -/
theorem satisfies_of_validate {t : RegisterTable δ} (hl : Layout t) {e : RegisterEntry}
    {v : RegisterValue} (hv : rvValidate t e v = true) : Satisfies t e v := by
  have ht := rvValidate_type hv
  have hsettled := hl.settled
  cases hc : e.check with
  | fail =>
    unfold rvValidate at hv
    rw [if_neg (not_not.mpr ht.symm), hc] at hv
    exact Bool.noConfusion (hsettled.symm.trans hv)
  | _ =>
    unfold Satisfies
    rw [hc]
    exact hv

/-! ## 2. Calls -/

/-- The calls that write to registers. -/
inductive RegisterCall where
  | set (idx : Nat) (v : RegisterValue)
  | bitSet (idx : Nat) (v : RegisterValue)
  | bitClear (idx : Nat) (v : RegisterValue)
  | blockWrite (addr : RegisterAddress) (n : RegisterOffset) (buf : Mem RegisterAtom)

/-- What a call does. -/
def RegisterCall.run (h : Host) (t : RegisterTable δ) :
    RegisterCall → Exec (RegisterAccess × RegisterTable δ)
  | .set idx v => registerSet h t idx v
  | .bitSet idx v => registerBitSet h t idx v
  | .bitClear idx v => registerBitClear h t idx v
  | .blockWrite addr n buf => registerBlockWrite h t addr n buf

/-- A sequence of calls, each of which `P` holds of in the table it is made on; `t` is the table
    after them. -/
inductive RegisterCalls (h : Host) (P : RegisterTable δ → RegisterCall → Prop)
    (t₀ : RegisterTable δ) : RegisterTable δ → Prop where
  | start : RegisterCalls h P t₀ t₀
  | call {t t' : RegisterTable δ} {rv : RegisterAccess} (c : RegisterCall)
      (hrun : RegisterCalls h P t₀ t) (hP : P t c) (hc : c.run h t = .ok (rv, t')) :
      RegisterCalls h P t₀ t'

/-- The call is not a block write that goes unchecked. -/
def Checked (t : RegisterTable δ) : RegisterCall → Prop
  | .blockWrite addr n _ =>
    ∀ i, i < t.entries → ¬Unchecked (t.entry i) addr.toNat n.toNat
  | _ => True

/-- What a call finds: a table with its layout, in which the invariant holds. -/
structure ValidTable (h : Host) (t : RegisterTable δ) : Prop where
  layout : Layout t
  inRange : InRange t
  memoryBacked : MemoryBacked t
  valid : ∀ i, i < t.entries → EntryValid h t i

/-! ## 3. A call keeps the invariant -/

/-- The slot behind the last entry is never written to. -/
theorem registerSet_behind {t t' : RegisterTable δ} (hl : Layout t) {idx : Nat}
    (hidx : t.entries ≤ idx) {v : RegisterValue} {rv : RegisterAccess}
    (hs : registerSet h t idx v = .ok (rv, t')) : t' = t := by
  unfold registerSet registerSetx at hs
  simp only [hl.initialised, Bool.true_and] at hs
  rw [if_neg (by decide)] at hs
  split at hs
  · cases hs
    rfl
  rename_i hle
  obtain rfl : idx = t.entries := by omega
  split at hs
  · cases hs
    rfl
  split at hs
  · cases hs
  split at hs
  · cases hs
    rfl
  · rw [hl.terminated] at hs
    cases hs

/-- **A write keeps the invariant** if what it makes of the entries it touches is accepted. -/
theorem ValidTable.writing {t : RegisterTable δ} (ht : ValidTable h t) {lo n : Nat}
    {buf : Mem RegisterAtom} (flags : Mem (BitVec 16))
    (hnew : ∀ i, i < t.entries → (t.entry i).Overlaps lo n →
      (entryValue h { t.writing lo n buf with entryFlags := flags } i).usable = true ∧
        rvValidate t (t.entry i)
          (entryValue h { t.writing lo n buf with entryFlags := flags } i) = true) :
    ValidTable h { t.writing lo n buf with entryFlags := flags } := by
  obtain ⟨hl, hr, hm, hvalid⟩ := ht
  have hl' : Layout { t.writing lo n buf with entryFlags := flags } := hl.congr _ t.dev flags
  refine ⟨hl', ⟨hr.areas, hr.entries⟩, ⟨hm.read, hm.write, hm.hasMem⟩, fun i hi => ?_⟩
  have hi' : i < t.entries := hi
  obtain ⟨an, hp⟩ := hl.place hr hi'
  have hp' : Place { t.writing lo n buf with entryFlags := flags } i an :=
    ⟨hp.area_lt, hp.area_eq, hp.offset_eq, hp.stop_le⟩
  refine (entryValid_iff (hl'.typed i hi) hp').mpr ?_
  by_cases ho : (t.entry i).Overlaps lo n
  · obtain ⟨hu, hv⟩ := hnew i hi' ho
    exact ⟨hu, satisfies_of_validate hl' hv⟩
  · rw [entryValue_writing_of_not_overlaps hp flags ho]
    exact (entryValid_iff (hl.typed i hi') hp).mp (hvalid i hi')

/-- **`register_set` keeps the invariant.** -/
theorem ValidTable.set {t t' : RegisterTable δ} (ht : ValidTable h t) {idx : Nat}
    {v : RegisterValue} {rv : RegisterAccess} (hs : registerSet h t idx v = .ok (rv, t')) :
    ValidTable h t' := by
  have hl := ht.layout
  by_cases hidx : idx < t.entries
  · obtain ⟨an, hp⟩ := hl.place ht.inRange hidx
    obtain ⟨rv', u, hrun, hiff, hdone, hfail⟩ := registerSet_eq (h := h) hl.initialised
      (hl.areasAscending ht.inRange.areas) ht.memoryBacked hidx (hl.typed idx hidx) hp v
    rw [hrun] at hs
    cases hs
    by_cases hc : rv.code = .success
    · obtain ⟨hval, hu⟩ := hiff.mp hc
      have htype := rvValidate_type hval
      rw [hdone hc]
      refine ht.writing t.entryFlags fun j hj ho => ?_
      -- the entries do not overlap, so this is the one that was set
      obtain ⟨x, h1, h2, h3, h4⟩ := ho
      obtain rfl := hl.entriesAscending.unique hj hidx h3 h4 h1 h2
      rw [entryValue_writing_self hp htype t.entryFlags]
      exact ⟨hu, hval⟩
    · rw [hfail hc]
      exact ht
  · rw [registerSet_behind hl (Nat.le_of_not_lt hidx) hs]
    exact ht

/-- Reading a register leaves the table alone. -/
theorem registerGet_table {t t' : RegisterTable δ} (hl : Layout t) (hr : InRange t)
    (hm : MemoryBacked t) {idx : Nat} {v : RegisterValue} {rv : RegisterAccess}
    (hg : registerGet h t idx = .ok (rv, v, t')) : t' = t := by
  by_cases hidx : idx < t.entries
  · obtain ⟨an, hp⟩ := hl.place hr hidx
    cases (registerGet_eq hl hm hidx hp).symm.trans hg
    rfl
  · unfold registerGet at hg
    simp only [hl.initialised] at hg
    rw [if_neg (by decide), if_pos (Nat.le_of_not_lt hidx)] at hg
    cases hg
    rfl

theorem ValidTable.bits {t t' : RegisterTable δ} (ht : ValidTable h t) {idx : Nat}
    {op : BitVec 64 → BitVec 64 → BitVec 64} {v : RegisterValue} {rv : RegisterAccess}
    (hb : registerBits h t idx op v = .ok (rv, t')) : ValidTable h t' := by
  unfold registerBits at hb
  obtain ⟨⟨rv', reg, u⟩, hget, hrest⟩ := bind_eq_ok hb
  obtain rfl := registerGet_table ht.layout ht.inRange ht.memoryBacked hget
  simp only at hrest
  split at hrest
  · cases hrest
    exact ht
  split at hrest
  · cases hrest
    exact ht
  split at hrest
  · exact ht.set hrest
  · exact ht.set hrest
  · exact ht.set hrest
  · cases hrest
    exact ht

/-- **`register_block_write` keeps the invariant**, save for the write that is not checked. -/
theorem ValidTable.blockWrite {t t' : RegisterTable δ} (ht : ValidTable h t)
    {addr : RegisterAddress} {n : RegisterOffset} {buf : Mem RegisterAtom} {rv : RegisterAccess}
    (hh : ∀ i, i < t.entries → ¬Unchecked (t.entry i) addr.toNat n.toNat)
    (hb : registerBlockWrite h t addr n buf = .ok (rv, t')) : ValidTable h t' := by
  by_cases hn : n = 0
  · subst hn
    unfold registerBlockWrite at hb
    rw [ht.layout.initialised, if_neg (by decide), if_pos rfl] at hb
    cases hb
    exact ht
  have hpos : 0 < n.toNat := Nat.pos_of_ne_zero fun he => hn (BitVec.eq_of_toNat_eq he)
  obtain ⟨rv', u, hrun, hiff, hdone, hfail⟩ :=
    registerBlockWrite_eq (h := h) ht.layout ht.inRange ht.memoryBacked addr hn buf
  rw [hrun] at hb
  cases hb
  by_cases hc : rv.code = .success
  · have hacc := hiff.mp hc
    obtain ⟨flags, -, rfl⟩ := hdone hc
    refine ht.writing flags fun i hi ho => ?_
    rw [← entryDatum_eq ht.layout ht.inRange hi hpos hacc.noHole.1 buf flags ho (hh i hi)]
    exact hacc.admits i hi ho
  · rw [hfail hc]
    exact ht

/-- **A call keeps the invariant.** -/
theorem RegisterCall.step {t t' : RegisterTable δ} (ht : ValidTable h t) {c : RegisterCall}
    (hh : Checked t c) {rv : RegisterAccess} (hc : c.run h t = .ok (rv, t')) :
    ValidTable h t' := by
  cases c with
  | set idx v => exact ht.set hc
  | bitSet idx v => exact ht.bits hc
  | bitClear idx v => exact ht.bits hc
  | blockWrite addr n buf => exact ht.blockWrite hh hc

/-- **So does a run.** -/
theorem RegisterCalls.valid {t₀ t : RegisterTable δ} (h₀ : ValidTable h t₀)
    (hrun : RegisterCalls h Checked t₀ t) : ValidTable h t := by
  induction hrun with
  | start => exact h₀
  | call c _ hP hc ih => exact RegisterCall.step ih hP hc

/-! ## 4. `register_init` establishes the invariant -/

/-- The default value of an entry. -/
def RegisterEntry.default (e : RegisterEntry) : RegisterValue :=
  RegisterValue.ofUnion e.type e.defaultValue

/-- Entry `i` is linked, and it holds its default value, which was accepted in the table `s`. -/
structure Loaded (h : Host) (s t : RegisterTable δ) (i : Nat) : Prop where
  linked : Linked t i
  value : entryValue h t i = (s.entry i).default
  usable : (s.entry i).default.usable = true
  accepted : rvValidate s (s.entry i) (s.entry i).default = true

/-- A table whose entries can be linked: what `register_init` has checked by then, and what the
    results here are about. -/
structure Ready (s : RegisterTable δ) : Prop where
  initialised : bitIsset s.flags regTfInitialised = true
  areas : AreasAscending s
  entries : Ascending (fun i => (s.entry i).address.toNat)
    (fun i => (s.entry i).address.toNat + rdsSize (s.entry i).type) s.entries
  typed : ∀ i, i < s.entries → (s.entry i).type ≠ .invalid
  inRange : InRange s
  memoryBacked : MemoryBacked s
  defaults : ∀ i, i < s.areas → bitIsset (s.area i).flags regAfSkipDefaults = false

/-- The table `s` with other links and other contents. -/
def RegisterTable.linking (s : RegisterTable δ) (link : Mem RegisterLink)
    (mem : Mem (Mem RegisterAtom)) (dev : δ) : RegisterTable δ :=
  { s with link := link, mem := mem, dev := dev }

theorem Ready.linking {s : RegisterTable δ} (hr : Ready s) (link : Mem RegisterLink)
    (mem : Mem (Mem RegisterAtom)) (dev : δ) : Ready (s.linking link mem dev) where
  initialised := hr.initialised
  areas := hr.areas
  entries := hr.entries
  typed := hr.typed
  inRange := ⟨hr.inRange.areas, hr.inRange.entries⟩
  memoryBacked := ⟨hr.memoryBacked.read, hr.memoryBacked.write, hr.memoryBacked.hasMem⟩
  defaults := hr.defaults

/-- Every default is loaded. -/
theorem Ready.needToLoadDefault {s : RegisterTable δ} (hr : Ready s) {an : Nat}
    (han : an < s.areas) : needToLoadDefault (s.area an) = true := by
  unfold Ufw.needToLoadDefault
  rw [hr.memoryBacked.write an han, hr.defaults an han]
  rfl

/-- Linking an entry leaves the others where they are. -/
theorem entryValue_linked {t : RegisterTable δ} {i j an : Nat} (hne : i ≠ j) :
    entryValue h (t.linked j an) i = entryValue h t i := by
  have hlink : (t.linked j an).link i = t.link i := Function.update_of_ne hne _ _
  unfold entryValue entryAtoms
  rw [hlink]
  rfl

/-- Loading the default value of an entry leaves the entries before it alone. -/
theorem Ready.load {t t' : RegisterTable δ} (hr : Ready t) {j : Nat} (hj : j < t.entries)
    (hl : Linked t j) {access : RegisterAccess}
    (hset : registerSet h t j (t.entry j).default = .ok (access, t'))
    (hs : access.code = .success) :
    ∃ mem, t' = t.linking t.link mem t.dev ∧ Loaded h t t' j ∧
      ∀ i, i < j → Linked t i → Linked t' i ∧ entryValue h t' i = entryValue h t i := by
  obtain ⟨an, hp⟩ := hl.place (hr.inRange.entries j hj)
  obtain ⟨rv, u, hrun, hiff, hdone, -⟩ := registerSet_eq (h := h) hr.initialised hr.areas
    hr.memoryBacked hj (hr.typed j hj) hp (t.entry j).default
  have he := hrun.symm.trans hset
  cases he
  obtain ⟨hval, hu⟩ := hiff.mp hs
  rw [hdone hs]
  have hlinked : ∀ i, Linked t i → ∀ n buf, Linked (t.writing n
      (rdsSize (t.entry j).type) buf) i := by
    intro i ⟨bn, hb, hlink⟩ n buf
    exact ⟨bn, ⟨hb.area_lt, hb.part, hb.fits⟩, hlink⟩
  refine ⟨_, rfl, ⟨hlinked j hl _ _, ?_, hu, hval⟩, fun i hi hli => ⟨hlinked i hli _ _, ?_⟩⟩
  · exact entryValue_writing_self hp rfl t.entryFlags
  · obtain ⟨bn, hpi⟩ := hli.place (hr.inRange.entries i (Nat.lt_trans hi hj))
    refine entryValue_writing_of_not_overlaps hpi t.entryFlags fun ⟨x, h1, h2, h3, h4⟩ => ?_
    exact Nat.ne_of_lt hi (hr.entries.unique (Nat.lt_trans hi hj) hj h3 h4 h1 h2)

/-- **A pass loads its entry** and leaves those before it alone. -/
theorem LinkPass.loaded {t t' : RegisterTable δ} (hr : Ready t) {j : Nat} (hj : j < t.entries)
    (hpass : LinkPass h j t t') :
    ∃ link mem, t' = t.linking link mem t.dev ∧ Loaded h t t' j ∧
      ∀ i, i < j → Linked t i → Linked t' i ∧ entryValue h t' i = entryValue h t i := by
  cases hpass with
  | skip hin hneed => exact Bool.noConfusion ((hr.needToLoadDefault hin.area_lt).symm.trans hneed)
  | @load an access _ hin hneed hset hs =>
    have hw : Ready (t.linked j an) := hr.linking _ t.mem t.dev
    have hl : Linked (t.linked j an) j :=
      ⟨an, ⟨hin.area_lt, hin.part, hin.fits⟩, Function.update_self _ _ _⟩
    obtain ⟨mem, he, hnew, hkeep⟩ := hw.load hj hl hset hs
    refine ⟨_, mem, he, ⟨hnew.linked, hnew.value, hnew.usable, hnew.accepted⟩, ?_⟩
    intro i hi ⟨bn, hb, hlink⟩
    have hli : Linked (t.linked j an) i :=
      ⟨bn, ⟨hb.area_lt, hb.part, hb.fits⟩,
        (Function.update_of_ne (Nat.ne_of_lt hi) _ _).trans hlink⟩
    obtain ⟨h1, h2⟩ := hkeep i hi hli
    exact ⟨h1, h2.trans (entryValue_linked (Nat.ne_of_lt hi))⟩

/-- **The loop over the entries loads all of them.** -/
theorem registerLinkFrom_loaded {s t : RegisterTable δ} (hr : Ready s) {rv : RegisterInit}
    (hl : registerLinkFrom h s.entries 0 s = .ok (rv, t)) (hs : rv.code = .success) :
    ∃ link mem, t = s.linking link mem s.dev ∧ ∀ i, i < s.entries → Loaded h s t i := by
  have hrun := registerLinkFrom_run
    (P := fun j u => ∃ link mem, u = s.linking link mem s.dev ∧ ∀ i, i < j → Loaded h s u i)
    hl hs ⟨s.link, s.mem, rfl, fun i hi => absurd hi (Nat.not_lt_zero i)⟩ ?_
  · rwa [Nat.zero_add] at hrun
  · intro j u u' _ hj hu hpass
    obtain ⟨link, mem, rfl, hloaded⟩ := hu
    rw [Nat.zero_add] at hj
    obtain ⟨link', mem', rfl, hnew, hkeep⟩ := hpass.loaded (hr.linking link mem s.dev) hj
    refine ⟨link', mem', rfl, fun i hi => ?_⟩
    rcases Nat.eq_or_lt_of_le (Nat.le_of_lt_succ hi) with rfl | hlt
    · exact ⟨hnew.linked, hnew.value, hnew.usable, hnew.accepted⟩
    · have hold := hloaded i hlt
      obtain ⟨hlinked, hvalue⟩ := hkeep i hlt hold.linked
      exact ⟨hlinked, hvalue.trans hold.value, hold.usable, hold.accepted⟩

/-- A default value that was accepted during `register_init` satisfies its validator. -/
theorem satisfies_default {s t : RegisterTable δ} {e : RegisterEntry}
    (hv : rvValidate s e e.default = true) : Satisfies t e e.default := by
  unfold Satisfies
  cases hc : e.check with
  | fail => rfl
  | _ =>
    unfold rvValidate at hv ⊢
    rw [hc] at hv
    simpa only [hc] using hv

/-- **`register_init` establishes the invariant.** -/
theorem Accepts.valid {t t' : RegisterTable δ} (ha : Accepts h t t') (hr : InRange t')
    (hm : MemoryBacked t')
    (hskip : ∀ i, i < t'.areas → bitIsset (t'.area i).flags regAfSkipDefaults = false) :
    ValidTable h t' := by
  have hlay := ha.layout
  obtain ⟨rv, u, hl, hs, he⟩ := ha.links
  obtain ⟨link, mem, dev, hu, -⟩ := registerLinkFrom_links hl hs
  rw [registerSpanFrom_eq] at he
  subst he
  subst hu
  have hready : Ready (startTable t) :=
    { initialised := bitIsset_bitSet _ _
      areas := hlay.areasAscending hr.areas
      entries := hlay.entriesAscending
      typed := hlay.typed
      inRange := ⟨hr.areas, hr.entries⟩
      memoryBacked := ⟨hm.read, hm.write, hm.hasMem⟩
      defaults := hskip }
  obtain ⟨-, -, -, hloaded⟩ := registerLinkFrom_loaded hready hl hs
  refine ⟨hlay, hr, hm, fun i hi => ?_⟩
  obtain ⟨an, hp⟩ := hlay.place hr hi
  have hload := hloaded i hi
  -- clearing `REG_TF_DURING_INIT` does not change the octet order
  have hbig : ∀ flags : BitVec 16, bitIsset (bitClear flags regTfDuringInit) regTfBigEndian
      = bitIsset flags regTfBigEndian := fun flags => bitIsset_bitClear_of_disjoint _ (by decide)
  have hvalue := (congrArg (fun b => atomsValue h b _ _) (hbig _)).trans hload.value
  refine (entryValid_iff (hlay.typed i hi) hp).mpr ⟨?_, ?_⟩
  · exact (congrArg RegisterValue.usable hvalue).trans hload.usable
  · exact (congrArg (Satisfies _ _) hvalue).mpr (satisfies_default hload.accepted)

/-! ## 5. Runs -/

/-- **Every entry holds a value its validator accepts**, after any calls to a table that
    `register_init` has accepted, as long as none of them is a block write that goes unchecked. -/
theorem registerCalls_entriesValid {t₀ t₁ t : RegisterTable δ} {rv : RegisterInit}
    (hinit : registerInit h t₀ = .ok (rv, t₁)) (hs : rv.code = .success)
    (hm : MemoryBacked t₁) (_ : ReadWrite t₁)
    (hskip : ∀ i, i < t₁.areas → bitIsset (t₁.area i).flags regAfSkipDefaults = false)
    (hr : InRange t₁) (hrun : RegisterCalls h Checked t₁ t) :
    ∀ i, i < t.entries → EntryValid h t i :=
  (hrun.valid ((registerInit_accepts hinit hs).valid hr hm hskip)).valid

/-- The table of two areas meets the assumptions. -/
theorem sampleTable_accepted :
    registerInit lp64Host sampleTable = .ok (⟨.success, 0⟩, initialTable lp64Host sampleTable) ∧
      MemoryBacked (initialTable lp64Host sampleTable) ∧
      ReadWrite (initialTable lp64Host sampleTable) ∧
      (∀ i, i < (initialTable lp64Host sampleTable).areas →
        bitIsset ((initialTable lp64Host sampleTable).area i).flags regAfSkipDefaults = false) ∧
      InRange (initialTable lp64Host sampleTable) :=
  ⟨rfl, sampleTable_memoryBacked, by unfold ReadWrite; decide, by decide, sampleTable_inRange⟩

theorem registerCalls_entriesValid_sample :
    ∃ rv t, registerSet lp64Host (initialTable lp64Host sampleTable) 1
        (RegisterValue.ofUnion .uint64 9) = .ok (rv, t) ∧
      ∀ i, i < t.entries → EntryValid lp64Host t i := by
  obtain ⟨hinit, hm, hrw, hskip, hr⟩ := sampleTable_accepted
  exact ⟨_, _, rfl, registerCalls_entriesValid hinit rfl hm hrw hskip hr
    (.call (.set 1 (RegisterValue.ofUnion .uint64 9)) .start trivial rfl)⟩

/-- The third atom of the register of four becomes 1, its value `2 ^ 32`: too large, but what was
    checked is the value it had before. -/
theorem registerCalls_unchecked :
    ¬∀ (t₀ t₁ t : RegisterTable Unit) (rv : RegisterInit),
      registerInit lp64Host t₀ = .ok (rv, t₁) → rv.code = .success → MemoryBacked t₁ →
      ReadWrite t₁ →
      (∀ i, i < t₁.areas → bitIsset (t₁.area i).flags regAfSkipDefaults = false) →
      InRange t₁ → RegisterCalls lp64Host (fun _ _ => True) t₁ t →
      ∀ i, i < t.entries → EntryValid lp64Host t i := by
  intro hall
  obtain ⟨hinit, hm, hrw, hskip, hr⟩ := sampleTable_accepted
  have hrun : RegisterCalls lp64Host (fun _ _ => True) (initialTable lp64Host sampleTable) _ :=
    .call (.blockWrite 4 1 (Mem.ofList 0 [1])) .start trivial rfl
  obtain ⟨v, hdes, hsat⟩ := hall _ _ _ _ hinit rfl hm hrw hskip hr hrun 1 (by decide)
  cases hdes
  exact absurd (show rvValidate _ _ _ = true from hsat) (by decide)

end Ufw
