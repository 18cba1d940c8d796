/-
  File:      Ufw/Registers/Layout.lean
  Subject:   REGISTER TABLE: what `register_init` establishes.

  * `LinkPass` -- all that one pass of the loop over the entries can do;
  * `Layout` -- **the order of areas and entries and the links between them** in an initialised
    table, in the 32-bit arithmetic of the source;
  * `InRange`, `MemoryBacked` -- the tables most results are about;
  * `Layout.areasAscending` … -- the same order in unbounded arithmetic, where nothing wraps.
-/
import Ufw.Registers.Init

namespace Ufw

open Base

variable {δ : Type} {h : Host}

/-! ## 1. What an access leaves alone -/

/-- Only the memory and the device of `t` have changed in `t'`. -/
def OnlyContents (t t' : RegisterTable δ) : Prop := t' = { t with mem := t'.mem, dev := t'.dev }

theorem OnlyContents.refl (t : RegisterTable δ) : OnlyContents t t := rfl

theorem areaWrite_contents {t t' : RegisterTable δ} {an : Nat} {src : Mem RegisterAtom}
    {offset n : RegisterOffset} {rv : RegisterAccess}
    (hw : areaWrite t an src offset n = .ok (rv, t')) : OnlyContents t t' := by
  unfold areaWrite at hw
  split at hw
  · cases hw
  · obtain ⟨u, -, hu⟩ := bind_eq_ok hw
    cases hu
    rfl
  · cases hw
    rfl

theorem registerSetx_contents {t t' : RegisterTable δ} {idx : Nat} {v : RegisterValue} {b : Bool}
    {rv : RegisterAccess} (hs : registerSetx h t idx v b = .ok (rv, t')) : OnlyContents t t' := by
  unfold registerSetx at hs
  simp only at hs
  split at hs
  · cases hs
    exact .refl t
  split at hs
  · cases hs
    exact .refl t
  split at hs
  · cases hs
    exact .refl t
  split at hs
  · cases hs
  split at hs
  · cases hs
    exact .refl t
  obtain ⟨r, -, hr⟩ := bind_eq_ok hs
  cases r with
  | none =>
    cases hr
    exact .refl t
  | some atoms => exact areaWrite_contents hr

/-! ## 2. Counting and order -/

theorem regCountEntries_typed {entry : Mem RegisterEntry} {i : Nat}
    (hi : i < regCountEntries entry) : (entry i).type ≠ .invalid := by
  have hb := firstFrom_before (p := fun n => isEndOfEntries (entry n)) (Nat.zero_le i) hi
  unfold isEndOfEntries at hb
  exact beq_eq_false_iff_ne.mp hb

theorem regCountEntries_end {entry : Mem RegisterEntry}
    (hn : regCountEntries entry ≠ registerHandleMax) :
    (entry (regCountEntries entry)).type = .invalid := by
  have hle := firstFrom_le (p := fun n => isEndOfEntries (entry n)) registerHandleMax 0
  rw [Nat.zero_add] at hle
  have hp := firstFrom_holds (p := fun n => isEndOfEntries (entry n)) (k := registerHandleMax)
    (i := 0) (by rw [Nat.zero_add]; exact lt_of_le_of_ne hle hn)
  exact eq_of_beq hp

theorem areasInOrder_success {t : RegisterTable δ} {k i : Nat}
    (ho : (areasInOrder t k (i + 1) (t.area i).base).code = .success) (j : Nat) (h1 : i ≤ j)
    (h2 : j < i + k) :
    (t.area j).base ≤ (t.area (j + 1)).base ∧
      (t.area j).base + (t.area j).size ≤ (t.area (j + 1)).base := by
  induction k generalizing i with
  | zero => omega
  | succ k ih =>
    unfold areasInOrder at ho
    simp only [Nat.add_sub_cancel] at ho
    split at ho
    · cases ho
    · rename_i hlt
      split at ho
      · cases ho
      · rename_i hov
        rcases Nat.eq_or_lt_of_le h1 with rfl | h1
        · exact ⟨BitVec.not_lt.mp hlt, BitVec.not_lt.mp hov⟩
        · exact ih ho h1 (by omega)

theorem entriesInOrder_success {t : RegisterTable δ} {k i : Nat}
    (ho : (entriesInOrder t k (i + 1) (t.entry i).address).code = .success) (j : Nat) (h1 : i ≤ j)
    (h2 : j < i + k) :
    (t.entry j).address.toNat + rdsSize (t.entry j).type ≤ (t.entry (j + 1)).address.toNat := by
  induction k generalizing i with
  | zero => omega
  | succ k ih =>
    unfold entriesInOrder at ho
    simp only [Nat.add_sub_cancel] at ho
    split at ho
    · cases ho
    · split at ho
      · cases ho
      · rename_i hov
        rcases Nat.eq_or_lt_of_le h1 with rfl | h1
        · exact Nat.le_of_not_lt hov
        · exact ih ho h1 (by omega)

/-! ## 3. Linking entries -/

/-- Entry `i` lies in the area `an`, as the code sees it. -/
structure InArea (t : RegisterTable δ) (i an : Nat) : Prop where
  area_lt : an < t.areas
  part : raAddrIsPartOf (t.area an) (t.entry i).address = true
  fits : raRegFitsInto (t.area an) (t.entry i) = true

/-- The table with entry `i` linked to the area `an`. -/
def RegisterTable.linked (t : RegisterTable δ) (i an : Nat) : RegisterTable δ :=
  { t with
    link := Function.update t.link i ⟨some an, (t.entry i).address - (t.area an).base⟩ }

/-- Entry `i` is linked to an area it lies in. -/
def Linked (t : RegisterTable δ) (i : Nat) : Prop :=
  ∃ an, InArea t i an ∧ t.link i = ⟨some an, (t.entry i).address - (t.area an).base⟩

/-- **All that a pass over entry `i` can do** to a table that `register_init` accepts. -/
inductive LinkPass (h : Host) (i : Nat) (t : RegisterTable δ) : RegisterTable δ → Prop where
  | skip {an : Nat} (hin : InArea t i an) (hneed : needToLoadDefault (t.area an) = false) :
      LinkPass h i t (t.linked i an)
  | load {an : Nat} {access : RegisterAccess} {t' : RegisterTable δ} (hin : InArea t i an)
      (hneed : needToLoadDefault (t.area an) = true)
      (hset : registerSet h (t.linked i an) i
        (RegisterValue.ofUnion (t.entry i).type (t.entry i).defaultValue) = .ok (access, t'))
      (hs : access.code = .success) : LinkPass h i t t'

theorem regEntryIsInMemory_some {t t' : RegisterTable δ} {i : Nat}
    (hm : regEntryIsInMemory t i = some t') :
    InArea t i (raFindAreaByAddr t (t.entry i).address) ∧
      t' = t.linked i (raFindAreaByAddr t (t.entry i).address) := by
  unfold regEntryIsInMemory at hm
  simp only at hm
  split at hm
  · cases hm
  rename_i hne
  split at hm
  · cases hm
  rename_i hfit
  have hle := firstFrom_le (p := fun n => raAddrIsPartOf (t.area n) (t.entry i).address) t.areas 0
  rw [Nat.zero_add] at hle
  have hlt : raFindAreaByAddr t (t.entry i).address < t.areas := lt_of_le_of_ne hle hne
  refine ⟨⟨hlt, ?_, Bool.eq_true_of_not_eq_false hfit⟩, (Option.some.inj hm).symm⟩
  exact firstFrom_holds (p := fun n => raAddrIsPartOf (t.area n) (t.entry i).address)
    (by rw [Nat.zero_add]; exact hlt)

theorem registerLinkFrom_succ {t t' : RegisterTable δ} {k i : Nat} {rv : RegisterInit}
    (hl : registerLinkFrom h (k + 1) i t = .ok (rv, t')) (hs : rv.code = .success) :
    ∃ t₁, LinkPass h i t t₁ ∧ registerLinkFrom h k (i + 1) t₁ = .ok (rv, t') := by
  unfold registerLinkFrom at hl
  split at hl
  · cases hl
    cases hs
  rename_i t₀ hm
  obtain ⟨hin, rfl⟩ := regEntryIsInMemory_some hm
  simp only [RegisterTable.linked, Function.update_self, Function.update_idem] at hl
  split at hl
  · rename_i hneed
    obtain ⟨⟨access, t₁⟩, hset, hrest⟩ := bind_eq_ok hl
    simp only at hrest
    split at hrest
    · cases hrest
      cases hs
    · rename_i hc
      exact ⟨t₁, .load hin hneed hset (not_not.mp hc), hrest⟩
  · rename_i hneed
    exact ⟨_, .skip hin (Bool.eq_false_of_not_eq_true hneed), hl⟩

/-- **What every pass keeps, the loop keeps.** -/
theorem registerLinkFrom_run {P : Nat → RegisterTable δ → Prop} {t t' : RegisterTable δ}
    {k i : Nat} {rv : RegisterInit} (hl : registerLinkFrom h k i t = .ok (rv, t'))
    (hs : rv.code = .success) (h0 : P i t)
    (hstep : ∀ j u u', i ≤ j → j < i + k → P j u → LinkPass h j u u' → P (j + 1) u') :
    P (i + k) t' := by
  induction k generalizing i t with
  | zero =>
    unfold registerLinkFrom at hl
    cases hl
    exact h0
  | succ k ih =>
    obtain ⟨t₁, hp, hrest⟩ := registerLinkFrom_succ hl hs
    have hk : i + (k + 1) = i + 1 + k := by omega
    rw [hk]
    exact ih hrest (hstep i t t₁ (Nat.le_refl i) (by omega) h0 hp)
      fun j u u' h1 h2 => hstep j u u' (by omega) (by omega)

/-! ## 4. `register_init` accepts a table -/

/-- The table before its entries are linked: counted, its memory cleared. -/
def startTable (t : RegisterTable δ) : RegisterTable δ :=
  { t with
    flags := bitSet (bitSet (bitClear t.flags regTfInitialised) regTfDuringInit) regTfInitialised
    areas := regCountAreas t.area
    entries := regCountEntries t.entry
    mem := fun i =>
      if i < regCountAreas t.area ∧ (t.area i).hasMem = true then
        (t.mem i).fill 0 0 (t.area i).size.toNat
      else t.mem i }

/-- **What `register_init` went through** to accept the table `t`, as `t'`. -/
structure Accepts (h : Host) (t t' : RegisterTable δ) : Prop where
  entries_lt : regCountEntries t.entry ≠ registerHandleMax
  areasInOrder : (areasInOrder (startTable t) (regCountAreas t.area - 1) 1 (t.area 0).base).code
    = .success
  entriesInOrder :
    (entriesInOrder (startTable t) (regCountEntries t.entry - 1) 1 (t.entry 0).address).code
      = .success
  links : ∃ rv u, registerLinkFrom h (regCountEntries t.entry) 0 (startTable t) = .ok (rv, u) ∧
    rv.code = .success ∧ t' = endInit (registerSpanFrom u.areas 0 0 u)

theorem areasInOrder_congr {t u : RegisterTable δ} (ha : u.area = t.area) (k i : Nat)
    (previous : RegisterAddress) :
    areasInOrder u k i previous = areasInOrder t k i previous := by
  induction k generalizing i previous with
  | zero => rfl
  | succ k ih =>
    unfold areasInOrder
    simp only [ha, ih]

theorem entriesInOrder_congr {t u : RegisterTable δ} (he : u.entry = t.entry) (k i : Nat)
    (previous : RegisterAddress) :
    entriesInOrder u k i previous = entriesInOrder t k i previous := by
  induction k generalizing i previous with
  | zero => rfl
  | succ k ih =>
    unfold entriesInOrder
    simp only [he, ih]

theorem registerInit_accepts {t t' : RegisterTable δ} {rv : RegisterInit}
    (hi : registerInit h t = .ok (rv, t')) (hs : rv.code = .success) : Accepts h t t' := by
  unfold registerInit at hi
  simp only at hi
  split at hi
  · cases hi
    cases hs
  split at hi
  · cases hi
    cases hs
  split at hi
  · cases hi
    cases hs
  split at hi
  · cases hi
    cases hs
  rename_i hentries
  split at hi
  · cases hi
    cases hs
  split at hi
  · rename_i hne
    cases hi
    exact absurd hs hne
  rename_i hareas
  split at hi
  · rename_i hne
    cases hi
    exact absurd hs hne
  rename_i horder
  unfold registerInitMemory at hi
  obtain ⟨⟨rv', u⟩, hl, hrest⟩ := bind_eq_ok hi
  simp only at hrest
  split at hrest
  · rename_i hne
    cases hrest
    exact absurd hs hne
  · rename_i hc
    cases hrest
    refine ⟨hentries, ?_, ?_, rv, u, hl, not_not.mp hc, rfl⟩
    · rw [← not_not.mp hareas]
      exact congrArg RegisterInit.code (areasInOrder_congr (by rfl) _ _ _)
    · rw [← not_not.mp horder]
      exact congrArg RegisterInit.code (entriesInOrder_congr (by rfl) _ _ _)

theorem registerSpanFrom_eq (k i entry : Nat) (t : RegisterTable δ) :
    registerSpanFrom k i entry t
      = { t with span := (registerSpanFrom k i entry t).span } := by
  induction k generalizing i entry t with
  | zero => rfl
  | succ k ih =>
    unfold registerSpanFrom
    split
    · exact ih _ _ _
    · exact ih _ _ _

/-- A pass links its entry and changes contents besides. -/
theorem LinkPass.contents {t t' : RegisterTable δ} {i : Nat} (hp : LinkPass h i t t') :
    ∃ an, InArea t i an ∧ OnlyContents (t.linked i an) t' := by
  cases hp with
  | skip hin hneed => exact ⟨_, hin, .refl _⟩
  | load hin hneed hset hs => exact ⟨_, hin, registerSetx_contents hset⟩

/-- The links the passes have made. -/
theorem registerLinkFrom_links {t t' : RegisterTable δ} {k : Nat} {rv : RegisterInit}
    (hl : registerLinkFrom h k 0 t = .ok (rv, t')) (hs : rv.code = .success) :
    ∃ link mem dev, t' = { t with link := link, mem := mem, dev := dev } ∧
      ∀ i, i < k → ∃ an, InArea t i an ∧
        link i = ⟨some an, (t.entry i).address - (t.area an).base⟩ := by
  have hr := registerLinkFrom_run
    (P := fun j u => ∃ link mem dev, u = { t with link := link, mem := mem, dev := dev } ∧
      ∀ i, i < j → ∃ an, InArea t i an ∧
        link i = ⟨some an, (t.entry i).address - (t.area an).base⟩)
    hl hs ⟨t.link, t.mem, t.dev, rfl, fun i hi => absurd hi (Nat.not_lt_zero i)⟩ ?_
  · rwa [Nat.zero_add] at hr
  · intro j u u' _ _ hu hp
    obtain ⟨link, mem, dev, rfl, hlinks⟩ := hu
    obtain ⟨an, hin, hc⟩ := hp.contents
    have hin' : InArea t j an := ⟨hin.area_lt, hin.part, hin.fits⟩
    refine ⟨Function.update link j ⟨some an, (t.entry j).address - (t.area an).base⟩, u'.mem,
      u'.dev, hc, fun i hi => ?_⟩
    rcases Nat.eq_or_lt_of_le (Nat.le_of_lt_succ hi) with rfl | hlt
    · exact ⟨an, hin', Function.update_self _ _ _⟩
    · obtain ⟨bn, hb, he⟩ := hlinks i hlt
      exact ⟨bn, hb, (Function.update_of_ne (Nat.ne_of_lt hlt) _ _).trans he⟩

/-! ## 5. The layout of a table -/

/-- **What `register_init` establishes**, in the arithmetic of the source. -/
structure Layout (t : RegisterTable δ) : Prop where
  initialised : bitIsset t.flags regTfInitialised = true
  settled : bitIsset t.flags regTfDuringInit = false
  areas : ∀ i, i + 1 < t.areas → (t.area i).base ≤ (t.area (i + 1)).base ∧
    (t.area i).base + (t.area i).size ≤ (t.area (i + 1)).base
  entries : ∀ i, i + 1 < t.entries →
    (t.entry i).address.toNat + rdsSize (t.entry i).type ≤ (t.entry (i + 1)).address.toNat
  typed : ∀ i, i < t.entries → (t.entry i).type ≠ .invalid
  terminated : (t.entry t.entries).type = .invalid
  linked : ∀ i, i < t.entries → Linked t i

theorem Accepts.layout {t t' : RegisterTable δ} (ha : Accepts h t t') : Layout t' := by
  obtain ⟨rv, u, hl, hs, rfl⟩ := ha.links
  obtain ⟨link, mem, dev, rfl, hlinks⟩ := registerLinkFrom_links hl hs
  rw [registerSpanFrom_eq]
  have hinit : bitIsset (startTable t).flags regTfInitialised = true := bitIsset_bitSet _ _
  exact
    { initialised := (bitIsset_bitClear_of_disjoint _ (by decide)).trans hinit
      settled := bitIsset_bitClear _ (by decide)
      areas := fun i hi =>
        areasInOrder_success (t := startTable t) (i := 0) ha.areasInOrder i (Nat.zero_le i) (by
          have hi' : i + 1 < regCountAreas t.area := hi
          omega)
      entries := fun i hi =>
        entriesInOrder_success (t := startTable t) (i := 0) ha.entriesInOrder i (Nat.zero_le i) (by
          have hi' : i + 1 < regCountEntries t.entry := hi
          omega)
      typed := fun i hi => regCountEntries_typed hi
      terminated := regCountEntries_end ha.entries_lt
      linked := fun i hi => by
        obtain ⟨an, hin, he⟩ := hlinks i hi
        exact ⟨an, ⟨hin.area_lt, hin.part, hin.fits⟩, he⟩ }

/-- A layout does not depend on what the table holds. -/
theorem Layout.congr {t : RegisterTable δ} (hl : Layout t) (mem : Mem (Mem RegisterAtom))
    (dev : δ) (entryFlags : Mem (BitVec 16)) :
    Layout { t with mem := mem, dev := dev, entryFlags := entryFlags } where
  initialised := hl.initialised
  settled := hl.settled
  areas := hl.areas
  entries := hl.entries
  typed := hl.typed
  terminated := hl.terminated
  linked := fun i hi => by
    obtain ⟨an, hin, he⟩ := hl.linked i hi
    exact ⟨an, ⟨hin.area_lt, hin.part, hin.fits⟩, he⟩

theorem Layout.bigendian {t : RegisterTable δ} (hl : Layout t) (bigendian : Bool) :
    Layout (registerMakeBigendian t bigendian) := by
  have hlinked : ∀ flags, ∀ i, i < t.entries → Linked { t with flags := flags } i := by
    intro flags i hi
    obtain ⟨an, hin, he⟩ := hl.linked i hi
    exact ⟨an, ⟨hin.area_lt, hin.part, hin.fits⟩, he⟩
  unfold registerMakeBigendian
  split
  · exact
      { initialised := (bitIsset_bitSet_of_disjoint _ (by decide)).trans hl.initialised
        settled := (bitIsset_bitSet_of_disjoint _ (by decide)).trans hl.settled
        areas := hl.areas
        entries := hl.entries
        typed := hl.typed
        terminated := hl.terminated
        linked := hlinked _ }
  · exact
      { initialised := (bitIsset_bitClear_of_disjoint _ (by decide)).trans hl.initialised
        settled := (bitIsset_bitClear_of_disjoint _ (by decide)).trans hl.settled
        areas := hl.areas
        entries := hl.entries
        typed := hl.typed
        terminated := hl.terminated
        linked := hlinked _ }

/-- **An initialised table has a layout.** -/
theorem Initialised.layout {t : RegisterTable δ} (hi : Initialised h t) : Layout t := by
  obtain ⟨t₀, rv, t₁, bigendian, hinit, hs, he⟩ := hi
  have hl := ((registerInit_accepts hinit hs).layout.bigendian bigendian).congr t.mem t.dev
    t.entryFlags
  rwa [← he] at hl

/-! ## 6. Where nothing wraps -/

/-- Every area ends below `2 ^ 32`. -/
def AreasInRange (t : RegisterTable δ) : Prop :=
  ∀ i, i < t.areas → (t.area i).base.toNat + (t.area i).size.toNat < 2 ^ 32

/-- Every area and every entry ends below `2 ^ 32`. -/
structure InRange (t : RegisterTable δ) : Prop where
  areas : ∀ i, i < t.areas → (t.area i).base.toNat + (t.area i).size.toNat < 2 ^ 32
  entries : ∀ i, i < t.entries →
    (t.entry i).address.toNat + rdsSize (t.entry i).type < 2 ^ 32

/-- Every area is memory-backed: its methods are `reg_mem_read` and `reg_mem_write`. -/
structure MemoryBacked (t : RegisterTable δ) : Prop where
  read : ∀ i, i < t.areas → (t.area i).read = some .regMemRead
  write : ∀ i, i < t.areas → (t.area i).write = some .regMemWrite
  hasMem : ∀ i, i < t.areas → (t.area i).hasMem = true

/-- Part of an area, without the assumption that the area ends in range. -/
theorem raAddrIsPartOf_bounds {a : RegisterArea δ} {addr : RegisterAddress}
    (hp : raAddrIsPartOf a addr = true) :
    a.base.toNat ≤ addr.toNat ∧ addr.toNat < (a.base + a.size).toNat := by
  unfold raAddrIsPartOf at hp
  split at hp
  · cases hp
  rename_i h1
  split at hp
  · cases hp
  rename_i h2
  exact ⟨Nat.le_of_not_lt h1, Nat.lt_of_not_le h2⟩

/-- An area that holds an address ends in range. -/
theorem raAddrIsPartOf_ends {a : RegisterArea δ} {addr : RegisterAddress}
    (hp : raAddrIsPartOf a addr = true) : a.base.toNat + a.size.toNat < 2 ^ 32 := by
  obtain ⟨h1, h2⟩ := raAddrIsPartOf_bounds hp
  have hs := a.size.isLt
  have hb := a.base.isLt
  rw [BitVec.toNat_add] at h2
  omega

theorem raAddrIsPartOf_iff {a : RegisterArea δ} (ha : a.base.toNat + a.size.toNat < 2 ^ 32)
    (addr : RegisterAddress) :
    raAddrIsPartOf a addr = true ↔
      a.base.toNat ≤ addr.toNat ∧ addr.toNat < a.base.toNat + a.size.toNat := by
  have hs : (a.base + a.size).toNat = a.base.toNat + a.size.toNat := by
    rw [BitVec.toNat_add, Nat.mod_eq_of_lt ha]
  unfold raAddrIsPartOf
  simp only [gt_iff_lt, BitVec.lt_def, BitVec.le_def, hs]
  split
  · simp only [Bool.false_eq_true, false_iff]
    omega
  · split
    · simp only [Bool.false_eq_true, false_iff]
      omega
    · simp only [true_iff]
      omega

/-- **The areas follow each other.** -/
def AreasAscending (t : RegisterTable δ) : Prop :=
  Ascending (fun i => (t.area i).base.toNat)
    (fun i => (t.area i).base.toNat + (t.area i).size.toNat) t.areas

namespace Layout

variable {t : RegisterTable δ} (hl : Layout t) (hr : AreasInRange t)

include hl hr

theorem areasAscending : AreasAscending t where
  le := fun _ _ => Nat.le_add_right _ _
  next := fun i hi => by
    have h1 := BitVec.le_def.mp (hl.areas i hi).2
    rwa [BitVec.toNat_add, Nat.mod_eq_of_lt (hr i (by omega))] at h1

omit hr in
theorem areas_sorted {i j : Nat} (hij : i < j) (hj : j < t.areas) :
    (t.area i).base.toNat ≤ (t.area j).base.toNat := by
  have hasc : Ascending (fun i => (t.area i).base.toNat) (fun i => (t.area i).base.toNat) t.areas :=
    ⟨fun _ _ => Nat.le_refl _, fun i hi => (hl.areas i hi).1⟩
  exact hasc.stop_le hij hj

omit hr in
/-- **The entries follow each other.** -/
theorem entriesAscending :
    Ascending (fun i => (t.entry i).address.toNat)
      (fun i => (t.entry i).address.toNat + rdsSize (t.entry i).type) t.entries where
  le := fun _ _ => Nat.le_add_right _ _
  next := hl.entries

/-- The search for an area finds the one an address lies in. -/
theorem raFindAreaByAddr_eq {an : Nat} (han : an < t.areas) {addr : RegisterAddress}
    (h1 : (t.area an).base.toNat ≤ addr.toNat)
    (h2 : addr.toNat < (t.area an).base.toNat + (t.area an).size.toNat) :
    raFindAreaByAddr t addr = an := by
  have hasc := hl.areasAscending hr
  unfold raFindAreaByAddr
  refine firstFrom_eq (Nat.zero_le an) (by omega)
    ((raAddrIsPartOf_iff (hr an han) addr).mpr ⟨h1, h2⟩) fun j _ hj => ?_
  refine Bool.eq_false_of_not_eq_true fun hp => ?_
  obtain ⟨h3, h4⟩ := (raAddrIsPartOf_iff (hr j (by omega)) addr).mp hp
  have he := hasc.unique (by omega) han h3 h4 h1 h2
  omega

end Layout

/-- Where entry `i` is: in the area `an`, at its offset there. -/
structure Place (t : RegisterTable δ) (i an : Nat) : Prop where
  area_lt : an < t.areas
  area_eq : (t.link i).area = some an
  offset_eq : (t.area an).base.toNat + (t.link i).offset.toNat = (t.entry i).address.toNat
  stop_le : (t.entry i).address.toNat + rdsSize (t.entry i).type
    ≤ (t.area an).base.toNat + (t.area an).size.toNat

/-- An entry lies in an area, with all of its atoms. -/
theorem InArea.place {t : RegisterTable δ} {i an : Nat} (hin : InArea t i an)
    (he : (t.entry i).address.toNat + rdsSize (t.entry i).type < 2 ^ 32)
    (hlink : t.link i = ⟨some an, (t.entry i).address - (t.area an).base⟩) : Place t i an := by
  have ha := raAddrIsPartOf_ends hin.part
  obtain ⟨h1, h2⟩ := (raAddrIsPartOf_iff ha _).mp hin.part
  have hfit := hin.fits
  unfold raRegFitsInto at hfit
  rw [decide_eq_true_eq, BitVec.le_def, BitVec.toNat_add, BitVec.toNat_add,
    toNat_registerEntrySize, Nat.mod_eq_of_lt he, Nat.mod_eq_of_lt ha] at hfit
  refine ⟨hin.area_lt, by rw [hlink], ?_, hfit⟩
  rw [hlink]
  show (t.area an).base.toNat + ((t.entry i).address - (t.area an).base).toNat = _
  rw [BitVec.toNat_sub_of_le (BitVec.le_def.mpr h1)]
  omega

theorem Linked.place {t : RegisterTable δ} {i : Nat} (hl : Linked t i)
    (he : (t.entry i).address.toNat + rdsSize (t.entry i).type < 2 ^ 32) : ∃ an, Place t i an := by
  obtain ⟨an, hin, hlink⟩ := hl
  exact ⟨an, hin.place he hlink⟩

theorem Layout.place {t : RegisterTable δ} (hl : Layout t) (hr : InRange t) {i : Nat}
    (hi : i < t.entries) : ∃ an, Place t i an := (hl.linked i hi).place (hr.entries i hi)

/-- Two areas side by side; a register at the end of the first one, and one of four atoms that
    fills the second one. -/
def sampleTable : RegisterTable Unit :=
  tableOf [memoryArea 0 2, memoryArea 2 4] [⟨.uint16, 7, 1, .trivial⟩, ⟨.uint64, 0, 2, .max 10⟩]

theorem sampleTable_inRange : InRange (initialTable lp64Host sampleTable) :=
  ⟨by decide, by decide⟩

theorem sampleTable_memoryBacked : MemoryBacked (initialTable lp64Host sampleTable) := by
  have hall : ∀ i, i < 2 → (initialTable lp64Host sampleTable).area i = memoryArea 0 2 ∨
      (initialTable lp64Host sampleTable).area i = memoryArea 2 4 := by
    intro i hi
    interval_cases i
    · exact .inl rfl
    · exact .inr rfl
  refine ⟨fun i hi => ?_, fun i hi => ?_, fun i hi => ?_⟩ <;>
    rcases hall i hi with he | he <;> rw [he] <;> rfl

end Ufw
