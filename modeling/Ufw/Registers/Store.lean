/-
  File:      Ufw/Registers/Store.lean
  Subject:   REGISTER TABLE: a table is a flat memory with registers in it.

  * `RegisterTable.fields` -- what a table declares: the addresses of its areas, and its registers,
    with what their validators accept;
  * `StoreCall` -- reading and writing single registers and blocks; `RegisterTable.call` is what the
    functions of the source do, `storeCall` is **what they are for**, on a flat memory;
  * `Storable` -- a table whose areas are memory that can be read and written;
  * `registerCalls_store` -- **in any run of calls the table answers what the flat memory answers.**

  Two calls are left out: the block write that is not checked, and setting the slot behind the last
  register.
-/
import Ufw.Base.Calls
import Ufw.Base.FlatMemory
import Ufw.Registers.BlockRead
import Ufw.Registers.Methods
import Ufw.Registers.Rejections
import Ufw.Registers.TypedRaw

namespace Ufw

open Base

variable {δ : Type} {h : Host}

/-! ## 1. What a table declares -/

/-- Entry `i` as a field: the atoms at its address, read as its type. -/
def RegisterTable.field (h : Host) (t : RegisterTable δ) (i : Nat) :
    Field RegisterAtom RegisterValue where
  address := (t.entry i).address.toNat
  size := rdsSize (t.entry i).type
  decode := atomsValue h (bitIsset t.flags regTfBigEndian) (t.entry i).type

/-- **What a table declares**: addresses, and registers with the values they may hold. -/
def RegisterTable.fields (h : Host) (t : RegisterTable δ) :
    FieldMap RegisterAtom RegisterValue where
  mapped := Belongs t
  count := t.entries
  field := t.field h
  admits i v := v.usable = true ∧ rvValidate t (t.entry i) v = true

/-- **A table of memory that can be read and written**, with its layout. -/
structure Storable (t : RegisterTable δ) : Prop where
  layout : Layout t
  inRange : InRange t
  memoryBacked : MemoryBacked t
  readWrite : ReadWrite t

namespace SameTable

variable {t u : RegisterTable δ}

theorem fields (hs : SameTable t u) : u.fields h = t.fields h := by
  rw [hs]
  rfl

theorem storable (hs : SameTable t u) (ht : Storable t) : Storable u := by
  rw [hs]
  exact ⟨ht.layout.congr _ _ _, ⟨ht.inRange.areas, ht.inRange.entries⟩,
    ⟨ht.memoryBacked.read, ht.memoryBacked.write, ht.memoryBacked.hasMem⟩, ht.readWrite⟩

end SameTable

/-! ## 2. Calls -/

/-- The calls that read and write registers and blocks. -/
inductive StoreCall where
  | get (idx : Nat)
  | set (idx : Nat) (v : RegisterValue)
  | bitSet (idx : Nat) (v : RegisterValue)
  | bitClear (idx : Nat) (v : RegisterValue)
  | blockRead (addr : RegisterAddress) (n : RegisterOffset) (buf : Mem RegisterAtom)
  | blockWrite (addr : RegisterAddress) (n : RegisterOffset) (buf : Mem RegisterAtom)

/-- What a call returns: a result, and what it stores for its caller. -/
inductive StoreReply where
  | access (rv : RegisterAccess)
  | value (rv : RegisterAccess) (v : RegisterValue)
  | block (rv : RegisterAccess) (buf : Mem RegisterAtom)

/-- What the functions of the source do. -/
def StoreCall.exec (h : Host) (t : RegisterTable δ) :
    StoreCall → Exec (StoreReply × RegisterTable δ)
  | .get idx => do
    let (rv, v, t) ← registerGet h t idx
    return (.value rv v, t)
  | .set idx v => do
    let (rv, t) ← registerSet h t idx v
    return (.access rv, t)
  | .bitSet idx v => do
    let (rv, t) ← registerBitSet h t idx v
    return (.access rv, t)
  | .bitClear idx v => do
    let (rv, t) ← registerBitClear h t idx v
    return (.access rv, t)
  | .blockRead addr n buf => do
    let (rv, buf, t) ← registerBlockRead t addr n buf
    return (.block rv buf, t)
  | .blockWrite addr n buf => do
    let (rv, t) ← registerBlockWrite h t addr n buf
    return (.access rv, t)

/-- A call in a run: one that does not return leaves the table as it is. -/
def RegisterTable.call (h : Host) (t : RegisterTable δ) (c : StoreCall) :
    Exec StoreReply × RegisterTable δ :=
  match c.exec h t with
  | .ok (r, t') => (.ok r, t')
  | .error e => (.error e, t)

/-! ## 3. What the calls are for

The table `t` gives its declaration only: the words are those of the flat memory `m`. -/

section Meaning

variable (h : Host) (t : RegisterTable δ) (m : Mem RegisterAtom)

/-- Reading a register. -/
def storeGet (idx : Nat) : RegisterAccess × RegisterValue :=
  if t.entries ≤ idx then (⟨.noentry, BitVec.ofNat 32 idx⟩, .ofUnion .invalid 0)
  else
    let v := (t.field h idx).value m
    (if v.usable then regAccessResultInit else ⟨.invalid, BitVec.ofNat 32 idx⟩, v)

/-- Writing a register: a value that its validator and its serialiser accept. -/
def storeSet (idx : Nat) (v : RegisterValue) : RegisterAccess × Mem RegisterAtom :=
  if t.entries ≤ idx then (⟨.noentry, BitVec.ofNat 32 idx⟩, m)
  else if rvValidate t (t.entry idx) v = false then (⟨.range, (t.entry idx).address⟩, m)
  else if v.usable = false then (⟨.invalid, (t.entry idx).address⟩, m)
  else (regAccessResultInit, m.store (t.entry idx).address.toNat
    (valueAtoms h (bitIsset t.flags regTfBigEndian) v))

/-- Changing the bits of an unsigned register. -/
def storeBits (op : BitVec 64 → BitVec 64 → BitVec 64) (idx : Nat) (v : RegisterValue) :
    RegisterAccess × Mem RegisterAtom :=
  let (rv, reg) := storeGet h t m idx
  if rv.code ≠ .success then (rv, m)
  else if reg.type ≠ v.type then (⟨.invalid, BitVec.ofNat 32 idx⟩, m)
  else
    match reg.type with
    | .uint16 | .uint32 | .uint64 =>
      storeSet h t m idx (.ofUnion reg.type (op reg.value v.value))
    | _ => (⟨.invalid, BitVec.ofNat 32 idx⟩, m)

/-- Reading a block; a hole in it is reported. -/
noncomputable def storeRead (addr : RegisterAddress) (n : RegisterOffset) (buf : Mem RegisterAtom) :
    RegisterAccess × Mem RegisterAtom :=
  match (t.fields h).read m addr.toNat n.toNat with
  | .error x => (⟨.noentry, BitVec.ofNat 32 x⟩, buf)
  | .ok l => (regAccessResultInit, buf.store 0 l)

/-- The report about a block that is refused: a hole in it, or the first register that would hold a
    value that is not accepted. -/
def refusalAccess (addr : RegisterAddress) (l : List RegisterAtom) : Refusal → RegisterAccess
  | .hole x => ⟨.noentry, BitVec.ofNat 32 x⟩
  | .field i =>
    ⟨valueVerdict t (t.entry i) ((t.field h i).value (m.store addr.toNat l)),
      BitVec.ofNat 32 (max addr.toNat (t.entry i).address.toNat)⟩

/-- Writing a block. -/
noncomputable def storeWrite (addr : RegisterAddress) (l : List RegisterAtom) :
    RegisterAccess × Mem RegisterAtom :=
  let (r, m') := (t.fields h).write m addr.toNat l
  (r.elim regAccessResultInit (refusalAccess h t m addr l), m')

/-- **What the calls are for.** -/
noncomputable def storeCall : StoreCall → StoreReply × Mem RegisterAtom
  | .get idx => (.value (storeGet h t m idx).1 (storeGet h t m idx).2, m)
  | .set idx v => (.access (storeSet h t m idx v).1, (storeSet h t m idx v).2)
  | .bitSet idx v => (.access (storeBits h t m bitSet idx v).1, (storeBits h t m bitSet idx v).2)
  | .bitClear idx v =>
    (.access (storeBits h t m bitClear idx v).1, (storeBits h t m bitClear idx v).2)
  | .blockRead addr n buf =>
    (.block (storeRead h t m addr n buf).1 (storeRead h t m addr n buf).2, m)
  | .blockWrite addr n buf =>
    (.access (storeWrite h t m addr (buf.slice 0 n.toNat)).1,
      (storeWrite h t m addr (buf.slice 0 n.toNat)).2)

end Meaning

/-- The calls this is about: no block write that goes unchecked, and not the slot behind the last
    register. -/
def StoreCall.Regular (t : RegisterTable δ) : StoreCall → Prop
  | .set idx _ => idx ≠ t.entries
  | .blockWrite addr n _ => ∀ i, i < t.entries → ¬Unchecked (t.entry i) addr.toNat n.toNat
  | _ => True

/-! ## 4. The memory of a table -/

namespace Storable

variable {t : RegisterTable δ} (ht : Storable t)

include ht

theorem areasAscending : AreasAscending t := ht.layout.areasAscending ht.inRange.areas

theorem readable {an : Nat} (han : an < t.areas) : registerAreaIsReadable (t.area an) = true := by
  unfold registerAreaIsReadable
  rw [ht.memoryBacked.read an han, (ht.readWrite an han).1]
  rfl

theorem image_apply {an x : Nat} (han : an < t.areas) (hx : AreaHolds t an x) :
    t.image x = t.mem an (x - (t.area an).base.toNat) := by
  rw [image_eq ht.areasAscending han hx, if_pos (ht.readable han)]

/-- **The value of an entry is that of its field.** -/
theorem value_field {i : Nat} (hi : i < t.entries) :
    (t.field h i).value t.image = entryValue h t i := by
  obtain ⟨an, hp⟩ := ht.layout.place ht.inRange hi
  unfold Field.value entryValue
  rw [entryAtoms_eq hp]
  refine congrArg (atomsValue h _ _) (List.map_congr_left fun k hk => ?_)
  obtain ⟨h1, h2⟩ := hp.cell (List.mem_range.mp hk)
  show t.image ((t.entry i).address.toNat + k) = _
  rw [← h2, ht.image_apply hp.area_lt ⟨Nat.le_add_right _ _, by omega⟩, Nat.add_sub_cancel_left]

theorem writing (lo n : Nat) (buf : Mem RegisterAtom) (flags : Mem (BitVec 16)) :
    SameTable t { t.writing lo n buf with entryFlags := flags } ∧
      Storable { t.writing lo n buf with entryFlags := flags } :=
  ⟨rfl, SameTable.storable (t := t) rfl ht⟩

/-- **A write to a table stores the block in its memory.** -/
theorem image_writing {lo n : Nat} (hall : AllMapped t lo n) (buf : Mem RegisterAtom)
    (flags : Mem (BitVec 16)) :
    RegisterTable.image { t.writing lo n buf with entryFlags := flags }
      = t.image.store lo (buf.slice 0 n) := by
  funext x
  by_cases hin : lo ≤ x ∧ x < lo + n
  · obtain ⟨an, han, hx⟩ := hall x hin.1 hin.2
    obtain ⟨j, rfl⟩ := Nat.exists_eq_add_of_le hin.1
    obtain ⟨hx1, hx2⟩ := hx
    have hlen : j < (buf.slice 0 n).length := by
      rw [Mem.length_slice]
      omega
    have hcell : (t.area an).base.toNat + (lo + j - (t.area an).base.toNat) = lo + j := by omega
    rw [(ht.writing lo n buf flags).2.image_apply han ⟨hx1, hx2⟩, Mem.store_inside _ _ _ _ hlen]
    show (t.writing lo n buf).mem an (lo + j - (t.area an).base.toNat) = _
    rw [writing_inside han (by omega) (by omega) (by omega), hcell, Nat.add_sub_cancel_left]
    simp [Mem.slice]
  · rw [Mem.store_outside _ (by rwa [Mem.length_slice])]
    -- the cell found for an address outside the block is none of the block's
    have hcell : ∀ an, an = firstFrom (fun an => decide (AreaHolds t an x)) t.areas 0 →
        (t.writing lo n buf).mem an (x - (t.area an).base.toNat)
          = t.mem an (x - (t.area an).base.toNat) := by
      intro an hfind
      refine writing_outside ?_
      rintro ⟨han, -, h1, h2⟩
      refine hin ?_
      have hholds := firstFrom_holds (p := fun an => decide (AreaHolds t an x)) (k := t.areas)
        (i := 0) (by rw [← hfind]; omega)
      rw [← hfind] at hholds
      obtain ⟨hx, -⟩ := of_decide_eq_true hholds
      exact ⟨by omega, by omega⟩
    unfold RegisterTable.image
    exact congrArg (ite _ · 0) (hcell _ rfl)

end Storable

/-! ## 5. One call -/

/-- The atoms of an entry lie in its area. -/
theorem Place.allMapped {t : RegisterTable δ} {i an : Nat} (hp : Place t i an) :
    AllMapped t (t.entry i).address.toNat (rdsSize (t.entry i).type) := by
  have h1 := hp.offset_eq
  have h2 := hp.stop_le
  exact fun x hx1 hx2 => ⟨an, hp.area_lt, by omega, by omega⟩

/-- A call answers `r`, and leaves the table `t` with the memory `m`. -/
def Answers (t : RegisterTable δ) {ρ : Type} (run : Exec (ρ × RegisterTable δ)) (r : ρ)
    (m : Mem RegisterAtom) : Prop :=
  ∃ t', run = .ok (r, t') ∧ SameTable t t' ∧ t'.image = m

theorem Answers.unchanged {t : RegisterTable δ} {ρ : Type} {run : Exec (ρ × RegisterTable δ)}
    {r : ρ} (h : run = .ok (r, t)) : Answers t run r t.image := ⟨t, h, .refl t, rfl⟩

namespace Storable

variable {t : RegisterTable δ} (ht : Storable t)

include ht

/-- **`register_get`** -/
theorem get (idx : Nat) :
    registerGet h t idx
      = .ok ((storeGet h t t.image idx).1, (storeGet h t t.image idx).2, t) := by
  unfold storeGet
  split
  · rename_i hidx
    unfold registerGet
    simp only [ht.layout.initialised]
    rw [if_neg (by decide), if_pos hidx]
  · rename_i hidx
    have hi := Nat.lt_of_not_le hidx
    obtain ⟨an, hp⟩ := ht.layout.place ht.inRange hi
    rw [ht.value_field hi]
    exact registerGet_eq ht.layout ht.memoryBacked hi hp

/-- **`register_set`**, but for the slot behind the last entry. -/
theorem set {idx : Nat} (hidx : idx ≠ t.entries) (v : RegisterValue) :
    Answers t (registerSet h t idx v) (storeSet h t t.image idx v).1
      (storeSet h t t.image idx v).2 := by
  unfold storeSet registerSet registerSetx
  simp only [ht.layout.initialised, Bool.true_and]
  rw [if_neg (by decide)]
  by_cases hbehind : t.entries ≤ idx
  · rw [if_pos (by omega), if_pos hbehind]
    exact .unchanged rfl
  rw [if_neg (by omega), if_neg hbehind]
  have hi := Nat.lt_of_not_le hbehind
  obtain ⟨an, hp⟩ := ht.layout.place ht.inRange hi
  cases hval : rvValidate t (t.entry idx) v with
  | false => exact .unchanged rfl
  | true =>
    have hv := rvValidate_type hval
    have hcan : registerAreaCanWrite (t.area an) = true := by
      unfold registerAreaCanWrite
      rw [ht.memoryBacked.write an hp.area_lt]
      rfl
    have hser := rdsSerdes_ser h (bitIsset t.flags regTfBigEndian) (v := v)
      (by rw [hv]; exact ht.layout.typed idx hi)
    rw [hv] at hser
    simp only [Bool.not_true, Bool.false_eq_true, if_false, hp.area_eq, hcan, Bool.true_eq_false,
      hser, ok_bind]
    cases hu : v.usable with
    | false => exact .unchanged rfl
    | true =>
      have hlen : (valueAtoms h (bitIsset t.flags regTfBigEndian) v).length
          = rdsSize (t.entry idx).type := by rw [length_valueAtoms, hv]
      have hoff := hp.offset_eq
      have hstart : (t.link idx).offset.toNat
          = (t.entry idx).address.toNat - (t.area an).base.toNat := by omega
      obtain ⟨buf, hbuf⟩ : ∃ buf, h.localAtoms.store 0
          (valueAtoms h (bitIsset t.flags regTfBigEndian) v) = buf := ⟨_, rfl⟩
      have hrun : areaWrite t an buf (t.link idx).offset (registerEntrySize (t.entry idx))
          = .ok (regAccessResultInit,
            t.writing (t.entry idx).address.toNat (rdsSize (t.entry idx).type) buf) := by
        rw [areaWrite_mem ht.memoryBacked hp.area_lt, toNat_registerEntrySize, hstart,
          update_copy_eq ht.areasAscending hp.area_lt buf (by omega) hp.stop_le]
      simp only [hbuf, if_true, Bool.true_eq_false, if_false]
      refine ⟨_, hrun, (ht.writing _ _ buf t.entryFlags).1,
        (ht.image_writing hp.allMapped buf t.entryFlags).trans ?_⟩
      rw [← hbuf, ← hlen, Mem.slice_store]

/-- **`register_bit_set`, `register_bit_clear`** -/
theorem bits (op : BitVec 64 → BitVec 64 → BitVec 64) (idx : Nat) (v : RegisterValue) :
    Answers t (registerBits h t idx op v) (storeBits h t t.image op idx v).1
      (storeBits h t t.image op idx v).2 := by
  unfold registerBits storeBits
  rw [ht.get idx, ok_bind]
  simp only
  split
  · exact .unchanged rfl
  rename_i hs
  -- a register that was read is none behind the last one
  have hidx : idx ≠ t.entries := by
    rintro rfl
    unfold storeGet at hs
    rw [if_pos (Nat.le_refl _)] at hs
    exact hs RegisterAccessCode.noConfusion
  generalize (storeGet h t t.image idx).2 = reg
  split
  · exact .unchanged rfl
  cases reg.type with
  | uint16 | uint32 | uint64 => exact ht.set hidx _
  | sint16 | sint32 | sint64 | float32 | float64 | invalid => exact .unchanged rfl

theorem not_insideUnreadable (addr : Nat) : ¬InsideUnreadable t addr := by
  rintro ⟨an, han, -, -, hread⟩
  rw [ht.readable han] at hread
  cases hread

theorem allMapped_of_noHole {lo n : Nat} (hno : NoHole t lo n) : AllMapped t lo n := by
  have hlt := hno.1
  exact fun x h1 h2 => (Layout.mapped_iff ht.inRange.areas (by omega)).mp (hno.2 x h1 h2)

/-- **`register_block_read`** -/
theorem blockRead (addr : RegisterAddress) (n : RegisterOffset) (buf : Mem RegisterAtom) :
    registerBlockRead t addr n buf
      = .ok ((storeRead h t t.image addr n buf).1, (storeRead h t t.image addr n buf).2, t) := by
  unfold storeRead
  by_cases hn : n = 0
  · subst hn
    rw [FieldMap.read_mapped fun x h1 h2 => absurd h2 (Nat.not_lt_of_le h1)]
    unfold registerBlockRead
    rw [ht.layout.initialised, if_neg (by decide), if_pos rfl]
    exact congrArg (fun b => Except.ok (regAccessResultInit, b, t)) (Mem.store_nil buf 0).symm
  obtain ⟨rv, hhole, hrep⟩ := registerBlockTouchesHole_report t addr n
  by_cases hs : rv.code = .success
  · have hall := ht.allMapped_of_noHole (hrep.noHole hs)
    have hmapped : (t.fields h).AllMapped addr.toNat n.toNat := hall
    rw [FieldMap.read_mapped hmapped, registerBlockRead_eq ht.layout ht.inRange.areas hall hn]
    refine (registerBlockReadUnsafeFuel_eq ht.layout ht.inRange.areas
      ht.memoryBacked.readsMemory buf 0 (Nat.le_refl _) hall
      fun _ => ht.not_insideUnreadable _).trans ?_
    rw [Mem.copy_eq_store, Mem.slice_shift, Nat.add_zero]
  · rcases hrep with ⟨hc, -⟩ | ⟨hc, hlow⟩
    · exact absurd hc hs
    have hlow' : LowestIn addr.toNat n.toNat (fun x => ¬(t.fields h).mapped x) rv.address.toNat :=
      lowestIn_belongs ht.inRange hlow
    rw [FieldMap.read_hole hlow']
    unfold registerBlockRead
    rw [ht.layout.initialised, if_neg (by decide), if_neg hn, hhole, ok_bind]
    simp only [hs, ne_eq, not_false_eq_true, if_true]
    rw [BitVec.ofNat_toNat, BitVec.setWidth_eq, ← hc]
    rfl

/-- What an entry would hold is what the check of a block looks at. -/
theorem entryDatum_field {i : Nat} (hi : i < t.entries) {addr : RegisterAddress}
    {n : RegisterOffset} (hn : 0 < n.toNat) (hno : NoHole t addr.toNat n.toNat)
    (buf : Mem RegisterAtom) (ho : (t.entry i).Overlaps addr.toNat n.toNat)
    (hu : ¬Unchecked (t.entry i) addr.toNat n.toNat) :
    entryDatum h t i addr n buf
      = (t.field h i).value (t.image.store addr.toNat (buf.slice 0 n.toNat)) := by
  have hw := (ht.writing addr.toNat n.toNat buf t.entryFlags).2
  have hvalue := hw.value_field (h := h) (i := i) hi
  rw [ht.image_writing (ht.allMapped_of_noHole hno)] at hvalue
  rw [entryDatum_eq ht.layout ht.inRange hi hn hno.1 buf t.entryFlags ho hu]
  exact hvalue.symm

/-- An entry that is refused is a field that would be spoiled. -/
theorem spoils_iff {addr : RegisterAddress} {n : RegisterOffset} (hn : 0 < n.toNat)
    (hno : NoHole t addr.toNat n.toNat) (buf : Mem RegisterAtom)
    (hu : ∀ i, i < t.entries → ¬Unchecked (t.entry i) addr.toNat n.toNat) (i : Nat) :
    (t.fields h).Spoils t.image addr.toNat (buf.slice 0 n.toNat) i ↔
      i < t.entries ∧ (t.entry i).Overlaps addr.toNat n.toNat ∧ ¬Admits h t i addr n buf := by
  unfold FieldMap.Spoils
  rw [Mem.length_slice]
  refine and_congr_right fun hi => and_congr_right fun ho => not_congr ?_
  unfold Admits
  rw [ht.entryDatum_field hi hn hno buf ho (hu i hi)]
  rfl

/-- **The address in the report about an entry** is the first one of the block in the entry. -/
theorem malformedAt_eq {i : Nat} (hi : i < t.entries) {addr : RegisterAddress}
    {n : RegisterOffset} (hn : 0 < n.toNat) (hno : NoHole t addr.toNat n.toNat)
    (buf : Mem RegisterAtom) (ho : (t.entry i).Overlaps addr.toNat n.toNat)
    (hu : ¬Unchecked (t.entry i) addr.toNat n.toNat) :
    malformedAt h t addr n buf i
      = refusalAccess h t t.image addr (buf.slice 0 n.toNat) (.field i) := by
  obtain ⟨h1, h2⟩ := (RegisterEntry.overlaps_iff (ht.layout.typed i hi) _ hn).mp ho
  have hc := regCopyOf_computes (ht.layout.typed i hi) (ht.inRange.entries i hi).le hn hno.1 h1 h2
  have hbs := hc.bs_eq
  have hlt := (t.entry i).address.isLt
  unfold malformedAt refusalAccess
  rw [ht.entryDatum_field hi hn hno buf ho hu]
  refine congrArg (RegisterAccess.mk _) (BitVec.eq_of_toNat_eq ?_)
  rw [BitVec.toNat_add, BitVec.toNat_ofNat, hbs]
  exact congrArg (· % 2 ^ 32) (by omega)

/-- **`register_block_write`**, but for the write that is not checked. -/
theorem blockWrite {addr : RegisterAddress} {n : RegisterOffset} (buf : Mem RegisterAtom)
    (hu : ∀ i, i < t.entries → ¬Unchecked (t.entry i) addr.toNat n.toNat) :
    Answers t (registerBlockWrite h t addr n buf)
      (storeWrite h t t.image addr (buf.slice 0 n.toNat)).1
      (storeWrite h t t.image addr (buf.slice 0 n.toNat)).2 := by
  unfold storeWrite
  by_cases hn : n = 0
  · subst hn
    have hnone : (t.fields h).refusal t.image addr.toNat
        (buf.slice 0 (0 : RegisterOffset).toNat) = none :=
      FieldMap.refusal_eq_none_iff.mpr ⟨fun x h1 h2 => absurd h2 (Nat.not_lt_of_le h1),
        fun i hi => Field.not_meets_zero _ hi.2.1⟩
    rw [FieldMap.write_none hnone]
    unfold registerBlockWrite
    rw [ht.layout.initialised, if_neg (by decide), if_pos rfl]
    exact ⟨t, rfl, .refl t, (Mem.store_nil _ _).symm⟩
  have hpos : 0 < n.toNat := Nat.pos_of_ne_zero fun he => hn (BitVec.eq_of_toNat_eq he)
  obtain ⟨rv, t', hrun, hout⟩ := registerBlockWrite_outcome (h := h) ht.layout ht.inRange
    ht.memoryBacked addr hn buf
  rw [hrun]
  cases hout with
  | readonly hw => exact absurd (raWriteable_success ht.memoryBacked ht.readWrite addr n) hw
  | hole _ hc hlow =>
    have hrefused : (t.fields h).refusal t.image addr.toNat (buf.slice 0 n.toNat)
        = some (.hole rv.address.toNat) :=
      FieldMap.refusal_hole (by rw [Mem.length_slice]; exact lowestIn_belongs ht.inRange hlow)
    rw [FieldMap.write_some hrefused]
    refine ⟨t, congrArg (fun a => Except.ok (a, t)) ?_, .refl t, rfl⟩
    show rv = ⟨.noentry, BitVec.ofNat 32 rv.address.toNat⟩
    rw [BitVec.ofNat_toNat, BitVec.setWidth_eq, ← hc]
  | @malformed i _ hno hi =>
    have hspoils := ht.spoils_iff (h := h) hpos hno buf hu
    have hrefused : (t.fields h).refusal t.image addr.toNat (buf.slice 0 n.toNat)
        = some (.field i) := by
      refine FieldMap.refusal_field (by
        rw [Mem.length_slice]
        exact ht.allMapped_of_noHole hno) ((hspoils i).mpr ⟨hi.lt, hi.overlaps, hi.refused⟩) ?_
      intro j hj hs
      obtain ⟨-, ho, hbad⟩ := (hspoils j).mp hs
      exact hbad (hi.first j (Nat.zero_le j) hj ho)
    rw [FieldMap.write_some hrefused]
    exact ⟨t, congrArg (fun a => Except.ok (a, t))
      (ht.malformedAt_eq hi.lt hpos hno buf hi.overlaps (hu i hi.lt)), .refl t, rfl⟩
  | @written flags ha hf =>
    have hall := ht.allMapped_of_noHole ha.noHole
    have hnone : (t.fields h).refusal t.image addr.toNat (buf.slice 0 n.toNat) = none := by
      refine FieldMap.refusal_eq_none_iff.mpr ⟨by rw [Mem.length_slice]; exact hall, fun i hi => ?_⟩
      obtain ⟨hlt, ho, hbad⟩ := (ht.spoils_iff hpos ha.noHole buf hu i).mp hi
      exact hbad (ha.admits i hlt ho)
    rw [FieldMap.write_none hnone]
    exact ⟨_, rfl, (ht.writing _ _ buf flags).1, ht.image_writing hall buf flags⟩

/-- **A call answers what it is for**, and leaves the memory it is to leave. -/
theorem call {c : StoreCall} (hc : c.Regular t) :
    (t.call h c).1 = .ok (storeCall h t t.image c).1 ∧ SameTable t (t.call h c).2 ∧
      (t.call h c).2.image = (storeCall h t t.image c).2 := by
  have hanswer :
      Answers t (c.exec h t) (storeCall h t t.image c).1 (storeCall h t t.image c).2 := by
    cases c with
    | get idx => exact .unchanged (by rw [StoreCall.exec, ht.get idx]; rfl)
    | blockRead addr n buf =>
      exact .unchanged (by rw [StoreCall.exec, ht.blockRead (h := h) addr n buf]; rfl)
    | set idx v =>
      obtain ⟨t', hrun, hs⟩ := ht.set (h := h) hc v
      exact ⟨t', by rw [StoreCall.exec, hrun]; rfl, hs⟩
    | bitSet idx v =>
      obtain ⟨t', hrun, hs⟩ := ht.bits (h := h) Ufw.bitSet idx v
      exact ⟨t', by rw [StoreCall.exec, registerBitSet, hrun]; rfl, hs⟩
    | bitClear idx v =>
      obtain ⟨t', hrun, hs⟩ := ht.bits (h := h) Ufw.bitClear idx v
      exact ⟨t', by rw [StoreCall.exec, registerBitClear, hrun]; rfl, hs⟩
    | blockWrite addr n buf =>
      obtain ⟨t', hrun, hs⟩ := ht.blockWrite (h := h) buf hc
      exact ⟨t', by rw [StoreCall.exec, hrun]; rfl, hs⟩
  obtain ⟨t', hrun, hsame, himage⟩ := hanswer
  unfold RegisterTable.call
  rw [hrun]
  exact ⟨rfl, hsame, himage⟩

end Storable

/-! ## 6. Registers go on to hold accepted values -/

/-- The registers of a table are fields that have no address in common. -/
theorem Storable.separate {t : RegisterTable δ} (ht : Storable t) : (t.fields h).Separate where
  mapped i hi x hx := by
    obtain ⟨an, hp⟩ := ht.layout.place ht.inRange hi
    exact hp.allMapped x hx.1 hx.2
  apart i j x hi hj hx hy :=
    ht.layout.entriesAscending.unique hi hj hx.1 hx.2 hy.1 hy.2

/-- **Setting a register is writing its atoms.** -/
theorem Storable.storeSet_eq {t : RegisterTable δ} (ht : Storable t) (m : Mem RegisterAtom)
    (idx : Nat) (v : RegisterValue) :
    (storeSet h t m idx v).2 = m ∨
      (storeSet h t m idx v).2 = ((t.fields h).write m (t.entry idx).address.toNat
        (valueAtoms h (bitIsset t.flags regTfBigEndian) v)).2 := by
  unfold storeSet
  split
  · exact .inl rfl
  rename_i hidx
  split
  · exact .inl rfl
  rename_i hval
  split
  · exact .inl rfl
  rename_i hu
  refine .inr ?_
  have hi : idx < (t.fields h).count := Nat.lt_of_not_le hidx
  have hv := rvValidate_type (Bool.eq_true_of_not_eq_false hval)
  have hlen : (valueAtoms h (bitIsset t.flags regTfBigEndian) v).length
      = rdsSize (t.entry idx).type := by rw [length_valueAtoms, hv]
  have hdecode : (t.field h idx).decode (valueAtoms h (bitIsset t.flags regTfBigEndian) v) = v := by
    have hback := atomsValue_valueAtoms h (bitIsset t.flags regTfBigEndian) v
    rwa [hv] at hback
  have hadmits : (t.fields h).admits idx ((t.field h idx).decode
      (valueAtoms h (bitIsset t.flags regTfBigEndian) v)) := by
    rw [hdecode]
    exact ⟨Bool.eq_true_of_not_eq_false hu, Bool.eq_true_of_not_eq_false hval⟩
  have hpos := rdsSize_pos (ht.layout.typed idx hi)
  have hnone := (ht.separate.refusal_own hi hlen (by omega) m).mpr hadmits
  exact (congrArg Prod.snd (FieldMap.write_none hnone)).symm

section Sane

variable {t : RegisterTable δ} {m : Mem RegisterAtom} {i : Nat}

theorem Storable.storeSet_sane (ht : Storable t) (hi : i < t.entries)
    (hm : (t.fields h).Sane m i) (idx : Nat) (v : RegisterValue) :
    (t.fields h).Sane (storeSet h t m idx v).2 i := by
  rcases ht.storeSet_eq (h := h) m idx v with hsame | hwrite
  · rw [hsame]
    exact hm
  · rw [hwrite]
    exact hm.write hi _ _

theorem Storable.storeBits_sane (ht : Storable t) (hi : i < t.entries)
    (hm : (t.fields h).Sane m i) (op : BitVec 64 → BitVec 64 → BitVec 64) (idx : Nat)
    (v : RegisterValue) : (t.fields h).Sane (storeBits h t m op idx v).2 i := by
  unfold storeBits
  simp only
  split
  · exact hm
  split
  · exact hm
  split
  · exact ht.storeSet_sane hi hm _ _
  · exact ht.storeSet_sane hi hm _ _
  · exact ht.storeSet_sane hi hm _ _
  · exact hm

/-- **A register that holds an accepted value holds one after any call.** -/
theorem Storable.storeCall_sane (ht : Storable t) (hi : i < t.entries)
    (hm : (t.fields h).Sane m i) (c : StoreCall) : (t.fields h).Sane (storeCall h t m c).2 i := by
  cases c with
  | get idx => exact hm
  | blockRead addr n buf => exact hm
  | set idx v => exact ht.storeSet_sane hi hm idx v
  | bitSet idx v => exact ht.storeBits_sane hi hm bitSet idx v
  | bitClear idx v => exact ht.storeBits_sane hi hm bitClear idx v
  | blockWrite addr n buf => exact hm.write hi addr.toNat _

end Sane

/-! ## 7. Runs -/

/-- What calls are for depends on the declaration of the table only. -/
theorem SameTable.storeCall {t u : RegisterTable δ} (hs : SameTable t u) (m : Mem RegisterAtom)
    (c : StoreCall) : Ufw.storeCall h u m c = Ufw.storeCall h t m c := by
  rw [hs]
  cases c <;> rfl

theorem SameTable.regular {t u : RegisterTable δ} (hs : SameTable t u) {c : StoreCall}
    (hc : c.Regular t) : c.Regular u := by
  rw [hs]
  cases c <;> exact hc

/-- **A table is a flat memory with registers in it.** In every run of calls it answers what the
    flat memory answers that began with the words of the table, and it holds the words of that
    memory in the end; a register that held an accepted value in the beginning holds one then. -/
theorem registerCalls_store {t : RegisterTable δ} (ht : Storable t) {l : List StoreCall}
    (hl : ∀ c ∈ l, c.Regular t) :
    answers (RegisterTable.call h) t l = (answers (storeCall h t) t.image l).map .ok ∧
      SameTable t (after (RegisterTable.call h) t l) ∧
      (after (RegisterTable.call h) t l).image = after (storeCall h t) t.image l ∧
      ∀ i, i < t.entries → (t.fields h).Sane t.image i →
        (t.fields h).Sane (after (RegisterTable.call h) t l).image i := by
  have hstep : ∀ (u : RegisterTable δ) (m : Mem RegisterAtom) (c : StoreCall),
      (SameTable t u ∧ u.image = m) → c.Regular t →
      (u.call h c).1 = .ok (storeCall h t m c).1 ∧
        SameTable t (u.call h c).2 ∧ (u.call h c).2.image = (storeCall h t m c).2 := by
    rintro u m c ⟨hs, rfl⟩ hc
    obtain ⟨hanswer, hsame, himage⟩ := (hs.storable ht).call (h := h) (hs.regular hc)
    rw [hs.storeCall] at hanswer himage
    exact ⟨hanswer, hs.trans hsame, himage⟩
  obtain ⟨hanswers, hsame, himage⟩ := simulated_run hstep ⟨.refl t, rfl⟩ hl
  refine ⟨hanswers, hsame, himage, fun i hi hm => ?_⟩
  rw [himage]
  exact after_keeps (I := fun m => (t.fields h).Sane m i)
    (fun m c hm => ht.storeCall_sane hi hm c) hm l

theorem sampleTable_storable : Storable (initialTable lp64Host sampleTable) where
  layout := (initialised_initialTable (by decide)).layout
  inRange := sampleTable_inRange
  memoryBacked := sampleTable_memoryBacked
  readWrite := by unfold ReadWrite; decide

theorem registerCalls_store_sample :
    let t := initialTable lp64Host sampleTable
    let l := [StoreCall.set 1 (.ofUnion .uint64 9), .blockWrite 0 3 (Mem.ofList 0 [5, 6, 7]),
      .blockRead 1 2 (Mem.ofList 0 []), .get 1]
    answers (RegisterTable.call lp64Host) t l
        = (answers (storeCall lp64Host t) t.image l).map .ok ∧
      SameTable t (after (RegisterTable.call lp64Host) t l) ∧
      (after (RegisterTable.call lp64Host) t l).image
        = after (storeCall lp64Host t) t.image l ∧
      ∀ i, i < t.entries → (t.fields lp64Host).Sane t.image i →
        (t.fields lp64Host).Sane (after (RegisterTable.call lp64Host) t l).image i :=
  registerCalls_store sampleTable_storable (by
    intro c hc
    simp only [List.mem_cons, List.not_mem_nil, or_false] at hc
    obtain rfl | rfl | rfl | rfl := hc
    · show (1 : Nat) ≠ 2
      decide
    · rintro i - ⟨-, -, hone⟩
      exact absurd hone (by decide)
    · trivial
    · trivial)

end Ufw
