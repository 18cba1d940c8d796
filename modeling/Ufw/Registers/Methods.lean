/-
  File:      Ufw/Registers/Methods.lean
  Subject:   REGISTER TABLE: methods that are NULL.

  * `AccessCall` -- the calls that reach into areas; `AccessCall.exec` is what they return;
  * `Refused` -- the calls that would need a method which is not there;
  * `registerCalls_guarded_iff` -- **no call invokes an absent method, and what would need one is
    refused, if and only if every entry can be read**: writing is guarded everywhere, reading an
    entry is not.
-/
import Ufw.Registers.BlockRead
import Ufw.Registers.CopyBounds
import Ufw.Registers.Placement
import Ufw.Registers.Sanitise

namespace Ufw

open Base

variable {δ : Type} {h : Host}

/-! ## 1. Calls -/

/-- The calls that reach into areas. -/
inductive AccessCall where
  | get (idx : Nat)
  | set (idx : Nat) (v : RegisterValue)
  | bitSet (idx : Nat) (v : RegisterValue)
  | bitClear (idx : Nat) (v : RegisterValue)
  | compare (a b : Nat)
  | sanitise
  | blockRead (addr : RegisterAddress) (n : RegisterOffset) (buf : Mem RegisterAtom)
  | blockWrite (addr : RegisterAddress) (n : RegisterOffset) (buf : Mem RegisterAtom)

/-- What a call returns. -/
def AccessCall.exec (h : Host) (t : RegisterTable δ) : AccessCall → Exec RegisterAccess
  | .get idx => Prod.fst <$> registerGet h t idx
  | .set idx v => Prod.fst <$> registerSet h t idx v
  | .bitSet idx v => Prod.fst <$> registerBitSet h t idx v
  | .bitClear idx v => Prod.fst <$> registerBitClear h t idx v
  | .compare a b => Prod.fst <$> registerCompare h t a b
  | .sanitise => Prod.fst <$> registerSanitise h t
  | .blockRead addr n buf => Prod.fst <$> registerBlockRead t addr n buf
  | .blockWrite addr n buf => Prod.fst <$> registerBlockWrite h t addr n buf

/-- The area of entry `i` can be read, as far as its methods go. -/
def EntryHasRead (t : RegisterTable δ) (i : Nat) : Prop :=
  ∀ an, (t.link i).area = some an → (t.area an).read ≠ none

/-- The area of entry `i` can be written to, as far as its methods go. -/
def EntryHasWrite (t : RegisterTable δ) (i : Nat) : Prop :=
  ∀ an, (t.link i).area = some an → (t.area an).write ≠ none

/-- The entries a call may read, those of the table. -/
def AccessCall.Reads (t : RegisterTable δ) : AccessCall → Nat → Prop
  | .get idx, i | .bitSet idx _, i | .bitClear idx _, i => i = idx
  | .compare a b, i => i = a ∨ i = b
  | .sanitise, _ => True
  | .blockWrite addr n _, i => Taken (t.entry i) addr n
  | .set _ _, _ | .blockRead _ _ _, _ => False

/-- **The calls that ask for an absent method**: an entry that can not be read, one that can not be
    written, a block with an address in an area that can not be written. -/
def Refused (t : RegisterTable δ) : AccessCall → Prop
  | .get idx | .bitSet idx _ | .bitClear idx _ => idx < t.entries ∧ ¬EntryHasRead t idx
  | .compare a b => (a < t.entries ∧ ¬EntryHasRead t a) ∨ (b < t.entries ∧ ¬EntryHasRead t b)
  | .set idx _ => idx < t.entries ∧ ¬EntryHasWrite t idx
  | .blockWrite addr n _ => ∃ an, ∃ x : RegisterAddress, an < t.areas ∧
      raAddrIsPartOf (t.area an) x = true ∧ addr.toNat ≤ x.toNat ∧
      x.toNat < addr.toNat + n.toNat ∧ (t.area an).write = none
  | .sanitise | .blockRead _ _ _ => False

/-- **What the caller relies on**: the call does not invoke an absent method, and what would need
    one ends with an access code. -/
structure CallGuarded (h : Host) (t : RegisterTable δ) (c : AccessCall) : Prop where
  noNullCall : c.exec h t ≠ .error .nullCall
  refused : Refused t c → ∃ rv, c.exec h t = .ok rv ∧ rv.code ≠ .success

/-! ## 2. The table does not change -/

/-- Only the memory, the device and the flags of entries of `t` have changed in `t'`. -/
def SameTable (t t' : RegisterTable δ) : Prop :=
  t' = { t with mem := t'.mem, dev := t'.dev, entryFlags := t'.entryFlags }

namespace SameTable

variable {t u v : RegisterTable δ}

theorem refl (t : RegisterTable δ) : SameTable t t := rfl

theorem trans (h1 : SameTable t u) (h2 : SameTable u v) : SameTable t v := by
  unfold SameTable at h1 h2 ⊢
  rw [h1] at h2
  exact h2

theorem link (hs : SameTable t u) : u.link = t.link := by rw [hs]

theorem area (hs : SameTable t u) : u.area = t.area := by rw [hs]

theorem areas (hs : SameTable t u) : u.areas = t.areas := by rw [hs]

theorem entry (hs : SameTable t u) : u.entry = t.entry := by rw [hs]

theorem entryHasRead (hs : SameTable t u) {i : Nat} (hr : EntryHasRead t i) :
    EntryHasRead u i := by
  unfold EntryHasRead
  rw [hs.link, hs.area]
  exact hr

end SameTable

/-! ## 3. Single registers -/

section Single

variable {t : RegisterTable δ}

theorem areaRead_guarded {an : Nat} (hread : (t.area an).read ≠ none) (dest : Mem RegisterAtom)
    (offset n : RegisterOffset) :
    Guarded (areaRead t an dest offset n) fun r => SameTable t r.2.2 := by
  unfold areaRead
  split
  · contradiction
  · exact (Guarded.require _).bind fun _ _ => .of_ok (.refl t)
  · exact .of_ok rfl

theorem areaWrite_guarded {an : Nat} (hwrite : (t.area an).write ≠ none) (src : Mem RegisterAtom)
    (offset n : RegisterOffset) :
    Guarded (areaWrite t an src offset n) fun r => SameTable t r.2 := by
  unfold areaWrite
  split
  · contradiction
  · exact (Guarded.require _).bind fun _ _ => .of_ok rfl
  · exact .of_ok rfl

theorem rdsSer_guarded {w : Nat} (type : RegisterType) (member : RegisterValueU → BitVec w)
    (usable : BitVec w → Bool) (setB setL : BitVec w → List Octet) (v : RegisterValue)
    (bigendian : Bool) :
    Guarded (rdsSer h type member usable setB setL v bigendian) fun _ => True := by
  unfold rdsSer
  refine (Guarded.require _).bind fun _ _ => ?_
  split
  · exact .of_ok trivial
  · exact .of_ok trivial

theorem rdsSerdes_ser_guarded (type : RegisterType) (v : RegisterValue) (bigendian : Bool) :
    Guarded ((rdsSerdes h type).ser v bigendian) fun _ => True := by
  cases type with
  | invalid => exact .of_error (by decide)
  | float32 | float64 => exact rdsSer_guarded _ _ _ _ _ v bigendian
  | _ => exact rdsSer_guarded _ _ (fun _ => true) _ _ v bigendian

theorem rdsSerdes_des_guarded (type : RegisterType) (r : Mem RegisterAtom) (bigendian : Bool) :
    Guarded ((rdsSerdes h type).des r bigendian) fun _ => True := by
  cases type with
  | invalid => exact .of_error (by decide)
  | _ => exact .of_ok trivial

theorem regReadEntry_guarded {i : Nat} (hread : EntryHasRead t i) (buf : Mem RegisterAtom) :
    Guarded (regReadEntry t i buf) fun r => SameTable t r.2.2 := by
  unfold regReadEntry
  split
  · exact .of_error (by decide)
  · rename_i an harea
    exact areaRead_guarded (hread an harea) _ _ _

/-- **`register_set` is guarded** against areas without a write method. -/
theorem registerSet_guarded (idx : Nat) (v : RegisterValue) :
    Guarded (registerSet h t idx v) fun r => SameTable t r.2 := by
  unfold registerSet registerSetx
  simp only
  split
  · exact .of_ok (.refl t)
  split
  · exact .of_ok (.refl t)
  split
  · exact .of_ok (.refl t)
  split
  · exact .of_error (by decide)
  rename_i an _
  split
  · exact .of_ok (.refl t)
  rename_i hcan
  refine (rdsSerdes_ser_guarded _ _ _).bind fun r _ => ?_
  split
  · exact .of_ok (.refl t)
  · refine areaWrite_guarded (fun hnone => hcan ?_) _ _ _
    unfold registerAreaCanWrite
    rw [hnone]
    rfl

/-- **`register_get` is not guarded**: it relies on the read method of the area. -/
theorem registerGet_guarded {idx : Nat} (hread : idx < t.entries → EntryHasRead t idx) :
    Guarded (registerGet h t idx) fun r => SameTable t r.2.2 := by
  unfold registerGet
  simp only
  split
  · exact .of_ok (.refl t)
  split
  · exact .of_ok (.refl t)
  rename_i hidx
  refine (regReadEntry_guarded (hread (Nat.lt_of_not_le hidx)) _).bind fun r hr => ?_
  split
  · exact .of_ok hr
  refine (rdsSerdes_des_guarded _ _ _).bind fun v _ => ?_
  split
  · exact .of_ok hr
  · exact .of_ok hr

theorem registerBits_guarded {idx : Nat} (hread : idx < t.entries → EntryHasRead t idx)
    (op : BitVec 64 → BitVec 64 → BitVec 64) (v : RegisterValue) :
    Guarded (registerBits h t idx op v) fun r => SameTable t r.2 := by
  unfold registerBits
  refine (registerGet_guarded hread).bind fun r hr => ?_
  simp only
  split
  · exact .of_ok hr
  split
  · exact .of_ok hr
  split
  · exact (registerSet_guarded _ _).mono fun _ hs => hr.trans hs
  · exact (registerSet_guarded _ _).mono fun _ hs => hr.trans hs
  · exact (registerSet_guarded _ _).mono fun _ hs => hr.trans hs
  · exact .of_ok hr

theorem registerCompare_guarded {a b : Nat} (ha : a < t.entries → EntryHasRead t a)
    (hb : b < t.entries → EntryHasRead t b) :
    Guarded (registerCompare h t a b) fun r => SameTable t r.2 := by
  unfold registerCompare
  refine (registerGet_guarded ha).bind fun r hr => ?_
  simp only
  split
  · exact .of_ok hr
  have hentries : r.2.2.entries = t.entries := by rw [hr]
  refine (registerGet_guarded fun hlt => hr.entryHasRead (hb (hentries ▸ hlt))).bind
    fun r' hr' => ?_
  split
  · exact .of_ok (hr.trans hr')
  split
  · exact .of_ok (hr.trans hr')
  · exact .of_ok (hr.trans hr')

end Single

/-! ## 4. Sanitising -/

theorem regEntrySane_guarded {t : RegisterTable δ} {i : Nat} (hread : EntryHasRead t i) :
    Guarded (regEntrySane h t i) fun r => SameTable t r.2 := by
  unfold regEntrySane
  refine (registerGet_guarded fun _ => hread).bind fun r hr => ?_
  simp only
  split
  · exact .of_ok hr
  split
  · exact .of_ok hr
  · exact .of_ok hr

theorem SameTable.untouch (t : RegisterTable δ) (i : Nat) : SameTable t (registerUntouch t i) := rfl

theorem registerSanitiseFrom_guarded {t : RegisterTable δ} (k i : Nat)
    (hread : ∀ j, i ≤ j → j < i + k → EntryHasRead t j) :
    Guarded (registerSanitiseFrom h k i t) fun r => SameTable t r.2 := by
  induction k generalizing i t with
  | zero => exact .of_ok (.refl t)
  | succ k ih =>
    -- the entries behind, once this one was dealt with
    have hrest : ∀ {u : RegisterTable δ}, SameTable t u →
        Guarded (registerSanitiseFrom h k (i + 1) (registerUntouch u i)) fun r =>
          SameTable t r.2 := by
      intro u hu
      have hsame := hu.trans (.untouch u i)
      exact (ih (i + 1) fun j h1 h2 => hsame.entryHasRead (hread j (by omega) (by omega))).mono
        fun _ hr => hsame.trans hr
    unfold registerSanitiseFrom
    refine (regEntrySane_guarded (hread i (Nat.le_refl i) (by omega))).bind fun r hr => ?_
    have hload : Guarded (regEntryLoadDefault h r.2 i >>= fun r' =>
        if r'.1.code ≠ .success then return (r'.1, r'.2)
        else registerSanitiseFrom h k (i + 1) (registerUntouch r'.2 i)) fun r =>
          SameTable t r.2 := by
      refine (registerSet_guarded _ _).bind fun r' hr' => ?_
      split
      · exact .of_ok (hr.trans hr')
      · exact hrest (hr.trans hr')
    simp only
    split
    · exact hrest hr
    · exact hload
    · exact hload
    · exact .of_ok hr

theorem registerSanitise_guarded {t : RegisterTable δ}
    (hread : ∀ i, i < t.entries → EntryHasRead t i) :
    Guarded (registerSanitise h t) fun r => SameTable t r.2 := by
  unfold registerSanitise
  split
  · exact .of_ok (.refl t)
  · exact registerSanitiseFrom_guarded _ _ fun j _ hj => hread j (by omega)

/-! ## 5. Blocks -/

theorem registerBlockReadUnsafeFuel_guarded {t : RegisterTable δ} (fuel : Nat)
    (addr : RegisterAddress) (rest : RegisterOffset) (buf : Mem RegisterAtom) (pos : Nat) :
    Guarded (registerBlockReadUnsafeFuel fuel t addr rest buf pos) fun r => SameTable t r.2.2 := by
  induction fuel generalizing t addr rest buf pos with
  | zero =>
    unfold registerBlockReadUnsafeFuel
    split
    · exact .of_ok (.refl t)
    · exact .of_error (by decide)
  | succ fuel ih =>
    unfold registerBlockReadUnsafeFuel
    split
    · exact .of_ok (.refl t)
    refine (Guarded.require _).bind fun _ _ => ?_
    simp only
    split
    · rename_i hreadable
      have hread : (t.area (raFindAreaByAddr t addr)).read ≠ none := by
        intro hnone
        unfold registerAreaIsReadable at hreadable
        rw [hnone] at hreadable
        exact Bool.noConfusion hreadable
      refine (areaRead_guarded hread _ _ _).bind fun r hr => ?_
      split
      · exact .of_ok hr
      · exact (ih _ _ _ _).mono fun _ hs => hr.trans hs
    · exact ih _ _ _ _

theorem registerBlockTouchesHole_guarded (t : RegisterTable δ) (addr : RegisterAddress)
    (n : RegisterOffset) :
    Guarded (registerBlockTouchesHole t addr n) fun rv =>
      rv.code = .success ↔ NoHole t addr.toNat n.toNat := by
  obtain ⟨rv, hrun, hiff⟩ := registerBlockTouchesHole_eq t addr n
  rw [hrun]
  exact .of_ok hiff

/-- **`register_block_read` is guarded.** -/
theorem registerBlockRead_guarded (t : RegisterTable δ) (addr : RegisterAddress)
    (n : RegisterOffset) (buf : Mem RegisterAtom) :
    Guarded (registerBlockRead t addr n buf) fun r => SameTable t r.2.2 := by
  unfold registerBlockRead
  split
  · exact .of_ok (.refl t)
  split
  · exact .of_ok (.refl t)
  refine (registerBlockTouchesHole_guarded t addr n).bind fun rv _ => ?_
  split
  · exact .of_ok (.refl t)
  · exact registerBlockReadUnsafeFuel_guarded _ _ _ _ _

theorem raMalformedWriteFrom_guarded {t : RegisterTable δ} {addr : RegisterAddress}
    {n : RegisterOffset} (buf : Mem RegisterAtom) (k i : Nat) (rv : RegisterAccess)
    (hread : ∀ j, i ≤ j → j < i + k → Taken (t.entry j) addr n → EntryHasRead t j) :
    Guarded (raMalformedWriteFrom h addr n buf k i rv t).2 fun r => SameTable t r.2 := by
  induction k generalizing i rv t with
  | zero => exact .of_ok (.refl t)
  | succ k ih =>
    unfold raMalformedWriteFrom
    simp only
    split
    · exact ih _ _ fun j h1 h2 => hread j (by omega) (by omega)
    rename_i hbelow
    split
    · exact .of_ok (.refl t)
    rename_i habove
    have hentry := regReadEntry_guarded (hread i (Nat.le_refl i) (by omega) ⟨hbelow, habove⟩)
      h.localAtoms
    split
    · rename_i halt hhalt
      exact .of_error fun he => hentry.noNullCall (hhalt.trans (congrArg _ he))
    rename_i rv' raw u hu
    have hsame : SameTable t u := hentry.post _ hu
    split
    · exact .of_ok hsame
    split
    · rename_i halt hhalt
      exact .of_error fun he =>
        (rdsSerdes_des_guarded _ _ _).noNullCall (hhalt.trans (congrArg _ he))
    split
    · exact .of_ok hsame
    split
    · exact .of_ok hsame
    · refine (ih (i + 1) rv' fun j h1 h2 htaken => ?_).mono fun _ hr => hsame.trans hr
      rw [hsame.entry] at htaken
      exact hsame.entryHasRead (hread j (by omega) (by omega) htaken)

/-- An area with an address of the block neither ends before the block nor begins behind it. -/
theorem raRangeTouches_part {a : RegisterArea δ} {addr x : RegisterAddress} {n : RegisterOffset}
    (hlt : addr.toNat + n.toNat < 2 ^ 32) (hx : raAddrIsPartOf a x = true)
    (h1 : addr.toNat ≤ x.toNat) (h2 : x.toNat < addr.toNat + n.toNat) :
    raRangeTouches a addr n = 0 := by
  obtain ⟨h3, h4⟩ := raAddrIsPartOf_bounds hx
  have hend : (addr + n).toNat = addr.toNat + n.toNat := by
    rw [BitVec.toNat_add, Nat.mod_eq_of_lt hlt]
  unfold raRangeTouches rangeTouches
  rw [if_neg fun hle => ?_, if_neg fun hle => ?_]
  · have hle' := BitVec.le_def.mp hle
    omega
  · have hle' := BitVec.le_def.mp hle
    omega

/-- **What `ra_writeable` lets through can be written to.** -/
theorem Layout.raWriteable_sound {t : RegisterTable δ} (hl : Layout t) {addr x : RegisterAddress}
    {n : RegisterOffset} (hs : (raWriteable t addr n).code = .success)
    (hlt : addr.toNat + n.toNat < 2 ^ 32) {an : Nat} (han : an < t.areas)
    (hx : raAddrIsPartOf (t.area an) x = true) (h1 : addr.toNat ≤ x.toNat)
    (h2 : x.toNat < addr.toNat + n.toNat) : (t.area an).write ≠ none := by
  rcases raWriteable_cases hl addr n with ⟨he, -⟩ | ⟨-, hno⟩
  · rw [he] at hs
    cases hs
  · intro hnone
    refine hno ⟨an, han, ?_, raRangeTouches_part hlt hx h1 h2⟩
    unfold registerAreaIsWriteable registerAreaCanWrite
    rw [hnone]
    rfl

theorem registerBlockWriteUnsafeFuel_guarded {t : RegisterTable δ} (fuel : Nat)
    (addr : RegisterAddress) (rest : RegisterOffset) (buf : Mem RegisterAtom)
    (hno : NoHole t addr.toNat rest.toNat)
    (hwrite : ∀ an (x : RegisterAddress), an < t.areas → raAddrIsPartOf (t.area an) x = true →
      addr.toNat ≤ x.toNat → x.toNat < addr.toNat + rest.toNat → (t.area an).write ≠ none) :
    Guarded (registerBlockWriteUnsafeFuel fuel t addr rest buf) fun r => SameTable t r.2 := by
  induction fuel generalizing t addr rest buf with
  | zero =>
    unfold registerBlockWriteUnsafeFuel
    split
    · exact .of_ok (.refl t)
    · exact .of_error (by decide)
  | succ fuel ih =>
    unfold registerBlockWriteUnsafeFuel
    split
    · exact .of_ok (.refl t)
    rename_i hrest
    have hrest' : rest.toNat ≠ 0 := fun he => hrest (BitVec.eq_of_toNat_eq he)
    refine (Guarded.require _).bind fun _ han => ?_
    obtain ⟨-, hp⟩ := raFindAreaByAddr_part (Nat.ne_of_lt han)
    obtain ⟨h1, h2, h3⟩ := areaPart_spec hp hrest
    obtain ⟨hadd, hsub⟩ := toNat_past h2 h3 (BitVec.isLt _)
    refine (areaWrite_guarded (hwrite _ addr han hp (Nat.le_refl _) (by omega)) _ _ _).bind
      fun r hr => ?_
    simp only
    split
    · exact .of_ok hr
    · have hpast := hno.past h2 hadd hsub
      refine (ih _ _ _ ?_ fun bn x hbn hx h4 h5 => ?_).mono fun _ hs => hr.trans hs
      · unfold NoHole Mapped at hpast ⊢
        rw [hr.areas, hr.area]
        exact hpast
      · rw [hr.areas] at hbn
        rw [hr.area] at hx ⊢
        exact hwrite bn x hbn hx (by omega) (by omega)

theorem regTaintInRangeFrom_same (addr : RegisterAddress) (n : RegisterOffset) (k i : Nat)
    (t : RegisterTable δ) : SameTable t (regTaintInRangeFrom addr n k i t) := by
  induction k generalizing i t with
  | zero => exact .refl t
  | succ k ih =>
    unfold regTaintInRangeFrom
    simp only
    split
    · exact .refl t
    split
    · exact ih _ _
    · exact SameTable.trans (u := registerTouch t i) rfl (ih _ _)

/-- **`register_block_write` is guarded** where the entries it checks can be read. -/
theorem registerBlockWrite_guarded {t : RegisterTable δ} (hl : Layout t) (addr : RegisterAddress)
    (n : RegisterOffset) (buf : Mem RegisterAtom)
    (hread : ∀ i, i < t.entries → Taken (t.entry i) addr n → EntryHasRead t i) :
    Guarded (registerBlockWrite h t addr n buf) fun r => SameTable t r.2 := by
  unfold registerBlockWrite
  split
  · exact .of_ok (.refl t)
  split
  · exact .of_ok (.refl t)
  simp only
  split
  · exact .of_ok (.refl t)
  rename_i hw
  refine (registerBlockTouchesHole_guarded t addr n).bind fun rv hrv => ?_
  split
  · exact .of_ok (.refl t)
  rename_i hs
  have hno := hrv.mp (not_not.mp hs)
  refine (raMalformedWriteFrom_guarded buf t.entries 0 _ fun j _ hj =>
    hread j (by omega)).bind fun r hr => ?_
  split
  · exact .of_ok hr
  have hunsafe : Guarded (registerBlockWriteUnsafe r.2 addr n buf) fun r' => SameTable t r'.2 := by
    refine (registerBlockWriteUnsafeFuel_guarded _ _ _ _ ?_ fun bn x hbn hx h4 h5 => ?_).mono
      fun _ hs => hr.trans hs
    · unfold NoHole Mapped at hno ⊢
      rw [hr.areas, hr.area]
      exact hno
    · rw [hr.areas] at hbn
      rw [hr.area] at hx ⊢
      exact hl.raWriteable_sound (not_not.mp hw) hno.1 hbn hx h4 h5
  refine hunsafe.bind fun r' hr' => ?_
  split
  · exact .of_ok hr'
  · exact .of_ok (hr'.trans (regTaintInRangeFrom_same _ _ _ _ _))

/-! ## 6. Calls that are refused -/

theorem registerSet_refused {t : RegisterTable δ} (hl : Layout t) {idx : Nat} (v : RegisterValue)
    (hidx : idx < t.entries) (hwrite : ¬EntryHasWrite t idx) :
    ∃ rv, registerSet h t idx v = .ok (rv, t) ∧ rv.code ≠ .success := by
  obtain ⟨an, -, hlink⟩ := hl.linked idx hidx
  have hcan : registerAreaCanWrite (t.area an) = false := by
    unfold registerAreaCanWrite
    cases hw : (t.area an).write with
    | none => rfl
    | some w =>
      refine absurd (fun bn hbn => ?_) hwrite
      rw [hlink] at hbn
      cases hbn
      rw [hw]
      exact Option.some_ne_none w
  unfold registerSet registerSetx
  simp only [hl.initialised, hlink, hcan]
  rw [if_neg (by decide), if_neg (by omega)]
  split
  · exact ⟨_, rfl, fun he => nomatch he⟩
  · exact ⟨_, rfl, fun he => nomatch he⟩

theorem registerBlockWrite_refused {t : RegisterTable δ} (hl : Layout t) {addr : RegisterAddress}
    {n : RegisterOffset} (buf : Mem RegisterAtom) {an : Nat} {x : RegisterAddress}
    (han : an < t.areas) (hx : raAddrIsPartOf (t.area an) x = true) (h1 : addr.toNat ≤ x.toNat)
    (h2 : x.toNat < addr.toNat + n.toNat) (hwrite : (t.area an).write = none) :
    ∃ rv, registerBlockWrite h t addr n buf = .ok (rv, t) ∧ rv.code ≠ .success := by
  have hn : n ≠ 0 := fun he => by
    have h0 : n.toNat = 0 := congrArg BitVec.toNat he
    omega
  unfold registerBlockWrite
  rw [hl.initialised, if_neg (by decide), if_neg hn]
  simp only
  split
  · rename_i hc
    exact ⟨_, rfl, hc⟩
  rename_i hw
  obtain ⟨rv, hhole, hiff⟩ := registerBlockTouchesHole_eq t addr n
  rw [hhole, ok_bind]
  split
  · rename_i hc
    exact ⟨_, rfl, hc⟩
  rename_i hc
  -- without holes the area is one of those `ra_writeable` has looked at
  have hlt := (hiff.mp (not_not.mp hc)).1
  exact absurd hwrite (hl.raWriteable_sound (not_not.mp hw) hlt han hx h1 h2)

/-! ## 7. All calls -/

/-- **A call that reads no entry without a read method** is guarded. -/
theorem AccessCall.guarded {t : RegisterTable δ} (hl : Layout t) (c : AccessCall)
    (hread : ∀ i, i < t.entries → c.Reads t i → EntryHasRead t i) : CallGuarded h t c := by
  have hcode : ∀ {α : Type} {x : Exec (RegisterAccess × α)} {P : RegisterAccess × α → Prop},
      Guarded x P → Prod.fst <$> x ≠ .error .nullCall := by
    intro α x P hx he
    cases x with
    | error e => exact hx.noNullCall (congrArg _ (Except.error.inj he))
    | ok r => cases he
  cases c with
  | get idx =>
    exact ⟨hcode (registerGet_guarded fun hidx => hread idx hidx rfl),
      fun hr => absurd (hread idx hr.1 rfl) hr.2⟩
  | set idx v =>
    refine ⟨hcode (registerSet_guarded idx v), fun hr => ?_⟩
    obtain ⟨rv, hrun, hne⟩ := registerSet_refused (h := h) hl v hr.1 hr.2
    exact ⟨rv, congrArg (Prod.fst <$> ·) hrun, hne⟩
  | bitSet idx v =>
    exact ⟨hcode (registerBits_guarded (fun hidx => hread idx hidx rfl) _ v),
      fun hr => absurd (hread idx hr.1 rfl) hr.2⟩
  | bitClear idx v =>
    exact ⟨hcode (registerBits_guarded (fun hidx => hread idx hidx rfl) _ v),
      fun hr => absurd (hread idx hr.1 rfl) hr.2⟩
  | compare a b =>
    refine ⟨hcode (registerCompare_guarded (fun ha => hread a ha (.inl rfl))
      fun hb => hread b hb (.inr rfl)), fun hr => ?_⟩
    rcases hr with ⟨ha, hno⟩ | ⟨hb, hno⟩
    · exact absurd (hread a ha (.inl rfl)) hno
    · exact absurd (hread b hb (.inr rfl)) hno
  | sanitise =>
    exact ⟨hcode (registerSanitise_guarded fun i hi => hread i hi trivial), False.elim⟩
  | blockRead addr n buf =>
    exact ⟨hcode (registerBlockRead_guarded t addr n buf), False.elim⟩
  | blockWrite addr n buf =>
    refine ⟨hcode (registerBlockWrite_guarded hl addr n buf hread), fun hr => ?_⟩
    obtain ⟨an, x, han, hx, h1, h2, hwrite⟩ := hr
    obtain ⟨rv, hrun, hne⟩ := registerBlockWrite_refused (h := h) hl buf han hx h1 h2 hwrite
    exact ⟨rv, congrArg (Prod.fst <$> ·) hrun, hne⟩

/-- **An entry without a read method**: `register_get` invokes it all the same. -/
theorem registerGet_nullCall {t : RegisterTable δ} (hl : Layout t) {idx : Nat}
    (hidx : idx < t.entries) (hread : ¬EntryHasRead t idx) :
    registerGet h t idx = .error .nullCall := by
  obtain ⟨an, -, hlink⟩ := hl.linked idx hidx
  have hnone : (t.area an).read = none := by
    by_contra hne
    refine hread fun bn hbn => ?_
    rw [hlink] at hbn
    cases hbn
    exact hne
  unfold registerGet regReadEntry areaRead
  simp only [hl.initialised, hlink, hnone]
  rw [if_neg (by decide), if_neg (Nat.not_le_of_lt hidx)]
  rfl

/-- **The calls on a table are guarded**: any call that reads no entry without a read method is, and
    all calls are if and only if the table has no such entry. -/
theorem registerCalls_guarded_iff {t : RegisterTable δ} (hinit : Initialised h t) :
    (∀ c : AccessCall, (∀ i, i < t.entries → c.Reads t i → EntryHasRead t i) →
        CallGuarded h t c) ∧
      ((∀ c, CallGuarded h t c) ↔ ∀ i, i < t.entries → EntryHasRead t i) := by
  have hl := hinit.layout
  refine ⟨fun c hread => c.guarded hl hread, fun hall i hi => ?_,
    fun hread c => c.guarded hl fun i hi _ => hread i hi⟩
  by_contra hno
  exact (hall (.get i)).noNullCall
    (congrArg (Prod.fst <$> ·) (registerGet_nullCall hl hi hno))

/-! ## 8. An area without a read method -/

/-- A device that can only be written to, with a register, in front of an area of memory. -/
def writeOnlyDevice : RegisterTable Unit :=
  initialTable lp64Host
    (tableOf [⟨none, some (.custom fun _ _ _ dev => (regAccessResultInit, dev)), regAfWriteable,
        0, 2, false⟩, memoryArea 2 4] [⟨.uint16, 7, 1, .trivial⟩, ⟨.uint16, 8, 2, .trivial⟩])

/-- `register_get` of the register of the device. -/
theorem registerGet_writeOnlyDevice :
    Initialised lp64Host writeOnlyDevice ∧
      AccessCall.exec lp64Host writeOnlyDevice (.get 0) = .error .nullCall :=
  ⟨initialised_initialTable (by decide), rfl⟩

theorem registerCalls_guarded_iff_sample :
    CallGuarded lp64Host writeOnlyDevice (.get 1) ∧
      CallGuarded lp64Host (initialTable lp64Host sampleTable) (.compare 0 1) :=
  ⟨(registerCalls_guarded_iff (initialised_initialTable (by decide))).1 _
      fun i _ hi an han => by
        cases hi
        cases han
        exact Option.some_ne_none _,
    (registerCalls_guarded_iff (initialised_initialTable (by decide))).2.mpr
      (fun i hi an han => by
        rw [sampleTable_memoryBacked.read an (by
          have hi' : i < 2 := hi
          interval_cases i <;> (cases han; decide))]
        exact Option.some_ne_none _) _⟩

end Ufw
