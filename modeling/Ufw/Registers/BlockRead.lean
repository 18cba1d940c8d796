/-
  File:      Ufw/Registers/BlockRead.lean
  Subject:   REGISTER TABLE: reading blocks (registers/core.c).

  * `registerBlockReadUnsafe`, `registerBlockRead` -- the read, area by area;
  * `RegisterTable.image` -- **what a reader is to see** at an address;
  * `registerBlockRead_iff` -- a read delivers the image of the block unless the block begins inside
    an area that can not be read, behind its first address: there the zeroes are stored at the
    offset into the area instead of the beginning of the buffer.
-/
import Ufw.Registers.BlockWrite

namespace Ufw

open Base

variable {δ : Type} {h : Host}

/-! ## 1. The read -/

/-- `register_area_is_readable` -/
def registerAreaIsReadable (a : RegisterArea δ) : Bool :=
  a.read.isSome && bitIsset a.flags regAfReadable

/-- `register_block_read_unsafe`, with fuel; `pos` is how far the pointer `buf` has moved. -/
def registerBlockReadUnsafeFuel : Nat → RegisterTable δ → RegisterAddress → RegisterOffset →
    Mem RegisterAtom → Nat → Exec (RegisterAccess × Mem RegisterAtom × RegisterTable δ)
  | 0, t, _, rest, buf, _ =>
    if rest = 0 then .ok (regAccessResultInit, buf, t) else .error .outOfFuel
  | fuel + 1, t, addr, rest, buf, pos =>
    if rest = 0 then .ok (regAccessResultInit, buf, t)
    else do
      let an := raFindAreaByAddr t addr
      require (an < t.areas)
      let a := t.area an
      let offset := addr - a.base
      let readn := areaPart a addr rest
      if registerAreaIsReadable a then
        let (rv, dest, t) ← areaRead t an (buf.shift pos) offset readn
        let buf := buf.behind pos dest
        if rv.code ≠ .success then return (rv, buf, t)
        registerBlockReadUnsafeFuel fuel t (addr + readn) (rest - readn) buf (pos + readn.toNat)
      else
        -- the pointer is `buf + offset`, not `buf`
        let buf := buf.fill (pos + offset.toNat) 0 readn.toNat
        registerBlockReadUnsafeFuel fuel t (addr + readn) (rest - readn) buf (pos + readn.toNat)

section Read

variable (t : RegisterTable δ) (addr : RegisterAddress) (n : RegisterOffset)
  (buf : Mem RegisterAtom)

/-- `register_block_read_unsafe` -/
def registerBlockReadUnsafe : Exec (RegisterAccess × Mem RegisterAtom × RegisterTable δ) :=
  registerBlockReadUnsafeFuel n.toNat t addr n buf 0

/-- **`register_block_read`** -/
def registerBlockRead : Exec (RegisterAccess × Mem RegisterAtom × RegisterTable δ) :=
  if bitIsset t.flags regTfInitialised = false then .ok (⟨.uninitialised, addr⟩, buf, t)
  else if n = 0 then .ok (regAccessResultInit, buf, t)
  else do
    let rv ← registerBlockTouchesHole t addr n
    if rv.code ≠ .success then return (rv, buf, t)
    registerBlockReadUnsafe t addr n buf

end Read

/-! ## 2. What a reader is to see -/

/-- **What a reader is to see at address `x`**: the atom of the area it lies in, zero if that area
    can not be read. -/
def RegisterTable.image (t : RegisterTable δ) : Mem RegisterAtom := fun x =>
  let an := firstFrom (fun an => decide (AreaHolds t an x)) t.areas 0
  if registerAreaIsReadable (t.area an) then t.mem an (x - (t.area an).base.toNat) else 0

theorem image_eq {t : RegisterTable δ} (hasc : AreasAscending t) {an x : Nat} (han : an < t.areas)
    (hx : AreaHolds t an x) :
    t.image x = if registerAreaIsReadable (t.area an) then
      t.mem an (x - (t.area an).base.toNat) else 0 := by
  have hfind : firstFrom (fun an => decide (AreaHolds t an x)) t.areas 0 = an := by
    refine firstFrom_eq (Nat.zero_le an) (by omega) (decide_eq_true hx) fun j _ hj => ?_
    refine decide_eq_false fun hjx => ?_
    have he := hasc.unique (by omega) han hjx.1 hjx.2 hx.1 hx.2
    omega
  unfold RegisterTable.image
  simp only [hfind]

/-- Every area that can be read is read from the memory behind it. -/
structure ReadsMemory (t : RegisterTable δ) : Prop where
  read : ∀ i, i < t.areas → registerAreaIsReadable (t.area i) = true →
    (t.area i).read = some .regMemRead
  hasMem : ∀ i, i < t.areas → registerAreaIsReadable (t.area i) = true →
    (t.area i).hasMem = true

theorem MemoryBacked.readsMemory {t : RegisterTable δ} (hm : MemoryBacked t) : ReadsMemory t :=
  ⟨fun i hi _ => hm.read i hi, fun i hi _ => hm.hasMem i hi⟩

/-- Every address of the block lies in an area. -/
def AllMapped (t : RegisterTable δ) (addr n : Nat) : Prop :=
  ∀ x, addr ≤ x → x < addr + n → ∃ an, an < t.areas ∧ AreaHolds t an x

/-- **Where the zeroes go astray**: the address lies in an area that can not be read, and not at its
    beginning. -/
def InsideUnreadable (t : RegisterTable δ) (addr : Nat) : Prop :=
  ∃ an, an < t.areas ∧ AreaHolds t an addr ∧ (t.area an).base.toNat < addr ∧
    registerAreaIsReadable (t.area an) = false

/-! ## 3. One pass -/

/-- **A later pass begins where an area begins.** -/
theorem AreaPass.next {t : RegisterTable δ} (hasc : AreasAscending t) {an : Nat}
    {addr : RegisterAddress} {rest used : RegisterOffset} (hp : AreaPass t an addr rest used)
    (han : an < t.areas) (hlt : used.toNat < rest.toNat) :
    ¬InsideUnreadable t (addr + used).toNat := by
  rintro ⟨bn, hbn, hx, hbase, -⟩
  rw [hp.addr_eq] at hx hbase
  have hstop := hp.stop_eq hlt
  have hpos := hp.pos
  have hbase1 := hp.holds.1
  -- the last address of the pass would lie in both areas
  have he := hasc.unique (x := addr.toNat + used.toNat - 1) han hbn (by omega) (by omega)
    (by omega) (by have h2 := hx.2; omega)
  subst he
  have h2 := hx.2
  omega

/-- What a pass stores is the image of its part of the block. -/
theorem AreaPass.image {t : RegisterTable δ} (hasc : AreasAscending t) {an : Nat}
    {addr : RegisterAddress} {rest used : RegisterOffset} (hp : AreaPass t an addr rest used)
    (han : an < t.areas) (buf : Mem RegisterAtom) (pos : Nat) :
    buf.copy pos (t.image.shift addr.toNat) used.toNat =
      if registerAreaIsReadable (t.area an) then
        buf.copy pos ((t.mem an).shift (addr.toNat - (t.area an).base.toNat)) used.toNat
      else buf.fill pos 0 used.toNat := by
  have hbase := hp.holds.1
  have hstop := hp.stop_le
  have himage : ∀ i, i < used.toNat → t.image (addr.toNat + i) =
      if registerAreaIsReadable (t.area an) then
        t.mem an (addr.toNat + i - (t.area an).base.toNat) else 0 :=
    fun i hi => image_eq hasc han ⟨by omega, by omega⟩
  split <;> rename_i hread
  · refine Mem.copy_congr _ _ fun i hi => ?_
    rw [Mem.shift_apply, himage i hi, if_pos hread, Mem.shift_apply]
    exact congrArg (t.mem an) (by omega)
  · refine Mem.copy_congr _ _ fun i hi => ?_
    rw [Mem.shift_apply, himage i hi, if_neg hread]

/-! ## 4. The loop -/

/-- A pass in an area that can be read. -/
theorem AreaPass.reads {t : RegisterTable δ} {an : Nat} {addr : RegisterAddress}
    {rest used : RegisterOffset} (hp : AreaPass t an addr rest used) (han : an < t.areas)
    (hm : ReadsMemory t) (hrest : rest ≠ 0) (hread : registerAreaIsReadable (t.area an) = true)
    (fuel : Nat) (buf : Mem RegisterAtom) (pos : Nat) :
    registerBlockReadUnsafeFuel (fuel + 1) t addr rest buf pos =
      registerBlockReadUnsafeFuel fuel t (addr + used) (rest - used)
        (buf.copy pos ((t.mem an).shift (addr.toNat - (t.area an).base.toNat)) used.toNat)
        (pos + used.toNat) := by
  conv_lhs => unfold registerBlockReadUnsafeFuel
  simp only [hrest, if_false, hp.find, hp.used_eq, hread, if_true]
  rw [require_pos han, ok_bind, areaRead_mem (hm.read an han hread) (hm.hasMem an han hread),
    ok_bind, hp.offset_eq]
  simp only [Mem.behind_copy, Nat.add_zero, regAccessResultInit, ne_eq, not_true_eq_false,
    if_false]

/-- A pass in an area that can not be read. -/
theorem AreaPass.zeroes {t : RegisterTable δ} {an : Nat} {addr : RegisterAddress}
    {rest used : RegisterOffset} (hp : AreaPass t an addr rest used) (han : an < t.areas)
    (hrest : rest ≠ 0) (hread : registerAreaIsReadable (t.area an) = false)
    (fuel : Nat) (buf : Mem RegisterAtom) (pos : Nat) :
    registerBlockReadUnsafeFuel (fuel + 1) t addr rest buf pos =
      registerBlockReadUnsafeFuel fuel t (addr + used) (rest - used)
        (buf.fill (pos + (addr.toNat - (t.area an).base.toNat)) 0 used.toNat)
        (pos + used.toNat) := by
  conv_lhs => unfold registerBlockReadUnsafeFuel
  simp only [hrest, if_false, hp.find, hp.used_eq, hread, hp.offset_eq]
  rw [require_pos han, ok_bind, if_neg (by decide)]

/-- The rest of a block all of whose addresses lie in areas. -/
theorem AllMapped.past {t : RegisterTable δ} {an : Nat} {addr : RegisterAddress}
    {rest used : RegisterOffset} (hall : AllMapped t addr.toNat rest.toNat)
    (hp : AreaPass t an addr rest used) :
    AllMapped t (addr + used).toNat (rest - used).toNat := by
  have hle := hp.le
  rw [hp.addr_eq, hp.rest_eq]
  exact fun x h1 h2 => hall x (by omega) (by omega)

section Loop

variable {t : RegisterTable δ} (hl : Layout t) (hr : AreasInRange t) (hm : ReadsMemory t)

include hl hr hm

/-- **The loop delivers the image of the block** if it does not begin where zeroes go astray: no
    later pass does. -/
theorem registerBlockReadUnsafeFuel_eq {fuel : Nat} {addr : RegisterAddress}
    {rest : RegisterOffset} (buf : Mem RegisterAtom) (pos : Nat) (hfuel : rest.toNat ≤ fuel)
    (hall : AllMapped t addr.toNat rest.toNat)
    (hin : rest ≠ 0 → ¬InsideUnreadable t addr.toNat) :
    registerBlockReadUnsafeFuel fuel t addr rest buf pos =
      .ok (regAccessResultInit, buf.copy pos (t.image.shift addr.toNat) rest.toNat, t) := by
  induction fuel generalizing addr rest buf pos with
  | zero =>
    obtain rfl : rest = 0 := BitVec.eq_of_toNat_eq (Nat.le_zero.mp hfuel)
    exact congrArg (fun b => Except.ok (_, b, t)) (Mem.copy_zero _ _ _).symm
  | succ fuel ih =>
    by_cases hrest : rest = 0
    · subst hrest
      unfold registerBlockReadUnsafeFuel
      exact congrArg (fun b => Except.ok (_, b, t)) (Mem.copy_zero _ _ _).symm
    have hasc := hl.areasAscending hr
    have hrest' : rest.toNat ≠ 0 := fun he => hrest (BitVec.eq_of_toNat_eq he)
    obtain ⟨an, han, hx⟩ := hall addr.toNat (Nat.le_refl _) (by omega)
    obtain ⟨used, hp⟩ := hl.areaPass hr han hrest hx
    have hpos := hp.pos
    have hle := hp.le
    have hsub := hp.rest_eq
    -- the rest of the block, behind what this pass has stored
    have hrun := fun b => @ih (addr + used) (rest - used) b (pos + used.toNat) (by omega)
      (hall.past hp) fun hne => hp.next hasc han (by
        have h0 : (rest - used).toNat ≠ 0 := fun he => hne (BitVec.eq_of_toNat_eq he)
        omega)
    have himage := hp.image hasc han buf pos
    have happend : (buf.copy pos (t.image.shift addr.toNat) used.toNat).copy (pos + used.toNat)
        (t.image.shift (addr + used).toNat) (rest - used).toNat
        = buf.copy pos (t.image.shift addr.toNat) rest.toNat := by
      have hshift : t.image.shift (addr + used).toNat
          = (t.image.shift addr.toNat).shift used.toNat := by
        rw [hp.addr_eq]
        exact funext fun i => congrArg t.image (Nat.add_assoc _ _ _)
      rw [hshift, Mem.copy_append, hsub, Nat.add_sub_cancel' hle]
    cases hread : registerAreaIsReadable (t.area an) with
    | true =>
      rw [hread, if_pos rfl] at himage
      rw [hp.reads han hm hrest hread, hrun, ← himage, happend]
    | false =>
      have hbase : addr.toNat - (t.area an).base.toNat = 0 := by
        by_contra hne
        exact hin hrest ⟨an, han, hx, by omega, hread⟩
      rw [hread, if_neg (by decide)] at himage
      rw [hp.zeroes han hrest hread, hbase, Nat.add_zero, hrun, ← himage, happend]

omit hl hr hm in
/-- The loop does not store anything before its pointer. -/
theorem registerBlockReadUnsafeFuel_before {fuel : Nat} {t t' : RegisterTable δ}
    {addr : RegisterAddress} {rest : RegisterOffset} {buf buf' : Mem RegisterAtom} {pos : Nat}
    {rv : RegisterAccess}
    (hrun : registerBlockReadUnsafeFuel fuel t addr rest buf pos = .ok (rv, buf', t')) {i : Nat}
    (hi : i < pos) : buf' i = buf i := by
  induction fuel generalizing t addr rest buf pos with
  | zero =>
    unfold registerBlockReadUnsafeFuel at hrun
    split at hrun
    · cases hrun
      rfl
    · cases hrun
  | succ fuel ih =>
    unfold registerBlockReadUnsafeFuel at hrun
    split at hrun
    · cases hrun
      rfl
    simp only at hrun
    obtain ⟨-, -, hrun⟩ := bind_eq_ok hrun
    split at hrun
    · obtain ⟨⟨rv₁, dest, t₁⟩, -, hrun⟩ := bind_eq_ok hrun
      simp only at hrun
      split at hrun
      · cases hrun
        exact Mem.behind_before _ _ hi
      · exact (ih hrun (by omega)).trans (Mem.behind_before _ _ hi)
    · exact (ih hrun (by omega)).trans (Mem.copy_outside _ _ (by omega))

omit hm in
/-- **Zeroes that go astray**: the first atom of the buffer is what it was. -/
theorem registerBlockReadUnsafe_astray {addr : RegisterAddress} {n : RegisterOffset}
    (hn : n ≠ 0) (hin : InsideUnreadable t addr.toNat) {buf buf' : Mem RegisterAtom}
    {t' : RegisterTable δ} {rv : RegisterAccess}
    (hrun : registerBlockReadUnsafe t addr n buf = .ok (rv, buf', t')) : buf' 0 = buf 0 := by
  obtain ⟨an, han, hx, hbase, hread⟩ := hin
  obtain ⟨used, hp⟩ := hl.areaPass hr han hn hx
  have hpos := hp.pos
  have hle := hp.le
  obtain ⟨k, hk⟩ : ∃ k, n.toNat = k + 1 := ⟨n.toNat - 1, by omega⟩
  unfold registerBlockReadUnsafe at hrun
  rw [hk, hp.zeroes han hn hread] at hrun
  exact (registerBlockReadUnsafeFuel_before hrun (by omega)).trans
    (Mem.copy_outside _ _ (by omega))

end Loop

/-! ## 5. `register_block_read` -/

theorem AllMapped.noHole {t : RegisterTable δ} (hr : AreasInRange t) {addr : RegisterAddress}
    {n : Nat} (hall : AllMapped t addr.toNat n) : NoHole t addr.toNat n := by
  have hlt : addr.toNat + n < 2 ^ 32 := by
    rcases Nat.eq_zero_or_pos n with rfl | hn
    · exact addr.isLt
    · obtain ⟨an, han, hx⟩ := hall (addr.toNat + n - 1) (by omega) (by omega)
      have h1 := hr an han
      have h2 := hx.2
      omega
  exact ⟨hlt, fun x h1 h2 => (Layout.mapped_iff hr (by omega)).mpr (hall x h1 h2)⟩

theorem registerBlockRead_eq {t : RegisterTable δ} (hl : Layout t) (hr : AreasInRange t)
    {addr : RegisterAddress} {n : RegisterOffset} (hall : AllMapped t addr.toNat n.toNat)
    (hn : n ≠ 0) (buf : Mem RegisterAtom) :
    registerBlockRead t addr n buf = registerBlockReadUnsafe t addr n buf := by
  obtain ⟨rv, hhole, hiff⟩ := registerBlockTouchesHole_eq t addr n
  have hs := hiff.mpr (hall.noHole hr)
  unfold registerBlockRead
  rw [hl.initialised, if_neg (by decide), if_neg hn, hhole, ok_bind]
  simp only [hs, ne_eq, not_true_eq_false, if_false]

/-- **A block read delivers the image of the block**, and nothing else, whatever the buffer holds
    before -- if and only if the block does not begin inside an area that can not be read. -/
theorem registerBlockRead_iff {t : RegisterTable δ} (hinit : Initialised h t)
    (hr : AreasInRange t) (hm : ReadsMemory t) {addr : RegisterAddress} {n : RegisterOffset}
    (hall : AllMapped t addr.toNat n.toNat) :
    (∀ buf, ∃ rv, registerBlockRead t addr n buf =
        .ok (rv, buf.copy 0 (t.image.shift addr.toNat) n.toNat, t) ∧ rv.code = .success) ↔
      ¬(n ≠ 0 ∧ InsideUnreadable t addr.toNat) := by
  have hl := hinit.layout
  constructor
  · rintro hread ⟨hn, hin⟩
    obtain ⟨rv, hrun, -⟩ := hread fun _ => 1
    rw [registerBlockRead_eq hl hr hall hn] at hrun
    have hkept := registerBlockReadUnsafe_astray hl hr hn hin hrun
    -- the first atom should be zero
    obtain ⟨an, han, hx, -, hunread⟩ := hin
    have hpos : n.toNat ≠ 0 := fun he => hn (BitVec.eq_of_toNat_eq he)
    rw [Mem.copy_inside _ _ (Nat.le_refl 0) (by omega), Mem.shift_apply, Nat.sub_zero,
      Nat.add_zero, image_eq (hl.areasAscending hr) han hx, hunread,
      if_neg Bool.false_ne_true] at hkept
    exact absurd hkept (by decide)
  · intro hin buf
    refine ⟨regAccessResultInit, ?_, rfl⟩
    by_cases hn : n = 0
    · subst hn
      unfold registerBlockRead
      rw [hl.initialised]
      exact congrArg (fun b => Except.ok (_, b, t)) (Mem.copy_zero _ _ _).symm
    · rw [registerBlockRead_eq hl hr hall hn]
      exact registerBlockReadUnsafeFuel_eq hl hr hm buf 0 (Nat.le_refl _) hall
        fun hne hi => hin ⟨hne, hi⟩

/-! ## 6. An area that can not be read -/

/-- Two areas side by side, the first one without `REG_AF_READABLE`. -/
def writeOnlyTable : RegisterTable Unit :=
  initialTable lp64Host
    (tableOf [{ memoryArea 0 2 with flags := regAfWriteable }, memoryArea 2 4] [])

theorem initialised_writeOnlyTable : Initialised lp64Host writeOnlyTable :=
  initialised_initialTable (by decide)

theorem writeOnlyTable_inRange : AreasInRange writeOnlyTable := by
  show ∀ i, i < 2 → _
  decide

theorem writeOnlyTable_memoryBacked : MemoryBacked writeOnlyTable := by
  refine ⟨?_, ?_, ?_⟩ <;> (show ∀ i, i < 2 → _) <;> intro i hi <;> interval_cases i <;> rfl

theorem writeOnlyTable_allMapped :
    AllMapped writeOnlyTable (0 : RegisterAddress).toNat (6 : RegisterOffset).toNat := by
  intro x _ hx
  rcases Nat.lt_or_ge x 2 with h2 | h2
  · exact ⟨0, by decide, Nat.zero_le x, h2⟩
  · exact ⟨1, by decide, h2, hx⟩

theorem registerBlockRead_iff_sample :
    ∃ rv, registerBlockRead writeOnlyTable 0 6 (fun _ => 7) =
      .ok (rv, Mem.copy (fun _ => 7) 0 (writeOnlyTable.image.shift 0) 6, writeOnlyTable) ∧
        rv.code = .success :=
  (registerBlockRead_iff initialised_writeOnlyTable writeOnlyTable_inRange
    writeOnlyTable_memoryBacked.readsMemory writeOnlyTable_allMapped).mpr
    (fun ⟨_, _, _, _, hlt, _⟩ => Nat.not_lt_zero _ hlt) _

/-- One atom from the second address of the area: it is stored behind the buffer of one atom. -/
theorem registerBlockRead_astray :
    Initialised lp64Host writeOnlyTable ∧ AreasInRange writeOnlyTable ∧
      MemoryBacked writeOnlyTable ∧ AllMapped writeOnlyTable 1 1 ∧ writeOnlyTable.image 1 = 0 ∧
      ∃ buf', registerBlockRead writeOnlyTable 1 1 (fun _ => 7)
        = .ok (regAccessResultInit, buf', writeOnlyTable) ∧ buf' 0 = 7 ∧ buf' 1 = 0 :=
  ⟨initialised_writeOnlyTable, writeOnlyTable_inRange, writeOnlyTable_memoryBacked,
    fun x _ hx => writeOnlyTable_allMapped x (Nat.zero_le x)
      (Nat.lt_of_lt_of_le hx (by decide)), by decide, _, rfl, by decide,
    by decide⟩

end Ufw
