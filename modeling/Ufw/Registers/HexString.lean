/-
  File:      Ufw/Registers/HexString.lean
  Subject:   REGISTER TABLE: hexadecimal strings into registers (registers/core.c).

  * `registerSetFromHexstr` -- four characters an atom, the last ones possibly fewer;
  * `hexGroup` -- the characters of an atom, `hexNumber` the number they denote;
  * `regAtomFromHexstr_eq` -- an atom is the number its characters denote;
  * `registerSetFromHexstr_groups` -- **the groups of a string are stored in order, up to the first
    one that can not be**, whose address is reported.
-/
import Ufw.Characters
import Ufw.Registers.BlockWrite
import Mathlib.Tactic.IntervalCases

namespace Ufw

open Base

variable {δ : Type}

/-! ## 1. The source -/

/-- `reg_is_hexstr`, from index `idx` on. -/
def regIsHexstrFrom (s : Mem Octet) : Nat → Nat → Bool
  | 0, _ => true
  | k + 1, idx => if isxdigit (s idx) = false then false else regIsHexstrFrom s k (idx + 1)

/-- `reg_is_hexstr` -/
def regIsHexstr (s : Mem Octet) (n : Nat) : Bool := regIsHexstrFrom s n 0

/-- `reg_c2a`: the digit 0 is one of those without a case. -/
def regC2a (c : Octet) : RegisterAtom :=
  match c.toNat with
  | 0x31 => 1
  | 0x32 => 2
  | 0x33 => 3
  | 0x34 => 4
  | 0x35 => 5
  | 0x36 => 6
  | 0x37 => 7
  | 0x38 => 8
  | 0x39 => 9
  | 0x61 => 10
  | 0x62 => 11
  | 0x63 => 12
  | 0x64 => 13
  | 0x65 => 14
  | 0x66 => 15
  | _ => 0

/-- `reg_atom_from_hexstr`, from index `idx` on. -/
def regAtomFromHexstrFrom (s : Mem Octet) (n : Nat) : Nat → Nat → RegisterAtom → RegisterAtom
  | 0, _, rv => rv
  | k + 1, idx, rv =>
    let shift := (n - idx - 1) * 4
    let v := regC2a (tolower (s idx))
    regAtomFromHexstrFrom s n k (idx + 1) (rv ||| (v &&& 0x0f) <<< shift)

/-- `reg_atom_from_hexstr` -/
def regAtomFromHexstr (s : Mem Octet) (n : Nat) : RegisterAtom := regAtomFromHexstrFrom s n n 0 0

/-- `register_set_from_hexstr`, from index `idx` on, with fuel. -/
def registerSetFromHexstrFuel (start : RegisterAddress) (str : Mem Octet) (n : Nat) :
    Nat → Nat → RegisterAccess → RegisterTable δ → Exec (RegisterAccess × RegisterTable δ)
  | 0, idx, rv, t => if idx < n then .error .outOfFuel else .ok (rv, t)
  | fuel + 1, idx, rv, t =>
    if idx < n then
      let cur := str.shift idx
      let cn := min 4 (n - idx)
      let ca : RegisterAddress := BitVec.ofNat 32 (start.toNat + idx / 4)
      let ah := raFindAreaByAddr t ca
      if ah ≥ t.areas then .ok (⟨.noentry, ca⟩, t)
      else
        let area := t.area ah
        if registerAreaCanWrite area = false then .ok (⟨.readonly, ca⟩, t)
        else if regIsHexstr cur cn = false then .ok (⟨.invalid, ca⟩, t)
        else do
          let value := regAtomFromHexstr cur cn
          let size := BitVec.ofNat 32 (rdsSize .uint16)
          let (rv, t) ← areaWrite t ah (fun _ => value) (ca - area.base) size
          if rv.code ≠ .success then return (rv, t)
          registerSetFromHexstrFuel start str n fuel (idx + 4) rv t
    else .ok (rv, t)

/-- **`register_set_from_hexstr`**: every pass takes a character at least. -/
def registerSetFromHexstr (t : RegisterTable δ) (start : RegisterAddress) (str : Mem Octet)
    (n : Nat) : Exec (RegisterAccess × RegisterTable δ) :=
  registerSetFromHexstrFuel start str n n 0 regAccessResultInit t

/-! ## 2. Digits -/

theorem regIsHexstrFrom_iff (s : Mem Octet) (k idx : Nat) :
    regIsHexstrFrom s k idx = true ↔ ∀ c ∈ s.slice idx k, isxdigit c = true := by
  induction k generalizing idx with
  | zero => simp [regIsHexstrFrom]
  | succ k ih =>
    unfold regIsHexstrFrom
    rw [Mem.slice_succ, List.forall_mem_cons, ← ih]
    cases isxdigit (s idx) <;> simp

/-- A digit of either case is taken for its value. -/
theorem toNat_regC2a_tolower {c : Octet} (hc : isxdigit c = true) :
    (regC2a (tolower c)).toNat = hexDigit c := by
  have hall : ∀ k : Fin 256, isxdigit (.ofFin k) = true →
      (regC2a (tolower (.ofFin k))).toNat = hexDigit (.ofFin k) := by decide +kernel
  exact hall c.toFin hc

/-- **One digit more** at its place, which was empty. -/
theorem lor_digit {a d : Nat} (hd : d < 16) (k : Nat) :
    a * 16 ^ (k + 1) ||| d <<< (k * 4) = (16 * a + d) * 16 ^ k := by
  have h16 : ∀ m, m * 16 ^ k = m <<< (k * 4) := by
    intro m
    rw [Nat.shiftLeft_eq, Nat.mul_comm k 4, Nat.pow_mul]
  have hor : 2 ^ 4 * a ||| d = 2 ^ 4 * a + d := (Nat.two_pow_add_eq_or_of_lt (i := 4) hd a).symm
  have hpow : a * 16 ^ (k + 1) = (2 ^ 4 * a) * 16 ^ k := by
    rw [Nat.pow_succ]
    ring
  rw [hpow, h16 (2 ^ 4 * a), h16 (16 * a + d), ← Nat.shiftLeft_or_distrib, hor]
  rfl

theorem toNat_digit_shifted {c : Octet} (hc : isxdigit c = true) {k : Nat} (hk : k < 4) :
    ((regC2a (tolower c) &&& 0x0f) <<< (k * 4)).toNat = hexDigit c <<< (k * 4) := by
  have hd := hexDigit_lt hc
  have hlow : hexDigit c &&& (0x0f : RegisterAtom).toNat = hexDigit c := by
    have hmod := Nat.and_two_pow_sub_one_eq_mod (hexDigit c) 4
    rwa [Nat.mod_eq_of_lt hd] at hmod
  have hlt : hexDigit c <<< (k * 4) < 2 ^ 16 := by
    rw [Nat.shiftLeft_eq]
    interval_cases k <;> omega
  rw [BitVec.toNat_shiftLeft, BitVec.toNat_and, toNat_regC2a_tolower hc, hlow,
    Nat.mod_eq_of_lt hlt]

/-- The loop: `rv` is the number of the digits so far, moved to their places. -/
theorem toNat_regAtomFromHexstrFrom {s : Mem Octet} {n : Nat} (hn : n ≤ 4) {k idx a : Nat}
    {rv : RegisterAtom} (hk : idx + k = n) (hdigits : ∀ c ∈ s.slice idx k, isxdigit c = true)
    (hrv : rv.toNat = a * 16 ^ k) :
    (regAtomFromHexstrFrom s n k idx rv).toNat = hexNumberFrom a (s.slice idx k) := by
  induction k generalizing idx a rv with
  | zero => simpa [regAtomFromHexstrFrom, hexNumberFrom] using hrv
  | succ k ih =>
    rw [Mem.slice_succ] at hdigits ⊢
    obtain ⟨hc, hrest⟩ := List.forall_mem_cons.mp hdigits
    unfold regAtomFromHexstrFrom
    simp only
    have hshift : n - idx - 1 = k := by omega
    rw [hshift]
    refine ih (by omega) hrest ?_
    rw [BitVec.toNat_or, hrv, toNat_digit_shifted hc (by omega), lor_digit (hexDigit_lt hc)]

/-- **An atom is the number its characters denote.** -/
theorem toNat_regAtomFromHexstr {s : Mem Octet} {n : Nat} (hn : n ≤ 4)
    (hdigits : ∀ c ∈ s.slice 0 n, isxdigit c = true) :
    (regAtomFromHexstr s n).toNat = hexNumber (s.slice 0 n) := by
  refine toNat_regAtomFromHexstrFrom hn (Nat.zero_add n) hdigits ?_
  rw [Nat.zero_mul]
  rfl

/-! ## 3. Groups -/

/-- The number of groups of a string of `n` characters. -/
def hexGroups (n : Nat) : Nat := (n + 3) / 4

/-- Group `k`: four characters, or those that are left. -/
def hexGroup (str : Mem Octet) (n k : Nat) : List Octet := str.slice (4 * k) (min 4 (n - 4 * k))

/-- The atom that group `k` denotes. -/
def hexAtom (str : Mem Octet) (n k : Nat) : RegisterAtom :=
  BitVec.ofNat 16 (hexNumber (hexGroup str n k))

/-- **Group `k` can be stored**: its address lies in an area, and its characters are digits. -/
structure GroupFits (t : RegisterTable δ) (start : Nat) (str : Mem Octet) (n k : Nat) : Prop where
  belongs : Belongs t (start + k)
  digits : ∀ c ∈ hexGroup str n k, isxdigit c = true

/-- What is reported about group `k`, which can not be stored. -/
structure GroupRefused (t : RegisterTable δ) (start : Nat) (str : Mem Octet) (n k : Nat)
    (rv : RegisterAccess) : Prop where
  lt : k < hexGroups n
  code : rv.code = .noentry ∧ ¬Belongs t (start + k) ∨
    rv.code = .invalid ∧ Belongs t (start + k) ∧ ∃ c ∈ hexGroup str n k, isxdigit c = false
  address : rv.address.toNat = start + k

section Walk

variable {t : RegisterTable δ} {start : RegisterAddress} {str : Mem Octet} {n : Nat}

/-- One group more. -/
theorem writing_hexAtom (k : Nat) :
    (t.writing start.toNat k (hexAtom str n)).writing (start.toNat + k) 1
        (fun _ => hexAtom str n k)
      = t.writing start.toNat (k + 1) (hexAtom str n) := by
  rw [← writing_append]
  refine writing_congr _ _ _ fun j hj => ?_
  obtain rfl : j = 0 := by omega
  rfl

/-- **One pass** over the characters of group `k`: the group is refused, or stored. -/
theorem registerSetFromHexstr_pass (hl : Layout t) (hr : AreasInRange t) (hm : MemoryBacked t)
    (hstart : start.toNat + n / 4 < 2 ^ 32) {k : Nat} (hk : k < hexGroups n) (fuel : Nat)
    (rv : RegisterAccess) :
    (∃ rv', registerSetFromHexstrFuel start str n (fuel + 1) (4 * k) rv t = .ok (rv', t) ∧
        GroupRefused t start.toNat str n k rv') ∨
      (GroupFits t start.toNat str n k ∧
        registerSetFromHexstrFuel start str n (fuel + 1) (4 * k) rv t
          = registerSetFromHexstrFuel start str n fuel (4 * (k + 1)) regAccessResultInit
              (t.writing (start.toNat + k) 1 (fun _ => hexAtom str n k))) := by
  have hlt : 4 * k < n := by
    unfold hexGroups at hk
    omega
  have hca : (BitVec.ofNat 32 (start.toNat + 4 * k / 4)).toNat = start.toNat + k := by
    rw [BitVec.toNat_ofNat, Nat.mul_div_cancel_left k (by decide), Nat.mod_eq_of_lt (by omega)]
  have hgroup : (str.shift (4 * k)).slice 0 (min 4 (n - 4 * k)) = hexGroup str n k :=
    Mem.slice_shift str (4 * k) 0 _
  generalize hrest : registerSetFromHexstrFuel (δ := δ) start str n fuel = rest
  unfold registerSetFromHexstrFuel
  rw [if_pos hlt, hrest]
  simp only
  by_cases hb : Belongs t (start.toNat + k)
  · obtain ⟨an, han, hx⟩ := id hb
    have hfind := hl.raFindAreaByAddr_eq hr han (by rw [hca]; exact hx.1) (by rw [hca]; exact hx.2)
    have hcan : registerAreaCanWrite (t.area an) = true := by
      unfold registerAreaCanWrite
      rw [hm.write an han]
      rfl
    rw [hfind, if_neg (Nat.not_le_of_lt han), hcan, if_neg (by decide)]
    cases hhex : regIsHexstr (str.shift (4 * k)) (min 4 (n - 4 * k)) with
    | false =>
      rw [if_pos rfl]
      refine .inl ⟨_, rfl, hk, .inr ⟨rfl, hb, ?_⟩, hca⟩
      by_contra hno
      refine Bool.noConfusion (hhex.symm.trans ((regIsHexstrFrom_iff _ _ _).mpr fun c hc => ?_))
      rw [hgroup] at hc
      exact Bool.eq_true_of_not_eq_false fun hf => hno ⟨c, hc, hf⟩
    | true =>
      have hdigits := (regIsHexstrFrom_iff _ _ _).mp hhex
      have hvalue :
          regAtomFromHexstr (str.shift (4 * k)) (min 4 (n - 4 * k)) = hexAtom str n k := by
        unfold hexAtom
        rw [← hgroup, ← toNat_regAtomFromHexstr (Nat.min_le_left _ _) hdigits, BitVec.ofNat_toNat,
          BitVec.setWidth_eq]
      have hoff : (BitVec.ofNat 32 (start.toNat + 4 * k / 4) - (t.area an).base).toNat
          = start.toNat + k - (t.area an).base.toNat := by
        rw [BitVec.toNat_sub_of_le (BitVec.le_def.mpr (by rw [hca]; exact hx.1)), hca]
      have hone : (BitVec.ofNat 32 (rdsSize .uint16)).toNat = 1 := rfl
      rw [if_neg (by decide), hvalue, areaWrite_mem hm han, ok_bind, hoff, hone,
        update_copy_eq (hl.areasAscending hr) han _ hx.1 hx.2]
      rw [hgroup] at hdigits
      exact .inr ⟨⟨hb, hdigits⟩, rfl⟩
  · have hfind : raFindAreaByAddr t (BitVec.ofNat 32 (start.toNat + 4 * k / 4)) = t.areas := by
      by_contra hne
      obtain ⟨han, hp⟩ := raFindAreaByAddr_part hne
      have hx := (raAddrIsPartOf_iff (hr _ han) _).mp hp
      rw [hca] at hx
      exact hb ⟨_, han, hx⟩
    rw [hfind, if_pos (Nat.le_refl _)]
    exact .inl ⟨_, rfl, hk, .inl ⟨rfl, hb⟩, hca⟩

theorem registerSetFromHexstrFuel_done {k : Nat} (hk : hexGroups n ≤ k) (fuel : Nat)
    (rv : RegisterAccess) (u : RegisterTable δ) :
    registerSetFromHexstrFuel start str n fuel (4 * k) rv u = .ok (rv, u) := by
  have hn : ¬4 * k < n := by
    unfold hexGroups at hk
    omega
  cases fuel <;> exact if_neg hn

/-- **The walk over the groups**: `k` of them are stored, and it goes on up to the first one that
    can not be. -/
theorem registerSetFromHexstrFuel_eq (hl : Layout t) (hr : AreasInRange t) (hm : MemoryBacked t)
    (hstart : start.toNat + n / 4 < 2 ^ 32) {fuel k : Nat} (hfuel : hexGroups n ≤ k + fuel)
    (hk : k ≤ hexGroups n) {rv : RegisterAccess} (hs : rv.code = .success) :
    ∃ rv' m, registerSetFromHexstrFuel start str n fuel (4 * k) rv
          (t.writing start.toNat k (hexAtom str n))
        = .ok (rv', t.writing start.toNat m (hexAtom str n)) ∧
      (∀ j, k ≤ j → j < m → GroupFits t start.toNat str n j) ∧
      (rv'.code = .success ∧ m = hexGroups n ∨ GroupRefused t start.toNat str n m rv') := by
  induction fuel generalizing k rv with
  | zero =>
    exact ⟨rv, k, registerSetFromHexstrFuel_done hfuel 0 rv _, fun j h1 h2 => by omega,
      .inl ⟨hs, by omega⟩⟩
  | succ fuel ih =>
    rcases Nat.eq_or_lt_of_le hk with he | hlt
    · exact ⟨rv, k, registerSetFromHexstrFuel_done he.ge _ rv _, fun j h1 h2 => by omega,
        .inl ⟨hs, he⟩⟩
    rcases registerSetFromHexstr_pass (hl.writing start.toNat k (hexAtom str n)) hr
      (hm.writing start.toNat k (hexAtom str n)) hstart hlt fuel rv with
      ⟨rv', hrun, href⟩ | ⟨hfits, hrun⟩
    · exact ⟨rv', k, hrun, fun j h1 h2 => by omega, .inr ⟨href.lt, href.code, href.address⟩⟩
    · rw [hrun, writing_hexAtom]
      obtain ⟨rv', m, hrun', hall, hout⟩ :=
        ih (k := k + 1) (by omega) hlt (show regAccessResultInit.code = .success from rfl)
      refine ⟨rv', m, hrun', fun j h1 h2 => ?_, hout⟩
      rcases Nat.eq_or_lt_of_le h1 with rfl | hlt
      · exact ⟨hfits.belongs, hfits.digits⟩
      · exact hall j hlt h2

end Walk

/-! ## 4. The table afterwards -/

/-- **The first `m` groups are stored**, and nothing else has changed. -/
structure GroupsStored (t t' : RegisterTable δ) (start : Nat) (str : Mem Octet) (n m : Nat) :
    Prop where
  /-- The groups are numbers, and their addresses lie in areas. -/
  fits : ∀ k, k < m → GroupFits t start str n k
  /-- Atom `start + k` holds the number that group `k` denotes. -/
  stored : ∀ an c k, an < t.areas → c < (t.area an).size.toNat → k < m →
    (t.area an).base.toNat + c = start + k →
    (t'.mem an c).toNat = hexNumber (hexGroup str n k)
  /-- All other memory is unchanged. -/
  kept : ∀ an c, (∀ k, k < m → ¬(an < t.areas ∧ c < (t.area an).size.toNat ∧
    (t.area an).base.toNat + c = start + k)) → t'.mem an c = t.mem an c
  rest : t' = { t with mem := t'.mem }

theorem hexNumberFrom_lt {l : List Octet} (hl : ∀ c ∈ l, isxdigit c = true) {a : Nat} :
    hexNumberFrom a l < (a + 1) * 16 ^ l.length := by
  induction l generalizing a with
  | nil => simp [hexNumberFrom]
  | cons c l ih =>
    obtain ⟨hc, hrest⟩ := List.forall_mem_cons.mp hl
    have hd := hexDigit_lt hc
    refine lt_of_lt_of_le (ih hrest (a := 16 * a + hexDigit c)) ?_
    rw [List.length_cons, Nat.pow_succ, Nat.mul_comm (16 ^ l.length), ← Nat.mul_assoc]
    exact Nat.mul_le_mul_right _ (by omega)

/-- The number of a group fits an atom. -/
theorem toNat_hexAtom {str : Mem Octet} {n k : Nat}
    (hd : ∀ c ∈ hexGroup str n k, isxdigit c = true) :
    (hexAtom str n k).toNat = hexNumber (hexGroup str n k) := by
  have hlt : hexNumber (hexGroup str n k) < (0 + 1) * 16 ^ (hexGroup str n k).length :=
    hexNumberFrom_lt hd
  have hlen : (hexGroup str n k).length ≤ 4 := by
    unfold hexGroup
    rw [Mem.length_slice]
    exact Nat.min_le_left _ _
  have hpow : 16 ^ (hexGroup str n k).length ≤ 16 ^ 4 := Nat.pow_le_pow_right (by decide) hlen
  unfold hexAtom
  rw [BitVec.toNat_ofNat, Nat.mod_eq_of_lt (by omega)]

theorem groupsStored_writing {t : RegisterTable δ} {start : Nat} {str : Mem Octet} {n m : Nat}
    (hfits : ∀ k, k < m → GroupFits t start str n k) :
    GroupsStored t (t.writing start m (hexAtom str n)) start str n m where
  fits := hfits
  stored := fun an c k han hc hk he => by
    rw [writing_inside han hc (by omega) (by omega), ← toNat_hexAtom (hfits k hk).digits]
    exact congrArg (fun j => (hexAtom str n j).toNat) (by omega)
  kept := fun an c hk => by
    refine writing_outside fun ⟨h1, h2, h3, h4⟩ => ?_
    exact hk ((t.area an).base.toNat + c - start) (by omega) ⟨h1, h2, by omega⟩
  rest := rfl

/-- **`register_set_from_hexstr`** stores the groups of the string in order, up to the first one
    that can not be stored; that one it reports. -/
theorem registerSetFromHexstr_groups {h : Host} {t : RegisterTable δ} (hi : Initialised h t)
    (hr : AreasInRange t) (hm : MemoryBacked t) (start : RegisterAddress) (str : Mem Octet)
    (n : Nat) (hstart : start.toNat + n / 4 < 2 ^ 32) :
    ∃ rv t', registerSetFromHexstr t start str n = .ok (rv, t') ∧
      (rv.code = .success → GroupsStored t t' start.toNat str n (hexGroups n)) ∧
      (rv.code ≠ .success → ∃ k, GroupRefused t start.toNat str n k rv ∧
        GroupsStored t t' start.toNat str n k) := by
  have hgroups : hexGroups n ≤ 0 + n := by
    unfold hexGroups
    omega
  obtain ⟨rv, m, hrun, hall, hout⟩ := registerSetFromHexstrFuel_eq hi.layout hr hm hstart
    hgroups (Nat.zero_le _) (show regAccessResultInit.code = .success from rfl)
  rw [writing_zero] at hrun
  have hstored := groupsStored_writing fun k hk => hall k (Nat.zero_le k) hk
  refine ⟨rv, _, hrun, fun hc => ?_, fun hne => ?_⟩
  · rcases hout with ⟨-, rfl⟩ | href
    · exact hstored
    · rcases href.code with ⟨hcode, -⟩ | ⟨hcode, -⟩ <;>
      · rw [hcode] at hc
        cases hc
  · rcases hout with ⟨hc, -⟩ | href
    · exact absurd hc hne
    · exact ⟨m, href, hstored⟩

/-- The characters `9aBc0`: the second group is one digit. -/
def sampleHexstr : Mem Octet := Mem.ofList 0 [0x39, 0x61, 0x42, 0x63, 0x30]

example : regAtomFromHexstr sampleHexstr 4 = 0x9abc := by decide

theorem registerSetFromHexstr_groups_sample :
    ∃ rv t', registerSetFromHexstr (initialTable lp64Host sampleTable) 1 sampleHexstr 5
        = .ok (rv, t') ∧
      (rv.code = .success →
        GroupsStored (initialTable lp64Host sampleTable) t' 1 sampleHexstr 5 (hexGroups 5)) ∧
      (rv.code ≠ .success →
        ∃ k, GroupRefused (initialTable lp64Host sampleTable) 1 sampleHexstr 5 k rv ∧
          GroupsStored (initialTable lp64Host sampleTable) t' 1 sampleHexstr 5 k) :=
  registerSetFromHexstr_groups (initialised_initialTable (by decide)) sampleTable_inRange.areas
    sampleTable_memoryBacked 1 sampleHexstr 5 (by decide)

end Ufw
