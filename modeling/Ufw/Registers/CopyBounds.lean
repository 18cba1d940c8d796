/-
  File:      Ufw/Registers/CopyBounds.lean
  Subject:   REGISTER TABLE: the copies of `ra_malformed_write` stay in bounds.

  * `inBounds_iff` -- one copy: it is too long where the block begins inside the entry and covers
    its end (`Straddles`), and where the end of the entry wraps (`Wraps`), and nowhere else;
  * `Arrives`, `mem_raMalformedWriteCopies` -- which entries the loop copies to;
  * `raMalformedWrite_inBounds_iff` -- **all copies stay in bounds if and only if no such entry is
    copied to**.

  Nothing is assumed about the table but that `register_init` has accepted it: its areas may have
  methods of their own, and entries may end above `2 ^ 32`.
-/
import Ufw.Registers.Entries

namespace Ufw

open Base

variable {δ : Type} {h : Host}

/-! ## 1. One copy -/

/-- The copy stays in the local array, in the entry and in the block of `n` atoms, and no
    subtraction of its length has wrapped. -/
structure RegisterCopy.InBounds (c : RegisterCopy) (n : RegisterOffset) : Prop where
  array_le : c.rs.toNat + c.rlen.toNat ≤ regSizeofLargestDatum
  entry_le : c.rs.toNat + c.rlen.toNat ≤ c.size.toNat
  block_le : c.bs.toNat + c.rlen.toNat ≤ n.toNat
  exact_eq : c.exact = c.rlen.toNat

/-- The block begins inside the entry and covers its end. -/
def Straddles (e : RegisterEntry) (lo n : Nat) : Prop :=
  e.address.toNat < lo ∧ lo < e.address.toNat + rdsSize e.type ∧
    e.address.toNat + rdsSize e.type ≤ lo + n

/-- The entry ends above `2 ^ 32`, and the block reaches from its wrapped end to its address. -/
def Wraps (e : RegisterEntry) (lo n : Nat) : Prop :=
  lo + 2 ^ 32 < e.address.toNat + rdsSize e.type ∧ e.address.toNat < lo + n

/-- The loop neither skips the entry nor stops at it. -/
def Taken (e : RegisterEntry) (addr : RegisterAddress) (n : RegisterOffset) : Prop :=
  ¬addr > regEntryEnd e ∧ ¬e.address > addr + n - 1

section Lengths

variable {E S A N : Nat}

/-- A copy ends with the entry, unless the block straddles it. -/
theorem copyLength_le_entry (h1 : E < A + N) (h2 : A < E + S) :
    A - E + copyLength E S A N ≤ S ↔ ¬(E < A ∧ A < E + S ∧ E + S ≤ A + N) := by
  unfold copyLength
  split <;> split <;> omega

/-- Then it ends with the block, too. -/
theorem copyLength_le_block (h1 : E < A + N) (h2 : A < E + S)
    (hno : ¬(E < A ∧ A < E + S ∧ E + S ≤ A + N)) : E - A + copyLength E S A N ≤ N := by
  unfold copyLength
  split <;> split <;> omega

end Lengths

section OneCopy

variable {e : RegisterEntry} {addr : RegisterAddress} {n : RegisterOffset}

/-- The end of an entry that wraps. -/
theorem toNat_regEntryEnd_wraps (he : 2 ^ 32 < e.address.toNat + rdsSize e.type) :
    (regEntryEnd e).toNat = e.address.toNat + rdsSize e.type - 1 - 2 ^ 32 := by
  have hs4 : rdsSize e.type ≤ 4 := rdsSize_le e.type
  have hlt := e.address.isLt
  have hsum : (e.address + registerEntrySize e).toNat
      = e.address.toNat + rdsSize e.type - 2 ^ 32 := by
    rw [BitVec.toNat_add, toNat_registerEntrySize]
    omega
  unfold regEntryEnd
  rw [toNat_sub_one (by omega), hsum]
  omega

/-- **The entries the loop takes**: those the block overlaps, and those that wrap. -/
theorem taken_iff (ht : e.type ≠ .invalid) (hn : 0 < n.toNat)
    (hlt : addr.toNat + n.toNat < 2 ^ 32) :
    Taken e addr n ↔ (e.address.toNat + rdsSize e.type ≤ 2 ^ 32 ∧
      e.address.toNat < addr.toNat + n.toNat ∧ addr.toNat < e.address.toNat + rdsSize e.type) ∨
      Wraps e addr.toNat n.toNat := by
  have hs := rdsSize_pos ht
  have hlast := toNat_blockLast hn hlt
  unfold Taken Wraps
  rw [gt_iff_lt, gt_iff_lt, BitVec.not_lt, BitVec.not_lt, BitVec.le_def, BitVec.le_def, hlast]
  rcases Nat.lt_or_ge (2 ^ 32) (e.address.toNat + rdsSize e.type) with hw | hw
  · rw [toNat_regEntryEnd_wraps hw]
    omega
  · rw [toNat_regEntryEnd ht hw]
    omega

/-- The copy for an entry that wraps takes the whole of it, more than the block has. -/
theorem regCopyOf_wraps (hn : 0 < n.toNat) (hlt : addr.toNat + n.toNat < 2 ^ 32)
    (hw : Wraps e addr.toNat n.toNat) : ¬(regCopyOf e addr n).InBounds n := by
  obtain ⟨h1, h2⟩ := hw
  have hs4 : rdsSize e.type ≤ 4 := rdsSize_le e.type
  have hE := e.address.isLt
  have hlast := toNat_blockLast hn hlt
  have hend := toNat_regEntryEnd_wraps (e := e) (by omega)
  have hbs : (e.address - addr).toNat = e.address.toNat - addr.toNat :=
    BitVec.toNat_sub_of_le (BitVec.le_def.mpr (by omega))
  have ha : ¬addr > e.address := by
    rw [gt_iff_lt, BitVec.lt_def]
    omega
  have hb : ¬regEntryEnd e > addr + n - 1 := by
    rw [gt_iff_lt, BitVec.lt_def]
    omega
  intro hin
  have hle := hin.block_le
  unfold regCopyOf at hle
  simp only [if_neg ha, if_neg hb] at hle
  rw [hbs, toNat_registerEntrySize] at hle
  omega

/-- **One copy** stays in bounds unless the block straddles the entry or the entry wraps. -/
theorem inBounds_iff (ht : e.type ≠ .invalid) (hn : 0 < n.toNat)
    (hlt : addr.toNat + n.toNat < 2 ^ 32) (htaken : Taken e addr n) :
    (regCopyOf e addr n).InBounds n ↔
      ¬Straddles e addr.toNat n.toNat ∧ ¬Wraps e addr.toNat n.toNat := by
  rcases (taken_iff ht hn hlt).mp htaken with ⟨he, h1, h2⟩ | hw
  · have hs4 : rdsSize e.type ≤ 4 := rdsSize_le e.type
    have hc := regCopyOf_computes ht he hn hlt h1 h2
    have hno : ¬Wraps e addr.toNat n.toNat := fun ⟨hw, _⟩ => by omega
    rw [and_iff_left hno]
    constructor
    · intro hin
      have hle := hin.entry_le
      rw [hc.rs_eq, hc.rlen_eq, hc.size_eq] at hle
      exact (copyLength_le_entry h1 h2).mp hle
    · intro hno
      have hle := (copyLength_le_entry h1 h2).mpr hno
      refine ⟨?_, ?_, ?_, ?_⟩
      · rw [hc.rs_eq, hc.rlen_eq]
        exact hle.trans hs4
      · rwa [hc.rs_eq, hc.rlen_eq, hc.size_eq]
      · rw [hc.bs_eq, hc.rlen_eq]
        exact copyLength_le_block h1 h2 hno
      · rw [hc.exact_eq, hc.rlen_eq]
  · exact ⟨fun hin => absurd hin (regCopyOf_wraps hn hlt hw), fun ⟨_, hno⟩ => absurd hw hno⟩

end OneCopy

/-! ## 2. The entries the loop copies to -/

section Loop

variable (h : Host) (addr : RegisterAddress) (n : RegisterOffset) (buf : Mem RegisterAtom)

/-- Entry `i` can be read. -/
def Readable (t : RegisterTable δ) (i : Nat) : Prop :=
  ∃ rv raw t', regReadEntry t i h.localAtoms = .ok (rv, raw, t') ∧ rv.code = .success

/-- Entry `i` takes the block: it is read, which leaves the table `t'`, and its deserialiser and its
    validator accept what the block makes of it. -/
def Takes (t : RegisterTable δ) (i : Nat) (t' : RegisterTable δ) : Prop :=
  let c := regCopyOf (t.entry i) addr n
  ∃ rv raw datum, regReadEntry t i h.localAtoms = .ok (rv, raw, t') ∧ rv.code = .success ∧
    (rdsSerdes h (t.entry i).type).des
      (raw.copy c.rs.toNat (buf.shift c.bs.toNat) c.rlen.toNat) (bitIsset t'.flags regTfBigEndian)
      = .ok (datum, true) ∧ rvValidate t' (t.entry i) datum = true

/-- The loop arrives at entry `i`, and by then the table is `u`: the entries before it lie below the
    block, or they take it. -/
inductive Arrives (t : RegisterTable δ) : Nat → RegisterTable δ → Prop where
  | start : Arrives t 0 t
  | skips {i : Nat} {u : RegisterTable δ} (ha : Arrives t i u)
      (hb : addr > regEntryEnd (u.entry i)) : Arrives t (i + 1) u
  | takes {i : Nat} {u u' : RegisterTable δ} (ha : Arrives t i u)
    (htaken : Taken (u.entry i) addr n)
      (hs : Takes h addr n buf u i u') : Arrives t (i + 1) u'

end Loop

section Copies

variable {addr : RegisterAddress} {n : RegisterOffset} {buf : Mem RegisterAtom}
  {t u : RegisterTable δ} {i : Nat}

/-- Reading an entry changes the state of the device at most. -/
theorem regReadEntry_dev {rv : RegisterAccess} {dest raw : Mem RegisterAtom}
    (hread : regReadEntry t i dest = .ok (rv, raw, u)) : u = { t with dev := u.dev } := by
  unfold regReadEntry at hread
  split at hread
  · cases hread
  unfold areaRead at hread
  split at hread
  · cases hread
  · obtain ⟨_, -, hrest⟩ := bind_eq_ok hread
    cases hrest
    rfl
  · cases hread
    rfl

theorem Arrives.dev (ha : Arrives h addr n buf t i u) : u = { t with dev := u.dev } := by
  induction ha with
  | start => rfl
  | skips _ _ ih => exact ih
  | takes _ _ hs ih =>
    obtain ⟨_, _, _, hread, -⟩ := hs
    have hdev := regReadEntry_dev hread
    rw [ih] at hdev
    exact hdev

theorem Arrives.entry (ha : Arrives h addr n buf t i u) : u.entry = t.entry := by rw [ha.dev]

/-- Past an entry below the block. -/
theorem raMalformedWriteFrom_below (hb : addr > regEntryEnd (t.entry i)) (k : Nat)
    (rv : RegisterAccess) :
    raMalformedWriteFrom h addr n buf (k + 1) i rv t
      = raMalformedWriteFrom h addr n buf k (i + 1) rv t := by
  conv_lhs => unfold raMalformedWriteFrom
  simp only [if_pos hb]

/-- The result so far plays no part in the copies. -/
theorem raMalformedWriteFrom_copies (k i : Nat) (rv rv' : RegisterAccess) :
    (raMalformedWriteFrom h addr n buf k i rv t).1
      = (raMalformedWriteFrom h addr n buf k i rv' t).1 := by
  induction k generalizing i with
  | zero => rfl
  | succ k ih =>
    by_cases hb : addr > regEntryEnd (t.entry i)
    · rw [raMalformedWriteFrom_below hb, raMalformedWriteFrom_below hb, ih]
    · unfold raMalformedWriteFrom
      simp only [if_neg hb]
      split <;> rfl

/-- What the loop makes of an entry that can be read: a copy, and the copies behind it if the entry
    takes the block. -/
theorem raMalformedWriteFrom_taken (buf : Mem RegisterAtom) (htaken : Taken (t.entry i) addr n)
    (hread : Readable h t i) (k : Nat) (rv : RegisterAccess) :
    ∃ rest, (raMalformedWriteFrom h addr n buf (k + 1) i rv t).1
        = regCopyOf (t.entry i) addr n :: rest ∧
      ∀ c, c ∈ rest ↔ ∃ t', Takes h addr n buf t i t' ∧
        c ∈ (raMalformedWriteFrom h addr n buf k (i + 1) rv t').1 := by
  obtain ⟨rv', raw, t', hr, hs⟩ := hread
  generalize hrun : raMalformedWriteFrom h addr n buf (k + 1) i rv t = run
  unfold raMalformedWriteFrom at hrun
  simp only [if_neg htaken.1, if_neg htaken.2, hr, hs, ne_eq, not_true_eq_false, if_false] at hrun
  -- there is one result of the reading, so `Takes` is about it
  have hone : ∀ {u}, Takes h addr n buf t i u → u = t' ∧ ∃ datum,
      (rdsSerdes h (t.entry i).type).des (raw.copy (regCopyOf (t.entry i) addr n).rs.toNat
        (buf.shift (regCopyOf (t.entry i) addr n).bs.toNat)
        (regCopyOf (t.entry i) addr n).rlen.toNat) (bitIsset t'.flags regTfBigEndian)
        = .ok (datum, true) ∧ rvValidate t' (t.entry i) datum = true := by
    intro u hu
    obtain ⟨_, _, datum, hr', -, hdes, hval⟩ := hu
    cases hr.symm.trans hr'
    exact ⟨rfl, datum, hdes, hval⟩
  split at hrun
  · rename_i hdes
    refine ⟨[], by rw [← hrun], fun c => ⟨fun hc => (nomatch hc), fun hc => ?_⟩⟩
    obtain ⟨_, htakes, -⟩ := hc
    obtain ⟨-, _, hdes', -⟩ := hone htakes
    cases hdes.symm.trans hdes'
  rename_i datum success hdes
  split at hrun
  · rename_i hno
    refine ⟨[], by rw [← hrun], fun c => ⟨fun hc => (nomatch hc), fun hc => ?_⟩⟩
    obtain ⟨_, htakes, -⟩ := hc
    obtain ⟨-, _, hdes', -⟩ := hone htakes
    cases hdes.symm.trans hdes'
    cases hno
  rename_i hyes
  split at hrun
  · rename_i hno
    refine ⟨[], by rw [← hrun], fun c => ⟨fun hc => (nomatch hc), fun hc => ?_⟩⟩
    obtain ⟨_, htakes, -⟩ := hc
    obtain ⟨-, _, hdes', hval⟩ := hone htakes
    cases hdes.symm.trans hdes'
    cases hno.symm.trans hval
  · rename_i hval
    rw [Bool.not_eq_false] at hyes hval
    subst hyes
    refine ⟨_, by rw [← hrun], fun c => ?_⟩
    rw [raMalformedWriteFrom_copies k (i + 1) rv' rv]
    constructor
    · intro hc
      exact ⟨t', ⟨rv', raw, datum, hr, hs, hdes, hval⟩, hc⟩
    · intro ⟨u, htakes, hc⟩
      obtain ⟨rfl, -⟩ := hone htakes
      exact hc

/-- An entry that cannot be read ends the loop, and so does one above the block. -/
theorem raMalformedWriteFrom_ends (hb : ¬addr > regEntryEnd (t.entry i))
    (hno : ¬(Taken (t.entry i) addr n ∧ Readable h t i)) (k : Nat) (rv : RegisterAccess) :
    (raMalformedWriteFrom h addr n buf (k + 1) i rv t).1 = [] := by
  unfold raMalformedWriteFrom
  simp only [if_neg hb]
  split
  · rfl
  rename_i ha
  split
  · rfl
  · rename_i rv' raw t' hread
    rw [if_pos fun hs => hno ⟨⟨hb, ha⟩, rv', raw, t', hread, hs⟩]

theorem Takes.readable (hs : Takes h addr n buf t i u) : Readable h t i := by
  obtain ⟨rv, raw, _, hread, hcode, -⟩ := hs
  exact ⟨rv, raw, u, hread, hcode⟩

/-- A copy behind an entry the loop arrives at is the copy for such an entry. -/
theorem Arrives.of_mem (k : Nat) {rv : RegisterAccess} {c : RegisterCopy} (hk : i + k = t.entries)
    (ha : Arrives h addr n buf t i u) (hc : c ∈ (raMalformedWriteFrom h addr n buf k i rv u).1) :
    ∃ j v, j < t.entries ∧ Arrives h addr n buf t j v ∧ Taken (t.entry j) addr n ∧
      Readable h v j ∧ c = regCopyOf (t.entry j) addr n := by
  induction k generalizing i u with
  | zero => exact (List.not_mem_nil hc).elim
  | succ k ih =>
    have hentry := ha.entry
    by_cases hb : addr > regEntryEnd (u.entry i)
    · rw [raMalformedWriteFrom_below hb] at hc
      exact ih (by omega) (.skips ha hb) hc
    by_cases htr : Taken (u.entry i) addr n ∧ Readable h u i
    · obtain ⟨htaken, hread⟩ := htr
      obtain ⟨rest, hrest, hiff⟩ := raMalformedWriteFrom_taken buf htaken hread k rv
      rw [hrest] at hc
      cases hc with
      | head =>
        rw [hentry] at htaken ⊢
        exact ⟨i, u, by omega, ha, htaken, hread, rfl⟩
      | tail _ hc =>
        obtain ⟨t', hs, hc⟩ := (hiff c).mp hc
        exact ih (by omega) (.takes ha htaken hs) hc
    · rw [raMalformedWriteFrom_ends hb htr] at hc
      exact (List.not_mem_nil hc).elim

/-- The copies from an entry on the loop arrives at are copies it makes. -/
theorem Arrives.copies_subset (ha : Arrives h addr n buf t i u) (k : Nat) (hk : i + k = t.entries)
    (c : RegisterCopy)
    (hc : c ∈ (raMalformedWriteFrom h addr n buf k i regAccessResultInit u).1) :
    c ∈ raMalformedWriteCopies h t addr n buf := by
  induction ha generalizing k with
  | start =>
    rw [Nat.zero_add] at hk
    subst hk
    exact hc
  | skips _ hb ih =>
    refine ih (k + 1) (by omega) ?_
    rwa [raMalformedWriteFrom_below hb]
  | takes _ htaken hs ih =>
    refine ih (k + 1) (by omega) ?_
    obtain ⟨rest, hrest, hiff⟩ :=
      raMalformedWriteFrom_taken buf htaken hs.readable k regAccessResultInit
    rw [hrest]
    exact .tail _ ((hiff c).mpr ⟨_, hs, hc⟩)

/-- **The copies `ra_malformed_write` makes** are those for the entries it arrives at, takes and can
    read. -/
theorem mem_raMalformedWriteCopies {c : RegisterCopy} :
    c ∈ raMalformedWriteCopies h t addr n buf ↔
      ∃ i u, i < t.entries ∧ Arrives h addr n buf t i u ∧ Taken (t.entry i) addr n ∧
        Readable h u i ∧ c = regCopyOf (t.entry i) addr n := by
  constructor
  · intro hc
    exact Arrives.of_mem t.entries (Nat.zero_add _) .start hc
  · intro ⟨i, u, hi, ha, htaken, hread, hc⟩
    rw [← ha.entry] at htaken hc
    refine ha.copies_subset (t.entries - i - 1 + 1) (by omega) c ?_
    obtain ⟨rest, hrest, -⟩ := raMalformedWriteFrom_taken buf htaken hread
      (t.entries - i - 1) regAccessResultInit
    rw [hrest, hc]
    exact .head _

/-- The loop arrives at an entry the block begins in with the table as it was. -/
theorem Arrives.of_below (buf : Mem RegisterAtom)
    (hb : ∀ j, j < i → addr > regEntryEnd (t.entry j)) :
    Arrives h addr n buf t i t := by
  induction i with
  | zero => exact .start
  | succ i ih =>
    exact .skips (ih fun j hj => hb j (Nat.lt_succ_of_lt hj)) (hb i (Nat.lt_succ_self i))

/-- And in no other way. -/
theorem Arrives.eq_of_below (ha : Arrives h addr n buf t i u)
    (hb : ∀ j, j < i → addr > regEntryEnd (t.entry j)) : u = t := by
  induction ha with
  | start => rfl
  | skips _ _ ih => exact ih fun j hj => hb j (Nat.lt_succ_of_lt hj)
  | @takes i _ _ ha htaken _ _ =>
    rw [ha.entry] at htaken
    exact absurd (hb i (Nat.lt_succ_self i)) htaken.1

end Copies

/-! ## 3. All copies -/

/-- The entries before one that the block begins in lie below the block. -/
theorem Layout.below_of_straddles {t : RegisterTable δ} (hl : Layout t) {i j : Nat}
    (hi : i < t.entries) {addr : RegisterAddress} {n : RegisterOffset}
    (hs : Straddles (t.entry i) addr.toNat n.toNat) (hj : j < i) :
    addr > regEntryEnd (t.entry j) := by
  have hlt := (t.entry i).address.isLt
  have hasc := hl.entriesAscending.stop_le hj hi
  have hend := toNat_regEntryEnd (hl.typed j (by omega)) (hasc.trans hlt.le)
  have hpos := rdsSize_pos (hl.typed j (by omega))
  have h1 := hs.1
  rw [gt_iff_lt, BitVec.lt_def, hend]
  omega

/-- **All copies of `ra_malformed_write` stay in bounds** if and only if the block straddles no
    entry that can be read, and the loop arrives at no entry that wraps and can be read. -/
theorem raMalformedWrite_inBounds_iff {t : RegisterTable δ} (hinit : Initialised h t)
    {addr : RegisterAddress} {n : RegisterOffset} (hn : n ≠ 0) (buf : Mem RegisterAtom)
    (_ : (raWriteable t addr n).code = .success) {rv : RegisterAccess}
    (hhole : registerBlockTouchesHole t addr n = .ok rv) (hs : rv.code = .success) :
    (∀ c ∈ raMalformedWriteCopies h t addr n buf, c.InBounds n) ↔
      (∀ i, i < t.entries → Straddles (t.entry i) addr.toNat n.toNat → ¬Readable h t i) ∧
      (∀ i u, i < t.entries → Wraps (t.entry i) addr.toNat n.toNat →
        Arrives h addr n buf t i u → ¬Readable h u i) := by
  have hl := hinit.layout
  have hpos : 0 < n.toNat := Nat.pos_of_ne_zero fun he => hn (BitVec.eq_of_toNat_eq he)
  obtain ⟨rv', hrun, hiff⟩ := registerBlockTouchesHole_eq t addr n
  cases hhole.symm.trans hrun
  obtain ⟨hlt, -⟩ := hiff.mp hs
  constructor
  · intro hall
    refine ⟨fun i hi hstr hread => ?_, fun i u hi hw ha hread => ?_⟩
    · have ht := hl.typed i hi
      have hE : (t.entry i).address.toNat + rdsSize (t.entry i).type ≤ 2 ^ 32 :=
        hstr.2.2.trans hlt.le
      have htaken := (taken_iff ht hpos hlt).mpr
        (.inl ⟨hE, Nat.lt_of_lt_of_le hstr.1 (Nat.le_add_right _ _), hstr.2.1⟩)
      have ha : Arrives h addr n buf t i t :=
        Arrives.of_below buf fun j hj => hl.below_of_straddles hi hstr hj
      have hc := hall _ (mem_raMalformedWriteCopies.mpr ⟨i, t, hi, ha, htaken, hread, rfl⟩)
      exact ((inBounds_iff ht hpos hlt htaken).mp hc).1 hstr
    · have htaken := (taken_iff (hl.typed i hi) hpos hlt).mpr (.inr hw)
      have hc := hall _ (mem_raMalformedWriteCopies.mpr ⟨i, u, hi, ha, htaken, hread, rfl⟩)
      exact regCopyOf_wraps hpos hlt hw hc
  · intro ⟨hstr, hwrap⟩ c hc
    obtain ⟨i, u, hi, ha, htaken, hread, rfl⟩ := mem_raMalformedWriteCopies.mp hc
    refine (inBounds_iff (hl.typed i hi) hpos hlt htaken).mpr ⟨fun hs => ?_, fun hw => ?_⟩
    · obtain rfl := ha.eq_of_below fun j hj => hl.below_of_straddles hi hs hj
      exact hstr i hi hs hread
    · exact hwrap i u hi hw ha hread

theorem raMalformedWrite_inBounds_iff_sample :
    RegisterCopy.InBounds ⟨4, 1, 0, 2, 2⟩ 3 := by
  have hhole : registerBlockTouchesHole (initialTable lp64Host sampleTable) 1 3
      = .ok regAccessResultInit := rfl
  refine (raMalformedWrite_inBounds_iff (initialised_initialTable (by decide)) (by decide)
    (Mem.ofList 0 [5, 6, 7]) (by decide) hhole rfl).mpr ⟨?_, ?_⟩ _ (by decide)
  · unfold Straddles
    exact fun i hi hs => absurd hs (by revert i; decide)
  · unfold Wraps
    exact fun i _ hi hw => absurd hw (by revert i; decide)

/-- Three atoms from the second atom of the register of four on: four atoms are copied, the last one
    from behind the block to behind the local array. -/
theorem raMalformedWrite_overrun :
    ¬∀ (t : RegisterTable Unit) (addr : RegisterAddress) (n : RegisterOffset)
      (buf : Mem RegisterAtom), Initialised lp64Host t → n ≠ 0 →
      (raWriteable t addr n).code = .success →
      registerBlockTouchesHole t addr n = .ok regAccessResultInit →
      ∀ c ∈ raMalformedWriteCopies lp64Host t addr n buf, c.InBounds n := by
  intro hall
  have hc := hall (initialTable lp64Host sampleTable) 3 3 (Mem.ofList 0 [5, 6, 7])
    (initialised_initialTable (by decide)) (by decide) (by decide) rfl
    ⟨4, 0, 1, 4, 4⟩ (by decide)
  exact absurd hc.array_le (by decide)

end Ufw
