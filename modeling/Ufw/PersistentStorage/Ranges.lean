/-
  File:      Ufw/PersistentStorage/Ranges.lean
  Subject:   PERSISTENT STORAGE: the addresses partial fetches and stores access.

  * `BlockAccess.within` -- a medium whose callbacks stop the program where they are asked for an
    address that is not allowed;
  * `FetchesInside`, `StoresInside` -- on every medium a request stays inside its section, and one
    that does not fit is refused without any access;
  * `SumFits`, `FetchProper`, `StoreProper` -- no sum the request makes wraps to a number that looks
    right;
  * `parts_inside_iff` -- **requests stay inside exactly where no sum wraps so**: `offset + n` is
    compared in `size_t` with the size of the data, and what wraps is accepted.
-/
import Ufw.PersistentStorage

namespace Ufw

open Base

variable {μ : Type}

/-! ## 1. Guarded media -/

/-- **A medium that is watched**: a read or a write that touches an address that is not allowed
    stops the program. -/
def BlockAccess.within (block : BlockAccess μ) (allowed : Nat → Prop) [DecidablePred allowed] :
    BlockAccess μ where
  read m address n := do
    require (∀ i, i < n → allowed (address.toNat + i))
    block.read m address n
  write m address l := do
    require (∀ i, i < l.length → allowed (address.toNat + i))
    block.write m address l

/-- Callbacks that return. -/
structure BlockAccess.Total (block : BlockAccess μ) : Prop where
  read : ∀ m address n, ∃ r, block.read m address n = .ok r
  write : ∀ m address l, ∃ r, block.write m address l = .ok r

/-- An instance on another medium. -/
abbrev PersistentStorage.on (store : PersistentStorage μ) (block : BlockAccess μ) :
    PersistentStorage μ := { store with block }

/-- The addresses of the data. -/
def PersistentStorage.InData (store : PersistentStorage μ) (i : Nat) : Prop :=
  store.dataAddress.toNat ≤ i ∧ i < store.dataAddress.toNat + store.dataSize

/-- The addresses of the data and those of the checksum. -/
def PersistentStorage.InSection (store : PersistentStorage μ) (i : Nat) : Prop :=
  store.InData i ∨ store.checksumAddress.toNat ≤ i ∧
    i < store.checksumAddress.toNat + checksumSize store.type

instance (store : PersistentStorage μ) : DecidablePred store.InData := fun _ =>
  inferInstanceAs (Decidable (_ ∧ _))

instance (store : PersistentStorage μ) : DecidablePred store.InSection := fun _ =>
  inferInstanceAs (Decidable (_ ∨ _))

/-- **A fetch stays inside the data**, on every medium, and is refused where it does not fit
    them. -/
def FetchesInside (store : PersistentStorage μ) (offset n : Nat) : Prop :=
  ∀ (block : BlockAccess μ) (m : μ), block.Total →
    persistentFetchPart (store.on (block.within store.InData)) m offset n ≠ .error .fault ∧
    (store.dataSize < offset + n →
      persistentFetchPart (store.on (block.within store.InData)) m offset n =
        .ok (.error .addressOutOfRange, m))

/-- **A store stays inside the section**, on every medium, and is refused where it does not fit the
    data. -/
def StoresInside (h : Host) (store : PersistentStorage μ) (offset n : Nat) : Prop :=
  ∀ (block : BlockAccess μ) (m : μ) (src : Mem Octet) (fuel : Nat), block.Total →
    persistentStorePart h fuel (store.on (block.within store.InSection)) m src offset n ≠
      .error .fault ∧
    (store.dataSize < offset + n →
      persistentStorePart h fuel (store.on (block.within store.InSection)) m src offset n =
        .ok (.addressOutOfRange, m))

/-! ## 2. Sums -/

/-- The sum of the arguments does not wrap to a number that is no larger than the data. -/
def SumFits (store : PersistentStorage μ) (offset n : Nat) : Prop :=
  offset + n < 2 ^ 64 ∨ store.dataSize < offset + n - 2 ^ 64

/-- Where the `k`-th octet of the data is looked for, in 32-bit arithmetic. -/
def dataAt (store : PersistentStorage μ) (k : Nat) : Nat :=
  (store.dataAddress + BitVec.ofNat 32 k).toNat

/-- The lower end of a section. -/
def PersistentStorage.low (store : PersistentStorage μ) : Nat :=
  min store.checksumAddress.toNat store.dataAddress.toNat

/-- A fetch none of whose sums wraps. -/
def FetchProper (store : PersistentStorage μ) (offset n : Nat) : Prop :=
  SumFits store offset n ∧
  (offset + n ≤ store.dataSize → 0 < n → store.dataAddress.toNat ≤ dataAt store offset)

/-- A store none of whose sums wraps: neither that of its arguments, nor the address it writes to,
    nor those of the pieces that are read for the checksum. -/
def StoreProper (store : PersistentStorage μ) (offset n : Nat) : Prop :=
  SumFits store offset n ∧
  (offset + n ≤ store.dataSize →
    (0 < n → store.low ≤ dataAt store offset) ∧
    (¬(offset = 0 ∧ n = store.dataSize) → ∀ j, j * store.buffer.getD 1 < store.dataSize →
      store.low ≤ dataAt store (j * store.buffer.getD 1)))

section Sums

variable {store : PersistentStorage μ} {offset n k : Nat}

theorem dataAt_eq (store : PersistentStorage μ) (k : Nat) :
    dataAt store k = (store.dataAddress.toNat + k) % 2 ^ 32 := by
  rw [dataAt, BitVec.toNat_add, BitVec.toNat_ofNat]
  omega

theorem dataAt_le (store : PersistentStorage μ) (k : Nat) :
    dataAt store k ≤ store.dataAddress.toNat + k := by
  rw [dataAt_eq]
  exact Nat.mod_le _ _

/-- The data begin behind the checksum, or address 0 lies in between. -/
theorem PersistentStorage.dataAddress_cases (store : PersistentStorage μ) :
    store.dataAddress.toNat = store.checksumAddress.toNat + checksumSize store.type ∨
    store.dataAddress.toNat < store.checksumAddress.toNat := by
  have hsize : checksumSize store.type ≤ 4 := by cases store.type <;> decide
  have hlt := store.checksumAddress.isLt
  rw [store.dataAddress_eq, BitVec.toNat_add, BitVec.toNat_ofNat]
  omega

/-- **A range of the data** lies inside them where its address does not wrap. -/
theorem inData_iff (h0 : 0 < n) (hfit : k + n ≤ store.dataSize) :
    (∀ i, i < n → store.InData (dataAt store k + i)) ↔
      store.dataAddress.toNat ≤ dataAt store k := by
  have hle := dataAt_le store k
  refine ⟨fun hall => (hall 0 h0).1, fun hlow i hi => ⟨by omega, by omega⟩⟩

/-- The same for the section. -/
theorem inSection_iff (h0 : 0 < n) (hfit : k + n ≤ store.dataSize) :
    (∀ i, i < n → store.InSection (dataAt store k + i)) ↔ store.low ≤ dataAt store k := by
  have hle := dataAt_le store k
  have hcases := store.dataAddress_cases
  unfold PersistentStorage.low
  constructor
  · intro hall
    rcases hall 0 h0 with hdata | hsum
    · exact le_trans (Nat.min_le_right _ _) hdata.1
    · exact le_trans (Nat.min_le_left _ _) hsum.1
  · intro hlow i hi
    rcases Nat.lt_or_ge (dataAt store k + i) store.dataAddress.toNat with hlt | hge
    · exact .inr ⟨by omega, by omega⟩
    · exact .inl ⟨hge, by omega⟩

/-- Arguments whose sum does not wrap so are compared with the size of the data as they are. -/
theorem SumFits.not_lt_iff (hs : SumFits store offset n) (ho : offset < 2 ^ 64) (hn : n < 2 ^ 64) :
    ¬ store.dataSize < sizeAdd offset n ↔ offset + n ≤ store.dataSize := by
  have hlt := store.dataSize_lt
  unfold SumFits at hs
  rw [sizeAdd_mod]
  omega

theorem not_sumFits (ho : offset < 2 ^ 64) (hn : n < 2 ^ 64) (hs : ¬ SumFits store offset n) :
    store.dataSize < offset + n ∧ ¬ store.dataSize < sizeAdd offset n := by
  have hlt := store.dataSize_lt
  unfold SumFits at hs
  rw [sizeAdd_mod]
  omega

/-- **In a section that lies inside the address space only the sum of the arguments can wrap.** -/
theorem storeProper_iff_of_inside {capacity : Nat} (hin : store.Inside capacity) :
    StoreProper store offset n ↔ SumFits store offset n := by
  have hwrap := hin.noWrap
  have hdata := hin.dataAddress
  have hlow : ∀ k, k < store.dataSize → store.low ≤ dataAt store k := by
    intro k hk
    unfold PersistentStorage.low
    rw [dataAt_eq, Nat.mod_eq_of_lt (by omega)]
    omega
  exact ⟨fun h => h.1, fun h => ⟨h, fun hfit => ⟨fun h0 => hlow _ (by omega), fun _ j hj =>
    hlow _ hj⟩⟩⟩

end Sums

/-! ## 3. Fetches -/

/-- A medium that takes everything and holds nothing but zeros. -/
def blankBlock : BlockAccess μ where
  read m _ n := .ok (List.replicate n 0, m)
  write m _ l := .ok (l.length, m)

theorem blankBlock_total : (blankBlock : BlockAccess μ).Total :=
  ⟨fun _ _ _ => ⟨_, rfl⟩, fun _ _ _ => ⟨_, rfl⟩⟩

section Requests

variable {store : PersistentStorage μ} {offset n : Nat} {allowed : Nat → Prop}
  [DecidablePred allowed] {block : BlockAccess μ}

/-- What is behind a guard is reached only if the guard holds. -/
theorem guard_of_ne_fault {α β : Type} {b : Prop} [Decidable b] {x : Exec α} {f : α → Exec β}
    (h : (do require b; x) >>= f ≠ .error .fault) : b := by
  by_contra hb
  rw [require_neg hb] at h
  exact h rfl

theorem fetchPart_refused (hlt : store.dataSize < sizeAdd offset n) (m : μ) :
    persistentFetchPart (store.on block) m offset n = .ok (.error .addressOutOfRange, m) :=
  if_pos hlt

/-- A request that is accepted asks the medium at once. -/
theorem fetchPart_accepted (hlt : ¬ store.dataSize < sizeAdd offset n) (m : μ) :
    persistentFetchPart (store.on (block.within allowed)) m offset n =
      (do
        require (∀ i, i < n → allowed (dataAt store offset + i))
        block.read m (store.dataAddress + BitVec.ofNat 32 offset) n) >>=
      fun r => .ok (if r.1.length = n then .ok r.1 else .error .ioError, r.2) :=
  if_neg hlt

/-- **A fetch stays inside the data exactly where none of its sums wraps.** -/
theorem fetchesInside_iff [Nonempty μ] (ho : offset < 2 ^ 64) (hn : n < 2 ^ 64) :
    FetchesInside store offset n ↔ FetchProper store offset n := by
  constructor
  · intro hin
    obtain ⟨m⟩ := ‹Nonempty μ›
    obtain ⟨hsafe, hrefused⟩ := hin blankBlock m blankBlock_total
    have hfits : SumFits store offset n := by
      by_contra hs
      obtain ⟨hout, hlt⟩ := not_sumFits ho hn hs
      rw [fetchPart_accepted hlt] at hsafe hrefused
      rw [require_pos (guard_of_ne_fault hsafe)] at hrefused
      have hans := hrefused hout
      simp [blankBlock] at hans
    refine ⟨hfits, fun hfit h0 => ?_⟩
    rw [fetchPart_accepted ((hfits.not_lt_iff ho hn).mpr hfit)] at hsafe
    exact (inData_iff h0 hfit).mp (guard_of_ne_fault hsafe)
  · rintro ⟨hfits, haddr⟩ block m htotal
    by_cases hlt : store.dataSize < sizeAdd offset n
    · rw [fetchPart_refused hlt]
      exact ⟨fun h => (by cases h), fun _ => rfl⟩
    · have hfit := (hfits.not_lt_iff ho hn).mp hlt
      refine ⟨?_, fun hout => absurd hout (not_lt.mpr hfit)⟩
      have hguard : ∀ i, i < n → store.InData (dataAt store offset + i) := by
        rcases Nat.eq_zero_or_pos n with rfl | h0
        · exact fun i hi => absurd hi (Nat.not_lt_zero i)
        · exact (inData_iff h0 hfit).mpr (haddr hfit h0)
      obtain ⟨r, hread⟩ := htotal.read m (store.dataAddress + BitVec.ofNat 32 offset) n
      rw [fetchPart_accepted hlt, require_pos hguard, ok_bind, hread, ok_bind]
      exact fun h => nomatch h

/-! ## 4. Stores -/

theorem storePart_refused (h : Host) (fuel : Nat) (hlt : store.dataSize < sizeAdd offset n) (m : μ)
    (src : Mem Octet) : persistentStorePart h fuel (store.on block) m src offset n =
      .ok (.addressOutOfRange, m) := if_pos hlt

/-- What a store does behind its write. -/
def storeChecksumOf (h : Host) (fuel : Nat) (store : PersistentStorage μ) (src : Mem Octet)
    (offset n : Nat) (r : Nat × μ) : Exec (PersistentAccess × μ) :=
  if r.1 ≠ n then .ok (.ioError, r.2)
  else if offset = 0 ∧ n = store.dataSize then
    persistentStoreChecksum h store r.2 (persistentChecksum store src)
  else do
    match ← persistentCalculateChecksum fuel store r.2 with
    | (.error access, m) => .ok (access, m)
    | (.ok sum, m) => persistentStoreChecksum h store m sum

theorem storePart_accepted (h : Host) (fuel : Nat) (hlt : ¬ store.dataSize < sizeAdd offset n)
    (m : μ) (src : Mem Octet) :
    persistentStorePart h fuel (store.on (block.within allowed)) m src offset n =
      (do
        require (∀ i, i < (src.slice 0 n).length → allowed (dataAt store offset + i))
        block.write m (store.dataAddress + BitVec.ofNat 32 offset) (src.slice 0 n)) >>=
      storeChecksumOf h fuel (store.on (block.within allowed)) src offset n :=
  if_neg hlt

theorem storeChecksum_on (h : Host) (m : μ) (sum : PersistentChecksum store.type) :
    persistentStoreChecksum h (store.on (block.within allowed)) m sum =
      (do
        require (∀ i, i < (bfSetN h (checksumSize store.type) sum).length →
          allowed (store.checksumAddress.toNat + i))
        block.write m store.checksumAddress (bfSetN h (checksumSize store.type) sum)) >>=
      fun r => .ok (if r.1 ≠ checksumSize store.type then .ioError else .success, r.2) := rfl

/-- The checksum is written to its own addresses. -/
theorem storeChecksum_inside (h : Host) (htotal : block.Total) (m : μ)
    (sum : PersistentChecksum store.type) :
    persistentStoreChecksum h (store.on (block.within store.InSection)) m sum ≠ .error .fault := by
  have hguard : ∀ i, i < (bfSetN h (checksumSize store.type) sum).length →
      store.InSection (store.checksumAddress.toNat + i) := by
    intro i hi
    rw [length_bfSetN] at hi
    exact .inr ⟨Nat.le_add_right _ _, Nat.add_lt_add_left hi _⟩
  obtain ⟨r, hwrite⟩ := htotal.write m store.checksumAddress
    (bfSetN h (checksumSize store.type) sum)
  rw [storeChecksum_on, require_pos hguard, ok_bind, hwrite, ok_bind]
  exact fun h => nomatch h

/-- The loop begins with a read of the piece it is at. -/
theorem calculateChecksumLoop_on (bsize fuel : Nat) {rest : Nat} (h0 : 0 < rest) (k : Nat)
    (value : PersistentChecksum store.type) (m : μ) :
    calculateChecksumLoop (store.on (block.within allowed)) bsize (fuel + 1) rest
        (store.dataAddress + BitVec.ofNat 32 k) value m =
      (do
        require (∀ i, i < min bsize rest → allowed (dataAt store k + i))
        block.read m (store.dataAddress + BitVec.ofNat 32 k) (min bsize rest)) >>= fun r =>
      if r.1.length ≠ min bsize rest then .ok (.error .ioError, r.2)
      else calculateChecksumLoop (store.on (block.within allowed)) bsize fuel
        (rest - min bsize rest)
        (store.dataAddress + BitVec.ofNat 32 (k + min bsize rest))
        (store.process r.1 value) r.2 := by
  have hmin : (if bsize < rest then bsize else rest) = min bsize rest := by
    split <;> omega
  refine (if_neg h0.ne').trans ?_
  rw [hmin, BitVec.ofNat_add, ← BitVec.add_assoc]
  rfl

/-- **The pieces read for the checksum lie inside the section** where none of their addresses
    wraps. -/
theorem calculateChecksumLoop_inside (htotal : block.Total) {bsize : Nat}
    (hpieces : ∀ j, j * bsize < store.dataSize → store.low ≤ dataAt store (j * bsize))
    (fuel : Nat) :
    ∀ {rest k : Nat} (value : PersistentChecksum store.type) (m : μ), k + rest = store.dataSize →
    (0 < rest → ∃ j, k = j * bsize) →
    calculateChecksumLoop (store.on (block.within store.InSection)) bsize fuel rest
      (store.dataAddress + BitVec.ofNat 32 k) value m ≠ .error .fault := by
  induction fuel with
  | zero => exact fun _ _ _ _ h => by cases h
  | succ fuel ih =>
    intro rest k value m hk hstart
    rcases Nat.eq_zero_or_pos rest with rfl | h0
    · exact fun h => by cases h
    · obtain ⟨j, rfl⟩ := hstart h0
      have hguard : ∀ i, i < min bsize rest → store.InSection (dataAt store (j * bsize) + i) := by
        intro i hi
        exact (inSection_iff (n := min bsize rest) (by omega) (by omega)).mpr
          (hpieces j (by omega)) i hi
      obtain ⟨r, hread⟩ := htotal.read m (store.dataAddress + BitVec.ofNat 32 (j * bsize))
        (min bsize rest)
      rw [calculateChecksumLoop_on bsize fuel h0, require_pos hguard, ok_bind, hread, ok_bind]
      split
      · exact fun h => nomatch h
      · refine ih _ _ (by omega) fun hmore => ⟨j + 1, ?_⟩
        rw [Nat.succ_mul, Nat.min_eq_left (by omega)]

/-- **Every piece is read**, where the medium answers and no piece before it lies outside. -/
theorem calculateChecksumLoop_piece {bsize : Nat} (d : Nat) :
    ∀ {i : Nat} (value : PersistentChecksum store.type) (m : μ),
    (i + d) * bsize < store.dataSize →
    calculateChecksumLoop (store.on (blankBlock.within store.InSection)) bsize (d + 1)
      (store.dataSize - i * bsize) (store.dataAddress + BitVec.ofNat 32 (i * bsize)) value m ≠
      .error .fault →
    store.low ≤ dataAt store ((i + d) * bsize) := by
  induction d with
  | zero =>
    intro i value m hlt hsafe
    rw [Nat.add_zero] at hlt ⊢
    rw [calculateChecksumLoop_on bsize 0 (by omega)] at hsafe
    have hguard := guard_of_ne_fault hsafe
    rcases Nat.eq_zero_or_pos bsize with rfl | hpos
    · -- pieces of no octets: there is one only, where the data begin
      unfold PersistentStorage.low
      rw [Nat.mul_zero, dataAt_eq, Nat.add_zero, Nat.mod_eq_of_lt store.dataAddress.isLt]
      exact Nat.min_le_right _ _
    · exact (inSection_iff (n := min bsize (store.dataSize - i * bsize)) (by omega) (by omega)).mp
        hguard
  | succ d ih =>
    intro i value m hlt hsafe
    have hstep : (i + (d + 1)) * bsize = (i + 1 + d) * bsize := by
      rw [Nat.add_comm d 1, Nat.add_assoc]
    have hle : (i + 1) * bsize ≤ (i + 1 + d) * bsize :=
      Nat.mul_le_mul_right _ (Nat.le_add_right _ _)
    rw [Nat.succ_mul] at hle
    rw [hstep] at hlt ⊢
    have hmin : min bsize (store.dataSize - i * bsize) = bsize := Nat.min_eq_left (by omega)
    have hrest : store.dataSize - i * bsize - bsize = store.dataSize - (i + 1) * bsize := by
      rw [Nat.succ_mul, Nat.sub_sub]
    rw [calculateChecksumLoop_on bsize (d + 1) (by omega), hmin, hrest] at hsafe
    rw [require_pos (guard_of_ne_fault hsafe)] at hsafe
    simp only [blankBlock, ok_bind, List.length_replicate, ne_eq, not_true_eq_false, if_false,
      ← Nat.succ_mul] at hsafe
    exact ih _ m hlt hsafe

/-- **A store stays inside its section exactly where none of its sums wraps.** -/
theorem storesInside_iff (h : Host) [Nonempty μ] (ho : offset < 2 ^ 64) (hn : n < 2 ^ 64) :
    StoresInside h store offset n ↔ StoreProper store offset n := by
  constructor
  · intro hin
    obtain ⟨m⟩ := ‹Nonempty μ›
    have hsafe := fun fuel => (hin blankBlock m (fun _ => 0) fuel blankBlock_total).1
    have hrefused := (hin blankBlock m (fun _ => 0) 0 blankBlock_total).2
    have hfits : SumFits store offset n := by
      by_contra hs
      obtain ⟨hout, hlt⟩ := not_sumFits ho hn hs
      have hpart : ¬(offset = 0 ∧ n = store.dataSize) := by omega
      have hans := hrefused hout
      have hguard := hsafe 0
      rw [storePart_accepted h 0 hlt] at hans hguard
      rw [require_pos (guard_of_ne_fault hguard)] at hans
      simp only [blankBlock, ok_bind, storeChecksumOf, Mem.length_slice, ne_eq, not_true_eq_false,
        if_false, if_neg hpart, persistentCalculateChecksum, calculateChecksumLoop,
        error_bind, reduceCtorEq] at hans
    refine ⟨hfits, fun hfit => ?_⟩
    have hlt := (hfits.not_lt_iff ho hn).mpr hfit
    have hguard := hsafe 0
    rw [storePart_accepted h 0 hlt] at hguard
    have hwrite := guard_of_ne_fault hguard
    refine ⟨fun h0 => (inSection_iff h0 hfit).mp (by rwa [Mem.length_slice] at hwrite), ?_⟩
    intro hpart j hj
    have hpieces := hsafe (j + 1)
    rw [storePart_accepted h (j + 1) hlt, require_pos hwrite] at hpieces
    simp only [blankBlock, ok_bind, storeChecksumOf, Mem.length_slice, ne_eq, not_true_eq_false,
      if_false, if_neg hpart] at hpieces
    have hloop : persistentCalculateChecksum (j + 1)
        (store.on (blankBlock.within store.InSection)) m ≠ .error .fault := by
      intro hfault
      apply hpieces
      exact (congrArg (· >>= _) hfault)
    have hpiece := calculateChecksumLoop_piece j (i := 0) store.initial m (by rwa [Nat.zero_add])
    rw [Nat.zero_mul, Nat.zero_add, Nat.sub_zero, show BitVec.ofNat 32 0 = 0#32 from rfl,
      BitVec.add_zero] at hpiece
    exact hpiece hloop
  · rintro ⟨hfits, haddr⟩ block m src fuel htotal
    by_cases hlt : store.dataSize < sizeAdd offset n
    · rw [storePart_refused h fuel hlt]
      exact ⟨fun h => (by cases h), fun _ => rfl⟩
    · have hfit := (hfits.not_lt_iff ho hn).mp hlt
      obtain ⟨hwrite, hpieces⟩ := haddr hfit
      refine ⟨?_, fun hout => absurd hout (not_lt.mpr hfit)⟩
      have hguard :
          ∀ i, i < (src.slice 0 n).length → store.InSection (dataAt store offset + i) := by
        rw [Mem.length_slice]
        rcases Nat.eq_zero_or_pos n with rfl | h0
        · exact fun i hi => absurd hi (Nat.not_lt_zero i)
        · exact (inSection_iff h0 hfit).mpr (hwrite h0)
      obtain ⟨r, hret⟩ :=
        htotal.write m (store.dataAddress + BitVec.ofNat 32 offset) (src.slice 0 n)
      rw [storePart_accepted h fuel hlt, require_pos hguard, ok_bind, hret, ok_bind,
        storeChecksumOf]
      split
      · intro h
        cases h
      · split
        · exact storeChecksum_inside h htotal _ _
        · rename_i hpart
          refine bind_ne_error ?_ ?_
          · have hloop := calculateChecksumLoop_inside htotal (hpieces hpart) fuel (k := 0)
              store.initial r.2 (Nat.zero_add _) fun _ => ⟨0, (Nat.zero_mul _).symm⟩
            rwa [show BitVec.ofNat 32 0 = 0#32 from rfl, BitVec.add_zero] at hloop
          · rintro ⟨access | sum, m'⟩ -
            · intro h
              cases h
            · exact storeChecksum_inside h htotal _ _

end Requests

/-! ## 5. Both -/

/-- **Partial fetches and stores stay inside their section exactly where no sum they make wraps**: a
    fetch inside the data, a store inside the data and the checksum; and what does not fit the data
    is refused without any access. -/
theorem parts_inside_iff (h : Host) [Nonempty μ] (store : PersistentStorage μ) (offset n : SizeT) :
    (FetchesInside store offset n ↔ FetchProper store offset n) ∧
    (StoresInside h store offset n ↔ StoreProper store offset n) :=
  ⟨fetchesInside_iff offset.isLt n.isLt, storesInside_iff h offset.isLt n.isLt⟩

/-- Eight octets of data behind a checksum at address 8. -/
def neighbourStore : PersistentStorage Unit := persistentPlace (persistentInit 8 blankBlock) 8

theorem parts_inside_iff_sample :
    (FetchesInside neighbourStore (4 : SizeT) (2 : SizeT) ↔
      FetchProper neighbourStore (4 : SizeT) (2 : SizeT)) ∧
    (StoresInside lp64Host neighbourStore (4 : SizeT) (2 : SizeT) ↔
      StoreProper neighbourStore (4 : SizeT) (2 : SizeT)) :=
  parts_inside_iff lp64Host neighbourStore 4 2

/-- **A neighbour is overwritten**: an offset of -4 and a length of 6 add up to 2. -/
theorem not_storesInside_neighbour :
    ¬ ∀ (store : PersistentStorage Unit) (offset n : SizeT),
      FetchesInside store offset n ∧ StoresInside lp64Host store offset n := by
  intro hall
  have hin := (hall neighbourStore (Fin.ofNat _ (2 ^ 64 - 4)) 6).2
  have hfits := ((storesInside_iff lp64Host (Fin.isLt _) (Fin.isLt _)).mp hin).1
  revert hfits
  unfold SumFits
  decide

end Ufw
