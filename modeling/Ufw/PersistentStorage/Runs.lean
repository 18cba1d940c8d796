/-
  File:      Ufw/PersistentStorage/Runs.lean
  Subject:   PERSISTENT STORAGE over runs of partial stores, on a medium that keeps what is stored.

  * `Stored` -- the medium holds a datum, and the checksum of it;
  * `persistentStorePart_stored` -- **a store leaves the data with the part replaced, and their
    checksum**, whichever of the two ways the checksum is taken;
  * `persistentCalls` -- a run of partial stores, the auxiliary buffer changing in between;
  * `persistentStore_keeps` -- **what is stored stays valid**, and is what was stored with the later
    parts laid over it; nothing outside the section changes.
-/
import Ufw.PersistentStorage

namespace Ufw

open Base

variable {μ : Type}

/-! ## 1. One store -/

/-- **The medium holds a datum, and the checksum of it.** -/
structure Stored (h : Host) (cells : μ → Mem Octet) (store : PersistentStorage μ)
    (datum : List Octet) (m : μ) : Prop where
  data : (cells m).slice store.dataAddress.toNat store.dataSize = datum
  checksum : (cells m).slice store.checksumAddress.toNat (checksumSize store.type) =
    bfSetN h (checksumSize store.type) (store.process datum store.initial)

/-- Cells outside of a section stay as they are. -/
def SameOutside (store : PersistentStorage μ) (before after : Mem Octet) : Prop :=
  ∀ i, i < store.checksumAddress.toNat ∨
    store.checksumAddress.toNat + checksumSize store.type + store.dataSize ≤ i → after i = before i

/-- What an instance needs of its medium, its checksum and its buffer. -/
structure PersistentStorage.Ready (cells : μ → Mem Octet) (capacity : Nat)
    (store : PersistentStorage μ) : Prop where
  faithful : store.block.Faithful cells capacity
  inside : store.Inside capacity
  compositional : Compositional store.process
  empty : store.dataSize = 0 → store.process [] store.initial = store.initial
  buffer : ∀ k, store.buffer = some k → 0 < k

section Store

variable {h : Host} {cells : μ → Mem Octet} {capacity : Nat} {store : PersistentStorage μ}
  {offset n : Nat} {datum : List Octet} {m : μ}

/-- The checksum is written in front of the data. -/
theorem persistentStoreChecksum_faithful (hr : store.Ready cells capacity)
    (sum : PersistentChecksum store.type) (m : μ) : ∃ m',
    persistentStoreChecksum h store m sum = .ok (.success, m') ∧
    cells m' = (cells m).store store.checksumAddress.toNat
      (bfSetN h (checksumSize store.type) sum) := by
  have hfits := hr.inside.fits
  obtain ⟨m', hwrite, hcells⟩ := hr.faithful.write m store.checksumAddress
    (bfSetN h (checksumSize store.type) sum) (by rw [length_bfSetN]; omega)
  refine ⟨m', ?_, hcells⟩
  simp only [persistentStoreChecksum, hwrite, ok_bind, length_bfSetN, ne_eq,
    not_true_eq_false, if_false]

/-- **Data and checksum**: where the checksum of the data on the medium is written, they are
    stored. -/
theorem stored_of_checksum (hr : store.Ready cells capacity) {m' : μ}
    (hdata : (cells m).slice store.dataAddress.toNat store.dataSize = datum)
    (hcells : cells m' = (cells m).store store.checksumAddress.toNat
      (bfSetN h (checksumSize store.type) (store.process datum store.initial))) :
    Stored h cells store datum m' := by
  have haddr := hr.inside.dataAddress
  constructor
  · rw [hcells, Mem.slice_store_apart _ (.inr (by rw [length_bfSetN]; omega)), hdata]
  · have hread := Mem.slice_store (cells m) store.checksumAddress.toNat
      (bfSetN h (checksumSize store.type) (store.process datum store.initial))
    rwa [length_bfSetN, ← hcells] at hread

/-- **A store leaves the data with the part replaced, and their checksum.** -/
theorem persistentStorePart_stored (h : Host) (hr : store.Ready cells capacity) (src : Mem Octet)
    (hfit : offset + n ≤ store.dataSize) (m : μ) : ∃ m',
    Returns (fun fuel => persistentStorePart h fuel store m src offset n) (.success, m') ∧
    Stored h cells store (splice ((cells m).slice store.dataAddress.toNat store.dataSize) offset
      (src.slice 0 n)) m' ∧
    SameOutside store (cells m) (cells m') := by
  have hsum : sizeAdd offset n = offset + n := by
    have hlt := store.dataSize_lt
    exact sizeAdd_eq (by omega)
  have haddr := hr.inside.dataAddress
  have hlen : (src.slice 0 n).length = n := Mem.length_slice _ _ _
  have hinside : offset + (src.slice 0 n).length ≤ store.dataSize := by
    rw [hlen]
    exact hfit
  obtain ⟨m₁, hwrite, hcells₁⟩ := hr.faithful.writeData hr.inside hinside m
  have hdata : (cells m₁).slice store.dataAddress.toNat store.dataSize =
      splice ((cells m).slice store.dataAddress.toNat store.dataSize) offset (src.slice 0 n) := by
    rw [hcells₁]
    exact Mem.slice_store_within _ _ (by rw [hlen]; exact hfit)
  have hframe : ∀ {m' m₂ : μ} {sum : PersistentChecksum store.type}, cells m₂ = cells m₁ →
      cells m' = (cells m₂).store store.checksumAddress.toNat
        (bfSetN h (checksumSize store.type) sum) →
      SameOutside store (cells m) (cells m') := by
    intro m' m₂ sum h2 h' i hi
    rw [h', Mem.store_outside _ (by rw [length_bfSetN]; omega), h2, hcells₁,
      Mem.store_outside _ (by rw [hlen]; omega)]
  by_cases hwhole : offset = 0 ∧ n = store.dataSize
  · obtain ⟨rfl, rfl⟩ := hwhole
    obtain ⟨m', hput, hcells'⟩ := persistentStoreChecksum_faithful (h := h) hr
      (persistentChecksum store src) m₁
    refine ⟨m', Returns.of_eq fun fuel => ?_, ?_, hframe rfl hcells'⟩
    · simp only [persistentStorePart, hsum, hwrite, ok_bind, hlen, hput]
      simp
    · have hnew : splice ((cells m).slice store.dataAddress.toNat store.dataSize) 0
          (src.slice 0 store.dataSize) = src.slice 0 store.dataSize :=
        splice_whole (by rw [Mem.length_slice, Mem.length_slice])
      rw [hnew] at hdata ⊢
      exact stored_of_checksum hr hdata hcells'
  · obtain ⟨m₂, hcalc, hcells₂⟩ := persistentCalculateChecksum_faithful hr.faithful hr.inside
      hr.compositional hr.empty hr.buffer m₁
    obtain ⟨m', hput, hcells'⟩ := persistentStoreChecksum_faithful (h := h) hr
      (store.process ((cells m₁).slice store.dataAddress.toNat store.dataSize) store.initial) m₂
    refine ⟨m', Returns.seq (fun fuel hret => ?_) hcalc (Returns.of_eq fun _ => hput), ?_,
      hframe hcells₂ hcells'⟩
    · simp only [persistentStorePart, hsum, if_neg (not_lt.mpr hfit), hwrite, ok_bind, hlen, ne_eq,
        not_true_eq_false, if_false, if_neg hwhole, hret]
    · rw [hdata] at hcells'
      exact stored_of_checksum hr (by rw [hcells₂, hdata]) hcells'

/-- **What is stored is valid.** -/
theorem persistentValidate_stored (hr : store.Ready cells capacity)
    (hs : Stored h cells store datum m) : ∃ m',
    Returns (fun fuel => persistentValidate h fuel store m) (.success, m') ∧
      cells m' = cells m := by
  have hfits := hr.inside.fits
  obtain ⟨m₁, hread, hcells₁⟩ := hr.faithful.read m store.checksumAddress (checksumSize store.type)
    (by omega)
  have hfetch : persistentFetchChecksum h store m =
      .ok (.ok (store.process datum store.initial), m₁) := by
    simp only [persistentFetchChecksum, hread, ok_bind, hs.checksum, length_bfSetN, ne_eq,
      not_true_eq_false, if_false, bfRefN_bfSetN h _ store.type.bits_eq]
  obtain ⟨m', hcalc, hcells⟩ := persistentCalculateChecksum_faithful hr.faithful hr.inside
    hr.compositional hr.empty hr.buffer m₁
  rw [hcells₁, hs.data] at hcalc
  refine ⟨m', Returns.seq (fun fuel hret => ?_) hcalc (Returns.of_eq fun _ => rfl),
    hcells.trans hcells₁⟩
  simp only [persistentValidate, hfetch, ok_bind, hret, if_true]

/-- **What is stored is fetched**, as a whole and in part. -/
theorem persistentFetchPart_stored (hr : store.Ready cells capacity)
    (hs : Stored h cells store datum m) (hfit : offset + n ≤ store.dataSize) : ∃ m',
    persistentFetchPart store m offset n = .ok (.ok ((datum.drop offset).take n), m') ∧
    cells m' = cells m := by
  have hsum : sizeAdd offset n = offset + n := by
    have hlt := store.dataSize_lt
    exact sizeAdd_eq (by omega)
  obtain ⟨m', hread, hcells⟩ := hr.faithful.readData hr.inside hfit m
  have hpart : (datum.drop offset).take n =
      (cells m).slice (store.dataAddress.toNat + offset) n := by
    rw [← hs.data, Mem.slice_drop _ _ _ _ (by omega), Mem.slice_take _ _ _ _ (by omega)]
  refine ⟨m', ?_, hcells⟩
  simp only [persistentFetchPart, hsum, if_neg (not_lt.mpr hfit), hread, ok_bind, Mem.length_slice,
    if_true, hpart]

end Store

/-! ## 2. Runs -/

/-- What is done between a store and a fetch. -/
inductive PersistentCall where
  | part (src : Mem Octet) (offset n : Nat)
  | buffer (buffer : Option Nat)

namespace PersistentCall

/-- A part inside data of some size; a buffer of at least one octet. -/
def Within (size : Nat) : PersistentCall → Prop
  | .part _ offset n => offset + n ≤ size
  | .buffer b => ∀ k, b = some k → 0 < k

/-- A datum with a part laid over it. -/
def onto (datum : List Octet) : PersistentCall → List Octet
  | .part src offset n => splice datum offset (src.slice 0 n)
  | .buffer _ => datum

end PersistentCall

/-- A run of calls, with what the stores of it return. -/
def persistentCalls (h : Host) (fuel : Nat) : PersistentStorage μ → μ → List PersistentCall →
    Exec (List PersistentAccess × PersistentStorage μ × μ)
  | store, m, [] => .ok ([], store, m)
  | store, m, .part src offset n :: calls => do
    let (access, m) ← persistentStorePart h fuel store m src offset n
    let (rest, store, m) ← persistentCalls h fuel store m calls
    .ok (access :: rest, store, m)
  | store, m, .buffer buffer :: calls =>
    persistentCalls h fuel (persistentBuffer store buffer) m calls

section Runs

variable {h : Host} {cells : μ → Mem Octet} {capacity : Nat} {store : PersistentStorage μ}

theorem PersistentStorage.Ready.withBuffer (hr : store.Ready cells capacity) {buffer : Option Nat}
    (hb : ∀ k, buffer = some k → 0 < k) : (persistentBuffer store buffer).Ready cells capacity :=
  ⟨hr.faithful, ⟨hr.inside.fits, hr.inside.noWrap, hr.inside.data_lt⟩, hr.compositional, hr.empty,
    hb⟩

/-- **A run of partial stores keeps what is stored**: every call succeeds, and lays its part over
    the datum. -/
theorem persistentCalls_stored (calls : List PersistentCall) : ∀ {store : PersistentStorage μ}
    {datum : List Octet} {m : μ}, store.Ready cells capacity → Stored h cells store datum m →
    (∀ c ∈ calls, c.Within store.dataSize) → ∃ accesses buffer m',
      Returns (fun fuel => persistentCalls h fuel store m calls)
        (accesses, persistentBuffer store buffer, m') ∧
      (∀ a ∈ accesses, a = .success) ∧ (persistentBuffer store buffer).Ready cells capacity ∧
      Stored h cells store (calls.foldl PersistentCall.onto datum) m' ∧
      SameOutside store (cells m) (cells m') := by
  induction calls with
  | nil =>
    intro store datum m hr hs _
    exact ⟨[], store.buffer, m, Returns.of_eq fun _ => rfl, fun a ha => (nomatch ha), hr, hs,
      fun _ _ => rfl⟩
  | cons c calls ih =>
    intro store datum m hr hs hcalls
    have hrest : ∀ c ∈ calls, c.Within store.dataSize := fun c hc =>
      hcalls c (List.mem_cons_of_mem _ hc)
    cases c with
    | part src offset n =>
      have hc : offset + n ≤ store.dataSize := hcalls _ (List.mem_cons_self ..)
      obtain ⟨m₁, hpart, hs₁, hsame₁⟩ := persistentStorePart_stored h hr src hc m
      rw [hs.data] at hs₁
      obtain ⟨accesses, buffer, m', hret, hall, hr', hs', hsame⟩ := ih hr hs₁ hrest
      refine ⟨.success :: accesses, buffer, m', Returns.both (fun fuel h1 h2 => ?_) hpart hret, ?_,
        hr', hs', fun i hi => (hsame i hi).trans (hsame₁ i hi)⟩
      · simp only [persistentCalls, h1, h2, ok_bind]
      · intro a ha
        rcases List.mem_cons.mp ha with rfl | ha
        · rfl
        · exact hall a ha
    | buffer buffer =>
      have hc : ∀ k, buffer = some k → 0 < k := hcalls _ (List.mem_cons_self ..)
      have hr₁ := hr.withBuffer hc
      have hs₁ : Stored h cells (persistentBuffer store buffer) datum m := ⟨hs.data, hs.checksum⟩
      obtain ⟨accesses, buffer', m', hret, hall, hr', hs', hsame⟩ := ih hr₁ hs₁ hrest
      exact ⟨accesses, buffer', m', Returns.congr (fun fuel => by rw [persistentCalls]) hret, hall,
        hr', ⟨hs'.data, hs'.checksum⟩, hsame⟩

/-- **Persistent storage stays valid**: behind a store and any run of partial stores, all of which
    succeed, the data are valid, what is fetched is the datum with the parts laid over it in order,
    and no cell outside the section has changed. -/
theorem persistentStore_keeps (h : Host) (hr : store.Ready cells capacity) (m : μ)
    (src : Mem Octet) (calls : List PersistentCall)
    (hcalls : ∀ c ∈ calls, c.Within store.dataSize) :
    ∃ m₁ accesses store' m',
      Returns (fun fuel => persistentStore h fuel store m src) (.success, m₁) ∧
      Returns (fun fuel => persistentCalls h fuel store m₁ calls) (accesses, store', m') ∧
      (∀ a ∈ accesses, a = .success) ∧
      (∃ m'', Returns (fun fuel => persistentValidate h fuel store' m') (.success, m'')) ∧
      (∃ m'', persistentFetch store' m' =
        .ok (.ok (calls.foldl PersistentCall.onto (src.slice 0 store.dataSize)), m'')) ∧
      (∀ offset n, offset + n ≤ store.dataSize → ∃ m'', persistentFetchPart store' m' offset n =
        .ok (.ok (((calls.foldl PersistentCall.onto (src.slice 0 store.dataSize)).drop
          offset).take n),
          m'')) ∧
      SameOutside store (cells m) (cells m') := by
  have hwhole : 0 + store.dataSize ≤ store.dataSize := le_of_eq (Nat.zero_add store.dataSize)
  obtain ⟨m₁, hstore, hs₁, hsame₁⟩ := persistentStorePart_stored h hr src hwhole m
  rw [splice_whole (by rw [Mem.length_slice, Mem.length_slice])] at hs₁
  obtain ⟨accesses, buffer, m', hret, hall, hr', hs, hsame⟩ :=
    persistentCalls_stored calls hr hs₁ hcalls
  have hs' : Stored h cells (persistentBuffer store buffer) _ m' := ⟨hs.data, hs.checksum⟩
  have hlen : (calls.foldl PersistentCall.onto (src.slice 0 store.dataSize)).length =
      store.dataSize := by
    rw [← hs.data, Mem.length_slice]
  obtain ⟨m₂, hvalid, -⟩ := persistentValidate_stored hr' hs'
  obtain ⟨m₃, hfetch, -⟩ := persistentFetchPart_stored hr' hs' hwhole
  rw [List.drop_zero, List.take_of_length_le (le_of_eq hlen)] at hfetch
  refine ⟨m₁, accesses, persistentBuffer store buffer, m', hstore, hret, hall, ⟨m₂, hvalid⟩,
    ⟨m₃, hfetch⟩, fun offset n hfit => ?_, fun i hi => (hsame i hi).trans (hsame₁ i hi)⟩
  obtain ⟨m₄, hpart, -⟩ := persistentFetchPart_stored hr' hs' hfit
  exact ⟨m₄, hpart⟩

end Runs

/-- Four octets of data in memory, with the checksum a fresh instance has. -/
def ramStore : PersistentStorage (Mem Octet) := persistentInit 4 ramBlock

theorem ramStore_ready : ramStore.Ready id 6 where
  faithful := ramBlock_faithful 6
  inside := ⟨by decide, by decide, by decide⟩
  compositional := trivialsum_compositional
  empty := fun _ => rfl
  buffer := fun _ hk => nomatch hk

theorem persistentStore_keeps_sample :
    ∃ m₁ accesses store' m',
      Returns (fun fuel => persistentStore lp64Host fuel ramStore (fun _ => 0) fun _ => 1)
        (.success, m₁) ∧
      Returns (fun fuel => persistentCalls lp64Host fuel ramStore m₁
        [.part (fun _ => 7) 1 2, .buffer (some 3)]) (accesses, store', m') ∧
      (∀ a ∈ accesses, a = .success) ∧
      (∃ m'', Returns (fun fuel => persistentValidate lp64Host fuel store' m') (.success, m'')) ∧
      (∃ m'', persistentFetch store' m' = .ok (.ok [1, 7, 7, 1], m'')) ∧
      (∀ offset n, offset + n ≤ 4 → ∃ m'', persistentFetchPart store' m' offset n =
        .ok (.ok (([1, 7, 7, 1].drop offset).take n), m'')) ∧
      SameOutside ramStore (fun _ => 0) m' :=
  persistentStore_keeps lp64Host ramStore_ready (fun _ => 0) (fun _ => 1)
    [.part (fun _ => 7) 1 2, .buffer (some 3)] (by
      intro c hc
      rcases List.mem_pair.mp hc with rfl | rfl
      · show 1 + 2 ≤ 4
        decide
      · exact fun k hk => Option.some.inj hk ▸ (by decide))

end Ufw
