/-
  File:      Ufw/PersistentStorage.lean
  Subject:   PERSISTENT STORAGE (persistent-storage.c): a piece of data on a medium, with a checksum
             in front of it.

  * `BlockAccess` -- the callbacks that read and write the medium;
  * `PersistentStorage` -- an instance; its data stand behind its checksum;
  * `persistentStorePart`, `persistentFetchPart`, `persistentValidate` … -- the functions of the
    source;
  * `BlockAccess.Faithful` -- a medium that keeps what is stored, with
    `calculateChecksumLoop_faithful`: **the checksum of the data, read piece by piece, is that of
    the data as a whole**, for pieces of any size.
-/
import Ufw.Base.Exec
import Ufw.Base.Memory
import Ufw.BinaryFormat

namespace Ufw

open Base

variable {μ : Type}

/-! ## 1. Instances -/

/-- `PersistentBlockRead` and `PersistentBlockWrite`, on a medium in some state. A read returns the
    octets it has read, a write how many octets it has written. -/
structure BlockAccess (μ : Type) where
  read : μ → BitVec 32 → Nat → Exec (List Octet × μ)
  write : μ → BitVec 32 → List Octet → Exec (Nat × μ)

/-- `PersistentChecksumType` -/
inductive PersistentChecksumType where
  | bit16
  | bit32
  deriving DecidableEq, Repr

/-- The width of a checksum. -/
def PersistentChecksumType.bits : PersistentChecksumType → Nat
  | bit16 => 16
  | bit32 => 32

/-- `PersistentChecksum`: the member of the union the type of the checksum selects. -/
abbrev PersistentChecksum (type : PersistentChecksumType) := BitVec type.bits

/-- `checksum_size` -/
def checksumSize : PersistentChecksumType → Nat
  | .bit16 => 2
  | .bit32 => 4

theorem PersistentChecksumType.bits_eq (type : PersistentChecksumType) :
    type.bits = 8 * checksumSize type := by
  cases type <;> rfl

/-- `PersistentStorage`; its `checksum.size` is always `checksum_size`, and `set_data_address` has
    put the data behind the checksum. `buffer` is the size of the auxiliary buffer, if there is
    one. -/
structure PersistentStorage (μ : Type) where
  dataAddress : BitVec 32
  dataSize : Nat
  checksumAddress : BitVec 32
  type : PersistentChecksumType
  initial : PersistentChecksum type
  process : List Octet → PersistentChecksum type → PersistentChecksum type
  buffer : Option Nat
  block : BlockAccess μ
  dataSize_lt : dataSize < 2 ^ 64
  dataAddress_eq : dataAddress = checksumAddress + BitVec.ofNat 32 (checksumSize type)

/-- `trivialsum` -/
def trivialsum (data : List Octet) (init : BitVec 16) : BitVec 16 :=
  data.foldl (fun init o => init + o.setWidth 16) init

/-- `persistent_sum16` -/
def persistentSum16 (store : PersistentStorage μ) (f : List Octet → BitVec 16 → BitVec 16)
    (init : BitVec 16) : PersistentStorage μ :=
  { store with
    dataAddress := store.checksumAddress + 2
    type := .bit16
    initial := init
    process := f
    dataAddress_eq := rfl }

/-- `persistent_sum32` -/
def persistentSum32 (store : PersistentStorage μ) (f : List Octet → BitVec 32 → BitVec 32)
    (init : BitVec 32) : PersistentStorage μ :=
  { store with
    dataAddress := store.checksumAddress + 4
    type := .bit32
    initial := init
    process := f
    dataAddress_eq := rfl }

/-- `persistent_init` -/
def persistentInit (size : SizeT) (block : BlockAccess μ) : PersistentStorage μ where
  dataAddress := 2
  dataSize := size
  checksumAddress := 0
  type := .bit16
  initial := (0 : BitVec 16)
  process := trivialsum
  buffer := none
  block := block
  dataSize_lt := size.isLt
  dataAddress_eq := rfl

/-- `persistent_place` -/
def persistentPlace (store : PersistentStorage μ) (address : BitVec 32) : PersistentStorage μ :=
  { store with
    dataAddress := address + BitVec.ofNat 32 (checksumSize store.type)
    checksumAddress := address
    dataAddress_eq := rfl }

/-- `persistent_buffer` -/
def persistentBuffer (store : PersistentStorage μ) (buffer : Option Nat) : PersistentStorage μ :=
  { store with buffer }

/-! ## 2. The code -/

/-- `PersistentAccess` -/
inductive PersistentAccess where
  | success
  | invalidData
  | ioError
  | addressOutOfRange
  deriving DecidableEq, Repr

/-- `struct maybe_sum` -/
abbrev MaybeSum (type : PersistentChecksumType) := Except PersistentAccess (PersistentChecksum type)

/-- `persistent_checksum` -/
def persistentChecksum (store : PersistentStorage μ) (src : Mem Octet) :
    PersistentChecksum store.type :=
  store.process (src.slice 0 store.dataSize) store.initial

/-- The loop of `persistent_calculate_checksum`: `rest` octets from `address` on are left. -/
def calculateChecksumLoop (store : PersistentStorage μ) (bsize : Nat) :
    Nat → Nat → BitVec 32 → PersistentChecksum store.type → μ → Exec (MaybeSum store.type × μ)
  | 0, _, _, _, _ => .error .outOfFuel
  | fuel + 1, rest, address, value, m =>
    if rest = 0 then .ok (.ok value, m)
    else do
      let toget := if bsize < rest then bsize else rest
      let (data, m) ← store.block.read m address toget
      if data.length ≠ toget then .ok (.error .ioError, m)
      else
        calculateChecksumLoop store bsize fuel (rest - toget) (address + BitVec.ofNat 32 toget)
          (store.process data value) m

/-- `persistent_calculate_checksum`; without a buffer it reads one octet at a time. -/
def persistentCalculateChecksum (fuel : Nat) (store : PersistentStorage μ) (m : μ) :
    Exec (MaybeSum store.type × μ) :=
  calculateChecksumLoop store (store.buffer.getD 1) fuel store.dataSize store.dataAddress
    store.initial m

/-- `persistent_store_checksum`: the checksum in the octet order of the host. -/
def persistentStoreChecksum (h : Host) (store : PersistentStorage μ) (m : μ)
    (sum : PersistentChecksum store.type) : Exec (PersistentAccess × μ) := do
  let size := checksumSize store.type
  let (n, m) ← store.block.write m store.checksumAddress (bfSetN h size sum)
  .ok (if n ≠ size then .ioError else .success, m)

/-- `persistent_fetch_checksum` -/
def persistentFetchChecksum (h : Host) (store : PersistentStorage μ) (m : μ) :
    Exec (MaybeSum store.type × μ) := do
  let size := checksumSize store.type
  let (value, m) ← store.block.read m store.checksumAddress size
  .ok (if value.length ≠ size then .error .ioError else .ok (bfRefN h store.type.bits value), m)

/-- `persistent_validate` -/
def persistentValidate (h : Host) (fuel : Nat) (store : PersistentStorage μ) (m : μ) :
    Exec (PersistentAccess × μ) := do
  match ← persistentFetchChecksum h store m with
  | (.error access, m) => .ok (access, m)
  | (.ok stored, m) => do
    match ← persistentCalculateChecksum fuel store m with
    | (.error access, m) => .ok (access, m)
    | (.ok calculated, m) => .ok (if stored = calculated then .success else .invalidData, m)

/-- `persistent_fetch_part` -/
def persistentFetchPart (store : PersistentStorage μ) (m : μ) (offset n : Nat) :
    Exec (Except PersistentAccess (List Octet) × μ) :=
  if store.dataSize < sizeAdd offset n then .ok (.error .addressOutOfRange, m)
  else do
    let address := store.dataAddress + BitVec.ofNat 32 offset
    let (dst, m) ← store.block.read m address n
    .ok (if dst.length = n then .ok dst else .error .ioError, m)

/-- `persistent_fetch` -/
def persistentFetch (store : PersistentStorage μ) (m : μ) :
    Exec (Except PersistentAccess (List Octet) × μ) :=
  persistentFetchPart store m 0 store.dataSize

/-- `persistent_store_part` -/
def persistentStorePart (h : Host) (fuel : Nat) (store : PersistentStorage μ) (m : μ)
    (src : Mem Octet) (offset n : Nat) : Exec (PersistentAccess × μ) :=
  if store.dataSize < sizeAdd offset n then .ok (.addressOutOfRange, m)
  else do
    let address := store.dataAddress + BitVec.ofNat 32 offset
    let (stored, m) ← store.block.write m address (src.slice 0 n)
    if stored ≠ n then .ok (.ioError, m)
    else if offset = 0 ∧ n = store.dataSize then
      persistentStoreChecksum h store m (persistentChecksum store src)
    else do
      match ← persistentCalculateChecksum fuel store m with
      | (.error access, m) => .ok (access, m)
      | (.ok sum, m) => persistentStoreChecksum h store m sum

/-- `persistent_store` -/
def persistentStore (h : Host) (fuel : Nat) (store : PersistentStorage μ) (m : μ)
    (src : Mem Octet) : Exec (PersistentAccess × μ) :=
  persistentStorePart h fuel store m src 0 store.dataSize

/-! ## 3. Media that keep what is stored -/

/-- **A faithful medium** of so many cells; `cells` reads off its state what they hold. -/
structure BlockAccess.Faithful (cells : μ → Mem Octet) (capacity : Nat) (block : BlockAccess μ) :
    Prop where
  read : ∀ m (address : BitVec 32) n, address.toNat + n ≤ capacity → ∃ m',
    block.read m address n = .ok ((cells m).slice address.toNat n, m') ∧ cells m' = cells m
  write : ∀ m (address : BitVec 32) l, address.toNat + l.length ≤ capacity → ∃ m',
    block.write m address l = .ok (l.length, m') ∧ cells m' = (cells m).store address.toNat l

/-- A section inside a medium; no address in it wraps. -/
structure PersistentStorage.Inside (store : PersistentStorage μ) (capacity : Nat) : Prop where
  fits : store.checksumAddress.toNat + checksumSize store.type + store.dataSize ≤ capacity
  noWrap : store.checksumAddress.toNat + checksumSize store.type + store.dataSize ≤ 2 ^ 32
  data_lt : store.checksumAddress.toNat + checksumSize store.type < 2 ^ 32

/-- A checksum that can be taken piece by piece. -/
def Compositional {β : Type} (process : List Octet → β → β) : Prop :=
  ∀ a b init, process (a ++ b) init = process b (process a init)

theorem trivialsum_compositional : Compositional trivialsum := fun _ _ _ => List.foldl_append

section Faithful

variable {cells : μ → Mem Octet} {capacity : Nat} {store : PersistentStorage μ} {offset n : Nat}

theorem PersistentStorage.Inside.dataAddress (hin : store.Inside capacity) :
    store.dataAddress.toNat = store.checksumAddress.toNat + checksumSize store.type := by
  have hlt := hin.data_lt
  rw [store.dataAddress_eq, BitVec.toNat_add, BitVec.toNat_ofNat]
  omega

theorem PersistentStorage.Inside.address (hin : store.Inside capacity)
    (h : offset < store.dataSize) :
    (store.dataAddress + BitVec.ofNat 32 offset).toNat = store.dataAddress.toNat + offset := by
  have hle := hin.noWrap
  have hdata := hin.dataAddress
  rw [BitVec.toNat_add, BitVec.toNat_ofNat]
  omega

/-- Reading data from a faithful medium. -/
theorem BlockAccess.Faithful.readData (hf : store.block.Faithful cells capacity)
    (hin : store.Inside capacity) (h : offset + n ≤ store.dataSize) (m : μ) : ∃ m',
    store.block.read m (store.dataAddress + BitVec.ofNat 32 offset) n =
      .ok ((cells m).slice (store.dataAddress.toNat + offset) n, m') ∧ cells m' = cells m := by
  have hfits := hin.fits
  have hdata := hin.dataAddress
  rcases Nat.lt_or_ge offset store.dataSize with hlt | hge
  · have haddr := hin.address hlt
    obtain ⟨m', hread, hcells⟩ := hf.read m (store.dataAddress + BitVec.ofNat 32 offset) n
      (by omega)
    exact ⟨m', by rw [hread, haddr], hcells⟩
  · -- the end of the data: nothing is read, wherever that address is
    obtain rfl : n = 0 := by omega
    have hle : (store.dataAddress + BitVec.ofNat 32 offset).toNat ≤ capacity := by
      rw [BitVec.toNat_add, BitVec.toNat_ofNat]
      omega
    obtain ⟨m', hread, hcells⟩ := hf.read m (store.dataAddress + BitVec.ofNat 32 offset) 0 hle
    exact ⟨m', hread, hcells⟩

/-- Writing data to a faithful medium. -/
theorem BlockAccess.Faithful.writeData (hf : store.block.Faithful cells capacity)
    (hin : store.Inside capacity) {l : List Octet} (h : offset + l.length ≤ store.dataSize)
    (m : μ) :
    ∃ m', store.block.write m (store.dataAddress + BitVec.ofNat 32 offset) l = .ok (l.length, m') ∧
      cells m' = (cells m).store (store.dataAddress.toNat + offset) l := by
  have hfits := hin.fits
  have hdata := hin.dataAddress
  rcases Nat.lt_or_ge offset store.dataSize with hlt | hge
  · have haddr := hin.address hlt
    obtain ⟨m', hwrite, hcells⟩ := hf.write m (store.dataAddress + BitVec.ofNat 32 offset) l
      (by omega)
    exact ⟨m', hwrite, by rw [hcells, haddr]⟩
  · obtain rfl : l = [] := List.length_eq_zero_iff.mp (by omega)
    have hle : (store.dataAddress + BitVec.ofNat 32 offset).toNat ≤ capacity := by
      rw [BitVec.toNat_add, BitVec.toNat_ofNat]
      omega
    obtain ⟨m', hwrite, hcells⟩ := hf.write m (store.dataAddress + BitVec.ofNat 32 offset) [] hle
    exact ⟨m', hwrite, by rw [hcells, Mem.store_nil, Mem.store_nil]⟩

/-- **The checksum of what is left, read piece by piece**, is that of what is left as a whole. -/
theorem calculateChecksumLoop_faithful (hf : store.block.Faithful cells capacity)
    (hin : store.Inside capacity) (hc : Compositional store.process) {bsize : Nat} (hb : 0 < bsize)
    (rest : Nat) : ∀ (done : Nat) (value : PersistentChecksum store.type) (m : μ),
    done + rest = store.dataSize → ∃ m',
    Returns (fun fuel => calculateChecksumLoop store bsize fuel rest
        (store.dataAddress + BitVec.ofNat 32 done) value m)
      (.ok (if rest = 0 then value
        else store.process ((cells m).slice (store.dataAddress.toNat + done) rest) value), m') ∧
    cells m' = cells m := by
  induction rest using Nat.strongRecOn with
  | ind rest ih =>
    intro done value m hdone
    rcases Nat.eq_zero_or_pos rest with rfl | hpos
    · exact ⟨m, Returns.of_succ fun _ => rfl, rfl⟩
    · obtain ⟨toget, htoget⟩ : ∃ k, (if bsize < rest then bsize else rest) = k := ⟨_, rfl⟩
      have hle : 0 < toget ∧ toget ≤ rest := by
        rw [← htoget]
        split <;> omega
      have hinside : done + toget ≤ store.dataSize := by omega
      obtain ⟨m₁, hread, hcells₁⟩ := hf.readData hin hinside m
      obtain ⟨m', hret, hcells⟩ := ih (rest - toget) (by omega) (done + toget)
        (store.process ((cells m).slice (store.dataAddress.toNat + done) toget) value) m₁ (by omega)
      have haddr : store.dataAddress + BitVec.ofNat 32 (done + toget) =
          store.dataAddress + BitVec.ofNat 32 done + BitVec.ofNat 32 toget := by
        rw [BitVec.ofNat_add, BitVec.add_assoc]
      have hvalue : (if rest - toget = 0
            then store.process ((cells m).slice (store.dataAddress.toNat + done) toget) value
            else store.process ((cells m₁).slice (store.dataAddress.toNat + (done + toget))
              (rest - toget))
              (store.process ((cells m).slice (store.dataAddress.toNat + done) toget) value)) =
          store.process ((cells m).slice (store.dataAddress.toNat + done) rest) value := by
        by_cases hlast : rest - toget = 0
        · rw [if_pos hlast, show toget = rest by omega]
        · have hsplit : rest = toget + (rest - toget) := by omega
          rw [if_neg hlast, ← hc, hcells₁, ← Nat.add_assoc, ← Mem.slice_append, ← hsplit]
      rw [haddr, hvalue] at hret
      refine ⟨m', ?_, hcells.trans hcells₁⟩
      rw [if_neg hpos.ne']
      refine hret.step fun fuel => ?_
      rw [calculateChecksumLoop, if_neg hpos.ne']
      simp only [htoget, hread, ok_bind, Mem.length_slice, ne_eq, not_true_eq_false, if_false]

/-- **The checksum of the data on the medium.** Where there are no data, taking the checksum of
    nothing must change nothing. -/
theorem persistentCalculateChecksum_faithful (hf : store.block.Faithful cells capacity)
    (hin : store.Inside capacity) (hc : Compositional store.process)
    (hempty : store.dataSize = 0 → store.process [] store.initial = store.initial)
    (hb : ∀ k, store.buffer = some k → 0 < k) (m : μ) : ∃ m',
    Returns (fun fuel => persistentCalculateChecksum fuel store m)
      (.ok (store.process ((cells m).slice store.dataAddress.toNat store.dataSize) store.initial),
        m') ∧
    cells m' = cells m := by
  have hsize : 0 < store.buffer.getD 1 := by
    cases hk : store.buffer with
    | none => exact Nat.one_pos
    | some k => exact hb k hk
  obtain ⟨m', hret, hcells⟩ := calculateChecksumLoop_faithful hf hin hc hsize store.dataSize
    0 store.initial m (Nat.zero_add _)
  refine ⟨m', ?_, hcells⟩
  rw [show BitVec.ofNat 32 0 = 0#32 from rfl, BitVec.add_zero, Nat.add_zero] at hret
  by_cases h0 : store.dataSize = 0
  · rw [if_pos h0] at hret
    rw [h0, Mem.slice_zero, hempty h0]
    exact hret
  · rwa [if_neg h0] at hret

end Faithful

/-- A medium in memory. -/
def ramBlock : BlockAccess (Mem Octet) where
  read m address n := .ok (m.slice address.toNat n, m)
  write m address l := .ok (l.length, m.store address.toNat l)

theorem ramBlock_faithful (capacity : Nat) : ramBlock.Faithful id capacity :=
  ⟨fun m _ _ _ => ⟨m, rfl, rfl⟩, fun m address l _ => ⟨m.store address.toNat l, rfl, rfl⟩⟩

end Ufw
