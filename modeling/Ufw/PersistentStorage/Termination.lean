/-
  File:      Ufw/PersistentStorage/Termination.lean
  Subject:   PERSISTENT STORAGE: which requests end.

  * `persistentWritten`, `persistentReset` -- the functions of the source that fill the medium;
  * `Unasked` -- a callback that is asked for no octets over and over claims to have moved some in
    the end;
  * `PieceLoop` -- a loop that moves octets piece by piece: `PieceLoop.terminates` -- **with pieces
    of at least one octet every pass leaves less to do**; `PieceLoop.unasked` -- with pieces of none
    it ends on such callbacks only;
  * `persistentStorage_terminates_iff` -- **an auxiliary buffer of size 0 makes pieces of no
    octets**, and the requests that get to them do not end.
-/
import Ufw.PersistentStorage.Ranges

namespace Ufw

open Base

variable {μ : Type}

/-! ## 1. Filling the medium -/

/-- The loop of `persistent_written`: `rest` octets from `address` on are left. -/
def writtenLoop (store : PersistentStorage μ) (bsize : Nat) (item : Octet) :
    Nat → Nat → BitVec 32 → μ → Exec (PersistentAccess × μ)
  | 0, _, _, _ => .error .outOfFuel
  | fuel + 1, rest, address, m =>
    if rest = 0 then .ok (.success, m)
    else do
      let toput := if bsize < rest then bsize else rest
      let (n, m) ← store.block.write m address (List.replicate toput item)
      if n ≠ toput then .ok (.ioError, m)
      else writtenLoop store bsize item fuel (rest - toput) (address + BitVec.ofNat 32 toput) m

/-- `persistent_written`; without a buffer it writes one octet at a time. -/
def persistentWritten (fuel : Nat) (store : PersistentStorage μ) (m : μ) (address : BitVec 32)
    (item : Octet) (k : Nat) : Exec (PersistentAccess × μ) :=
  writtenLoop store (store.buffer.getD 1) item fuel k address m

/-- `persistent_reset` -/
def persistentReset (fuel : Nat) (store : PersistentStorage μ) (m : μ) (item : Octet) :
    Exec (PersistentAccess × μ) := do
  let (rv, m) ← persistentWritten fuel store m store.checksumAddress item (checksumSize store.type)
  if rv ≠ .success then .ok (rv, m)
  else persistentWritten fuel store m store.dataAddress item store.dataSize

/-! ## 2. Loops over pieces -/

/-- `call` asks for no octets. Done over and over, **some are claimed to have been moved** in the
    end. -/
inductive Unasked (call : μ → Exec (Nat × μ)) : μ → Prop
  | now {m m' : μ} {n : Nat} : call m = .ok (n, m') → n ≠ 0 → Unasked call m
  | later {m m' : μ} : call m = .ok (0, m') → Unasked call m' → Unasked call m

/-- Not where no more is moved than was asked for. -/
theorem not_unasked {call : μ → Exec (Nat × μ)} (hle : ∀ m n m', call m = .ok (n, m') → n = 0)
    (m : μ) : ¬ Unasked call m := by
  intro h
  induction h with
  | now hcall hne => exact hne (hle _ _ _ hcall)
  | later _ _ ih => exact ih

/-- `toget`, `toput`: the size of the next piece. -/
def piece (bsize rest : Nat) : Nat := if bsize < rest then bsize else rest

/-- **A loop that moves octets piece by piece**: `call` moves one, and the loop goes on unless it
    has moved another number of octets than it was asked for. -/
structure PieceLoop {α β : Type} (bsize : Nat) (call : μ → BitVec 32 → Nat → Exec (Nat × μ))
    (f : β → Nat → Nat → BitVec 32 → μ → Exec α) : Prop where
  total : ∀ m address n, ∃ r, call m address n = .ok r
  zero : ∀ b rest address m, f b 0 rest address m = .error .outOfFuel
  done : ∀ b address m, ∃ r, ∀ fuel, f b (fuel + 1) 0 address m = .ok r
  short : ∀ b rest address m n m', 0 < rest → call m address (piece bsize rest) = .ok (n, m') →
    n ≠ piece bsize rest → ∃ r, ∀ fuel, f b (fuel + 1) rest address m = .ok r
  pass : ∀ b rest address m m', 0 < rest →
    call m address (piece bsize rest) = .ok (piece bsize rest, m') →
    ∃ b', ∀ fuel, f b (fuel + 1) rest address m =
      f b' fuel (rest - piece bsize rest) (address + BitVec.ofNat 32 (piece bsize rest)) m'

namespace PieceLoop

variable {α β : Type} {bsize rest : Nat} {call : μ → BitVec 32 → Nat → Exec (Nat × μ)}
  {f : β → Nat → Nat → BitVec 32 → μ → Exec α} {address : BitVec 32} {m : μ}

/-- **With pieces of at least one octet the loop ends**, whatever `call` answers. -/
theorem terminates (hf : PieceLoop bsize call f) (hb : 0 < bsize) (b : β) (rest : Nat)
    (address : BitVec 32) (m : μ) : Terminates fun fuel => f b fuel rest address m := by
  refine Terminates.of_measure
    (f := fun i : β × Nat × BitVec 32 × μ => fun fuel => f i.1 fuel i.2.1 i.2.2.1 i.2.2.2)
    (fun i => i.2.1) ?_ (b, rest, address, m)
  rintro ⟨b, rest, address, m⟩
  rcases Nat.eq_zero_or_pos rest with rfl | hpos
  · exact .inl (hf.done b address m)
  · have hpiece : 0 < piece bsize rest := by
      unfold piece
      split <;> omega
    obtain ⟨⟨n, m'⟩, hcall⟩ := hf.total m address (piece bsize rest)
    by_cases hn : n = piece bsize rest
    · subst hn
      obtain ⟨b', hpass⟩ := hf.pass b rest address m m' hpos hcall
      exact .inr ⟨(b', _, _, m'), Nat.sub_lt hpos hpiece, hpass⟩
    · exact .inl (hf.short b rest address m n m' hpos hcall hn)

/-- A piece of no octets leaves as much to do as before. -/
theorem pass_zero (hf : PieceLoop 0 call f) (hrest : 0 < rest) (b : β) {m' : μ}
    (hcall : call m address 0 = .ok (0, m')) :
    ∃ b', ∀ fuel, f b (fuel + 1) rest address m = f b' fuel rest address m' := by
  have hpiece : piece 0 rest = 0 := if_pos hrest
  obtain ⟨b', hpass⟩ := hf.pass b rest address m m' hrest (by rw [hpiece]; exact hcall)
  refine ⟨b', fun fuel => ?_⟩
  rw [hpass, hpiece, Nat.sub_zero, BitVec.add_zero]

/-- With pieces of no octets: where the loop has ended. -/
theorem unasked (hf : PieceLoop 0 call f) (hrest : 0 < rest) {fuel : Nat} {b : β} {r : α}
    (h : f b fuel rest address m = .ok r) : Unasked (fun m => call m address 0) m := by
  induction fuel generalizing b m with
  | zero =>
    rw [hf.zero] at h
    cases h
  | succ fuel ih =>
    obtain ⟨⟨n, m'⟩, hcall⟩ := hf.total m address 0
    by_cases hn : n = 0
    · subst hn
      obtain ⟨b', hpass⟩ := hf.pass_zero hrest b hcall
      exact .later hcall (ih ((hpass fuel).symm.trans h))
    · exact .now hcall hn

/-- With pieces of no octets: where it ends. -/
theorem terminates_unasked (hf : PieceLoop 0 call f) (hrest : 0 < rest)
    (h : Unasked (fun m => call m address 0) m) :
    ∀ b, Terminates fun fuel => f b fuel rest address m := by
  have hpiece : piece 0 rest = 0 := if_pos hrest
  induction h with
  | now hcall hn =>
    intro b
    obtain ⟨r, hr⟩ := hf.short b rest address _ _ _ hrest (by rw [hpiece]; exact hcall)
      (by rw [hpiece]; exact hn)
    exact ⟨r, Returns.of_succ hr⟩
  | later hcall _ ih =>
    intro b
    obtain ⟨b', hpass⟩ := hf.pass_zero hrest b hcall
    obtain ⟨r, hr⟩ := ih b'
    exact ⟨r, hr.step hpass⟩

end PieceLoop

/-- Reading `n` octets: how many have been read. -/
def BlockAccess.readCount (block : BlockAccess μ) (m : μ) (address : BitVec 32) (n : Nat) :
    Exec (Nat × μ) := do
  let (l, m) ← block.read m address n
  .ok (l.length, m)

/-- Writing `n` times the same octet. -/
def BlockAccess.fill (block : BlockAccess μ) (item : Octet) (m : μ) (address : BitVec 32)
    (n : Nat) : Exec (Nat × μ) :=
  block.write m address (List.replicate n item)

section Loops

variable {store : PersistentStorage μ} {fuel : Nat} {m : μ}

/-- The size of the pieces. -/
theorem PersistentStorage.bsize_cases (store : PersistentStorage μ) :
    store.buffer = some 0 ∧ store.buffer.getD 1 = 0 ∨
      store.buffer ≠ some 0 ∧ 0 < store.buffer.getD 1 := by
  rcases store.buffer with _ | k
  · exact .inr ⟨nofun, Nat.one_pos⟩
  · rcases Nat.eq_zero_or_pos k with rfl | hpos
    · exact .inl ⟨rfl, rfl⟩
    · exact .inr ⟨fun h => hpos.ne' (Option.some.inj h), hpos⟩

/-- One pass of the loop of `persistent_calculate_checksum`. -/
theorem calculateChecksumLoop_pass {bsize rest : Nat} {address : BitVec 32} (hrest : 0 < rest)
    (value : PersistentChecksum store.type) {l : List Octet} {m' : μ}
    (hread : store.block.read m address (piece bsize rest) = .ok (l, m')) (fuel : Nat) :
    calculateChecksumLoop store bsize (fuel + 1) rest address value m =
      if l.length ≠ piece bsize rest then .ok (.error .ioError, m')
      else calculateChecksumLoop store bsize fuel (rest - piece bsize rest)
        (address + BitVec.ofNat 32 (piece bsize rest)) (store.process l value) m' := by
  unfold piece at hread ⊢
  rw [calculateChecksumLoop, if_neg hrest.ne']
  simp only [hread, ok_bind]

theorem calculateChecksumLoop_pieces (htotal : store.block.Total) (bsize : Nat) :
    PieceLoop bsize store.block.readCount fun value fuel rest address m =>
      calculateChecksumLoop store bsize fuel rest address value m where
  total m address n := by
    obtain ⟨⟨l, m'⟩, hread⟩ := htotal.read m address n
    exact ⟨_, by rw [BlockAccess.readCount, hread]; rfl⟩
  zero _ _ _ _ := rfl
  done _ _ _ := ⟨_, fun _ => rfl⟩
  short value rest address m n m' hrest hcall hn := by
    obtain ⟨⟨l, m₁⟩, hread, hok⟩ := bind_eq_ok hcall
    cases hok
    exact ⟨_, fun fuel => (calculateChecksumLoop_pass hrest value hread fuel).trans (if_pos hn)⟩
  pass value rest address m m' hrest hcall := by
    obtain ⟨⟨l, m₁⟩, hread, hok⟩ := bind_eq_ok hcall
    have hl : l.length = piece bsize rest := congrArg Prod.fst (Except.ok.inj hok)
    obtain rfl : m₁ = m' := congrArg Prod.snd (Except.ok.inj hok)
    exact ⟨store.process l value, fun fuel =>
      (calculateChecksumLoop_pass hrest value hread fuel).trans (if_neg (not_not.mpr hl))⟩

/-- One pass of the loop of `persistent_written`. -/
theorem writtenLoop_pass {bsize rest : Nat} {address : BitVec 32} (hrest : 0 < rest) {item : Octet}
    {n : Nat} {m' : μ}
    (hfill : store.block.fill item m address (piece bsize rest) = .ok (n, m')) (fuel : Nat) :
    writtenLoop store bsize item (fuel + 1) rest address m =
      if n ≠ piece bsize rest then .ok (.ioError, m')
      else writtenLoop store bsize item fuel (rest - piece bsize rest)
        (address + BitVec.ofNat 32 (piece bsize rest)) m' := by
  unfold BlockAccess.fill piece at hfill
  unfold piece
  rw [writtenLoop, if_neg hrest.ne']
  simp only [hfill, ok_bind]

theorem writtenLoop_pieces (htotal : store.block.Total) (bsize : Nat) (item : Octet) :
    PieceLoop bsize (store.block.fill item) fun (_ : Unit) fuel rest address m =>
      writtenLoop store bsize item fuel rest address m where
  total m address n := htotal.write m address (List.replicate n item)
  zero _ _ _ _ := rfl
  done _ _ _ := ⟨_, fun _ => rfl⟩
  short _ _ _ _ _ _ hrest hfill hn :=
    ⟨_, fun fuel => (writtenLoop_pass hrest hfill fuel).trans (if_pos hn)⟩
  pass _ _ _ _ _ hrest hfill :=
    ⟨(), fun fuel => (writtenLoop_pass hrest hfill fuel).trans (if_neg (not_not.mpr rfl))⟩

/-! ## 3. Requests -/

/-- Where calculating the checksum of the data ends. -/
def PersistentStorage.ChecksumEnds (store : PersistentStorage μ) (m : μ) : Prop :=
  store.buffer ≠ some 0 ∨ store.dataSize = 0 ∨
    Unasked (fun m => store.block.readCount m store.dataAddress 0) m

/-- Where setting the octets of the section to a value ends; its checksum is not empty. -/
def PersistentStorage.FillEnds (store : PersistentStorage μ) (m : μ) : Prop :=
  store.buffer ≠ some 0 ∨ Unasked (fun m => store.block.write m store.checksumAddress []) m

section Pieces

variable {α β : Type} {call : μ → BitVec 32 → Nat → Exec (Nat × μ)}
  {f : β → Nat → Nat → BitVec 32 → μ → Exec α} {b : β} {rest : Nat} {address : BitVec 32}

/-- A loop over pieces of the size of the buffer ends unless they are empty. -/
theorem PieceLoop.buffer_terminates (hf : PieceLoop (store.buffer.getD 1) call f)
    (h : store.buffer ≠ some 0 ∨ rest = 0 ∨ Unasked (fun m => call m address 0) m) :
    Terminates fun fuel => f b fuel rest address m := by
  rcases store.bsize_cases with ⟨hzero, hb⟩ | ⟨-, hb⟩
  · rw [hb] at hf
    rcases Nat.eq_zero_or_pos rest with rfl | hpos
    · obtain ⟨r, hr⟩ := hf.done b address m
      exact ⟨r, Returns.of_succ hr⟩
    · have hunasked := (h.resolve_left (not_not.mpr hzero)).resolve_left hpos.ne'
      exact hf.terminates_unasked hpos hunasked b
  · exact hf.terminates hb b rest address m

/-- And where it has ended, they are not. -/
theorem PieceLoop.buffer_ends (hf : PieceLoop (store.buffer.getD 1) call f) {r : α}
    (h : f b fuel rest address m = .ok r) :
    store.buffer ≠ some 0 ∨ rest = 0 ∨ Unasked (fun m => call m address 0) m := by
  rcases store.bsize_cases with ⟨-, hb⟩ | ⟨hne, -⟩
  · rw [hb] at hf
    rcases Nat.eq_zero_or_pos rest with hzero | hpos
    · exact .inr (.inl hzero)
    · exact .inr (.inr (hf.unasked hpos h))
  · exact .inl hne

end Pieces

theorem persistentCalculateChecksum_terminates (htotal : store.block.Total)
    (h : store.ChecksumEnds m) :
    Terminates fun fuel => persistentCalculateChecksum fuel store m :=
  (calculateChecksumLoop_pieces htotal _).buffer_terminates h

theorem persistentCalculateChecksum_ends (htotal : store.block.Total)
    {r : MaybeSum store.type × μ} (h : persistentCalculateChecksum fuel store m = .ok r) :
    store.ChecksumEnds m :=
  (calculateChecksumLoop_pieces htotal _).buffer_ends h

theorem persistentWritten_terminates (htotal : store.block.Total) (address : BitVec 32)
    (item : Octet) (k : Nat)
    (h : store.buffer ≠ some 0 ∨ k = 0 ∨ Unasked (fun m => store.block.write m address []) m) :
    Terminates fun fuel => persistentWritten fuel store m address item k :=
  (writtenLoop_pieces htotal _ item).buffer_terminates (b := ()) h

theorem persistentWritten_ends (htotal : store.block.Total) {address : BitVec 32} {item : Octet}
    {k : Nat} {r : PersistentAccess × μ}
    (h : persistentWritten fuel store m address item k = .ok r) :
    store.buffer ≠ some 0 ∨ k = 0 ∨ Unasked (fun m => store.block.write m address []) m :=
  (writtenLoop_pieces htotal _ item).buffer_ends (b := ()) h

/-- What is validated, once the stored checksum has been read. -/
theorem persistentValidate_read (h : Host) {sum : List Octet} {m' : μ}
    (hread : store.block.read m store.checksumAddress (checksumSize store.type) = .ok (sum, m')) :
    persistentValidate h fuel store m =
      if sum.length ≠ checksumSize store.type then .ok (.ioError, m')
      else persistentCalculateChecksum fuel store m' >>= fun
        | (.error access, m) => .ok (access, m)
        | (.ok calculated, m) =>
          .ok (if bfRefN h store.type.bits sum = calculated then .success
            else .invalidData, m) := by
  have hfetch : persistentFetchChecksum h store m =
      .ok (if sum.length ≠ checksumSize store.type then .error .ioError
        else .ok (bfRefN h store.type.bits sum), m') := by
    rw [persistentFetchChecksum, hread]
    rfl
  rw [persistentValidate, hfetch]
  by_cases hlen : sum.length ≠ checksumSize store.type
  · rw [if_pos hlen, if_pos hlen]
    rfl
  · rw [if_neg hlen, if_neg hlen]
    rfl

theorem persistentValidate_terminates_iff (h : Host) (htotal : store.block.Total) :
    (Terminates fun fuel => persistentValidate h fuel store m) ↔
      ∃ sum m', store.block.read m store.checksumAddress (checksumSize store.type) = .ok (sum, m') ∧
        (sum.length ≠ checksumSize store.type ∨ store.ChecksumEnds m') := by
  obtain ⟨⟨sum, m'⟩, hread⟩ := htotal.read m store.checksumAddress (checksumSize store.type)
  constructor
  · intro hends
    obtain ⟨fuel, r, hok⟩ := hends.exists_ok
    refine ⟨sum, m', hread, ?_⟩
    by_cases hlen : sum.length ≠ checksumSize store.type
    · exact .inl hlen
    · rw [persistentValidate_read h hread, if_neg hlen] at hok
      obtain ⟨_, hcalc, -⟩ := bind_eq_ok hok
      exact .inr (persistentCalculateChecksum_ends htotal hcalc)
  · rintro ⟨sum₁, m₁, hread₁, hcond⟩
    obtain ⟨rfl, rfl⟩ := Prod.mk.inj (Except.ok.inj (hread.symm.trans hread₁))
    by_cases hlen : sum.length ≠ checksumSize store.type
    · exact .of_eq fun _ => (persistentValidate_read h hread).trans (if_pos hlen)
    · simp only [persistentValidate_read h hread, if_neg hlen]
      refine (persistentCalculateChecksum_terminates htotal (hcond.resolve_left hlen)).bind ?_
      rintro ⟨access | calculated, m₂⟩ -
      · exact .of_eq fun _ => rfl
      · exact .of_eq fun _ => rfl

/-- What is stored, once the part has been written. -/
theorem persistentStorePart_write (h : Host) {src : Mem Octet} {offset n written : Nat} {m' : μ}
    (hfit : ¬ store.dataSize < sizeAdd offset n)
    (hwrite : store.block.write m (store.dataAddress + BitVec.ofNat 32 offset) (src.slice 0 n) =
      .ok (written, m')) :
    persistentStorePart h fuel store m src offset n =
      if written ≠ n then .ok (.ioError, m')
      else if offset = 0 ∧ n = store.dataSize then
        persistentStoreChecksum h store m' (persistentChecksum store src)
      else persistentCalculateChecksum fuel store m' >>= fun
        | (.error access, m) => .ok (access, m)
        | (.ok sum, m) => persistentStoreChecksum h store m sum := by
  rw [persistentStorePart, if_neg hfit]
  show (store.block.write m (store.dataAddress + BitVec.ofNat 32 offset) (src.slice 0 n) >>= _) = _
  rw [hwrite]
  rfl

theorem persistentStoreChecksum_total (h : Host) (htotal : store.block.Total)
    (sum : PersistentChecksum store.type) :
    ∃ r, persistentStoreChecksum h store m sum = .ok r := by
  obtain ⟨⟨n, m'⟩, hwrite⟩ := htotal.write m store.checksumAddress
    (bfSetN h (checksumSize store.type) sum)
  exact ⟨_, by rw [persistentStoreChecksum]; simp only [hwrite, ok_bind]; rfl⟩

theorem persistentStorePart_terminates_iff (h : Host) (htotal : store.block.Total)
    (src : Mem Octet) (offset n : Nat) :
    (Terminates fun fuel => persistentStorePart h fuel store m src offset n) ↔
      store.dataSize < sizeAdd offset n ∨
      ∃ written m', store.block.write m (store.dataAddress + BitVec.ofNat 32 offset)
          (src.slice 0 n) = .ok (written, m') ∧
        (written ≠ n ∨ (offset = 0 ∧ n = store.dataSize) ∨ store.ChecksumEnds m') := by
  by_cases hfit : store.dataSize < sizeAdd offset n
  · exact ⟨fun _ => .inl hfit, fun _ => .of_eq fun _ => if_pos hfit⟩
  obtain ⟨⟨written, m'⟩, hwrite⟩ := htotal.write m (store.dataAddress + BitVec.ofNat 32 offset)
    (src.slice 0 n)
  constructor
  · intro hends
    obtain ⟨fuel, r, hok⟩ := hends.exists_ok
    refine .inr ⟨written, m', hwrite, ?_⟩
    by_cases hn : written ≠ n
    · exact .inl hn
    by_cases hwhole : offset = 0 ∧ n = store.dataSize
    · exact .inr (.inl hwhole)
    rw [persistentStorePart_write h hfit hwrite, if_neg hn, if_neg hwhole] at hok
    obtain ⟨_, hcalc, -⟩ := bind_eq_ok hok
    exact .inr (.inr (persistentCalculateChecksum_ends htotal hcalc))
  · intro hcond
    obtain ⟨written₁, m₁, hwrite₁, hcond⟩ := hcond.resolve_left hfit
    obtain ⟨rfl, rfl⟩ := Prod.mk.inj (Except.ok.inj (hwrite.symm.trans hwrite₁))
    by_cases hn : written ≠ n
    · exact .of_eq fun _ => (persistentStorePart_write h hfit hwrite).trans (if_pos hn)
    by_cases hwhole : offset = 0 ∧ n = store.dataSize
    · simp only [persistentStorePart_write h hfit hwrite, if_neg hn, if_pos hwhole]
      obtain ⟨r, hr⟩ := persistentStoreChecksum_total (m := m') h htotal
        (persistentChecksum store src)
      exact .of_eq fun _ => hr
    · simp only [persistentStorePart_write h hfit hwrite, if_neg hn, if_neg hwhole]
      refine (persistentCalculateChecksum_terminates htotal
        ((hcond.resolve_left hn).resolve_left hwhole)).bind ?_
      rintro ⟨access | sum, m₂⟩ -
      · exact .of_eq fun _ => rfl
      · obtain ⟨r, hr⟩ := persistentStoreChecksum_total (m := m₂) h htotal sum
        exact .of_eq fun _ => hr

/-- A loop over empty pieces that has ended has not succeeded. -/
theorem persistentWritten_empty (hzero : store.buffer = some 0) {address : BitVec 32}
    {item : Octet} {k : Nat} (hk : 0 < k) {r : PersistentAccess × μ}
    (h : persistentWritten fuel store m address item k = .ok r) : r.1 = .ioError := by
  rw [persistentWritten, hzero] at h
  induction fuel generalizing m with
  | zero => cases h
  | succ fuel ih =>
    rw [Option.getD_some, writtenLoop, if_neg hk.ne'] at h
    obtain ⟨⟨n, m'⟩, -, h⟩ := bind_eq_ok h
    rw [if_pos hk] at h
    by_cases hn : n = 0
    · simp only [hn, ne_eq, not_true_eq_false, if_false, Nat.sub_zero, BitVec.add_zero] at h
      exact ih h
    · simp only [ne_eq, hn, not_false_eq_true, if_true] at h
      cases h
      rfl

theorem persistentReset_terminates_iff (htotal : store.block.Total) (item : Octet) :
    (Terminates fun fuel => persistentReset fuel store m item) ↔ store.FillEnds m := by
  have hsize : checksumSize store.type ≠ 0 := by cases store.type <;> decide
  constructor
  · intro hends
    obtain ⟨fuel, r, hok⟩ := hends.exists_ok
    obtain ⟨_, hwritten, -⟩ := bind_eq_ok hok
    exact (persistentWritten_ends htotal hwritten).imp_right fun h => h.resolve_left hsize
  · intro hcond
    refine (persistentWritten_terminates htotal store.checksumAddress item _
      (hcond.imp_right .inr)).bind ?_
    rintro ⟨rv, m₁⟩ ⟨fuel, hfuel⟩
    by_cases hrv : rv ≠ .success
    · exact .of_eq fun _ => if_pos hrv
    · simp only [if_neg hrv]
      refine persistentWritten_terminates htotal _ item _ (.inl fun hzero => hrv ?_)
      have hio : rv = .ioError :=
        persistentWritten_empty hzero (Nat.pos_of_ne_zero hsize) (hfuel fuel (le_refl fuel))
      rw [hio]
      decide

end Loops

/-- **Which requests end.** Once the stored checksum has been read, or a part has been written, or
    to begin with where the section is filled, the loop over the pieces ends unless the auxiliary
    buffer has size 0 and there is something to move, on a medium that moves no octets unasked. -/
theorem persistentStorage_terminates_iff (h : Host) (store : PersistentStorage μ)
    (htotal : store.block.Total) (m : μ) (src : Mem Octet) (offset n : Nat) (item : Octet) :
    ((Terminates fun fuel => persistentValidate h fuel store m) ↔
      ∃ sum m', store.block.read m store.checksumAddress (checksumSize store.type) = .ok (sum, m') ∧
        (sum.length ≠ checksumSize store.type ∨ store.ChecksumEnds m')) ∧
    ((Terminates fun fuel => persistentStorePart h fuel store m src offset n) ↔
      store.dataSize < sizeAdd offset n ∨
      ∃ written m', store.block.write m (store.dataAddress + BitVec.ofNat 32 offset)
          (src.slice 0 n) = .ok (written, m') ∧
        (written ≠ n ∨ (offset = 0 ∧ n = store.dataSize) ∨ store.ChecksumEnds m')) ∧
    ((Terminates fun fuel => persistentReset fuel store m item) ↔ store.FillEnds m) :=
  ⟨persistentValidate_terminates_iff h htotal, persistentStorePart_terminates_iff h htotal _ _ _,
    persistentReset_terminates_iff htotal item⟩

theorem ramBlock_total : ramBlock.Total :=
  ⟨fun _ _ _ => ⟨_, rfl⟩, fun _ _ _ => ⟨_, rfl⟩⟩

/-- Two octets of data in memory, and an auxiliary buffer of size 0. -/
def emptyBufferStore : PersistentStorage (Mem Octet) :=
  persistentBuffer (persistentInit 2 ramBlock) (some 0)

theorem persistentStorage_terminates_iff_sample :
    ((Terminates fun fuel => persistentValidate lp64Host fuel emptyBufferStore fun _ => 0) ↔
      ∃ sum m', ramBlock.read (fun _ => 0) 0 2 = .ok (sum, m') ∧
        (sum.length ≠ 2 ∨ emptyBufferStore.ChecksumEnds m')) ∧
    ((Terminates fun fuel =>
        persistentStorePart lp64Host fuel emptyBufferStore (fun _ => 0) (fun _ => 0) 0 1) ↔
      2 < sizeAdd 0 1 ∨
      ∃ written m', ramBlock.write (fun _ => 0) 2 [0] = .ok (written, m') ∧
        (written ≠ 1 ∨ (0 = 0 ∧ 1 = 2) ∨ emptyBufferStore.ChecksumEnds m')) ∧
    ((Terminates fun fuel => persistentReset fuel emptyBufferStore (fun _ => 0) 0) ↔
      emptyBufferStore.FillEnds fun _ => 0) :=
  persistentStorage_terminates_iff lp64Host emptyBufferStore ramBlock_total (fun _ => 0)
    (fun _ => 0) 0 1 0

/-- **With this buffer no request ends** that has to read or to fill the data. -/
theorem emptyBufferStore_endless :
    (¬ Terminates fun fuel => persistentValidate lp64Host fuel emptyBufferStore fun _ => 0) ∧
    (¬ Terminates fun fuel =>
      persistentStorePart lp64Host fuel emptyBufferStore (fun _ => 0) (fun _ => 0) 0 1) ∧
    (¬ Terminates fun fuel => persistentReset fuel emptyBufferStore (fun _ => 0) 0) := by
  have hread (m : Mem Octet) : ¬ emptyBufferStore.ChecksumEnds m := by
    rintro (hbuffer | hsize | hunasked)
    · exact hbuffer rfl
    · exact absurd hsize (by decide)
    · refine not_unasked (fun _ _ _ hcall => ?_) _ hunasked
      cases hcall
      rfl
  have hwrite : ¬ emptyBufferStore.FillEnds fun _ => 0 := by
    rintro (hbuffer | hunasked)
    · exact hbuffer rfl
    · refine not_unasked (fun _ _ _ hcall => ?_) _ hunasked
      cases hcall
      rfl
  refine ⟨fun hends => ?_, fun hends => ?_, fun hends => ?_⟩
  · obtain ⟨_, m', hok, hcond⟩ := (persistentValidate_terminates_iff _ ramBlock_total).mp hends
    cases hok
    exact hcond.elim (fun hlen => hlen rfl) (hread _)
  · rcases (persistentStorePart_terminates_iff _ ramBlock_total _ _ _).mp hends with
      hfit | ⟨_, m', hok, hcond⟩
    · exact absurd hfit (by decide)
    · cases hok
      rcases hcond with hlen | ⟨-, hwhole⟩ | hcalc
      · exact hlen rfl
      · exact absurd hwhole (by decide)
      · exact hread _ hcalc
  · exact hwrite ((persistentReset_terminates_iff ramBlock_total 0).mp hends)

end Ufw
