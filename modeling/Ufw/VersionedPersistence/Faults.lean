/-
  File:      Ufw/VersionedPersistence/Faults.lean
  Subject:   VERSIONED PERSISTENCE on a medium that fails.

  * `FaultyMedium` -- a medium every access of which fails or not, as a plan says;
  * `VpSpends` -- which part of the plan an operation has used up, with what each part of the code
    does on such a medium;
  * `VpIntact` -- what the header on the medium says of header and payload is true;
  * `VpSound` -- **the invariant**: the medium is intact where the instance is usable;
  * `VpSteady` -- nothing fails behind the first octet that a call writes to a usable instance;
  * `VpRun` -- runs of operations, with `vpUsable_intact`: **a usable instance is intact**, in every
    run in which nothing fails behind the first octet that is written to the payload of a usable
    instance. `vp_store` and `vp_memset` leave such an instance usable, whatever fails.
-/
import Ufw.VersionedPersistence

namespace Ufw

open Base

variable {α β : Type}

/-! ## 1. Media that fail -/

/-- An access that fails: what it reports, and how many octets it has stored before if it is a
    write. -/
structure VpFault where
  errno : Errno
  stored : Nat

/-- **A medium that fails**; `plan` says what becomes of the accesses to come. -/
structure FaultyMedium where
  cells : Mem Octet
  readAt : Nat
  writeAt : Nat
  plan : Nat → Option VpFault

/-- The medium behind an access. -/
def FaultyMedium.next (m : FaultyMedium) : FaultyMedium :=
  { m with plan := fun i => m.plan (i + 1) }

/-- The accesses to such a medium. A chunk of no octets is no access: `source_get_chunk` refuses it,
    and `sink_put_chunk` has nothing to do. -/
def faultyAccess (address : BitVec 32) : VpAccess FaultyMedium where
  address := address
  sourceSeek m n :=
    match m.plan 0 with
    | none => (.ok 0, { m.next with readAt := n })
    | some f => (.error f.errno, m.next)
  sourceGet _ m n :=
    if n = 0 then .ok (.error .einval, m)
    else
      match m.plan 0 with
      | none => .ok (.ok (m.cells.slice m.readAt n), { m.next with readAt := m.readAt + n })
      | some f => .ok (.error f.errno, m.next)
  sinkSeek m n :=
    match m.plan 0 with
    | none => (.ok 0, { m.next with writeAt := n })
    | some f => (.error f.errno, m.next)
  sinkPut _ m l :=
    if l = [] then .ok (.ok 0, m)
    else
      match m.plan 0 with
      | none => .ok (.ok l.length,
          { m.next with
            cells := m.cells.store m.writeAt l
            writeAt := m.writeAt + l.length })
      | some f => .ok (.error f.errno,
          { m.next with cells := m.cells.store m.writeAt (l.take f.stored) })
  get_whole h := by
    split at h
    · cases h
    · split at h
      · cases h
        exact Mem.length_slice _ _ _
      · cases h
  put_whole h := by
    split at h
    · rename_i hnil
      cases h
      rw [hnil]
      rfl
    · split at h
      · cases h
        rfl
      · cases h

/-- An instance on such a medium. -/
def faultyPersistence (address : BitVec 32) (spec : VpMeta) (chksum : VpChecksum) :
    VersionedPersistence FaultyMedium where
  data := faultyAccess address
  spec := spec
  chksum := chksum

/-- **What an operation that makes `c` accesses uses up of the plan**: an operation that succeeds
    meets no failure in its accesses, one that fails meets one. -/
def VpSpends (c : Nat) (m m' : FaultyMedium) : Except Errno α → Prop
  | .ok _ => (∀ i, i < c → m.plan i = none) ∧ ∀ i, m'.plan i = m.plan (c + i)
  | .error _ => ∃ i, i < c ∧ m.plan i ≠ none

/-- What an operation that writes nothing leaves as it was. -/
structure VpKept (s s' : VpState FaultyMedium) : Prop where
  metablock : s'.metablock = s.metablock
  state : s'.state = s.state
  cells : s'.driver.cells = s.driver.cells

theorem VpKept.refl (s : VpState FaultyMedium) : VpKept s s := ⟨rfl, rfl, rfl⟩

theorem VpKept.trans {s₁ s₂ s₃ : VpState FaultyMedium} (h : VpKept s₁ s₂) (h' : VpKept s₂ s₃) :
    VpKept s₁ s₃ :=
  ⟨h'.metablock.trans h.metablock, h'.state.trans h.state, h'.cells.trans h.cells⟩

namespace VpSpends

variable {c c' : Nat} {m m₁ m' : FaultyMedium}

/-- One access, which succeeds. -/
theorem one (hp : m.plan 0 = none) (hplan : ∀ i, m'.plan i = m.plan (i + 1)) (a : α) :
    VpSpends 1 m m' (.ok a : Except Errno α) := by
  refine ⟨fun i hi => ?_, fun i => by rw [hplan, Nat.add_comm]⟩
  rwa [Nat.lt_one_iff.mp hi]

/-- One access, which fails. -/
theorem one_failed {f : VpFault} (hp : m.plan 0 = some f) (e : Errno) :
    VpSpends 1 m m' (.error e : Except Errno α) :=
  ⟨0, Nat.one_pos, by rw [hp]; exact Option.some_ne_none f⟩

/-- No access. -/
theorem zero (hplan : m'.plan = m.plan) (a : α) : VpSpends 0 m m' (.ok a : Except Errno α) :=
  ⟨fun i hi => absurd hi (Nat.not_lt_zero i), fun i => by rw [hplan, Nat.zero_add]⟩

/-- **Two operations in a row.** -/
theorem trans {a : α} {rc : Except Errno β} (h : VpSpends c m m₁ (.ok a : Except Errno α))
    (h' : VpSpends c' m₁ m' rc) : VpSpends (c + c') m m' rc := by
  obtain ⟨hnone, hplan⟩ := h
  match rc, h' with
  | .ok b, ⟨hnone', hplan'⟩ =>
    refine ⟨fun i hi => ?_, fun i => by rw [hplan', hplan, Nat.add_assoc]⟩
    rcases Nat.lt_or_ge i c with hlt | hge
    · exact hnone i hlt
    · have hlate := hnone' (i - c) (by omega)
      rwa [hplan, Nat.add_sub_cancel' hge] at hlate
  | .error e, ⟨i, hi, hne⟩ => exact ⟨c + i, by omega, hplan i ▸ hne⟩

theorem mono {e : Errno} (h : VpSpends c m m' (.error e : Except Errno α)) (hc : c ≤ c')
    (e' : Errno) (m'' : FaultyMedium) : VpSpends c' m m'' (.error e' : Except Errno β) := by
  obtain ⟨i, hi, hne⟩ := h
  exact ⟨i, lt_of_lt_of_le hi hc, hne⟩

/-- The same for another result. -/
theorem cast_ok {a : α} (h : VpSpends c m m' (.ok a : Except Errno α)) (b : β) :
    VpSpends c m m' (.ok b : Except Errno β) := h

end VpSpends

/-! ## 2. What the parts of the code do there -/

section Parts

variable {h : Host} {address : BitVec 32} {spec : VpMeta} {chksum : VpChecksum}
  {s s' : VpState FaultyMedium} {rc : Rc} {fuel n : Nat}

theorem vpSourceSeek_faulty
    (hret : vpSourceSeek (faultyPersistence address spec chksum) s n = .ok (rc, s')) :
    VpKept s s' ∧ VpSpends 1 s.driver s'.driver rc ∧ (∀ k, rc = .ok k → s'.driver.readAt = n) := by
  unfold vpSourceSeek faultyPersistence faultyAccess at hret
  cases hp : s.driver.plan 0 with
  | none =>
    simp only [hp] at hret
    cases hret
    exact ⟨⟨rfl, rfl, rfl⟩, .one hp (fun _ => rfl) 0, fun _ _ => rfl⟩
  | some f =>
    simp only [hp] at hret
    cases hret
    exact ⟨⟨rfl, rfl, rfl⟩, .one_failed hp f.errno, fun _ hk => nomatch hk⟩

theorem vpSinkSeek_faulty
    (hret : vpSinkSeek (faultyPersistence address spec chksum) s n = .ok (rc, s')) :
    VpKept s s' ∧ VpSpends 1 s.driver s'.driver rc ∧ (∀ k, rc = .ok k → s'.driver.writeAt = n) := by
  unfold vpSinkSeek faultyPersistence faultyAccess at hret
  cases hp : s.driver.plan 0 with
  | none =>
    simp only [hp] at hret
    cases hret
    exact ⟨⟨rfl, rfl, rfl⟩, .one hp (fun _ => rfl) 0, fun _ _ => rfl⟩
  | some f =>
    simp only [hp] at hret
    cases hret
    exact ⟨⟨rfl, rfl, rfl⟩, .one_failed hp f.errno, fun _ hk => nomatch hk⟩

theorem vpSourceGet_faulty {got : Except Errno (List Octet)} (h0 : 0 < n)
    (hret : vpSourceGet fuel (faultyPersistence address spec chksum) s n = .ok (got, s')) :
    VpKept s s' ∧ VpSpends 1 s.driver s'.driver got ∧
    (∀ l, got = .ok l → l = s.driver.cells.slice s.driver.readAt n ∧
      s'.driver.readAt = s.driver.readAt + n) := by
  unfold vpSourceGet faultyPersistence faultyAccess at hret
  simp only [if_neg h0.ne'] at hret
  cases hp : s.driver.plan 0 with
  | none =>
    simp only [hp, ok_bind] at hret
    cases hret
    refine ⟨⟨rfl, rfl, rfl⟩, .one hp (fun _ => rfl) _, fun l hl => ?_⟩
    cases hl
    exact ⟨rfl, rfl⟩
  | some f =>
    simp only [hp, ok_bind] at hret
    cases hret
    exact ⟨⟨rfl, rfl, rfl⟩, .one_failed hp f.errno, fun _ hl => nomatch hl⟩

/-- **A write** stores all of its octets, or, where it fails, some of the first ones. -/
theorem vpSinkPut_faulty {l : List Octet} (hne : l ≠ [])
    (hret : vpSinkPut fuel (faultyPersistence address spec chksum) s l = .ok (rc, s')) :
    s'.metablock = s.metablock ∧ s'.state = s.state ∧ VpSpends 1 s.driver s'.driver rc ∧
    match rc with
    | .ok k => k = l.length ∧ s'.driver.cells = s.driver.cells.store s.driver.writeAt l ∧
        s'.driver.writeAt = s.driver.writeAt + l.length
    | .error _ => ∃ f, s.driver.plan 0 = some f ∧
        s'.driver.cells = s.driver.cells.store s.driver.writeAt (l.take f.stored) := by
  unfold vpSinkPut faultyPersistence faultyAccess at hret
  simp only [if_neg hne] at hret
  cases hp : s.driver.plan 0 with
  | none =>
    simp only [hp, ok_bind] at hret
    cases hret
    exact ⟨rfl, rfl, .one hp (fun _ => rfl) _, rfl, rfl, rfl⟩
  | some f =>
    simp only [hp, ok_bind] at hret
    cases hret
    exact ⟨rfl, rfl, .one_failed hp f.errno, f, rfl, rfl⟩

/-- **The checksum of a payload** is that of the cells, where nothing fails. -/
theorem payloadChecksumLoop_faulty (fuel : Nat) : ∀ {rest : Nat} {cs : BitVec 16}
    {s s' : VpState FaultyMedium} {rc : Except Errno (BitVec 16)},
    payloadChecksumLoop (faultyPersistence address spec chksum) fuel rest cs s = .ok (rc, s') →
    VpKept s s' ∧ VpSpends (vpPieces rest) s.driver s'.driver rc ∧
    ∀ sum, rc = .ok sum → sum = piecewise chksum.process (vpPieces rest) cs
      (s.driver.cells.slice s.driver.readAt rest) := by
  induction fuel with
  | zero => exact fun hret => by cases hret
  | succ fuel ih =>
    intro rest cs s s' rc hret
    rw [payloadChecksumLoop] at hret
    by_cases h0 : 0 < rest
    · rw [if_pos h0] at hret
      rw [vpPieces_pos h0, Nat.add_comm]
      rcases maybe_eq_ok hret with ⟨e, hget, rfl⟩ | ⟨l, s₁, hget, hloop⟩
      · obtain ⟨hkept, hspends, -⟩ := vpSourceGet_faulty (vpPiece_pos h0) hget
        exact ⟨hkept, hspends.mono (Nat.le_add_right _ _) e _, fun _ hsum => nomatch hsum⟩
      · obtain ⟨hkept, hspends, hgot⟩ := vpSourceGet_faulty (vpPiece_pos h0) hget
        obtain ⟨rfl, hat⟩ := hgot l rfl
        rw [Mem.length_slice] at hloop
        obtain ⟨hkept', hspends', hsum⟩ := ih hloop
        refine ⟨hkept.trans hkept', hspends.trans hspends', fun sum hok => ?_⟩
        rw [hsum sum hok, hkept.cells, hat, Nat.add_comm 1, ← vpPieces_pos h0,
          piecewise_slice _ _ _ h0]
        rfl
    · rw [if_neg h0] at hret
      cases hret
      obtain rfl : rest = 0 := by omega
      refine ⟨.refl s, .zero rfl cs, fun sum hok => ?_⟩
      cases hok
      rfl

theorem vpCalculatePayloadChecksum_faulty
    (hret : vpCalculatePayloadChecksum fuel (faultyPersistence address spec chksum) s n =
      .ok (rc, s')) :
    VpKept s s' ∧ VpSpends (1 + vpPieces n) s.driver s'.driver rc ∧
    ∀ k, rc = .ok k → s'.result.payload = payloadSum (faultyPersistence address spec chksum)
      (s.driver.cells.slice (faultyPersistence address spec chksum).payload n) := by
  rcases maybe_eq_ok hret with ⟨e, hseek, rfl⟩ | ⟨k, s₁, hseek, hret⟩
  · obtain ⟨hkept, hspends, -⟩ := vpSourceSeek_faulty hseek
    exact ⟨hkept, hspends.mono (Nat.le_add_right _ _) e _, fun _ hk => nomatch hk⟩
  · obtain ⟨hkept, hspends, hat⟩ := vpSourceSeek_faulty hseek
    rcases maybe_eq_ok hret with ⟨e, hloop, rfl⟩ | ⟨sum, s₂, hloop, hret⟩
    · obtain ⟨hkept', hspends', -⟩ := payloadChecksumLoop_faulty fuel hloop
      exact ⟨hkept.trans hkept', hspends.trans hspends', fun _ hk => nomatch hk⟩
    · obtain ⟨hkept', hspends', hsum⟩ := payloadChecksumLoop_faulty fuel hloop
      cases hret
      have hall := hkept.trans hkept'
      refine ⟨⟨hall.metablock, hall.state, hall.cells⟩, hspends.trans (hspends'.cast_ok 0), ?_⟩
      intro _ _
      show sum = _
      rw [hsum sum rfl, hkept.cells, hat k rfl, payloadSum, Mem.length_slice]
      rfl

/-- **The checksums are brought up to date**, in the cache. -/
theorem vpUpdateChecksums_faulty
    (hret : vpUpdateChecksums h fuel (faultyPersistence address spec chksum) s = .ok (rc, s')) :
    s'.state = s.state ∧ s'.driver.cells = s.driver.cells ∧
    VpSpends (1 + vpPieces s.metablock.length.toNat) s.driver s'.driver rc ∧
    match rc with
    | .ok _ => s'.metablock = s.metablock.sealed h (faultyPersistence address spec chksum)
        (payloadSum (faultyPersistence address spec chksum)
          (s.driver.cells.slice (faultyPersistence address spec chksum).payload
            s.metablock.length.toNat))
    | .error _ => s'.metablock = s.metablock := by
  rcases maybe_eq_ok hret with ⟨e, hsum, rfl⟩ | ⟨k, s₁, hsum, hret⟩
  · obtain ⟨hkept, hspends, -⟩ := vpCalculatePayloadChecksum_faulty hsum
    exact ⟨hkept.state, hkept.cells, hspends, hkept.metablock⟩
  · obtain ⟨hkept, hspends, hpayload⟩ := vpCalculatePayloadChecksum_faulty hsum
    cases hret
    refine ⟨hkept.state, hkept.cells, hspends.cast_ok 0, ?_⟩
    rw [← hpayload k rfl, ← hkept.metablock]
    rfl

theorem octets_ne_nil (h : Host) (b : Metablock) : b.octets h ≠ [] := by
  refine List.ne_nil_of_length_pos ?_
  rw [Metablock.length_octets]
  decide

/-- **The header is written**, or, where that fails, some octets of it. -/
theorem vpStoreHeader_faulty
    (hret : vpStoreHeader h fuel (faultyPersistence address spec chksum) s = .ok (rc, s')) :
    s'.metablock = s.metablock ∧ s'.state = s.state ∧ VpSpends 2 s.driver s'.driver rc ∧
    ∃ k, s'.driver.cells = s.driver.cells.store address.toNat ((s.metablock.octets h).take k) ∧
      (∀ a, rc = .ok a → k = vpSizeMeta) := by
  rcases maybe_eq_ok hret with ⟨e, hseek, rfl⟩ | ⟨k, s₁, hseek, hret⟩
  · obtain ⟨hkept, hspends, -⟩ := vpSinkSeek_faulty hseek
    refine ⟨hkept.metablock, hkept.state, hspends.mono (by omega) e _, 0, ?_,
      fun _ hk => nomatch hk⟩
    rw [hkept.cells, List.take_zero, Mem.store_nil]
  · obtain ⟨hkept, hspends, hat⟩ := vpSinkSeek_faulty hseek
    have hstart : s₁.driver.writeAt = address.toNat := hat k rfl
    rcases maybe_eq_ok hret with ⟨e, hput, rfl⟩ | ⟨a, s₂, hput, hret⟩
    · obtain ⟨hmeta, hstate, hspends', f, -, hcells⟩ := vpSinkPut_faulty (octets_ne_nil h _) hput
      refine ⟨hmeta.trans hkept.metablock, hstate.trans hkept.state, hspends.trans hspends',
        f.stored, ?_, fun _ hk => nomatch hk⟩
      rw [hcells, hkept.cells, hstart, hkept.metablock]
    · obtain ⟨hmeta, hstate, hspends', -, hcells, -⟩ := vpSinkPut_faulty (octets_ne_nil h _) hput
      cases hret
      refine ⟨hmeta.trans hkept.metablock, hstate.trans hkept.state,
        hspends.trans (hspends'.cast_ok 0), vpSizeMeta, ?_, fun _ _ => rfl⟩
      rw [hcells, hkept.cells, hstart, hkept.metablock,
        List.take_of_length_le (le_of_eq (Metablock.length_octets h _))]

end Parts

/-! ## 3. The invariant -/

variable {δ : Type}

/-- The header on a medium. -/
def headerOf (h : Host) (vp : VersionedPersistence δ) (cells : Mem Octet) : Metablock :=
  .ofOctets h (cells.slice vp.data.address.toNat vpSizeMeta)

/-- **What the header on a medium says is true**: both checksums match. -/
structure VpIntact (h : Host) (vp : VersionedPersistence δ) (cells : Mem Octet) : Prop where
  header : (headerOf h vp cells).headerChksum = headerSum h vp (headerOf h vp cells)
  payload : (headerOf h vp cells).payloadChksum =
    payloadSum vp (cells.slice vp.payload (headerOf h vp cells).length.toNat)

/-- The cache holds the header of an intact medium, and it fits the specification. -/
structure VpCached (h : Host) (vp : VersionedPersistence FaultyMedium)
    (s : VpState FaultyMedium) : Prop where
  header : s.metablock = headerOf h vp s.driver.cells
  length : s.metablock.length = vp.spec.length
  version : s.metablock.version = vp.spec.version
  intact : VpIntact h vp s.driver.cells

/-- **The invariant.** The payload counts as verified only while a header is cached; and where the
    instance is usable, the medium is intact. -/
structure VpSound (h : Host) (vp : VersionedPersistence FaultyMedium)
    (s : VpState FaultyMedium) : Prop where
  active : bitIsset s.state vpStatePayloadConsistent = true →
    bitIsset s.state vpStateMetaCacheActive = true
  cached : vpUsable s = true → VpCached h vp s

section Invariant

variable {h : Host} {vp : VersionedPersistence FaultyMedium} {s s' : VpState FaultyMedium}

theorem VpCached.of_same (hc : VpCached h vp s) (hmeta : s'.metablock = s.metablock)
    (hcells : s'.driver.cells = s.driver.cells) : VpCached h vp s' := by
  refine ⟨?_, ?_, ?_, ?_⟩
  · rw [hmeta, hcells]
    exact hc.header
  · rw [hmeta]
    exact hc.length
  · rw [hmeta]
    exact hc.version
  · rw [hcells]
    exact hc.intact

theorem VpCached.of_kept (hc : VpCached h vp s) (hk : VpKept s s') : VpCached h vp s' :=
  hc.of_same hk.metablock hk.cells

/-- A header whose checksums match is what `vp_update_checksums` makes of it. -/
theorem VpCached.sealed (hc : VpCached h vp s) : s.metablock.sealed h vp
    (payloadSum vp (s.driver.cells.slice vp.payload s.metablock.length.toNat)) = s.metablock := by
  refine Metablock.sealed_of_sums ?_ ?_
  · rw [hc.header]
    exact hc.intact.header
  · rw [hc.header]
    exact hc.intact.payload

/-- The octets of a header that is on the medium. -/
theorem VpCached.octets (hc : VpCached h vp s) : s.metablock.octets h =
    s.driver.cells.slice vp.data.address.toNat vpSizeMeta := by
  rw [hc.header]
  exact Metablock.octets_ofOctets h (Mem.length_slice _ _ _)

namespace VpSound

theorem of_inconsistent (hp : bitIsset s.state vpStatePayloadConsistent = false) :
    VpSound h vp s where
  active := fun hc => absurd (hp.symm.trans hc) Bool.false_ne_true
  cached := fun hu => absurd (hp.symm.trans ((vpUsable_iff s).mp hu).2.2) Bool.false_ne_true

/-- Only while a header is cached. -/
theorem inconsistent (hs : VpSound h vp s)
    (hact : bitIsset s.state vpStateMetaCacheActive = false) :
    bitIsset s.state vpStatePayloadConsistent = false :=
  Bool.eq_false_iff.mpr fun hp => Bool.false_ne_true (hact.symm.trans (hs.active hp))

/-- The flags are what they were. -/
theorem of_state (hs : VpSound h vp s) (hst : s'.state = s.state)
    (hc : VpCached h vp s → VpCached h vp s') : VpSound h vp s' where
  active := fun hp => by
    rw [hst] at hp ⊢
    exact hs.active hp
  cached := fun hu => by
    rw [vpUsable, hst] at hu
    exact hc (hs.cached hu)

/-- Nothing has changed but the results of the checksums. -/
theorem of_kept (hs : VpSound h vp s) (hk : VpKept s s') : VpSound h vp s' :=
  hs.of_state hk.state fun hc => hc.of_kept hk

theorem loadMeta (hs : VpSound h vp s) : VpSound h vp (loadMetaFromSpec vp s) where
  active := fun _ => loadMeta_active vp s
  cached := fun hu => by
    rw [vpUsable, loadMeta_isset vp s (by decide) (by decide)] at hu
    obtain ⟨hheader, hlength, hversion, hintact⟩ := hs.cached hu
    have hsame : (loadMetaFromSpec vp s).metablock = s.metablock := by
      show { s.metablock with version := vp.spec.version, length := vp.spec.length } = s.metablock
      rw [← hlength, ← hversion]
    exact ⟨hsame.trans hheader, rfl, rfl, hintact⟩

theorem activate (hs : VpSound h vp s) : VpSound h vp (vpActivate vp s) := by
  unfold vpActivate
  split
  · exact hs.loadMeta
  · exact hs

/-- The cache of a usable instance is filled already. -/
theorem activate_usable (hs : VpSound h vp s) (hu : vpUsable s = true) : vpActivate vp s = s :=
  vpActivate_of_active (hs.active ((vpUsable_iff s).mp hu).2.2)

end VpSound

end Invariant

/-! ## 4. The parts that change the medium or the flags -/

section Changes

variable {h : Host} {address : BitVec 32} {spec : VpMeta} {chksum : VpChecksum}
  {s s' : VpState FaultyMedium} {rc : Rc} {fuel n : Nat}

/-- A header that was written is the header on the medium. -/
theorem headerOf_store (vp : VersionedPersistence δ) (cells : Mem Octet) (b : Metablock) :
    headerOf h vp (cells.store vp.data.address.toNat (b.octets h)) = b := by
  have hslice := Mem.slice_store cells vp.data.address.toNat (b.octets h)
  rw [Metablock.length_octets] at hslice
  rw [headerOf, hslice, Metablock.ofOctets_octets]

/-- **Behind `vp_update_meta` the medium is intact**, if it succeeds. -/
theorem vpUpdateMeta_faulty (hact : bitIsset s.state vpStateMetaCacheActive = true)
    (hret : vpUpdateMeta h fuel (faultyPersistence address spec chksum) s = .ok (rc, s')) :
    s'.state = s.state ∧
    VpSpends (1 + vpPieces s.metablock.length.toNat + 2) s.driver s'.driver rc ∧
    ∀ k, rc = .ok k →
      s'.metablock = headerOf h (faultyPersistence address spec chksum) s'.driver.cells ∧
      s'.metablock.length = s.metablock.length ∧ s'.metablock.version = s.metablock.version ∧
      VpIntact h (faultyPersistence address spec chksum) s'.driver.cells := by
  rw [vpUpdateMeta, vpActivate_of_active hact] at hret
  rcases maybe_eq_ok hret with ⟨e, hsums, rfl⟩ | ⟨k, s₁, hsums, hstore⟩
  · obtain ⟨hstate, -, hspends, -⟩ := vpUpdateChecksums_faulty hsums
    exact ⟨hstate, hspends.mono (Nat.le_add_right _ _) e _, fun _ hk => nomatch hk⟩
  · obtain ⟨hstate, hcells, hspends, hsealed⟩ := vpUpdateChecksums_faulty hsums
    obtain ⟨hmeta, hstate', hspends', j, hcells', hall⟩ := vpStoreHeader_faulty hstore
    refine ⟨hstate'.trans hstate, hspends.trans hspends', fun k hk => ?_⟩
    have hwhole : s'.driver.cells = s.driver.cells.store address.toNat (s₁.metablock.octets h) := by
      rw [hcells', hcells, hall k hk,
        List.take_of_length_le (le_of_eq (Metablock.length_octets h _))]
    have hheader : headerOf h (faultyPersistence address spec chksum) s'.driver.cells =
        s₁.metablock := by
      rw [hwhole]
      exact headerOf_store (faultyPersistence address spec chksum) s.driver.cells s₁.metablock
    have hpayload : s'.driver.cells.slice (faultyPersistence address spec chksum).payload
        s.metablock.length.toNat =
        s.driver.cells.slice (faultyPersistence address spec chksum).payload
          s.metablock.length.toNat := by
      rw [hwhole]
      refine Mem.slice_store_apart _ (.inr ?_)
      rw [Metablock.length_octets]
      exact le_refl _
    refine ⟨by rw [hheader, hmeta], by rw [hmeta, hsealed]; rfl, by rw [hmeta, hsealed]; rfl,
      ?_, ?_⟩
    · rw [hheader, hsealed]
      rfl
    · rw [hheader, hsealed]
      exact congrArg (payloadSum _) hpayload.symm

theorem vpReadMeta_faulty
    (hret : vpReadMeta h fuel (faultyPersistence address spec chksum) s = .ok (rc, s')) :
    s'.driver.cells = s.driver.cells ∧
    match rc with
    | .ok _ => s'.state = bitSet s.state vpMetaRead ∧
        s'.metablock = headerOf h (faultyPersistence address spec chksum) s'.driver.cells ∧
        s'.metablock.headerChksum =
          headerSum h (faultyPersistence address spec chksum) s'.metablock
    | .error _ => s'.state = s.state ∨ s'.state = bitClear s.state vpMetaRead := by
  rcases maybe_eq_ok hret with ⟨e, hseek, rfl⟩ | ⟨k, s₁, hseek, hret⟩
  · obtain ⟨hkept, -, -⟩ := vpSourceSeek_faulty hseek
    exact ⟨hkept.cells, .inl hkept.state⟩
  · obtain ⟨hkept, -, hat⟩ := vpSourceSeek_faulty hseek
    have hstart : s₁.driver.readAt = address.toNat := hat k rfl
    rcases maybe_eq_ok hret with ⟨e, hget, rfl⟩ | ⟨l, s₂, hget, hret⟩
    · obtain ⟨hkept', -, -⟩ := vpSourceGet_faulty (by decide) hget
      exact ⟨hkept'.cells.trans hkept.cells, .inl (hkept'.state.trans hkept.state)⟩
    · obtain ⟨hkept', -, hgot⟩ := vpSourceGet_faulty (by decide) hget
      obtain ⟨rfl, -⟩ := hgot l rfl
      have hall := hkept.trans hkept'
      dsimp only [vpCalculateHeaderChecksum] at hret
      split at hret
      · cases hret
        exact ⟨hall.cells, .inr (congrArg (bitClear · vpMetaRead) hall.state)⟩
      · rename_i hsum
        cases hret
        refine ⟨hall.cells, congrArg (bitSet · vpMetaRead) hall.state, ?_, not_not.mp hsum⟩
        show Metablock.ofOctets h _ = _
        rw [headerOf, hstart]
        show _ = Metablock.ofOctets h (Mem.slice s₂.driver.cells _ _)
        rw [hkept'.cells]
        rfl

/-- **The loop of `vp_memset`** changes nothing where its first write stores nothing. -/
theorem memsetLoop_faulty (c : Octet) (fuel : Nat) : ∀ {rest : Nat} {s s' : VpState FaultyMedium}
    {rc : Rc}, memsetLoop (faultyPersistence address spec chksum) c fuel rest s = .ok (rc, s') →
    s'.metablock = s.metablock ∧ s'.state = s.state ∧
    VpSpends (vpPieces rest) s.driver s'.driver rc ∧
    (∀ f, s.driver.plan 0 = some f → f.stored = 0 → s'.driver.cells = s.driver.cells) ∧
    (rest = 0 → s'.driver.cells = s.driver.cells) := by
  induction fuel with
  | zero => exact fun hret => by cases hret
  | succ fuel ih =>
    intro rest s s' rc hret
    rw [memsetLoop] at hret
    by_cases h0 : 0 < rest
    · rw [if_pos h0] at hret
      have hp := vpPiece_pos h0
      have hne : List.replicate (vpPiece rest) c ≠ [] :=
        List.ne_nil_of_length_pos (by rw [List.length_replicate]; exact hp)
      rw [vpPieces_pos h0, Nat.add_comm]
      rcases maybe_eq_ok hret with ⟨e, hput, rfl⟩ | ⟨k, s₁, hput, hloop⟩
      · obtain ⟨hmeta, hstate, hspends, f, hf, hcells⟩ := vpSinkPut_faulty hne hput
        refine ⟨hmeta, hstate, hspends.mono (Nat.le_add_right _ _) e _, fun f' hf' hnone => ?_,
          fun hz => absurd hz h0.ne'⟩
        obtain rfl : f = f' := Option.some.inj (hf.symm.trans hf')
        rw [hcells, hnone, List.take_zero, Mem.store_nil]
      · obtain ⟨hmeta, hstate, hspends, hk, -, -⟩ := vpSinkPut_faulty hne hput
        rw [hk, List.length_replicate] at hloop
        obtain ⟨hmeta', hstate', hspends', -, -⟩ := ih hloop
        refine ⟨hmeta'.trans hmeta, hstate'.trans hstate, hspends.trans hspends',
          fun f hf _ => ?_, fun hz => absurd hz h0.ne'⟩
        rw [hspends.1 0 Nat.one_pos] at hf
        cases hf
    · rw [if_neg h0] at hret
      cases hret
      obtain rfl : rest = 0 := by omega
      exact ⟨rfl, rfl, .zero rfl 0, fun _ _ _ => rfl, fun _ => rfl⟩

/-- A request to write data that is accepted, and is none for nothing; `last` is where it ends. -/
def VpAccepted (s : VpState δ) (last n : Nat) : Prop := last ≤ s.metablock.length.toNat ∧ 0 < n

/-- **What the first part of `vp_store` or `vp_memset` leaves**, which makes `w` writes: either the
    cells are what they were, or the request was accepted and neither its seek nor its first write
    has failed before an octet was stored. -/
structure VpWrote (w last n : Nat) (s s' : VpState FaultyMedium) (rc : Rc) : Prop where
  metablock : s'.metablock = s.metablock
  state : s'.state = s.state
  wrote : s'.driver.cells = s.driver.cells ∨
    VpAccepted s last n ∧ VpSpends (1 + w) s.driver s'.driver rc ∧ s.driver.plan 0 = none ∧
    ∀ f, s.driver.plan 1 = some f → f.stored ≠ 0

theorem VpWrote.of_kept {w last : Nat} (hk : VpKept s s') : VpWrote w last n s s' rc :=
  ⟨hk.metablock, hk.state, .inl hk.cells⟩

theorem vpStoreData_faulty {src : Mem Octet} {offset : Nat}
    (hret : vpStoreData fuel (faultyPersistence address spec chksum) s src offset n =
      .ok (rc, s')) :
    VpWrote 1 (sizeAdd offset n) n
    (vpActivate (faultyPersistence address spec chksum) s) s' rc := by
  unfold vpStoreData at hret
  dsimp only at hret
  split at hret
  · cases hret
    exact .of_kept (.refl _)
  · split at hret
    · cases hret
      exact .of_kept (.refl _)
    · rename_i hlt
      rcases maybe_eq_ok hret with ⟨e, hseek, rfl⟩ | ⟨k, s₁, hseek, hput⟩
      · exact .of_kept (vpSinkSeek_faulty hseek).1
      · obtain ⟨hkept, hspends, -⟩ := vpSinkSeek_faulty hseek
        rcases Nat.eq_zero_or_pos n with rfl | h0
        · cases hput
          exact .of_kept ⟨hkept.metablock, hkept.state, hkept.cells⟩
        · have hne : src.slice 0 n ≠ [] :=
            List.ne_nil_of_length_pos (by rw [Mem.length_slice]; exact h0)
          obtain ⟨hmeta, hstate, hspends', hcells⟩ := vpSinkPut_faulty hne hput
          refine ⟨hmeta.trans hkept.metablock, hstate.trans hkept.state, ?_⟩
          by_cases hnone : ∀ f, s₁.driver.plan 0 = some f → f.stored ≠ 0
          · rw [hspends.2] at hnone
            exact .inr ⟨⟨not_lt.mp hlt, h0⟩, hspends.trans hspends', hspends.1 0 Nat.one_pos, hnone⟩
          · left
            push Not at hnone
            obtain ⟨f, hf, hzero⟩ := hnone
            cases rc with
            | ok k =>
              rw [hspends'.1 0 Nat.one_pos] at hf
              cases hf
            | error e =>
              obtain ⟨f', hf', hcells⟩ := hcells
              obtain rfl : f = f' := Option.some.inj (hf.symm.trans hf')
              rw [hcells, hzero, List.take_zero, Mem.store_nil]
              exact hkept.cells

theorem vpMemsetData_faulty {c : Octet} {offset : Nat}
    (hret : vpMemsetData fuel (faultyPersistence address spec chksum) s c offset n =
      .ok (rc, s')) :
    VpWrote (vpPieces n) (sizeAdd n offset) n (vpActivate (faultyPersistence address spec chksum) s)
      s' rc := by
  unfold vpMemsetData at hret
  dsimp only at hret
  split at hret
  · cases hret
    exact .of_kept (.refl _)
  · rename_i hlt
    rcases maybe_eq_ok hret with ⟨e, hseek, rfl⟩ | ⟨k, s₁, hseek, hloop⟩
    · exact .of_kept (vpSinkSeek_faulty hseek).1
    · obtain ⟨hkept, hspends, -⟩ := vpSinkSeek_faulty hseek
      obtain ⟨hmeta, hstate, hspends', hfirst, hnothing⟩ := memsetLoop_faulty c fuel hloop
      refine ⟨hmeta.trans hkept.metablock, hstate.trans hkept.state, ?_⟩
      rcases Nat.eq_zero_or_pos n with h0 | h0
      · exact .inl ((hnothing h0).trans hkept.cells)
      · by_cases hnone : ∀ f, s₁.driver.plan 0 = some f → f.stored ≠ 0
        · rw [hspends.2] at hnone
          exact .inr ⟨⟨not_lt.mp hlt, h0⟩, hspends.trans hspends', hspends.1 0 Nat.one_pos, hnone⟩
        · push Not at hnone
          obtain ⟨f, hf, hzero⟩ := hnone
          exact .inl ((hfirst f hf hzero).trans hkept.cells)

/-! Where the cache holds the header of an intact medium, a header that is written once more changes
    nothing, wherever that fails. -/

theorem vpUpdateChecksums_cached (hc : VpCached h (faultyPersistence address spec chksum) s)
    (hret : vpUpdateChecksums h fuel (faultyPersistence address spec chksum) s = .ok (rc, s')) :
    VpKept s s' := by
  obtain ⟨hstate, hcells, -, hmeta⟩ := vpUpdateChecksums_faulty hret
  cases rc with
  | ok k => exact ⟨hmeta.trans hc.sealed, hstate, hcells⟩
  | error e => exact ⟨hmeta, hstate, hcells⟩

theorem vpStoreHeader_cached (hc : VpCached h (faultyPersistence address spec chksum) s)
    (hret : vpStoreHeader h fuel (faultyPersistence address spec chksum) s = .ok (rc, s')) :
    VpKept s s' := by
  obtain ⟨hmeta, hstate, -, k, hcells, -⟩ := vpStoreHeader_faulty hret
  refine ⟨hmeta, hstate, ?_⟩
  rw [hcells, hc.octets]
  exact Mem.store_slice_take _ _ _ _

theorem vpUpdateMeta_cached (hact : bitIsset s.state vpStateMetaCacheActive = true)
    (hc : VpCached h (faultyPersistence address spec chksum) s)
    (hret : vpUpdateMeta h fuel (faultyPersistence address spec chksum) s = .ok (rc, s')) :
    VpKept s s' := by
  rw [vpUpdateMeta, vpActivate_of_active hact] at hret
  rcases maybe_eq_ok hret with ⟨e, hsums, -⟩ | ⟨k, s₁, hsums, hstore⟩
  · exact vpUpdateChecksums_cached hc hsums
  · have hkept := vpUpdateChecksums_cached hc hsums
    exact hkept.trans (vpStoreHeader_cached (hc.of_kept hkept) hstore)

theorem VpSound.updateChecksums (hs : VpSound h (faultyPersistence address spec chksum) s)
    (hret : vpUpdateChecksums h fuel (faultyPersistence address spec chksum) s = .ok (rc, s')) :
    VpSound h (faultyPersistence address spec chksum) s' :=
  hs.of_state (vpUpdateChecksums_faulty hret).1 fun hc =>
    hc.of_kept (vpUpdateChecksums_cached hc hret)

theorem VpSound.storeHeader (hs : VpSound h (faultyPersistence address spec chksum) s)
    (hret : vpStoreHeader h fuel (faultyPersistence address spec chksum) s = .ok (rc, s')) :
    VpSound h (faultyPersistence address spec chksum) s' :=
  hs.of_state (vpStoreHeader_faulty hret).2.1 fun hc => hc.of_kept (vpStoreHeader_cached hc hret)

end Changes

/-! ## 5. The operations -/

/-- **Nothing fails behind the first octet that is written**, of an operation that seeks, writes and
    makes `c` accesses in all. -/
def VpUnbroken (plan : Nat → Option VpFault) (c : Nat) : Prop :=
  plan 0 ≠ none ∨ (∃ f, plan 1 = some f ∧ f.stored = 0) ∨ ∀ i, i < c → plan i = none

theorem VpUnbroken.none {plan : Nat → Option VpFault} {c : Nat} (h : VpUnbroken plan c)
    (h0 : plan 0 = none) (h1 : ∀ f, plan 1 = some f → f.stored ≠ 0) :
    ∀ i, i < c → plan i = none := by
  rcases h with hseek | ⟨f, hf, hstored⟩ | hnone
  · exact absurd h0 hseek
  · exact absurd hstored (h1 f hf)
  · exact hnone

/-- How many accesses `vp_update_meta` makes. -/
def vpMetaAccesses (s : VpState δ) : Nat := 1 + vpPieces s.metablock.length.toNat + 2

/-- **A request to write data that a usable instance accepts is unbroken**, which makes `w`
    writes. -/
def VpSteady (w last n : Nat) (s : VpState FaultyMedium) : Prop :=
  vpUsable s = true → VpAccepted s last n → VpUnbroken s.driver.plan (1 + w + vpMetaAccesses s)

section Operations

variable {h : Host} {address : BitVec 32} {spec : VpMeta} {chksum : VpChecksum}
  {s s₁ s' : VpState FaultyMedium} {rc : Rc} {fuel n offset w last : Nat}

theorem VpSteady.activate {vp : VersionedPersistence FaultyMedium} (ht : VpSteady w last n s)
    (hs : VpSound h vp s) : VpSteady w last n (vpActivate vp s) := by
  intro hu
  rw [vpUsable_activate] at hu
  rw [hs.activate_usable hu]
  exact ht hu

/-- **Behind a write of data that has failed.** -/
theorem VpSound.wrote_error {e : Errno} (hs : VpSound h (faultyPersistence address spec chksum) s)
    (ht : VpSteady w last n s) (hw : VpWrote w last n s s' (.error e)) :
    VpSound h (faultyPersistence address spec chksum) s' where
  active := by
    rw [hw.state]
    exact hs.active
  cached := fun hu => by
    rw [vpUsable, hw.state] at hu
    rcases hw.wrote with hcells | ⟨hacc, ⟨i, hi, hne⟩, h0, h1⟩
    · exact (hs.cached hu).of_same hw.metablock hcells
    · exact absurd ((ht hu hacc).none h0 h1 i (by omega)) hne

/-- **Data were written, and `vp_update_meta` has returned.** -/
theorem VpSound.wrote_ok {k : Nat} (hs : VpSound h (faultyPersistence address spec chksum) s)
    (ht : VpSteady w last n s) (hw : VpWrote w last n s s₁ (.ok k))
    (hact : bitIsset s.state vpStateMetaCacheActive = true)
    (hret : vpUpdateMeta h fuel (faultyPersistence address spec chksum) s₁ = .ok (rc, s')) :
    VpSound h (faultyPersistence address spec chksum) s' := by
  have hact₁ : bitIsset s₁.state vpStateMetaCacheActive = true := by
    rw [hw.state]
    exact hact
  obtain ⟨hstate, hspends, hintact⟩ := vpUpdateMeta_faulty hact₁ hret
  have hall : s'.state = s.state := hstate.trans hw.state
  refine ⟨by rw [hall]; exact hs.active, fun hu => ?_⟩
  rw [vpUsable, hall] at hu
  have hc := hs.cached hu
  rcases hw.wrote with hcells | ⟨hacc, hbefore, h0, h1⟩
  · have hc₁ := hc.of_same hw.metablock hcells
    exact hc₁.of_kept (vpUpdateMeta_cached hact₁ hc₁ hret)
  · have hnone := (ht hu hacc).none h0 h1
    rw [hw.metablock] at hspends
    cases rc with
    | error e =>
      obtain ⟨i, hi, hne⟩ := hbefore.trans hspends
      exact absurd (hnone i hi) hne
    | ok k =>
      obtain ⟨hheader, hlength, hversion, hmedium⟩ := hintact k rfl
      rw [hw.metablock] at hlength hversion
      exact ⟨hheader, hlength.trans hc.length, hversion.trans hc.version, hmedium⟩

/-- **`vp_store`** -/
theorem VpSound.store {src : Mem Octet} (hs : VpSound h (faultyPersistence address spec chksum) s)
    (ht : VpSteady 1 (sizeAdd offset n) n s)
    (hret : vpStore h fuel (faultyPersistence address spec chksum) s src offset n = .ok (rc, s')) :
    VpSound h (faultyPersistence address spec chksum) s' := by
  have ht' := ht.activate hs
  rcases maybe_eq_ok hret with ⟨e, hdata, -⟩ | ⟨k, s₁, hdata, hret⟩
  · exact hs.activate.wrote_error ht' (vpStoreData_faulty hdata)
  · have hw := vpStoreData_faulty hdata
    rcases maybe_eq_ok hret with ⟨e, hupdate, -⟩ | ⟨k', s₂, hupdate, hret⟩
    · exact hs.activate.wrote_ok ht' hw (vpActivate_active _ _) hupdate
    · cases hret
      exact hs.activate.wrote_ok ht' hw (vpActivate_active _ _) hupdate

/-- **`vp_memset`** -/
theorem VpSound.memset {c : Octet} (hs : VpSound h (faultyPersistence address spec chksum) s)
    (ht : VpSteady (vpPieces n) (sizeAdd n offset) n s)
    (hret : vpMemset h fuel (faultyPersistence address spec chksum) s c offset n = .ok (rc, s')) :
    VpSound h (faultyPersistence address spec chksum) s' := by
  have ht' := ht.activate hs
  rcases maybe_eq_ok hret with ⟨e, hdata, -⟩ | ⟨k, s₁, hdata, hupdate⟩
  · exact hs.activate.wrote_error ht' (vpMemsetData_faulty hdata)
  · exact hs.activate.wrote_ok ht' (vpMemsetData_faulty hdata) (vpActivate_active _ _) hupdate

/-- What `vp_invalidate` changes before it writes the header. -/
def vpWithdraw (h : Host) (vp : VersionedPersistence δ) (s : VpState δ) (parts : BitVec 32) :
    VpState δ :=
  let s :=
    if bitIsset parts vpDataPayload then
      let s := putPayloadChksum s (s.metablock.payloadChksum ^^^ 0xffff)
      let s := { s with state := bitClear s.state vpStatePayloadConsistent }
      let s := vpCalculateHeaderChecksum h vp s
      putHeaderChksum s s.result.header
    else s
  if bitIsset parts vpDataMeta then
    let s := putHeaderChksum s (s.metablock.headerChksum ^^^ 0xffff)
    { s with state := bitClear s.state vpStateMetaConsistent }
  else s

theorem vpInvalidate_eq (vp : VersionedPersistence δ) (s : VpState δ) (parts : BitVec 32) :
    vpInvalidate h fuel vp s parts =
      if parts = 0 then .ok (.ok 0, vpActivate vp s)
      else maybe (vpUpdateChecksums h fuel vp (vpActivate vp s)) fun _ s =>
        vpStoreHeader h fuel vp (vpWithdraw h vp s parts) := rfl

/-- The payload of an instance is withdrawn. -/
theorem vpWithdraw_payload (vp : VersionedPersistence δ) (s : VpState δ) {parts : BitVec 32}
    (hparts : bitIsset parts vpDataPayload = true) :
    bitIsset (vpWithdraw h vp s parts).state vpStatePayloadConsistent = false := by
  have hclear : bitIsset (bitClear s.state vpStatePayloadConsistent) vpStatePayloadConsistent =
      false := bitIsset_bitClear _ (by decide)
  unfold vpWithdraw
  rw [if_pos hparts]
  by_cases hmeta : bitIsset parts vpDataMeta = true
  · rw [if_pos hmeta]
    exact (bitIsset_bitClear_of_disjoint _ (by decide)).trans hclear
  · rw [if_neg hmeta]
    exact hclear

theorem VpSound.withdraw {vp : VersionedPersistence FaultyMedium} (hs : VpSound h vp s)
    (parts : BitVec 32) : VpSound h vp (vpWithdraw h vp s parts) := by
  by_cases hparts : bitIsset parts vpDataPayload = true
  · exact .of_inconsistent (vpWithdraw_payload vp s hparts)
  · unfold vpWithdraw
    rw [if_neg hparts]
    by_cases hmeta : bitIsset parts vpDataMeta = true
    · rw [if_pos hmeta]
      refine ⟨fun hp => ?_, fun hu => ?_⟩
      · change bitIsset (bitClear s.state _) _ = true at hp
        show bitIsset (bitClear s.state _) _ = true
        rw [bitIsset_bitClear_of_disjoint _ (by decide)] at hp ⊢
        exact hs.active hp
      · have hclear : bitIsset (bitClear s.state vpStateMetaConsistent) vpStateMetaConsistent =
            false := bitIsset_bitClear _ (by decide)
        exact absurd (hclear.symm.trans ((vpUsable_iff _).mp hu).1) Bool.false_ne_true
    · rw [if_neg hmeta]
      exact hs

/-- **`vp_invalidate`** withdraws a flag before it writes. -/
theorem VpSound.invalidate {parts : BitVec 32}
    (hs : VpSound h (faultyPersistence address spec chksum) s)
    (hret : vpInvalidate h fuel (faultyPersistence address spec chksum) s parts = .ok (rc, s')) :
    VpSound h (faultyPersistence address spec chksum) s' := by
  rw [vpInvalidate_eq] at hret
  split at hret
  · cases hret
    exact hs.activate
  · rcases maybe_eq_ok hret with ⟨e, hsums, -⟩ | ⟨k, s₁, hsums, hstore⟩
    · exact hs.activate.updateChecksums hsums
    · exact ((hs.activate.updateChecksums hsums).withdraw parts).storeHeader hstore

/-- A payload that was invalidated does not count as verified. -/
theorem vpInvalidate_inconsistent {k : Nat}
    (hret : vpInvalidate h fuel (faultyPersistence address spec chksum) s vpDataPayload =
      .ok (.ok k, s')) : bitIsset s'.state vpStatePayloadConsistent = false := by
  rw [vpInvalidate_eq, if_neg (by decide)] at hret
  rcases maybe_eq_ok hret with ⟨e, -, hne⟩ | ⟨k', s₁, -, hstore⟩
  · cases hne
  · rw [(vpStoreHeader_faulty hstore).2.1]
    exact vpWithdraw_payload _ s₁ (by decide)

/-- Reading a header changes no flags of the payload. -/
theorem vpReadMeta_isset {flag : BitVec 16} (hflag : vpMetaRead &&& flag = 0)
    (hret : vpReadMeta h fuel (faultyPersistence address spec chksum) s = .ok (rc, s')) :
    bitIsset s'.state flag = bitIsset s.state flag := by
  obtain ⟨-, hread⟩ := vpReadMeta_faulty hret
  cases rc with
  | ok k =>
    rw [hread.1]
    exact bitIsset_bitSet_of_disjoint _ hflag
  | error e =>
    rcases hread with hstate | hstate
    · rw [hstate]
    · rw [hstate]
      exact bitIsset_bitClear_of_disjoint _ hflag

/-- **`vp_format`** leaves a payload behind that does not count as verified, if it succeeds. -/
theorem VpSound.format (hs : VpSound h (faultyPersistence address spec chksum) s)
    (hret : vpFormat h fuel (faultyPersistence address spec chksum) s = .ok (rc, s')) :
    VpSound h (faultyPersistence address spec chksum) s' ∧
    ∀ k, rc = .ok k → bitIsset s'.state vpStatePayloadConsistent = false := by
  rcases maybe_eq_ok hret with ⟨e, hinvalidate, rfl⟩ | ⟨k, s₁, hinvalidate, hread⟩
  · exact ⟨hs.loadMeta.invalidate hinvalidate, fun _ hk => nomatch hk⟩
  · have hpayload : bitIsset s'.state vpStatePayloadConsistent = false :=
      (vpReadMeta_isset (by decide) hread).trans (vpInvalidate_inconsistent hinvalidate)
    exact ⟨.of_inconsistent hpayload, fun _ _ => hpayload⟩

/-- The flags `vp_load` does not touch where it compares the header with the specification. -/
theorem vpCompare_isset (vp : VersionedPersistence δ) (s : VpState δ) {flag : BitVec 16}
    (h0 : vpStateVersionCompatible &&& flag = 0) (h1 : vpStateLengthCompatible &&& flag = 0)
    (h2 : vpStatePayloadCompatible &&& flag = 0) :
    bitIsset (vpCompare vp s).state flag = bitIsset s.state flag := by
  unfold vpCompare
  dsimp only
  split <;> split <;> (try split) <;>
    simp only [bitIsset_bitSet_of_disjoint _ h0, bitIsset_bitSet_of_disjoint _ h1,
      bitIsset_bitSet_of_disjoint _ h2]

/-- **A payload that is found compatible** has the version and the length of the specification. -/
theorem vpCompare_compatible (vp : VersionedPersistence δ) {s : VpState δ}
    (hv : bitIsset s.state vpStateVersionCompatible = false)
    (hp : bitIsset s.state vpStatePayloadCompatible = false)
    (hc : bitIsset (vpCompare vp s).state vpStatePayloadCompatible = true) :
    s.metablock.version = vp.spec.version ∧ s.metablock.length = vp.spec.length := by
  unfold vpCompare at hc
  dsimp only at hc
  by_cases hlength : s.metablock.length = vp.spec.length
  · by_cases hversion : s.metablock.version = vp.spec.version
    · exact ⟨hversion, hlength⟩
    · rw [if_neg hversion, if_pos hlength, if_neg, bitIsset_bitSet_of_disjoint _ (by decide),
        hp] at hc
      · cases hc
      · rw [bitIsset_bitSet_of_disjoint _ (by decide), hv]
        exact Bool.false_ne_true
  · rw [if_neg hlength] at hc
    split at hc
    · rw [bitIsset_bitSet_of_disjoint _ (by decide), hp] at hc
      cases hc
    · rw [hp] at hc
      cases hc

/-- **A payload is verified**, against the checksum in the cache. -/
theorem vpVerifyPayload_faulty
    (hret : vpVerifyPayload fuel (faultyPersistence address spec chksum) s n = .ok (rc, s')) :
    VpKept s s' ∧ ∀ k, rc = .ok k → s.metablock.payloadChksum =
      payloadSum (faultyPersistence address spec chksum)
        (s.driver.cells.slice (faultyPersistence address spec chksum).payload n) := by
  rcases maybe_eq_ok hret with ⟨e, hsum, rfl⟩ | ⟨k, s₁, hsum, hret⟩
  · exact ⟨(vpCalculatePayloadChecksum_faulty hsum).1, fun _ hk => nomatch hk⟩
  · obtain ⟨hkept, -, hpayload⟩ := vpCalculatePayloadChecksum_faulty hsum
    cases hret
    refine ⟨hkept, fun k' hk => ?_⟩
    split at hk
    · rename_i heq
      rw [← hpayload k rfl, ← heq, hkept.metablock]
    · cases hk

/-- **`vp_load`**, from any state: what is usable then was verified. -/
theorem vpLoad_sound
    (hret : vpLoad h fuel (faultyPersistence address spec chksum) s = .ok (rc, s')) :
    VpSound h (faultyPersistence address spec chksum) s' := by
  rcases maybe_eq_ok hret with ⟨e, hread, -⟩ | ⟨k, s₁, hread, hret⟩
  · have hpayload : bitIsset s'.state vpStatePayloadConsistent = bitIsset 0 _ :=
      vpReadMeta_isset (by decide) hread
    exact .of_inconsistent hpayload
  · have hclear : ∀ flag, vpMetaRead &&& flag = 0 → bitIsset 0 flag = false →
        bitIsset s₁.state flag = false :=
        fun flag hflag h0 => (vpReadMeta_isset hflag hread).trans h0
    obtain ⟨-, hstate, hheader, hsum⟩ := vpReadMeta_faulty hread
    rcases maybe_eq_ok hret with ⟨e, hverify, -⟩ | ⟨k', s₂, hverify, hret⟩
    · obtain ⟨hkept, -⟩ := vpVerifyPayload_faulty hverify
      refine .of_inconsistent ?_
      rw [hkept.state, vpCompare_isset _ _ (by decide) (by decide) (by decide)]
      exact hclear _ (by decide) (by decide)
    · obtain ⟨hkept, hpayload⟩ := vpVerifyPayload_faulty hverify
      cases hret
      refine ⟨fun _ => ?_, fun hu => ?_⟩
      · show bitIsset (bitSet s₂.state _) _ = true
        rw [bitIsset_bitSet_of_disjoint _ (by decide), hkept.state,
          vpCompare_isset _ _ (by decide) (by decide) (by decide), hstate]
        exact (metaRead_flags 0).1
      · have hcompatible : bitIsset (bitSet s₂.state vpStatePayloadConsistent)
            vpStatePayloadCompatible = true := ((vpUsable_iff _).mp hu).2.1
        rw [bitIsset_bitSet_of_disjoint _ (by decide), hkept.state] at hcompatible
        obtain ⟨hversion, hlength⟩ := vpCompare_compatible _
          (hclear _ (by decide) (by decide)) (hclear _ (by decide) (by decide)) hcompatible
        have hcached : VpCached h (faultyPersistence address spec chksum) s₁ := by
          refine ⟨hheader, hlength, hversion, ?_, ?_⟩
          · rw [← hheader]
            exact hsum
          · rw [← hheader]
            exact hpayload k' rfl
        exact hcached.of_same hkept.metablock hkept.cells

/-- Reading a chunk changes nothing. -/
theorem vpSourceGet_kept {got : Except Errno (List Octet)}
    (hret : vpSourceGet fuel (faultyPersistence address spec chksum) s n = .ok (got, s')) :
    VpKept s s' := by
  rcases Nat.eq_zero_or_pos n with rfl | h0
  · cases hret
    exact ⟨rfl, rfl, rfl⟩
  · exact (vpSourceGet_faulty h0 hret).1

theorem vpFetchData_kept {got : Except Errno (List Octet)}
    (hret : vpFetchData fuel (faultyPersistence address spec chksum) s offset n = .ok (got, s')) :
    VpKept s s' := by
  unfold vpFetchData at hret
  split at hret
  · cases hret
    exact .refl s
  · split at hret
    · cases hret
      exact .refl s
    · rcases maybe_eq_ok hret with ⟨e, hseek, -⟩ | ⟨k, s₁, hseek, hget⟩
      · exact (vpSourceSeek_faulty hseek).1
      · exact (vpSourceSeek_faulty hseek).1.trans (vpSourceGet_kept hget)

/-- **`vp_fetch`** reads a header only where no payload counts as verified. -/
theorem VpSound.fetch {got : Except Errno (List Octet)}
    (hs : VpSound h (faultyPersistence address spec chksum) s)
    (hret : vpFetch h fuel (faultyPersistence address spec chksum) s offset n = .ok (got, s')) :
    VpSound h (faultyPersistence address spec chksum) s' := by
  unfold vpFetch at hret
  split at hret
  · rename_i hact
    have hpayload := hs.inconsistent hact
    rcases maybe_eq_ok hret with ⟨e, hread, -⟩ | ⟨k, s₁, hread, hfetch⟩
    · exact .of_inconsistent ((vpReadMeta_isset (by decide) hread).trans hpayload)
    · have hsound : VpSound h (faultyPersistence address spec chksum) s₁ :=
        .of_inconsistent ((vpReadMeta_isset (by decide) hread).trans hpayload)
      exact hsound.of_kept (vpFetchData_kept hfetch)
  · exact hs.of_kept (vpFetchData_kept hret)

/-- **`vp_save`** writes to an instance that is not usable. -/
theorem VpSound.save {src : Mem Octet} (hs : VpSound h (faultyPersistence address spec chksum) s)
    (hret : vpSave h fuel (faultyPersistence address spec chksum) s src n = .ok (rc, s')) :
    VpSound h (faultyPersistence address spec chksum) s' := by
  rcases maybe_eq_ok hret with ⟨e, hformat, -⟩ | ⟨k, s₁, hformat, hret⟩
  · exact (hs.format hformat).1
  · obtain ⟨hs₁, hpayload⟩ := hs.format hformat
    have ht : VpSteady 1 (sizeAdd 0 n) n s₁ := fun hu _ =>
      absurd ((hpayload k rfl).symm.trans ((vpUsable_iff s₁).mp hu).2.2) Bool.false_ne_true
    rcases maybe_eq_ok hret with ⟨e, hstore, -⟩ | ⟨k', s₂, -, hload⟩
    · exact hs₁.store ht hstore
    · exact vpLoad_sound hload

end Operations

/-! ## 6. Runs -/

/-- A call of an operation. -/
inductive VpOp where
  | load
  | format
  | store (src : Mem Octet) (offset n : SizeT)
  | memset (c : Octet) (offset n : SizeT)
  | invalidate (parts : BitVec 32)
  | save (src : Mem Octet) (n : SizeT)
  | fetch (offset n : SizeT)

namespace VpOp

/-- The state a call leaves. -/
def run (h : Host) (fuel : Nat) (vp : VersionedPersistence δ) (s : VpState δ) :
    VpOp → Exec (VpState δ)
  | load => Prod.snd <$> vpLoad h fuel vp s
  | format => Prod.snd <$> vpFormat h fuel vp s
  | store src offset n => Prod.snd <$> vpStore h fuel vp s src offset n
  | memset c offset n => Prod.snd <$> vpMemset h fuel vp s c offset n
  | invalidate parts => Prod.snd <$> vpInvalidate h fuel vp s parts
  | save src n => Prod.snd <$> vpSave h fuel vp s src n
  | fetch offset n => Prod.snd <$> vpFetch h fuel vp s offset n

/-- **What spares a call the defect**: if it writes data to a usable instance, its seek fails, or
    its first write fails before an octet is stored, or nothing fails. -/
def Steady (s : VpState FaultyMedium) : VpOp → Prop
  | store _ offset n => VpSteady 1 (sizeAdd offset n) n s
  | memset _ offset n => VpSteady (vpPieces n) (sizeAdd n offset) n s
  | _ => True

end VpOp

/-- **Runs** of calls that all meet a condition. -/
inductive VpRun (h : Host) (vp : VersionedPersistence δ) (P : VpState δ → VpOp → Prop) :
    VpState δ → VpState δ → Prop where
  | nil (s) : VpRun h vp P s s
  | step {s s₁ s'} (op : VpOp) (fuel : Nat) : VpRun h vp P s s₁ → P s₁ op →
      op.run h fuel vp s₁ = .ok s' → VpRun h vp P s s'

section Runs

variable {h : Host} {address : BitVec 32} {spec : VpMeta} {chksum : VpChecksum}
  {s s' : VpState FaultyMedium}

/-- **One call.** -/
theorem VpSound.run {op : VpOp} {fuel : Nat}
    (hs : VpSound h (faultyPersistence address spec chksum) s) (ht : op.Steady s)
    (hret : op.run h fuel (faultyPersistence address spec chksum) s = .ok s') :
    VpSound h (faultyPersistence address spec chksum) s' := by
  cases op with
  | load =>
    obtain ⟨⟨rc, s''⟩, hload, rfl⟩ := map_eq_ok hret
    exact vpLoad_sound hload
  | format =>
    obtain ⟨⟨rc, s''⟩, hformat, rfl⟩ := map_eq_ok hret
    exact (hs.format hformat).1
  | store src offset n =>
    obtain ⟨⟨rc, s''⟩, hstore, rfl⟩ := map_eq_ok hret
    exact hs.store ht hstore
  | memset c offset n =>
    obtain ⟨⟨rc, s''⟩, hmemset, rfl⟩ := map_eq_ok hret
    exact hs.memset ht hmemset
  | invalidate parts =>
    obtain ⟨⟨rc, s''⟩, hinvalidate, rfl⟩ := map_eq_ok hret
    exact hs.invalidate hinvalidate
  | save src n =>
    obtain ⟨⟨rc, s''⟩, hsave, rfl⟩ := map_eq_ok hret
    exact hs.save hsave
  | fetch offset n =>
    obtain ⟨⟨got, s''⟩, hfetch, rfl⟩ := map_eq_ok hret
    exact hs.fetch hfetch

/-- **Every run keeps the invariant.** -/
theorem VpRun.sound (hs : VpSound h (faultyPersistence address spec chksum) s)
    (hrun : VpRun h (faultyPersistence address spec chksum) (fun s op => op.Steady s) s s') :
    VpSound h (faultyPersistence address spec chksum) s' := by
  induction hrun with
  | nil => exact hs
  | step op fuel _ ht hret ih => exact ih.run ht hret

/-- **A usable instance is intact**: header and payload on the medium match their checksums, in
    every run on an instance that was not used before, whatever accesses fail, in which every
    `vp_store` and `vp_memset` that a usable instance accepts is spared the defect. -/
theorem vpUsable_intact (h : Host) (hnew : s.state = 0)
    (hrun : VpRun h (faultyPersistence address spec chksum) (fun s op => op.Steady s) s s')
    (husable : vpUsable s' = true) :
    VpIntact h (faultyPersistence address spec chksum) s'.driver.cells := by
  have hs : VpSound h (faultyPersistence address spec chksum) s := by
    refine .of_inconsistent ?_
    rw [hnew]
    rfl
  exact ((hrun.sound hs).cached husable).intact

end Runs

/-- One octet behind a header at address 0, with a sum for a checksum. -/
def octetPersistence : VersionedPersistence FaultyMedium :=
  faultyPersistence 0 { length := 1, version := 5 }
    { initial := 0
      process := fun cs l => l.foldl (fun cs octet => cs + octet.setWidth 16) cs }

/-- That instance, not used before, on a medium one access to which fails. -/
def octetState (failing : Nat) : VpState FaultyMedium where
  metablock := ⟨0, 0, 0, 0⟩
  state := 0
  result := ⟨0, 0⟩
  driver :=
    { cells := fun _ => 0
      readAt := 0
      writeAt := 0
      plan := fun i => if i = failing then some ⟨.eio, 0⟩ else none }

/-- The instance, once an octet was saved. -/
def octetSaved (failing : Nat) : VpState FaultyMedium :=
  (VpOp.run lp64Host 8 octetPersistence (octetState failing) (.save (fun _ => 1) 1)).toOption.getD
    (octetState failing)

/-- The instance, once another octet was to be stored in its place. -/
def octetStored (failing : Nat) : VpState FaultyMedium :=
  (VpOp.run lp64Host 8 octetPersistence (octetSaved failing)
    (.store (fun _ => 2) 0 1)).toOption.getD
    (octetSaved failing)

/-- `vp_store` cannot seek: what was saved stays. -/
theorem vpUsable_intact_sample : VpIntact lp64Host octetPersistence
    (octetStored 16).driver.cells := by
  have hrun : VpRun lp64Host octetPersistence (fun s op => op.Steady s) (octetState 16)
      (octetStored 16) :=
    .step (.store (fun _ => 2) 0 1) 8
      (.step (.save (fun _ => 1) 1) 8 (.nil _) trivial rfl)
      (fun _ _ => .inl (Option.some_ne_none _)) rfl
  exact vpUsable_intact lp64Host rfl hrun rfl

/-- **A usable instance whose payload does not match its checksum**: a new octet was written, and
    the medium failed before the checksum was brought up to date. -/
theorem not_vpUsable_intact :
    ¬ ∀ (h : Host) (address : BitVec 32) (spec : VpMeta) (chksum : VpChecksum)
      (s s' : VpState FaultyMedium), s.state = 0 →
      VpRun h (faultyPersistence address spec chksum) (fun _ _ => True) s s' → vpUsable s' = true →
      VpIntact h (faultyPersistence address spec chksum) s'.driver.cells := by
  intro hall
  have hrun : VpRun lp64Host octetPersistence (fun _ _ => True) (octetState 18) (octetStored 18) :=
    .step (.store (fun _ => 2) 0 1) 8
      (.step (.save (fun _ => 1) 1) 8 (.nil _) trivial rfl) trivial rfl
  have hpayload := (hall _ _ _ _ _ _ rfl hrun rfl).payload
  revert hpayload
  decide

end Ufw
