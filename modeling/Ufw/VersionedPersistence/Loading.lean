/-
  File:      Ufw/VersionedPersistence/Loading.lean
  Subject:   VERSIONED PERSISTENCE: what `vp_load` makes of any medium.

  * `vpHeaderFlags` -- the flags of an instance whose header has been verified;
  * `vpVerdict` -- what the contents of a medium amount to, with `vpLoad_readable`: **`vp_load`
    comes to this verdict** on every medium that is read faithfully;
  * `VpChecksum.sum` -- the checksum of octets, with `payloadSum_eq`: **the checksum of a payload is
    that of its octets**, for checksums that can be taken piece by piece;
  * `vpLoad_verifies` -- **`vp_load` returns 0 exactly where both checksums match**, and its flags
    compare the header with the specification.
-/
import Ufw.PersistentStorage
import Ufw.VersionedPersistence.Saved
import Ufw.VersionedPersistence.Faults

namespace Ufw

open Base

variable {δ : Type}

/-! ## 1. The verdict -/

/-- The flags of an instance whose header has been verified. -/
def vpHeaderFlags (vp : VersionedPersistence δ) (b : Metablock) : BitVec 16 :=
  vpMetaRead |||
    (if b.version = vp.spec.version then vpStateVersionCompatible else 0) |||
    (if b.length = vp.spec.length then vpStateLengthCompatible else 0) |||
    (if b.version = vp.spec.version ∧ b.length = vp.spec.length then vpStatePayloadCompatible
      else 0)

/-- **What the contents of a medium amount to**: the result of `vp_load`, and the flags behind
    it. -/
def vpVerdict (h : Host) (vp : VersionedPersistence δ) (cells : Mem Octet) : Rc × BitVec 16 :=
  let b := headerOf h vp cells
  if b.headerChksum = headerSum h vp b then
    if b.payloadChksum = payloadSum vp (cells.slice vp.payload b.length.toNat) then
      (.ok 0, bitSet (vpHeaderFlags vp b) vpStatePayloadConsistent)
    else (.error .ebadmsg, vpHeaderFlags vp b)
  else (.error ebadfd, 0)

section Verdict

variable {h : Host} {v : VpView δ} {capacity : Nat} {vp : VersionedPersistence δ}

/-- **The flags compare the header with the specification**, also once more of them are set. -/
theorem vpHeaderFlags_isset (vp : VersionedPersistence δ) (b : Metablock) {x : BitVec 16}
    (hx : x = vpHeaderFlags vp b ∨ x = bitSet (vpHeaderFlags vp b) vpStatePayloadConsistent) :
    (bitIsset x vpStateLengthCompatible = true ↔ b.length = vp.spec.length) ∧
    (bitIsset x vpStateVersionCompatible = true ↔ b.version = vp.spec.version) ∧
    (bitIsset x vpStatePayloadCompatible = true ↔
      b.version = vp.spec.version ∧ b.length = vp.spec.length) := by
  unfold vpHeaderFlags at hx
  by_cases hversion : b.version = vp.spec.version <;>
    by_cases hlength : b.length = vp.spec.length <;>
    simp only [hversion, hlength, and_self, and_true, and_false, if_true, if_false, iff_true,
      iff_false] at hx ⊢ <;>
    rcases hx with rfl | rfl <;> decide

/-- No payload is verified before it is read. -/
theorem vpHeaderFlags_inconsistent (vp : VersionedPersistence δ) (b : Metablock) :
    bitIsset (vpHeaderFlags vp b) vpStatePayloadConsistent = false := by
  unfold vpHeaderFlags
  by_cases hversion : b.version = vp.spec.version <;>
    by_cases hlength : b.length = vp.spec.length <;>
    simp only [hversion, hlength, and_self, and_true, and_false, if_true, if_false] <;> decide

/-- What `vp_load` finds out about a header that it has just read. -/
theorem vpCompare_read (vp : VersionedPersistence δ) {s : VpState δ}
    (hs : s.state = bitSet 0 vpMetaRead) :
    vpCompare vp s = { s with state := vpHeaderFlags vp s.metablock } := by
  unfold vpCompare vpHeaderFlags
  rw [hs]
  by_cases hversion : s.metablock.version = vp.spec.version <;>
    by_cases hlength : s.metablock.length = vp.spec.length <;>
    simp only [hversion, hlength, and_self, and_true, and_false, if_true, if_false] <;> rfl

/-- The octets of the header on a medium. -/
theorem headerOf_octets (h : Host) (vp : VersionedPersistence δ) (cells : Mem Octet) :
    cells.slice vp.data.address.toNat vpSizeMeta = (headerOf h vp cells).octets h :=
  (Metablock.octets_ofOctets h (Mem.length_slice _ _ _)).symm

/-- **`vp_load` comes to this verdict**, from any state. -/
theorem vpLoad_readable (hf : vp.data.Readable v capacity) (s : VpState δ)
    (hfits : vp.payload + (headerOf h vp (v.cells s.driver)).length.toNat ≤ capacity) : ∃ s',
    Returns (fun fuel => vpLoad h fuel vp s) ((vpVerdict h vp (v.cells s.driver)).1, s') ∧
    s'.state = (vpVerdict h vp (v.cells s.driver)).2 ∧ v.cells s'.driver = v.cells s.driver := by
  obtain ⟨b, hb⟩ : ∃ b, headerOf h vp (v.cells s.driver) = b := ⟨_, rfl⟩
  have hoctets := headerOf_octets h vp (v.cells s.driver)
  rw [hb] at hfits hoctets
  have hheader : vp.data.address.toNat + vpSizeMeta ≤ capacity :=
    le_trans (Nat.le_add_right _ _) hfits
  obtain ⟨r, d₁, hread, hc₁⟩ := vpReadMeta_readable hf { s with state := 0 } hheader hoctets
  simp only [vpVerdict, hb]
  obtain ⟨p, hp⟩ : ∃ p, payloadSum vp ((v.cells s.driver).slice vp.payload b.length.toNat) = p :=
    ⟨_, rfl⟩
  rw [hp]
  by_cases hsum : b.headerChksum = headerSum h vp b
  · rw [if_pos hsum] at hread ⊢
    have hcompare := vpCompare_read vp (s := ⟨b, bitSet 0 vpMetaRead, r, d₁⟩) rfl
    obtain ⟨d', hcalc, hc'⟩ := vpCalculatePayloadChecksum_readable hf
      ⟨b, vpHeaderFlags vp b, r, d₁⟩ hfits
    have hc : v.cells d₁ = v.cells s.driver := hc₁
    dsimp only at hcalc hc'
    rw [hc, hp] at hcalc
    by_cases hpayload : b.payloadChksum = p
    · rw [if_pos hpayload]
      refine ⟨⟨b, bitSet (vpHeaderFlags vp b) vpStatePayloadConsistent, { r with payload := p },
        d'⟩, Returns.both (fun fuel hx hy => ?_) hread hcalc, rfl, hc'.trans hc⟩
      rw [vpLoad, hx, maybe_ok, hcompare, vpVerifyPayload, hy, maybe_ok, if_pos hpayload, maybe_ok]
    · rw [if_neg hpayload]
      refine ⟨⟨b, vpHeaderFlags vp b, { r with payload := p }, d'⟩,
        Returns.both (fun fuel hx hy => ?_) hread hcalc, rfl, hc'.trans hc⟩
      rw [vpLoad, hx, maybe_ok, hcompare, vpVerifyPayload, hy, maybe_ok, if_neg hpayload,
        maybe_error]
  · rw [if_neg hsum] at hread ⊢
    have hzero : bitClear 0 vpMetaRead = 0 := by decide
    refine ⟨⟨b, 0, r, d₁⟩, hread.after fun fuel hx => ?_, rfl, hc₁⟩
    rw [vpLoad, hx, maybe_error, hzero]

end Verdict

/-! ## 2. Checksums -/

/-- **The checksum of octets**, taken one by one. -/
def VpChecksum.sum (c : VpChecksum) (l : List Octet) : BitVec 16 :=
  l.foldl (fun cs o => c.process cs [o]) c.initial

section Checksums

variable {process : BitVec 16 → List Octet → BitVec 16}

/-- Octets that are processed at once, or one by one. -/
theorem process_eq_foldl (hc : Compositional fun l cs => process cs l) {l : List Octet}
    (hl : l ≠ []) (cs : BitVec 16) : process cs l = l.foldl (fun cs o => process cs [o]) cs := by
  induction l generalizing cs with
  | nil => exact absurd rfl hl
  | cons o l ih =>
    rcases l with _ | ⟨o', l⟩
    · rfl
    · rw [List.foldl_cons, ← ih (List.cons_ne_nil _ _)]
      exact hc [o] (o' :: l) cs

/-- The same for pieces of 16 octets. -/
theorem piecewise_eq_foldl (hc : Compositional fun l cs => process cs l) (l : List Octet) :
    ∀ cs, piecewise process (vpPieces l.length) cs l = l.foldl (fun cs o => process cs [o]) cs := by
  induction hlen : l.length using Nat.strongRecOn generalizing l with
  | ind n ih =>
    subst hlen
    intro cs
    rcases Nat.eq_zero_or_pos l.length with hzero | hpos
    · rw [List.length_eq_zero_iff.mp hzero]
      rfl
    · have hrest : l.length - vpPiece l.length = (l.drop 16).length := by
        rw [List.length_drop]
        unfold vpPiece
        split <;> omega
      have hpiece : l.take 16 ≠ [] := by
        refine List.ne_nil_of_length_pos ?_
        rw [List.length_take]
        omega
      have hshort : (l.drop 16).length < l.length := by
        rw [List.length_drop]
        omega
      rw [vpPieces_pos hpos, piecewise, hrest, ih _ hshort (l.drop 16) rfl,
        process_eq_foldl hc hpiece, ← List.foldl_append, List.take_append_drop]

/-- **The checksum of a payload is that of its octets.** -/
theorem payloadSum_eq {vp : VersionedPersistence δ}
    (hc : Compositional fun l cs => vp.chksum.process cs l) (l : List Octet) :
    payloadSum vp l = vp.chksum.sum l := piecewise_eq_foldl hc l vp.chksum.initial

/-- The octets a header checksum covers are those behind it on the medium. -/
theorem headerOf_covered (h : Host) (vp : VersionedPersistence δ) (cells : Mem Octet) :
    (headerOf h vp cells).covered h = cells.slice (vp.data.address.toNat + 2) 6 := by
  have hdrop := congrArg (List.drop 2) (headerOf_octets h vp cells)
  rw [Mem.slice_drop _ _ _ _ (by decide), Metablock.octets,
    List.drop_left' (length_bfSetN h 2 _)] at hdrop
  exact hdrop.symm

/-- **The checksum of a header is that of the octets behind it.** -/
theorem headerSum_eq (h : Host) {vp : VersionedPersistence δ}
    (hc : Compositional fun l cs => vp.chksum.process cs l) (cells : Mem Octet) :
    headerSum h vp (headerOf h vp cells) =
      vp.chksum.sum (cells.slice (vp.data.address.toNat + 2) 6) := by
  rw [headerSum, headerOf_covered]
  refine process_eq_foldl hc (List.ne_nil_of_length_pos ?_) _
  rw [Mem.length_slice]
  decide

end Checksums

/-! ## 3. Loading -/

/-- A medium on which any write stops the program. -/
def VersionedPersistence.readOnly (vp : VersionedPersistence δ) : VersionedPersistence δ :=
  { vp with data := { vp.data with sinkPut := fun _ _ _ => .error .fault, put_whole := nofun } }

theorem payloadChecksumLoop_readOnly (vp : VersionedPersistence δ) (fuel : Nat) :
    ∀ (rest : Nat) (cs : BitVec 16) (s : VpState δ),
    payloadChecksumLoop vp.readOnly fuel rest cs s = payloadChecksumLoop vp fuel rest cs s := by
  induction fuel with
  | zero => exact fun _ _ _ => rfl
  | succ fuel ih =>
    intro rest cs s
    unfold payloadChecksumLoop
    simp only [ih]
    rfl

/-- **`vp_load` writes nothing.** -/
theorem vpLoad_readOnly (h : Host) (fuel : Nat) (vp : VersionedPersistence δ) (s : VpState δ) :
    vpLoad h fuel vp.readOnly s = vpLoad h fuel vp s := by
  have hloop : payloadChecksumLoop vp.readOnly = payloadChecksumLoop vp := by
    funext fuel rest cs s
    exact payloadChecksumLoop_readOnly vp fuel rest cs s
  unfold vpLoad vpVerifyPayload vpCalculatePayloadChecksum
  rw [hloop]
  rfl

/-- **The verdict of `vp_load`** on any medium that is read faithfully, for any checksum that can be
    taken piece by piece: 0 exactly where the checksums in the header are those of the other octets
    of the header and of the payload; no flag where the first one is not; the payload not verified
    where the second one is not; and wherever the header is verified, the flags compare it with the
    specification. The medium is not written. -/
theorem vpLoad_verifies (h : Host) {v : VpView δ} {capacity : Nat} {vp : VersionedPersistence δ}
    (hf : vp.data.Readable v capacity) (hc : Compositional fun l cs => vp.chksum.process cs l)
    (s : VpState δ) {cells : Mem Octet} (hcells : v.cells s.driver = cells) {b : Metablock}
    (hb : headerOf h vp cells = b) (hfits : vp.payload + b.length.toNat ≤ capacity) : ∃ rc s',
    Returns (fun fuel => vpLoad h fuel vp s) (rc, s') ∧
    (∀ fuel, vpLoad h fuel vp.readOnly s = vpLoad h fuel vp s) ∧ v.cells s'.driver = cells ∧
    (rc = .ok 0 ↔
      b.headerChksum = vp.chksum.sum (cells.slice (vp.data.address.toNat + 2) 6) ∧
      b.payloadChksum = vp.chksum.sum (cells.slice vp.payload b.length.toNat)) ∧
    (b.headerChksum ≠ vp.chksum.sum (cells.slice (vp.data.address.toNat + 2) 6) →
      rc = .error ebadfd ∧ s'.state = 0) ∧
    (b.headerChksum = vp.chksum.sum (cells.slice (vp.data.address.toNat + 2) 6) →
      (b.payloadChksum ≠ vp.chksum.sum (cells.slice vp.payload b.length.toNat) →
        rc = .error .ebadmsg ∧ bitIsset s'.state vpStatePayloadConsistent = false) ∧
      (bitIsset s'.state vpStateLengthCompatible = true ↔ b.length = vp.spec.length) ∧
      (bitIsset s'.state vpStateVersionCompatible = true ↔ b.version = vp.spec.version) ∧
      (bitIsset s'.state vpStatePayloadCompatible = true ↔
        b.version = vp.spec.version ∧ b.length = vp.spec.length)) := by
  subst hcells hb
  obtain ⟨s', hret, hstate, hsame⟩ := vpLoad_readable hf s hfits
  refine ⟨_, s', hret, fun fuel => vpLoad_readOnly h fuel vp s, hsame, ?_⟩
  rw [← headerSum_eq h hc, ← payloadSum_eq hc]
  unfold vpVerdict at hstate ⊢
  dsimp only at hstate ⊢
  obtain ⟨b, hb⟩ : ∃ b, headerOf h vp (v.cells s.driver) = b := ⟨_, rfl⟩
  rw [hb] at hstate ⊢
  by_cases hsum : b.headerChksum = headerSum h vp b
  · rw [if_pos hsum] at hstate ⊢
    by_cases hpayload : b.payloadChksum =
        payloadSum vp ((v.cells s.driver).slice vp.payload b.length.toNat)
    · rw [if_pos hpayload] at hstate ⊢
      exact ⟨⟨fun _ => ⟨hsum, hpayload⟩, fun _ => rfl⟩, fun hne => absurd hsum hne, fun _ =>
        ⟨fun hne => absurd hpayload hne, vpHeaderFlags_isset vp b (.inr hstate)⟩⟩
    · rw [if_neg hpayload] at hstate ⊢
      refine ⟨⟨fun hrc => (nomatch hrc), fun hboth => absurd hboth.2 hpayload⟩,
        fun hne => absurd hsum hne, fun _ => ⟨fun _ => ⟨rfl, ?_⟩,
        vpHeaderFlags_isset vp b (.inl hstate)⟩⟩
      rw [hstate]
      exact vpHeaderFlags_inconsistent vp b
  · rw [if_neg hsum] at hstate ⊢
    exact ⟨⟨fun hrc => (nomatch hrc), fun hboth => absurd hboth.1 hsum⟩, fun _ => ⟨rfl, hstate⟩,
      fun heq => absurd heq hsum⟩

theorem ramPersistence_compositional :
    Compositional fun l cs => ramPersistence.chksum.process cs l :=
  fun a b cs => ufwCrc16Arc_append cs a b

theorem vpLoad_verifies_sample : ∃ rc s',
    Returns (fun fuel => vpLoad lp64Host fuel ramPersistence blankState) (rc, s') ∧
    (∀ fuel, vpLoad lp64Host fuel ramPersistence.readOnly blankState =
      vpLoad lp64Host fuel ramPersistence blankState) ∧
    ramView.cells s'.driver = (fun _ => 255) ∧
    (rc = .ok 0 ↔ 0xffff = ramPersistence.chksum.sum (Mem.slice (fun _ => 255) 26 6) ∧
      0xffff = ramPersistence.chksum.sum (Mem.slice (fun _ => 255) 32 65535)) ∧
    (0xffff ≠ ramPersistence.chksum.sum (Mem.slice (fun _ => 255) 26 6) →
      rc = .error ebadfd ∧ s'.state = 0) ∧
    (0xffff = ramPersistence.chksum.sum (Mem.slice (fun _ => 255) 26 6) →
      (0xffff ≠ ramPersistence.chksum.sum (Mem.slice (fun _ => 255) 32 65535) →
        rc = .error .ebadmsg ∧ bitIsset s'.state vpStatePayloadConsistent = false) ∧
      (bitIsset s'.state vpStateLengthCompatible = true ↔ (0xffff : BitVec 16) = 4) ∧
      (bitIsset s'.state vpStateVersionCompatible = true ↔ (0xffff : BitVec 16) = 5) ∧
      (bitIsset s'.state vpStatePayloadCompatible = true ↔
        (0xffff : BitVec 16) = 5 ∧ (0xffff : BitVec 16) = 4)) :=
  vpLoad_verifies lp64Host (b := ⟨0xffff, 0xffff, 0xffff, 0xffff⟩)
    ((ramEndpoints_faithful 65600).access 24).readable ramPersistence_compositional blankState rfl
    (by decide) (by decide)

end Ufw
