/-
  File:      Ufw/VersionedPersistence/Invalidation.lean
  Subject:   VERSIONED PERSISTENCE: what `vp_invalidate` invalidates is not loaded any more.

  * `vpWithdraw_meta`, `vpWithdraw_payload_only` -- what `vp_invalidate` makes of the header in the
    cache: **the checksum it breaks does not match, and the other one does**;
  * `vpInvalidate_faithful` -- the header on the medium is that one then, and nothing else changes;
  * `vpInvalidate_refused` -- **`vp_load` refuses what was invalidated**, with the error of the part
    that was.
-/
import Ufw.VersionedPersistence.Loading

namespace Ufw

open Base

variable {δ : Type}

section Withdraw

variable {h : Host} {vp : VersionedPersistence δ} {s : VpState δ} {parts : BitVec 32}

/-- The farthest value from a checksum is another one. -/
theorem xor_ones_ne (x : BitVec 16) : x ^^^ 0xffff ≠ x := by
  intro heq
  have hzero : (0xffff : BitVec 16) = 0 := by
    calc (0xffff : BitVec 16) = x ^^^ x ^^^ 0xffff := by rw [BitVec.xor_self, BitVec.zero_xor]
      _ = x ^^^ x := by rw [BitVec.xor_assoc, heq]
      _ = 0 := BitVec.xor_self
  exact absurd hzero (by decide)

/-- The header that is written has the length of the one before. -/
theorem vpWithdraw_length (h : Host) (vp : VersionedPersistence δ) (s : VpState δ)
    (parts : BitVec 32) : (vpWithdraw h vp s parts).metablock.length = s.metablock.length := by
  unfold vpWithdraw
  split <;> split <;> rfl

theorem vpWithdraw_driver (h : Host) (vp : VersionedPersistence δ) (s : VpState δ)
    (parts : BitVec 32) : (vpWithdraw h vp s parts).driver = s.driver := by
  unfold vpWithdraw
  split <;> split <;> rfl

/-- **With the header, its checksum does not match any more**, whether or not the payload is
    withdrawn, too. -/
theorem vpWithdraw_meta (hmeta : bitIsset parts vpDataMeta = true)
    (hsum : s.metablock.headerChksum = headerSum h vp s.metablock) :
    (vpWithdraw h vp s parts).metablock.headerChksum ≠
      headerSum h vp (vpWithdraw h vp s parts).metablock := by
  unfold vpWithdraw
  rw [if_pos hmeta]
  by_cases hpayload : bitIsset parts vpDataPayload = true
  · rw [if_pos hpayload]
    -- the checksum of the header does not depend on the word it is kept in
    exact xor_ones_ne (headerSum h vp
      { s.metablock with payloadChksum := s.metablock.payloadChksum ^^^ 0xffff })
  · rw [if_neg hpayload]
    intro heq
    refine xor_ones_ne s.metablock.headerChksum (heq.trans ?_)
    exact hsum.symm

/-- **With the payload alone, its checksum does not match**, and that of the header does. -/
theorem vpWithdraw_payload_only (h : Host) (vp : VersionedPersistence δ) (s : VpState δ)
    (hpayload : bitIsset parts vpDataPayload = true) (hmeta : bitIsset parts vpDataMeta = false) :
    (vpWithdraw h vp s parts).metablock.headerChksum =
      headerSum h vp (vpWithdraw h vp s parts).metablock ∧
    (vpWithdraw h vp s parts).metablock.payloadChksum = s.metablock.payloadChksum ^^^ 0xffff := by
  have hneg : ¬ bitIsset parts vpDataMeta = true := by
    rw [hmeta]
    exact Bool.false_ne_true
  unfold vpWithdraw
  rw [if_pos hpayload, if_neg hneg]
  exact ⟨rfl, rfl⟩

/-- **What is withdrawn is not usable.** -/
theorem vpWithdraw_unusable (hparts : bitIsset parts vpDataMeta = true ∨
    bitIsset parts vpDataPayload = true) : vpUsable (vpWithdraw h vp s parts) = false := by
  refine eq_false_of_ne_true fun hu => ?_
  obtain ⟨hconsistent, -, hpayload⟩ := (vpUsable_iff _).mp hu
  rcases hparts with hmeta | hwithdrawn
  · have hclear (x : BitVec 16) : bitIsset (bitClear x vpStateMetaConsistent)
        vpStateMetaConsistent = false := bitIsset_bitClear x (by decide)
    unfold vpWithdraw at hconsistent
    rw [if_pos hmeta] at hconsistent
    exact absurd ((hclear _).symm.trans hconsistent) Bool.false_ne_true
  · rw [vpWithdraw_payload vp s hwithdrawn] at hpayload
    exact Bool.false_ne_true hpayload

end Withdraw

section Invalidate

variable {h : Host} {v : VpView δ} {capacity : Nat} {vp : VersionedPersistence δ} {s : VpState δ}
  {parts : BitVec 32}

/-- **The header is brought up to date, withdrawn and written**; nothing else on the medium
    changes. -/
theorem vpInvalidate_faithful (h : Host) (hf : vp.data.Faithful v capacity) (s : VpState δ)
    (hfits : vp.payload + (vpActivate vp s).metablock.length.toNat ≤ capacity) (h0 : parts ≠ 0) :
    ∃ s₀ s₁ : VpState δ, Returns (fun fuel => vpInvalidate h fuel vp s parts) (.ok 0, s₁) ∧
      s₀.metablock = (vpActivate vp s).metablock.sealed h vp (payloadSum vp
        ((v.cells s.driver).slice vp.payload (vpActivate vp s).metablock.length.toNat)) ∧
      s₁.metablock = (vpWithdraw h vp s₀ parts).metablock ∧
      s₁.state = (vpWithdraw h vp s₀ parts).state ∧
      v.cells s₁.driver =
        (v.cells s.driver).store vp.data.address.toNat (s₁.metablock.octets h) := by
  obtain ⟨r, d₁, hsums, hc₁⟩ := vpUpdateChecksums_faithful h hf (vpActivate vp s) hfits
  rw [vpActivate_driver] at hsums hc₁
  obtain ⟨s₀, hs₀⟩ : ∃ s₀ : VpState δ, { vpActivate vp s with
      metablock := (vpActivate vp s).metablock.sealed h vp (payloadSum vp
        ((v.cells s.driver).slice vp.payload (vpActivate vp s).metablock.length.toNat))
      result := r
      driver := d₁ } = s₀ := ⟨_, rfl⟩
  rw [hs₀] at hsums
  have hd₀ : s₀.driver = d₁ := by rw [← hs₀]
  obtain ⟨d', hstore, hc⟩ := vpStoreHeader_faithful h hf (vpWithdraw h vp s₀ parts)
    (le_trans (Nat.le_add_right _ _) hfits)
  refine ⟨s₀, { vpWithdraw h vp s₀ parts with driver := d' },
    Returns.both (fun fuel hx hy => ?_) hsums hstore, ?_, rfl, rfl, ?_⟩
  · rw [vpInvalidate_eq, if_neg h0, hx, maybe_ok, hy]
  · rw [← hs₀]
  · rw [hc, vpWithdraw_driver, hd₀, hc₁]

/-- **The verdict on what was withdrawn**: its header had the right checksums before. -/
theorem vpVerdict_withdrawn {cells : Mem Octet} {s₀ : VpState δ}
    (hparts : bitIsset parts vpDataMeta = true ∨ bitIsset parts vpDataPayload = true)
    (hheader : headerOf h vp cells = (vpWithdraw h vp s₀ parts).metablock)
    (hsealed : s₀.metablock.headerChksum = headerSum h vp s₀.metablock)
    (hsum : s₀.metablock.payloadChksum =
      payloadSum vp (cells.slice vp.payload s₀.metablock.length.toNat)) :
    (vpVerdict h vp cells).1 =
        .error (if bitIsset parts vpDataMeta = true then ebadfd else .ebadmsg) ∧
      bitIsset (vpVerdict h vp cells).2 vpStatePayloadConsistent = false := by
  unfold vpVerdict
  dsimp only
  rw [hheader, vpWithdraw_length, ← hsum]
  by_cases hmeta : bitIsset parts vpDataMeta = true
  · rw [if_neg (vpWithdraw_meta hmeta hsealed), if_pos hmeta]
    exact ⟨rfl, by decide⟩
  · obtain ⟨hsame, hbroken⟩ := vpWithdraw_payload_only h vp s₀
      (hparts.resolve_left hmeta) (Bool.not_eq_true _ ▸ hmeta)
    have hne : (vpWithdraw h vp s₀ parts).metablock.payloadChksum ≠ s₀.metablock.payloadChksum := by
      rw [hbroken]
      exact xor_ones_ne _
    rw [if_pos hsame, if_neg hne, if_neg hmeta]
    exact ⟨rfl, vpHeaderFlags_inconsistent _ _⟩

/-- **`vp_load` refuses what was invalidated**: the header where it was invalidated, else the
    payload. Neither before nor after it is the instance usable, and no octet outside the header has
    changed. The checksum may be any function. -/
theorem vpInvalidate_refused (h : Host) (hf : vp.data.Faithful v capacity) (s : VpState δ)
    (hfits : vp.payload + (vpActivate vp s).metablock.length.toNat ≤ capacity)
    (hparts : bitIsset parts vpDataMeta = true ∨ bitIsset parts vpDataPayload = true) :
    ∃ s₁ s₂, Returns (fun fuel => vpInvalidate h fuel vp s parts) (.ok 0, s₁) ∧
      vpUsable s₁ = false ∧
      Returns (fun fuel => vpLoad h fuel vp s₁)
        (.error (if bitIsset parts vpDataMeta = true then ebadfd else .ebadmsg), s₂) ∧
      vpUsable s₂ = false ∧
      ∀ i, i < vp.data.address.toNat ∨ vp.data.address.toNat + vpSizeMeta ≤ i →
        v.cells s₁.driver i = v.cells s.driver i ∧ v.cells s₂.driver i = v.cells s.driver i := by
  have h0 : parts ≠ 0 := by
    rintro rfl
    exact absurd hparts (by decide)
  obtain ⟨s₀, s₁, hinvalidate, hs₀, hmetablock, hstate, hcells⟩ :=
    vpInvalidate_faithful h hf s hfits h0
  have hheader : headerOf h vp (v.cells s₁.driver) = s₁.metablock := by
    rw [hcells]
    exact headerOf_store vp _ _
  have hlength : s₁.metablock.length = (vpActivate vp s).metablock.length := by
    rw [hmetablock, vpWithdraw_length, hs₀]
    rfl
  have hsealed : s₀.metablock.headerChksum = headerSum h vp s₀.metablock := by
    rw [hs₀]
    rfl
  -- the payload stands behind the header that was written
  have hpayload : (v.cells s₁.driver).slice vp.payload s₁.metablock.length.toNat =
      (v.cells s.driver).slice vp.payload (vpActivate vp s).metablock.length.toNat := by
    rw [hlength, hcells]
    refine Mem.slice_store_apart _ (.inr ?_)
    rw [Metablock.length_octets]
    exact le_refl _
  have hsame : ∀ i, i < vp.data.address.toNat ∨ vp.data.address.toNat + vpSizeMeta ≤ i →
      v.cells s₁.driver i = v.cells s.driver i := by
    intro i hi
    rw [hcells]
    refine Mem.store_outside _ ?_
    rw [Metablock.length_octets]
    omega
  obtain ⟨s₂, hload, hstate₂, hcells₂⟩ := vpLoad_readable (h := h) hf.readable s₁
    (by rw [hheader, hlength]; exact hfits)
  have hlength₀ : s₀.metablock.length = s₁.metablock.length := by
    rw [hmetablock, vpWithdraw_length]
  have hsum : s₀.metablock.payloadChksum =
      payloadSum vp ((v.cells s₁.driver).slice vp.payload s₀.metablock.length.toNat) := by
    rw [hlength₀, hpayload, hs₀]
    rfl
  have hverdict := vpVerdict_withdrawn hparts (hheader.trans hmetablock) hsealed hsum
  rw [hverdict.1] at hload
  refine ⟨s₁, s₂, hinvalidate, ?_, hload, ?_, fun i hi => ⟨hsame i hi, ?_⟩⟩
  · unfold vpUsable
    rw [hstate]
    exact vpWithdraw_unusable hparts
  · refine eq_false_of_ne_true fun hu => ?_
    have hconsistent := ((vpUsable_iff _).mp hu).2.2
    rw [hstate₂, hverdict.2] at hconsistent
    exact Bool.false_ne_true hconsistent
  · rw [hcells₂]
    exact hsame i hi

end Invalidate

theorem vpInvalidate_refused_sample : ∃ s₁ s₂,
    Returns (fun fuel => vpInvalidate lp64Host fuel ramPersistence blankState vpDataPayload)
      (.ok 0, s₁) ∧
    vpUsable s₁ = false ∧
    Returns (fun fuel => vpLoad lp64Host fuel ramPersistence s₁) (.error .ebadmsg, s₂) ∧
    vpUsable s₂ = false ∧
    ∀ i, i < 24 ∨ 32 ≤ i → ramView.cells s₁.driver i = 255 ∧ ramView.cells s₂.driver i = 255 :=
  vpInvalidate_refused lp64Host ramPersistence_ready.faithful blankState (by decide)
    (.inr (by decide))

end Ufw
