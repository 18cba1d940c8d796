/-
  File:      Ufw/VersionedPersistence/Saved.lean
  Subject:   VERSIONED PERSISTENCE keeps what is saved, on a medium that keeps what is stored.

  * `VpPrepared` -- the cached header has been verified, and fits the specification;
  * `VpStored` -- the medium holds a datum, behind a header with the checksums of both;
  * `vpFormat_prepared`, `vpStore_stored`, `vpMemset_stored`, `vpLoad_stored`, `vpFetch_stored` --
    what the functions make of an instance;
  * `vpWrites` -- a run of `vp_store` and `vp_memset`;
  * `vpSave_keeps` -- **what is saved stays valid**, and is what was saved with the later writes
    laid over it; nothing outside the section changes.
-/
import Ufw.Crc16Arc
import Ufw.VersionedPersistence.Media

namespace Ufw

open Base

variable {δ : Type}

/-! ## 1. The parts of an operation -/

/-- **An instance whose header has been verified**, and fits its specification. -/
structure VpPrepared (vp : VersionedPersistence δ) (s : VpState δ) : Prop where
  active : bitIsset s.state vpStateMetaCacheActive = true
  consistent : bitIsset s.state vpStateMetaConsistent = true
  length : s.metablock.length = vp.spec.length
  version : s.metablock.version = vp.spec.version

/-- **The medium holds a datum**, and a header with its checksum. -/
structure VpStored (h : Host) (v : VpView δ) (vp : VersionedPersistence δ) (datum : List Octet)
    (s : VpState δ) : Prop extends VpPrepared vp s where
  sealed : s.metablock = s.metablock.sealed h vp (payloadSum vp datum)
  header : (v.cells s.driver).slice vp.data.address.toNat vpSizeMeta = s.metablock.octets h
  payload : (v.cells s.driver).slice vp.payload vp.spec.length.toNat = datum

/-- Cells outside of the section of an instance stay as they are. -/
def VpSameOutside (vp : VersionedPersistence δ) (before after : Mem Octet) : Prop :=
  ∀ i, i < vp.data.address.toNat ∨ vp.data.address.toNat + vpSpecSize vp ≤ i → after i = before i

/-- A medium that keeps what is stored, and holds the whole section. -/
structure VersionedPersistence.Ready (v : VpView δ) (capacity : Nat)
    (vp : VersionedPersistence δ) : Prop where
  faithful : vp.data.Faithful v capacity
  fits : vp.data.address.toNat + vpSpecSize vp ≤ capacity

theorem VpPrepared.driver {vp : VersionedPersistence δ} {s : VpState δ} (hp : VpPrepared vp s)
    (d : δ) : VpPrepared vp { s with driver := d } :=
  ⟨hp.active, hp.consistent, hp.length, hp.version⟩

/-- The flags of an instance whose header has been read, and fits its specification. -/
def vpLoaded : BitVec 16 :=
  vpMetaRead ||| vpStateVersionCompatible ||| vpStateLengthCompatible ||| vpStatePayloadCompatible

theorem loaded_flags :
    bitIsset (bitSet vpLoaded vpStatePayloadConsistent) vpStateMetaCacheActive = true ∧
    bitIsset (bitSet vpLoaded vpStatePayloadConsistent) vpStateMetaConsistent = true ∧
    bitIsset (bitSet vpLoaded vpStatePayloadConsistent)
      (vpStatePayloadConsistent ||| vpStateMetaConsistent) = true ∧
    bitIsset (bitSet vpLoaded vpStatePayloadConsistent)
      (vpStateMetaConsistent ||| vpStatePayloadCompatible ||| vpStatePayloadConsistent) = true := by
  decide

section Parts

variable {h : Host} {v : VpView δ} {capacity : Nat} {vp : VersionedPersistence δ} {s : VpState δ}

theorem VersionedPersistence.Ready.payload_fits (hr : vp.Ready v capacity) :
    vp.payload + vp.spec.length.toNat ≤ capacity := by
  have hfits := hr.fits
  unfold vpSpecSize at hfits
  unfold VersionedPersistence.payload
  omega

theorem VersionedPersistence.Ready.header_fits (hr : vp.Ready v capacity) :
    vp.data.address.toNat + vpSizeMeta ≤ capacity := by
  have hfits := hr.fits
  unfold vpSpecSize at hfits
  omega

theorem vpCalculatePayloadChecksum_readable (hf : vp.data.Readable v capacity) (s : VpState δ)
    {n : Nat} (hle : vp.payload + n ≤ capacity) : ∃ d',
    Returns (fun fuel => vpCalculatePayloadChecksum fuel vp s n)
      (.ok 0, { s with
        result := { s.result with
          payload := payloadSum vp ((v.cells s.driver).slice vp.payload n) }
        driver := d' }) ∧
    v.cells d' = v.cells s.driver := by
  obtain ⟨k, d₁, hseek, hc₁, hr₁⟩ := vpSourceSeek_readable hf s (n := vp.payload) (by omega)
  obtain ⟨d', hloop, hc⟩ := payloadChecksumLoop_readable hf n vp.chksum.initial
    { s with driver := d₁ } (by show v.readAt d₁ + n ≤ capacity; omega)
  refine ⟨d', hloop.after fun fuel hx => ?_, hc.trans hc₁⟩
  rw [vpCalculatePayloadChecksum, hseek, maybe_ok, hx, maybe_ok, hc₁, hr₁, payloadSum,
    Mem.length_slice]

/-- **The checksums of a header are brought up to date.** -/
theorem vpUpdateChecksums_faithful (h : Host) (hf : vp.data.Faithful v capacity) (s : VpState δ)
    (hle : vp.payload + s.metablock.length.toNat ≤ capacity) : ∃ r d',
    Returns (fun fuel => vpUpdateChecksums h fuel vp s)
      (.ok 0, { s with
        metablock := s.metablock.sealed h vp
          (payloadSum vp ((v.cells s.driver).slice vp.payload s.metablock.length.toNat))
        result := r
        driver := d' }) ∧
    v.cells d' = v.cells s.driver := by
  obtain ⟨d', hsum, hc⟩ := vpCalculatePayloadChecksum_readable hf.readable s hle
  obtain ⟨sum, hs⟩ : ∃ cs, payloadSum vp
      ((v.cells s.driver).slice vp.payload s.metablock.length.toNat) = cs := ⟨_, rfl⟩
  rw [hs] at hsum ⊢
  refine ⟨⟨headerSum h vp (s.metablock.sealed h vp sum), sum⟩, d', hsum.after fun fuel hx => ?_, hc⟩
  rw [vpUpdateChecksums, hx, maybe_ok]
  rfl

theorem vpStoreHeader_faithful (h : Host) (hf : vp.data.Faithful v capacity) (s : VpState δ)
    (hle : vp.data.address.toNat + vpSizeMeta ≤ capacity) : ∃ d',
    Returns (fun fuel => vpStoreHeader h fuel vp s) (.ok 0, { s with driver := d' }) ∧
    v.cells d' = (v.cells s.driver).store vp.data.address.toNat (s.metablock.octets h) := by
  obtain ⟨k, d₁, hseek, hc₁, hw₁⟩ :=
    vpSinkSeek_faithful hf s (n := vp.data.address.toNat) (by omega)
  obtain ⟨d', hput, hc, -⟩ := vpSinkPut_faithful hf { s with driver := d₁ }
    (l := s.metablock.octets h) (by rw [Metablock.length_octets]; decide)
    (by rw [Metablock.length_octets]; show v.writeAt d₁ + _ ≤ _; omega)
  refine ⟨d', hput.after fun fuel hx => ?_, ?_⟩
  · rw [vpStoreHeader, hseek, maybe_ok, hx, maybe_ok]
  · rw [hc, hc₁, hw₁]

/-- **A header is read, and verified.** -/
theorem vpReadMeta_readable (hf : vp.data.Readable v capacity) (s : VpState δ)
    (hle : vp.data.address.toNat + vpSizeMeta ≤ capacity) {b : Metablock}
    (hb : (v.cells s.driver).slice vp.data.address.toNat vpSizeMeta = b.octets h) : ∃ r d',
    Returns (fun fuel => vpReadMeta h fuel vp s)
      (if b.headerChksum = headerSum h vp b then
        (.ok 0, { metablock := b, state := bitSet s.state vpMetaRead, result := r, driver := d' })
      else
        (.error ebadfd,
          { metablock := b, state := bitClear s.state vpMetaRead, result := r, driver := d' })) ∧
    v.cells d' = v.cells s.driver := by
  obtain ⟨k, d₁, hseek, hc₁, hr₁⟩ :=
    vpSourceSeek_readable hf s (n := vp.data.address.toNat) (by omega)
  obtain ⟨d', hget, hc, -⟩ := vpSourceGet_readable hf { s with driver := d₁ } (n := vpSizeMeta)
    (by decide) (by decide) (by show v.readAt d₁ + _ ≤ _; omega)
  refine ⟨{ s.result with header := headerSum h vp b }, d', ?_, hc.trans hc₁⟩
  rw [show (v.cells d₁).slice (v.readAt d₁) vpSizeMeta = b.octets h by rw [hc₁, hr₁, hb]] at hget
  refine hget.after fun fuel hx => ?_
  rw [vpReadMeta, hseek, maybe_ok, hx, maybe_ok]
  simp only [vpCalculateHeaderChecksum, Metablock.ofOctets_octets, ne_eq, ite_not]
  by_cases hsum : b.headerChksum = headerSum h vp b
  · rw [if_pos hsum]
    exact if_pos hsum
  · rw [if_neg hsum]
    exact if_neg hsum

/-- A header whose checksum matches. -/
theorem vpReadMeta_faithful (hf : vp.data.Faithful v capacity) (s : VpState δ)
    (hle : vp.data.address.toNat + vpSizeMeta ≤ capacity) {b : Metablock}
    (hb : (v.cells s.driver).slice vp.data.address.toNat vpSizeMeta = b.octets h)
    (hsum : b.headerChksum = headerSum h vp b) : ∃ r d',
    Returns (fun fuel => vpReadMeta h fuel vp s)
      (.ok 0, { metablock := b
                state := bitSet s.state vpMetaRead
                result := r
                driver := d' }) ∧
    v.cells d' = v.cells s.driver := by
  obtain ⟨r, d', hret, hc⟩ := vpReadMeta_readable hf.readable s hle hb
  rw [if_pos hsum] at hret
  exact ⟨r, d', hret, hc⟩

/-- **The header is brought up to date on the medium.** -/
theorem vpUpdateMeta_stored (h : Host) (hr : vp.Ready v capacity) (hp : VpPrepared vp s) : ∃ s',
    Returns (fun fuel => vpUpdateMeta h fuel vp s) (.ok 0, s') ∧
    VpStored h v vp ((v.cells s.driver).slice vp.payload vp.spec.length.toNat) s' ∧
    VpSameOutside vp (v.cells s.driver) (v.cells s'.driver) := by
  have hpayload := hr.payload_fits
  obtain ⟨r, d₁, hsums, hc₁⟩ := vpUpdateChecksums_faithful h hr.faithful s
    (by rw [hp.length]; exact hpayload)
  rw [hp.length] at hsums
  obtain ⟨b, hb⟩ : ∃ b, s.metablock.sealed h vp
      (payloadSum vp ((v.cells s.driver).slice vp.payload vp.spec.length.toNat)) = b := ⟨_, rfl⟩
  rw [hb] at hsums
  obtain ⟨d', hstore, hc⟩ := vpStoreHeader_faithful h hr.faithful
    { s with metablock := b, result := r, driver := d₁ } hr.header_fits
  have hcells : v.cells d' = (v.cells s.driver).store vp.data.address.toNat (b.octets h) := by
    rw [hc, hc₁]
  have hlen := b.length_octets h
  refine ⟨{ s with metablock := b, result := r, driver := d' }, Returns.both (fun fuel hx hy => ?_)
    hsums hstore, ⟨⟨hp.active, hp.consistent, ?_, ?_⟩, ?_, ?_, ?_⟩, fun i hi => ?_⟩
  · rw [vpUpdateMeta, vpActivate_of_active hp.active, hx, maybe_ok, hy]
  · rw [← hb]
    exact hp.length
  · rw [← hb]
    exact hp.version
  · rw [← hb]
    rfl
  · show (v.cells d').slice _ _ = _
    rw [hcells, ← hlen]
    exact Mem.slice_store _ _ _
  · show (v.cells d').slice _ _ = _
    rw [hcells]
    refine Mem.slice_store_apart _ (.inr ?_)
    rw [hlen]
    exact le_refl _
  · show v.cells d' i = _
    rw [hcells]
    refine Mem.store_outside _ ?_
    unfold vpSpecSize at hi
    rw [hlen]
    omega

/-- The same, once octets of the payload have been written. -/
theorem vpUpdateMeta_written (h : Host) (hr : vp.Ready v capacity) (hp : VpPrepared vp s) {d : δ}
    {offset : Nat} {l : List Octet} (hfit : offset + l.length ≤ vp.spec.length.toNat)
    (hd : v.cells d = (v.cells s.driver).store (vp.payload + offset) l) : ∃ s',
    Returns (fun fuel => vpUpdateMeta h fuel vp { s with driver := d }) (.ok 0, s') ∧
    VpStored h v vp
      (splice ((v.cells s.driver).slice vp.payload vp.spec.length.toNat) offset l) s' ∧
    VpSameOutside vp (v.cells s.driver) (v.cells s'.driver) := by
  obtain ⟨s', hret, hs', hsame⟩ := vpUpdateMeta_stored h hr (hp.driver d)
  refine ⟨s', hret, ?_, fun i hi => ?_⟩
  · have hdata : (v.cells d).slice vp.payload vp.spec.length.toNat =
        splice ((v.cells s.driver).slice vp.payload vp.spec.length.toNat) offset l := by
      rw [hd]
      exact Mem.slice_store_within _ _ hfit
    rw [← hdata]
    exact hs'
  · rw [hsame i hi]
    show v.cells d i = _
    rw [hd]
    refine Mem.store_outside _ ?_
    unfold VersionedPersistence.payload
    unfold vpSpecSize at hi
    omega

end Parts

/-! ## 2. The operations -/

section Operations

variable {h : Host} {v : VpView δ} {capacity : Nat} {vp : VersionedPersistence δ} {s : VpState δ}
  {datum : List Octet} {offset n : Nat}

/-- Where the octets of a request lie that fits the specification: no address wraps. -/
theorem sizeAdd_payload (vp : VersionedPersistence δ) (hle : offset ≤ vp.spec.length.toNat) :
    sizeAdd vp.payload offset = vp.payload + offset := by
  have haddr := vp.data.address.isLt
  have hlen := vp.spec.length.isLt
  refine sizeAdd_eq ?_
  unfold VersionedPersistence.payload vpSizeMeta
  omega

theorem sizeAdd_request {length : BitVec 16} (hfit : offset + n ≤ length.toNat) :
    sizeAdd offset n = offset + n := by
  have hlen := length.isLt
  exact sizeAdd_eq (by omega)

/-- **A store keeps what it does not write**, and brings the header up to date. -/
theorem vpStore_stored (h : Host) (hr : vp.Ready v capacity) (hp : VpPrepared vp s)
    (src : Mem Octet) (hfit : offset + n ≤ vp.spec.length.toNat) : ∃ s',
    Returns (fun fuel => vpStore h fuel vp s src offset n) (.ok n, s') ∧
    VpStored h v vp (splice ((v.cells s.driver).slice vp.payload vp.spec.length.toNat) offset
      (src.slice 0 n)) s' ∧
    VpSameOutside vp (v.cells s.driver) (v.cells s'.driver) := by
  have hpayload := hr.payload_fits
  have hmax := vp.spec.length.isLt
  have hlen := Mem.length_slice src 0 n
  obtain ⟨k, d₁, hseek, hc₁, hw₁⟩ := vpSinkSeek_faithful hr.faithful s (n := vp.payload + offset)
    (by omega)
  obtain ⟨d₂, hput, hc₂, -⟩ := vpSinkPut_faithful hr.faithful { s with driver := d₁ }
    (l := src.slice 0 n) (by rw [hlen]; unfold ssizeMax; omega)
    (by rw [hlen]; show v.writeAt d₁ + n ≤ _; omega)
  have hinside : offset + (src.slice 0 n).length ≤ vp.spec.length.toNat := by
    rw [hlen]
    exact hfit
  obtain ⟨s', hmeta, hs', hsame⟩ := vpUpdateMeta_written h hr hp (d := d₂) hinside
    (by rw [hc₂, hc₁, hw₁])
  refine ⟨s', Returns.both (fun fuel hx hy => ?_) hput hmeta, hs', hsame⟩
  have hstate : ¬ bitIsset s.state vpStateMetaConsistent = false := by
    rw [hp.consistent]
    exact Bool.true_eq_false_eq_False
  rw [vpStore, vpStoreData, vpActivate_of_active hp.active]
  simp only [if_neg hstate, hp.length, sizeAdd_request hfit, if_neg (not_lt.mpr hfit),
    sizeAdd_payload vp (le_trans (Nat.le_add_right _ _) hfit), hseek, maybe_ok, hx, hy, hlen]

/-- **So does `vp_memset`.** -/
theorem vpMemset_stored (h : Host) (hr : vp.Ready v capacity) (hp : VpPrepared vp s) (c : Octet)
    (hfit : offset + n ≤ vp.spec.length.toNat) : ∃ s',
    Returns (fun fuel => vpMemset h fuel vp s c offset n) (.ok 0, s') ∧
    VpStored h v vp (splice ((v.cells s.driver).slice vp.payload vp.spec.length.toNat) offset
      (List.replicate n c)) s' ∧
    VpSameOutside vp (v.cells s.driver) (v.cells s'.driver) := by
  have hpayload := hr.payload_fits
  obtain ⟨k, d₁, hseek, hc₁, hw₁⟩ := vpSinkSeek_faithful hr.faithful s (n := vp.payload + offset)
    (by omega)
  obtain ⟨d₂, hset, hc₂⟩ := memsetLoop_faithful hr.faithful c n { s with driver := d₁ }
    (by show v.writeAt d₁ + n ≤ _; omega)
  have hinside : offset + (List.replicate n c).length ≤ vp.spec.length.toNat := by
    rw [List.length_replicate]
    exact hfit
  obtain ⟨s', hmeta, hs', hsame⟩ := vpUpdateMeta_written h hr hp (d := d₂) hinside
    (by rw [hc₂, hc₁, hw₁])
  refine ⟨s', Returns.both (fun fuel hx hy => ?_) hset hmeta, hs', hsame⟩
  have hsum : sizeAdd n offset = offset + n := by
    rw [sizeAdd_request (Nat.add_comm n offset ▸ hfit), Nat.add_comm]
  rw [vpMemset, vpMemsetData, vpActivate_of_active hp.active]
  simp only [hp.length, hsum, if_neg (not_lt.mpr hfit),
    sizeAdd_payload vp (le_trans (Nat.le_add_right _ _) hfit), hseek, maybe_ok, hx, hy]

/-- `vp_invalidate`, of the payload. -/
theorem vpInvalidate_payload (h : Host) (fuel : Nat) (vp : VersionedPersistence δ) {s : VpState δ}
    (hact : bitIsset s.state vpStateMetaCacheActive = true) :
    vpInvalidate h fuel vp s vpDataPayload =
      maybe (vpUpdateChecksums h fuel vp s) fun _ s =>
        let b := s.metablock.sealed h vp (s.metablock.payloadChksum ^^^ 0xffff)
        vpStoreHeader h fuel vp
          { s with
            metablock := b
            state := bitClear s.state vpStatePayloadConsistent
            result := { s.result with header := headerSum h vp b } } := by
  have h0 : (vpDataPayload = 0) = False := eq_false (by decide)
  have hpayload : bitIsset vpDataPayload vpDataPayload = true := by decide
  have hmeta : bitIsset vpDataPayload vpDataMeta = false := by decide
  simp only [vpInvalidate, vpActivate_of_active hact, h0, if_false, hpayload, if_true, hmeta,
    Bool.false_eq_true]
  rfl

/-- **Any instance is formatted**: its header fits the specification then, and is verified. -/
theorem vpFormat_prepared (h : Host) (hr : vp.Ready v capacity) (s : VpState δ) : ∃ s',
    Returns (fun fuel => vpFormat h fuel vp s) (.ok 0, s') ∧ VpPrepared vp s' ∧
    VpSameOutside vp (v.cells s.driver) (v.cells s'.driver) := by
  have hact := loadMeta_active vp s
  obtain ⟨r, d₁, hsums, hc₁⟩ := vpUpdateChecksums_faithful h hr.faithful (loadMetaFromSpec vp s)
    hr.payload_fits
  obtain ⟨b, hb⟩ : ∃ b, (loadMetaFromSpec vp s).metablock.sealed h vp
      (payloadSum vp ((v.cells s.driver).slice vp.payload vp.spec.length.toNat) ^^^ 0xffff) = b :=
    ⟨_, rfl⟩
  obtain ⟨d₂, hstore, hc₂⟩ := vpStoreHeader_faithful h hr.faithful
    { metablock := b
      state := bitClear (loadMetaFromSpec vp s).state vpStatePayloadConsistent
      result := { r with header := headerSum h vp b }
      driver := d₁ } hr.header_fits
  have hcells : v.cells d₂ = (v.cells s.driver).store vp.data.address.toNat (b.octets h) := by
    rw [hc₂, hc₁]
    rfl
  have hlen := b.length_octets h
  obtain ⟨r', d', hread, hc'⟩ := vpReadMeta_faithful (h := h) (b := b) hr.faithful
    { metablock := b
      state := bitClear (loadMetaFromSpec vp s).state vpStatePayloadConsistent
      result := { r with header := headerSum h vp b }
      driver := d₂ } hr.header_fits
    (by show (v.cells d₂).slice _ _ = _; rw [hcells, ← hlen]; exact Mem.slice_store _ _ _)
    (by rw [← hb]; rfl)
  obtain ⟨hactive, hconsistent⟩ :=
    metaRead_flags (bitClear (loadMetaFromSpec vp s).state vpStatePayloadConsistent)
  have hinvalidate : Returns
      (fun fuel => vpInvalidate h fuel vp (loadMetaFromSpec vp s) vpDataPayload)
      (.ok 0, { metablock := b
                state := bitClear (loadMetaFromSpec vp s).state vpStatePayloadConsistent
                result := { r with header := headerSum h vp b }
                driver := d₂ }) := by
    subst hb
    refine Returns.both (fun fuel hx hy => ?_) hsums hstore
    rw [vpInvalidate_payload h fuel vp hact, hx, maybe_ok]
    exact hy
  refine ⟨_, Returns.both (fun fuel hx hy => by rw [vpFormat, hx, maybe_ok, hy]) hinvalidate hread,
    ⟨hactive, hconsistent, ?_, ?_⟩, fun i hi => ?_⟩
  · rw [← hb]
    rfl
  · rw [← hb]
    rfl
  · show v.cells d' i = _
    rw [hc']
    show v.cells d₂ i = _
    rw [hcells]
    refine Mem.store_outside _ ?_
    unfold vpSpecSize at hi
    rw [hlen]
    omega

/-- **What the medium holds is loaded**, and the instance is usable. -/
theorem vpLoad_stored (hr : vp.Ready v capacity) (hs : VpStored h v vp datum s) : ∃ s',
    Returns (fun fuel => vpLoad h fuel vp s) (.ok 0, s') ∧ VpStored h v vp datum s' ∧
    bitIsset s'.state (vpStatePayloadConsistent ||| vpStateMetaConsistent) = true ∧
    vpUsable s' = true ∧ v.cells s'.driver = v.cells s.driver := by
  have hsum : s.metablock.headerChksum = headerSum h vp s.metablock := by
    rw [hs.sealed]
    rfl
  have hpayload : s.metablock.payloadChksum = payloadSum vp datum := by
    rw [hs.sealed]
    rfl
  obtain ⟨r, d₁, hread, hc₁⟩ := vpReadMeta_faithful hr.faithful { s with state := 0 } hr.header_fits
    hs.header hsum
  have hcompare : vpCompare vp ⟨s.metablock, bitSet 0 vpMetaRead, r, d₁⟩ =
      ⟨s.metablock, vpLoaded, r, d₁⟩ := by
    simp only [vpCompare, hs.version, hs.length, if_true]
    rfl
  obtain ⟨d', hverify, hc⟩ := vpCalculatePayloadChecksum_readable hr.faithful.readable
    ⟨s.metablock, vpLoaded, r, d₁⟩ (n := vp.spec.length.toNat) hr.payload_fits
  have hcells : v.cells d' = v.cells s.driver := hc.trans hc₁
  have hdatum : s.metablock.payloadChksum =
      payloadSum vp ((v.cells d₁).slice vp.payload vp.spec.length.toNat) := by
    rw [hc₁]
    exact hpayload.trans (congrArg _ hs.payload.symm)
  obtain ⟨hactive, hconsistent, hflags, husable⟩ := loaded_flags
  refine ⟨⟨s.metablock, bitSet vpLoaded vpStatePayloadConsistent,
    { r with payload := payloadSum vp ((v.cells d₁).slice vp.payload vp.spec.length.toNat) }, d'⟩,
    Returns.both (fun fuel hx hy => ?_) hread hverify, ⟨⟨hactive, hconsistent, hs.length,
    hs.version⟩, hs.sealed, ?_, ?_⟩, hflags, husable, hcells⟩
  · rw [vpLoad, hx, maybe_ok, hcompare, vpVerifyPayload, hs.length, hy, maybe_ok, if_pos hdatum,
      maybe_ok]
  · show (v.cells d').slice _ _ = _
    rw [hcells]
    exact hs.header
  · show (v.cells d').slice _ _ = _
    rw [hcells]
    exact hs.payload

/-- **What the medium holds is fetched**, in part or as a whole. -/
theorem vpFetch_stored (hr : vp.Ready v capacity) (hs : VpStored h v vp datum s)
    (hflags : bitIsset s.state (vpStatePayloadConsistent ||| vpStateMetaConsistent) = true)
    (h0 : 0 < n) (hfit : offset + n ≤ vp.spec.length.toNat) : ∃ s',
    Returns (fun fuel => vpFetch h fuel vp s offset n) (.ok ((datum.drop offset).take n), s') := by
  have hpayload := hr.payload_fits
  have hmax := vp.spec.length.isLt
  obtain ⟨k, d₁, hseek, hc₁, hr₁⟩ :=
    vpSourceSeek_readable hr.faithful.readable s (n := vp.payload + offset)
    (by omega)
  obtain ⟨d', hget, -, -⟩ := vpSourceGet_readable hr.faithful.readable { s with driver := d₁ } h0
    (by unfold ssizeMax; omega) (by show v.readAt d₁ + n ≤ _; omega)
  have hpart : (v.cells d₁).slice (v.readAt d₁) n = (datum.drop offset).take n := by
    rw [hc₁, hr₁, ← hs.payload, Mem.slice_drop _ _ _ _ (by omega),
      Mem.slice_take _ _ _ _ (by omega)]
  rw [hpart] at hget
  have hactive : ¬ bitIsset s.state vpStateMetaCacheActive = false := by
    rw [hs.active]
    exact Bool.true_eq_false_eq_False
  have hstate : ¬ bitIsset s.state (vpStatePayloadConsistent ||| vpStateMetaConsistent) =
      false := by
    rw [hflags]
    exact Bool.true_eq_false_eq_False
  refine ⟨{ s with driver := d' }, hget.after fun fuel hx => ?_⟩
  rw [vpFetch, if_neg hactive, vpFetchData, if_neg hstate]
  simp only [hs.length, sizeAdd_request hfit, if_neg (not_lt.mpr hfit),
    sizeAdd_payload vp (le_trans (Nat.le_add_right _ _) hfit), hseek, maybe_ok, hx]

end Operations

/-! ## 3. Runs -/

/-- A call that writes data. -/
inductive VpWrite where
  | store (src : Mem Octet) (offset n : Nat)
  | memset (c : Octet) (offset n : Nat)

namespace VpWrite

/-- A write inside data of some size. -/
def Within (size : Nat) : VpWrite → Prop
  | .store _ offset n => offset + n ≤ size
  | .memset _ offset n => offset + n ≤ size

/-- A datum with a write laid over it. -/
def onto (datum : List Octet) : VpWrite → List Octet
  | .store src offset n => splice datum offset (src.slice 0 n)
  | .memset c offset n => splice datum offset (List.replicate n c)

/-- The call. -/
def call (h : Host) (fuel : Nat) (vp : VersionedPersistence δ) (s : VpState δ) :
    VpWrite → Exec (Rc × VpState δ)
  | .store src offset n => vpStore h fuel vp s src offset n
  | .memset c offset n => vpMemset h fuel vp s c offset n

end VpWrite

/-- A run of writes, with what they return. -/
def vpWrites (h : Host) (fuel : Nat) (vp : VersionedPersistence δ) :
    VpState δ → List VpWrite → Exec (List Rc × VpState δ)
  | s, [] => .ok ([], s)
  | s, w :: writes => do
    let (rc, s) ← w.call h fuel vp s
    let (rcs, s) ← vpWrites h fuel vp s writes
    .ok (rc :: rcs, s)

section Runs

variable {h : Host} {v : VpView δ} {capacity : Nat} {vp : VersionedPersistence δ} {s : VpState δ}
  {datum : List Octet}

/-- **One write** is laid over what is stored. -/
theorem VpWrite.call_stored (hr : vp.Ready v capacity) (hs : VpStored h v vp datum s) {w : VpWrite}
    (hw : w.Within vp.spec.length.toNat) : ∃ k s',
    Returns (fun fuel => w.call h fuel vp s) (.ok k, s') ∧ VpStored h v vp (w.onto datum) s' ∧
    VpSameOutside vp (v.cells s.driver) (v.cells s'.driver) := by
  cases w with
  | store src offset n =>
    obtain ⟨s', hret, hs', hsame⟩ := vpStore_stored h hr hs.toVpPrepared src hw
    rw [hs.payload] at hs'
    exact ⟨n, s', hret, hs', hsame⟩
  | memset c offset n =>
    obtain ⟨s', hret, hs', hsame⟩ := vpMemset_stored h hr hs.toVpPrepared c hw
    rw [hs.payload] at hs'
    exact ⟨0, s', hret, hs', hsame⟩

/-- **A run of writes keeps what is stored**: every call succeeds. -/
theorem vpWrites_stored (hr : vp.Ready v capacity) (writes : List VpWrite) :
    ∀ {s : VpState δ} {datum : List Octet}, VpStored h v vp datum s →
    (∀ w ∈ writes, w.Within vp.spec.length.toNat) → ∃ rcs s',
    Returns (fun fuel => vpWrites h fuel vp s writes) (rcs, s') ∧ (∀ rc ∈ rcs, ∃ k, rc = .ok k) ∧
    VpStored h v vp (writes.foldl VpWrite.onto datum) s' ∧
    VpSameOutside vp (v.cells s.driver) (v.cells s'.driver) := by
  induction writes with
  | nil =>
    intro s datum hs _
    exact ⟨[], s, Returns.of_eq fun _ => rfl, fun rc hrc => (nomatch hrc), hs, fun _ _ => rfl⟩
  | cons w writes ih =>
    intro s datum hs hwithin
    obtain ⟨k, s₁, hcall, hs₁, hsame₁⟩ := VpWrite.call_stored hr hs
      (hwithin w (List.mem_cons_self ..))
    obtain ⟨rcs, s', hret, hall, hs', hsame⟩ := ih hs₁ fun w hw =>
      hwithin w (List.mem_cons_of_mem _ hw)
    refine ⟨.ok k :: rcs, s', Returns.both (fun fuel hx hy => ?_) hcall hret, fun rc hrc => ?_, hs',
      fun i hi => (hsame i hi).trans (hsame₁ i hi)⟩
    · simp only [vpWrites, hx, hy, ok_bind]
    · rcases List.mem_cons.mp hrc with rfl | hrc
      · exact ⟨k, rfl⟩
      · exact hall rc hrc

/-- **Versioned persistence keeps what is saved**, whatever the medium and the instance held before:
    `vp_save` returns 0, and behind any run of writes inside the data `vp_load` returns 0, the
    instance is usable, what is fetched is the datum with the writes laid over it in order, and no
    cell outside the section has changed. -/
theorem vpSave_keeps (h : Host) (hr : vp.Ready v capacity) (s : VpState δ) (src : Mem Octet)
    (writes : List VpWrite) (hwithin : ∀ w ∈ writes, w.Within vp.spec.length.toNat) :
    ∃ s₁ rcs s₂ s₃,
      Returns (fun fuel => vpSave h fuel vp s src vp.spec.length.toNat) (.ok 0, s₁) ∧
      Returns (fun fuel => vpWrites h fuel vp s₁ writes) (rcs, s₂) ∧ (∀ rc ∈ rcs, ∃ k, rc = .ok k) ∧
      Returns (fun fuel => vpLoad h fuel vp s₂) (.ok 0, s₃) ∧ vpUsable s₃ = true ∧
      (∀ offset n, 0 < n → offset + n ≤ vp.spec.length.toNat → ∃ s₄,
        Returns (fun fuel => vpFetch h fuel vp s₃ offset n)
          (.ok (((writes.foldl VpWrite.onto (src.slice 0 vp.spec.length.toNat)).drop offset).take
          n),
            s₄)) ∧
      VpSameOutside vp (v.cells s.driver) (v.cells s₃.driver) := by
  obtain ⟨sf, hformat, hprepared, hsamef⟩ := vpFormat_prepared h hr s
  have hwhole : 0 + vp.spec.length.toNat ≤ vp.spec.length.toNat := le_of_eq (Nat.zero_add _)
  obtain ⟨st, hstore, hst, hsamet⟩ := vpStore_stored h hr hprepared src hwhole
  rw [splice_whole (by rw [Mem.length_slice, Mem.length_slice])] at hst
  obtain ⟨s₁, hload, hs₁, -, -, hcells₁⟩ := vpLoad_stored hr hst
  obtain ⟨rcs, s₂, hwrites, hall, hs₂, hsame₂⟩ := vpWrites_stored hr writes hs₁ hwithin
  obtain ⟨s₃, hload', hs₃, hflags, husable, hcells₃⟩ := vpLoad_stored hr hs₂
  refine ⟨s₁, rcs, s₂, s₃, Returns.maybe hformat (Returns.maybe hstore hload), hwrites, hall,
    hload', husable, fun offset n h0 hfit => vpFetch_stored hr hs₃ hflags h0 hfit, fun i hi => ?_⟩
  rw [hcells₃, hsame₂ i hi, hcells₁, hsamet i hi, hsamef i hi]

end Runs

/-- `VP_SIMPLE_INIT`, for four octets at address 24 of a peripheral. -/
def ramPersistence : VersionedPersistence RamMedium where
  data := ramEndpoints.access 24
  spec := { length := 4, version := 5 }
  chksum := { initial := crc16ArcInitial, process := ufwCrc16Arc }

theorem ramPersistence_ready : ramPersistence.Ready ramView 512 where
  faithful := (ramEndpoints_faithful 512).access 24
  fits := by decide

/-- A medium in its blank state, and an instance that was not used before. -/
def blankState : VpState RamMedium where
  metablock := ⟨0, 0, 0, 0⟩
  state := 0
  result := ⟨0, 0⟩
  driver := ⟨fun _ => 255, 0, 0⟩

theorem vpSave_keeps_sample :
    ∃ s₁ rcs s₂ s₃,
      Returns (fun fuel => vpSave lp64Host fuel ramPersistence blankState (fun _ => 1) 4)
        (.ok 0, s₁) ∧
      Returns (fun fuel => vpWrites lp64Host fuel ramPersistence s₁
        [.store (fun _ => 7) 1 2, .memset 9 2 2]) (rcs, s₂) ∧ (∀ rc ∈ rcs, ∃ k, rc = .ok k) ∧
      Returns (fun fuel => vpLoad lp64Host fuel ramPersistence s₂) (.ok 0, s₃) ∧
      vpUsable s₃ = true ∧
      (∀ offset n, 0 < n → offset + n ≤ 4 → ∃ s₄,
        Returns (fun fuel => vpFetch lp64Host fuel ramPersistence s₃ offset n)
          (.ok ((([1, 7, 9, 9] : List Octet).drop offset).take n), s₄)) ∧
      VpSameOutside ramPersistence (ramView.cells blankState.driver) (ramView.cells s₃.driver) :=
  vpSave_keeps lp64Host ramPersistence_ready blankState (fun _ => 1)
    [.store (fun _ => 7) 1 2, .memset 9 2 2] (by simp [VpWrite.Within, ramPersistence])

end Ufw
