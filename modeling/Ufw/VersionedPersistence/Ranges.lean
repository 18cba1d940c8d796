/-
  File:      Ufw/VersionedPersistence/Ranges.lean
  Subject:   VERSIONED PERSISTENCE: the addresses user data are written to and read from.

  * `VpAccess.within` -- a medium that stops the program where it is asked for an address that is
    not allowed; `unwatch` forgets the watch;
  * `VpStoresInside`, `VpMemsetsInside`, `VpFetchesInside` -- on every medium the data of a request
    stay inside the payload, and one that does not fit it is refused without any access;
  * `VpSumFits` -- the sum of the arguments does not wrap to a number that looks right;
  * `vpTransfers_inside_iff` -- **user data stay inside the payload exactly where no sum wraps so**:
    `offset + n` is compared in `size_t` with the length in the header, and what wraps is accepted.
-/
import Ufw.VersionedPersistence

namespace Ufw

open Base

variable {α β δ ε : Type}

/-! ## 1. Watched media -/

/-- A medium, and where its endpoints stand. -/
structure VpWatch (δ : Type) where
  medium : δ
  readAt : Nat
  writeAt : Nat

/-- **A medium that is watched**: a transfer that touches an address that is not allowed stops the
    program. -/
def VpAccess.within (access : VpAccess δ) (allowed : Nat → Prop) [DecidablePred allowed] :
    VpAccess (VpWatch δ) where
  address := access.address
  sourceSeek w n := ((access.sourceSeek w.medium n).1,
    { w with medium := (access.sourceSeek w.medium n).2, readAt := n })
  sourceGet fuel w n := do
    require (∀ i, i < n → allowed (w.readAt + i))
    let (rc, medium) ← access.sourceGet fuel w.medium n
    .ok (rc, { w with medium, readAt := w.readAt + n })
  sinkSeek w n := ((access.sinkSeek w.medium n).1,
    { w with medium := (access.sinkSeek w.medium n).2, writeAt := n })
  sinkPut fuel w l := do
    require (∀ i, i < l.length → allowed (w.writeAt + i))
    let (rc, medium) ← access.sinkPut fuel w.medium l
    .ok (rc, { w with medium, writeAt := w.writeAt + l.length })
  get_whole h := by
    obtain ⟨_, _, h⟩ := bind_eq_ok h
    obtain ⟨⟨rc, medium⟩, hget, h⟩ := bind_eq_ok h
    cases h
    exact access.get_whole hget
  put_whole h := by
    obtain ⟨_, _, h⟩ := bind_eq_ok h
    obtain ⟨⟨rc, medium⟩, hput, h⟩ := bind_eq_ok h
    cases h
    exact access.put_whole hput

/-- An instance on another medium, at the same address. -/
def VersionedPersistence.on (vp : VersionedPersistence δ) (access : VpAccess ε) :
    VersionedPersistence ε where
  data := { access with address := vp.data.address }
  spec := vp.spec
  chksum := vp.chksum

/-- An instance on a watched medium. -/
def VpState.watched (s : VpState δ) : VpState (VpWatch δ) :=
  { s with driver := ⟨s.driver, 0, 0⟩ }

/-- The same without the watch. -/
def VpState.unwatched (s : VpState (VpWatch δ)) : VpState δ := { s with driver := s.driver.medium }

/-- A result without the watch. -/
def unwatch (x : Exec (Except Errno α × VpState (VpWatch δ))) : Exec (Except Errno α × VpState δ) :=
  x.map fun r => (r.1, r.2.unwatched)

/-- The addresses of the payload, as long as the cached header says. -/
def VpState.InPayload (vp : VersionedPersistence δ) (s : VpState δ) (i : Nat) : Prop :=
  vp.payload ≤ i ∧ i < vp.payload + s.metablock.length.toNat

instance (vp : VersionedPersistence δ) (s : VpState δ) : DecidablePred (s.InPayload vp) := fun _ =>
  inferInstanceAs (Decidable (_ ∧ _))

/-- **`vp_store` writes its data into the payload**, on every medium, and refuses data that do not
    fit it before it touches the medium. -/
def VpStoresInside (h : Host) (vp : VersionedPersistence δ) (s : VpState δ) (offset n : Nat) :
    Prop :=
  ∀ (access : VpAccess δ) (fuel : Nat) (src : Mem Octet),
    unwatch (vpStoreData fuel (vp.on (access.within ((vpActivate vp s).InPayload vp))) s.watched src
      offset n) = vpStoreData fuel (vp.on access) s src offset n ∧
    ((vpActivate vp s).metablock.length.toNat < offset + n → ∃ e s',
      vpStore h fuel (vp.on access) s src offset n = .ok (.error e, s') ∧ s'.driver = s.driver)

/-- The same for `vp_memset`. -/
def VpMemsetsInside (h : Host) (vp : VersionedPersistence δ) (s : VpState δ) (offset n : Nat) :
    Prop :=
  ∀ (access : VpAccess δ) (fuel : Nat) (c : Octet),
    unwatch (vpMemsetData fuel (vp.on (access.within ((vpActivate vp s).InPayload vp))) s.watched c
      offset n) = vpMemsetData fuel (vp.on access) s c offset n ∧
    ((vpActivate vp s).metablock.length.toNat < offset + n → ∃ e s',
      vpMemset h fuel (vp.on access) s c offset n = .ok (.error e, s') ∧ s'.driver = s.driver)

/-- The same for `vp_fetch`, once the cache is filled. -/
def VpFetchesInside (vp : VersionedPersistence δ) (s : VpState δ) (offset n : Nat) : Prop :=
  ∀ (access : VpAccess δ) (fuel : Nat),
    unwatch (vpFetchData fuel (vp.on (access.within (s.InPayload vp))) s.watched offset n) =
      vpFetchData fuel (vp.on access) s offset n ∧
    (s.metablock.length.toNat < offset + n → ∃ e s',
      vpFetchData fuel (vp.on access) s offset n = .ok (.error e, s') ∧ s'.driver = s.driver)

/-! ## 2. Sums -/

/-- The sum of the arguments does not wrap to a number that is no larger than the payload. -/
def VpSumFits (length : BitVec 16) (offset n : Nat) : Prop :=
  offset + n < 2 ^ 64 ∨ length.toNat < offset + n - 2 ^ 64

section Sums

variable {length : BitVec 16} {offset n : Nat}

theorem sizeAdd_comm (a b : Nat) : sizeAdd a b = sizeAdd b a := by
  rw [sizeAdd_mod, sizeAdd_mod, Nat.add_comm]

theorem VpSumFits.not_lt_iff (hs : VpSumFits length offset n) (ho : offset < 2 ^ 64)
    (hn : n < 2 ^ 64) : ¬ length.toNat < sizeAdd offset n ↔ offset + n ≤ length.toNat := by
  have hlt := length.isLt
  unfold VpSumFits at hs
  rw [sizeAdd_mod]
  omega

/-- **Where the sum wraps so**, the request is accepted, and one of its octets lies outside. -/
theorem not_vpSumFits (vp : VersionedPersistence δ) (ho : offset < 2 ^ 64) (hn : n < 2 ^ 64)
    (hs : ¬ VpSumFits length offset n) : ¬ length.toNat < sizeAdd offset n ∧ ∃ i, i < n ∧
      ¬(vp.payload ≤ sizeAdd vp.payload offset + i ∧
        sizeAdd vp.payload offset + i < vp.payload + length.toNat) := by
  have hlt := length.isLt
  have haddr := vp.data.address.isLt
  have hpayload : vp.payload < 2 ^ 33 := by
    unfold VersionedPersistence.payload vpSizeMeta
    omega
  unfold VpSumFits at hs
  rw [sizeAdd_mod, sizeAdd_mod]
  refine ⟨by omega, ?_⟩
  by_contra hall
  have hin : ∀ i, i < n → vp.payload ≤ (vp.payload + offset) % 2 ^ 64 + i ∧
      (vp.payload + offset) % 2 ^ 64 + i < vp.payload + length.toNat := fun i hi =>
    Classical.not_not.mp fun hout => hall ⟨i, hi, hout⟩
  have hfirst := hin 0 (by omega)
  have hlast := hin (n - 1) (by omega)
  omega

end Sums

/-! ## 3. Watched operations -/

section Watched

variable {vp : VersionedPersistence δ} {access : VpAccess δ} {allowed : Nat → Prop}
  [DecidablePred allowed] {s : VpState (VpWatch δ)}

@[simp] theorem unwatch_ok (rc : Except Errno α) (s : VpState (VpWatch δ)) :
    unwatch (.ok (rc, s)) = .ok (rc, s.unwatched) := rfl

/-- **A sequence** whose parts do not notice the watch does not notice it. -/
theorem unwatch_maybe {x : Exec (Except Errno α × VpState (VpWatch δ))}
    {f : α → VpState (VpWatch δ) → Exec (Except Errno β × VpState (VpWatch δ))}
    {x' : Exec (Except Errno α × VpState δ)}
    {f' : α → VpState δ → Exec (Except Errno β × VpState δ)} (hx : unwatch x = x')
    (hf : ∀ a s, x = .ok (.ok a, s) → unwatch (f a s) = f' a s.unwatched) :
    unwatch (maybe x f) = maybe x' f' := by
  subst hx
  match x, hf with
  | .error e, _ => rfl
  | .ok (.error e, s), _ => rfl
  | .ok (.ok a, s), hf => exact hf a s rfl

theorem vpSinkSeek_within (n : Nat) :
    unwatch (vpSinkSeek (vp.on (access.within allowed)) s n) =
      vpSinkSeek (vp.on access) s.unwatched n := rfl

theorem vpSourceSeek_within (n : Nat) :
    unwatch (vpSourceSeek (vp.on (access.within allowed)) s n) =
      vpSourceSeek (vp.on access) s.unwatched n := rfl

/-- Behind a seek an endpoint stands where it was sent. -/
theorem vpSinkSeek_writeAt {rc : Rc} {n : Nat} {s' : VpState (VpWatch δ)}
    (h : vpSinkSeek (vp.on (access.within allowed)) s n = .ok (rc, s')) :
    s'.driver.writeAt = n := by
  rw [← (Prod.mk.inj (Except.ok.inj h)).2]
  rfl

theorem vpSourceSeek_readAt {rc : Rc} {n : Nat} {s' : VpState (VpWatch δ)}
    (h : vpSourceSeek (vp.on (access.within allowed)) s n = .ok (rc, s')) :
    s'.driver.readAt = n := by
  rw [← (Prod.mk.inj (Except.ok.inj h)).2]
  rfl

theorem vpSinkPut_within (fuel : Nat) {l : List Octet}
    (hl : ∀ i, i < l.length → allowed (s.driver.writeAt + i)) :
    unwatch (vpSinkPut fuel (vp.on (access.within allowed)) s l) =
      vpSinkPut fuel (vp.on access) s.unwatched l := by
  unfold vpSinkPut VersionedPersistence.on VpAccess.within
  simp only [require_pos hl, ok_bind]
  show unwatch (access.sinkPut fuel s.driver.medium l >>= _ >>= _) =
    access.sinkPut fuel s.driver.medium l >>= _
  cases access.sinkPut fuel s.driver.medium l with
  | error e => rfl
  | ok r => rfl

theorem vpSourceGet_within (fuel : Nat) {n : Nat}
    (hn : ∀ i, i < n → allowed (s.driver.readAt + i)) :
    unwatch (vpSourceGet fuel (vp.on (access.within allowed)) s n) =
      vpSourceGet fuel (vp.on access) s.unwatched n := by
  unfold vpSourceGet VersionedPersistence.on VpAccess.within
  simp only [require_pos hn, ok_bind]
  show unwatch (access.sourceGet fuel s.driver.medium n >>= _ >>= _) =
    access.sourceGet fuel s.driver.medium n >>= _
  cases access.sourceGet fuel s.driver.medium n with
  | error e => rfl
  | ok r => rfl

theorem vpSinkPut_fault (fuel : Nat) {l : List Octet}
    (hl : ¬ ∀ i, i < l.length → allowed (s.driver.writeAt + i)) :
    vpSinkPut fuel (vp.on (access.within allowed)) s l = .error .fault := by
  unfold vpSinkPut VersionedPersistence.on VpAccess.within
  simp only [require_neg hl, error_bind]

theorem vpSourceGet_fault (fuel : Nat) {n : Nat}
    (hn : ¬ ∀ i, i < n → allowed (s.driver.readAt + i)) :
    vpSourceGet fuel (vp.on (access.within allowed)) s n = .error .fault := by
  unfold vpSourceGet VersionedPersistence.on VpAccess.within
  simp only [require_neg hn, error_bind]

/-- Behind a write the sink stands where the write has ended. -/
theorem vpSinkPut_writeAt {fuel k : Nat} {l : List Octet} {s' : VpState (VpWatch δ)}
    (h : vpSinkPut fuel (vp.on (access.within allowed)) s l = .ok (.ok k, s')) :
    k = l.length ∧ s'.driver.writeAt = s.driver.writeAt + l.length := by
  obtain ⟨⟨rc, w⟩, hput, hret⟩ := bind_eq_ok h
  cases hret
  refine ⟨(vp.on (access.within allowed)).data.put_whole hput, ?_⟩
  obtain ⟨_, _, hput⟩ := bind_eq_ok hput
  obtain ⟨⟨rc, medium⟩, _, hput⟩ := bind_eq_ok hput
  cases hput
  rfl

/-- **The loop of `vp_memset` does not notice the watch** where all of its octets are allowed. -/
theorem memsetLoop_within (c : Octet) (fuel : Nat) : ∀ {rest : Nat} {s : VpState (VpWatch δ)},
    (∀ i, i < rest → allowed (s.driver.writeAt + i)) →
    unwatch (memsetLoop (vp.on (access.within allowed)) c fuel rest s) =
      memsetLoop (vp.on access) c fuel rest s.unwatched := by
  induction fuel with
  | zero => exact fun _ => rfl
  | succ fuel ih =>
    intro rest s hall
    have hlen : (List.replicate (vpPiece rest) c).length = vpPiece rest := List.length_replicate
    have hle := (vpPiece_le rest).1
    rw [memsetLoop, memsetLoop]
    by_cases h0 : 0 < rest
    · rw [if_pos h0, if_pos h0]
      refine unwatch_maybe (vpSinkPut_within fuel fun i hi => hall i (by omega)) ?_
      intro k s' hput
      obtain ⟨rfl, hat⟩ := vpSinkPut_writeAt hput
      refine ih fun i hi => ?_
      rw [hat, Nat.add_assoc]
      exact hall _ (by omega)
    · rw [if_neg h0, if_neg h0]
      rfl

end Watched

/-! ## 4. The operations -/

/-- A medium that takes everything and holds nothing but zeros. -/
def blankAccess : VpAccess δ where
  address := 0
  sourceSeek d _ := (.ok 0, d)
  sourceGet _ d n := .ok (.ok (List.replicate n 0), d)
  sinkSeek d _ := (.ok 0, d)
  sinkPut _ d l := .ok (.ok l.length, d)
  get_whole h := by
    cases h
    exact List.length_replicate
  put_whole h := by
    cases h
    rfl

section Blank

variable {vp : VersionedPersistence δ} {allowed : Nat → Prop} [DecidablePred allowed]

theorem vpSinkSeek_blank (s : VpState (VpWatch δ)) (n : Nat) :
    vpSinkSeek (vp.on (blankAccess.within allowed)) s n =
      .ok (.ok 0, { s with driver := { s.driver with writeAt := n } }) := rfl

theorem vpSourceSeek_blank (s : VpState (VpWatch δ)) (n : Nat) :
    vpSourceSeek (vp.on (blankAccess.within allowed)) s n =
      .ok (.ok 0, { s with driver := { s.driver with readAt := n } }) := rfl

theorem vpSinkPut_blank {fuel : Nat} {s : VpState (VpWatch δ)} {l : List Octet}
    (hl : ∀ i, i < l.length → allowed (s.driver.writeAt + i)) :
    vpSinkPut fuel (vp.on (blankAccess.within allowed)) s l = .ok (.ok l.length,
      { s with driver := { s.driver with writeAt := s.driver.writeAt + l.length } }) := by
  unfold vpSinkPut VersionedPersistence.on VpAccess.within blankAccess
  simp only [require_pos hl, ok_bind]

/-- Without the watch no transfer stops the program. -/
theorem memsetLoop_blank (c : Octet) (fuel : Nat) : ∀ (rest : Nat) (s : VpState δ),
    memsetLoop (vp.on blankAccess) c fuel rest s ≠ .error .fault := by
  induction fuel with
  | zero => exact fun _ _ h => by cases h
  | succ fuel ih =>
    intro rest s
    rw [memsetLoop]
    split
    · exact ih _ s
    · exact fun h => nomatch h

end Blank

section Operations

variable {vp : VersionedPersistence δ} {s : VpState δ} {offset n : Nat}

/-- Whether `vp_store` compares its arguments with the length of the payload at all. -/
def VpStoreProper (vp : VersionedPersistence δ) (s : VpState δ) (offset n : Nat) : Prop :=
  bitIsset (vpActivate vp s).state vpStateMetaConsistent = true →
    VpSumFits (vpActivate vp s).metablock.length offset n

/-- `vp_memset` always does. -/
def VpMemsetProper (vp : VersionedPersistence δ) (s : VpState δ) (offset n : Nat) : Prop :=
  VpSumFits (vpActivate vp s).metablock.length offset n

/-- `vp_fetch` does once header and payload have been verified. -/
def VpFetchProper (s : VpState δ) (offset n : Nat) : Prop :=
  bitIsset s.state (vpStatePayloadConsistent ||| vpStateMetaConsistent) = true →
    VpSumFits s.metablock.length offset n

theorem vpActivate_on (access : VpAccess δ) (s : VpState δ) :
    vpActivate (vp.on access) s = vpActivate vp s := rfl

theorem vpActivate_watched (access : VpAccess (VpWatch δ)) (s : VpState δ) :
    vpActivate (vp.on access) s.watched = (vpActivate vp s).watched := by
  unfold vpActivate
  by_cases hact : bitIsset s.state vpStateMetaCacheActive = false
  · rw [if_pos hact, if_pos (show bitIsset s.watched.state _ = false from hact)]
    rfl
  · rw [if_neg hact, if_neg (show ¬ bitIsset s.watched.state _ = false from hact)]

/-- The octets of a request that fits the payload. -/
theorem inPayload_of_fits (hfit : offset + n ≤ s.metablock.length.toNat) {i : Nat} (hi : i < n) :
    s.InPayload vp (sizeAdd vp.payload offset + i) := by
  have haddr := vp.data.address.isLt
  have hlen := s.metablock.length.isLt
  have hsum : sizeAdd vp.payload offset = vp.payload + offset := by
    refine sizeAdd_eq ?_
    unfold VersionedPersistence.payload vpSizeMeta
    omega
  rw [hsum]
  exact ⟨by omega, by omega⟩

/-- **`vp_fetch` stays inside the payload exactly where its sum does not wrap.** -/
theorem vpFetchesInside_iff (ho : offset < 2 ^ 64) (hn : n < 2 ^ 64) :
    VpFetchesInside vp s offset n ↔ VpFetchProper s offset n := by
  constructor
  · intro hin hflags
    by_contra hs
    obtain ⟨hlt, i, hi, hout⟩ := not_vpSumFits vp ho hn hs
    have hstate : ¬ bitIsset s.state (vpStatePayloadConsistent ||| vpStateMetaConsistent) =
        false := by
      rw [hflags]
      exact Bool.true_eq_false_eq_False
    have hguard : ¬ ∀ i, i < n → s.InPayload vp (sizeAdd vp.payload offset + i) := fun hall =>
      hout (hall i hi)
    obtain ⟨hsame, -⟩ := hin blankAccess 0
    have hwatched : vpFetchData 0 (vp.on (blankAccess.within (s.InPayload vp))) s.watched offset n =
        .error .fault := by
      rw [vpFetchData, if_neg (show ¬ bitIsset s.watched.state _ = false from hstate),
        if_neg (show ¬ s.watched.metablock.length.toNat < _ from hlt), vpSourceSeek_blank, maybe_ok]
      exact vpSourceGet_fault 0 hguard
    rw [hwatched, vpFetchData, if_neg hstate, if_neg hlt] at hsame
    cases hsame
  · intro hproper access fuel
    by_cases hstate : bitIsset s.state (vpStatePayloadConsistent ||| vpStateMetaConsistent) = false
    · rw [vpFetchData, vpFetchData, if_pos hstate,
        if_pos (show bitIsset s.watched.state _ = false from hstate)]
      exact ⟨rfl, fun _ => ⟨_, _, rfl, rfl⟩⟩
    · have hsum := hproper (Bool.not_eq_false _ ▸ hstate)
      rw [vpFetchData, vpFetchData, if_neg hstate,
        if_neg (show ¬ bitIsset s.watched.state _ = false from hstate)]
      by_cases hlt : s.metablock.length.toNat < sizeAdd offset n
      · rw [if_pos hlt, if_pos (show s.watched.metablock.length.toNat < _ from hlt)]
        exact ⟨rfl, fun _ => ⟨_, _, rfl, rfl⟩⟩
      · have hfit := (hsum.not_lt_iff ho hn).mp hlt
        rw [if_neg hlt, if_neg (show ¬ s.watched.metablock.length.toNat < _ from hlt)]
        refine ⟨unwatch_maybe (vpSourceSeek_within _) fun a s' hseek => ?_, fun hout =>
          absurd hout (not_lt.mpr hfit)⟩
        refine vpSourceGet_within fuel fun i hi => ?_
        rw [vpSourceSeek_readAt hseek]
        exact inPayload_of_fits hfit hi

/-- **`vp_store` stays inside the payload exactly where its sum does not wrap.** -/
theorem vpStoresInside_iff (h : Host) (ho : offset < 2 ^ 64) (hn : n < 2 ^ 64) :
    VpStoresInside h vp s offset n ↔ VpStoreProper vp s offset n := by
  constructor
  · intro hin hflag
    by_contra hs
    obtain ⟨hlt, i, hi, hout⟩ := not_vpSumFits vp ho hn hs
    have hstate : ¬ bitIsset (vpActivate vp s).state vpStateMetaConsistent = false := by
      rw [hflag]
      exact Bool.true_eq_false_eq_False
    have hguard : ¬ ∀ i, i < (Mem.slice (fun _ => (0 : Octet)) 0 n).length →
        (vpActivate vp s).InPayload vp (sizeAdd vp.payload offset + i) := fun hall =>
      hout (hall i (by rwa [Mem.length_slice]))
    obtain ⟨hsame, -⟩ := hin blankAccess 0 fun _ => 0
    have hwatched : vpStoreData 0 (vp.on (blankAccess.within ((vpActivate vp s).InPayload vp)))
        s.watched (fun _ => 0) offset n = .error .fault := by
      rw [vpStoreData, vpActivate_watched,
        if_neg (show ¬ bitIsset (vpActivate vp s).watched.state _ = false from hstate),
        if_neg (show ¬ (vpActivate vp s).watched.metablock.length.toNat < _ from hlt),
        vpSinkSeek_blank, maybe_ok]
      exact vpSinkPut_fault 0 hguard
    rw [hwatched, vpStoreData, vpActivate_on, if_neg hstate, if_neg hlt] at hsame
    cases hsame
  · intro hproper access fuel src
    by_cases hstate : bitIsset (vpActivate vp s).state vpStateMetaConsistent = false
    · rw [vpStore, vpStoreData, vpStoreData, vpActivate_watched, vpActivate_on, if_pos hstate,
        if_pos (show bitIsset (vpActivate vp s).watched.state _ = false from hstate)]
      exact ⟨rfl, fun _ => ⟨_, _, rfl, vpActivate_driver _ s⟩⟩
    · have hsum := hproper (Bool.not_eq_false _ ▸ hstate)
      rw [vpStore, vpStoreData, vpStoreData, vpActivate_watched, vpActivate_on, if_neg hstate,
        if_neg (show ¬ bitIsset (vpActivate vp s).watched.state _ = false from hstate)]
      by_cases hlt : (vpActivate vp s).metablock.length.toNat < sizeAdd offset n
      · rw [if_pos hlt, if_pos (show (vpActivate vp s).watched.metablock.length.toNat < _ from hlt)]
        exact ⟨rfl, fun _ => ⟨_, _, rfl, vpActivate_driver _ s⟩⟩
      · have hfit := (hsum.not_lt_iff ho hn).mp hlt
        rw [if_neg hlt,
          if_neg (show ¬ (vpActivate vp s).watched.metablock.length.toNat < _ from hlt)]
        refine ⟨unwatch_maybe (vpSinkSeek_within _) fun a s' hseek => ?_, fun hout =>
          absurd hout (not_lt.mpr hfit)⟩
        refine vpSinkPut_within fuel fun i hi => ?_
        rw [vpSinkSeek_writeAt hseek]
        exact inPayload_of_fits hfit (by rwa [Mem.length_slice] at hi)

/-- **The loop of `vp_memset` runs into an address that is not allowed**, with enough fuel. -/
theorem memsetLoop_fault (allowed : Nat → Prop) [DecidablePred allowed] (c : Octet) (rest : Nat) :
    ∀ s : VpState (VpWatch δ), (∃ i, i < rest ∧ ¬ allowed (s.driver.writeAt + i)) → ∃ fuel,
    memsetLoop (vp.on (blankAccess.within allowed)) c fuel rest s = .error .fault := by
  induction rest using Nat.strongRecOn with
  | ind rest ih =>
    rintro s ⟨i, hi, hout⟩
    have h0 : 0 < rest := Nat.lt_of_le_of_lt (Nat.zero_le i) hi
    have hp := vpPiece_pos h0
    have hlen : (List.replicate (vpPiece rest) c).length = vpPiece rest := List.length_replicate
    by_cases hall : ∀ i, i < (List.replicate (vpPiece rest) c).length →
        allowed (s.driver.writeAt + i)
    · have hlate : vpPiece rest ≤ i := by
        by_contra hlt
        exact hout (hall i (by omega))
      have hnext : ¬ allowed (s.driver.writeAt + vpPiece rest + (i - vpPiece rest)) := by
        rwa [Nat.add_assoc, Nat.add_sub_cancel' hlate]
      obtain ⟨fuel, hfault⟩ := ih (rest - vpPiece rest) (by omega)
        { s with driver := { s.driver with writeAt := s.driver.writeAt + vpPiece rest } }
        ⟨i - vpPiece rest, by omega, hnext⟩
      refine ⟨fuel + 1, ?_⟩
      rw [memsetLoop, if_pos h0]
      rw [vpSinkPut_blank hall, maybe_ok, hlen]
      exact hfault
    · refine ⟨1, ?_⟩
      rw [memsetLoop, if_pos h0, vpSinkPut_fault 0 hall, maybe_halt]

/-- **`vp_memset` stays inside the payload exactly where its sum does not wrap.** -/
theorem vpMemsetsInside_iff (h : Host) (ho : offset < 2 ^ 64) (hn : n < 2 ^ 64) :
    VpMemsetsInside h vp s offset n ↔ VpMemsetProper vp s offset n := by
  constructor
  · intro hin
    by_contra hs
    obtain ⟨hlt, hout⟩ := not_vpSumFits vp ho hn hs
    rw [sizeAdd_comm] at hlt
    obtain ⟨fuel, hfault⟩ : ∃ fuel, memsetLoop
        (vp.on (blankAccess.within ((vpActivate vp s).InPayload vp))) 0 fuel n
        { (vpActivate vp s).watched with
          driver := ⟨(vpActivate vp s).driver, 0, sizeAdd vp.payload offset⟩ } = .error .fault :=
      memsetLoop_fault _ 0 n _ hout
    obtain ⟨hsame, -⟩ := hin blankAccess fuel 0
    have hwatched : vpMemsetData fuel (vp.on (blankAccess.within ((vpActivate vp s).InPayload vp)))
        s.watched 0 offset n = .error .fault := by
      rw [vpMemsetData, vpActivate_watched,
        if_neg (show ¬ (vpActivate vp s).watched.metablock.length.toNat < _ from hlt),
        vpSinkSeek_blank, maybe_ok]
      exact hfault
    rw [hwatched, vpMemsetData, vpActivate_on, if_neg hlt] at hsame
    exact memsetLoop_blank 0 fuel n _ hsame.symm
  · intro hsum access fuel c
    rw [vpMemset, vpMemsetData, vpMemsetData, vpActivate_watched, vpActivate_on]
    by_cases hlt : (vpActivate vp s).metablock.length.toNat < sizeAdd n offset
    · rw [if_pos hlt, if_pos (show (vpActivate vp s).watched.metablock.length.toNat < _ from hlt)]
      exact ⟨rfl, fun _ => ⟨_, _, rfl, vpActivate_driver _ s⟩⟩
    · have hfit := (hsum.not_lt_iff ho hn).mp (by rwa [sizeAdd_comm])
      rw [if_neg hlt, if_neg (show ¬ (vpActivate vp s).watched.metablock.length.toNat < _ from hlt)]
      refine ⟨unwatch_maybe (vpSinkSeek_within _) fun a s' hseek => ?_, fun hout =>
        absurd hout (not_lt.mpr hfit)⟩
      refine memsetLoop_within c fuel fun i hi => ?_
      rw [vpSinkSeek_writeAt hseek]
      exact inPayload_of_fits hfit hi

end Operations

/-! ## 5. All three -/

/-- Four octets at address 24. -/
def smallPersistence : VersionedPersistence Unit where
  data := { blankAccess with address := 24 }
  spec := { length := 4, version := 5 }
  chksum := { initial := 0, process := fun cs _ => cs }

/-- That instance, loaded. -/
def smallState : VpState Unit where
  metablock := ⟨0, 5, 4, 0⟩
  state := vpMetaRead ||| vpStatePayloadConsistent
  result := ⟨0, 0⟩
  driver := ()

end Ufw
