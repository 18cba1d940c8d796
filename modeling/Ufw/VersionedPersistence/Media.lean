/-
  File:      Ufw/VersionedPersistence/Media.lean
  Subject:   VERSIONED PERSISTENCE: media that keep what is stored.

  * `VpView` -- what the state of a medium holds: its cells, and where its endpoints stand;
  * `VpAccess.Faithful` -- a medium that keeps what is stored, with `VpEndpoints.Faithful.access`:
    **the medium behind endpoints that never refuse is one**, however they split what is
    transferred;
  * `VpAccess.Readable` -- a medium that is read faithfully, whatever its writes do;
  * `payloadChecksumLoop_readable`, `memsetLoop_faithful` -- the loops of the code, on such media.
-/
import Ufw.Endpoints.Transfers
import Ufw.VersionedPersistence

namespace Ufw

open Base

variable {δ : Type}

/-! ## 1. Faithful media -/

/-- What the state of a medium holds. -/
structure VpView (δ : Type) where
  cells : δ → Mem Octet
  readAt : δ → Nat
  writeAt : δ → Nat

/-- **A faithful medium** of so many cells. What a transfer in one direction does to the position of
    the other one is left open. -/
structure VpAccess.Faithful (v : VpView δ) (capacity : Nat) (access : VpAccess δ) : Prop where
  sourceSeek : ∀ d n, n ≤ capacity → ∃ k d', access.sourceSeek d n = (.ok k, d') ∧
    v.cells d' = v.cells d ∧ v.readAt d' = n
  sourceGet : ∀ d n, 0 < n → n ≤ ssizeMax → v.readAt d + n ≤ capacity → ∃ d',
    Returns (fun fuel => access.sourceGet fuel d n) (.ok ((v.cells d).slice (v.readAt d) n), d') ∧
    v.cells d' = v.cells d ∧ v.readAt d' = v.readAt d + n
  sinkSeek : ∀ d n, n ≤ capacity → ∃ k d', access.sinkSeek d n = (.ok k, d') ∧
    v.cells d' = v.cells d ∧ v.writeAt d' = n
  sinkPut : ∀ d l, l.length ≤ ssizeMax → v.writeAt d + l.length ≤ capacity → ∃ d',
    Returns (fun fuel => access.sinkPut fuel d l) (.ok l.length, d') ∧
    v.cells d' = (v.cells d).store (v.writeAt d) l ∧ v.writeAt d' = v.writeAt d + l.length

/-- **A medium that is read faithfully.** Nothing is said about its writes. -/
structure VpAccess.Readable (v : VpView δ) (capacity : Nat) (access : VpAccess δ) : Prop where
  sourceSeek : ∀ d n, n ≤ capacity → ∃ k d', access.sourceSeek d n = (.ok k, d') ∧
    v.cells d' = v.cells d ∧ v.readAt d' = n
  sourceGet : ∀ d n, 0 < n → n ≤ ssizeMax → v.readAt d + n ≤ capacity → ∃ d',
    Returns (fun fuel => access.sourceGet fuel d n) (.ok ((v.cells d).slice (v.readAt d) n), d') ∧
    v.cells d' = v.cells d ∧ v.readAt d' = v.readAt d + n

theorem VpAccess.Faithful.readable {v : VpView δ} {capacity : Nat} {access : VpAccess δ}
    (hf : access.Faithful v capacity) : access.Readable v capacity := ⟨hf.sourceSeek, hf.sourceGet⟩

/-- Endpoints that transfer something every time, from and to the cells where they stand. -/
structure VpEndpoints.Faithful (v : VpView δ) (capacity : Nat) (e : VpEndpoints δ) : Prop where
  sourceSeek : ∀ d n, n ≤ capacity → ∃ k d', extSeek e.sourceSeek d n = (.ok k, d') ∧
    v.cells d' = v.cells d ∧ v.readAt d' = n
  sourceInit : ∀ f, e.sourceRetry.init = some f → ∀ d,
    v.cells (f d) = v.cells d ∧ v.readAt (f d) = v.readAt d
  read : ∀ d n, e.source.Asks n → v.readAt d + n ≤ capacity → ∃ k d', 0 < k ∧ k ≤ n ∧
    e.source.call d n = (.ok ((v.cells d).slice (v.readAt d) k), d') ∧
    v.cells d' = v.cells d ∧ v.readAt d' = v.readAt d + k
  sinkSeek : ∀ d n, n ≤ capacity → ∃ k d', extSeek e.sinkSeek d n = (.ok k, d') ∧
    v.cells d' = v.cells d ∧ v.writeAt d' = n
  sinkInit : ∀ f, e.sinkRetry.init = some f → ∀ d,
    v.cells (f d) = v.cells d ∧ v.writeAt (f d) = v.writeAt d
  write : ∀ d buf, e.sink.Asks buf → v.writeAt d + buf.length ≤ capacity → ∃ m d',
    m < buf.length ∧ e.sink.call d buf = .ok (.ok (m + 1), d') ∧
    v.cells d' = (v.cells d).store (v.writeAt d) (buf.take (m + 1)) ∧
    v.writeAt d' = v.writeAt d + (m + 1)

namespace VpEndpoints.Faithful

variable {v : VpView δ} {capacity : Nat} {e : VpEndpoints δ}

/-- What is left of a range of cells `c` that ends at `stop`. -/
def Left (v : VpView δ) (c : Mem Octet) (stop : Nat) (d : δ) (l : List Octet) : Prop :=
  v.cells d = c ∧ l = c.slice (v.readAt d) l.length ∧ v.readAt d + l.length = stop

/-- What was stored in cells `c` from `start` on, with room for `n` octets more until `stop`. -/
def Room (v : VpView δ) (c : Mem Octet) (start stop : Nat) (d : δ) (n : Nat) : Prop :=
  v.writeAt d + n = stop ∧
  ∃ l, v.cells d = c.store start l ∧ v.writeAt d = start + l.length

theorem lossless (hf : e.Faithful v capacity) (c : Mem Octet) {stop : Nat} (hs : stop ≤ capacity)
    (d : δ) : Source.Lossless (Left v c stop)
      ({ run := e.source, retry := e.sourceRetry, driver := d } : Source δ) where
  init := by
    rintro f hf' d l ⟨rfl, hl, hstop⟩
    obtain ⟨hc, hr⟩ := hf.sourceInit f hf' d
    exact ⟨hc, by rw [hr]; exact hl, by rw [hr]; exact hstop⟩
  run := by
    rintro d l n ⟨rfl, hl, hstop⟩ hn hle
    obtain ⟨k, d', h0, hk, hcall, hc, hr⟩ := hf.read d n hn (by omega)
    obtain ⟨r, hlen⟩ : ∃ r, l.length = k + r := ⟨l.length - k, by omega⟩
    refine ⟨_, (v.cells d).slice (v.readAt d + k) r, d', hcall, ?_, ?_, ?_, hc, ?_, ?_⟩
    · refine List.ne_nil_of_length_pos ?_
      rw [Mem.length_slice]
      exact h0
    · rw [Mem.length_slice]
      exact hk
    · rw [hl, hlen, Mem.slice_append]
    · rw [hr, Mem.length_slice]
    · rw [hr, Mem.length_slice]
      omega

theorem roomy (hf : e.Faithful v capacity) (c : Mem Octet) {start stop : Nat}
    (hs : stop ≤ capacity) (d : δ) :
    Sink.Roomy (fun d => (v.cells d).slice start (v.writeAt d - start)) (Room v c start stop)
      ({ run := e.sink, retry := e.sinkRetry, driver := d } : Sink δ) where
  init := by
    intro f hf' d
    obtain ⟨hc, hw⟩ := hf.sinkInit f hf' d
    refine ⟨by rw [hc, hw], fun n hd => ?_⟩
    unfold Room at hd ⊢
    rwa [hc, hw]
  run := by
    rintro d n buf ⟨hstop, l, hc, hw⟩ hb hle
    obtain ⟨m, d', hm, hcall, hc', hw'⟩ := hf.write d buf hb (by omega)
    have htake : (buf.take (m + 1)).length = m + 1 := List.length_take_of_le hm
    have hcells : v.cells d' = c.store start (l ++ buf.take (m + 1)) := by
      rw [hc', hc, hw, Mem.store_append]
    have hlen : v.writeAt d' = start + (l ++ buf.take (m + 1)).length := by
      rw [hw', hw, List.length_append, htake, Nat.add_assoc]
    refine ⟨m, d', hcall, hm, ?_, ?_, _, hcells, hlen⟩
    · show (v.cells d').slice start (v.writeAt d' - start) =
        (v.cells d).slice start (v.writeAt d - start) ++ buf.take (m + 1)
      rw [hcells, hlen, hc, hw, Nat.add_sub_cancel_left, Nat.add_sub_cancel_left, Mem.slice_store,
        Mem.slice_store]
    · rw [hw']
      omega

theorem get (hf : e.Faithful v capacity) (d : δ) {n : Nat} (h0 : 0 < n) (hn : n ≤ ssizeMax)
    (hle : v.readAt d + n ≤ capacity) : ∃ d',
    Returns (fun fuel => e.get fuel d n) (.ok ((v.cells d).slice (v.readAt d) n), d') ∧
    v.cells d' = v.cells d ∧ v.readAt d' = v.readAt d + n := by
  have hlen := Mem.length_slice (v.cells d) (v.readAt d) n
  have hleft : Left v (v.cells d) (v.readAt d + n) d ((v.cells d).slice (v.readAt d) n ++ []) := by
    rw [List.append_nil]
    exact ⟨rfl, by rw [hlen], by rw [hlen]⟩
  obtain ⟨d', hret, hc, -, hstop⟩ := sourceGetChunk_lossless (hf.lossless (v.cells d) hle d) hleft
    (List.ne_nil_of_length_pos (by rw [hlen]; exact h0)) (by rw [hlen]; exact hn)
  rw [hlen] at hret
  exact ⟨d', Returns.bind hret (Returns.of_eq fun _ => rfl), hc, hstop⟩

theorem put (hf : e.Faithful v capacity) (d : δ) {l : List Octet} (hl : l.length ≤ ssizeMax)
    (hle : v.writeAt d + l.length ≤ capacity) : ∃ d',
    Returns (fun fuel => e.put fuel d l) (.ok l.length, d') ∧
    v.cells d' = (v.cells d).store (v.writeAt d) l ∧ v.writeAt d' = v.writeAt d + l.length := by
  have hroom : Room v (v.cells d) (v.writeAt d) (v.writeAt d + l.length) d l.length :=
    ⟨rfl, [], (Mem.store_nil _ _).symm, rfl⟩
  obtain ⟨sink', hret, ⟨d', rfl, hsent⟩, hstop, l', hc, hw⟩ :=
    sinkPutChunk_roomy (hf.roomy (v.cells d) hle d) l hroom (le_refl _) hl
  rw [Nat.sub_self] at hstop
  obtain rfl : l' = l := by
    simpa only [hc, hw, Nat.add_sub_cancel_left, Mem.slice_store, Nat.sub_self, Mem.slice_zero,
      List.nil_append] using hsent
  exact ⟨d', Returns.bind hret (Returns.of_eq fun _ => rfl), hc, hw⟩

/-- **The medium behind such endpoints is faithful.** -/
theorem access (hf : e.Faithful v capacity) (address : BitVec 32) :
    (e.access address).Faithful v capacity where
  sourceSeek := hf.sourceSeek
  sourceGet := fun d _ h0 hn hle => hf.get d h0 hn hle
  sinkSeek := hf.sinkSeek
  sinkPut := fun d _ hl hle => hf.put d hl hle

end VpEndpoints.Faithful

/-- A peripheral that is read in chunks of 6 octets at most and written in chunks of 5. -/
structure RamMedium where
  cells : Mem Octet
  readAt : Nat
  writeAt : Nat

/-- What a write does to it. -/
def RamMedium.write (d : RamMedium) (buf : List Octet) : RamMedium :=
  { d with cells := d.cells.store d.writeAt (buf.take 5)
           writeAt := d.writeAt + min buf.length 5 }

/-- The endpoints of such a peripheral. -/
def ramEndpoints : VpEndpoints RamMedium where
  source := .chunk fun d n =>
    (.ok (d.cells.slice d.readAt (min n 6)), { d with readAt := d.readAt + min n 6 })
  sourceRetry := epRetryInit
  sourceSeek := some fun d n => (.ok 0, { d with readAt := n })
  sink := .chunk fun d buf => .ok (.ok (min buf.length 5), d.write buf)
  sinkRetry := epRetryInit
  sinkSeek := some fun d n => (.ok 0, { d with writeAt := n })

/-- What such a peripheral holds. -/
def ramView : VpView RamMedium := ⟨RamMedium.cells, RamMedium.readAt, RamMedium.writeAt⟩

theorem ramEndpoints_faithful (capacity : Nat) : ramEndpoints.Faithful ramView capacity where
  sourceSeek := fun d n _ => ⟨0, { d with readAt := n }, rfl, rfl, rfl⟩
  sourceInit := fun _ hf => nomatch hf
  read := fun d n hn _ => by
    have h0 : 0 < n := hn
    exact ⟨min n 6, _, by omega, Nat.min_le_left _ _, rfl, rfl, rfl⟩
  sinkSeek := fun d n _ => ⟨0, { d with writeAt := n }, rfl, rfl, rfl⟩
  sinkInit := fun _ hf => nomatch hf
  write := fun d buf hb _ => by
    have h0 : 0 < buf.length := List.length_pos_iff.mpr hb
    have hm : min buf.length 5 - 1 + 1 = min buf.length 5 := by omega
    refine ⟨min buf.length 5 - 1, d.write buf, by omega, ?_, ?_, ?_⟩
    · rw [hm]
      rfl
    · have htake : buf.take (min buf.length 5) = buf.take 5 := by
        rw [Nat.min_comm, ← List.take_take, List.take_length]
      rw [hm, htake]
      rfl
    · rw [hm]
      rfl

/-! ## 2. Operations on a faithful medium -/

section Faithful

variable {v : VpView δ} {capacity : Nat} {vp : VersionedPersistence δ}

theorem vpSourceSeek_readable (hf : vp.data.Readable v capacity) (s : VpState δ) {n : Nat}
    (hn : n ≤ capacity) : ∃ k d', vpSourceSeek vp s n = .ok (.ok k, { s with driver := d' }) ∧
    v.cells d' = v.cells s.driver ∧ v.readAt d' = n := by
  obtain ⟨k, d', hseek, hc, hr⟩ := hf.sourceSeek s.driver n hn
  exact ⟨k, d', by rw [vpSourceSeek, hseek], hc, hr⟩

theorem vpSinkSeek_faithful (hf : vp.data.Faithful v capacity) (s : VpState δ) {n : Nat}
    (hn : n ≤ capacity) : ∃ k d', vpSinkSeek vp s n = .ok (.ok k, { s with driver := d' }) ∧
    v.cells d' = v.cells s.driver ∧ v.writeAt d' = n := by
  obtain ⟨k, d', hseek, hc, hw⟩ := hf.sinkSeek s.driver n hn
  exact ⟨k, d', by rw [vpSinkSeek, hseek], hc, hw⟩

theorem vpSourceGet_readable (hf : vp.data.Readable v capacity) (s : VpState δ) {n : Nat}
    (h0 : 0 < n) (hn : n ≤ ssizeMax) (hle : v.readAt s.driver + n ≤ capacity) : ∃ d',
    Returns (fun fuel => vpSourceGet fuel vp s n)
      (.ok ((v.cells s.driver).slice (v.readAt s.driver) n), { s with driver := d' }) ∧
    v.cells d' = v.cells s.driver ∧ v.readAt d' = v.readAt s.driver + n := by
  obtain ⟨d', hget, hc, hr⟩ := hf.sourceGet s.driver n h0 hn hle
  exact ⟨d', Returns.bind hget (Returns.of_eq fun _ => rfl), hc, hr⟩

theorem vpSinkPut_faithful (hf : vp.data.Faithful v capacity) (s : VpState δ) {l : List Octet}
    (hl : l.length ≤ ssizeMax) (hle : v.writeAt s.driver + l.length ≤ capacity) : ∃ d',
    Returns (fun fuel => vpSinkPut fuel vp s l) (.ok l.length, { s with driver := d' }) ∧
    v.cells d' = (v.cells s.driver).store (v.writeAt s.driver) l ∧
    v.writeAt d' = v.writeAt s.driver + l.length := by
  obtain ⟨d', hput, hc, hw⟩ := hf.sinkPut s.driver l hl hle
  exact ⟨d', Returns.bind hput (Returns.of_eq fun _ => rfl), hc, hw⟩

/-- A buffer is no larger than what a chunk may be. -/
theorem vpPiece_le_ssizeMax (n : Nat) : vpPiece n ≤ ssizeMax :=
  le_trans (vpPiece_le n).2 (by decide)

/-- **The checksum of a payload on the medium.** -/
theorem payloadChecksumLoop_readable (hf : vp.data.Readable v capacity) (rest : Nat) :
    ∀ (cs : BitVec 16) (s : VpState δ), v.readAt s.driver + rest ≤ capacity → ∃ d',
    Returns (fun fuel => payloadChecksumLoop vp fuel rest cs s)
      (.ok (piecewise vp.chksum.process (vpPieces rest) cs
        ((v.cells s.driver).slice (v.readAt s.driver) rest)), { s with driver := d' }) ∧
    v.cells d' = v.cells s.driver := by
  induction rest using Nat.strongRecOn with
  | ind rest ih =>
    intro cs s hle
    rcases Nat.eq_zero_or_pos rest with rfl | hpos
    · exact ⟨s.driver, Returns.of_succ fun _ => rfl, rfl⟩
    · have hp := vpPiece_pos hpos
      have hprest := (vpPiece_le rest).1
      obtain ⟨d₁, hget, hc₁, hr₁⟩ := vpSourceGet_readable hf s hp (vpPiece_le_ssizeMax rest)
        (by omega)
      obtain ⟨d', hret, hc⟩ := ih (rest - vpPiece rest) (by omega)
        (vp.chksum.process cs ((v.cells s.driver).slice (v.readAt s.driver) (vpPiece rest)))
        { s with driver := d₁ } (by show v.readAt d₁ + _ ≤ _; omega)
      refine ⟨d', ?_, hc.trans hc₁⟩
      rw [piecewise_slice _ _ _ hpos, ← hc₁, ← hr₁]
      rw [← hc₁] at hget hret
      refine Returns.step_seq (fun fuel hx => ?_) hget hret
      rw [payloadChecksumLoop, if_pos hpos, hx, maybe_ok, Mem.length_slice]

/-- **`vp_memset` fills cells on the medium.** -/
theorem memsetLoop_faithful (hf : vp.data.Faithful v capacity) (c : Octet) (rest : Nat) :
    ∀ s : VpState δ, v.writeAt s.driver + rest ≤ capacity → ∃ d',
    Returns (fun fuel => memsetLoop vp c fuel rest s) (.ok 0, { s with driver := d' }) ∧
    v.cells d' = (v.cells s.driver).store (v.writeAt s.driver) (List.replicate rest c) := by
  induction rest using Nat.strongRecOn with
  | ind rest ih =>
    intro s hle
    rcases Nat.eq_zero_or_pos rest with rfl | hpos
    · exact ⟨s.driver, Returns.of_succ fun _ => rfl, (Mem.store_nil _ _).symm⟩
    · have hp := vpPiece_pos hpos
      have hprest := (vpPiece_le rest).1
      have hlen : (List.replicate (vpPiece rest) c).length = vpPiece rest := List.length_replicate
      obtain ⟨d₁, hput, hc₁, hw₁⟩ := vpSinkPut_faithful hf s (l := List.replicate (vpPiece rest) c)
        (by rw [hlen]; exact vpPiece_le_ssizeMax rest) (by rw [hlen]; omega)
      rw [hlen] at hput hw₁
      obtain ⟨d', hret, hc⟩ := ih (rest - vpPiece rest) (by omega) { s with driver := d₁ }
        (by show v.writeAt d₁ + _ ≤ _; omega)
      refine ⟨d', Returns.step_seq (fun fuel hx => ?_) hput hret, ?_⟩
      · rw [memsetLoop, if_pos hpos, hx, maybe_ok]
      · have hsplit : List.replicate rest c =
            List.replicate (vpPiece rest) c ++ List.replicate (rest - vpPiece rest) c := by
          rw [← List.replicate_add, Nat.add_sub_cancel' hprest]
        rw [hc, hsplit, Mem.store_append, hlen, ← hc₁, ← hw₁]

end Faithful

end Ufw
