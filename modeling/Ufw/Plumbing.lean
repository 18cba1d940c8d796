/-
  File:      Ufw/Plumbing.lean
  Subject:   PLUMBING (endpoints/core.c) for sources with the `getbuffer` extension: the source
             offers a buffer of its own, through which octets go to the sink in chunks.

  * `stsAtmostViaSource`, `stsNExt` -- the plumbing where the source may have the extension; without
    it `stsNExt` is `stsN` (`stsNExt_none`);
  * `Offers` -- the extension offers a buffer that is not empty, and moves nothing;
  * `stsNExt_lossless` -- **the plumbing moves the octets it was asked to move, and no others**,
    with the extension and without.

  The sink has no extension here.
-/
import Ufw.ByteBuffer
import Ufw.Endpoints.Transfers

namespace Ufw

open Base

variable {σ τ : Type}

/-! ## 1. The code -/

/-- `source->ext.getbuffer`, which may be NULL. -/
abbrev SourceGetBuffer (σ : Type) := Option (σ → ByteBuffer × σ)

/-- How `sts_atmost_via_source` reads `m` octets into a buffer: a chunk driver is called once. -/
def sourceFillBuffer (fuel : Nat) (source : Source σ) (m : Nat) :
    Exec (Except Errno (List Octet) × Source σ) :=
  match source.run with
  | .chunk run =>
    let (rc, driver) := run source.driver m
    .ok (rc, { source with driver })
  | .octet _ => sourceGetChunk fuel source m

/-- `sts_atmost_via_source` -/
def stsAtmostViaSource (fuel : Nat) (getbuffer : SourceGetBuffer σ) (source : Source σ)
    (sink : Sink τ) (n : Nat) : Exec (Rc × Source σ × Sink τ) :=
  match getbuffer with
  | none => .ok (.error .epipe, source, sink)
  | some getbuffer =>
    let (b, driver) := getbuffer source.driver
    let source := { source with driver }
    let rest := byteBufferRest b
    if rest = 0 then .ok (.error .enodata, source, sink)
    else do
      let m := if n = 0 ∨ rest < n then rest else n
      match ← sourceFillBuffer fuel source m with
      | (.error e, source) => .ok (.error e, source, sink)
      | (.ok buf, source) => do
        let (rc, sink) ← sinkPutChunk fuel sink buf
        .ok (rc, source, sink)

/-- `sts_atmost` -/
def stsAtmostExt (h : Host) (fuel : Nat) (getbuffer : SourceGetBuffer σ) (source : Source σ)
    (sink : Sink τ) (n : Nat) : Exec (Rc × Source σ × Sink τ) :=
  if getbuffer.isSome then stsAtmostViaSource fuel getbuffer source sink n
  else stsAtmost h source sink n

/-- The loop of `sts_n`; behind `-ENOMEM` it takes the shortcut through the source's buffer. -/
def stsNExtLoop (h : Host) (getbuffer : SourceGetBuffer σ) (n : Nat) :
    Nat → Bool → Nat → Source σ → Sink τ → Exec (Rc × Source σ × Sink τ)
  | 0, _, _, _, _ => .error .outOfFuel
  | fuel + 1, shortcut, rest, source, sink =>
    if rest = 0 then .ok (.ok n, source, sink)
    else do
      match ← (if shortcut then stsAtmostViaSource fuel getbuffer source sink rest
        else stsAtmostExt h fuel getbuffer source sink rest) with
      | (.error .enomem, source, sink) =>
        stsNExtLoop h getbuffer n fuel getbuffer.isSome rest source sink
      | (.error e, source, sink) => .ok (.error e, source, sink)
      | (.ok rc, source, sink) => stsNExtLoop h getbuffer n fuel shortcut (rest - rc) source sink

/-- `sts_n` -/
def stsNExt (h : Host) (fuel : Nat) (getbuffer : SourceGetBuffer σ) (source : Source σ)
    (sink : Sink τ) (n : Nat) : Exec (Rc × Source σ × Sink τ) :=
  stsNExtLoop h getbuffer n fuel false n source sink

theorem stsNExtLoop_none (h : Host) (n fuel rest : Nat) (source : Source σ) (sink : Sink τ) :
    stsNExtLoop h none n fuel false rest source sink = stsNLoop h n fuel rest source sink := by
  induction fuel generalizing rest source sink with
  | zero => rfl
  | succ fuel ih =>
    simp only [stsNExtLoop, stsNLoop, stsAtmostExt, Option.isSome_none, Bool.false_eq_true,
      if_false]
    split
    · rfl
    · cases stsAtmost h source sink rest with
      | error e => rfl
      | ok r =>
        obtain ⟨e | rc, source, sink⟩ := r
        · cases e with
          | enomem => exact ih rest source sink
          | _ => rfl
        · exact ih (rest - rc) source sink

/-- Without the extension this is the plumbing of octets. -/
theorem stsNExt_none (h : Host) (fuel : Nat) (source : Source σ) (sink : Sink τ) (n : Nat) :
    stsNExt h fuel none source sink n = stsN h fuel source sink n :=
  stsNExtLoop_none h n fuel n source sink

/-! ## 2. What it moves -/

/-- **The extension offers a buffer with octets in it**, and hands out none. -/
def Offers (Left : σ → List Octet → Prop) (getbuffer : SourceGetBuffer σ) : Prop :=
  ∀ g ∈ getbuffer, ∀ d, (g d).1.Valid ∧ (g d).1.offset < (g d).1.used ∧
    ∀ l, Left d l → Left (g d).2 l

theorem Offers.none (Left : σ → List Octet → Prop) : Offers Left none :=
  fun _ hg => absurd hg (Option.not_mem_none _)

section Moves

variable {Left : σ → List Octet → Prop} {source : Source σ} {sent : τ → List Octet}
  {Room : τ → Nat → Prop} {sink : Sink τ} {l rest : List Octet} {n : Nat}

/-- What is read into the buffer: something, of what was asked for. -/
theorem sourceFillBuffer_lossless (hs : source.Lossless Left)
    (hd : Left source.driver (l ++ rest)) (hl : l.length ≤ ssizeMax) {m : Nat} (h0 : 0 < m)
    (hm : m ≤ l.length) :
    ∃ l₁ l₂ d', l = l₁ ++ l₂ ∧ l₁ ≠ [] ∧ Left d' (l₂ ++ rest) ∧
      Returns (fun fuel => sourceFillBuffer fuel source m)
        (.ok l₁, { source with driver := d' }) := by
  obtain ⟨run, retry, d⟩ := source
  cases run with
  | octet run =>
    have hd' : Left d (l.take m ++ (l.drop m ++ rest)) := by
      rwa [← List.append_assoc, List.take_append_drop]
    have hlen : (l.take m).length = m := List.length_take_of_le hm
    have hne : l.take m ≠ [] := List.length_pos_iff.mp (by rwa [hlen])
    obtain ⟨d', hret, hrest⟩ := sourceGetChunk_lossless hs hd' hne (by omega)
    rw [hlen] at hret
    exact ⟨l.take m, l.drop m, d', (List.take_append_drop m l).symm, hne, hrest, hret⟩
  | chunk run =>
    have hask : (SourceRun.chunk run).Asks m := h0
    obtain ⟨l₁, rest', d', hcall, hne, hle, he, hrest⟩ := hs.run d _ m hd hask
      (by rw [List.length_append]; omega)
    have hcall' : run d m = (.ok l₁, d') := hcall
    obtain ⟨l₂, rfl, rfl⟩ : ∃ l₂, l = l₁ ++ l₂ ∧ rest' = l₂ ++ rest := by
      rcases List.append_eq_append_iff.mp he with ⟨l₂, h1, h2⟩ | ⟨l₂, h1, h2⟩
      · -- the driver does not hand out more than it was asked for
        have hlen := congrArg List.length h1
        rw [List.length_append] at hlen
        obtain rfl : l₂ = [] := List.length_eq_zero_iff.mp (by omega)
        exact ⟨[], by rw [h1, List.append_nil, List.append_nil], by rw [h2]; rfl⟩
      · exact ⟨l₂, h1, h2⟩
    refine ⟨l₁, l₂, d', rfl, hne, hrest, Returns.of_eq fun fuel => ?_⟩
    simp only [sourceFillBuffer, hcall']

/-- **A step through the buffer of the source** moves some of the octets asked for. -/
theorem stsAtmostViaSource_lossless {g : σ → ByteBuffer × σ} (hg : Offers Left (some g))
    (hs : source.Lossless Left) (hd : Left source.driver (l ++ rest)) (hne : l ≠ [])
    (hl : l.length ≤ ssizeMax) (hk : sink.Roomy sent Room) (hroom : Room sink.driver n)
    (hn : l.length ≤ n) :
    ∃ l₁ l₂ d' sink', l = l₁ ++ l₂ ∧ l₁ ≠ [] ∧
      Returns (fun fuel => stsAtmostViaSource fuel (some g) source sink l.length)
        (.ok l₁.length, { source with driver := d' }, sink') ∧
      Left d' (l₂ ++ rest) ∧ sink.Sends sent l₁ sink' ∧ Room sink'.driver (n - l₁.length) := by
  obtain ⟨hv, hlt, hleft⟩ := hg g rfl source.driver
  have hlen := List.length_pos_iff.mpr hne
  have hrest := byteBufferRest_eq hv
  obtain ⟨m, hm⟩ : ∃ m, (if l.length = 0 ∨ byteBufferRest (g source.driver).1 < l.length then
      byteBufferRest (g source.driver).1 else l.length) = m := ⟨_, rfl⟩
  have hm' : 0 < m ∧ m ≤ l.length := by
    subst hm
    split <;> omega
  obtain ⟨l₁, l₂, d', rfl, hne₁, hrest', hfill⟩ := sourceFillBuffer_lossless
    (hs.driver (g source.driver).2) (hleft _ hd) hl hm'.1 hm'.2
  rw [List.length_append] at hl hn
  obtain ⟨sink', hput, hsends, hroom'⟩ := sinkPutChunk_roomy hk l₁ hroom (by omega)
    (by omega)
  have hwrite : Returns (fun fuel => do
      let (rc, sink') ← sinkPutChunk fuel sink l₁
      .ok (rc, { source with driver := d' }, sink'))
      (.ok l₁.length, { source with driver := d' }, sink') :=
    Returns.bind hput (Returns.of_eq fun _ => rfl)
  refine ⟨l₁, l₂, d', sink', rfl, hne₁, Returns.seq (fun fuel hx => ?_) hfill hwrite, hrest',
    hsends, hroom'⟩
  simp only [stsAtmostViaSource, if_neg (show byteBufferRest (g source.driver).1 ≠ 0 by omega), hm,
    hx, ok_bind]

theorem stsNExtLoop_lossless (h : Host) {g : σ → ByteBuffer × σ} (hg : Offers Left (some g))
    (k : Nat) {source : Source σ} {sink : Sink τ} {l : List Octet} {n : Nat}
    (hs : source.Lossless Left) (hd : Left source.driver (l ++ rest))
    (hl : l.length ≤ ssizeMax) (hk : sink.Roomy sent Room) (hroom : Room sink.driver n)
    (hn : l.length ≤ n) :
    ∃ d' sink', Returns (fun fuel => stsNExtLoop h (some g) k fuel false l.length source sink)
        (.ok k, { source with driver := d' }, sink') ∧
      Left d' rest ∧ sink.Sends sent l sink' ∧ Room sink'.driver (n - l.length) := by
  by_cases hne : l = []
  · subst hne
    exact ⟨source.driver, sink, Returns.of_succ fun _ => rfl, hd, .refl sent sink, hroom⟩
  · obtain ⟨l₁, l₂, d₁, sink₁, he, hne₁, hstep, hd₁, hs₁, hroom₁⟩ :=
      stsAtmostViaSource_lossless hg hs hd hne hl hk hroom hn
    have hpos := List.length_pos_iff.mpr hne₁
    have hlen : l.length = l₁.length + l₂.length := by rw [he, List.length_append]
    obtain ⟨d', sink', hret, hd', hs', hroom'⟩ := stsNExtLoop_lossless h hg k (hs.driver d₁) hd₁
      (by omega) (hk.sends hs₁) hroom₁ (by omega)
    refine ⟨d', sink', Returns.step_seq (fun fuel hx => ?_) hstep hret, hd', he ▸ hs₁.trans hs', ?_⟩
    · have hrest : l.length - l₁.length = l₂.length := by omega
      rw [stsNExtLoop, if_neg fun h0 => hne (List.length_eq_zero_iff.mp h0)]
      simp only [Bool.false_eq_true, if_false, stsAtmostExt, Option.isSome_some, if_true, hx,
        ok_bind, hrest]
    · rwa [hlen, ← Nat.sub_sub]
termination_by l.length
decreasing_by omega

/-- **The plumbing moves the octets it was asked to move**, whatever the kind of the source, with
    the extension and without. -/
theorem stsNExt_lossless (h : Host) {getbuffer : SourceGetBuffer σ} (hg : Offers Left getbuffer)
    (hs : source.Lossless Left) (hd : Left source.driver (l ++ rest)) (hl : l.length ≤ ssizeMax)
    (hk : sink.Roomy sent Room) (hroom : Room sink.driver n) (hn : l.length ≤ n) :
    ∃ d' sink', Returns (fun fuel => stsNExt h fuel getbuffer source sink l.length)
        (.ok l.length, { source with driver := d' }, sink') ∧
      Left d' rest ∧ sink.Sends sent l sink' ∧ Room sink'.driver (n - l.length) := by
  cases getbuffer with
  | none =>
    obtain ⟨d', hdel, hd'⟩ := hs.delivers hd
    obtain ⟨sink', ht, hsends, hroom'⟩ := hk.takes hroom hn
    exact ⟨d', sink', Returns.congr (fun fuel => stsNExt_none h fuel source sink l.length)
      (stsN_delivers h hdel ht), hd', hsends, hroom'⟩
  | some g => exact stsNExtLoop_lossless h hg l.length hs hd hl hk hroom hn

end Moves

end Ufw
