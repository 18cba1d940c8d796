/-
  File:      Ufw/Plumbing/Auxiliary.lean
  Subject:   PLUMBING through an auxiliary buffer (`sts_some_aux`, `sts_atmost_aux`, `sts_n_aux`,
             `sts_drain_aux`): octets go from the source to a buffer of the caller, and from there
             to the sink.

  * `sourceGetChunkAtmost`, `stsSomeAux`, `stsNAux` … -- the functions of the source;
  * `Source.Ending` -- a source that hands out its octets in pieces of any size, and ends then;
  * `stsSomeAux_ending` -- a pass moves as much as fits the buffer, and less only at the end;
  * `stsNAux_agrees` -- **the buffer makes no difference**: `sts_n_aux` does what `sts_n_cbc` does,
    and `sts_drain_aux` moves everything.
-/
import Ufw.ByteBuffer
import Ufw.Endpoints.Limits
import Ufw.Plumbing.OctetWise

namespace Ufw

open Base

variable {σ τ : Type}

/-! ## 1. The code -/

/-- `source_get_chunk_atmost` -/
def sourceGetChunkAtmost (fuel : Nat) (source : Source σ) (n : Nat) :
    Exec (Except Errno (List Octet) × Source σ) := do
  let ((error, buf), source) ← sourceReadMulti fuel source n
  require (buf.length ≤ n)
  require (buf.length ≤ ssizeMax)
  .ok (if buf = [] then error.elim (.ok []) .error else .ok buf, source)

/-- `sts_some_aux` -/
def stsSomeAux (fuel : Nat) (source : Source σ) (sink : Sink τ) (b : ByteBuffer) :
    Exec (Rc × Source σ × Sink τ × ByteBuffer) := do
  let b := byteBufferReset b
  match ← sourceGetChunkAtmost fuel source (byteBufferAvail b) with
  | (.error e, source) => .ok (.error e, source, sink, b)
  | (.ok [], source) => .ok (.error .enodata, source, sink, b)
  | (.ok (o :: os), source) => do
    let b := b.write b.offset (o :: os)
    let (rc, sink) ← sinkPutChunk fuel sink (b.octets.slice b.offset (o :: os).length)
    .ok (rc, source, sink, b)

/-- `sts_atmost_aux`; the copy of the buffer shares the memory of the buffer. -/
def stsAtmostAux (fuel : Nat) (source : Source σ) (sink : Sink τ) (b : ByteBuffer) (n : Nat) :
    Exec (Rc × Source σ × Sink τ × ByteBuffer) := do
  let buffer := if n < b.size then { b with size := n } else b
  let (rc, source, sink, buffer) ← stsSomeAux fuel source sink buffer
  .ok (rc, source, sink, { b with data := buffer.data })

/-- The loop of `sts_n_aux` -/
def stsNAuxLoop (n : Nat) : Nat → Nat → Source σ → Sink τ → ByteBuffer →
    Exec (Rc × Source σ × Sink τ × ByteBuffer)
  | 0, _, _, _, _ => .error .outOfFuel
  | fuel + 1, rest, source, sink, b =>
    if rest = 0 then .ok (.ok n, source, sink, b)
    else do
      match ← stsAtmostAux fuel source sink (byteBufferReset b) rest with
      | (.error e, source, sink, b) => .ok (.error e, source, sink, b)
      | (.ok rc, source, sink, b) => stsNAuxLoop n fuel (rest - rc) source sink b

/-- `sts_n_aux` -/
def stsNAux (fuel : Nat) (source : Source σ) (sink : Sink τ) (b : ByteBuffer) (n : Nat) :
    Exec (Rc × Source σ × Sink τ × ByteBuffer) :=
  stsNAuxLoop n fuel n source sink b

/-- The loop of `sts_drain_aux`; `acc` octets were moved so far. -/
def stsDrainAuxLoop (n : Nat) : Nat → Nat → Source σ → Sink τ → ByteBuffer →
    Exec (Rc × Source σ × Sink τ × ByteBuffer)
  | 0, _, _, _, _ => .error .outOfFuel
  | fuel + 1, acc, source, sink, b => do
    match ← stsAtmostAux fuel source sink (byteBufferReset b) n with
    | (.error .enodata, source, sink, b) => .ok (.ok acc, source, sink, b)
    | (.error e, source, sink, b) => .ok (.error e, source, sink, b)
    | (.ok rc, source, sink, b) => stsDrainAuxLoop n fuel (acc + rc) source sink b

/-- `sts_drain_aux` -/
def stsDrainAux (fuel : Nat) (source : Source σ) (sink : Sink τ) (b : ByteBuffer) :
    Exec (Rc × Source σ × Sink τ × ByteBuffer) :=
  stsDrainAuxLoop (byteBufferReset b).size fuel 0 source sink (byteBufferReset b)

/-! ## 2. Sources that end -/

/-- A driver that hands out its octets, something every time, and answers `-ENODATA` for ever when
    it has none; `Left d l` says that `l` is what it has. -/
structure SourceRun.Ending (Left : σ → List Octet → Prop) (run : SourceRun σ) : Prop where
  octets : ∀ d left n, Left d left → left ≠ [] → run.Asks n → ∃ l rest d',
    run.call d n = (.ok l, d') ∧ l ≠ [] ∧ l.length ≤ n ∧ left = l ++ rest ∧ Left d' rest
  ends : ∀ d n, Left d [] → run.Asks n → ∃ d', run.call d n = (.error .enodata, d') ∧ Left d' []

/-- **A source that ends.** Its retries, if it has any, do not keep its end back. -/
structure Source.Ending (Left : σ → List Octet → Prop) (source : Source σ) : Prop where
  init : ∀ f, source.retry.init = some f → ∀ d l, Left d l → Left (f d) l
  retry : ∀ d, Left d [] → ∃ d', source.retry.goOn d (.error .enodata) = (.error .enodata, d') ∧
    Left d' []
  run : source.run.Ending Left

section Ending

variable {Left : σ → List Octet → Prop} {source : Source σ} {left : List Octet}

theorem Source.Ending.driver (h : source.Ending Left) (d : σ) :
    ({ source with driver := d } : Source σ).Ending Left := ⟨h.init, h.retry, h.run⟩

/-- Asked for one octet, a driver hands out the first one. -/
theorem SourceRun.Ending.one {run : SourceRun σ} (h : run.Ending Left) {d : σ} {o : Octet}
    (hd : Left d (o :: left)) : ∃ d', run.call d 1 = (.ok [o], d') ∧ Left d' left := by
  obtain ⟨l, rest, d', hcall, hne, hlen, hl, hd'⟩ :=
    h.octets d (o :: left) 1 hd (List.cons_ne_nil o left) run.asks_one
  obtain ⟨o', rfl⟩ : ∃ o', l = [o'] :=
    List.length_eq_one_iff.mp (le_antisymm hlen (List.length_pos_iff.mpr hne))
  obtain ⟨rfl, rfl⟩ : o = o' ∧ left = rest := List.cons_eq_cons.mp hl
  exact ⟨d', hcall, hd'⟩

/-- Such a driver has a stock, and one error behind it. -/
theorem SourceRun.Ending.stocked {run : SourceRun σ} (h : run.Ending Left) :
    run.Stocked Left True (· = .enodata) where
  octets := fun d left n hd hne hn _ => h.octets d left n hd hne hn
  fails := fun _ d n hd hn => by
    obtain ⟨d', hcall, hd'⟩ := h.ends d n hd hn
    exact ⟨.enodata, d', hcall, rfl, hd'⟩

theorem SourceRun.Stocked.ending {run : SourceRun σ} (h : run.Stocked Left True (· = .enodata)) :
    run.Ending Left where
  octets := fun d left n hd hne hn => h.octets d left n hd hne hn (.inr trivial)
  ends := fun d n hd hn => by
    obtain ⟨e, d', hcall, rfl, hd'⟩ := h.fails trivial d n hd hn
    exact ⟨d', hcall, hd'⟩

/-- **Behind its adapter a driver that ends is a chunk driver that ends.** -/
theorem SourceRun.Ending.chunked {run : SourceRun σ} (h : run.Ending Left) :
    run.chunked.Ending Left := h.stocked.chunked.ending

theorem Source.Ending.start (h : source.Ending Left) (hd : Left source.driver left) :
    Left source.start left := by
  unfold Source.start
  cases hi : source.retry.init with
  | none => exact hd
  | some f => exact h.init f hi _ left hd

/-- One octet, or the end. -/
theorem sourceGetOctet_ending (h : source.Ending Left) (hd : Left source.driver left) : ∃ d',
    sourceGetOctet source = (match left with
      | [] => (.error .enodata, { source with driver := d' })
      | o :: _ => (.ok (some o), { source with driver := d' })) ∧ Left d' left.tail := by
  cases left with
  | nil =>
    obtain ⟨d', hcall, hd'⟩ := h.run.ends _ 1 hd source.run.asks_one
    exact ⟨d', by rw [sourceGetOctet_eq, hcall]; rfl, hd'⟩
  | cons o left =>
    obtain ⟨d', hcall, hd'⟩ := h.run.one hd
    exact ⟨d', by rw [sourceGetOctet_eq, hcall]; rfl, hd'⟩

/-- **The read loop fills a request as far as there are octets**, and reports the end where it finds
    it first. -/
theorem sourceReadLoop_ending {run : SourceRun σ} {retry : EpRetry σ}
    (h : run.chunked.Ending Left) (hr : ∀ d, Left d [] → ∃ d',
      retry.goOn d (.error .enodata) = (.error .enodata, d') ∧ Left d' []) (n k : Nat) {d : σ}
    {left : List Octet} (got : List Octet) (hd : Left d left) (hn : got.length + k = n) : ∃ d',
      Returns (fun fuel => sourceReadLoop n fuel got { run, retry, driver := d })
        ((if k ≤ left.length then none else some .enodata, got ++ left.take k),
          { run, retry, driver := d' }) ∧ Left d' (left.drop k) := by
  have hretry : True → ∀ d e, Left d [] → e = .enodata → ∃ e' d',
      retry.goOn d (.error e) = (.error e', d') ∧ e' = .enodata ∧ Left d' [] := by
    rintro - d e hd rfl
    obtain ⟨d', hgo, hd'⟩ := hr d hd
    exact ⟨.enodata, d', hgo, rfl, hd'⟩
  obtain ⟨error, d', hret, herror, hd'⟩ :=
    sourceReadLoop_stocked h.stocked hretry n k got hd (.inr trivial) hn
  refine ⟨d', ?_, hd'⟩
  obtain ⟨hle, rfl⟩ | ⟨hlt, e, rfl, rfl⟩ := herror
  · rwa [if_pos hle]
  · rwa [if_neg (Nat.not_le.mpr hlt)]

/-- **A limited chunk is what is left, up to the limit**; there is none at the end only. -/
theorem sourceGetChunkAtmost_ending (h : source.Ending Left) (hd : Left source.driver left)
    {n : Nat} (h0 : 0 < n) (hn : n ≤ ssizeMax) : ∃ d',
    Returns (fun fuel => sourceGetChunkAtmost fuel source n)
      (if left = [] then .error .enodata else .ok (left.take n), { source with driver := d' }) ∧
    Left d' (left.drop n) := by
  obtain ⟨d', hret, hd'⟩ := sourceReadLoop_ending h.run.chunked h.retry n n []
    (h.start hd) (Nat.zero_add n)
  have hmulti : Returns (fun fuel => sourceReadMulti fuel source n)
      ((if n ≤ left.length then none else some .enodata, left.take n),
        { source with driver := d' }) := by
    refine Returns.congr (fun fuel => ?_) hret
    rw [sourceReadMulti, if_neg (by omega)]
    rfl
  refine ⟨d', Returns.bind hmulti (Returns.of_eq fun fuel => ?_), hd'⟩
  have hlen := List.length_take_le n left
  simp only [require_pos hlen, require_pos (le_trans hlen hn), ok_bind]
  by_cases hne : left = []
  · subst hne
    rw [if_pos rfl, if_pos (List.take_nil), if_neg (by simpa using h0.ne')]
    rfl
  · rw [if_neg hne, if_neg (take_ne_nil h0 hne)]

end Ending

/-! ## 3. A pass through the buffer -/

/-- A buffer that can be passed through: it has memory, and no more than can be transferred. -/
structure ByteBuffer.Auxiliary (b : ByteBuffer) : Prop where
  data : b.data.isSome
  size_pos : 0 < b.size
  size_le : b.size ≤ ssizeMax

/-- **The first `k` octets of `left` went from the source to the sink**, and the rest is left. -/
structure Moves (Left : σ → List Octet → Prop) (sent : τ → List Octet) (left : List Octet) (k : Nat)
    (source : Source σ) (sink : Sink τ) (source' : Source σ) (sink' : Sink τ) : Prop where
  source : ∃ d', source' = { source with driver := d' } ∧ Left d' (left.drop k)
  sink : sink.Sends sent (left.take k) sink'

section Passes

variable {Left : σ → List Octet → Prop} {source source₁ source' : Source σ} {left : List Octet}
  {sent : τ → List Octet} {sink sink₁ sink' : Sink τ} {b : ByteBuffer} {k : Nat}

theorem Moves.none (sent : τ → List Octet) (sink : Sink τ) (hl : Left source.driver left) :
    Moves Left sent left 0 source sink source sink :=
  ⟨⟨source.driver, rfl, hl⟩, .refl sent sink⟩

theorem Moves.trans {j : Nat} (h1 : Moves Left sent left j source sink source₁ sink₁)
    (h2 : Moves Left sent (left.drop j) k source₁ sink₁ source' sink') :
    Moves Left sent left (j + k) source sink source' sink' := by
  obtain ⟨⟨d₁, rfl, -⟩, hk₁⟩ := h1
  obtain ⟨⟨d', rfl, hd'⟩, hk'⟩ := h2
  refine ⟨⟨d', rfl, by rwa [← List.drop_drop]⟩, ?_⟩
  rw [List.take_add]
  exact hk₁.trans hk'

/-- No more octets can go than there are. -/
theorem moves_min : Moves Left sent left (min k left.length) source sink source' sink' ↔
    Moves Left sent left k source sink source' sink' := by
  constructor
  · rintro ⟨h1, h2⟩
    exact ⟨by rwa [List.drop_eq_drop_min], by rwa [List.take_eq_take_min]⟩
  · rintro ⟨h1, h2⟩
    exact ⟨by rwa [← List.drop_eq_drop_min], by rwa [← List.take_eq_take_min]⟩

theorem Moves.left_drop (h : Moves Left sent left k source sink source' sink') :
    Left source'.driver (left.drop k) := by
  obtain ⟨⟨d', rfl, hd'⟩, -⟩ := h
  exact hd'

theorem Moves.ending (h : Moves Left sent left k source sink source' sink')
    (hs : source.Ending Left) : source'.Ending Left := by
  obtain ⟨⟨d', rfl, -⟩, -⟩ := h
  exact hs.driver d'

theorem Moves.accepting (h : Moves Left sent left k source sink source' sink')
    (hk : sink.Accepting sent) : sink'.Accepting sent := hk.sends h.sink

/-- What was written to a buffer is read back. -/
theorem ByteBuffer.slice_write (hb : b.data.isSome) (i : Nat) (l : List Octet) :
    (b.write i l).octets.slice i l.length = l := by
  obtain ⟨block, hblock⟩ := Option.isSome_iff_exists.mp hb
  unfold ByteBuffer.octets ByteBuffer.write
  rw [hblock]
  exact Mem.slice_store block.octets i l

@[simp] theorem ByteBuffer.write_offset (b : ByteBuffer) (i : Nat) (l : List Octet) :
    (b.write i l).offset = b.offset := rfl

@[simp] theorem byteBufferReset_offset (b : ByteBuffer) : (byteBufferReset b).offset = 0 := rfl

theorem ByteBuffer.Auxiliary.write (hb : b.Auxiliary) (i : Nat) (l : List Octet) :
    (b.write i l).Auxiliary :=
  ⟨by rw [ByteBuffer.write, Option.isSome_map]; exact hb.data, hb.size_pos, hb.size_le⟩

theorem ByteBuffer.Auxiliary.reset (hb : b.Auxiliary) : (byteBufferReset b).Auxiliary :=
  ⟨hb.data, hb.size_pos, hb.size_le⟩

/-- **A pass moves as much as fits the buffer**, less where the source ends, and reports the end
    where nothing is left. -/
theorem stsSomeAux_ending (hs : source.Ending Left) (hl : Left source.driver left)
    (hk : sink.Accepting sent) (hb : b.Auxiliary) : ∃ source' sink' b',
    Returns (fun fuel => stsSomeAux fuel source sink b)
      (if left = [] then .error .enodata else .ok (min b.size left.length), source', sink', b') ∧
    Moves Left sent left (min b.size left.length) source sink source' sink' ∧ b'.Auxiliary ∧
    b'.size = b.size := by
  have hsize : b.size < 2 ^ 64 := by
    have hle := hb.size_le
    unfold ssizeMax at hle
    omega
  have havail : byteBufferAvail (byteBufferReset b) = b.size := sizeSub_eq (Nat.zero_le _) hsize
  obtain ⟨d', hget, hd'⟩ := sourceGetChunkAtmost_ending hs hl hb.size_pos hb.size_le
  cases left with
  | nil =>
    rw [List.drop_nil] at hd'
    refine ⟨_, sink, byteBufferReset b, ?_, ⟨⟨d', rfl, ?_⟩, ?_⟩, hb.reset, rfl⟩
    · refine Returns.seq (fun fuel hcall => ?_) hget (Returns.of_eq fun _ => rfl)
      rw [stsSomeAux, havail, hcall]
      rfl
    · rwa [List.drop_nil]
    · rw [List.take_nil]
      exact .refl sent sink
  | cons o left =>
    rw [if_neg (List.cons_ne_nil o left)] at hget ⊢
    have hlen : ((o :: left).take b.size).length ≤ ssizeMax :=
      le_trans (List.length_take_le _ _) hb.size_le
    obtain ⟨sink', hput, hsent⟩ := sinkPutChunk_sends hk ((o :: left).take b.size) hlen
    rw [List.length_take] at hput
    obtain ⟨size, hpos⟩ : ∃ m, b.size = m + 1 :=
      ⟨b.size - 1, (Nat.succ_pred_eq_of_pos hb.size_pos).symm⟩
    refine ⟨_, sink', (byteBufferReset b).write 0 ((o :: left).take b.size), ?_,
      moves_min.mpr ⟨⟨d', rfl, hd'⟩, hsent⟩, hb.reset.write _ _, rfl⟩
    refine Returns.both (fun fuel hcall hsend => ?_) hget hput
    have hread := ByteBuffer.slice_write hb.reset.data 0 ((o :: left).take b.size)
    rw [stsSomeAux, havail, hcall]
    simp only [ok_bind]
    rw [hpos, List.take_succ_cons] at hread hsend ⊢
    simp only [ByteBuffer.write_offset, byteBufferReset_offset, hread, hsend, ok_bind]

theorem stsAtmostAux_ending (hs : source.Ending Left) (hl : Left source.driver left)
    (hk : sink.Accepting sent) (hb : b.Auxiliary) {n : Nat} (h0 : 0 < n) : ∃ source' sink' b',
    Returns (fun fuel => stsAtmostAux fuel source sink b n)
      (if left = [] then .error .enodata else .ok (min (min n b.size) left.length),
        source', sink', b') ∧
    Moves Left sent left (min (min n b.size) left.length) source sink source' sink' ∧
    b'.Auxiliary ∧ b'.size = b.size := by
  have hbuffer : ∃ buffer : ByteBuffer, (if n < b.size then { b with size := n } else b) = buffer ∧
      buffer.Auxiliary ∧ buffer.size = min n b.size := by
    by_cases hn : n < b.size
    · exact ⟨_, if_pos hn, ⟨hb.data, h0, le_trans (le_of_lt hn) hb.size_le⟩,
        (min_eq_left (le_of_lt hn)).symm⟩
    · exact ⟨_, if_neg hn, hb, (min_eq_right (not_lt.mp hn)).symm⟩
  obtain ⟨buffer, hif, hbuf, hsize⟩ := hbuffer
  obtain ⟨source', sink', b₁, hret, hmoves, hb₁, -⟩ := stsSomeAux_ending hs hl hk hbuf
  rw [hsize] at hret hmoves
  refine ⟨source', sink', { b with data := b₁.data }, ?_, hmoves,
    ⟨hb₁.data, hb.size_pos, hb.size_le⟩, rfl⟩
  refine Returns.seq (fun fuel hcall => ?_) hret (Returns.of_eq fun _ => rfl)
  rw [stsAtmostAux, hif, hcall]
  rfl

/-! ## 4. Whole transfers -/

/-- **The loop moves what is asked for, piece by piece**, as far as the source has it. -/
theorem stsNAuxLoop_ending (n rest : Nat) : ∀ {source : Source σ} {sink : Sink τ} {b : ByteBuffer}
    {left : List Octet}, source.Ending Left → Left source.driver left → sink.Accepting sent →
    b.Auxiliary → ∃ source' sink' b',
    Returns (fun fuel => stsNAuxLoop n fuel rest source sink b)
      (if rest ≤ left.length then .ok n else .error .enodata, source', sink', b') ∧
    Moves Left sent left rest source sink source' sink' := by
  induction rest using Nat.strongRecOn with
  | ind rest ih =>
    intro source sink b left hs hl hk hb
    rcases Nat.eq_zero_or_pos rest with rfl | h0
    · refine ⟨source, sink, b, Returns.of_succ fun fuel => ?_, .none sent sink hl⟩
      rw [stsNAuxLoop, if_pos rfl, if_pos (Nat.zero_le _)]
    · obtain ⟨source₁, sink₁, b₁, hpass, hmoves, hb₁, -⟩ :=
        stsAtmostAux_ending hs hl hk hb.reset h0
      by_cases hne : left = []
      · subst hne
        rw [if_pos rfl] at hpass
        rw [List.length_nil, Nat.min_zero] at hmoves
        refine ⟨source₁, sink₁, b₁, ?_, moves_min.mp (by rwa [List.length_nil, Nat.min_zero])⟩
        refine Returns.step_seq (fun fuel hcall => ?_) hpass (Returns.of_eq fun _ => rfl)
        rw [stsNAuxLoop, if_neg h0.ne', hcall]
        simp only [ok_bind]
        rw [if_neg (by simpa using h0.ne')]
      · -- a pass moved `k` octets; the rest of the request is asked of what is left of the source
        rw [if_neg hne] at hpass
        have hlen : 0 < left.length := List.length_pos_iff.mpr hne
        have hsize : 0 < (byteBufferReset b).size := hb.size_pos
        obtain ⟨k, hk'⟩ : ∃ k, min (min rest (byteBufferReset b).size) left.length = k := ⟨_, rfl⟩
        rw [hk'] at hpass hmoves
        obtain ⟨source', sink', b', hret, hrest⟩ := ih (rest - k) (by omega) (hmoves.ending hs)
          hmoves.left_drop (hmoves.accepting hk) hb₁
        have hcount : rest - k ≤ (left.drop k).length ↔ rest ≤ left.length := by
          rw [List.length_drop]
          omega
        rw [if_congr hcount rfl rfl] at hret
        refine ⟨source', sink', b', Returns.step_seq (fun fuel hcall => ?_) hpass hret, ?_⟩
        · rw [stsNAuxLoop, if_neg h0.ne', hcall]
          rfl
        · have hall := hmoves.trans hrest
          rwa [Nat.add_sub_of_le (by omega)] at hall

/-- The loop of `sts_drain_aux` moves everything. -/
theorem stsDrainAuxLoop_ending {n : Nat} (h0 : 0 < n) (k : Nat) : ∀ {source : Source σ}
    {sink : Sink τ} {b : ByteBuffer} {left : List Octet} (acc : Nat), left.length = k →
    source.Ending Left → Left source.driver left → sink.Accepting sent → b.Auxiliary →
    ∃ source' sink' b', Returns (fun fuel => stsDrainAuxLoop n fuel acc source sink b)
      (.ok (acc + k), source', sink', b') ∧ Moves Left sent left k source sink source' sink' := by
  induction k using Nat.strongRecOn with
  | ind k ih =>
    intro source sink b left acc hlen hs hl hk hb
    obtain ⟨source₁, sink₁, b₁, hpass, hmoves, hb₁, -⟩ := stsAtmostAux_ending hs hl hk hb.reset h0
    by_cases hne : left = []
    · subst hne
      rw [if_pos rfl] at hpass
      subst hlen
      refine ⟨source₁, sink₁, b₁, ?_, by simpa using hmoves⟩
      refine Returns.step_seq (fun fuel hcall => ?_) hpass (Returns.of_eq fun _ => rfl)
      rw [stsDrainAuxLoop, hcall]
      rfl
    · rw [if_neg hne] at hpass
      have hpos : 0 < left.length := List.length_pos_iff.mpr hne
      have hsize : 0 < (byteBufferReset b).size := hb.size_pos
      obtain ⟨m, hm⟩ : ∃ m, min (min n (byteBufferReset b).size) left.length = m := ⟨_, rfl⟩
      rw [hm] at hpass hmoves
      obtain ⟨source', sink', b', hret, hrest⟩ := ih (k - m) (by omega) (acc + m)
        (by rw [List.length_drop, hlen]) (hmoves.ending hs) hmoves.left_drop
        (hmoves.accepting hk) hb₁
      rw [Nat.add_assoc, Nat.add_sub_of_le (by omega)] at hret
      refine ⟨source', sink', b', Returns.step_seq (fun fuel hcall => ?_) hpass hret, ?_⟩
      · rw [stsDrainAuxLoop, hcall]
        rfl
      · have hall := hmoves.trans hrest
        rwa [Nat.add_sub_of_le (by omega)] at hall

/-- Octet by octet the same octets move. -/
theorem stsNCbcLoop_ending (h : Host) (n : Nat) : ∀ {source : Source σ} {sink : Sink τ}
    {left : List Octet}, source.Ending Left → Left source.driver left → sink.Accepting sent →
    ∃ source' sink', stsNCbcLoop h n source sink =
      .ok (if n ≤ left.length then none else some .enodata, source', sink') ∧
    Moves Left sent left n source sink source' sink' := by
  induction n with
  | zero => exact fun _ hl _ => ⟨_, _, rfl, .none sent _ hl⟩
  | succ n ih =>
    intro source sink left hs hl hk
    obtain ⟨d₁, hget, hd₁⟩ := sourceGetOctet_ending hs hl
    cases left with
    | nil =>
      refine ⟨_, sink, ?_, ⟨⟨d₁, rfl, hd₁⟩, .refl sent sink⟩⟩
      rw [stsNCbcLoop, stsCbc, hget]
      rfl
    | cons o left =>
      obtain ⟨sink₁, hput, hsent⟩ := sinkPutOctet_sends hk o
      obtain ⟨source', sink', hret, hmoves⟩ := ih (hs.driver d₁) hd₁ (hk.sends hsent)
      refine ⟨source', sink', ?_, ?_⟩
      · rw [stsNCbcLoop, stsCbc, hget]
        simp only [Option.getD_some, hput, ok_bind, hret]
        rw [List.tail_cons, List.length_cons, if_congr Nat.add_le_add_iff_right rfl rfl]
      · have hone : Moves Left sent (o :: left) 1 source sink { source with driver := d₁ } sink₁ :=
          ⟨⟨d₁, rfl, hd₁⟩, hsent⟩
        rw [Nat.add_comm]
        exact hone.trans hmoves

/-- **The buffer makes no difference**: `sts_n_aux` and `sts_n_cbc` send the same octets, return the
    same and leave the source with the same octets, for a buffer of any size; and `sts_drain_aux`
    moves everything. -/
theorem stsNAux_agrees (h : Host) (hs : source.Ending Left) (hl : Left source.driver left)
    (hk : sink.Accepting sent) (hb : b.Auxiliary) (n : Nat) :
    (∃ rc source₁ sink₁ b' source₂ sink₂,
      Returns (fun fuel => stsNAux fuel source sink b n) (rc, source₁, sink₁, b') ∧
      stsNCbc h source sink n = .ok (rc, source₂, sink₂) ∧
      (rc = if n ≤ left.length then .ok n else .error .enodata) ∧
      Moves Left sent left n source sink source₁ sink₁ ∧
      Moves Left sent left n source sink source₂ sink₂) ∧
    ∃ source' sink' b', Returns (fun fuel => stsDrainAux fuel source sink b)
        (.ok left.length, source', sink', b') ∧
      Moves Left sent left left.length source sink source' sink' := by
  obtain ⟨source₁, sink₁, b', hret, hmoves₁⟩ := stsNAuxLoop_ending n n hs hl hk hb
  obtain ⟨source₂, sink₂, hloop, hmoves₂⟩ := stsNCbcLoop_ending h n hs hl hk
  obtain ⟨source', sink', b'', hdrain, hmoves⟩ :=
    stsDrainAuxLoop_ending hb.size_pos left.length 0 rfl hs hl hk hb.reset
  rw [Nat.zero_add] at hdrain
  refine ⟨⟨_, source₁, sink₁, b', source₂, sink₂, hret, ?_, rfl, hmoves₁, hmoves₂⟩,
    source', sink', b'', hdrain, hmoves⟩
  rw [stsNCbc, hloop]
  by_cases hn : n ≤ left.length
  · rw [if_pos hn, if_pos hn]
    rfl
  · rw [if_neg hn, if_neg hn]
    rfl

end Passes

theorem streamSource_ending (l : List Octet) : (streamSource l).Ending fun d left => d = left where
  init := fun _ hf => nomatch hf
  retry := fun d hd => ⟨d, rfl, hd⟩
  run := {
    octets := fun d left n hd hne hn => by
      subst hd
      obtain ⟨o, os, rfl⟩ := List.exists_cons_of_ne_nil hne
      exact ⟨[o], os, os, rfl, List.cons_ne_nil o [], hn.ge, rfl, rfl⟩
    ends := fun d n hd _ => by
      subst hd
      exact ⟨[], rfl, rfl⟩ }

theorem stsNAux_agrees_sample :
    (∃ rc source₁ sink₁ b' source₂ sink₂,
      Returns (fun fuel => stsNAux fuel (streamSource [1, 2, 3]) (collectSink [])
        (byteBufferOf (fun _ => 0) 2) 5) (rc, source₁, sink₁, b') ∧
      stsNCbc lp64Host (streamSource [1, 2, 3]) (collectSink []) 5 = .ok (rc, source₂, sink₂) ∧
      (rc = if 5 ≤ 3 then .ok 5 else .error .enodata) ∧
      Moves (fun d left => d = left) id [1, 2, 3] 5 (streamSource [1, 2, 3]) (collectSink [])
        source₁ sink₁ ∧
      Moves (fun d left => d = left) id [1, 2, 3] 5 (streamSource [1, 2, 3]) (collectSink [])
        source₂ sink₂) ∧
    ∃ source' sink' b', Returns (fun fuel => stsDrainAux fuel (streamSource [1, 2, 3])
        (collectSink []) (byteBufferOf (fun _ => 0) 2)) (.ok 3, source', sink', b') ∧
      Moves (fun d left => d = left) id [1, 2, 3] 3 (streamSource [1, 2, 3]) (collectSink [])
        source' sink' :=
  stsNAux_agrees lp64Host (streamSource_ending [1, 2, 3]) rfl (collectSink_accepting [])
    ⟨rfl, by decide, by decide⟩ 5

end Ufw
