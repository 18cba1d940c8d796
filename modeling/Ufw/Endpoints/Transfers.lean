/-
  File:      Ufw/Endpoints/Transfers.lean
  Subject:   ENDPOINTS: transfers of whole chunks.

  * `sourceGetChunk_ready`, `sinkPutChunk_ready` -- **a chunk is transferred whole, in order, and
    nothing beyond it**, with `getChunk_putChunk` for both directions;
  * `Source.Lossless`, `Sink.Roomy`, `Sink.Accepting` -- the endpoints that move something every
    time, with `sourceGetChunk_lossless`, `sinkPutChunk_roomy` and `sinkPutChunk_sends`.
-/
import Ufw.Endpoints.Drivers

namespace Ufw

open Base

variable {σ τ : Type}

/-! ## 1. Reading -/

/-- Without a retry callback, a transfer goes on after an answer that moved nothing. -/
theorem EpRetry.goOn_permitted {δ : Type} {retry : EpRetry δ} {idle : Prop}
    (hr : idle → retry.run = none) {n : Nat} {rc : Rc} (hp : Permitted idle n rc)
    (h0 : moved rc = 0) (drv : δ) : retry.goOn drv rc = (.ok (), drv) := by
  unfold EpRetry.goOn
  match rc, hp with
  | .ok m, hp =>
    rw [hr (hp.2 h0)]
  | .error e, ⟨hidle, he⟩ =>
    rw [hr hidle]
    rcases he with rfl | rfl <;> rfl

/-- `source_read` is a call of the adapted driver. -/
theorem sourceRead_eq (source : Source σ) (n : Nat) :
    sourceRead source n = ((source.run.chunked.call source.driver n).1,
      { source with driver := (source.run.chunked.call source.driver n).2 }) := by
  unfold sourceRead
  cases source.run with
  | octet run => rfl
  | chunk run => rfl

/-- **A pass of the loop takes what an answer hands out**, if that is no failure. -/
theorem sourceReadLoop_step {idle : Prop} {run : SourceRun σ} {retry : EpRetry σ}
    (hr : idle → retry.run = none) {n k : Nat} (h0 : 0 < k) {got : List Octet}
    (hn : got.length + k = n) {rc : Except Errno (List Octet)} {d d' : σ}
    (hcall : run.chunked.call d k = (rc, d')) (hp : Permitted idle k (rc.map List.length)) :
    (∀ fuel, sourceReadLoop n (fuel + 1) got { run, retry, driver := d } =
      sourceReadLoop n fuel (got ++ octetsOf rc) { run, retry, driver := d' }) ∧
    (octetsOf rc).length ≤ k ∧ (got ++ octetsOf rc).length + (k - (octetsOf rc).length) = n := by
  have hle : (octetsOf rc).length ≤ k := moved_map_length rc ▸ hp.moved_le
  have hnk : n - got.length = k := by omega
  refine ⟨fun fuel => ?_, hle, by rw [List.length_append]; omega⟩
  rw [sourceReadLoop, if_pos (by omega), sourceRead_eq, hnk]
  simp only [hcall]
  match rc, hp with
  | .ok [], hp =>
    simp only [EpRetry.goOn_permitted hr hp rfl, octetsOf, List.append_nil]
  | .ok (o :: os), hp =>
    simp only [require_pos hp.1, ok_bind, octetsOf]
  | .error e, hp =>
    simp only [EpRetry.goOn_permitted hr hp rfl, octetsOf, List.append_nil]

/-- **The loop reads what a ready driver hands out**, as much as is missing. -/
theorem sourceReadLoop_ready {idle : Prop} {run : SourceRun σ} {k : Nat} {d : σ}
    (h : run.chunked.Ready idle k d) {retry : EpRetry σ} (hr : idle → retry.run = none) (n : Nat) :
    ∀ got : List Octet, got.length + k = n → ∃ l d',
      Returns (fun fuel => sourceReadLoop n fuel got { run, retry, driver := d })
        ((none, got ++ l), { run, retry, driver := d' }) ∧
      l.length = k ∧ run.Hands k d l d' := by
  induction h with
  | @intro k d answers _ ih =>
    intro got hn
    by_cases hk : k = 0
    · subst hk
      refine ⟨[], d, Returns.of_succ fun fuel => ?_, rfl, .nil 0 d⟩
      rw [sourceReadLoop, if_neg (by omega), List.append_nil]
    · have h0 : 0 < k := Nat.pos_of_ne_zero hk
      have hask := run.asks_chunked h0
      rcases hcall : run.chunked.call d k with ⟨rc, d₁⟩
      obtain ⟨hstep, hle, hn'⟩ := sourceReadLoop_step hr h0 hn hcall
        (answers k _ _ hask (le_refl k) hcall)
      have hh := SourceRun.Hands.chunked run h0 (le_refl k) hcall
      obtain ⟨l, d', hret, hl, hh'⟩ := ih k _ _ hask (le_refl k) hcall _ hn'
      refine ⟨octetsOf rc ++ l, d', ?_, by rw [List.length_append]; omega, hh.trans hh'⟩
      rw [← List.append_assoc]
      exact hret.step hstep

/-- The state of a driver a transfer starts from. -/
def Source.start (source : Source σ) : σ := (source.retry.init.getD id) source.driver

/-- **A chunk is read whole, in order, and nothing beyond it.** -/
theorem sourceGetChunk_ready {idle : Prop} {source : Source σ}
    (hr : idle → source.retry.run = none) {n : Nat} (h : source.run.Ready idle n source.start)
    (h0 : 0 < n) (hn : n ≤ ssizeMax) :
    ∃ l d', Returns (fun fuel => sourceGetChunk fuel source n)
        (.ok l, { source with driver := d' }) ∧
      l.length = n ∧ source.run.Hands n source.start l d' := by
  obtain ⟨l, d', hret, hl, hh⟩ := sourceReadLoop_ready h.chunked hr n [] (Nat.zero_add n)
  have hmulti : Returns (fun fuel => sourceReadMulti fuel source n)
      ((none, l), { source with driver := d' }) := by
    refine Returns.congr (fun fuel => ?_) hret
    rw [sourceReadMulti, if_neg (by omega)]
    rfl
  refine ⟨l, d', Returns.bind hmulti (Returns.of_eq fun fuel => ?_), hl, hh⟩
  simp only [require_pos hl, require_pos (hl ▸ hn : l.length ≤ ssizeMax), ok_bind]

/-! ## 2. Writing -/

/-- `sink_write` is a call of the adapted driver. -/
theorem sinkWrite_eq (sink : Sink τ) (buf : List Octet) :
    sinkWrite sink buf = (do
      let (rc, driver) ← sink.run.chunked.call sink.driver buf
      .ok (rc, { sink with driver })) := by
  unfold sinkWrite
  cases sink.run with
  | octet run => rfl
  | chunk run => rfl

/-- A pass of the loop is done with what an answer took, if that is no failure. -/
theorem sinkWriteLoop_step {idle : Prop} {run : SinkRun τ} {retry : EpRetry τ}
    (hr : idle → retry.run = none) (n : Nat) {rest : List Octet} (hne : rest ≠ []) {rc : Rc}
    {d d' : τ} (hcall : run.chunked.call d rest = .ok (rc, d'))
    (hp : Permitted idle rest.length rc) (fuel : Nat) :
    sinkWriteLoop n (fuel + 1) rest { run, retry, driver := d } =
      sinkWriteLoop n fuel (rest.drop (moved rc)) { run, retry, driver := d' } := by
  rw [sinkWriteLoop, if_neg hne, sinkWrite_eq, hcall]
  simp only [ok_bind]
  match rc, hp with
  | .ok 0, hp => simp only [EpRetry.goOn_permitted hr hp rfl, moved, List.drop_zero]
  | .ok (m + 1), hp => simp only [require_pos hp.1, ok_bind, moved]
  | .error e, hp => simp only [EpRetry.goOn_permitted hr hp rfl, moved, List.drop_zero]

/-- **The loop writes what is left**, however the driver splits it. -/
theorem sinkWriteLoop_ready {idle : Prop} {run : SinkRun τ} {k : Nat} {d : τ}
    (h : run.chunked.Ready idle k d) {retry : EpRetry τ} (hr : idle → retry.run = none) (n : Nat) :
    ∀ rest : List Octet, rest.length = k → ∃ d',
      Returns (fun fuel => sinkWriteLoop n fuel rest { run, retry, driver := d })
        ((none, n), { run, retry, driver := d' }) ∧ run.Passes k d rest d' := by
  induction h with
  | @intro k d answers _ ih =>
    intro rest hlen
    by_cases hne : rest = []
    · subst hne
      exact ⟨d, Returns.of_succ fun _ => rfl, .nil k d⟩
    · obtain ⟨rc, d₁, hcall, hp⟩ := answers rest (run.asks_chunked hne) (le_of_eq hlen)
      obtain ⟨d', hret, hpass⟩ := ih rest rc d₁ (run.asks_chunked hne) (le_of_eq hlen) hcall
        (rest.drop (moved rc)) (by rw [List.length_drop, hlen])
      refine ⟨d', hret.step (sinkWriteLoop_step hr n hne hcall hp), ?_⟩
      have htake : (rest.take (moved rc)).length = moved rc := List.length_take_of_le hp.moved_le
      have hall := (SinkRun.Passes.chunked run hne (le_of_eq hlen) hcall).trans
        (by rw [htake]; exact hpass)
      rwa [List.take_append_drop] at hall

/-- The state of a driver a transfer starts from. -/
def Sink.start (sink : Sink τ) : τ := (sink.retry.init.getD id) sink.driver

/-- **A chunk is written whole, in order, each octet once.** -/
theorem sinkPutChunk_ready {idle : Prop} {sink : Sink τ} (hr : idle → sink.retry.run = none)
    {buf : List Octet} (h : sink.run.Ready idle buf.length sink.start) (hb : buf ≠ [])
    (hl : buf.length ≤ ssizeMax) :
    ∃ d', Returns (fun fuel => sinkPutChunk fuel sink buf)
        (.ok buf.length, { sink with driver := d' }) ∧
      sink.run.Passes buf.length sink.start buf d' := by
  have h0 : buf.length ≠ 0 := fun h0 => hb (List.length_eq_zero_iff.mp h0)
  obtain ⟨d', hret, hpass⟩ := sinkWriteLoop_ready h.chunked hr buf.length buf rfl
  have hmulti : Returns (fun fuel => sinkWriteMulti fuel sink buf)
      ((none, buf.length), { sink with driver := d' }) := by
    refine Returns.congr (fun fuel => ?_) hret
    rw [sinkWriteMulti, if_neg h0, if_neg (by omega)]
    rfl
  refine ⟨d', Returns.bind hmulti (Returns.of_eq fun fuel => ?_), hpass⟩
  simp only [require_pos, hl, ok_bind]

/-! ## 3. Both directions -/

/-- **Chunks are transferred whole**, whatever the drivers move at a time and however often they
    move nothing in between: `n` octets are read, and nothing behind them, and the `n` octets of
    `buf` are written. -/
theorem getChunk_putChunk {source : Source σ} (hsr : source.retry.run = none) {sink : Sink τ}
    (hkr : sink.retry.run = none) {n : Nat} (h0 : 0 < n) (hn : n ≤ ssizeMax)
    (hs : source.run.Ready True n source.start) {buf : List Octet} (hb : buf.length = n)
    (hk : sink.run.Ready True n sink.start) :
    (∃ l d', Returns (fun fuel => sourceGetChunk fuel source n)
        (.ok l, { source with driver := d' }) ∧
      l.length = n ∧ source.run.Hands n source.start l d') ∧
    ∃ d', Returns (fun fuel => sinkPutChunk fuel sink buf) (.ok n, { sink with driver := d' }) ∧
      sink.run.Passes n sink.start buf d' := by
  subst hb
  exact ⟨sourceGetChunk_ready (fun _ => hsr) hs h0 hn,
    sinkPutChunk_ready (fun _ => hkr) hk (List.length_pos_iff.mp h0) hn⟩

/-- A source that is interrupted before every octet. -/
def interruptedSource (l : List Octet) : Source (List Octet × Bool) where
  run := .octet fun
    | (l, true) => (.error .eintr, (l, false))
    | ([], false) => (.error .enodata, ([], false))
    | (o :: l, false) => (.ok (some o), (l, true))
  retry := epRetryInit
  driver := (l, true)

/-- A sink that takes one octet at a time, and nothing before it does. -/
def hesitantSink : Sink (List Octet × Bool) where
  run := .chunk fun
    | (l, true), _ => .ok (.ok 0, (l, false))
    | (l, false), buf => .ok (.ok 1, (l ++ buf.take 1, true))
  retry := epRetryInit
  driver := ([], true)

theorem interruptedSource_ready (l : List Octet) :
    (interruptedSource l).run.Ready True l.length (l, true) := by
  induction l with
  | nil => exact .zero _ _ _
  | cons o l ih =>
    have hnext : (interruptedSource l).run.Ready True (o :: l).length (o :: l, false) := by
      refine .intro (fun n rc d' hn _ h => ?_) fun n rc d' hn _ h => ?_
      · cases h
        exact ⟨Nat.le_of_eq hn.symm, fun h0 => absurd h0 Nat.one_ne_zero⟩
      · cases h
        exact ih
    refine .intro (fun n rc d' _ _ h => ?_) fun n rc d' _ _ h => ?_
    · cases h
      exact ⟨trivial, .inl rfl⟩
    · cases h
      exact hnext

theorem hesitantSink_ready (k : Nat) (l : List Octet) :
    hesitantSink.run.Ready True k (l, true) := by
  induction k generalizing l with
  | zero => exact .zero _ _ _
  | succ k ih =>
    have hnext : hesitantSink.run.Ready True (k + 1) (l, false) := by
      refine .intro (fun buf hb _ => ⟨_, _, rfl, ?_⟩) fun buf rc d' _ _ h => ?_
      · exact ⟨List.length_pos_iff.mpr hb, fun h0 => absurd h0 (by decide)⟩
      · cases h
        exact ih _
    refine .intro (fun buf _ _ => ⟨_, _, rfl, ⟨Nat.zero_le _, fun _ => trivial⟩⟩)
      fun buf rc d' _ _ h => ?_
    cases h
    exact hnext

theorem getChunk_putChunk_sample :
    (∃ l d', Returns (fun fuel => sourceGetChunk fuel (interruptedSource [1, 2]) 2)
        (.ok l, { interruptedSource [1, 2] with driver := d' }) ∧ l.length = 2 ∧
      (interruptedSource [1, 2]).run.Hands 2 (interruptedSource [1, 2]).start l d') ∧
    ∃ d', Returns (fun fuel => sinkPutChunk fuel hesitantSink [4, 5])
        (.ok 2, { hesitantSink with driver := d' }) ∧
      hesitantSink.run.Passes 2 hesitantSink.start [4, 5] d' :=
  getChunk_putChunk rfl rfl (by decide) (by decide) (interruptedSource_ready [1, 2]) rfl
    (hesitantSink_ready 2 [])

/-! ## 4. Lossless sources -/

/-- A driver that hands out something every time; `Left d l` says that `l` is what the driver in
    state `d` has to hand out next. -/
def SourceRun.Lossless (Left : σ → List Octet → Prop) (run : SourceRun σ) : Prop :=
  ∀ d left n, Left d left → run.Asks n → n ≤ left.length → ∃ l rest d',
    run.call d n = (.ok l, d') ∧ l ≠ [] ∧ l.length ≤ n ∧ left = l ++ rest ∧ Left d' rest

/-- **A lossless source.** It may split a chunk as it likes. -/
structure Source.Lossless (Left : σ → List Octet → Prop) (source : Source σ) : Prop where
  init : ∀ f, source.retry.init = some f → ∀ d l, Left d l → Left (f d) l
  run : source.run.Lossless Left

section Lossless

variable {Left : σ → List Octet → Prop} {source : Source σ} {l rest : List Octet}

theorem SourceRun.Lossless.ready {run : SourceRun σ} (h : run.Lossless Left) {k : Nat} {d : σ}
    (hd : Left d l) (hk : k ≤ l.length) : run.Ready False k d := by
  induction k using Nat.strongRecOn generalizing d l with
  | ind k ih =>
    refine .intro (fun n rc d' hn hle hrun => ?_) fun n rc d' hn hle hrun => ?_
    all_goals obtain ⟨l₁, rest, d₁, hcall, hne, hlen, hl, hrest⟩ := h d l n hd hn (le_trans hle hk)
    all_goals
      rw [hcall] at hrun
      cases hrun
    · exact ⟨hlen, fun h0 => hne (List.length_eq_zero_iff.mp h0)⟩
    · have h1 := List.length_pos_iff.mpr hne
      rw [hl, List.length_append] at hk
      refine ih _ ?_ hrest ?_
      · show k - l₁.length < k
        omega
      · show k - l₁.length ≤ rest.length
        omega

theorem SourceRun.Lossless.hands {run : SourceRun σ} (h : run.Lossless Left) {k : Nat} {d d' : σ}
    {l₁ : List Octet} (hh : run.Hands k d l₁ d') (hd : Left d l) (hk : k ≤ l.length) :
    ∃ rest, l = l₁ ++ rest ∧ Left d' rest := by
  induction hh generalizing l with
  | nil k d => exact ⟨l, rfl, hd⟩
  | call hn hle hrun _ ih =>
    obtain ⟨l₂, rest, d₂, hcall, -, hlen, rfl, hrest⟩ := h _ l _ hd hn (le_trans hle hk)
    rw [hcall] at hrun
    cases hrun
    rw [List.length_append] at hk
    obtain ⟨rest', rfl, hrest'⟩ := ih hrest (by show _ - l₂.length ≤ _; omega)
    exact ⟨rest', (List.append_assoc ..).symm, hrest'⟩

theorem Source.Lossless.driver (h : source.Lossless Left) (d : σ) :
    ({ source with driver := d } : Source σ).Lossless Left := ⟨h.init, h.run⟩

theorem Source.Lossless.start (h : source.Lossless Left) (hd : Left source.driver l) :
    Left source.start l := by
  unfold Source.start
  cases hi : source.retry.init with
  | none => exact hd
  | some f => exact h.init f hi _ l hd

/-- **A chunk is what the source has to hand out next.** -/
theorem sourceGetChunk_lossless (h : source.Lossless Left) (hd : Left source.driver (l ++ rest))
    (h0 : l ≠ []) (hl : l.length ≤ ssizeMax) :
    ∃ d', Returns (fun fuel => sourceGetChunk fuel source l.length)
      (.ok l, { source with driver := d' }) ∧ Left d' rest := by
  have hd' := h.start hd
  have hle : l.length ≤ (l ++ rest).length := by
    rw [List.length_append]
    exact Nat.le_add_right _ _
  obtain ⟨l₁, d', hret, hlen, hh⟩ := sourceGetChunk_ready (fun hf => hf.elim)
    (h.run.ready hd' hle) (List.length_pos_iff.mpr h0) hl
  obtain ⟨rest', he, hrest⟩ := h.run.hands hh hd' hle
  obtain ⟨rfl, rfl⟩ := List.append_inj he hlen.symm
  exact ⟨d', hret, hrest⟩

theorem sourceGetOctet_eq (source : Source σ) :
    sourceGetOctet source = ((source.run.call source.driver 1).1.map List.head?,
      { source with driver := (source.run.call source.driver 1).2 }) := by
  unfold sourceGetOctet
  cases source.run with
  | octet run =>
    rcases hcall : run source.driver with ⟨_ | _ | o, d'⟩ <;>
      simp only [SourceRun.call, hcall] <;> rfl
  | chunk run => rfl

theorem SourceRun.asks_one (run : SourceRun σ) : run.Asks 1 := by
  cases run with
  | octet run => exact rfl
  | chunk run => exact Nat.one_pos

theorem sourceGetOctet_lossless (h : source.Lossless Left) {o : Octet}
    (hd : Left source.driver (o :: rest)) :
    ∃ d', sourceGetOctet source = (.ok (some o), { source with driver := d' }) ∧ Left d' rest := by
  obtain ⟨l, rest', d', hcall, hne, hlen, hl, hrest⟩ := h.run _ _ 1 hd source.run.asks_one
    (Nat.succ_le_succ (Nat.zero_le _))
  obtain ⟨o', rfl⟩ : ∃ o', l = [o'] :=
    List.length_eq_one_iff.mp (le_antisymm hlen (List.length_pos_iff.mpr hne))
  obtain ⟨rfl, rfl⟩ : o = o' ∧ rest = rest' := List.cons_eq_cons.mp hl
  exact ⟨d', by rw [sourceGetOctet_eq, hcall]; rfl, hrest⟩

/-- A lossless source hands out its octets one at a time as well. -/
theorem Source.Lossless.delivers (h : source.Lossless Left) (hd : Left source.driver (l ++ rest)) :
    ∃ d', source.Delivers l { source with driver := d' } ∧ Left d' rest := by
  induction l generalizing source with
  | nil => exact ⟨source.driver, .nil source, hd⟩
  | cons o l ih =>
    obtain ⟨d₁, hget, hd₁⟩ := sourceGetOctet_lossless h hd
    obtain ⟨d', hs, hd'⟩ := ih (h.driver d₁) hd₁
    exact ⟨d', .cons hget hs, hd'⟩

end Lossless

/-! ## 5. Sinks with room -/

/-- The octets of `l` went out, in order, and nothing but the driver changed. -/
def Sink.Sends (sent : τ → List Octet) (sink : Sink τ) (l : List Octet) (sink' : Sink τ) : Prop :=
  ∃ d', sink' = { sink with driver := d' } ∧ sent d' = sent sink.driver ++ l

/-- A driver that takes something every time, while it has room; `sent` reads off the state of the
    driver what it has taken so far. -/
def SinkRun.Roomy (sent : τ → List Octet) (Room : τ → Nat → Prop) (run : SinkRun τ) : Prop :=
  ∀ d n buf, Room d n → run.Asks buf → buf.length ≤ n → ∃ m d',
    run.call d buf = .ok (.ok (m + 1), d') ∧ m < buf.length ∧
      sent d' = sent d ++ buf.take (m + 1) ∧ Room d' (n - (m + 1))

/-- **A sink with room.** It may split a chunk as it likes. -/
structure Sink.Roomy (sent : τ → List Octet) (Room : τ → Nat → Prop) (sink : Sink τ) : Prop where
  init : ∀ f, sink.retry.init = some f → ∀ d, sent (f d) = sent d ∧ ∀ n, Room d n → Room (f d) n
  run : sink.run.Roomy sent Room

/-- A driver that never refuses: each call takes at least one octet. -/
def SinkRun.Accepts (sent : τ → List Octet) : SinkRun τ → Prop
  | .octet run => ∀ d o, ∃ d', run d o = .ok (.ok 1, d') ∧ sent d' = sent d ++ [o]
  | .chunk run => ∀ d buf, buf ≠ [] → ∃ m d', run d buf = .ok (.ok (m + 1), d') ∧
      m < buf.length ∧ sent d' = sent d ++ buf.take (m + 1)

/-- **An accepting sink**: it has room for anything. -/
structure Sink.Accepting (sent : τ → List Octet) (sink : Sink τ) : Prop where
  init : ∀ f, sink.retry.init = some f → ∀ d, sent (f d) = sent d
  run : sink.run.Accepts sent

section Roomy

variable {sent : τ → List Octet} {Room : τ → Nat → Prop} {sink sink₁ sink' : Sink τ}
  {l l' : List Octet} {n : Nat}

theorem Sink.Sends.refl (sent : τ → List Octet) (sink : Sink τ) : sink.Sends sent [] sink :=
  ⟨sink.driver, rfl, (List.append_nil _).symm⟩

theorem Sink.Sends.trans (h1 : sink.Sends sent l sink₁) (h2 : sink₁.Sends sent l' sink') :
    sink.Sends sent (l ++ l') sink' := by
  obtain ⟨d1, rfl, e1⟩ := h1
  obtain ⟨d2, rfl, e2⟩ := h2
  refine ⟨d2, rfl, ?_⟩
  rw [e2, e1, List.append_assoc]

theorem SinkRun.Roomy.ready {run : SinkRun τ} (h : run.Roomy sent Room) {k : Nat} {d : τ}
    (hd : Room d n) (hk : k ≤ n) : run.Ready False k d := by
  induction k using Nat.strongRecOn generalizing d n with
  | ind k ih =>
    refine .intro (fun buf hb hle => ?_) fun buf rc d' hb hle hrun => ?_
    all_goals obtain ⟨m, d₁, hcall, hm, -, hroom⟩ := h d n buf hd hb (le_trans hle hk)
    · exact ⟨_, d₁, hcall, hm, fun h0 => absurd h0 (Nat.succ_ne_zero m)⟩
    · rw [hcall] at hrun
      cases hrun
      exact ih (k - (m + 1)) (by omega) hroom (Nat.sub_le_sub_right hk _)

theorem SinkRun.Roomy.passes {run : SinkRun τ} (h : run.Roomy sent Room) {k : Nat} {d d' : τ}
    (hp : run.Passes k d l d') (hd : Room d n) (hk : k ≤ n) :
    sent d' = sent d ++ l ∧ Room d' (n - l.length) := by
  induction hp generalizing n with
  | nil k d => exact ⟨(List.append_nil _).symm, hd⟩
  | @call k buf d d₁ d' rc l hb hle hrun _ ih =>
    obtain ⟨m, d₂, hcall, hm, hs, hroom⟩ := h d n buf hd hb (le_trans hle hk)
    rw [hcall] at hrun
    cases hrun
    have htake : (buf.take (m + 1)).length = m + 1 := List.length_take_of_le hm
    obtain ⟨hs', hroom'⟩ := ih hroom (by rw [moved, htake]; exact Nat.sub_le_sub_right hk _)
    refine ⟨?_, ?_⟩
    · rw [hs', hs, List.append_assoc]
      rfl
    · rwa [moved, List.length_append, htake, ← Nat.sub_sub]

theorem Sink.Roomy.sends (h : sink.Roomy sent Room) (h1 : sink.Sends sent l sink') :
    sink'.Roomy sent Room := by
  obtain ⟨d1, rfl, -⟩ := h1
  exact ⟨h.init, h.run⟩

/-- **A chunk goes out whole and in order**, where there is room for it. -/
theorem sinkPutChunk_roomy (h : sink.Roomy sent Room) (buf : List Octet)
    (hd : Room sink.driver n) (hn : buf.length ≤ n) (hl : buf.length ≤ ssizeMax) :
    ∃ sink', Returns (fun fuel => sinkPutChunk fuel sink buf) (.ok buf.length, sink') ∧
      sink.Sends sent buf sink' ∧ Room sink'.driver (n - buf.length) := by
  by_cases hb : buf = []
  · subst hb
    exact ⟨sink, Returns.of_eq fun _ => rfl, .refl sent sink, hd⟩
  · obtain ⟨hs₀, hd₀⟩ : sent sink.start = sent sink.driver ∧ Room sink.start n := by
      unfold Sink.start
      cases hi : sink.retry.init with
      | none => exact ⟨rfl, hd⟩
      | some f => exact ⟨(h.init f hi sink.driver).1, (h.init f hi sink.driver).2 n hd⟩
    obtain ⟨d', hret, hp⟩ := sinkPutChunk_ready (fun hf => hf.elim) (h.run.ready hd₀ hn) hb hl
    obtain ⟨hs, hroom⟩ := h.run.passes hp hd₀ hn
    exact ⟨_, hret, ⟨d', rfl, by rw [hs, hs₀]⟩, hroom⟩

theorem sinkPutOctet_eq (sink : Sink τ) (o : Octet) :
    sinkPutOctet sink o = (do
      let (rc, driver) ← sink.run.call sink.driver [o]
      .ok (rc, { sink with driver })) := by
  unfold sinkPutOctet
  cases sink.run with
  | octet run => rfl
  | chunk run => rfl

theorem SinkRun.asks_one (run : SinkRun τ) (o : Octet) : run.Asks [o] := by
  cases run with
  | octet run => exact rfl
  | chunk run => exact List.cons_ne_nil o []

theorem sinkPutOctet_roomy (h : sink.Roomy sent Room) (hd : Room sink.driver (n + 1)) (o : Octet) :
    ∃ sink', sinkPutOctet sink o = .ok (.ok 1, sink') ∧ sink.Sends sent [o] sink' ∧
      Room sink'.driver n := by
  obtain ⟨m, d', hcall, hm, hs, hroom⟩ := h.run _ _ _ hd (sink.run.asks_one o)
    (Nat.succ_le_succ (Nat.zero_le n))
  obtain rfl : m = 0 := Nat.lt_one_iff.mp hm
  refine ⟨_, ?_, ⟨d', rfl, hs⟩, hroom⟩
  rw [sinkPutOctet_eq, hcall]
  rfl

/-- A sink with room takes octets one at a time as well. -/
theorem Sink.Roomy.takes (h : sink.Roomy sent Room) (hd : Room sink.driver n) (hn : l.length ≤ n) :
    ∃ sink', sink.Takes l sink' ∧ sink.Sends sent l sink' ∧ Room sink'.driver (n - l.length) := by
  induction l generalizing sink n with
  | nil => exact ⟨sink, .nil sink, .refl sent sink, hd⟩
  | cons o l ih =>
    obtain ⟨n, rfl⟩ : ∃ m, n = m + 1 :=
      ⟨n - 1, (Nat.succ_pred_eq_of_pos (lt_of_lt_of_le (Nat.succ_pos _) hn)).symm⟩
    obtain ⟨sink₁, e1, h1, hroom⟩ := sinkPutOctet_roomy h hd o
    obtain ⟨sink', ht, hs, hroom'⟩ := ih (h.sends h1) hroom (Nat.le_of_succ_le_succ hn)
    refine ⟨sink', .cons e1 ht, h1.trans hs, ?_⟩
    rwa [List.length_cons, Nat.add_sub_add_right]

end Roomy

section Accepting

variable {sent : τ → List Octet} {sink sink' : Sink τ} {l : List Octet}

theorem Sink.Accepting.roomy (h : sink.Accepting sent) : sink.Roomy sent fun _ _ => True := by
  refine ⟨fun f hf d => ⟨h.init f hf d, fun _ _ => trivial⟩, fun d n buf _ hb _ => ?_⟩
  have hrun := h.run
  cases hr : sink.run with
  | octet run =>
    rw [hr] at hrun hb
    obtain ⟨o, rfl⟩ := List.length_eq_one_iff.mp hb
    obtain ⟨d', he, hs⟩ := hrun d o
    exact ⟨0, d', he, Nat.one_pos, hs, trivial⟩
  | chunk run =>
    rw [hr] at hrun hb
    obtain ⟨m, d', he, hm, hs⟩ := hrun d buf hb
    exact ⟨m, d', he, hm, hs, trivial⟩

theorem Sink.Accepting.sends (h : sink.Accepting sent) (h1 : sink.Sends sent l sink') :
    sink'.Accepting sent := by
  obtain ⟨d1, rfl, -⟩ := h1
  exact ⟨h.init, h.run⟩

theorem sinkPutOctet_sends (h : sink.Accepting sent) (o : Octet) :
    ∃ sink', sinkPutOctet sink o = .ok (.ok 1, sink') ∧ sink.Sends sent [o] sink' := by
  obtain ⟨sink', he, hs, -⟩ := sinkPutOctet_roomy (n := 0) h.roomy trivial o
  exact ⟨sink', he, hs⟩

/-- An accepting sink takes any octets. -/
theorem Sink.Accepting.takes (h : sink.Accepting sent) (l : List Octet) :
    ∃ sink', sink.Takes l sink' ∧ sink.Sends sent l sink' := by
  obtain ⟨sink', ht, hs, -⟩ := h.roomy.takes (n := l.length) trivial (le_refl _)
  exact ⟨sink', ht, hs⟩

/-- **A chunk goes out whole and in order.** -/
theorem sinkPutChunk_sends (h : sink.Accepting sent) (buf : List Octet)
    (hl : buf.length ≤ ssizeMax) :
    ∃ sink', Returns (fun fuel => sinkPutChunk fuel sink buf) (.ok buf.length, sink') ∧
      sink.Sends sent buf sink' := by
  obtain ⟨sink', hret, hs, -⟩ := sinkPutChunk_roomy h.roomy buf trivial (le_refl _) hl
  exact ⟨sink', hret, hs⟩

end Accepting

/-- **A sink that works**: from now on it takes any octets, whatever it did before. -/
def Sink.Works (sent : τ → List Octet) (sink : Sink τ) : Prop :=
  ∀ l, ∃ sink', sink.Takes l sink' ∧ sink.Sends sent l sink'

theorem Sink.Accepting.works {sent : τ → List Octet} {sink : Sink τ} (h : sink.Accepting sent) :
    sink.Works sent := h.takes

/-- What a sink that works has taken went out, and it works then. -/
theorem Sink.Works.takes {sent : τ → List Octet} {sink sink₁ : Sink τ} {l : List Octet}
    (h : sink.Works sent) (ht : sink.Takes l sink₁) :
    sink.Sends sent l sink₁ ∧ sink₁.Works sent := by
  obtain ⟨sink₂, ht₂, hs⟩ := h l
  obtain rfl := ht₂.unique ht
  refine ⟨hs, fun l' => ?_⟩
  obtain ⟨sink', ht', d', rfl, hd'⟩ := h (l ++ l')
  obtain ⟨sink₃, hl, hl'⟩ := ht'.append_inv
  obtain rfl := hl.unique ht
  obtain ⟨d, rfl, hd⟩ := hs
  exact ⟨_, hl', d', rfl, by rw [hd', hd, List.append_assoc]⟩

/-! ## 6. A stream of octets -/

/-- A source that hands out a list and then has no data. -/
def streamSource (l : List Octet) : Source (List Octet) where
  run := .octet fun
    | [] => (.error .enodata, [])
    | o :: l => (.ok (some o), l)
  retry := epRetryInit
  driver := l

/-- A sink that collects what it is given. -/
def collectSink (l : List Octet) : Sink (List Octet) where
  run := .octet fun l o => .ok (.ok 1, l ++ [o])
  retry := epRetryInit
  driver := l

theorem streamSource_delivers (l l' : List Octet) :
    (streamSource (l ++ l')).Delivers l (streamSource l') := by
  induction l with
  | nil => exact .nil _
  | cons o l ih => exact .cons rfl ih

theorem streamSource_delivers_all (l : List Octet) :
    (streamSource l).Delivers l (streamSource []) := by
  have hl := streamSource_delivers l []
  rwa [List.append_nil] at hl

theorem streamSource_lossless (l : List Octet) :
    (streamSource l).Lossless fun d left => d = left where
  init := fun _ hf => nomatch hf
  run := fun d left n hd hn hle => by
    subst hd
    match d with
    | [] => exact absurd (hn ▸ hle) (by decide)
    | o :: d => exact ⟨[o], d, d, rfl, List.cons_ne_nil o [], hn.ge, rfl, rfl⟩

theorem collectSink_accepting (l : List Octet) : (collectSink l).Accepting id where
  init := fun _ hf => nomatch hf
  run := fun d o => ⟨d ++ [o], rfl, rfl⟩

end Ufw
