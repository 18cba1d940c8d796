/-
  File:      Ufw/Endpoints/Failures.lean
  Subject:   ENDPOINTS: transfers of chunks whose driver fails.

  * `SourceRun.Bounded`, `SinkRun.Bounded` -- drivers that never report more than was asked for;
  * `SourceRun.Fails`, `SinkRun.Fails` -- a transfer comes to an answer that ends it, before all of
    its octets were moved;
  * `Source.GetsChunk`, `Sink.PutsChunk` -- what the comments of `source_get_chunk` and
    `sink_put_chunk` promise: the octets, or what the driver reported;
  * `getsChunk_putsChunk_iff` -- **they keep it exactly where no transfer fails**: at the end they
    assert that all octets were moved, whatever the error.
-/
import Ufw.Endpoints.Transfers

namespace Ufw

open Base

variable {σ τ : Type}

/-! ## 1. Drivers that fail -/

/-- The answers that end a transfer. -/
def Permanent : Rc → Prop
  | .ok _ => False
  | .error e => e ≠ .eintr ∧ e ≠ .eagain

theorem permitted_of_moved {n : Nat} {rc : Rc} (hle : moved rc ≤ n) (hp : ¬ Permanent rc) :
    Permitted True n rc := by
  match rc, hle, hp with
  | .ok m, hle, _ => exact ⟨hle, fun _ => trivial⟩
  | .error e, _, hp =>
    refine ⟨trivial, ?_⟩
    by_cases he : e = .eintr
    · exact .inl he
    · exact .inr (Classical.not_not.mp fun ha => hp ⟨he, ha⟩)

/-- Without a retry callback, a permanent answer ends the transfer. -/
theorem EpRetry.goOn_permanent {δ : Type} {retry : EpRetry δ} (hr : retry.run = none) {e : Errno}
    (hp : Permanent (.error e)) (drv : δ) : retry.goOn drv (.error e) = (.error e, drv) := by
  unfold EpRetry.goOn
  rw [hr]
  cases e with
  | eintr => exact absurd rfl hp.1
  | eagain => exact absurd rfl hp.2
  | _ => rfl

namespace SourceRun

/-- A driver that never reports more than it was asked for. -/
def Bounded (run : SourceRun σ) : Prop :=
  ∀ d n, run.Asks n → (octetsOf (run.call d n).1).length ≤ n

/-- **A transfer of `k` octets fails**: asked for what is missing, the driver answers with a
    permanent error, at once or some answers later. -/
inductive Fails (run : SourceRun σ) : Nat → σ → Prop
  | now {k : Nat} {d d' : σ} {e : Errno} (h0 : 0 < k) (hcall : run.call d k = (.error e, d'))
      (hp : Permanent (.error e)) : Fails run k d
  | later {k : Nat} {d d' : σ} {rc : Except Errno (List Octet)} (h0 : 0 < k)
      (hcall : run.call d k = (rc, d')) (hp : ¬ Permanent (rc.map List.length))
      (rest : Fails run (k - (octetsOf rc).length) d') : Fails run k d

theorem Hands.length_le {run : SourceRun σ} (hb : run.Bounded) {k : Nat} {d d' : σ}
    {l : List Octet} (h : run.Hands k d l d') : l.length ≤ k := by
  induction h with
  | nil k d => exact Nat.zero_le k
  | @call k n d d₁ d' rc l hn hk hrun _ ih =>
    have hle := hb d n hn
    rw [hrun] at hle
    rw [List.length_append]
    have hle' : (octetsOf rc).length ≤ n := hle
    omega

theorem Bounded.chunked {run : SourceRun σ} (hb : run.Bounded) : run.chunked.Bounded := by
  cases run with
  | chunk run => exact hb
  | octet run =>
    intro d n hn
    exact (Hands.chunked (.octet run) hn (le_refl n) rfl).length_le hb

/-- What a bounded driver answers to a transfer is permitted, or permanent. -/
theorem Bounded.permitted {run : SourceRun σ} (hb : run.Bounded) {k : Nat} (h0 : 0 < k) {d d' : σ}
    {rc : Except Errno (List Octet)} (hcall : run.chunked.call d k = (rc, d'))
    (hp : ¬ Permanent (rc.map List.length)) : Permitted True k (rc.map List.length) := by
  have hle := hb.chunked d k (run.asks_chunked h0)
  rw [hcall] at hle
  exact permitted_of_moved (moved_map_length rc ▸ hle) hp

end SourceRun

namespace SinkRun

/-- A driver that answers, and never reports more than it was given. -/
def Bounded (run : SinkRun τ) : Prop :=
  ∀ d buf, run.Asks buf → ∃ rc d', run.call d buf = .ok (rc, d') ∧ moved rc ≤ buf.length

/-- **A transfer of octets fails**: given what is left, the driver answers with a permanent error,
    at once or some answers later. -/
inductive Fails (run : SinkRun τ) : List Octet → τ → Prop
  | now {rest : List Octet} {d d' : τ} {e : Errno} (hne : rest ≠ [])
      (hcall : run.call d rest = .ok (.error e, d')) (hp : Permanent (.error e)) : Fails run rest d
  | later {rest : List Octet} {d d' : τ} {rc : Rc} (hne : rest ≠ [])
      (hcall : run.call d rest = .ok (rc, d')) (hp : ¬ Permanent rc)
      (more : Fails run (rest.drop (moved rc)) d') : Fails run rest d

theorem Bounded.adapted {run : τ → Octet → Exec (Rc × τ)} (hb : (SinkRun.octet run).Bounded)
    (buf : List Octet) : ∀ put d, ∃ rc d', sinkAdapt run put buf d = .ok (rc, d') ∧
      moved rc ≤ put + buf.length := by
  induction buf with
  | nil => exact fun put d => ⟨.ok put, d, rfl, le_refl put⟩
  | cons o buf ih =>
    intro put d
    obtain ⟨rc, d₁, hcall, -⟩ := hb d [o] rfl
    have hrun : run d o = .ok (rc, d₁) := hcall
    rw [sinkAdapt, hrun]
    simp only [ok_bind]
    rcases rc with e | (_ | m)
    · exact ⟨_, d₁, rfl, by rw [moved_stall]; exact Nat.le_add_right _ _⟩
    · exact ⟨_, d₁, rfl, by rw [moved_stall]; exact Nat.le_add_right _ _⟩
    · obtain ⟨rc, d', he, hle⟩ := ih (put + 1) d₁
      exact ⟨rc, d', he, by rw [List.length_cons]; omega⟩

theorem Bounded.chunked {run : SinkRun τ} (hb : run.Bounded) : run.chunked.Bounded := by
  cases run with
  | chunk run => exact hb
  | octet run =>
    intro d buf _
    have h := hb.adapted buf 0 d
    rwa [Nat.zero_add] at h

/-- What a bounded driver answers to a transfer is permitted, or permanent. -/
theorem Bounded.answers {run : SinkRun τ} (hb : run.Bounded) (d : τ) {rest : List Octet}
    (hne : rest ≠ []) : ∃ rc d', run.chunked.call d rest = .ok (rc, d') ∧
      (¬ Permanent rc → Permitted True rest.length rc) := by
  obtain ⟨rc, d', hcall, hle⟩ := hb.chunked d rest (run.asks_chunked hne)
  exact ⟨rc, d', hcall, permitted_of_moved hle⟩

end SinkRun

/-! ## 2. The promises -/

/-- **What `source_get_chunk` promises**: no assertion fails, and it returns the `n` octets the
    driver handed out, or, where these are fewer, what the driver reported last. -/
structure Source.GetsChunk (source : Source σ) (n : Nat) : Prop where
  asserts : ∀ fuel, sourceGetChunk fuel source n ≠ .error .fault
  result : ∀ fuel rc source', sourceGetChunk fuel source n = .ok (rc, source') →
    ∃ l d', source' = { source with driver := d' } ∧ source.run.Hands n source.start l d' ∧
      (rc = .ok l ∧ l.length = n ∨
        ∃ e d₁ k, rc = .error e ∧ l.length < n ∧ source.run.call d₁ k = (.error e, d'))

/-- **What `sink_put_chunk` promises.** -/
structure Sink.PutsChunk (sink : Sink τ) (buf : List Octet) : Prop where
  asserts : ∀ fuel, sinkPutChunk fuel sink buf ≠ .error .fault
  result : ∀ fuel rc sink', sinkPutChunk fuel sink buf = .ok (rc, sink') →
    ∃ l d', sink' = { sink with driver := d' } ∧ sink.run.Passes buf.length sink.start l d' ∧
      (rc = .ok buf.length ∧ l = buf ∨
        ∃ e d₁ b, rc = .error e ∧ l.length < buf.length ∧ sink.run.call d₁ b = .ok (.error e, d'))

/-! ## 3. Sources -/

section Sources

variable {run : SourceRun σ} {retry : EpRetry σ}

/-- A transfer that does not fail reads what is missing, if it ends. -/
theorem sourceReadLoop_sound (hb : run.Bounded) (hr : retry.run = none) (n : Nat) (fuel : Nat) :
    ∀ (got : List Octet) (k : Nat) (d : σ), got.length + k = n → ¬ run.chunked.Fails k d →
      sourceReadLoop n fuel got { run, retry, driver := d } = .error .outOfFuel ∨
      ∃ l d', sourceReadLoop n fuel got { run, retry, driver := d } =
          .ok ((none, got ++ l), { run, retry, driver := d' }) ∧
        l.length = k ∧ run.Hands k d l d' := by
  induction fuel with
  | zero => exact fun _ _ _ _ _ => .inl rfl
  | succ fuel ih =>
    intro got k d hn hf
    by_cases hk : k = 0
    · subst hk
      refine .inr ⟨[], d, ?_, rfl, .nil 0 d⟩
      rw [sourceReadLoop, if_neg (by omega), List.append_nil]
    · have h0 : 0 < k := Nat.pos_of_ne_zero hk
      rcases hcall : run.chunked.call d k with ⟨rc, d₁⟩
      have hp : ¬ Permanent (rc.map List.length) := by
        cases rc with
        | ok l => exact id
        | error e => exact fun hp => hf (.now h0 hcall hp)
      obtain ⟨hstep, hle, hn'⟩ := sourceReadLoop_step (fun _ => hr) h0 hn hcall
        (hb.permitted h0 hcall hp)
      rw [hstep]
      rcases ih _ _ d₁ hn' (fun hlater => hf (.later h0 hcall hp hlater)) with h | ⟨l, d', he,
        hl, hh⟩
      · exact .inl h
      · refine .inr ⟨octetsOf rc ++ l, d', by rw [he, List.append_assoc], ?_,
          (SourceRun.Hands.chunked run h0 (le_refl k) hcall).trans hh⟩
        rw [List.length_append]
        omega

/-- A transfer that fails comes to its end with fewer octets than it was to read. -/
theorem sourceReadLoop_fails (hb : run.Bounded) (hr : retry.run = none) (n : Nat) {k : Nat} {d : σ}
    (hf : run.chunked.Fails k d) : ∀ got : List Octet, got.length + k = n →
    ∃ e got' d', Returns (fun fuel => sourceReadLoop n fuel got { run, retry, driver := d })
      ((some e, got'), { run, retry, driver := d' }) ∧ got'.length < n := by
  induction hf with
  | @now k d d' e h0 hcall hp =>
    intro got hn
    have hnk : n - got.length = k := by omega
    refine ⟨e, got, d', Returns.of_succ fun fuel => ?_, by omega⟩
    rw [sourceReadLoop, if_pos (by omega), sourceRead_eq, hnk]
    simp only [hcall, Except.map, EpRetry.goOn_permanent hr hp]
  | later h0 hcall hp _ ih =>
    intro got hn
    obtain ⟨hstep, hle, hn'⟩ := sourceReadLoop_step (fun _ => hr) h0 hn hcall
      (hb.permitted h0 hcall hp)
    obtain ⟨e, got', d', hret, hlt⟩ := ih _ hn'
    exact ⟨e, got', d', hret.step hstep, hlt⟩

/-- **`source_get_chunk` keeps its promise exactly where no transfer fails.** -/
theorem getsChunk_iff {source : Source σ} (hb : source.run.Bounded) (hr : source.retry.run = none)
    {n : Nat} (h0 : 0 < n) (hn : n ≤ ssizeMax) :
    source.GetsChunk n ↔ ¬ source.run.chunked.Fails n source.start := by
  have hmulti : ∀ fuel, sourceReadMulti fuel source n =
      sourceReadLoop n fuel [] { source with driver := source.start } := fun fuel => by
    rw [sourceReadMulti, if_neg (by omega)]
    rfl
  constructor
  · intro h hf
    obtain ⟨e, got, d', ⟨fuel, hfuel⟩, hlt⟩ := sourceReadLoop_fails hb hr n hf [] (Nat.zero_add n)
    have hend := hfuel fuel (le_refl fuel)
    refine h.asserts fuel ?_
    simp only [sourceGetChunk, hmulti, hend, ok_bind, require, if_neg hlt.ne, error_bind]
  · intro hf
    have hsound := fun fuel => sourceReadLoop_sound hb hr n fuel [] n _ (Nat.zero_add n) hf
    have hget : ∀ fuel, sourceGetChunk fuel source n = .error .outOfFuel ∨ ∃ l d',
        sourceGetChunk fuel source n = .ok (.ok l, { source with driver := d' }) ∧ l.length = n ∧
          source.run.Hands n source.start l d' := by
      intro fuel
      rw [sourceGetChunk, hmulti]
      rcases hsound fuel with h | ⟨l, d', he, hl, hh⟩
      · exact .inl (by rw [h]; rfl)
      · refine .inr ⟨l, d', ?_, hl, hh⟩
        rw [he]
        simp only [ok_bind, List.nil_append, require_pos hl,
          require_pos (hl ▸ hn : l.length ≤ ssizeMax)]
    refine ⟨fun fuel hfault => ?_, fun fuel rc source' hret => ?_⟩
    · rcases hget fuel with h | ⟨l, d', h, -⟩ <;> rw [h] at hfault <;> cases hfault
    · rcases hget fuel with h | ⟨l, d', h, hl, hh⟩
      · rw [h] at hret
        cases hret
      · rw [h] at hret
        cases hret
        exact ⟨l, d', rfl, hh, .inl ⟨rfl, hl⟩⟩

end Sources

/-! ## 4. Sinks -/

section Sinks

variable {run : SinkRun τ} {retry : EpRetry τ}

/-- A transfer that does not fail writes what is left, if it ends. -/
theorem sinkWriteLoop_sound (hb : run.Bounded) (hr : retry.run = none) (n : Nat) (fuel : Nat) :
    ∀ (rest : List Octet) (d : τ), ¬ run.chunked.Fails rest d →
      sinkWriteLoop n fuel rest { run, retry, driver := d } = .error .outOfFuel ∨
      ∃ d', sinkWriteLoop n fuel rest { run, retry, driver := d } =
          .ok ((none, n), { run, retry, driver := d' }) ∧ run.Passes rest.length d rest d' := by
  induction fuel with
  | zero => exact fun _ _ _ => .inl rfl
  | succ fuel ih =>
    intro rest d hf
    by_cases hne : rest = []
    · subst hne
      exact .inr ⟨d, rfl, .nil 0 d⟩
    · obtain ⟨rc, d₁, hcall, hperm⟩ := hb.answers d hne
      have hp : ¬ Permanent rc := by
        cases rc with
        | ok m => exact id
        | error e => exact fun hp => hf (.now hne hcall hp)
      rw [sinkWriteLoop_step (fun _ => hr) n hne hcall (hperm hp)]
      rcases ih _ d₁ (fun hlater => hf (.later hne hcall hp hlater)) with h | ⟨d', he, hpass⟩
      · exact .inl h
      · have hle := (hperm hp).moved_le
        rw [List.length_drop] at hpass
        have hall := (SinkRun.Passes.chunked run hne (le_refl _) hcall).trans
          (by rw [List.length_take_of_le hle]; exact hpass)
        rw [List.take_append_drop] at hall
        exact .inr ⟨d', he, hall⟩

/-- A transfer that fails comes to its end with fewer octets out than it was to write. -/
theorem sinkWriteLoop_fails (hb : run.Bounded) (hr : retry.run = none) {rest : List Octet} {d : τ}
    (hf : run.chunked.Fails rest d) : ∀ n, rest.length ≤ n → ∃ e m d',
    Returns (fun fuel => sinkWriteLoop n fuel rest { run, retry, driver := d })
      ((some e, m), { run, retry, driver := d' }) ∧ m < n := by
  induction hf with
  | @now rest d d' e hne hcall hp =>
    intro n hn
    have hlen := List.length_pos_iff.mpr hne
    refine ⟨e, n - rest.length, d', Returns.of_succ fun fuel => ?_, by omega⟩
    rw [sinkWriteLoop, if_neg hne, sinkWrite_eq, hcall]
    simp only [ok_bind, EpRetry.goOn_permanent hr hp]
  | @later rest d d₁ rc hne hcall hp _ ih =>
    intro n hn
    obtain ⟨rc', d', hcall', hperm⟩ := hb.answers d hne
    rw [hcall] at hcall'
    cases hcall'
    obtain ⟨e, m, d'', hret, hlt⟩ := ih n (by rw [List.length_drop]; omega)
    exact ⟨e, m, d'', hret.step (sinkWriteLoop_step (fun _ => hr) n hne hcall (hperm hp)), hlt⟩

/-- **`sink_put_chunk` keeps its promise exactly where no transfer fails.** -/
theorem putsChunk_iff {sink : Sink τ} (hb : sink.run.Bounded) (hr : sink.retry.run = none)
    {buf : List Octet} (hne : buf ≠ []) (hl : buf.length ≤ ssizeMax) :
    sink.PutsChunk buf ↔ ¬ sink.run.chunked.Fails buf sink.start := by
  have hlen : buf.length ≠ 0 := fun h0 => hne (List.length_eq_zero_iff.mp h0)
  have hmulti : ∀ fuel, sinkWriteMulti fuel sink buf =
      sinkWriteLoop buf.length fuel buf { sink with driver := sink.start } := fun fuel => by
    rw [sinkWriteMulti, if_neg hlen, if_neg (by omega)]
    rfl
  constructor
  · intro h hf
    obtain ⟨e, m, d', ⟨fuel, hfuel⟩, hlt⟩ := sinkWriteLoop_fails hb hr hf _ (le_refl buf.length)
    have hend := hfuel fuel (le_refl fuel)
    refine h.asserts fuel ?_
    simp only [sinkPutChunk, hmulti, hend, ok_bind, require, if_neg hlt.ne, error_bind]
  · intro hf
    have hput : ∀ fuel, sinkPutChunk fuel sink buf = .error .outOfFuel ∨ ∃ d',
        sinkPutChunk fuel sink buf = .ok (.ok buf.length, { sink with driver := d' }) ∧
          sink.run.Passes buf.length sink.start buf d' := by
      intro fuel
      rw [sinkPutChunk, hmulti]
      rcases sinkWriteLoop_sound hb hr buf.length fuel buf _ hf with h | ⟨d', he, hpass⟩
      · exact .inl (by rw [h]; rfl)
      · refine .inr ⟨d', ?_, hpass⟩
        rw [he]
        simp only [ok_bind, require_pos, hl]
    refine ⟨fun fuel hfault => ?_, fun fuel rc sink' hret => ?_⟩
    · rcases hput fuel with h | ⟨d', h, -⟩ <;> rw [h] at hfault <;> cases hfault
    · rcases hput fuel with h | ⟨d', h, hpass⟩
      · rw [h] at hret
        cases hret
      · rw [h] at hret
        cases hret
        exact ⟨buf, d', rfl, hpass, .inl ⟨rfl, rfl⟩⟩

end Sinks

/-! ## 5. Both directions -/

/-- **The promises of both directions hold exactly where no transfer fails.** -/
theorem getsChunk_putsChunk_iff {source : Source σ} (hs : source.run.Bounded)
    (hsr : source.retry.run = none) {sink : Sink τ} (hk : sink.run.Bounded)
    (hkr : sink.retry.run = none) {n : Nat} (h0 : 0 < n) (hn : n ≤ ssizeMax) {buf : List Octet}
    (hb : buf.length = n) :
    (source.GetsChunk n ↔ ¬ source.run.chunked.Fails n source.start) ∧
    (sink.PutsChunk buf ↔ ¬ sink.run.chunked.Fails buf sink.start) := by
  subst hb
  exact ⟨getsChunk_iff hs hsr h0 hn, putsChunk_iff hk hkr (List.length_pos_iff.mp h0) hn⟩

theorem streamSource_bounded (l : List Octet) : (streamSource l).run.Bounded := by
  intro d n hn
  match d with
  | [] => exact Nat.zero_le n
  | o :: d => exact hn.ge

theorem collectSink_bounded (l : List Octet) : (collectSink l).run.Bounded :=
  fun _ _ hb => ⟨_, _, rfl, hb.ge⟩

theorem getsChunk_putsChunk_iff_sample :
    ((streamSource [7]).GetsChunk 2 ↔ ¬ (streamSource [7]).run.chunked.Fails 2 [7]) ∧
    ((collectSink []).PutsChunk [4, 5] ↔ ¬ (collectSink []).run.chunked.Fails [4, 5] []) :=
  getsChunk_putsChunk_iff (streamSource_bounded [7]) rfl (collectSink_bounded []) rfl (by decide)
    (by decide) rfl

/-- **A source that ends after one octet**: reading two fails an assertion. -/
theorem not_getsChunk_end :
    ¬ ∀ (source : Source (List Octet)) (n : Nat), source.run.Bounded → source.retry.run = none →
      0 < n → n ≤ ssizeMax → source.GetsChunk n := fun h =>
  (h (streamSource [7]) 2 (streamSource_bounded [7]) rfl (by decide) (by decide)).asserts 3 rfl

end Ufw
