/-
  File:      Ufw/Endpoints/Drivers.lean
  Subject:   ENDPOINTS: drivers that move as much at a time as they like, and the adapters that make
             chunk drivers of octet drivers.

  * `Permitted` -- the answers of a driver that are no failure: something, or nothing for now
    (0, `-EINTR`, `-EAGAIN`);
  * `SourceRun.Ready`, `SinkRun.Ready` -- drivers that move a number of octets, with finitely many
    answers in between that move nothing;
  * `SourceRun.Hands`, `SinkRun.Passes` -- sequences of calls of a driver, and the octets they
    moved;
  * `Ready.chunked`, `Hands.chunked`, `Passes.chunked` -- **behind its adapter an octet driver is as
    ready as it is, and moves the same octets.**
-/
import Ufw.Endpoints

namespace Ufw

open Base

variable {σ τ : Type}

/-! ## 1. Answers -/

/-- How much a return code moved. -/
def moved : Rc → Nat
  | .ok n => n
  | .error _ => 0

/-- The octets a call of a source handed out. -/
def octetsOf : Except Errno (List Octet) → List Octet
  | .ok l => l
  | .error _ => []

/-- **The answers to a request for `n` octets that are no failure.** Where drivers may be `idle`,
    they may move nothing and ask to be tried again. -/
def Permitted (idle : Prop) (n : Nat) : Rc → Prop
  | .ok m => m ≤ n ∧ (m = 0 → idle)
  | .error e => idle ∧ (e = .eintr ∨ e = .eagain)

theorem Permitted.moved_le {idle : Prop} {n : Nat} {rc : Rc} (h : Permitted idle n rc) :
    moved rc ≤ n := by
  match rc, h with
  | .ok _, h => exact h.1
  | .error _, _ => exact Nat.zero_le n

theorem moved_map_length (rc : Except Errno (List Octet)) :
    moved (rc.map List.length) = (octetsOf rc).length := by
  cases rc with
  | error e => rfl
  | ok l => rfl

/-! ## 2. Drivers of sources -/

namespace SourceRun

/-- What a driver may be asked for. -/
def Asks : SourceRun σ → Nat → Prop
  | .octet _, n => n = 1
  | .chunk _, n => 0 < n

/-- A call of a driver. -/
def call : SourceRun σ → σ → Nat → Except Errno (List Octet) × σ
  | .octet run, d, _ => ((run d).1.map Option.toList, (run d).2)
  | .chunk run, d, n => run d n

/-- The chunk driver `source_read` calls. -/
def chunked : SourceRun σ → SourceRun σ
  | .octet run => .chunk fun d n => sourceAdapt run n [] d
  | .chunk run => .chunk run

/-- **A driver that hands out `k` octets**, however they are asked for. That it is finite is what
    the predicate is inductive for: nothing is answered only so often. -/
inductive Ready (idle : Prop) (run : SourceRun σ) : Nat → σ → Prop
  | intro {k : Nat} {d : σ}
      (answers : ∀ n rc d', run.Asks n → n ≤ k → run.call d n = (rc, d') →
        Permitted idle n (rc.map List.length))
      (rest : ∀ n rc d', run.Asks n → n ≤ k → run.call d n = (rc, d') →
        Ready idle run (k - (octetsOf rc).length) d') : Ready idle run k d

/-- **Calls of a driver** for `k` octets at most, from state to state: they handed out `l`. -/
inductive Hands (run : SourceRun σ) : Nat → σ → List Octet → σ → Prop
  | nil (k : Nat) (d : σ) : Hands run k d [] d
  | call {k n : Nat} {d d₁ d' : σ} {rc : Except Errno (List Octet)} {l : List Octet}
      (hn : run.Asks n) (hk : n ≤ k) (hrun : run.call d n = (rc, d₁))
      (rest : Hands run (k - (octetsOf rc).length) d₁ l d') : Hands run k d (octetsOf rc ++ l) d'

theorem asks_chunked (run : SourceRun σ) {n : Nat} (h0 : 0 < n) : run.chunked.Asks n := by
  cases run with
  | octet run => exact h0
  | chunk run => exact h0

variable {idle : Prop} {k : Nat} {d : σ}

theorem Ready.zero (idle : Prop) (run : SourceRun σ) (d : σ) : run.Ready idle 0 d := by
  have hno : ∀ n, run.Asks n → ¬ n ≤ 0 := fun n hn h0 => by
    cases run with
    | octet run => exact absurd (hn ▸ h0) (by decide)
    | chunk run => exact absurd hn (Nat.not_lt.mpr h0)
  exact .intro (fun n _ _ hn h0 => absurd h0 (hno n hn)) fun n _ _ hn h0 => absurd h0 (hno n hn)

/-- What the adapter of an octet driver answers to a request for `n` octets, with `got` in it: some
    more octets, within the request, and the driver is ready for what is left. -/
def Adapts (idle : Prop) (run : σ → Except Errno (Option Octet) × σ) (k : Nat) (d : σ) (n : Nat)
    (got : List Octet) : Prop :=
  ∃ rc d' l, sourceAdapt run n got d = (rc, d') ∧ octetsOf rc = got ++ l ∧
    Permitted idle (got.length + n) (rc.map List.length) ∧
    (SourceRun.octet run).chunked.Ready idle (k - l.length) d'

theorem Adapts.ready {run : σ → Except Errno (Option Octet) × σ}
    (h : ∀ n, 0 < n → n ≤ k → Adapts idle run k d n []) :
    (SourceRun.octet run).chunked.Ready idle k d := by
  refine .intro (fun n rc d' h0 hn hrun => ?_) fun n rc d' h0 hn hrun => ?_
  · obtain ⟨rc, d', l, he, -, hp, -⟩ := h n h0 hn
    rw [chunked, call, he] at hrun
    cases hrun
    rwa [List.length_nil, Nat.zero_add] at hp
  · obtain ⟨rc, d', l, he, ho, -, hr⟩ := h n h0 hn
    rw [chunked, call, he] at hrun
    cases hrun
    rwa [ho]

/-- An answer that moves nothing hands out what is in the adapter. -/
theorem octetsOf_stall (e : Errno) (got : List Octet) :
    octetsOf (if got = [] then .error e else .ok got) = got := by
  split
  · next hg => exact hg.symm
  · rfl

/-- The driver moves nothing: what is in the adapter by then is the answer. -/
theorem Adapts.idles {run : σ → Except Errno (Option Octet) × σ} {n : Nat} {got : List Octet}
    {e : Errno} {d' : σ}
    (he : sourceAdapt run n got d = (if got = [] then .error e else .ok got, d'))
    (hp : idle ∧ (e = .eintr ∨ e = .eagain)) (hr : (SourceRun.octet run).chunked.Ready idle k d') :
    Adapts idle run k d n got := by
  refine ⟨_, d', [], he, by rw [octetsOf_stall, List.append_nil], ?_, hr⟩
  split
  · exact hp
  · next hg => exact ⟨Nat.le_add_right _ _, fun h0 => absurd (List.length_eq_zero_iff.mp h0) hg⟩

/-- **An octet driver behind its adapter is a chunk driver that is as ready.** -/
theorem Ready.adapts {run : σ → Except Errno (Option Octet) × σ}
    (h : (SourceRun.octet run).Ready idle k d) :
    ∀ n ≤ k, ∀ got : List Octet, (n = 0 → got ≠ []) → Adapts idle run k d n got := by
  induction h with
  | @intro k d answers _ ih =>
    -- a request for something is a call of the driver, and then one for less
    have hstep : ∀ n got, n + 1 ≤ k → Adapts idle run k d (n + 1) got := by
      intro n got hn
      have h1 : 1 ≤ k := le_trans (Nat.succ_le_succ (Nat.zero_le n)) hn
      rcases hrun : run d with ⟨rc, d₁⟩
      have hcall : (SourceRun.octet run).call d 1 = (rc.map Option.toList, d₁) := by
        rw [call, hrun]
      have hp := answers 1 _ _ rfl h1 hcall
      have hnext := ih 1 _ _ rfl h1 hcall
      match rc, hp with
      | .error e, hp =>
        have he : sourceAdapt run (n + 1) got d = (if got = [] then .error e else .ok got, d₁) := by
          simp only [sourceAdapt, hrun]
        exact .idles he hp (Adapts.ready fun n h0 hn => hnext n hn [] fun hz => absurd hz h0.ne')
      | .ok none, hp =>
        have he : sourceAdapt run (n + 1) got d =
            (if got = [] then .error .eagain else .ok got, d₁) := by
          simp only [sourceAdapt, hrun]
        exact .idles he ⟨hp.2 rfl, .inr rfl⟩
          (Adapts.ready fun n h0 hn => hnext n hn [] fun hz => absurd hz h0.ne')
      | .ok (some o), hp =>
        obtain ⟨rc, d', l, he, ho, hp', hr⟩ := hnext n (Nat.le_sub_of_add_le hn) (got ++ [o])
          fun _ => by simp
        refine ⟨rc, d', o :: l, by simp only [sourceAdapt, hrun, he], ?_, ?_, ?_⟩
        · rw [ho, List.append_assoc]
          rfl
        · rwa [List.length_append, List.length_singleton, Nat.add_assoc, Nat.add_comm 1] at hp'
        · rwa [List.length_cons, Nat.add_comm, ← Nat.sub_sub]
    intro n hn got hgot
    cases n with
    | succ n => exact hstep n got hn
    | zero =>
      have hready : (SourceRun.octet run).chunked.Ready idle k d := Adapts.ready fun n h0 hn => by
        obtain ⟨n, rfl⟩ : ∃ m, n = m + 1 := ⟨n - 1, (Nat.succ_pred_eq_of_pos h0).symm⟩
        exact hstep n [] hn
      refine ⟨.ok got, d, [], rfl, (List.append_nil got).symm, ⟨le_refl _, fun h0 => ?_⟩, hready⟩
      exact absurd (List.length_eq_zero_iff.mp h0) (hgot rfl)

theorem Ready.chunked {run : SourceRun σ} (h : run.Ready idle k d) :
    run.chunked.Ready idle k d := by
  cases run with
  | octet run => exact Adapts.ready fun n h0 hn => h.adapts n hn [] fun hz => absurd hz h0.ne'
  | chunk run => exact h

theorem Hands.trans {run : SourceRun σ} {d₁ d' : σ} {l l' : List Octet}
    (h1 : run.Hands k d l d₁) (h2 : run.Hands (k - l.length) d₁ l' d') :
    run.Hands k d (l ++ l') d' := by
  induction h1 with
  | nil k d => exact h2
  | call hn hk hrun _ ih =>
    rw [List.append_assoc]
    refine .call hn hk hrun (ih ?_)
    rwa [Nat.sub_sub, ← List.length_append]

/-- A call of the adapter is some calls of its driver. -/
theorem Hands.adapted (run : σ → Except Errno (Option Octet) × σ) (n : Nat) :
    ∀ (got : List Octet) (k : Nat) (d : σ), n ≤ k → ∃ l,
      octetsOf (sourceAdapt run n got d).1 = got ++ l ∧
      (SourceRun.octet run).Hands k d l (sourceAdapt run n got d).2 := by
  induction n with
  | zero => exact fun got k d _ => ⟨[], (List.append_nil got).symm, .nil k d⟩
  | succ n ih =>
    intro got k d hk
    have h1 : 1 ≤ k := le_trans (Nat.succ_le_succ (Nat.zero_le n)) hk
    rcases hrun : run d with ⟨rc, d₁⟩
    have hcall : (SourceRun.octet run).call d 1 = (rc.map Option.toList, d₁) := by
      rw [SourceRun.call, hrun]
    have hask : (SourceRun.octet run).Asks 1 := rfl
    rw [sourceAdapt, hrun]
    match rc with
    | .error e =>
      exact ⟨[], by rw [octetsOf_stall, List.append_nil], .call hask h1 hcall (.nil _ d₁)⟩
    | .ok none =>
      exact ⟨[], by rw [octetsOf_stall, List.append_nil], .call hask h1 hcall (.nil _ d₁)⟩
    | .ok (some o) =>
      obtain ⟨l, ho, hl⟩ := ih (got ++ [o]) (k - 1) d₁ (Nat.le_sub_of_add_le hk)
      exact ⟨o :: l, by rw [ho, List.append_assoc]; rfl, .call hask h1 hcall hl⟩

/-- A call `source_read` makes is some calls of the driver. -/
theorem Hands.chunked (run : SourceRun σ) {n k : Nat} (h0 : 0 < n) (hk : n ≤ k)
    {rc : Except Errno (List Octet)} {d d' : σ} (h : run.chunked.call d n = (rc, d')) :
    run.Hands k d (octetsOf rc) d' := by
  cases run with
  | octet run =>
    obtain ⟨l, ho, hl⟩ := Hands.adapted run n [] k d hk
    have hrc : sourceAdapt run n [] d = (rc, d') := h
    rw [hrc] at ho hl
    rwa [ho]
  | chunk run =>
    have hcall : (SourceRun.chunk run).call d n = (rc, d') := h
    have hask : (SourceRun.chunk run).Asks n := h0
    have hl := Hands.call hask hk hcall (.nil _ d')
    rwa [List.append_nil] at hl

end SourceRun

/-! ## 3. Drivers of sinks -/

namespace SinkRun

/-- What a driver may be given. -/
def Asks : SinkRun τ → List Octet → Prop
  | .octet _, buf => buf.length = 1
  | .chunk _, buf => buf ≠ []

/-- A call of a driver. -/
def call : SinkRun τ → τ → List Octet → Exec (Rc × τ)
  | .octet run, d, buf => run d (buf.headD 0)
  | .chunk run, d, buf => run d buf

/-- The chunk driver `sink_write` calls. -/
def chunked : SinkRun τ → SinkRun τ
  | .octet run => .chunk fun d buf => sinkAdapt run 0 buf d
  | .chunk run => .chunk run

/-- **A driver that takes `k` octets**, however it is given them. -/
inductive Ready (idle : Prop) (run : SinkRun τ) : Nat → τ → Prop
  | intro {k : Nat} {d : τ}
      (answers : ∀ buf, run.Asks buf → buf.length ≤ k →
        ∃ rc d', run.call d buf = .ok (rc, d') ∧ Permitted idle buf.length rc)
      (rest : ∀ buf rc d', run.Asks buf → buf.length ≤ k → run.call d buf = .ok (rc, d') →
        Ready idle run (k - moved rc) d') : Ready idle run k d

/-- **Calls of a driver** with `k` octets at most, from state to state: they took the octets of `l`,
    in order. -/
inductive Passes (run : SinkRun τ) : Nat → τ → List Octet → τ → Prop
  | nil (k : Nat) (d : τ) : Passes run k d [] d
  | call {k : Nat} {buf : List Octet} {d d₁ d' : τ} {rc : Rc} {l : List Octet} (hb : run.Asks buf)
      (hk : buf.length ≤ k) (hrun : run.call d buf = .ok (rc, d₁))
      (rest : Passes run (k - (buf.take (moved rc)).length) d₁ l d') :
      Passes run k d (buf.take (moved rc) ++ l) d'

theorem asks_chunked (run : SinkRun τ) {buf : List Octet} (hb : buf ≠ []) :
    run.chunked.Asks buf := by
  cases run with
  | octet run => exact hb
  | chunk run => exact hb

variable {idle : Prop} {k : Nat} {d : τ}

theorem Ready.zero (idle : Prop) (run : SinkRun τ) (d : τ) : run.Ready idle 0 d := by
  have hno : ∀ buf, run.Asks buf → ¬ buf.length ≤ 0 := fun buf hb h0 => by
    cases run with
    | octet run => exact absurd (hb ▸ h0) (by decide)
    | chunk run => exact hb (List.length_eq_zero_iff.mp (Nat.le_zero.mp h0))
  exact .intro (fun buf hb h0 => absurd h0 (hno buf hb)) fun buf _ _ hb h0 => absurd h0 (hno buf hb)

/-- What the adapter of an octet driver answers to `buf`, with `put` octets out already. -/
def Adapts (idle : Prop) (run : τ → Octet → Exec (Rc × τ)) (k : Nat) (d : τ) (buf : List Octet)
    (put : Nat) : Prop :=
  ∃ m rc d', sinkAdapt run put buf d = .ok (rc, d') ∧ moved rc = put + m ∧
    Permitted idle (put + buf.length) rc ∧ (SinkRun.octet run).chunked.Ready idle (k - m) d'

theorem Adapts.ready {run : τ → Octet → Exec (Rc × τ)}
    (h : ∀ buf, buf ≠ [] → buf.length ≤ k → Adapts idle run k d buf 0) :
    (SinkRun.octet run).chunked.Ready idle k d := by
  refine .intro (fun buf hb hk => ?_) fun buf rc d' hb hk hrun => ?_
  · obtain ⟨m, rc, d', he, -, hp, -⟩ := h buf hb hk
    rw [Nat.zero_add] at hp
    exact ⟨rc, d', he, hp⟩
  · obtain ⟨m, rc, d', he, hm, -, hr⟩ := h buf hb hk
    have hrun' : sinkAdapt run 0 buf d = .ok (_, _) := hrun
    rw [he] at hrun'
    cases hrun'
    rwa [hm, Nat.zero_add]

/-- An answer that moves nothing moved what went out by then. -/
theorem moved_stall (e : Errno) (put : Nat) :
    moved (if put = 0 then .error e else .ok put) = put := by
  split
  · next hp => exact hp.symm
  · rfl

/-- The driver moves nothing: what went out by then is the answer. -/
theorem Adapts.idles {run : τ → Octet → Exec (Rc × τ)} {buf : List Octet} {put : Nat} {e : Errno}
    {d' : τ} (he : sinkAdapt run put buf d = .ok (if put = 0 then .error e else .ok put, d'))
    (hp : idle ∧ (e = .eintr ∨ e = .eagain)) (hr : (SinkRun.octet run).chunked.Ready idle k d') :
    Adapts idle run k d buf put := by
  refine ⟨0, _, d', he, moved_stall e put, ?_, hr⟩
  split
  · exact hp
  · next h0 => exact ⟨Nat.le_add_right _ _, fun hz => absurd hz h0⟩

/-- **An octet driver behind its adapter is a chunk driver that is as ready.** -/
theorem Ready.adapts {run : τ → Octet → Exec (Rc × τ)} (h : (SinkRun.octet run).Ready idle k d) :
    ∀ (buf : List Octet) (put : Nat), buf.length ≤ k → (buf = [] → put ≠ 0) →
      Adapts idle run k d buf put := by
  induction h with
  | @intro k d answers _ ih =>
    -- octets to write are one for the driver, and then the others
    have hstep : ∀ o buf put, buf.length + 1 ≤ k → Adapts idle run k d (o :: buf) put := by
      intro o buf put hk
      have h1 : [o].length ≤ k := le_trans (Nat.succ_le_succ (Nat.zero_le buf.length)) hk
      obtain ⟨rc, d₁, hrun, hp⟩ := answers [o] rfl h1
      have hcall : run d o = .ok (rc, d₁) := hrun
      have hnext := ih [o] _ _ rfl h1 hrun
      match rc, hp with
      | .error e, hp =>
        have he : sinkAdapt run put (o :: buf) d =
            .ok (if put = 0 then .error e else .ok put, d₁) := by
          simp only [sinkAdapt, hcall, ok_bind]
        exact .idles he hp (Adapts.ready fun buf hb hk => hnext buf 0 hk fun hz => absurd hz hb)
      | .ok 0, hp =>
        have he : sinkAdapt run put (o :: buf) d =
            .ok (if put = 0 then .error .eagain else .ok put, d₁) := by
          simp only [sinkAdapt, hcall, ok_bind]
        exact .idles he ⟨hp.2 rfl, .inr rfl⟩
          (Adapts.ready fun buf hb hk => hnext buf 0 hk fun hz => absurd hz hb)
      | .ok (m + 1), hp =>
        obtain rfl : m = 0 := Nat.le_zero.mp (Nat.le_of_succ_le_succ hp.1)
        obtain ⟨m, rc, d', he, hm, hp', hr⟩ := hnext buf (put + 1) (Nat.le_sub_of_add_le hk)
          fun _ => Nat.succ_ne_zero put
        refine ⟨m + 1, rc, d', by simp only [sinkAdapt, hcall, ok_bind, he], ?_, ?_, ?_⟩
        · rw [hm, Nat.add_assoc, Nat.add_comm 1]
        · rwa [List.length_cons, ← Nat.add_assoc, Nat.add_right_comm]
        · rwa [Nat.add_comm, ← Nat.sub_sub]
    intro buf put hk hput
    cases buf with
    | cons o buf => exact hstep o buf put hk
    | nil =>
      have hready : (SinkRun.octet run).chunked.Ready idle k d := Adapts.ready fun buf hb hk => by
        obtain ⟨o, buf, rfl⟩ := List.exists_cons_of_ne_nil hb
        exact hstep o buf 0 hk
      exact ⟨0, .ok put, d, rfl, rfl, ⟨le_refl _, fun hz => absurd hz (hput rfl)⟩, hready⟩

theorem Ready.chunked {run : SinkRun τ} (h : run.Ready idle k d) : run.chunked.Ready idle k d := by
  cases run with
  | octet run => exact Adapts.ready fun buf hb hk => h.adapts buf 0 hk fun hz => absurd hz hb
  | chunk run => exact h

theorem Passes.trans {run : SinkRun τ} {d₁ d' : τ} {l l' : List Octet} (h1 : run.Passes k d l d₁)
    (h2 : run.Passes (k - l.length) d₁ l' d') : run.Passes k d (l ++ l') d' := by
  induction h1 with
  | nil k d => exact h2
  | call hb hk hrun _ ih =>
    rw [List.append_assoc]
    refine .call hb hk hrun (ih ?_)
    rwa [Nat.sub_sub, ← List.length_append]

/-- A call of the adapter is some calls of its driver. -/
theorem Passes.adapted {run : τ → Octet → Exec (Rc × τ)} (buf : List Octet) :
    ∀ {put k : Nat} {rc : Rc} {d d' : τ}, buf.length ≤ k →
      sinkAdapt run put buf d = .ok (rc, d') →
      ∃ m, moved rc = put + m ∧ (SinkRun.octet run).Passes k d (buf.take m) d' := by
  induction buf with
  | nil =>
    intro put k rc d d' _ h
    cases h
    exact ⟨0, rfl, .nil k d⟩
  | cons o buf ih =>
    intro put k rc d d' hk h
    obtain ⟨⟨rc₁, d₁⟩, hrun, hrest⟩ := bind_eq_ok h
    have hask : (SinkRun.octet run).Asks [o] := rfl
    have h1 : [o].length ≤ k := le_trans (Nat.succ_le_succ (Nat.zero_le buf.length)) hk
    have hcall : (SinkRun.octet run).call d [o] = .ok (rc₁, d₁) := hrun
    match rc₁, hrest with
    | .error e, hrest =>
      cases hrest
      exact ⟨0, moved_stall e put, .call hask h1 hcall (.nil _ _)⟩
    | .ok 0, hrest =>
      cases hrest
      exact ⟨0, moved_stall .eagain put, .call hask h1 hcall (.nil _ _)⟩
    | .ok (n + 1), hrest =>
      obtain ⟨m, hm, hp⟩ := ih (Nat.le_sub_of_add_le hk) hrest
      refine ⟨m + 1, by rw [hm, Nat.add_assoc, Nat.add_comm 1], ?_⟩
      have htake : [o].take (moved (.ok (n + 1))) = [o] :=
        List.take_of_length_le (Nat.succ_le_succ (Nat.zero_le n))
      have hpass := Passes.call hask h1 hcall (by rw [htake]; exact hp)
      rwa [htake] at hpass

/-- A call `sink_write` makes is some calls of the driver. -/
theorem Passes.chunked (run : SinkRun τ) {buf : List Octet} (hb : buf ≠ []) (hk : buf.length ≤ k)
    {rc : Rc} {d' : τ} (h : run.chunked.call d buf = .ok (rc, d')) :
    run.Passes k d (buf.take (moved rc)) d' := by
  cases run with
  | octet run =>
    obtain ⟨m, hm, hp⟩ := Passes.adapted buf hk h
    rwa [hm, Nat.zero_add]
  | chunk run =>
    have hask : (SinkRun.chunk run).Asks buf := hb
    have hp := Passes.call hask hk h (.nil _ d')
    rwa [List.append_nil] at hp

end SinkRun

end Ufw
