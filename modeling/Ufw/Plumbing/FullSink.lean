/-
  File:      Ufw/Plumbing/FullSink.lean
  Subject:   PLUMBING into a sink of finite capacity (`sts_n`, for endpoints without the `getbuffer`
             extension): what happens once the sink is full, or the source empty.

  * `SourceRun.Supplies` -- a source with finitely or endlessly many octets, which reports any
    errors when it is empty; `Relents` -- not `-ENOMEM` for ever;
  * `SinkRun.Holds` -- a sink that answers `-ENOMEM` when it is full;
  * `Settles` -- `sts_n` returns, with `-ENOMEM` where the sink is too small, and has taken at most
    one octet more from the source than the sink accepted;
  * `settles_iff` -- **when it does**: after `-ENOMEM`, whoever reported it, `sts_n` goes on, and
    throws away what the source has left.
-/
import Ufw.Endpoints.Logs
import Ufw.Endpoints.Transfers
import Mathlib.Data.ENat.Basic

namespace Ufw

open Base

variable {σ τ : Type}

/-! ## 1. Endpoints -/

/-- **A driver with a supply of octets**, finite or endless: `Left d k` says that it has `k` of them
    left. Where it has none, it fails for ever, with any errors. -/
structure SourceRun.Supplies (Left : σ → ℕ∞ → Prop) (run : SourceRun σ) : Prop where
  octet : ∀ d k, Left d (k + 1) → ∃ o d', run.call d 1 = (.ok [o], d') ∧ Left d' k
  ends : ∀ d, Left d 0 → ∃ e d', run.call d 1 = (.error e, d') ∧ Left d' 0

/-- The driver after `i` calls for an octet. -/
def SourceRun.asked (run : SourceRun σ) (d : σ) (i : Nat) : σ := (fun d => (run.call d 1).2)^[i] d

/-- **Not `-ENOMEM` for ever**: asked again and again, the driver comes to report another error. -/
def SourceRun.Relents (run : SourceRun σ) (d : σ) : Prop :=
  ∃ i e, (run.call (run.asked d i) 1).1 = .error e ∧ e ≠ .enomem

/-- **A driver of finite capacity**: `Room d n` says that it can take `n` more octets. -/
structure SinkRun.Holds (Room : τ → Nat → Prop) (run : SinkRun τ) : Prop where
  octet : ∀ d n o, Room d (n + 1) → ∃ d', run.call d [o] = .ok (.ok 1, d') ∧ Room d' n
  full : ∀ d o, Room d 0 → ∃ d', run.call d [o] = .ok (.error .enomem, d') ∧ Room d' 0

/-- **`sts_n` settles** with a source that has `supply` octets and a sink with `room`: it returns,
    with `-ENOMEM` if the sink is too small for the `n` octets the source has, and has taken at most
    one octet that the sink did not accept. -/
def Settles (h : Host) (source : Source σ) (sink : Sink τ) (supply : ℕ∞) (room n : Nat) : Prop :=
  ∃ rc source' sink',
    Returns (fun fuel => stsN h fuel (source.logged []) (sink.logged []) n) (rc, source', sink') ∧
    (room < n → n ≤ supply → rc = .error .enomem) ∧
    source'.driver.2.length ≤ sink'.driver.2.length + 1

section Moves

variable {Left : σ → ℕ∞ → Prop} {Room : τ → Nat → Prop} {source : Source σ} {sink : Sink τ}
  {l l' : List Octet}

/-! ## 2. Octets -/

@[simp] theorem SourceRun.asked_zero (run : SourceRun σ) (d : σ) : run.asked d 0 = d := rfl

theorem SourceRun.asked_succ (run : SourceRun σ) (d : σ) (i : Nat) :
    run.asked d (i + 1) = run.asked (run.call d 1).2 i := Function.iterate_succ_apply _ i d

theorem SourceRun.asked_add (run : SourceRun σ) (d : σ) (i j : Nat) :
    run.asked d (i + j) = run.asked (run.asked d i) j := by
  rw [Nat.add_comm]
  exact Function.iterate_add_apply _ j i d

theorem SourceRun.asked_one {run : SourceRun σ} {d d' : σ} {rc : Except Errno (List Octet)}
    (hcall : run.call d 1 = (rc, d')) : run.asked d 1 = d' := congrArg Prod.snd hcall

/-- A driver relents with the error it reports, or later on. -/
theorem SourceRun.relents_iff {run : SourceRun σ} {d d' : σ} {e : Errno}
    (hcall : run.call d 1 = (.error e, d')) : run.Relents d ↔ e ≠ .enomem ∨ run.Relents d' := by
  constructor
  · rintro ⟨i, e', he, hne⟩
    cases i with
    | zero =>
      rw [run.asked_zero, hcall] at he
      exact .inl (Except.error.inj he ▸ hne)
    | succ i =>
      rw [run.asked_succ, hcall] at he
      exact .inr ⟨i, e', he, hne⟩
  · rintro (hne | ⟨i, e', he, hne⟩)
    · exact ⟨0, e, by rw [run.asked_zero, hcall], hne⟩
    · exact ⟨i + 1, e', by rw [run.asked_succ, hcall]; exact he, hne⟩

theorem SourceRun.Supplies.get (source : Source σ) (hs : source.run.Supplies Left) {k : ℕ∞}
    (hd : Left source.driver (k + 1)) (l : List Octet) : ∃ o,
      sourceGetOctet (source.logged l) = (.ok (some o),
        ({ source with driver := source.run.asked source.driver 1 } : Source σ).logged (l ++ [o])) ∧
      Left (source.run.asked source.driver 1) k := by
  obtain ⟨o, d', hcall, hd'⟩ := hs.octet _ k hd
  rw [SourceRun.asked_one hcall]
  refine ⟨o, ?_, hd'⟩
  rw [sourceGetOctet_logged, sourceGetOctet_eq, hcall]
  rfl

theorem SourceRun.Supplies.refuses (source : Source σ) (hs : source.run.Supplies Left)
    (hd : Left source.driver 0) (l : List Octet) : ∃ e d',
      source.run.call source.driver 1 = (.error e, d') ∧
      sourceGetOctet (source.logged l) =
        (.error e, ({ source with driver := d' } : Source σ).logged l) ∧ Left d' 0 := by
  obtain ⟨e, d', hcall, hd'⟩ := hs.ends _ hd
  refine ⟨e, d', hcall, ?_, hd'⟩
  rw [sourceGetOctet_logged, sourceGetOctet_eq, hcall]
  simp only [Except.map, octetOf, List.append_nil]

theorem SinkRun.Holds.put (hk : sink.run.Holds Room) {n : Nat} (hd : Room sink.driver (n + 1))
    (o : Octet) (l : List Octet) : ∃ d', sinkPutOctet (sink.logged l) o =
      .ok (.ok 1, ({ sink with driver := d' } : Sink τ).logged (l ++ [o])) ∧ Room d' n := by
  obtain ⟨d', hcall, hd'⟩ := hk.octet _ n o hd
  refine ⟨d', ?_, hd'⟩
  rw [sinkPutOctet_logged, sinkPutOctet_eq, hcall]
  rfl

theorem SinkRun.Holds.refuses (sink : Sink τ) (hk : sink.run.Holds Room)
    (hd : Room sink.driver 0) (o : Octet) (l : List Octet) : ∃ d', sinkPutOctet (sink.logged l) o =
      .ok (.error .enomem, ({ sink with driver := d' } : Sink τ).logged l) ∧ Room d' 0 := by
  obtain ⟨d', hcall, hd'⟩ := hk.full _ o hd
  refine ⟨d', ?_, hd'⟩
  rw [sinkPutOctet_logged, sinkPutOctet_eq, hcall]
  simp only [ok_bind, moved, List.take_zero, List.append_nil]

/-- A source hands out `j` octets, if it has them. -/
theorem SourceRun.Supplies.delivers (source : Source σ) (hs : source.run.Supplies Left) (j : Nat)
    {k : ℕ∞} (hd : Left source.driver (k + j)) (log : List Octet) : ∃ l, l.length = j ∧
      (source.logged log).Delivers l
        (({ source with driver := source.run.asked source.driver j } : Source σ).logged
          (log ++ l)) ∧
      Left (source.run.asked source.driver j) k := by
  induction j generalizing source log with
  | zero => exact ⟨[], rfl, by rw [List.append_nil]; exact .nil _, by simpa using hd⟩
  | succ j ih =>
    rw [Nat.cast_succ, ← add_assoc] at hd
    obtain ⟨o, hget, hd₁⟩ := hs.get source hd log
    obtain ⟨l, hlen, hdel, hd'⟩ := ih { source with driver := source.run.asked source.driver 1 } hs
      hd₁ (log ++ [o])
    rw [Nat.add_comm j 1, source.run.asked_add]
    rw [List.append_assoc] at hdel
    exact ⟨o :: l, by rw [List.length_cons, hlen, Nat.add_comm], .cons hget hdel, hd'⟩

/-- A sink takes octets, if it has room for them. -/
theorem SinkRun.Holds.takes (sink : Sink τ) (hk : sink.run.Holds Room) (l : List Octet) {n : Nat}
    (hd : Room sink.driver (n + l.length)) (log : List Octet) : ∃ d',
      (sink.logged log).Takes l (({ sink with driver := d' } : Sink τ).logged (log ++ l)) ∧
      Room d' n := by
  induction l generalizing sink log with
  | nil => exact ⟨sink.driver, by rw [List.append_nil]; exact .nil _, hd⟩
  | cons o l ih =>
    obtain ⟨d₁, hput, hd₁⟩ := hk.put (n := n + l.length) hd o log
    obtain ⟨d', ht, hd'⟩ := ih { sink with driver := d₁ } hk hd₁ (log ++ [o])
    rw [List.append_assoc] at ht
    exact ⟨d', .cons hput ht, hd'⟩

/-! ## 3. Passes -/

/-- What the first round of a pass ends the pass with. -/
theorem stsAtmost_ends {h : Host} {source source' : Source σ} {sink sink' : Sink τ} {e : Errno}
    {rest : Nat} (hrest : 0 < rest)
    (hround : stsCbc h source sink = .ok (.error e, source', sink')) :
    stsAtmost h source sink rest = .ok (.error e, source', sink') := by
  obtain ⟨rest, rfl⟩ : ∃ m, rest = m + 1 := ⟨rest - 1, (Nat.succ_pred_eq_of_pos hrest).symm⟩
  rw [stsAtmost, if_neg (Nat.succ_ne_zero rest), stsAtmostCbc, stsAtmostCbcLoop, hround]
  rfl

/-- A pass that moves `l`, and then comes to a round that fails. -/
theorem stsNLoop_moves {h : Host} {source source₁ source' : Source σ} {sink sink₁ sink' : Sink τ}
    {l : List Octet} (hs : source.Delivers l source₁) (hk : sink.Takes l sink₁) {e : Errno}
    (hround : stsCbc h source₁ sink₁ = .ok (.error e, source', sink')) {rest : Nat}
    (hrest : l.length < rest) (he : l = [] → e = .enomem) (n fuel : Nat) :
    stsNLoop h n (fuel + 1) rest source sink =
      stsNLoop h n fuel (rest - l.length) source' sink' := by
  obtain ⟨left, rfl⟩ : ∃ left, rest = l.length + (left + 1) := ⟨rest - l.length - 1, by omega⟩
  have hpass : stsAtmost h source sink (l.length + (left + 1)) =
      .ok (if l.length = 0 then .error e else .ok l.length, source', sink') := by
    rw [stsAtmost, if_neg (by omega), stsAtmostCbc, stsAtmostCbcLoop_delivers h hs hk,
      stsAtmostCbcLoop, hround]
    simp only [ok_bind, Nat.zero_add]
  rw [stsNLoop, if_neg (by omega), hpass]
  by_cases hl : l = []
  · obtain rfl := he hl
    subst hl
    rfl
  · rw [if_neg fun h0 => hl (List.length_eq_zero_iff.mp h0)]
    rfl

/-- A pass with an empty source: it ends the loop, unless the source reports `-ENOMEM`. -/
theorem stsNLoop_refused (h : Host) (hs : source.run.Supplies Left) {d : σ} (hd : Left d 0)
    {rest : Nat} (hrest : 0 < rest) (n : Nat) (l : List Octet) (sink : Sink τ) : ∃ e d',
      source.run.call d 1 = (.error e, d') ∧ Left d' 0 ∧ ∀ fuel,
      stsNLoop h n (fuel + 1) rest (({ source with driver := d } : Source σ).logged l) sink =
        if e = .enomem then
          stsNLoop h n fuel rest (({ source with driver := d' } : Source σ).logged l) sink
        else .ok (.error e, ({ source with driver := d' } : Source σ).logged l, sink) := by
  obtain ⟨e, d', hcall, hget, hd'⟩ := SourceRun.Supplies.refuses { source with driver := d } hs hd l
  refine ⟨e, d', hcall, hd', fun fuel => ?_⟩
  rw [stsNLoop, if_neg hrest.ne', stsAtmost_ends hrest (by rw [stsCbc, hget])]
  cases e <;> rfl

/-- **An empty source ends `sts_n` with its first error that is not `-ENOMEM`.** -/
theorem stsNLoop_ended (h : Host) (hs : source.run.Supplies Left) {d : σ} (hd : Left d 0)
    (hr : source.run.Relents d) {rest : Nat} (hrest : 0 < rest) (n : Nat) (l : List Octet)
    (sink : Sink τ) : ∃ e d', e ≠ .enomem ∧ Returns (fun fuel =>
        stsNLoop h n fuel rest (({ source with driver := d } : Source σ).logged l) sink)
      (.error e, ({ source with driver := d' } : Source σ).logged l, sink) := by
  obtain ⟨i, e, he, hne⟩ := hr
  induction i generalizing d with
  | zero =>
    obtain ⟨e', d', hcall, -, hpass⟩ := stsNLoop_refused h hs hd hrest n l sink
    rw [source.run.asked_zero, hcall] at he
    obtain rfl := Except.error.inj he
    exact ⟨e', d', hne, Returns.of_succ fun fuel => by rw [hpass, if_neg hne]⟩
  | succ i ih =>
    obtain ⟨e', d', hcall, hd', hpass⟩ := stsNLoop_refused h hs hd hrest n l sink
    by_cases he' : e' = .enomem
    · rw [source.run.asked_succ, hcall] at he
      obtain ⟨e'', d'', hne', hret⟩ := ih hd' he
      exact ⟨e'', d'', hne', hret.step fun fuel => by rw [hpass, if_pos he']⟩
    · exact ⟨e', d', he', Returns.of_succ fun fuel => by rw [hpass, if_neg he']⟩

/-- **An empty source that reports `-ENOMEM` for ever**: the loop does not end. -/
theorem stsNLoop_starves (h : Host) (hs : source.run.Supplies Left) {d : σ} (hd : Left d 0)
    (hr : ¬ source.run.Relents d) {rest : Nat} (hrest : 0 < rest) (n : Nat) (l : List Octet)
    (sink : Sink τ) : Diverges fun fuel =>
      stsNLoop h n fuel rest (({ source with driver := d } : Source σ).logged l) sink := by
  refine Diverges.of_progress
    (f := fun d fuel => stsNLoop h n fuel rest
      (({ source with driver := d } : Source σ).logged l) sink)
    (I := fun d => Left d 0 ∧ ¬ source.run.Relents d) (fun _ => rfl) ?_ ⟨hd, hr⟩
  rintro d ⟨hd, hr⟩
  obtain ⟨e, d', hcall, hd', hpass⟩ := stsNLoop_refused h hs hd hrest n l sink
  obtain ⟨he, hr'⟩ := not_or.mp fun hlater => hr ((SourceRun.relents_iff hcall).mpr hlater)
  exact ⟨d', ⟨hd', hr'⟩, fun fuel => by rw [hpass, if_pos (not_not.mp he)]⟩

/-- **Where the sink is full, a pass throws an octet away.** -/
theorem stsNLoop_drops (h : Host) (source : Source σ) (sink : Sink τ)
    (hs : source.run.Supplies Left) (hk : sink.run.Holds Room) {k : ℕ∞}
    (hd : Left source.driver (k + 1)) (hd' : Room sink.driver 0) {rest : Nat} (hrest : 0 < rest)
    (n : Nat) (l l' : List Octet) : ∃ o d₁', Left (source.run.asked source.driver 1) k ∧
      Room d₁' 0 ∧ ∀ fuel,
      stsNLoop h n (fuel + 1) rest (source.logged l) (sink.logged l') =
        stsNLoop h n fuel rest
          (({ source with driver := source.run.asked source.driver 1 } : Source σ).logged
            (l ++ [o]))
          (({ sink with driver := d₁' } : Sink τ).logged l') := by
  obtain ⟨o, hget, hd₁⟩ := hs.get source hd l
  obtain ⟨d₁', hput, hd₁'⟩ := hk.refuses sink hd' o l'
  refine ⟨o, d₁', hd₁, hd₁', fun fuel => ?_⟩
  have hround : stsCbc h (source.logged l) (sink.logged l') = .ok (.error .enomem,
      ({ source with driver := source.run.asked source.driver 1 } : Source σ).logged (l ++ [o]),
      ({ sink with driver := d₁' } : Sink τ).logged l') := by
    simp only [stsCbc, hget, Option.getD_some, hput, ok_bind]
  exact stsNLoop_moves (.nil _) (.nil _) hround hrest (fun _ => rfl) n fuel

/-- A finite source is emptied into a full sink. -/
theorem stsNLoop_drains (h : Host) (m : Nat) {rest : Nat} (hrest : 0 < rest) (n : Nat) :
    ∀ (source : Source σ) (sink : Sink τ) (l l' : List Octet), source.run.Supplies Left →
    sink.run.Holds Room → Left source.driver m → Room sink.driver 0 →
    ∃ l₁ d₁', l₁.length = l.length + m ∧ Left (source.run.asked source.driver m) 0 ∧ ∀ fuel,
      stsNLoop h n (fuel + m) rest (source.logged l) (sink.logged l') =
        stsNLoop h n fuel rest
          (({ source with driver := source.run.asked source.driver m } : Source σ).logged l₁)
          (({ sink with driver := d₁' } : Sink τ).logged l') := by
  induction m with
  | zero => exact fun source sink l l' _ _ hd _ => ⟨l, sink.driver, rfl, hd, fun _ => rfl⟩
  | succ m ih =>
    intro source sink l l' hs hk hd hd'
    rw [Nat.cast_succ] at hd
    obtain ⟨o, d₁', hd₁, hd₁', hstep⟩ := stsNLoop_drops h source sink hs hk hd hd' hrest n l l'
    obtain ⟨l₁, d₂', hlen, hd₂, hsteps⟩ := ih
      { source with driver := source.run.asked source.driver 1 } { sink with driver := d₁' }
      (l ++ [o]) l' hs hk hd₁ hd₁'
    rw [Nat.add_comm m 1, source.run.asked_add]
    refine ⟨l₁, d₂', ?_, hd₂, fun fuel => ?_⟩
    · rw [hlen, List.length_append, List.length_singleton, Nat.add_assoc]
    · rw [Nat.add_comm 1 m, ← Nat.add_assoc, hstep, hsteps]

/-- **An endless source is never emptied**: the loop does not end. -/
theorem stsNLoop_diverges (h : Host) (source : Source σ) (sink : Sink τ)
    (hs : source.run.Supplies Left) (hk : sink.run.Holds Room) (hd : Left source.driver ⊤)
    (hd' : Room sink.driver 0) {rest : Nat} (hrest : 0 < rest) (n : Nat) (l l' : List Octet) :
    Diverges fun fuel => stsNLoop h n fuel rest (source.logged l) (sink.logged l') := by
  refine Diverges.of_progress (ι := σ × τ × List Octet)
    (f := fun i fuel => stsNLoop h n fuel rest
      (({ source with driver := i.1 } : Source σ).logged i.2.2)
      (({ sink with driver := i.2.1 } : Sink τ).logged l'))
    (I := fun i => Left i.1 ⊤ ∧ Room i.2.1 0) (fun _ => rfl) ?_
    (i := (source.driver, sink.driver, l)) ⟨hd, hd'⟩
  rintro ⟨d, d', l⟩ ⟨hd, hd'⟩
  obtain ⟨o, d₁', hd₁, hd₁', hstep⟩ := stsNLoop_drops h { source with driver := d }
    { sink with driver := d' } (k := ⊤) hs hk hd hd' hrest n l l'
  exact ⟨(_, d₁', l ++ [o]), ⟨hd₁, hd₁'⟩, hstep⟩

/-! ## 4. When it settles -/

/-- Where the source and the sink last for `n` octets, these are moved. -/
theorem Settles.of_room (h : Host) (hs : source.run.Supplies Left) (hk : sink.run.Holds Room)
    {supply : ℕ∞} {room n : Nat} (hd : Left source.driver supply) (hd' : Room sink.driver room)
    (hn : n ≤ room) (hsupply : n ≤ supply) : Settles h source sink supply room n := by
  obtain ⟨k, rfl⟩ := le_iff_exists_add'.mp hsupply
  obtain ⟨m, rfl⟩ := Nat.exists_eq_add_of_le' hn
  obtain ⟨l, rfl, hdel, -⟩ := hs.delivers source n hd []
  obtain ⟨d₁', ht, -⟩ := hk.takes sink l hd' []
  exact ⟨_, _, _, stsN_delivers h hdel ht, fun hlt => absurd hn (Nat.not_le.mpr hlt),
    Nat.le_succ _⟩

/-- **Where the source is empty, its errors decide**: the call returns if they are not `-ENOMEM` for
    ever, and then with another one. -/
theorem settles_emptied_iff (h : Host) (hs : source.run.Supplies Left) {d : σ} (hd : Left d 0)
    {rest : Nat} (hrest : 0 < rest) {l l' : List Octet} {d' : τ} {passes n : Nat}
    (hstep : ∀ fuel, stsN h (fuel + passes) (source.logged []) (sink.logged []) n =
      stsNLoop h n fuel rest (({ source with driver := d } : Source σ).logged l)
        (({ sink with driver := d' } : Sink τ).logged l')) (supply : ℕ∞) (room : Nat) :
    Settles h source sink supply room n ↔
      source.run.Relents d ∧ ¬ (room < n ∧ n ≤ supply) ∧ l.length ≤ l'.length + 1 := by
  have hreturns := fun r => Returns.shift_iff (r := r)
    (f := fun fuel => stsN h fuel (source.logged []) (sink.logged []) n) hstep
  by_cases hr : source.run.Relents d
  · obtain ⟨e, d₁, hne, hret⟩ := stsNLoop_ended h hs hd hr hrest n l
      (({ sink with driver := d' } : Sink τ).logged l')
    have hcall := (hreturns _).mpr hret
    constructor
    · rintro ⟨rc, source', sink', hret', hmem, hone⟩
      cases hcall.unique hret'
      exact ⟨hr, fun hc => hne (Except.error.inj (hmem hc.1 hc.2)), hone⟩
    · rintro ⟨-, hshort, hone⟩
      exact ⟨_, _, _, hcall, fun hlt hle => absurd ⟨hlt, hle⟩ hshort, hone⟩
  · refine ⟨fun hset => ?_, fun hc => absurd hc.1 hr⟩
    obtain ⟨rc, source', sink', hret, -⟩ := hset
    exact absurd ((hreturns _).mp hret)
      ((stsNLoop_starves h hs hd hr hrest n l _).not_returns _)

/-- Where the source ends before the sink is full, it is emptied in one pass. The answer that ends
    this pass does not count. -/
theorem settles_short_iff (h : Host) (hs : source.run.Supplies Left) (hk : sink.run.Holds Room)
    {m room n : Nat} (hd : Left source.driver m) (hd' : Room sink.driver room) (hm : m < n)
    (hroom : m ≤ room) : Settles h source sink m room n ↔
      source.run.Relents (source.run.asked source.driver (if m = 0 then 0 else m + 1)) := by
  obtain ⟨k, rfl⟩ := Nat.exists_eq_add_of_le' hroom
  have hshort : ¬ (k + m < n ∧ (n : ℕ∞) ≤ m) := fun hc =>
    absurd hc.2 (by exact_mod_cast Nat.not_le.mpr hm)
  by_cases h0 : m = 0
  · subst h0
    have hstep : ∀ fuel, stsN h (fuel + 0) (source.logged []) (sink.logged []) n =
        stsNLoop h n fuel n (source.logged []) (sink.logged []) := fun _ => rfl
    rw [settles_emptied_iff h hs hd hm hstep, if_pos rfl]
    exact ⟨And.left, fun hr => ⟨hr, hshort, Nat.zero_le _⟩⟩
  · rw [← zero_add (m : ℕ∞)] at hd
    obtain ⟨l, hlen, hdel, hd₁⟩ := hs.delivers source m hd []
    subst hlen
    obtain ⟨d₁', ht, -⟩ := hk.takes sink l hd' []
    obtain ⟨e, d₂, hcall, hget, hd₂⟩ := SourceRun.Supplies.refuses
      { source with driver := source.run.asked source.driver l.length } hs hd₁ ([] ++ l)
    have hpass : ∀ fuel, stsN h (fuel + 1) (source.logged []) (sink.logged []) n =
        stsNLoop h n fuel (n - l.length)
        (({ source with driver := d₂ } : Source σ).logged ([] ++ l))
          (({ sink with driver := d₁' } : Sink τ).logged ([] ++ l)) := fun fuel =>
      stsNLoop_moves hdel ht (by rw [stsCbc, hget]) hm
        (fun hnil => absurd (List.length_eq_zero_iff.mpr hnil) h0) n fuel
    rw [settles_emptied_iff h hs hd₂ (Nat.sub_pos_of_lt hm) hpass, if_neg h0, source.run.asked_add,
      SourceRun.asked_one hcall]
    exact ⟨And.left, fun hr => ⟨hr, hshort, Nat.le_succ _⟩⟩

/-- Where the source has more than the sink can take, the sink is filled, and one octet thrown
    away. -/
theorem stsN_fills (h : Host) (hs : source.run.Supplies Left) (hk : sink.run.Holds Room) {k : ℕ∞}
    {room n : Nat} (hd : Left source.driver (k + 1 + room)) (hd' : Room sink.driver room)
    (hn : room < n) : ∃ l l' d₁', l.length = room + 1 ∧ l'.length = room ∧
      Left (source.run.asked source.driver (room + 1)) k ∧ Room d₁' 0 ∧ ∀ fuel,
      stsN h (fuel + 1) (source.logged []) (sink.logged []) n = stsNLoop h n fuel (n - room)
        (({ source with driver := source.run.asked source.driver (room + 1) } : Source σ).logged l)
        (({ sink with driver := d₁' } : Sink τ).logged l') := by
  obtain ⟨l, rfl, hdel, hd₁⟩ := hs.delivers source room hd []
  rw [← Nat.zero_add l.length] at hd'
  obtain ⟨d₁', ht, hd₁'⟩ := hk.takes sink l hd' []
  obtain ⟨o, hget, hd₂⟩ := SourceRun.Supplies.get
    { source with driver := source.run.asked source.driver l.length } hs hd₁ ([] ++ l)
  obtain ⟨d₂', hput, hd₂'⟩ := SinkRun.Holds.refuses { sink with driver := d₁' } hk hd₁' o ([] ++ l)
  rw [source.run.asked_add]
  refine ⟨[] ++ l ++ [o], [] ++ l, d₂', List.length_append, rfl, hd₂, hd₂', fun fuel => ?_⟩
  refine stsNLoop_moves hdel ht ?_ hn (fun _ => rfl) n fuel
  simp only [stsCbc, hget, Option.getD_some, hput, ok_bind]

/-- An endless source is thrown away for ever. -/
theorem not_settles_endless (h : Host) (hs : source.run.Supplies Left) (hk : sink.run.Holds Room)
    {room n : Nat} (hd : Left source.driver ⊤) (hd' : Room sink.driver room) (hn : room < n) :
    ¬ Settles h source sink ⊤ room n := by
  obtain ⟨l, l', d₁', -, -, hd₁, hd₁', hstep⟩ := stsN_fills (k := ⊤) h hs hk
    (by rwa [top_add, top_add]) hd' hn
  rintro ⟨rc, source', sink', hret, -⟩
  have hdiv := stsNLoop_diverges h
    { source with driver := source.run.asked source.driver (room + 1) } { sink with driver := d₁' }
    hs hk hd₁ hd₁' (Nat.sub_pos_of_lt hn) n l l'
  exact (hdiv.step rfl hstep).not_returns _ hret

/-- A finite one is thrown away to its end. -/
theorem settles_drained_iff (h : Host) (hs : source.run.Supplies Left) (hk : sink.run.Holds Room)
    {m room n : Nat} (hd : Left source.driver ↑(room + 1 + m)) (hd' : Room sink.driver room)
    (hn : room < n) : Settles h source sink ↑(room + 1 + m) room n ↔
      m = 0 ∧ room + 1 < n ∧ source.run.Relents (source.run.asked source.driver (room + 1)) := by
  obtain ⟨l, l', d₁', hl, hl', hd₁, hd₁', hstep⟩ := stsN_fills (k := m) h hs hk
    (by rwa [add_assoc, add_comm, ← Nat.cast_one, ← Nat.cast_add, ← Nat.cast_add,
      Nat.add_comm 1 room]) hd' hn
  obtain ⟨l₂, d₂', hl₂, hd₂, hsteps⟩ := stsNLoop_drains h m (Nat.sub_pos_of_lt hn) n
    { source with driver := source.run.asked source.driver (room + 1) } { sink with driver := d₁' }
    l l' hs hk hd₁ hd₁'
  have hall :
      ∀ fuel, stsN h (fuel + (m + 1)) (source.logged []) (sink.logged []) n = _ := fun fuel =>
    (hstep (fuel + m)).trans (hsteps fuel)
  rw [settles_emptied_iff h hs hd₂ (Nat.sub_pos_of_lt hn) hall, hl₂, hl, hl', Nat.cast_le]
  constructor
  · rintro ⟨hr, hlt, hone⟩
    obtain rfl : m = 0 := by omega
    exact ⟨rfl, by omega, hr⟩
  · rintro ⟨rfl, hlt, hr⟩
    exact ⟨hr, by omega, by omega⟩

end Moves

/-! ## 5. Sources and a sink -/

/-- A source that hands out zeros for ever. -/
def zeroSource : Source Unit where
  run := .octet fun _ => (.ok (some 0), ())
  retry := epRetryInit
  driver := ()

/-- A source of so many zeros, which is out of memory once, and out of data then. -/
def zerosSource (supply : Nat) : Source (Nat × Bool) where
  run := .octet fun
    | (0, true) => (.error .enomem, (0, false))
    | (0, false) => (.error .enodata, (0, false))
    | (supply + 1, fresh) => (.ok (some 0), (supply, fresh))
  retry := epRetryInit
  driver := (supply, true)

/-- A sink with room for so many octets. -/
def smallSink (room : Nat) : Sink Nat where
  run := .octet fun
    | 0, _ => .ok (.error .enomem, 0)
    | room + 1, _ => .ok (.ok 1, room)
  retry := epRetryInit
  driver := room

theorem zeroSource_supplies : zeroSource.run.Supplies fun _ k => k = ⊤ where
  octet := fun _ k hk => ⟨0, (), rfl, by
    cases k with
    | top => rfl
    | coe m => exact absurd hk (by exact_mod_cast ENat.natCast_ne_top (m + 1))⟩
  ends := fun _ hk => absurd hk.symm ENat.top_ne_zero

theorem zerosSource_supplies (supply : Nat) :
    (zerosSource supply).run.Supplies fun d k => k = d.1 where
  octet := fun d k hk => by
    obtain ⟨_ | m, fresh⟩ := d
    · exact absurd hk (by simp)
    · rw [Nat.cast_succ] at hk
      exact ⟨0, (m, fresh), rfl, ENat.add_left_injective_of_ne_top ENat.one_ne_top hk⟩
  ends := fun d hk => by
    obtain ⟨m, fresh⟩ := d
    obtain rfl : 0 = m := by exact_mod_cast hk
    cases fresh with
    | true => exact ⟨.enomem, (0, false), rfl, rfl⟩
    | false => exact ⟨.enodata, (0, false), rfl, rfl⟩

theorem smallSink_holds (room : Nat) : (smallSink room).run.Holds fun d n => d = n where
  octet := fun d n o hd => ⟨n, by subst hd; rfl, rfl⟩
  full := fun d o hd => ⟨0, by subst hd; rfl, rfl⟩

end Ufw
