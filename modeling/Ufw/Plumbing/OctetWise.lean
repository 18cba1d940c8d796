/-
  File:      Ufw/Plumbing/OctetWise.lean
  Subject:   PLUMBING, octet by octet (`sts_cbc`, `sts_n_cbc`, `sts_atmost_cbc`): what the sink
             takes against what the source hands out.

  * `stsNCbc` -- the function of the source; the others are in Endpoints.lean;
  * `Conserves`, `MovesAll` -- at every return the sink has taken what the source has handed out,
    and a return of `n` means that this was `n` octets;
  * `Paired` -- round by round, the drivers move an octet both or move none both;
  * `conserves_iff` -- **octets are conserved exactly where the drivers are paired**: an octet the
    sink does not take is lost, and where a source has none for now, the sink is given whatever
    stands in an uninitialised variable.
-/
import Ufw.Endpoints.Logs
import Ufw.Endpoints.Transfers

namespace Ufw

open Base

variable {σ τ : Type}

/-! ## 1. The code -/

/-- The loop of `sts_n_cbc`: `left` rounds to go. -/
def stsNCbcLoop (h : Host) :
    Nat → Source σ → Sink τ → Exec (Option Errno × Source σ × Sink τ)
  | 0, source, sink => .ok (none, source, sink)
  | left + 1, source, sink => do
    match ← stsCbc h source sink with
    | (.error e, source, sink) => .ok (some e, source, sink)
    | (.ok _, source, sink) => stsNCbcLoop h left source sink

/-- `sts_n_cbc` -/
def stsNCbc (h : Host) (source : Source σ) (sink : Sink τ) (n : Nat) :
    Exec (Rc × Source σ × Sink τ) := do
  let (error, source, sink) ← stsNCbcLoop h n source sink
  .ok (error.elim (.ok n) .error, source, sink)

/-! ## 2. Conservation -/

/-- What a call on endpoints with logs returns. -/
abbrev LoggedRc (σ τ : Type) := Rc × Source (σ × List Octet) × Sink (τ × List Octet)

/-- **At a return the sink has taken the octets the source has handed out**, in order. -/
def Conserves (x : Exec (LoggedRc σ τ)) : Prop :=
  ∀ r, x = .ok r → r.2.2.driver.2 = r.2.1.driver.2

/-- Octets are conserved, and where `n` is returned it was `n` octets that were moved. -/
def MovesAll (n : Nat) (x : Exec (LoggedRc σ τ)) : Prop :=
  Conserves x ∧ ∀ r, x = .ok r → r.1 = .ok n → r.2.2.driver.2.length = n

/-- **The drivers are paired for `k` rounds**, up to the first one that fails: the sink takes what
    it is given if the source handed out an octet, and takes nothing if it did not. Where drivers
    may be `idle`, a round may move nothing. -/
def Paired (h : Host) (idle : Prop) : Nat → Source σ → Sink τ → Prop
  | 0, _, _ => True
  | k + 1, source, sink =>
    match sourceGetOctet source with
    | (.error _, _) => True
    | (.ok buf, source) =>
      match sinkPutOctet sink (buf.getD h.indeterminate) with
      | .error _ => True
      | .ok (.ok (_ + 1), sink) => buf.isSome ∧ Paired h idle k source sink
      | .ok (.ok 0, _) => buf = none ∧ idle
      | .ok (.error _, _) => buf = none

theorem Paired.mono {h : Host} {idle : Prop} {j k : Nat} (hjk : j ≤ k) {source : Source σ}
    {sink : Sink τ} (hp : Paired h idle k source sink) : Paired h idle j source sink := by
  induction k generalizing j source sink with
  | zero =>
    obtain rfl := Nat.le_zero.mp hjk
    exact hp
  | succ k ih =>
    cases j with
    | zero => trivial
    | succ j =>
      rcases hget : sourceGetOctet source with ⟨e | buf, source₁⟩
      · simp only [Paired, hget]
      · rcases hput : sinkPutOctet sink (buf.getD h.indeterminate) with halt | ⟨rc, sink₁⟩
        · simp only [Paired, hget, hput]
        · simp only [Paired, hget, hput] at hp ⊢
          match rc, hp with
          | .error e, hp => exact hp
          | .ok 0, hp => exact hp
          | .ok (m + 1), hp => exact ⟨hp.1, ih (Nat.le_of_succ_le_succ hjk) hp.2⟩

/-! ## 3. A round -/

section Round

variable {h : Host} {source source₁ : Source σ} {sink sink₁ : Sink τ} {buf : Option Octet}

theorem stsCbc_refused {e : Errno} (hget : sourceGetOctet source = (.error e, source₁))
    (l l' : List Octet) : stsCbc h (source.logged l) (sink.logged l') =
      .ok (.error e, source₁.logged l, sink.logged l') := by
  simp only [stsCbc, sourceGetOctet_logged, hget, octetOf, List.append_nil]

theorem stsCbc_halted {halt : Halt} (hget : sourceGetOctet source = (.ok buf, source₁))
    (hput : sinkPutOctet sink (buf.getD h.indeterminate) = .error halt) (l l' : List Octet) :
    stsCbc h (source.logged l) (sink.logged l') = .error halt := by
  simp only [stsCbc, sourceGetOctet_logged, hget, sinkPutOctet_logged, hput, error_bind]

theorem stsCbc_put {rc : Rc} (hget : sourceGetOctet source = (.ok buf, source₁))
    (hput : sinkPutOctet sink (buf.getD h.indeterminate) = .ok (rc, sink₁)) (l l' : List Octet) :
    stsCbc h (source.logged l) (sink.logged l') = .ok (rc, source₁.logged (l ++ buf.toList),
      sink₁.logged (l' ++ [buf.getD h.indeterminate].take (moved rc))) := by
  simp only [stsCbc, sourceGetOctet_logged, hget, sinkPutOctet_logged, hput, ok_bind, octetOf]

/-- A round that moves an octet. -/
theorem stsCbc_moved {o : Octet} {m : Nat} (hget : sourceGetOctet source = (.ok (some o), source₁))
    (hput : sinkPutOctet sink o = .ok (.ok (m + 1), sink₁)) (l l' : List Octet) :
    stsCbc h (source.logged l) (sink.logged l') =
      .ok (.ok (m + 1), source₁.logged (l ++ [o]), sink₁.logged (l' ++ [o])) := by
  have htake : [o].take (moved (.ok (m + 1))) = [o] :=
    List.take_of_length_le (Nat.succ_le_succ (Nat.zero_le m))
  have hround := stsCbc_put (h := h) hget hput l l'
  rwa [Option.getD_some, htake] at hround

/-- What the sink took is what the source handed out if both moved an octet or none did. -/
theorem round_conserves_iff (buf : Option Octet) (o : Octet) (rc : Rc) (l : List Octet) :
    l ++ [buf.getD o].take (moved rc) = l ++ buf.toList ↔ (buf.isSome ↔ moved rc ≠ 0) := by
  rw [List.append_cancel_left_eq]
  cases buf with
  | none => cases moved rc <;> simp
  | some o => cases moved rc <;> simp

end Round

/-! ## 4. Runs -/

section Runs

variable (h : Host)

/-- Rounds of paired drivers keep the logs equal. -/
theorem stsNCbcLoop_paired (k : Nat) : ∀ {source : Source σ} {sink : Sink τ} (l : List Octet)
    {r : Option Errno × Source (σ × List Octet) × Sink (τ × List Octet)},
    Paired h False k source sink → stsNCbcLoop h k (source.logged l) (sink.logged l) = .ok r →
    r.2.2.driver.2 = r.2.1.driver.2 ∧ (r.1 = none → r.2.2.driver.2.length = l.length + k) := by
  induction k with
  | zero =>
    intro source sink l r _ hr
    cases hr
    exact ⟨rfl, fun _ => rfl⟩
  | succ k ih =>
    intro source sink l r hp hr
    rw [stsNCbcLoop] at hr
    rcases hget : sourceGetOctet source with ⟨e | buf, source₁⟩
    · rw [stsCbc_refused hget] at hr
      cases hr
      exact ⟨rfl, fun hnone => nomatch hnone⟩
    · rcases hput : sinkPutOctet sink (buf.getD h.indeterminate) with halt | ⟨rc, sink₁⟩
      · rw [stsCbc_halted hget hput] at hr
        cases hr
      · simp only [Paired, hget, hput] at hp
        match rc, hp with
        | .error e, hp =>
          rw [stsCbc_put hget hput] at hr
          cases hr
          exact ⟨(round_conserves_iff _ _ _ _).mpr (by simp [hp, moved]), fun hn => nomatch hn⟩
        | .ok 0, hp => exact hp.2.elim
        | .ok (m + 1), hp =>
          obtain ⟨o, rfl⟩ := Option.isSome_iff_exists.mp hp.1
          rw [stsCbc_moved hget hput] at hr
          have hnext := ih (l ++ [o]) hp.2 hr
          rwa [List.length_append, List.length_singleton, Nat.add_assoc, Nat.add_comm 1] at hnext

theorem stsAtmostCbcLoop_paired (k : Nat) : ∀ {source : Source σ} {sink : Sink τ} (i : Nat)
    (l : List Octet) {r : LoggedRc σ τ},
    Paired h True k source sink → stsAtmostCbcLoop h k i (source.logged l) (sink.logged l) = .ok r →
    r.2.2.driver.2 = r.2.1.driver.2 := by
  induction k with
  | zero =>
    intro source sink i l r _ hr
    cases hr
    rfl
  | succ k ih =>
    intro source sink i l r hp hr
    rw [stsAtmostCbcLoop] at hr
    rcases hget : sourceGetOctet source with ⟨e | buf, source₁⟩
    · rw [stsCbc_refused hget] at hr
      cases hr
      rfl
    · rcases hput : sinkPutOctet sink (buf.getD h.indeterminate) with halt | ⟨rc, sink₁⟩
      · rw [stsCbc_halted hget hput] at hr
        cases hr
      · simp only [Paired, hget, hput] at hp
        rcases rc with e | (_ | m)
        · rw [stsCbc_put hget hput] at hr
          cases hr
          exact (round_conserves_iff _ _ _ _).mpr (by simp [hp, moved])
        · rw [stsCbc_put hget hput] at hr
          cases hr
          exact (round_conserves_iff _ _ _ _).mpr (by simp [hp.1, moved])
        · obtain ⟨o, rfl⟩ := Option.isSome_iff_exists.mp hp.1
          rw [stsCbc_moved hget hput] at hr
          exact ih (i + 1) (l ++ [o]) hp.2 hr

/-- Where runs of every length up to `k` keep the logs equal, the drivers are paired. -/
theorem paired_of_stsNCbcLoop (k : Nat) : ∀ {source : Source σ} {sink : Sink τ} (l : List Octet),
    (∀ j ≤ k, ∀ r, stsNCbcLoop h j (source.logged l) (sink.logged l) = .ok r →
      r.2.2.driver.2 = r.2.1.driver.2 ∧ (r.1 = none → r.2.2.driver.2.length = l.length + j)) →
    Paired h False k source sink := by
  induction k with
  | zero => exact fun _ _ => trivial
  | succ k ih =>
    intro source sink l hall
    have hone := hall 1 (Nat.succ_le_succ (Nat.zero_le k))
    rcases hget : sourceGetOctet source with ⟨e | buf, source₁⟩
    · simp only [Paired, hget]
    · rcases hput : sinkPutOctet sink (buf.getD h.indeterminate) with halt | ⟨rc, sink₁⟩
      · simp only [Paired, hget, hput]
      · simp only [Paired, hget, hput]
        simp only [stsNCbcLoop, stsCbc_put hget hput, ok_bind] at hone
        match rc with
        | .error e =>
          have heq := (round_conserves_iff _ _ _ _).mp (hone _ rfl).1
          exact Option.not_isSome_iff_eq_none.mp fun hs => heq.mp hs rfl
        | .ok 0 =>
          have hlen := (hone _ rfl).2 rfl
          simp [moved] at hlen
        | .ok (m + 1) =>
          have heq := (round_conserves_iff _ _ _ _).mp (hone _ rfl).1
          have hs := heq.mpr (Nat.succ_ne_zero m)
          obtain ⟨o, rfl⟩ := Option.isSome_iff_exists.mp hs
          refine ⟨rfl, ih (l ++ [o]) fun j hj r hr => ?_⟩
          have hnext := hall (j + 1) (Nat.succ_le_succ hj) r (by
            rw [stsNCbcLoop, stsCbc_moved hget hput]
            exact hr)
          rwa [List.length_append, List.length_singleton, Nat.add_assoc, Nat.add_comm 1]

theorem paired_of_stsAtmostCbcLoop (k : Nat) : ∀ {source : Source σ} {sink : Sink τ} (i : Nat)
    (l : List Octet),
    (∀ j ≤ k, ∀ r, stsAtmostCbcLoop h j i (source.logged l) (sink.logged l) = .ok r →
      r.2.2.driver.2 = r.2.1.driver.2) → Paired h True k source sink := by
  induction k with
  | zero => exact fun _ _ _ => trivial
  | succ k ih =>
    intro source sink i l hall
    have hone := hall 1 (Nat.succ_le_succ (Nat.zero_le k))
    rcases hget : sourceGetOctet source with ⟨e | buf, source₁⟩
    · simp only [Paired, hget]
    · rcases hput : sinkPutOctet sink (buf.getD h.indeterminate) with halt | ⟨rc, sink₁⟩
      · simp only [Paired, hget, hput]
      · simp only [Paired, hget, hput]
        simp only [stsAtmostCbcLoop, stsCbc_put hget hput, ok_bind] at hone
        rcases rc with e | (_ | m)
        · have heq := (round_conserves_iff _ _ _ _).mp (hone _ rfl)
          exact Option.not_isSome_iff_eq_none.mp fun hs => heq.mp hs rfl
        · have heq := (round_conserves_iff _ _ _ _).mp (hone _ rfl)
          exact ⟨Option.not_isSome_iff_eq_none.mp fun hs => heq.mp hs rfl, trivial⟩
        · have heq := (round_conserves_iff _ _ _ _).mp (hone _ rfl)
          have hs := heq.mpr (Nat.succ_ne_zero m)
          obtain ⟨o, rfl⟩ := Option.isSome_iff_exists.mp hs
          refine ⟨rfl, ih (i + 1) (l ++ [o]) fun j hj r hr => ?_⟩
          refine hall (j + 1) (Nat.succ_le_succ hj) r ?_
          rw [stsAtmostCbcLoop, stsCbc_moved hget hput]
          exact hr

/-- `sts_cbc` conserves exactly where its one round does. -/
theorem stsCbc_conserves_iff (source : Source σ) (sink : Sink τ) :
    Conserves (stsCbc h (source.logged []) (sink.logged [])) ↔ Paired h True 1 source sink := by
  have hround : ∀ r : LoggedRc σ τ, stsCbc h (source.logged []) (sink.logged []) = .ok r →
      ∃ r', stsAtmostCbcLoop h 1 0 (source.logged []) (sink.logged []) = .ok r' ∧ r'.2 = r.2 := by
    intro r hr
    rw [stsAtmostCbcLoop, hr]
    obtain ⟨e | (_ | m), source', sink'⟩ := r
    · exact ⟨_, rfl, rfl⟩
    · exact ⟨_, rfl, rfl⟩
    · exact ⟨_, rfl, rfl⟩
  constructor
  · intro hc
    refine paired_of_stsAtmostCbcLoop h 1 0 [] fun j hj r hr => ?_
    rcases Nat.le_one_iff_eq_zero_or_eq_one.mp hj with rfl | rfl
    · cases hr
      rfl
    · obtain ⟨r₁, hcall, -⟩ := bind_eq_ok hr
      obtain ⟨r', hr', he⟩ := hround r₁ hcall
      rw [hr] at hr'
      cases hr'
      have hlogs := hc r₁ hcall
      rwa [← he] at hlogs
  · intro hp r hr
    obtain ⟨r', hr', he⟩ := hround r hr
    have hlogs := stsAtmostCbcLoop_paired h 1 0 [] hp hr'
    rwa [he] at hlogs

end Runs

/-! ## 5. When octets are conserved -/

/-- **Octets are conserved exactly where the drivers are paired**: by one round, by runs of every
    length up to `n`, and by limited runs. -/
theorem conserves_iff (h : Host) (source : Source σ) (sink : Sink τ) (n : Nat) :
    (Conserves (stsCbc h (source.logged []) (sink.logged [])) ↔ Paired h True 1 source sink) ∧
    ((∀ k ≤ n, MovesAll k (stsNCbc h (source.logged []) (sink.logged []) k)) ↔
      Paired h False n source sink) ∧
    ((∀ k ≤ n, Conserves (stsAtmostCbc h (source.logged []) (sink.logged []) k)) ↔
      Paired h True n source sink) := by
  refine ⟨stsCbc_conserves_iff h source sink, ⟨fun hall => ?_, fun hp k hk => ?_⟩,
    fun hall => ?_, fun hp k hk r hr => ?_⟩
  · refine paired_of_stsNCbcLoop h n [] fun j hj r hr => ?_
    have hcall : stsNCbc h (source.logged []) (sink.logged []) j =
        .ok (r.1.elim (.ok j) .error, r.2) := by
      rw [stsNCbc, hr]
      rfl
    obtain ⟨hc, hn⟩ := hall j hj
    refine ⟨hc _ hcall, fun hnone => ?_⟩
    rw [List.length_nil, Nat.zero_add]
    exact hn _ hcall (by rw [hnone]; rfl)
  · have hrun : ∀ r, stsNCbc h (source.logged []) (sink.logged []) k = .ok r →
        r.2.2.driver.2 = r.2.1.driver.2 ∧ (r.1 = .ok k → r.2.2.driver.2.length = k) := by
      intro r hr
      obtain ⟨⟨error, s⟩, hloop, hend⟩ := bind_eq_ok hr
      cases hend
      obtain ⟨hlogs, hlen⟩ := stsNCbcLoop_paired h k [] (hp.mono hk) hloop
      rw [List.length_nil, Nat.zero_add] at hlen
      refine ⟨hlogs, fun hk => hlen ?_⟩
      cases error with
      | none => rfl
      | some e => cases hk
    exact ⟨fun r hr => (hrun r hr).1, fun r hr => (hrun r hr).2⟩
  · exact paired_of_stsAtmostCbcLoop h n 0 [] hall
  · exact stsAtmostCbcLoop_paired h k 0 [] (hp.mono hk) hr

/-- A source that has nothing to hand out yet. -/
def idleSource : Source Unit where
  run := .octet fun _ => (.ok none, ())
  retry := epRetryInit
  driver := ()

/-- **An invented octet**: the source hands out none, and the sink takes one. -/
theorem not_movesAll_idle :
    ¬ ∀ (source : Source Unit) (sink : Sink (List Octet)) (n : Nat),
      MovesAll n (stsNCbc lp64Host (source.logged []) (sink.logged []) n) := fun hall =>
  absurd ((hall idleSource (collectSink []) 1).1 _ rfl) (by decide)

end Ufw
