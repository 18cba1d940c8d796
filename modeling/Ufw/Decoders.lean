/-
  File:      Ufw/Decoders.lean
  Subject:   DECODERS AND THEIR SINKS. What the framing decoders read and write does not depend on
             the sink they write to, as long as it takes everything.

  * `Sink.Total` -- a sink that takes any octets;
  * `Collects` -- a run that does on a total sink what it does on one that collects octets;
  * `rfc1055Decode_collects`, `lenpDecodeSourceToSink_collects` -- **the decoders are such runs**,
    over any source and with any fuel.
-/
import Ufw.LengthPrefix
import Ufw.Rfc1055

namespace Ufw

open Base

variable {σ τ : Type}

/-! ## 1. Total sinks -/

/-- A sink that takes any octets. -/
def Sink.Total (sink : Sink τ) : Prop := ∀ v, ∃ sink', sink.Takes v sink'

/-- A total sink takes an octet, and is total then. -/
theorem Sink.Total.put {sink : Sink τ} (hk : sink.Total) (o : Octet) :
    ∃ m sink₁, sinkPutOctet sink o = .ok (.ok (m + 1), sink₁) ∧ sink₁.Total := by
  obtain ⟨sink', ht⟩ := hk [o]
  cases ht with
  | @cons _ sink₁ _ _ _ m put _ =>
    refine ⟨m, sink₁, put, fun v => ?_⟩
    obtain ⟨sink₂, hv⟩ := hk (o :: v)
    cases hv with
    | cons put' rest =>
      rw [put] at put'
      cases put'
      exact ⟨sink₂, rest⟩

/-- A total sink stays total. -/
theorem Sink.Total.takes {sink sink' : Sink τ} (hk : sink.Total) {v : List Octet}
    (ht : sink.Takes v sink') : sink'.Total := by
  induction ht with
  | nil => exact hk
  | @cons _ _ _ o _ _ put _ ih =>
    obtain ⟨m, sink₁, hput, hk₁⟩ := hk.put o
    rw [put] at hput
    cases hput
    exact ih hk₁

theorem Sink.Accepting.total {sent : τ → List Octet} {sink : Sink τ} (hk : sink.Accepting sent) :
    sink.Total := fun v =>
  let ⟨sink', ht, _⟩ := hk.takes v
  ⟨sink', ht⟩

theorem sinkPutOctet_collect (w : List Octet) (o : Octet) :
    sinkPutOctet (collectSink w) o = .ok (.ok 1, collectSink (w ++ [o])) := rfl

/-! ## 2. Blindness -/

/-- `run` writes the same octets to any total sink: those it adds to one that has collected `w`.
    `mk` puts a result together with the sink. -/
def Collects {ρ : Type} {β : Type → Type} (mk : (δ : Type) → ρ → Sink δ → β δ)
    (run : (δ : Type) → Sink δ → Exec (β δ)) (w : List Octet) (sink : Sink τ) : Prop :=
  (run _ (collectSink w) = .error .outOfFuel ∧ run _ sink = .error .outOfFuel) ∨
  ∃ r v, run _ (collectSink w) = .ok (mk _ r (collectSink (w ++ v))) ∧
    ∀ sink', sink.Takes v sink' → run _ sink = .ok (mk _ r sink')

section Collects

variable {ρ : Type} {β : Type → Type} {mk : (δ : Type) → ρ → Sink δ → β δ}
  {run run' : (δ : Type) → Sink δ → Exec (β δ)} {w : List Octet} {sink : Sink τ}

theorem Collects.outOfFuel (he : ∀ δ (k : Sink δ), run δ k = .error .outOfFuel) :
    Collects mk run w sink := .inl ⟨he _ _, he _ _⟩

/-- A run that ends without writing. -/
theorem Collects.stop {r : ρ} (he : ∀ δ (k : Sink δ), run δ k = .ok (mk δ r k)) :
    Collects mk run w sink := by
  refine .inr ⟨r, [], by rw [List.append_nil]; exact he _ _, fun sink' ht => ?_⟩
  cases ht
  exact he _ _

/-- A run that goes on without writing. -/
theorem Collects.pass (he : ∀ δ (k : Sink δ), run δ k = run' δ k)
    (hrest : Collects mk run' w sink) : Collects mk run w sink := by
  unfold Collects at hrest ⊢
  rw [he, he]
  exact hrest

/-- A run that writes an octet and goes on. -/
theorem Collects.put {o : Octet} (hk : sink.Total)
    (he : ∀ δ (k k₁ : Sink δ) m, sinkPutOctet k o = .ok (.ok (m + 1), k₁) → run δ k = run' δ k₁)
    (hrest : ∀ sink₁ : Sink τ, sink₁.Total → Collects mk run' (w ++ [o]) sink₁) :
    Collects mk run w sink := by
  obtain ⟨m, sink₁, hput, hk₁⟩ := hk.put o
  have h1 := he _ _ _ _ (sinkPutOctet_collect w o)
  have h2 := he _ _ _ _ hput
  unfold Collects
  rw [h1, h2]
  rcases hrest sink₁ hk₁ with hout | hres
  · exact .inl hout
  · obtain ⟨r, v, hc, hs⟩ := hres
    refine .inr ⟨r, o :: v, ?_, fun sink' ht => ?_⟩
    · rw [hc, List.append_assoc]
      rfl
    · cases ht with
      | cons put rest =>
        rw [hput] at put
        cases put
        exact hs sink' rest

/-- What a run makes of a sink that collects. -/
theorem Collects.result (hc : Collects mk run w (collectSink w)) {x : β (List Octet)}
    (hx : run _ (collectSink w) = .ok x) : ∃ r v, x = mk _ r (collectSink (w ++ v)) := by
  rcases hc with ⟨hout, -⟩ | ⟨r, v, hr, -⟩
  · exact nomatch hx.symm.trans hout
  · exact ⟨r, v, Except.ok.inj (hx.symm.trans hr)⟩

/-- Two runs, one behind the other. -/
theorem Collects.seq {ρ₁ : Type} {γ : Type → Type} {mk₁ : (δ : Type) → ρ₁ → Sink δ → γ δ}
    {run₁ : (δ : Type) → Sink δ → Exec (γ δ)} (hk : sink.Total)
    (hfirst : Collects mk₁ run₁ w sink) (next : (δ : Type) → γ δ → Exec (β δ))
    (he : ∀ δ (k : Sink δ), run δ k = run₁ δ k >>= next δ)
    (hnext : ∀ r v (sink₁ : Sink τ), sink₁.Total →
      Collects mk (fun δ k => next δ (mk₁ δ r k)) (w ++ v) sink₁) : Collects mk run w sink := by
  unfold Collects
  rw [he, he]
  rcases hfirst with ⟨h1, h2⟩ | ⟨r₁, v₁, h1, h2⟩
  · exact .inl ⟨by rw [h1]; rfl, by rw [h2]; rfl⟩
  · obtain ⟨sink₁, ht₁⟩ := hk v₁
    rw [h1, h2 sink₁ ht₁, ok_bind, ok_bind]
    rcases hnext r₁ v₁ sink₁ (hk.takes ht₁) with hout | ⟨r, v, hc, hs⟩
    · exact .inl hout
    · refine .inr ⟨r, v₁ ++ v, by rw [← List.append_assoc]; exact hc, fun sink' ht => ?_⟩
      obtain ⟨sink₂, ht₂⟩ := hk.takes ht₁ v
      rw [(ht₁.append ht₂).unique ht] at ht₂
      exact hs sink' ht₂

end Collects

/-! ## 3. The SLIP decoder -/

/-- **The SLIP decoder is blind.** -/
theorem rfc1055Decode_collects (h : Host) (fuel : Nat) (ctx : Rfc1055Context) (source : Source σ)
    (w : List Octet) {sink : Sink τ} (hk : sink.Total) :
    Collects (fun _ (r : Rc × Rfc1055Context × Source σ) k => (r.1, r.2.1, r.2.2, k))
      (fun _ => rfc1055Decode h fuel ctx source) w sink := by
  induction fuel generalizing ctx source w sink with
  | zero => exact Collects.outOfFuel fun _ _ => rfl
  | succ fuel ih =>
    obtain ⟨state, flags⟩ := ctx
    cases state with
    | searchForStart =>
      rcases ht : transition h source with ⟨e | rc, source₁⟩
      · exact Collects.stop (r := (.error e, ⟨.searchForStart, flags⟩, source₁)) fun _ k => by
          simp only [rfc1055Decode, ht]
      · by_cases hrc : rc = 1
        · refine Collects.pass (fun _ k => ?_) (ih ⟨.normal, flags⟩ source₁ w hk)
          simp only [rfc1055Decode, ht, if_pos hrc]
        · exact Collects.stop (r := (.error .eilseq, ⟨.searchForEnd, flags⟩, source₁)) fun _ k => by
            simp only [rfc1055Decode, ht, if_neg hrc]
    | searchForEnd =>
      rcases ht : transition h source with ⟨e | rc, source₁⟩
      · exact Collects.stop (r := (.error e, ⟨.searchForEnd, flags⟩, source₁)) fun _ k => by
          simp only [rfc1055Decode, ht]
      · by_cases hrc : rc = 1
        · refine Collects.pass (fun _ k => ?_) (ih ⟨afterFrame flags, flags⟩ source₁ w hk)
          simp only [rfc1055Decode, ht, if_pos hrc]
        · refine Collects.pass (fun _ k => ?_) (ih ⟨.searchForEnd, flags⟩ source₁ w hk)
          simp only [rfc1055Decode, ht, if_neg hrc]
    | normal =>
      rcases ho : rfc1055DecodeOctet h source with ⟨e | n, data, source₁⟩
      · cases e with
        | eilseq =>
          exact Collects.stop (r := (.error .eilseq, ⟨if bitIsset flags rfc1055WithSof then
              if data = rawEof then .searchForStart else .searchForEnd
            else if data = rawEof then .normal else .searchForEnd, flags⟩, source₁)) fun _ k => by
            simp only [rfc1055Decode, ho]
        | eagain | ebadmsg | ebusy | efault | eintr | einval | eio | enodata | enomem | enotsup
        | epipe | eproto | other e =>
          exact Collects.stop (r := (.error _, ⟨.normal, flags⟩, source₁)) fun _ k => by
            simp only [rfc1055Decode, ho]
            rfl
      · cases n with
        | zero =>
          exact Collects.stop (r := (.ok 1, if bitIsset flags rfc1055WithSof then
            ⟨.searchForStart, flags⟩ else ⟨.normal, flags⟩, source₁)) fun _ k => by
            simp only [rfc1055Decode, ho]
        | succ n =>
          refine Collects.put (o := data) hk (fun _ k k₁ m hput => ?_) fun sink₁ hk₁ =>
            ih ⟨.normal, flags⟩ source₁ _ hk₁
          simp only [rfc1055Decode, ho, hput, ok_bind]

/-! ## 4. The length prefix decoder -/

/-- The loop of the plumbing is blind; what it answers is the number of octets it has moved. -/
theorem stsAtmostCbcLoop_collects (h : Host) (left i : Nat) (source : Source σ) (w : List Octet)
    {sink : Sink τ} (hk : sink.Total) :
    Collects (fun _ (r : Rc × Source σ) k => (r.1, r.2, k))
      (fun _ => stsAtmostCbcLoop h left i source) w sink := by
  induction left generalizing i source w sink with
  | zero => exact Collects.stop (r := (.ok i, source)) fun _ _ => rfl
  | succ left ih =>
    rcases ho : sourceGetOctet source with ⟨e | o, source₁⟩
    · exact Collects.stop (r := (if i = 0 then .error e else .ok i, source₁)) fun _ k => by
        simp only [stsAtmostCbcLoop, stsCbc, ho, ok_bind]
    · refine Collects.put (o := o.getD h.indeterminate) hk (fun _ k k₁ m hput => ?_)
        fun sink₁ hk₁ => ih (i + 1) source₁ _ hk₁
      simp only [stsAtmostCbcLoop, stsCbc, ho, hput, ok_bind]

/-- What the plumbing answers is the number of octets it has moved; an error is the answer only
    where it has moved none. -/
theorem stsAtmostCbcLoop_length (h : Host) {left i : Nat} {rc : Rc} {source source' : Source σ}
    {w v : List Octet}
    (hr : stsAtmostCbcLoop h left i source (collectSink w) = .ok (rc, source', collectSink v)) :
    (∀ k, rc = .ok k → v.length + i = w.length + k ∧ k ≤ left + i) ∧
    (∀ e, rc = .error e → v = w ∧ i = 0) := by
  induction left generalizing i source w with
  | zero =>
    cases hr
    exact ⟨fun k hk => by cases hk; omega, fun e he => by cases he⟩
  | succ left ih =>
    rcases ho : sourceGetOctet source with ⟨e | o, source₁⟩
    · simp only [stsAtmostCbcLoop, stsCbc, ho, ok_bind] at hr
      split at hr
      · cases hr
        exact ⟨fun k hk => (by cases hk), fun e _ => ⟨rfl, ‹_›⟩⟩
      · cases hr
        exact ⟨fun k hk => by cases hk; omega, fun e he => by cases he⟩
    · simp only [stsAtmostCbcLoop, stsCbc, ho, sinkPutOctet_collect, ok_bind] at hr
      obtain ⟨hok, herr⟩ := ih hr
      refine ⟨fun k hk => ?_, fun e he => ?_⟩
      · have hlen := hok k hk
        rw [List.length_append, List.length_singleton] at hlen
        omega
      · have hzero := (herr e he).2
        omega

/-- What the loop of `sts_n` does behind a pass. -/
def stsNLoopRest (h : Host) (n fuel rest : Nat) :
    Rc × Source σ × Sink τ → Exec (Rc × Source σ × Sink τ)
  | (.error .enomem, source, sink) => stsNLoop h n fuel rest source sink
  | (.error e, source, sink) => .ok (.error e, source, sink)
  | (.ok rc, source, sink) => stsNLoop h n fuel (rest - rc) source sink

/-- The loop of `sts_n` is blind. -/
theorem stsNLoop_collects (h : Host) (n fuel rest : Nat) (source : Source σ) (w : List Octet)
    {sink : Sink τ} (hk : sink.Total) :
    Collects (fun _ (r : Rc × Source σ) k => (r.1, r.2, k)) (fun _ => stsNLoop h n fuel rest source)
      w sink := by
  induction fuel generalizing rest source w sink with
  | zero => exact Collects.outOfFuel fun _ _ => rfl
  | succ fuel ih =>
    by_cases hrest : rest = 0
    · exact Collects.stop (r := (.ok n, source)) fun _ k => by simp only [stsNLoop, if_pos hrest]
    · refine Collects.seq hk (stsAtmostCbcLoop_collects h rest 0 source w hk)
        (fun _ => stsNLoopRest h n fuel rest) (fun _ k => ?_) fun r v sink₁ hk₁ => ?_
      · rw [stsNLoop, if_neg hrest, stsAtmost, if_neg hrest]
        rfl
      · obtain ⟨rc, source₁⟩ := r
        cases rc with
        | ok k => exact ih (rest - k) source₁ (w ++ v) hk₁
        | error e =>
          cases e with
          | enomem => exact ih rest source₁ (w ++ v) hk₁
          | eagain | ebadmsg | ebusy | efault | eilseq | eintr | einval | eio | enodata | enotsup
          | epipe | eproto | other e =>
            exact Collects.stop (r := (.error _, source₁)) fun _ _ => rfl

/-- What `sts_n` answers with success, it has moved. -/
theorem stsNLoop_length (h : Host) {n fuel rest k : Nat} {source source' : Source σ}
    {w v : List Octet}
    (hr : stsNLoop h n fuel rest source (collectSink w) = .ok (.ok k, source', collectSink v)) :
    v.length = w.length + rest := by
  induction fuel generalizing rest source w with
  | zero => cases hr
  | succ fuel ih =>
    by_cases hrest : rest = 0
    · rw [stsNLoop, if_pos hrest] at hr
      cases hr
      omega
    · rw [stsNLoop, if_neg hrest, stsAtmost, if_neg hrest, stsAtmostCbc] at hr
      obtain ⟨⟨rc, source₁, sink₁⟩, ha, hnext⟩ := bind_eq_ok hr
      obtain ⟨v₁, rfl⟩ : ∃ v₁, sink₁ = collectSink v₁ := by
        obtain ⟨r, v₁, he⟩ := (stsAtmostCbcLoop_collects h rest 0 source w
          (collectSink_accepting w).total).result ha
        cases he
        exact ⟨_, rfl⟩
      obtain ⟨hok, herr⟩ := stsAtmostCbcLoop_length h ha
      cases rc with
      | ok m =>
        have hlen := ih hnext
        have hmoved := hok m rfl
        omega
      | error e =>
        obtain rfl := (herr e rfl).1
        cases e with
        | enomem => exact ih hnext
        | eagain | ebadmsg | ebusy | efault | eilseq | eintr | einval | eio | enodata | enotsup
        | epipe | eproto | other e => cases hnext

/-- What `sts_n` answers with success on a sink that collects, it has added to it. -/
theorem stsN_length (h : Host) {n fuel k : Nat} {source source' : Source σ} {w : List Octet}
    {sink : Sink (List Octet)}
    (hr : stsN h fuel source (collectSink w) n = .ok (.ok k, source', sink)) :
    sink.driver.length = w.length + n := by
  obtain ⟨⟨rc, source₁⟩, v, he⟩ := (stsNLoop_collects h n fuel n source w
    (collectSink_accepting w).total).result hr
  cases he
  exact stsNLoop_length h hr

/-- **The decoder of length prefixes is blind.** -/
theorem lenpDecodeSourceToSink_collects (h : Host) (fuel : Nat) (source : Source σ)
    (w : List Octet) {sink : Sink τ} (hk : sink.Total) :
    Collects (fun _ (r : Rc × Source σ) k => (r.1, r.2, k))
      (fun _ => lenpDecodeSourceToSink h fuel source) w sink := by
  rcases hv : varintU64FromSource h source with ⟨e | rc, len, source₁⟩
  · exact Collects.stop (r := (.error e, source₁)) fun _ k => by
      simp only [lenpDecodeSourceToSink, flenpDecodeSourceToSink, decodePrefix, if_true, hv,
        ok_bind]
  · refine Collects.pass (fun _ k => ?_)
      (stsNLoop_collects h len.toNat fuel len.toNat source₁ w hk)
    simp only [lenpDecodeSourceToSink, flenpDecodeSourceToSink, decodePrefix, if_true, hv, ok_bind,
      stsN]

end Ufw
