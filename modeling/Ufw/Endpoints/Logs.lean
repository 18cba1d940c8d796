/-
  File:      Ufw/Endpoints/Logs.lean
  Subject:   ENDPOINTS: drivers that keep a log, beside their own state, of the octets they moved.

  * `Source.logged`, `Sink.logged` -- an endpoint whose driver logs what it hands out, or takes;
  * `sourceGetOctet_logged`, `sinkPutOctet_logged` -- **the log is what moved, and changes nothing
    else.**

  A log holds no more octets than the driver was asked for, or given.
-/
import Ufw.Endpoints.Drivers

namespace Ufw

open Base

variable {σ τ δ : Type}

/-! ## 1. Logs -/

/-- The octet in the answer of a source to a request for one. -/
def octetOf : Except Errno (Option Octet) → List Octet
  | .ok buf => buf.toList
  | .error _ => []

/-- Retries, with a log beside the state of the driver. -/
def EpRetry.logged (retry : EpRetry δ) : EpRetry (δ × List Octet) where
  init := retry.init.map fun init d => (init d.1, d.2)
  run := retry.run.map fun run d rc => ((run d.1 rc).1, (run d.1 rc).2, d.2)
  ctrl := retry.ctrl

/-- The driver of a source, with a log of the octets it handed out. -/
def SourceRun.logged : SourceRun σ → SourceRun (σ × List Octet)
  | .octet run => .octet fun d =>
    let (rc, driver) := run d.1
    (rc, driver, d.2 ++ octetOf rc)
  | .chunk run => .chunk fun d n =>
    let (rc, driver) := run d.1 n
    (rc, driver, d.2 ++ (octetsOf rc).take n)

/-- The driver of a sink, with a log of the octets it took. -/
def SinkRun.logged : SinkRun τ → SinkRun (τ × List Octet)
  | .octet run => .octet fun d o => do
    let (rc, driver) ← run d.1 o
    .ok (rc, driver, d.2 ++ [o].take (moved rc))
  | .chunk run => .chunk fun d buf => do
    let (rc, driver) ← run d.1 buf
    .ok (rc, driver, d.2 ++ buf.take (moved rc))

/-- A source with a log. -/
def Source.logged (source : Source σ) (log : List Octet) : Source (σ × List Octet) where
  run := source.run.logged
  retry := source.retry.logged
  driver := (source.driver, log)

/-- A sink with a log. -/
def Sink.logged (sink : Sink τ) (log : List Octet) : Sink (τ × List Octet) where
  run := sink.run.logged
  retry := sink.retry.logged
  driver := (sink.driver, log)

@[simp] theorem Source.logged_driver (source : Source σ) (log : List Octet) :
    (source.logged log).driver = (source.driver, log) := rfl

@[simp] theorem Sink.logged_driver (sink : Sink τ) (log : List Octet) :
    (sink.logged log).driver = (sink.driver, log) := rfl

/-! ## 2. One octet -/

/-- **A source with a log hands out the same octet**, and logs it. -/
theorem sourceGetOctet_logged (source : Source σ) (log : List Octet) :
    sourceGetOctet (source.logged log) =
      ((sourceGetOctet source).1,
        (sourceGetOctet source).2.logged (log ++ octetOf (sourceGetOctet source).1)) := by
  obtain ⟨run, retry, d⟩ := source
  cases run with
  | octet run => rfl
  | chunk run =>
    have hone : (octetsOf (run d 1).1).take 1 = octetOf ((run d 1).1.map List.head?) := by
      match (run d 1).1 with
      | .error e => rfl
      | .ok [] => rfl
      | .ok (o :: l) => rfl
    simp only [sourceGetOctet, Source.logged, SourceRun.logged, hone]

/-- **A sink with a log gives the same answer**, and logs the octet if it takes it. -/
theorem sinkPutOctet_logged (sink : Sink τ) (log : List Octet) (o : Octet) :
    sinkPutOctet (sink.logged log) o = (do
      let (rc, sink) ← sinkPutOctet sink o
      .ok (rc, sink.logged (log ++ [o].take (moved rc)))) := by
  obtain ⟨run, retry, d⟩ := sink
  cases run with
  | octet run =>
    simp only [sinkPutOctet, Sink.logged, SinkRun.logged]
    cases run d o with
    | error e => rfl
    | ok r => rfl
  | chunk run =>
    simp only [sinkPutOctet, Sink.logged, SinkRun.logged]
    cases run d [o] with
    | error e => rfl
    | ok r => rfl

end Ufw
