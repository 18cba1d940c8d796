/-
  File:      Ufw/Endpoints.lean
  Subject:   ENDPOINTS (endpoints/core.c): sources octets come from, sinks octets go to, the retry
             machinery, and the plumbing that moves octets from a source into a sink.

  * `Source`, `Sink` -- an endpoint: its callback, its retry configuration and the state of its
    driver; endpoints here have no `getbuffer` extension;
  * `sourceGetOctet`, `sinkPutOctet`, `sinkPutChunk`, `stsN` … -- the functions of the source;
  * `Source.Delivers`, `Sink.Takes` -- the octets a source hands out and a sink takes, one at a
    time;
  * `stsN_delivers` -- **the plumbing moves exactly the octets it was asked to move.**
-/
import Ufw.Base.Exec
import Ufw.BitOperations
import Ufw.Host

namespace Ufw

open Base

variable {σ τ δ : Type}

/-! ## 1. Retries -/

/-- `struct ufw_ep_retry`; its callbacks act on the state of the driver and on their own data. -/
structure EpRetry (δ : Type) where
  init : Option (δ → δ)
  run : Option (δ → Rc → Rc × δ)
  ctrl : BitVec 32

/-- `EP_RETRY_INIT` -/
def epRetryInit : EpRetry δ := { init := none, run := none, ctrl := 0 }

def epRetryCtrlOther : BitVec 32 := 1
def epRetryCtrlNothing : BitVec 32 := 2
def epRetryCtrlEagain : BitVec 32 := 4
def epRetryCtrlEintr : BitVec 32 := 8

/-- `ep_retry`; a positive result asks for a retry. -/
def epRetry (ctrl : BitVec 32) (run : δ → Rc → Rc × δ) (drv : δ) (rc : Rc) : Rc × δ :=
  let ask (mask : BitVec 32) : Rc × δ :=
    if bitIsset ctrl mask then run drv rc else (.ok 1, drv)
  match rc with
  | .error .eagain => ask epRetryCtrlEagain
  | .error .eintr => ask epRetryCtrlEintr
  | .ok 0 => ask epRetryCtrlNothing
  | rc => if bitIsset ctrl epRetryCtrlOther then run drv rc else (rc, drv)

/-- The block `source_read_multi` and `sink_write_multi` share: whether to go on after a transfer
    that moved nothing. -/
def EpRetry.goOn (retry : EpRetry δ) (drv : δ) (get : Rc) : Except Errno Unit × δ :=
  match retry.run with
  | none =>
    match get with
    | .error .eintr | .error .eagain | .ok _ => (.ok (), drv)
    | .error e => (.error e, drv)
  | some run =>
    match epRetry retry.ctrl run drv get with
    | (.error e, drv) => (.error e, drv)
    | (.ok 0, drv) => (.error .enodata, drv)
    | (.ok _, drv) => (.ok (), drv)

/-! ## 2. Sources -/

/-- The callback of a source. An octet driver answers `-errno`, nothing, or an octet; a chunk
    driver answers `-errno` or the octets it read. -/
inductive SourceRun (σ : Type) where
  | octet (run : σ → Except Errno (Option Octet) × σ)
  | chunk (run : σ → Nat → Except Errno (List Octet) × σ)

/-- `struct ufw_source` -/
structure Source (σ : Type) where
  run : SourceRun σ
  retry : EpRetry σ
  driver : σ

/-- `source_get_octet`; `none` is the return code 0. -/
def sourceGetOctet (source : Source σ) : Except Errno (Option Octet) × Source σ :=
  match source.run with
  | .octet run =>
    let (rc, driver) := run source.driver
    (rc, { source with driver })
  | .chunk run =>
    let (rc, driver) := run source.driver 1
    (rc.map List.head?, { source with driver })

/-- `source_adapt`: chunk reads on an octet source; `got` are the octets read so far. -/
def sourceAdapt (run : σ → Except Errno (Option Octet) × σ) :
    Nat → List Octet → σ → Except Errno (List Octet) × σ
  | 0, got, driver => (.ok got, driver)
  | rest + 1, got, driver =>
    match run driver with
    | (.error e, driver) => (if got = [] then .error e else .ok got, driver)
    | (.ok none, driver) => (if got = [] then .error .eagain else .ok got, driver)
    | (.ok (some o), driver) => sourceAdapt run rest (got ++ [o]) driver

/-- `source_read` -/
def sourceRead (source : Source σ) (n : Nat) : Except Errno (List Octet) × Source σ :=
  let (rc, driver) :=
    match source.run with
    | .octet run => sourceAdapt run n [] source.driver
    | .chunk run => run source.driver n
  (rc, { source with driver })

/-- The loop of `source_read_multi`; `got` are the octets read so far. -/
def sourceReadLoop (n : Nat) :
    Nat → List Octet → Source σ → Exec ((Option Errno × List Octet) × Source σ)
  | 0, _, _ => .error .outOfFuel
  | fuel + 1, got, source =>
    if got.length < n then
      match sourceRead source (n - got.length) with
      | (.ok (o :: os), source) => do
        require ((o :: os).length ≤ n - got.length)
        sourceReadLoop n fuel (got ++ o :: os) source
      | (rc, source) =>
        match source.retry.goOn source.driver (rc.map List.length) with
        | (.ok (), driver) => sourceReadLoop n fuel got { source with driver }
        | (.error e, driver) => .ok ((some e, got), { source with driver })
    else .ok ((none, got), source)

/-- `source_read_multi` -/
def sourceReadMulti (fuel : Nat) (source : Source σ) (n : Nat) :
    Exec ((Option Errno × List Octet) × Source σ) :=
  if n = 0 ∨ ssizeMax < n then .ok ((some .einval, []), source)
  else
    let driver := (source.retry.init.getD id) source.driver
    sourceReadLoop n fuel [] { source with driver }

/-- `source_get_chunk` -/
def sourceGetChunk (fuel : Nat) (source : Source σ) (n : Nat) :
    Exec (Except Errno (List Octet) × Source σ) := do
  let ((error, buf), source) ← sourceReadMulti fuel source n
  require (buf.length = n)
  require (buf.length ≤ ssizeMax)
  match error with
  | none => .ok (.ok buf, source)
  | some e => .ok (.error e, source)

/-! ## 3. Sinks -/

/-- The callback of a sink. -/
inductive SinkRun (τ : Type) where
  | octet (run : τ → Octet → Exec (Rc × τ))
  | chunk (run : τ → List Octet → Exec (Rc × τ))

/-- `struct ufw_sink` -/
structure Sink (τ : Type) where
  run : SinkRun τ
  retry : EpRetry τ
  driver : τ

/-- `chunk_sink_init` -/
def chunkSinkInit (sink : τ → List Octet → Exec (Rc × τ)) (driver : τ) : Sink τ :=
  { run := .chunk sink, retry := epRetryInit, driver }

/-- `chunk_source_init` -/
def chunkSourceInit (source : σ → Nat → Except Errno (List Octet) × σ) (driver : σ) : Source σ :=
  { run := .chunk source, retry := epRetryInit, driver }

/-- `sink_put_octet` -/
def sinkPutOctet (sink : Sink τ) (data : Octet) : Exec (Rc × Sink τ) := do
  let (rc, driver) ←
    match sink.run with
    | .octet run => run sink.driver data
    | .chunk run => run sink.driver [data]
  .ok (rc, { sink with driver })

/-- `sink_adapt`: chunk writes on an octet sink; `put` octets are written already. -/
def sinkAdapt (run : τ → Octet → Exec (Rc × τ)) : Nat → List Octet → τ → Exec (Rc × τ)
  | put, [], driver => .ok (.ok put, driver)
  | put, o :: rest, driver => do
    match ← run driver o with
    | (.error e, driver) => .ok (if put = 0 then .error e else .ok put, driver)
    | (.ok 0, driver) => .ok (if put = 0 then .error .eagain else .ok put, driver)
    | (.ok _, driver) => sinkAdapt run (put + 1) rest driver

/-- `sink_write` -/
def sinkWrite (sink : Sink τ) (buf : List Octet) : Exec (Rc × Sink τ) := do
  let (rc, driver) ←
    match sink.run with
    | .octet run => sinkAdapt run 0 buf sink.driver
    | .chunk run => run sink.driver buf
  .ok (rc, { sink with driver })

/-- The loop of `sink_write_multi`; `rest` is what is left to write of `n` octets. -/
def sinkWriteLoop (n : Nat) : Nat → List Octet → Sink τ → Exec ((Option Errno × Nat) × Sink τ)
  | 0, _, _ => .error .outOfFuel
  | fuel + 1, rest, sink =>
    if rest = [] then .ok ((none, n), sink)
    else do
      match ← sinkWrite sink rest with
      | (.ok (get + 1), sink) =>
        require (get + 1 ≤ rest.length)
        sinkWriteLoop n fuel (rest.drop (get + 1)) sink
      | (rc, sink) =>
        match sink.retry.goOn sink.driver rc with
        | (.ok (), driver) => sinkWriteLoop n fuel rest { sink with driver }
        | (.error e, driver) => .ok ((some e, n - rest.length), { sink with driver })

/-- `sink_write_multi` -/
def sinkWriteMulti (fuel : Nat) (sink : Sink τ) (buf : List Octet) :
    Exec ((Option Errno × Nat) × Sink τ) :=
  if buf.length = 0 then .ok ((none, 0), sink)
  else if ssizeMax < buf.length then .ok ((some .einval, 0), sink)
  else
    let driver := (sink.retry.init.getD id) sink.driver
    sinkWriteLoop buf.length fuel buf { sink with driver }

/-- `sink_put_chunk` -/
def sinkPutChunk (fuel : Nat) (sink : Sink τ) (buf : List Octet) : Exec (Rc × Sink τ) := do
  let ((error, size), sink) ← sinkWriteMulti fuel sink buf
  require (size = buf.length)
  require (size ≤ ssizeMax)
  match error with
  | none => .ok (.ok size, sink)
  | some e => .ok (.error e, sink)

/-! ## 4. Plumbing -/

/-- `sts_cbc`; where the source answers 0, `buf` is what it was: not initialised. -/
def stsCbc (h : Host) (source : Source σ) (sink : Sink τ) : Exec (Rc × Source σ × Sink τ) :=
  match sourceGetOctet source with
  | (.error e, source) => .ok (.error e, source, sink)
  | (.ok buf, source) => do
    let (rc, sink) ← sinkPutOctet sink (buf.getD h.indeterminate)
    .ok (rc, source, sink)

/-- The loop of `sts_atmost_cbc`: `left` rounds to go, `i` done. -/
def stsAtmostCbcLoop (h : Host) :
    Nat → Nat → Source σ → Sink τ → Exec (Rc × Source σ × Sink τ)
  | 0, i, source, sink => .ok (.ok i, source, sink)
  | left + 1, i, source, sink => do
    match ← stsCbc h source sink with
    | (.ok (_ + 1), source, sink) => stsAtmostCbcLoop h left (i + 1) source sink
    | (rc, source, sink) => .ok (if i = 0 then rc else .ok i, source, sink)

/-- `sts_atmost_cbc` -/
def stsAtmostCbc (h : Host) (source : Source σ) (sink : Sink τ) (n : Nat) :
    Exec (Rc × Source σ × Sink τ) :=
  stsAtmostCbcLoop h n 0 source sink

/-- `sts_atmost`, for endpoints without the `getbuffer` extension. -/
def stsAtmost (h : Host) (source : Source σ) (sink : Sink τ) (n : Nat) :
    Exec (Rc × Source σ × Sink τ) :=
  if n = 0 then stsCbc h source sink else stsAtmostCbc h source sink n

/-- The loop of `sts_n`: no endpoint can offer its buffer, so `-ENOMEM` changes nothing. -/
def stsNLoop (h : Host) (n : Nat) :
    Nat → Nat → Source σ → Sink τ → Exec (Rc × Source σ × Sink τ)
  | 0, _, _, _ => .error .outOfFuel
  | fuel + 1, rest, source, sink =>
    if rest = 0 then .ok (.ok n, source, sink)
    else do
      match ← stsAtmost h source sink rest with
      | (.error .enomem, source, sink) => stsNLoop h n fuel rest source sink
      | (.error e, source, sink) => .ok (.error e, source, sink)
      | (.ok rc, source, sink) => stsNLoop h n fuel (rest - rc) source sink

/-- `sts_n` -/
def stsN (h : Host) (fuel : Nat) (source : Source σ) (sink : Sink τ) (n : Nat) :
    Exec (Rc × Source σ × Sink τ) :=
  stsNLoop h n fuel n source sink

/-! ## 5. What endpoints hand out and take -/

/-- `source` hands out the octets of a list, one at a time, and is `source'` then. -/
inductive Source.Delivers : Source σ → List Octet → Source σ → Prop
  | nil (source : Source σ) : Delivers source [] source
  | cons {source source₁ source' : Source σ} {o : Octet} {l : List Octet}
      (get : sourceGetOctet source = (.ok (some o), source₁)) (rest : Delivers source₁ l source') :
      Delivers source (o :: l) source'

/-- `sink` takes the octets of a list, one at a time, and is `sink'` then. -/
inductive Sink.Takes : Sink τ → List Octet → Sink τ → Prop
  | nil (sink : Sink τ) : Takes sink [] sink
  | cons {sink sink₁ sink' : Sink τ} {o : Octet} {l : List Octet} {m : Nat}
      (put : sinkPutOctet sink o = .ok (.ok (m + 1), sink₁)) (rest : Takes sink₁ l sink') :
      Takes sink (o :: l) sink'

theorem Source.Delivers.append_inv {l l' : List Octet} : ∀ {source source' : Source σ},
    source.Delivers (l ++ l') source' →
    ∃ source₁, source.Delivers l source₁ ∧ source₁.Delivers l' source' := by
  induction l with
  | nil => exact fun h => ⟨_, .nil _, h⟩
  | cons o l ih =>
    intro source source' h
    cases h with
    | cons get rest =>
      obtain ⟨source₁, h1, h2⟩ := ih rest
      exact ⟨source₁, .cons get h1, h2⟩

/-- What a source hands out is determined. -/
theorem Source.Delivers.unique {l : List Octet} {source source₁ source₂ : Source σ}
    (h1 : source.Delivers l source₁) (h2 : source.Delivers l source₂) : source₁ = source₂ := by
  induction h1 with
  | nil => cases h2; rfl
  | cons get _ ih =>
    cases h2 with
    | cons get' rest' =>
      rw [get] at get'
      cases get'
      exact ih rest'

theorem Sink.Takes.append {l l' : List Octet} {sink sink₁ sink' : Sink τ}
    (h1 : sink.Takes l sink₁) (h2 : sink₁.Takes l' sink') : sink.Takes (l ++ l') sink' := by
  induction h1 with
  | nil => exact h2
  | cons put _ ih => exact .cons put (ih h2)

theorem Sink.Takes.append_inv {l l' : List Octet} : ∀ {sink sink' : Sink τ},
    sink.Takes (l ++ l') sink' → ∃ sink₁, sink.Takes l sink₁ ∧ sink₁.Takes l' sink' := by
  induction l with
  | nil => exact fun h => ⟨_, .nil _, h⟩
  | cons o l ih =>
    intro sink sink' h
    cases h with
    | cons put rest =>
      obtain ⟨sink₁, h1, h2⟩ := ih rest
      exact ⟨sink₁, .cons put h1, h2⟩

theorem Sink.Takes.unique {v : List Octet} {sink sink₁ sink₂ : Sink τ} (h1 : sink.Takes v sink₁)
    (h2 : sink.Takes v sink₂) : sink₁ = sink₂ := by
  induction h1 with
  | nil =>
    cases h2
    rfl
  | cons put _ ih =>
    cases h2 with
    | cons put' rest' =>
      rw [put] at put'
      cases put'
      exact ih rest'

/-- **The plumbing moves what the source hands out into the sink**, and goes on with the rounds that
    are left. -/
theorem stsAtmostCbcLoop_delivers (h : Host) {l : List Octet} {source source' : Source σ}
    {sink sink' : Sink τ} (hs : source.Delivers l source') (hk : sink.Takes l sink')
    (left i : Nat) :
    stsAtmostCbcLoop h (l.length + left) i source sink =
      stsAtmostCbcLoop h left (i + l.length) source' sink' := by
  induction hs generalizing sink i with
  | nil =>
    cases hk
    rw [List.length_nil, Nat.zero_add, Nat.add_zero]
  | cons get _ ih =>
    cases hk with
    | cons put rest =>
      rw [List.length_cons, Nat.add_right_comm, stsAtmostCbcLoop, stsCbc, get]
      simp only [Option.getD_some, put, ok_bind]
      rw [ih rest, Nat.add_assoc, Nat.add_comm 1]

theorem stsN_delivers (h : Host) {l : List Octet} {source source' : Source σ}
    {sink sink' : Sink τ} (hs : source.Delivers l source') (hk : sink.Takes l sink') :
    Returns (fun fuel => stsN h fuel source sink l.length)
      (.ok l.length, source', sink') := by
  by_cases hl : l.length = 0
  · have hnil : l = [] := List.length_eq_zero_iff.mp hl
    subst hnil
    cases hs
    cases hk
    exact Returns.of_succ fun _ => rfl
  · -- one round moves all of it, the next one finds nothing left
    have hlast : Returns (fun fuel => stsNLoop h l.length fuel 0 source' sink')
        (.ok l.length, source', sink') := Returns.of_succ fun _ => rfl
    refine hlast.step fun fuel => ?_
    have hmove := stsAtmostCbcLoop_delivers h hs hk 0 0
    rw [Nat.add_zero, Nat.zero_add] at hmove
    rw [stsN, stsNLoop, if_neg hl, stsAtmost, if_neg hl, stsAtmostCbc, hmove]
    simp only [stsAtmostCbcLoop, ok_bind, Nat.sub_self]

end Ufw
