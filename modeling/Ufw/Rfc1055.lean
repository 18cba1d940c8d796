/-
  File:      Ufw/Rfc1055.lean
  Subject:   SLIP (rfc1055.c): the encoder and the decoder of RFC 1055, in classic mode and with a
             start-of-frame delimiter.

  * `rfc1055Encode`, `rfc1055Decode` -- the functions of the source; their loops run on a fuel;
  * `slipEscape`, `slipEncode` -- the octets of a frame on the line, in closed form;
  * `rfc1055Encode_sends` -- **the encoder sends exactly `slipEncode` of what its source holds.**
-/
import Ufw.Endpoints.Transfers

namespace Ufw

open Base

variable {σ τ : Type}

/-! ## 1. Control characters -/

/-- `RAW_EOF` -/
def rawEof : Octet := 0xc0

/-- `RAW_ESC` -/
def rawEsc : Octet := 0xdb

/-- `ESC_EOF` -/
def escEof : Octet := 0xdc

/-- `ESC_ESC` -/
def escEsc : Octet := 0xdd

/-! ## 2. Contexts -/

inductive Rfc1055State where
  | searchForStart
  | searchForEnd
  | normal
  deriving DecidableEq, Repr

/-- `RFC1055Context` -/
structure Rfc1055Context where
  state : Rfc1055State
  flags : BitVec 32
  deriving DecidableEq, Repr

/-- `RFC1055_WITH_SOF` -/
def rfc1055WithSof : BitVec 32 := 1

/-- `RFC1055_DEFAULT` -/
def rfc1055Default : BitVec 32 := 0

/-- `rfc1055_context_init` -/
def rfc1055ContextInit (flags : BitVec 32) : Rfc1055Context where
  state := if bitIsset flags rfc1055WithSof then .searchForStart else .normal
  flags := flags

/-- `RFC1055_CONTEXT_INIT_DEFAULT` -/
def rfc1055ContextInitDefault : Rfc1055Context := { state := .normal, flags := rfc1055Default }

/-! ## 3. The encoder -/

/-- `rfc1055_open` -/
def rfc1055Open (ctx : Rfc1055Context) (sink : Sink τ) : Exec (Rc × Sink τ) := do
  if bitIsset ctx.flags rfc1055WithSof then
    match ← sinkPutOctet sink rawEof with
    | (.error e, sink) => .ok (.error e, sink)
    | (.ok _, sink) => .ok (.ok 0, sink)
  else .ok (.ok 0, sink)

/-- `rfc1055_close` -/
def rfc1055Close (sink : Sink τ) : Exec (Rc × Sink τ) := do
  match ← sinkPutOctet sink rawEof with
  | (.error e, sink) => .ok (.error e, sink)
  | (.ok _, sink) => .ok (.ok 0, sink)

/-- `rfc1055_encode_octet` -/
def rfc1055EncodeOctet (fuel : Nat) (sink : Sink τ) (data : Octet) : Exec (Rc × Sink τ) :=
  if data = rawEsc then sinkPutChunk fuel sink [rawEsc, escEsc]
  else if data = rawEof then sinkPutChunk fuel sink [rawEsc, escEof]
  else sinkPutOctet sink data

/-- The loop of `rfc1055_encode`. -/
def rfc1055EncodeLoop : Nat → Source σ → Sink τ → Exec (Rc × Source σ × Sink τ)
  | 0, _, _ => .error .outOfFuel
  | fuel + 1, source, sink =>
    match sourceGetOctet source with
    | (.error .enodata, source) | (.ok none, source) => do
      let (rc, sink) ← rfc1055Close sink
      .ok (rc, source, sink)
    | (.error e, source) => .ok (.error e, source, sink)
    | (.ok (some data), source) => do
      match ← rfc1055EncodeOctet fuel sink data with
      | (.error e, sink) => .ok (.error e, source, sink)
      | (.ok _, sink) => rfc1055EncodeLoop fuel source sink

/-- `rfc1055_encode` -/
def rfc1055Encode (fuel : Nat) (ctx : Rfc1055Context) (source : Source σ) (sink : Sink τ) :
    Exec (Rc × Source σ × Sink τ) := do
  match ← rfc1055Open ctx sink with
  | (.error e, sink) => .ok (.error e, source, sink)
  | (.ok _, sink) => rfc1055EncodeLoop fuel source sink

/-! ## 4. The decoder -/

/-- `rfc1055_decode_octet`: the return code, what `*data` is set to, and the source. Where the
    source answers 0, the octet read is not initialised. -/
def rfc1055DecodeOctet (h : Host) (source : Source σ) : Rc × Octet × Source σ :=
  match sourceGetOctet source with
  | (.error e, source) => (.error e, 0, source)
  | (.ok first, source) =>
    let first := first.getD h.indeterminate
    if first = rawEsc then
      match sourceGetOctet source with
      | (.error e, source) => (.error e, 0, source)
      | (.ok second, source) =>
        let second := second.getD h.indeterminate
        if second = escEof then (.ok 2, rawEof, source)
        else if second = escEsc then (.ok 2, rawEsc, source)
        else (.error .eilseq, second, source)
    else if first = rawEof then (.ok 0, 0, source)
    else (.ok 1, first, source)

/-- `transition` -/
def transition (h : Host) (source : Source σ) : Rc × Source σ :=
  match sourceGetOctet source with
  | (.error e, source) => (.error e, source)
  | (.ok data, source) => (.ok (if data.getD h.indeterminate = rawEof then 1 else 0), source)

/-- Where the decoder goes on behind the end of a frame. -/
def afterFrame (flags : BitVec 32) : Rfc1055State :=
  if bitIsset flags rfc1055WithSof then .searchForStart else .normal

/-- `rfc1055_decode`; a pass of its loop takes one unit of fuel. -/
def rfc1055Decode (h : Host) : Nat → Rfc1055Context → Source σ → Sink τ →
    Exec (Rc × Rfc1055Context × Source σ × Sink τ)
  | 0, _, _, _ => .error .outOfFuel
  | fuel + 1, ctx, source, sink =>
    match ctx.state with
    | .searchForStart =>
      match transition h source with
      | (.error e, source) => .ok (.error e, ctx, source, sink)
      | (.ok rc, source) =>
        if rc = 1 then rfc1055Decode h fuel { ctx with state := .normal } source sink
        else .ok (.error .eilseq, { ctx with state := .searchForEnd }, source, sink)
    | .searchForEnd =>
      match transition h source with
      | (.error e, source) => .ok (.error e, ctx, source, sink)
      | (.ok rc, source) =>
        if rc = 1 then
          rfc1055Decode h fuel { ctx with state := afterFrame ctx.flags } source sink
        else rfc1055Decode h fuel ctx source sink
    | .normal =>
      match rfc1055DecodeOctet h source with
      | (.error .eilseq, data, source) =>
        let state :=
          if bitIsset ctx.flags rfc1055WithSof then
            if data = rawEof then .searchForStart else .searchForEnd
          else
            if data = rawEof then .normal else .searchForEnd
        .ok (.error .eilseq, { ctx with state }, source, sink)
      | (.error e, _, source) => .ok (.error e, ctx, source, sink)
      | (.ok 0, _, source) =>
        let ctx :=
          if bitIsset ctx.flags rfc1055WithSof then { ctx with state := .searchForStart } else ctx
        .ok (.ok 1, ctx, source, sink)
      | (.ok _, data, source) => do
        match ← sinkPutOctet sink data with
        | (.error e, sink) => .ok (.error e, ctx, source, sink)
        | (.ok _, sink) => rfc1055Decode h fuel ctx source sink

/-! ## 5. The octets of a frame on the line -/

/-- An octet of the payload on the line. -/
def slipEscape (data : Octet) : List Octet :=
  if data = rawEsc then [rawEsc, escEsc]
  else if data = rawEof then [rawEsc, escEof]
  else [data]

/-- The payload on the line. -/
def slipBody (p : List Octet) : List Octet := p.flatMap slipEscape

/-- A frame on the line. -/
def slipEncode (flags : BitVec 32) (p : List Octet) : List Octet :=
  (if bitIsset flags rfc1055WithSof then [rawEof] else []) ++ slipBody p ++ [rawEof]

theorem slipBody_cons (o : Octet) (p : List Octet) :
    slipBody (o :: p) = slipEscape o ++ slipBody p := List.flatMap_cons

/-- `source` answers its next call with the end of its data. -/
def Source.Ends (source source' : Source σ) : Prop :=
  sourceGetOctet source = (.error .enodata, source') ∨ sourceGetOctet source = (.ok none, source')

section Encode

variable {sent : τ → List Octet} {sink : Sink τ}

theorem rfc1055EncodeOctet_sends (hk : sink.Accepting sent) (o : Octet) :
    ∃ sink' rc, Returns (fun fuel => rfc1055EncodeOctet fuel sink o) (.ok rc, sink') ∧
      sink.Sends sent (slipEscape o) sink' := by
  unfold rfc1055EncodeOctet slipEscape
  split
  · obtain ⟨sink', e, hs⟩ := sinkPutChunk_sends hk [rawEsc, escEsc] (by decide)
    exact ⟨sink', _, e, hs⟩
  · split
    · obtain ⟨sink', e, hs⟩ := sinkPutChunk_sends hk [rawEsc, escEof] (by decide)
      exact ⟨sink', _, e, hs⟩
    · obtain ⟨sink', e, hs⟩ := sinkPutOctet_sends hk o
      exact ⟨sink', 1, Returns.of_eq fun _ => e, hs⟩

theorem rfc1055Close_sends (hk : sink.Accepting sent) :
    ∃ sink', rfc1055Close sink = .ok (.ok 0, sink') ∧ sink.Sends sent [rawEof] sink' := by
  obtain ⟨sink', e, hs⟩ := sinkPutOctet_sends hk rawEof
  exact ⟨sink', by simp only [rfc1055Close, e, ok_bind], hs⟩

theorem rfc1055Open_sends (hk : sink.Accepting sent) (ctx : Rfc1055Context) :
    ∃ sink', rfc1055Open ctx sink = .ok (.ok 0, sink') ∧
      sink.Sends sent (if bitIsset ctx.flags rfc1055WithSof then [rawEof] else []) sink' := by
  unfold rfc1055Open
  split
  · obtain ⟨sink', e, hs⟩ := sinkPutOctet_sends hk rawEof
    exact ⟨sink', by simp only [e, ok_bind], hs⟩
  · exact ⟨sink, rfl, .refl sent sink⟩

theorem rfc1055EncodeLoop_sends {source source₁ source' : Source σ} {p : List Octet}
    (hs : source.Delivers p source₁) (he : source₁.Ends source') {sink : Sink τ}
    (hk : sink.Accepting sent) :
    ∃ sink', Returns (fun fuel => rfc1055EncodeLoop fuel source sink) (.ok 0, source', sink') ∧
      sink.Sends sent (slipBody p ++ [rawEof]) sink' := by
  induction hs generalizing sink with
  | nil source =>
    obtain ⟨sink', e, hc⟩ := rfc1055Close_sends hk
    refine ⟨sink', Returns.of_succ fun fuel => ?_, hc⟩
    rw [rfc1055EncodeLoop]
    rcases he with he | he <;> simp only [he, e, ok_bind]
  | @cons _ _ _ o l get _ ih =>
    obtain ⟨sink₁, rc, e1, h1⟩ := rfc1055EncodeOctet_sends hk o
    obtain ⟨sink', e, h2⟩ := ih he (hk.sends h1)
    refine ⟨sink', Returns.step_seq (fun fuel hx => ?_) e1 e, ?_⟩
    · simp only [rfc1055EncodeLoop, get, hx, ok_bind]
    · have ht := h1.trans h2
      rwa [← List.append_assoc, ← slipBody_cons] at ht

/-- **The encoder sends exactly the frame its source holds.** -/
theorem rfc1055Encode_sends {source source₁ source' : Source σ} {p : List Octet}
    (hs : source.Delivers p source₁) (he : source₁.Ends source') (ctx : Rfc1055Context)
    (hk : sink.Accepting sent) :
    ∃ sink', Returns (fun fuel => rfc1055Encode fuel ctx source sink) (.ok 0, source', sink') ∧
      sink.Sends sent (slipEncode ctx.flags p) sink' := by
  obtain ⟨sink₁, e1, h1⟩ := rfc1055Open_sends hk ctx
  obtain ⟨sink', e, h2⟩ := rfc1055EncodeLoop_sends hs he (hk.sends h1)
  refine ⟨sink', Returns.congr (fun fuel => ?_) e, ?_⟩
  · simp only [rfc1055Encode, e1, ok_bind]
  · have ht := h1.trans h2
    rwa [← List.append_assoc] at ht

end Encode

end Ufw
