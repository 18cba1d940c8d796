/-
  File:      Ufw/RegisterProtocol/Recv.lean
  Subject:   REGISTER PROTOCOL: receiving frames (register-protocol.c).

  * `regpRecv` -- the function of the source, with the error paths of reception;
  * `regpRecv_frame` -- **a frame that fits the block is received whole**, and what comes of it is
    what the parser makes of it.
-/
import Ufw.ContinuableSink
import Ufw.Rfc1055.Streams
import Ufw.RegisterProtocol.Parse
import Ufw.RegisterProtocol.Send

namespace Ufw

open Base

variable {σ τ μ α : Type}

/-! ## 1. Early errors -/

/-- `send_early_response` -/
def sendEarlyResponse (h : Host) (fuel : Nat) (p : RegP σ τ μ α) (hdrbuf : ByteBuffer)
    (code : RPResponse) : Exec (Rc × RegP σ τ μ α) :=
  match (parseHeader h default hdrbuf.octets hdrbuf.used).val with
  | (header, .ok _) =>
    let frame : RPFrame :=
      { header, payloadSize := 0, payloadData := 0, memory := hdrbuf.octets, rawSize := 0
        address := 0 }
    sendResp0 h fuel p frame code .bit8
  | (_, .error .ebadmsg) => regpRespMeta h fuel p rpMetaEheaderenc
  | (_, .error .eilseq) => regpRespMeta h fuel p rpMetaEheadercrc
  | (_, .error e) => .ok (.error e, p)

/-- `early_ebusy` -/
def earlyEbusy (h : Host) (fuel : Nat) (p : RegP σ τ μ α) (hdrbuf : ByteBuffer) :
    Exec (Rc × RegP σ τ μ α) := sendEarlyResponse h fuel p hdrbuf .ebusy

/-- `setup_buffer` -/
def setupBuffer (h : Host) (b : ByteBuffer) : Exec ByteBuffer := do
  require (h.sizeofRPFrame < b.size)
  .ok { b with used := h.sizeofRPFrame }

/-! ## 2. Receiving -/

/-- The sink `regp_recv` receives into: `CONTINUABLE_SINK`, with its fallback buffer. -/
def recvSink (h : Host) (alloc : BlockAllocator α) : ContinuableSink α where
  buffer := { data := none, size := 0, used := 0, offset := 0 }
  alloc := some alloc
  fallback := some (byteBufferEmpty ⟨0, fun _ => h.indeterminate⟩ rpHeaderSize)
  postalloc := some (setupBuffer h)
  errorId := none
  datacount := 0

/-- The decoder of the channel's framing. -/
def recvDecode (h : Host) (fuel : Nat) (p : RegP σ τ μ α) (recv : Sink (ContinuableSink α)) :
    Exec (Rc × Source σ × Sink (ContinuableSink α)) :=
  match p.epType with
  | .tcp => lenpDecodeSourceToSink h fuel p.source recv
  | .serial => do
    let (rc, _, source, recv) ← rfc1055Decode h fuel rfc1055ContextInitDefault p.source recv
    .ok (rc, source, recv)

/-- The end of `regp_recv`: the frame is parsed, and errors of its header are answered. -/
def recvParse (h : Host) (fuel : Nat) (p : RegP σ τ μ α) (block : Block) (used : Nat) :
    Exec (Rc × RPMaybeFrame × RegP σ τ μ α) :=
  match (parseFrame h block used).val with
  | (frame, .ok _) => .ok (.ok 0, { errorId := none, framesize := 0, frame := some frame }, p)
  | (frame, .error e) => do
    let mf : RPMaybeFrame := { errorId := some e, framesize := 0, frame := some frame }
    match e with
    | .ebadmsg =>
      let (rc, p) ← regpRespMeta h fuel p rpMetaEheaderenc
      .ok (rc, mf, p)
    | .eilseq =>
      let (rc, p) ← regpRespMeta h fuel p rpMetaEheadercrc
      .ok (rc, mf, p)
    | _ => .ok (.ok 0, mf, p)

/-- `regp_recv`, once the decoder has returned. -/
def recvFinish (h : Host) (fuel : Nat) (p : RegP σ τ μ α) :
    Rc × Source σ × Sink (ContinuableSink α) → Exec (Rc × RPMaybeFrame × RegP σ τ μ α)
  | (rc, source, recv) =>
  let mf : RPMaybeFrame := { errorId := none, framesize := 0, frame := none }
  let cs := recv.driver
  let p := { p with source, alloc := cs.alloc.getD p.alloc }
  match rc with
  | .error e => .ok (.error e, mf, p)
  | .ok _ =>
    match cs.errorId with
    | none =>
      match cs.buffer.data with
      -- no octet was received, so no block was allocated: `parse_frame` is given NULL
      | none => .error .fault
      | some block => recvParse h fuel p block cs.buffer.used
    | some e => do
      let frame := cs.buffer.data.map fun block => rawFrame h block cs.buffer.used
      let mf : RPMaybeFrame := { errorId := some e, framesize := cs.datacount, frame }
      match e with
      | .ebusy =>
        let (rc, p) ← earlyEbusy h fuel p (cs.fallback.getD (byteBufferOf (fun _ => 0) 0))
        .ok (rc, mf, p)
      -- `raw.memory` of a frame that is not parsed yet is no pointer
      | .enomem => .error .fault
      | _ => .ok (.error .einval, mf, p)

/-- `regp_recv` -/
def regpRecv (h : Host) (fuel : Nat) (p : RegP σ τ μ α) :
    Exec (Rc × RPMaybeFrame × RegP σ τ μ α) :=
  recvDecode h fuel p (continuableSinkInit (recvSink h p.alloc)) >>= recvFinish h fuel p

/-! ## 3. A frame that fits -/

/-- A frame that parses is handed out. -/
theorem recvParse_ok {h : Host} {block : Block} {used : Nat} {frame : RPFrame}
    (hparse : (parseFrame h block used).val = (frame, .ok 0)) (fuel : Nat) (p : RegP σ τ μ α) :
    recvParse h fuel p block used =
      .ok (.ok 0, { errorId := none, framesize := 0, frame := some frame }, p) := by
  unfold recvParse
  rw [hparse]

/-- The error of a return code. -/
def rcError : Rc → Option Errno
  | .error e => some e
  | .ok _ => none

/-- **What the parser returns is what is handed out**, whatever is sent. -/
theorem recvParse_result {h : Host} {block : Block} {used fuel : Nat} {p p' : RegP σ τ μ α}
    {rc : Rc} {mf : RPMaybeFrame}
    (hr : recvParse h fuel p block used = .ok (rc, mf, p')) :
    mf.errorId = rcError (parseFrame h block used).val.2 ∧
      mf.frame = some (parseFrame h block used).val.1 := by
  unfold recvParse at hr
  rcases hval : (parseFrame h block used).val with ⟨frame, e | k⟩
  · rw [hval] at hr
    dsimp only at hr
    split at hr
    · obtain ⟨⟨rc₁, p₁⟩, -, hres⟩ := bind_eq_ok hr
      cases hres
      exact ⟨rfl, rfl⟩
    · obtain ⟨⟨rc₁, p₁⟩, -, hres⟩ := bind_eq_ok hr
      cases hres
      exact ⟨rfl, rfl⟩
    · cases hr
      exact ⟨rfl, rfl⟩
  · rw [hval] at hr
    cases hr
    exact ⟨rfl, rfl⟩

/-- The end of a call changes the sink only. -/
theorem recvParse_sink {h : Host} {block : Block} {used fuel : Nat} {p p' : RegP σ τ μ α}
    {rc : Rc} {mf : RPMaybeFrame} (hr : recvParse h fuel p block used = .ok (rc, mf, p')) :
    ∃ sink, p' = { p with sink } := by
  unfold recvParse at hr
  split at hr
  · cases hr
    exact ⟨_, rfl⟩
  · dsimp only at hr
    split at hr
    · obtain ⟨⟨rc₁, p₁⟩, hmeta, hres⟩ := bind_eq_ok hr
      cases hres
      exact sendMemory_sink hmeta
    · obtain ⟨⟨rc₁, p₁⟩, hmeta, hres⟩ := bind_eq_ok hr
      cases hres
      exact sendMemory_sink hmeta
    · cases hr
      exact ⟨_, rfl⟩

/-- What is wrong with a frame is reported. -/
theorem recvParse_error {h : Host} {block : Block} {used : Nat} {e : Errno}
    (hparse : (parseFrame h block used).val.2 = .error e) {fuel : Nat} {p : RegP σ τ μ α}
    {r : Rc × RPMaybeFrame × RegP σ τ μ α} (hr : recvParse h fuel p block used = .ok r) :
    r.2.1.errorId = some e := by
  obtain ⟨rc, mf, p'⟩ := r
  obtain ⟨herr, -⟩ := recvParse_result hr
  rw [herr, hparse]
  rfl

/-- A block is filled from behind its `RPFrame` on. -/
theorem setupBuffer_fresh {h : Host} (block : Block) {size : Nat} (hsize : h.sizeofRPFrame < size) :
    setupBuffer h ⟨some block, size, 0, 0⟩ = .ok (csBuffer block h.sizeofRPFrame size []) := by
  unfold setupBuffer
  rw [require_pos hsize, ok_bind]
  unfold csBuffer
  rw [Mem.store_nil, List.length_nil, Nat.add_zero]

/-- What the decoder stores, the sink has stored behind the `RPFrame`. -/
theorem recvSink_takes (h : Host) {alloc alloc' : BlockAllocator α} {block : Block}
    (hblock : blockAlloc alloc = (.ok block, alloc')) {l : List Octet} (hl : l ≠ [])
    (hfit : h.sizeofRPFrame + l.length ≤ alloc'.blocksize) :
    (continuableSinkInit (recvSink h alloc)).Takes l (continuableSink
      { recvSink h alloc with
        alloc := some alloc', buffer := csBuffer block h.sizeofRPFrame alloc'.blocksize l }) := by
  have hpos : 0 < l.length := List.length_pos_iff.mpr hl
  exact continuableSink_takes (recvSink h alloc) rfl rfl hblock
    (setupBuffer_fresh block (by omega)) h.sizeofRPFrame_pos hl hfit

theorem recvDecode_takes (h : Host) {p : RegP σ τ μ α} {l : List Octet} {source' : Source σ}
    {recv recv' : Sink (ContinuableSink α)} (hl : p.epType = .tcp → l.length ≤ ssizeMax)
    (hs : p.source.Delivers (lineEncode p.epType l) source') (hk : recv.Takes l recv') :
    ∃ rc, Returns (fun fuel => recvDecode h fuel p recv) (.ok rc, source', recv') := by
  obtain ⟨memory, mem, sequence, epType, source, sink, alloc⟩ := p
  cases epType with
  | tcp =>
    exact ⟨l.length,
      Returns.congr (fun fuel => rfl) (lenpDecodeSourceToSink_delivers h (hl rfl) hs hk)⟩
  | serial =>
    refine ⟨1, Returns.seq (fun fuel hx => ?_)
      (rfc1055Decode_takes h rfc1055Default hs hk) (Returns.of_eq fun _ => rfl)⟩
    exact congrArg (fun x => x >>= _) hx

/-- The block of the received frame holds it. -/
theorem csBuffer_holds (h : Host) (block : Block) {l : List Octet}
    (hused : h.sizeofRPFrame + l.length ≤ ssizeMax) :
    Block.Holds h { block with octets := block.octets.store h.sizeofRPFrame l }
      (h.sizeofRPFrame + l.length) l where
  used_eq := rfl
  used_le := hused
  octets := (Mem.slice_shift _ _ _ _).trans (Mem.slice_store block.octets h.sizeofRPFrame l)

/-- **A frame that fits the block is received whole**: what comes of it is what the parser makes of
    a block that holds it. -/
theorem regpRecv_frame (h : Host) {p : RegP σ τ μ α} {l : List Octet} {source' : Source σ}
    {alloc' : BlockAllocator α} {block : Block} (hl : l ≠ [])
    (hs : p.source.Delivers (lineEncode p.epType l) source')
    (hblock : blockAlloc p.alloc = (.ok block, alloc'))
    (hfit : h.sizeofRPFrame + l.length ≤ p.alloc.blocksize) :
    ∃ block', block'.Holds h (h.sizeofRPFrame + l.length) l ∧ block'.address = block.address ∧
      ∀ r, Returns (fun fuel => regpRecv h fuel p) r ↔
        Returns (fun fuel => recvParse h fuel { p with source := source', alloc := alloc' }
          block' (h.sizeofRPFrame + l.length)) r := by
  have hsize := blockAlloc_blocksize hblock
  have hmax := p.alloc.blocksize_le
  have ht := recvSink_takes h hblock hl (by rw [hsize]; exact hfit)
  obtain ⟨rc, hdec⟩ := recvDecode_takes h (fun _ => by omega) hs ht
  refine ⟨_, csBuffer_holds h block (by omega), rfl, fun r => ⟨fun hr => ?_, fun hr => ?_⟩⟩
  · exact Returns.bind_inv (g := fun fuel => recvFinish h fuel p) hdec hr
  · exact Returns.bind (g := fun fuel => recvFinish h fuel p) hdec hr

/-- **A frame that fits and that the parser accepts is handed out.** -/
theorem regpRecv_accepts (h : Host) {p : RegP σ τ μ α} {l : List Octet} {source' : Source σ}
    {alloc' : BlockAllocator α} {block : Block} {frame : Block → RPFrame} (hl : l ≠ [])
    (hs : p.source.Delivers (lineEncode p.epType l) source')
    (hblock : blockAlloc p.alloc = (.ok block, alloc'))
    (hfit : h.sizeofRPFrame + l.length ≤ p.alloc.blocksize)
    (hparse : ∀ block', block'.Holds h (h.sizeofRPFrame + l.length) l →
      (parseFrame h block' (h.sizeofRPFrame + l.length)).val = (frame block', .ok 0)) :
    ∃ block', block'.Holds h (h.sizeofRPFrame + l.length) l ∧
      Returns (fun fuel => regpRecv h fuel p) (.ok 0,
        { errorId := none, framesize := 0, frame := some (frame block') },
        { p with source := source', alloc := alloc' }) := by
  obtain ⟨block', hholds, -, hiff⟩ := regpRecv_frame h hl hs hblock hfit
  exact ⟨block', hholds, (hiff _).mpr (Returns.of_eq fun fuel =>
    recvParse_ok (hparse block' hholds) fuel _)⟩

end Ufw
