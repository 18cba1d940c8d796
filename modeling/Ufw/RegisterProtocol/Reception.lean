/-
  File:      Ufw/RegisterProtocol/Reception.lean
  Subject:   REGISTER PROTOCOL: what `regp_recv` does with any stream, by what the decoder of the
             channel reads from it.

  * `lineRead` -- the octets the decoder reads from a source, up to its end or an error;
  * `regpRecv_cases` -- **all that a call can do**: fail with the decoder, find no block, or parse
    what the block has room for;
  * `regpRecv_parsesAllocated_iff` -- **an empty frame, and nothing else, is parsed in memory that
    was never allocated.**
-/
import Ufw.Decoders
import Ufw.RegisterProtocol.Responses

namespace Ufw

open Base

variable {σ τ μ α : Type}

/-! ## 1. What the decoder reads -/

/-- The return code of the decoder of a channel, the source then, and the octets decoded. -/
def lineRead (h : Host) (fuel : Nat) (ep : RPEndpointType) (source : Source σ) :
    Exec (Rc × Source σ × List Octet) :=
  match ep with
  | .tcp => do
    let (rc, source, sink) ← lenpDecodeSourceToSink h fuel source (collectSink [])
    .ok (rc, source, sink.driver)
  | .serial => do
    let (rc, _, source, sink) ←
      rfc1055Decode h fuel rfc1055ContextInitDefault source (collectSink [])
    .ok (rc, source, sink.driver)

/-- **The decoder writes what it reads to any total sink.** -/
theorem recvDecode_lineRead (h : Host) (fuel : Nat) (p : RegP σ τ μ α)
    {recv : Sink (ContinuableSink α)} (hk : recv.Total) :
    (lineRead h fuel p.epType p.source = .error .outOfFuel ∧
      recvDecode h fuel p recv = .error .outOfFuel) ∨
    ∃ rc source' v, lineRead h fuel p.epType p.source = .ok (rc, source', v) ∧
      ∀ recv', recv.Takes v recv' → recvDecode h fuel p recv = .ok (rc, source', recv') := by
  obtain ⟨memory, mem, sequence, epType, source, sink, alloc⟩ := p
  cases epType with
  | tcp =>
    rcases lenpDecodeSourceToSink_collects h fuel source [] hk with ⟨h1, h2⟩ | ⟨r, v, hc, hs⟩
    · exact .inl ⟨by simp only [lineRead, h1, error_bind], h2⟩
    · exact .inr ⟨r.1, r.2, v, by simp only [lineRead, hc, ok_bind]; rfl, hs⟩
  | serial =>
    rcases rfc1055Decode_collects h fuel rfc1055ContextInitDefault source [] hk with
      ⟨h1, h2⟩ | ⟨r, v, hc, hs⟩
    · exact .inl ⟨by simp only [lineRead, h1, error_bind],
        by simp only [recvDecode, h2, error_bind]⟩
    · refine .inr ⟨r.1, r.2.2, v, by simp only [lineRead, hc, ok_bind]; rfl, fun recv' ht => ?_⟩
      simp only [recvDecode, hs recv' ht, ok_bind]

/-- What the decoder has read, it has written. -/
theorem recvDecode_of_lineRead {h : Host} {fuel : Nat} {p : RegP σ τ μ α}
    {recv recv' : Sink (ContinuableSink α)} (hk : recv.Total) {rc : Rc} {source' : Source σ}
    {v : List Octet} (hread : lineRead h fuel p.epType p.source = .ok (rc, source', v))
    (ht : recv.Takes v recv') : recvDecode h fuel p recv = .ok (rc, source', recv') := by
  rcases recvDecode_lineRead h fuel p hk with ⟨hout, -⟩ | ⟨rc₁, source₁, v₁, hread₁, hdec⟩
  · rw [hread] at hout
    cases hout
  · rw [hread] at hread₁
    cases hread₁
    exact hdec recv' ht

/-- What is read from a frame on the line is the frame. -/
theorem lineRead_delivers (h : Host) {ep : RPEndpointType} {l : List Octet}
    {source source' : Source σ} (hl : ep = .tcp → l.length ≤ ssizeMax)
    (hs : source.Delivers (lineEncode ep l) source') :
    ∃ rc, Returns (fun fuel => lineRead h fuel ep source) (.ok rc, source', l) := by
  obtain ⟨sink', ht, d, rfl, hd⟩ := (collectSink_accepting []).takes l
  obtain rfl : d = l := hd
  cases ep with
  | tcp =>
    refine ⟨d.length, Returns.seq (fun fuel hx => ?_)
      (lenpDecodeSourceToSink_delivers h (hl rfl) hs ht) (Returns.of_eq fun _ => rfl)⟩
    exact congrArg (fun x => x >>= _) hx
  | serial =>
    refine ⟨1, Returns.seq (fun fuel hx => ?_)
      (rfc1055Decode_takes h rfc1055Default hs ht) (Returns.of_eq fun _ => rfl)⟩
    exact congrArg (fun x => x >>= _) hx

/-- **A frame is known by its octets on the line.** -/
theorem lineEncode_inj {ep : RPEndpointType} {l l' : List Octet}
    (hl : l.length + varint64BitMaxOctets ≤ ssizeMax) (he : lineEncode ep l = lineEncode ep l') :
    l = l' := by
  have hl' : ep = .tcp → l'.length ≤ ssizeMax := by
    rintro rfl
    have hlen := congrArg List.length (show lenpEncode l = lenpEncode l' from he)
    have hmax : (varintEncode l.length).length ≤ varint64BitMaxOctets :=
      length_varintEncode_le 9 _ (by unfold ssizeMax at hl; omega)
    simp only [lenpEncode, List.length_append] at hlen
    omega
  obtain ⟨rc, hread⟩ := lineRead_delivers lp64Host (fun _ => by omega)
    (streamSource_delivers_all (lineEncode ep l))
  obtain ⟨rc', hread'⟩ := lineRead_delivers lp64Host hl'
    (streamSource_delivers_all (lineEncode ep l'))
  rw [he] at hread
  exact congrArg (fun r => r.2.2) (hread.unique hread')

/-- **An empty frame is next**: on a serial line, the delimiter is the next octet; on TCP, the
    prefix says that there are no octets. -/
def EmptyFrame (h : Host) (p : RegP σ τ μ α) : Prop :=
  match p.epType with
  | .serial => ∃ o, (sourceGetOctet p.source).1 = .ok o ∧ o.getD h.indeterminate = rawEof
  | .tcp => ∃ rc source', varintU64FromSource h p.source = (.ok rc, 0, source')

theorem rfc1055DecodeOctet_zero {h : Host} {source : Source σ} :
    (rfc1055DecodeOctet h source).1 = .ok 0 ↔
      ∃ o, (sourceGetOctet source).1 = .ok o ∧ o.getD h.indeterminate = rawEof := by
  unfold rfc1055DecodeOctet
  rcases hget : sourceGetOctet source with ⟨e | o, source₁⟩
  · simp
  · dsimp only
    by_cases hesc : o.getD h.indeterminate = rawEsc
    · have hne : o.getD h.indeterminate ≠ rawEof := by
        rw [hesc]
        decide
      rw [if_pos hesc]
      refine iff_of_false ?_ ?_
      · rcases sourceGetOctet source₁ with ⟨e | o₂, source₂⟩
        · simp
        · dsimp only
          split
          · simp
          · split <;> simp
      · rintro ⟨o', ho', heof⟩
        cases ho'
        exact hne heof
    · rw [if_neg hesc]
      by_cases heof : o.getD h.indeterminate = rawEof
      · rw [if_pos heof]
        exact iff_of_true rfl ⟨o, rfl, heof⟩
      · rw [if_neg heof]
        refine iff_of_false (by simp) ?_
        rintro ⟨o', ho', heof'⟩
        cases ho'
        exact heof heof'

/-- The decoder ends well without an octet where an empty frame is next, and only there. -/
theorem emptyFrame_iff (h : Host) (p : RegP σ τ μ α) :
    EmptyFrame h p ↔
      ∃ fuel rc source', lineRead h fuel p.epType p.source = .ok (.ok rc, source', []) := by
  obtain ⟨memory, mem, sequence, epType, source, sink, alloc⟩ := p
  cases epType with
  | tcp =>
    constructor
    · rintro ⟨rc, source', hv⟩
      refine ⟨1, 0, source', ?_⟩
      simp only [lineRead, lenpDecodeSourceToSink, flenpDecodeSourceToSink, decodePrefix, if_true,
        hv, ok_bind]
      rfl
    · rintro ⟨fuel, rc, source', hread⟩
      rcases hv : varintU64FromSource h source with ⟨e | k, len, source₁⟩
      · simp only [lineRead, lenpDecodeSourceToSink, flenpDecodeSourceToSink, decodePrefix, if_true,
          hv, ok_bind] at hread
        cases hread
      · simp only [lineRead, lenpDecodeSourceToSink, flenpDecodeSourceToSink, decodePrefix, if_true,
          hv, ok_bind] at hread
        obtain ⟨⟨rc₁, source₂, sink₁⟩, hsts, hres⟩ := bind_eq_ok hread
        simp only [Except.ok.injEq, Prod.mk.injEq] at hres
        obtain ⟨rfl, -, hw⟩ := hres
        have hlen := stsN_length h hsts
        rw [hw, List.length_nil, Nat.zero_add] at hlen
        obtain rfl : len = 0 := BitVec.eq_of_toNat_eq hlen.symm
        exact ⟨k, source₁, hv⟩
  | serial =>
    show (∃ o, (sourceGetOctet source).1 = .ok o ∧ o.getD h.indeterminate = rawEof) ↔ _
    rw [← rfc1055DecodeOctet_zero]
    constructor
    · intro hzero
      rcases ho : rfc1055DecodeOctet h source with ⟨rc, data, source₁⟩
      rw [ho] at hzero
      obtain rfl : rc = .ok 0 := hzero
      refine ⟨1, 1, source₁, ?_⟩
      simp only [lineRead, rfc1055Decode, rfc1055ContextInitDefault, ho, ok_bind]
      rfl
    · rintro ⟨fuel, rc, source', hread⟩
      obtain ⟨⟨rc₁, ctx₁, source₁, sink₁⟩, hdec, hres⟩ := bind_eq_ok hread
      simp only [Except.ok.injEq, Prod.mk.injEq] at hres
      obtain ⟨rfl, -, hw⟩ := hres
      cases fuel with
      | zero => cases hdec
      | succ fuel =>
        rcases ho : rfc1055DecodeOctet h source with ⟨e | n, data, source₂⟩
        · cases e <;> (simp only [rfc1055Decode, rfc1055ContextInitDefault, ho] at hdec; cases hdec)
        · cases n with
          | zero => rfl
          | succ n =>
            -- an octet was written, so the sink is not empty
            simp only [rfc1055Decode, rfc1055ContextInitDefault, ho, sinkPutOctet_collect, ok_bind,
              List.nil_append] at hdec
            obtain ⟨⟨rc₁, ctx₂, source₃⟩, v, he⟩ :=
              (rfc1055Decode_collects h fuel ⟨.normal, rfc1055Default⟩ source₂ [data]
                (collectSink_accepting [data]).total).result hdec
            cases he
            cases hw

/-! ## 2. What a call does -/

/-- A block that was filled with the octets of a frame. -/
def recvBlock (h : Host) (block : Block) (l : List Octet) : Block :=
  { block with octets := block.octets.store h.sizeofRPFrame l }

/-- What there is room for in a block, of the octets of a frame. -/
def recvKept (h : Host) (p : RegP σ τ μ α) (v : List Octet) : List Octet :=
  v.take (p.alloc.blocksize - h.sizeofRPFrame)

section Sinks

variable {h : Host} {alloc alloc' : BlockAllocator α} {v : List Octet}

/-- The sink, once it has its block. -/
theorem recvSink_fills {block : Block} (hroom : h.sizeofRPFrame < alloc.blocksize)
    (hblock : blockAlloc alloc = (.ok block, alloc')) (hv : v ≠ []) :
    (continuableSinkInit (recvSink h alloc)).Takes v (continuableSink { recvSink h alloc with
      alloc := some alloc'
      buffer := csBuffer block h.sizeofRPFrame alloc'.blocksize
        (v.take (alloc'.blocksize - h.sizeofRPFrame)) }) := by
  have hsize := blockAlloc_blocksize hblock
  exact continuableSink_fills (recvSink h alloc) rfl rfl hblock
    (setupBuffer_fresh block (by omega)) h.sizeofRPFrame_pos (by omega) hv

/-- The sink, once allocation has failed. -/
theorem recvSink_busy {e : Errno} (hblock : blockAlloc alloc = (.error e, alloc'))
    (hv : v ≠ []) :
    ∃ n, (continuableSinkInit (recvSink h alloc)).Takes v (continuableSink
      { recvSink h alloc with alloc := some alloc', errorId := some .ebusy, datacount := n }) :=
  continuableSink_busy (recvSink h alloc) rfl rfl hblock rfl hv

/-- The sink takes any frame. -/
theorem recvSink_total (hroom : h.sizeofRPFrame < alloc.blocksize) :
    (continuableSinkInit (recvSink h alloc)).Total := by
  intro v
  by_cases hv : v = []
  · subst hv
    exact ⟨_, .nil _⟩
  · rcases hblock : blockAlloc alloc with ⟨e | block, alloc'⟩
    · obtain ⟨n, ht⟩ := recvSink_busy (h := h) hblock hv
      exact ⟨_, ht⟩
    · exact ⟨_, recvSink_fills hroom hblock hv⟩

end Sinks

/-- **All that a call of `regp_recv` can do.** The decoder fails; or there is no block for what it
    reads; or what it reads is parsed, as far as the block has room for it. -/
inductive RecvCase (h : Host) (fuel : Nat) (p : RegP σ τ μ α) :
    Rc → RPMaybeFrame → RegP σ τ μ α → Prop
  | failed {e : Errno} {source' : Source σ} {v : List Octet}
      (read : lineRead h fuel p.epType p.source = .ok (.error e, source', v)) :
      RecvCase h fuel p (.error e) { errorId := none, framesize := 0, frame := none }
        { p with source := source'
                 alloc := if v = [] then p.alloc else (blockAlloc p.alloc).2 }
  | busy {k n : Nat} {e : Errno} {source' : Source σ} {v : List Octet} {alloc' : BlockAllocator α}
      {rc : Rc} {p' : RegP σ τ μ α}
      (read : lineRead h fuel p.epType p.source = .ok (.ok k, source', v)) (octets : v ≠ [])
      (refused : blockAlloc p.alloc = (.error e, alloc'))
      (answer : regpRespMeta h fuel { p with source := source', alloc := alloc' }
        rpMetaEheaderenc = .ok (rc, p')) :
      RecvCase h fuel p rc { errorId := some .ebusy, framesize := n, frame := none } p'
  | parsed {k : Nat} {block : Block} {source' : Source σ} {v : List Octet}
      {alloc' : BlockAllocator α} {rc : Rc} {mf : RPMaybeFrame} {p' : RegP σ τ μ α}
      (read : lineRead h fuel p.epType p.source = .ok (.ok k, source', v)) (octets : v ≠ [])
      (allocated : blockAlloc p.alloc = (.ok block, alloc'))
      (parse : recvParse h fuel { p with source := source', alloc := alloc' }
        (recvBlock h block (recvKept h p v)) (h.sizeofRPFrame + (recvKept h p v).length) =
        .ok (rc, mf, p')) :
      RecvCase h fuel p rc mf p'

/-- What a call makes of the octets the decoder has read. -/
theorem recvFinish_read (h : Host) (fuel : Nat) (p : RegP σ τ μ α)
    (hroom : h.sizeofRPFrame < p.alloc.blocksize) (rc : Rc) (source' : Source σ)
    (v : List Octet) :
    ∃ recv', (continuableSinkInit (recvSink h p.alloc)).Takes v recv' ∧
      ∀ rc' mf p', lineRead h fuel p.epType p.source = .ok (rc, source', v) →
        recvFinish h fuel p (rc, source', recv') = .ok (rc', mf, p') →
        RecvCase h fuel p rc' mf p' := by
  by_cases hv : v = []
  · subst hv
    refine ⟨_, .nil _, fun rc' mf p' hread hr => ?_⟩
    cases rc with
    | error e =>
      cases hr
      exact .failed hread
    | ok k => cases hr
  · rcases hblock : blockAlloc p.alloc with ⟨e | block, alloc'⟩
    · obtain ⟨n, ht⟩ := recvSink_busy (h := h) hblock hv
      refine ⟨_, ht, fun rc' mf p' hread hr => ?_⟩
      cases rc with
      | error e' =>
        cases hr
        have hfailed := RecvCase.failed hread
        rw [if_neg hv, hblock] at hfailed
        exact hfailed
      | ok k =>
        obtain ⟨⟨rc₁, p₁⟩, hmeta, hres⟩ := bind_eq_ok hr
        cases hres
        exact .busy hread hv hblock hmeta
    · have hsize := blockAlloc_blocksize hblock
      refine ⟨_, recvSink_fills hroom hblock hv, fun rc' mf p' hread hr => ?_⟩
      cases rc with
      | error e' =>
        cases hr
        have hfailed := RecvCase.failed hread
        rw [if_neg hv, hblock] at hfailed
        exact hfailed
      | ok k =>
        rw [hsize] at hr
        exact .parsed hread hv hblock hr

/-- **A call of `regp_recv` does one of these.** -/
theorem regpRecv_cases {h : Host} {fuel : Nat} {p p' : RegP σ τ μ α}
    (hroom : h.sizeofRPFrame < p.alloc.blocksize) {rc : Rc} {mf : RPMaybeFrame}
    (hr : regpRecv h fuel p = .ok (rc, mf, p')) : RecvCase h fuel p rc mf p' := by
  rcases recvDecode_lineRead h fuel p (recvSink_total hroom) with
    ⟨-, hout⟩ | ⟨rc₀, source', v, hread, hdec⟩
  · rw [regpRecv, hout] at hr
    cases hr
  · obtain ⟨recv', ht, hcase⟩ := recvFinish_read h fuel p hroom rc₀ source' v
    rw [regpRecv, hdec recv' ht, ok_bind] at hr
    exact hcase _ _ _ hread hr

/-- **A frame stands in a block**, filled up to `used`: the decoder has read octets, and there is
    a block for them. -/
structure Received (h : Host) (fuel : Nat) (p : RegP σ τ μ α) (block : Block) (used : Nat) :
    Prop where
  intro ::
  read : ∃ k source' v block₀ alloc',
    lineRead h fuel p.epType p.source = .ok (.ok k, source', v) ∧ v ≠ [] ∧
    blockAlloc p.alloc = (.ok block₀, alloc') ∧ block = recvBlock h block₀ (recvKept h p v) ∧
    used = h.sizeofRPFrame + (recvKept h p v).length

section Received

variable {h : Host} {fuel : Nat} {p : RegP σ τ μ α} {block : Block} {used : Nat}

/-- A frame in a block is parsed. -/
theorem Received.recv (hroom : h.sizeofRPFrame < p.alloc.blocksize)
    (hrec : Received h fuel p block used) :
    ∃ q : RegP σ τ μ α, regpRecv h fuel p = recvParse h fuel q block used := by
  obtain ⟨k, source', v, block₀, alloc', hread, hv, hblock, rfl, rfl⟩ := hrec.read
  have hdec := recvDecode_of_lineRead (recvSink_total hroom) hread (recvSink_fills hroom hblock hv)
  refine ⟨{ p with source := source', alloc := alloc' }, ?_⟩
  rw [regpRecv, hdec, ok_bind, blockAlloc_blocksize hblock]
  rfl

/-- **A frame that is handed out stands in a block**, and its error is the parser's. -/
theorem Received.of_frame {rc : Rc} {mf : RPMaybeFrame} {p' : RegP σ τ μ α} {f : RPFrame}
    (hroom : h.sizeofRPFrame < p.alloc.blocksize) (hr : regpRecv h fuel p = .ok (rc, mf, p'))
    (hf : mf.frame = some f) :
    ∃ block used, Received h fuel p block used ∧ f = (parseFrame h block used).val.1 ∧
      mf.errorId = rcError (parseFrame h block used).val.2 := by
  cases regpRecv_cases hroom hr with
  | failed read => cases hf
  | busy read octets refused answer => cases hf
  | parsed read octets allocated parse =>
    obtain ⟨herr, hframe⟩ := recvParse_result parse
    exact ⟨_, _, ⟨⟨_, _, _, _, _, read, octets, allocated, rfl, rfl⟩⟩,
      Option.some.inj (hf.symm.trans hframe), herr⟩

/-- A frame that is handed out without an error was accepted by the parser. -/
theorem Received.of_accepted {rc : Rc} {mf : RPMaybeFrame} {p' : RegP σ τ μ α} {f : RPFrame}
    (hroom : h.sizeofRPFrame < p.alloc.blocksize) (hr : regpRecv h fuel p = .ok (rc, mf, p'))
    (herr : mf.errorId = none) (hframe : mf.frame = some f) :
    ∃ block used k, Received h fuel p block used ∧ (parseFrame h block used).val = (f, .ok k) := by
  obtain ⟨block, used, hrec, hf, he⟩ := Received.of_frame hroom hr hframe
  rcases hval : (parseFrame h block used).val with ⟨f', e | k⟩
  · rw [herr, hval] at he
    cases he
  · rw [hval] at hf
    obtain rfl : f = f' := hf
    exact ⟨block, used, k, hrec, hval⟩

end Received

/-! ## 3. The memory a frame is parsed in -/

/-- The buffer `parse_frame` is called with, if it is called. -/
def recvFramebuf : Rc × Source σ × Sink (ContinuableSink α) → Option ByteBuffer
  | (.error _, _, _) => none
  | (.ok _, _, recv) => if recv.driver.errorId.isNone then some recv.driver.buffer else none

/-- Where there is a buffer to parse, `regp_recv` ends as the parser does; without memory, the
    parser does not end. -/
theorem recvFinish_framebuf {h : Host} {fuel : Nat} {p : RegP σ τ μ α} {b : ByteBuffer}
    {d : Rc × Source σ × Sink (ContinuableSink α)} (hb : recvFramebuf d = some b) :
    recvFinish h fuel p d = match b.data with
      | none => .error .fault
      | some block => recvParse h fuel
        { p with source := d.2.1, alloc := d.2.2.driver.alloc.getD p.alloc } block b.used := by
  obtain ⟨rc, source', recv⟩ := d
  cases rc with
  | error e => cases hb
  | ok k =>
    unfold recvFramebuf at hb
    dsimp only at hb
    split at hb
    · rename_i hnone
      cases hb
      have herr : recv.driver.errorId = none := Option.isNone_iff_eq_none.mp hnone
      cases hdata : recv.driver.buffer.data with
      | none => simp only [recvFinish, herr, hdata]
      | some block => simp only [recvFinish, herr, hdata]
    · cases hb

/-- A buffer with a block of the allocator, in which there is room for the `RPFrame`. -/
structure FrameBuffer (h : Host) (p : RegP σ τ μ α) (b : ByteBuffer) : Prop where
  allocated : ∃ block alloc' octets, blockAlloc p.alloc = (.ok block, alloc') ∧
    b.data = some { block with octets }
  used : h.sizeofRPFrame ≤ b.used

/-- **Frames are parsed in allocated memory only**, and an empty frame is an error. -/
structure ParsesAllocated (h : Host) (p : RegP σ τ μ α) : Prop where
  buffer : ∀ fuel d b, recvDecode h fuel p (continuableSinkInit (recvSink h p.alloc)) = .ok d →
    recvFramebuf d = some b → FrameBuffer h p b
  reported : EmptyFrame h p → ∃ fuel rc mf p', regpRecv h fuel p = .ok (rc, mf, p') ∧
    ((∃ e, rc = .error e) ∨ mf.errorId.isSome = true)

/-- An empty frame is parsed where no block was allocated. -/
theorem EmptyFrame.not_parsesAllocated {h : Host} {p : RegP σ τ μ α} (hempty : EmptyFrame h p)
    (hroom : h.sizeofRPFrame < p.alloc.blocksize) : ¬ParsesAllocated h p := by
  intro hp
  obtain ⟨fuel, k, source', hread⟩ := (emptyFrame_iff h p).mp hempty
  have hdec := recvDecode_of_lineRead (recvSink_total hroom) hread (.nil _)
  obtain ⟨block, alloc', octets, -, hdata⟩ := (hp.buffer fuel _ _ hdec rfl).allocated
  cases hdata

/-- **When frames are parsed in allocated memory**: always, but for empty frames. -/
theorem regpRecv_parsesAllocated_iff (h : Host) (p : RegP σ τ μ α)
    (hroom : h.sizeofRPFrame < p.alloc.blocksize) :
    ParsesAllocated h p ↔ ¬EmptyFrame h p := by
  refine ⟨fun hp hempty => hempty.not_parsesAllocated hroom hp, fun hne => ⟨?_, ?_⟩⟩
  · intro fuel d b hdec hb
    rcases recvDecode_lineRead h fuel p (recvSink_total hroom) with
      ⟨-, hout⟩ | ⟨rc, source', v, hread, hall⟩
    · rw [hdec] at hout
      cases hout
    · cases rc with
      | error e =>
        obtain ⟨recv', ht⟩ := recvSink_total (h := h) hroom v
        rw [hall recv' ht] at hdec
        cases hdec
        cases hb
      | ok k =>
        have hv : v ≠ [] := by
          rintro rfl
          exact hne ((emptyFrame_iff h p).mpr ⟨fuel, k, source', hread⟩)
        rcases hblock : blockAlloc p.alloc with ⟨e | block, alloc'⟩
        · -- without a block, the error of the sink keeps the parser from being called
          obtain ⟨n, ht⟩ := recvSink_busy (h := h) hblock hv
          rw [hall _ ht] at hdec
          cases hdec
          cases hb
        · rw [hall _ (recvSink_fills hroom hblock hv)] at hdec
          cases hdec
          cases hb
          exact ⟨⟨block, alloc', _, hblock, rfl⟩, Nat.le_add_right _ _⟩
  · exact fun hempty => absurd hempty hne

theorem regpRecv_parsesAllocated_iff_request :
    ParsesAllocated lp64Host (ramInstance .tcp (14 :: wordRequest)) ↔
      ¬EmptyFrame lp64Host (ramInstance .tcp (14 :: wordRequest)) :=
  regpRecv_parsesAllocated_iff lp64Host _ (by decide)

/-- A delimiter on a serial line, and a length of 0 on TCP. -/
theorem regpRecv_emptyFrame :
    ¬ParsesAllocated lp64Host (ramInstance .serial [0xc0]) ∧
      ¬ParsesAllocated lp64Host (ramInstance .tcp [0x00]) := by
  refine ⟨EmptyFrame.not_parsesAllocated ?_ (by decide),
    EmptyFrame.not_parsesAllocated ?_ (by decide)⟩
  · exact ⟨some 0xc0, rfl, rfl⟩
  · exact ⟨1, streamSource [], rfl⟩

end Ufw
