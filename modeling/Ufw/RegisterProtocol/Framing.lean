/-
  File:      Ufw/RegisterProtocol/Framing.lean
  Subject:   REGISTER PROTOCOL: frames that arrive back to back.

  * `regpRecv_parsed`, `regpRecv_busy` -- what a call makes of a frame of any length, with a block
    and without one;
  * `regpRecv_returns` -- every call returns, at the end of its frame;
  * `regpRecv_framing` -- **every call takes exactly one frame off the stream**, whatever it holds
    and whatever becomes of it.
-/
import Ufw.RegisterProtocol.Reception

namespace Ufw

open Base

variable {σ τ μ α : Type}

/-! ## 1. One frame -/

section Delivered

variable {h : Host} {p : RegP σ τ μ α} {l : List Octet} {source' : Source σ}
  {alloc' : BlockAllocator α}

/-- Where there is a block, what it has room for is parsed. -/
theorem regpRecv_parsed {block : Block} (hl : p.epType = .tcp → l.length ≤ ssizeMax) (hne : l ≠ [])
    (hroom : h.sizeofRPFrame < p.alloc.blocksize)
    (hs : p.source.Delivers (lineEncode p.epType l) source')
    (hblock : blockAlloc p.alloc = (.ok block, alloc')) {r : Rc × RPMaybeFrame × RegP σ τ μ α}
    (hr : Returns (fun fuel => recvParse h fuel { p with source := source', alloc := alloc' }
      (recvBlock h block (recvKept h p l)) (h.sizeofRPFrame + (recvKept h p l).length)) r) :
    Returns (fun fuel => regpRecv h fuel p) r := by
  obtain ⟨k, hdec⟩ := recvDecode_takes h hl hs (recvSink_fills hroom hblock hne)
  refine Returns.bind (g := fun fuel => recvFinish h fuel p) hdec ?_
  rw [blockAlloc_blocksize hblock]
  exact hr

/-- Where there is no block, the answer is that of an early error. -/
theorem regpRecv_busy {e : Errno} (hl : p.epType = .tcp → l.length ≤ ssizeMax) (hne : l ≠ [])
    (hs : p.source.Delivers (lineEncode p.epType l) source')
    (hblock : blockAlloc p.alloc = (.error e, alloc')) {rc : Rc} {p' : RegP σ τ μ α}
    (hr : Returns (fun fuel => regpRespMeta h fuel { p with source := source', alloc := alloc' }
      rpMetaEheaderenc) (rc, p')) :
    ∃ n, Returns (fun fuel => regpRecv h fuel p)
      (rc, { errorId := some .ebusy, framesize := n, frame := none }, p') := by
  obtain ⟨n, ht⟩ := recvSink_busy (h := h) hblock hne
  obtain ⟨k, hdec⟩ := recvDecode_takes h hl hs ht
  refine ⟨n, Returns.bind (g := fun fuel => recvFinish h fuel p) hdec ?_⟩
  exact Returns.seq (fun fuel hx => congrArg (fun x => x >>= _) hx) hr (Returns.of_eq fun _ => rfl)

/-- Sending a meta message changes the sink only. -/
theorem regpRespMeta_returns {sent : τ → List Octet} (hk : p.sink.Accepting sent)
    (metaRaw : BitVec 16) :
    ∃ sink', Returns (fun fuel => regpRespMeta h fuel p metaRaw) (.ok 0, { p with sink := sink' }) ∧
      p.sink.Sends sent (lineEncode p.epType
        (headerOctets (encodeHeader h p .bit8 .metaMessage metaRaw 0 0 0 0))) sink' := by
  have hsize : ((none : Option (List Octet)).getD []).length + rpHeaderSize +
      varint64BitMaxOctets ≤ ssizeMax := by decide
  obtain ⟨sink', hret, hs⟩ := sendMemory_encodeHeader h (q := p) hk .bit8 .metaMessage metaRaw
    0 0 0 0 hsize
  rw [Option.getD_none, List.append_nil] at hs
  exact ⟨sink', hret, hs⟩

/-- A frame with a bad header is answered with a meta message. -/
theorem recvMeta_returns {sent : τ → List Octet} (hk : p.sink.Accepting sent) (metaRaw : BitVec 16)
    (mf : RPMaybeFrame) : ∃ rc mf' sink', Returns (fun fuel => do
        let (rc, p) ← regpRespMeta h fuel p metaRaw
        .ok (rc, mf, p)) (rc, mf', { p with sink := sink' }) ∧ sink'.Accepting sent := by
  obtain ⟨sink', hret, hs⟩ := regpRespMeta_returns (h := h) hk metaRaw
  exact ⟨_, _, sink', Returns.seq (fun fuel hx => congrArg (fun x => x >>= _) hx) hret
    (Returns.of_eq fun _ => rfl), hk.sends hs⟩

/-- The parser returns; where the header is bad it sends a meta message. -/
theorem recvParse_returns {sent : τ → List Octet} (hk : p.sink.Accepting sent) (block : Block)
    (used : Nat) :
    ∃ rc mf sink', Returns (fun fuel => recvParse h fuel p block used)
      (rc, mf, { p with sink := sink' }) ∧ sink'.Accepting sent := by
  rcases hval : (parseFrame h block used).val with ⟨frame, e | k⟩
  · unfold recvParse
    rw [hval]
    dsimp only
    split
    · exact recvMeta_returns hk rpMetaEheaderenc _
    · exact recvMeta_returns hk rpMetaEheadercrc _
    · exact ⟨_, _, p.sink, Returns.of_eq fun _ => rfl, hk⟩
  · unfold recvParse
    rw [hval]
    exact ⟨_, _, p.sink, Returns.of_eq fun _ => rfl, hk⟩

end Delivered

/-! ## 2. A stream of frames -/

/-- An instance that can receive on the channel `ep`: its sink takes the answers, and its blocks
    have room for the `RPFrame`, as `setup_buffer` asserts. -/
structure RegP.Listens (h : Host) (sent : τ → List Octet) (ep : RPEndpointType)
    (p : RegP σ τ μ α) : Prop where
  channel : p.epType = ep
  sink : p.sink.Accepting sent
  room : h.sizeofRPFrame < p.alloc.blocksize

/-- **Every call takes a frame of the list off the stream, and nothing else.** Between two calls
    the caller may do what it likes with the instance, but not read the source. -/
def KeepsFraming (h : Host) (sent : τ → List Octet) (ep : RPEndpointType) :
    List (List Octet) → RegP σ τ μ α → Prop
  | [], _ => True
  | l :: rest, p => ∃ rc mf p', Returns (fun fuel => regpRecv h fuel p) (rc, mf, p') ∧
      p.source.Delivers (lineEncode ep l) p'.source ∧ p'.Listens h sent ep ∧
      ∀ q : RegP σ τ μ α, q.Listens h sent ep → q.source = p'.source →
        KeepsFraming h sent ep rest q

section Framing

variable {h : Host} {sent : τ → List Octet} {ep : RPEndpointType} {p : RegP σ τ μ α}

/-- **A call returns at the end of its frame**, however long it is, and with a block or without. -/
theorem regpRecv_returns (hp : p.Listens h sent ep) {l : List Octet} (hne : l ≠ [])
    (hl : ep = .tcp → l.length ≤ ssizeMax) {source' : Source σ}
    (hs : p.source.Delivers (lineEncode ep l) source') :
    ∃ rc mf p', Returns (fun fuel => regpRecv h fuel p) (rc, mf, p') ∧
      p'.source = source' ∧ p'.Listens h sent ep := by
  obtain ⟨rfl, hk, hroom⟩ := hp
  rcases hblock : blockAlloc p.alloc with ⟨e | block, alloc'⟩
  · have hsize := blockAlloc_blocksize hblock
    obtain ⟨sink', hmeta, hsent⟩ := regpRespMeta_returns (h := h)
      (p := { p with source := source', alloc := alloc' }) hk rpMetaEheaderenc
    obtain ⟨n, hret⟩ := regpRecv_busy hl hne hs hblock hmeta
    exact ⟨_, _, _, hret, rfl, rfl, hk.sends hsent, hsize ▸ hroom⟩
  · have hsize := blockAlloc_blocksize hblock
    obtain ⟨rc, mf, sink', hparse, hk'⟩ := recvParse_returns (h := h)
      (p := { p with source := source', alloc := alloc' }) hk (recvBlock h block (recvKept h p l))
      (h.sizeofRPFrame + (recvKept h p l).length)
    exact ⟨_, _, _, regpRecv_parsed hl hne hroom hs hblock hparse, rfl, rfl, hk', hsize ▸ hroom⟩

/-- **Reception never loses framing**: over a stream of frames sent back to back, each call of
    `regp_recv` takes its frame off the stream. (`SSIZE_MAX` limits what a prefix can announce.) -/
theorem regpRecv_framing (hp : p.Listens h sent ep) {frames : List (List Octet)}
    (hne : ∀ l ∈ frames, l ≠ []) (hl : ep = .tcp → ∀ l ∈ frames, l.length ≤ ssizeMax)
    {source' : Source σ} (hs : p.source.Delivers (frames.flatMap (lineEncode ep)) source') :
    KeepsFraming h sent ep frames p := by
  induction frames generalizing p with
  | nil => exact trivial
  | cons l rest ih =>
    rw [List.flatMap_cons] at hs
    obtain ⟨source₁, hs1, hs2⟩ := hs.append_inv
    obtain ⟨rc, mf, p', hret, rfl, hp'⟩ := regpRecv_returns hp (hne l (List.mem_cons_self ..))
      (fun htcp => hl htcp l (List.mem_cons_self ..)) hs1
    refine ⟨rc, mf, p', hret, hs1, hp', fun q hq hqs => ?_⟩
    refine ih hq (fun m hm => hne m (List.mem_cons_of_mem l hm))
      (fun htcp m hm => hl htcp m (List.mem_cons_of_mem l hm)) ?_
    rw [hqs]
    exact hs2

end Framing

/-- Two frames on a serial line, neither with a header the parser accepts. -/
theorem regpRecv_framing_garbage :
    KeepsFraming lp64Host id .serial [[0x01], [0xc0, 0xdb, 0x02]]
      (ramInstance .serial ([[0x01], [0xc0, 0xdb, 0x02]].flatMap (lineEncode .serial))) :=
  have hp : (ramInstance .serial
      ([[0x01], [0xc0, 0xdb, 0x02]].flatMap (lineEncode .serial))).Listens
      lp64Host id .serial := ⟨rfl, collectSink_accepting [], by decide⟩
  regpRecv_framing hp (by decide) nofun (streamSource_delivers_all _)

end Ufw
