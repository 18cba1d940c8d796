/-
  File:      Ufw/RegisterProtocol/Send.lean
  Subject:   REGISTER PROTOCOL: what an instance sends (register-protocol.c): the request API and
             the response API.

  * `sendMemory` -- a header and a payload, framed for the channel of the instance;
  * `regpReqRead8` … `regpReqWrite16`, `regpRespAck` … `regpRespMeta` -- the two APIs;
  * `lineEncode`, `sendMemory_sends` -- **what goes out is the frame of header and payload.**
-/
import Ufw.LengthPrefix
import Ufw.Rfc1055
import Ufw.RegisterProtocol.Header

namespace Ufw

open Base

variable {σ τ μ α : Type}

/-! ## 1. Framing -/

/-- `BYTE_BUFFER` over the octets of a header or a payload. -/
def chunkOf (l : List Octet) : ByteBuffer := byteBufferOf (Mem.ofList 0 l) l.length

/-- `send_memory`; `pl` is `none` where the source passes NULL. -/
def sendMemory (h : Host) (fuel : Nat) (p : RegP σ τ μ α) (hdr : List Octet)
    (pl : Option (List Octet)) : Exec (Rc × RegP σ τ μ α) := do
  let data : ByteChunks := { chunk := chunkOf hdr :: (pl.map chunkOf).toList, active := 0 }
  match p.epType with
  | .tcp =>
    match ← lenpChunksToSink h fuel p.sink data with
    | (.error e, sink) => .ok (.error e, { p with sink })
    | (.ok _, sink) => .ok (.ok 0, { p with sink })
  | .serial =>
    let (rc, _, sink) ←
      rfc1055Encode fuel rfc1055ContextInitDefault (sourceFromChunks data) p.sink
    .ok (rc, { p with sink })

/-! ## 2. The request API -/

/-- The four requests: they differ in the word size, the type and the payload. -/
def regpReq (h : Host) (fuel : Nat) (p : RegP σ τ μ α) (msem : Msem) (type : RPFrameType)
    (address : BitVec 32) (n : Nat) (plcrc : BitVec 16) (pl : Option (List Octet)) :
    Exec (Rc × RegP σ τ μ α) :=
  let header := encodeHeader h p msem type 0 p.sequence address n plcrc
  sendMemory h fuel { p with sequence := p.sequence + 1 } (headerOctets header) pl

/-- `regp_req_read8` -/
def regpReqRead8 (h : Host) (fuel : Nat) (p : RegP σ τ μ α) (address : BitVec 32) (n : Nat) :
    Exec (Rc × RegP σ τ μ α) := regpReq h fuel p .bit8 .readRequest address n 0 none

/-- `regp_req_read16` -/
def regpReqRead16 (h : Host) (fuel : Nat) (p : RegP σ τ μ α) (address : BitVec 32) (n : Nat) :
    Exec (Rc × RegP σ τ μ α) := regpReq h fuel p .bit16 .readRequest address n 0 none

/-- `regp_req_write8`; `buf` are the `n` octets behind the pointer. -/
def regpReqWrite8 (h : Host) (fuel : Nat) (p : RegP σ τ μ α) (address : BitVec 32)
    (buf : List (BitVec 8)) : Exec (Rc × RegP σ τ μ α) :=
  regpReq h fuel p .bit8 .writeRequest address buf.length (ufwBufferCrc16Arc buf) (some buf)

/-- `regp_req_write16`; `buf` are the `n` words behind the pointer. -/
def regpReqWrite16 (h : Host) (fuel : Nat) (p : RegP σ τ μ α) (address : BitVec 32)
    (buf : List (BitVec 16)) : Exec (Rc × RegP σ τ μ α) :=
  regpReq h fuel p .bit16 .writeRequest address buf.length (ufwBufferCrc16ArcU16 h buf)
    (some (wordOctets h buf))

/-! ## 3. The response API -/

/-- `req2resp` -/
def req2resp : RPFrameType → RPFrameType
  | .readRequest => .readResponse
  | .writeRequest => .writeResponse
  | _ => .metaMessage

/-- `send_resp_0` -/
def sendResp0 (h : Host) (fuel : Nat) (p : RegP σ τ μ α) (f : RPFrame) (code : RPResponse)
    (msem : Msem) : Exec (Rc × RegP σ τ μ α) :=
  let header :=
    encodeHeader h p msem (req2resp f.header.type) code.code f.header.sequence f.header.address 0 0
  sendMemory h fuel p (headerOctets header) none

/-- `msem_size` -/
def msemSize (p : RegP σ τ μ α) : Msem → Nat → Nat
  | .bit16, n => n
  | .bit8, n => n * 2
  | .auto, n => n * (if p.memory.type = .memtype16 then 1 else 2)

/-- `send_resp_32` -/
def sendResp32 (h : Host) (fuel : Nat) (p : RegP σ τ μ α) (f : RPFrame) (code : RPResponse)
    (pl : BitVec 32) (msem : Msem) : Exec (Rc × RegP σ τ μ α) :=
  let plbuf := bfSetU32b h pl
  let plcrc := ufwBufferCrc16ArcU16 h (octetWords h plbuf)
  let header := encodeHeader h p msem (req2resp f.header.type) code.code f.header.sequence
    f.header.address (msemSize p msem 2) plcrc
  sendMemory h fuel p (headerOctets header) (some plbuf)

/-- `regp_resp_ack`; the payload is behind the pointer `pl`, which may be NULL. -/
def regpRespAck (h : Host) (fuel : Nat) (p : RegP σ τ μ α) (f : RPFrame)
    (pl : Option (Mem Octet)) (n : Nat) : Exec (Rc × RegP σ τ μ α) :=
  let plsize := match p.memory.type with
    | .memtype16 => n * 2
    | .memtype8 => n
  let plcrc := match pl, p.memory.type with
    | none, _ => 0
    | some pl, .memtype16 => ufwBufferCrc16ArcU16 h (octetWords h (pl.slice 0 (n * 2)))
    | some pl, .memtype8 => ufwBufferCrc16Arc (pl.slice 0 n)
  let header := encodeHeader h p .auto (req2resp f.header.type) 0 f.header.sequence
    f.header.address n plcrc
  sendMemory h fuel p (headerOctets header) (pl.map fun pl => pl.slice 0 plsize)

section Errors

variable (h : Host) (fuel : Nat) (p : RegP σ τ μ α) (f : RPFrame)

/-- `regp_resp_ewordsize` -/
def regpRespEwordsize : Exec (Rc × RegP σ τ μ α) := sendResp0 h fuel p f .ewordsize .bit8

/-- `regp_resp_epayloadcrc` -/
def regpRespEpayloadcrc : Exec (Rc × RegP σ τ μ α) := sendResp0 h fuel p f .epayloadcrc .bit8

/-- `regp_resp_epayloadsize` -/
def regpRespEpayloadsize : Exec (Rc × RegP σ τ μ α) := sendResp0 h fuel p f .epayloadsize .bit8

/-- `regp_resp_erxoverflow` -/
def regpRespErxoverflow (size : BitVec 32) : Exec (Rc × RegP σ τ μ α) :=
  sendResp32 h fuel p f .erxoverflow size .bit8

/-- `regp_resp_etxoverflow` -/
def regpRespEtxoverflow (size : BitVec 32) : Exec (Rc × RegP σ τ μ α) :=
  sendResp32 h fuel p f .etxoverflow size .bit8

/-- `regp_resp_ebusy` -/
def regpRespEbusy : Exec (Rc × RegP σ τ μ α) := sendResp0 h fuel p f .ebusy .bit8

/-- `regp_resp_eunmapped` -/
def regpRespEunmapped (address : BitVec 32) : Exec (Rc × RegP σ τ μ α) :=
  sendResp32 h fuel p f .eunmapped address .bit8

/-- `regp_resp_eaccess` -/
def regpRespEaccess (address : BitVec 32) : Exec (Rc × RegP σ τ μ α) :=
  sendResp32 h fuel p f .eaccess address .bit8

/-- `regp_resp_erange` -/
def regpRespErange (address : BitVec 32) : Exec (Rc × RegP σ τ μ α) :=
  sendResp32 h fuel p f .erange address .bit8

/-- `regp_resp_einvalid` -/
def regpRespEinvalid (address : BitVec 32) : Exec (Rc × RegP σ τ μ α) :=
  sendResp32 h fuel p f .einvalid address .bit8

/-- `regp_resp_eio` -/
def regpRespEio : Exec (Rc × RegP σ τ μ α) := sendResp0 h fuel p f .eio .bit8

end Errors

/-- `regp_resp_meta` -/
def regpRespMeta (h : Host) (fuel : Nat) (p : RegP σ τ μ α) (metaRaw : BitVec 16) :
    Exec (Rc × RegP σ τ μ α) :=
  sendMemory h fuel p (headerOctets (encodeHeader h p .bit8 .metaMessage metaRaw 0 0 0 0)) none

/-! ## 4. What goes out -/

/-- A frame on the line of a channel. -/
def lineEncode (ep : RPEndpointType) (l : List Octet) : List Octet :=
  match ep with
  | .tcp => lenpEncode l
  | .serial => slipEncode rfc1055Default l

/-- The chunks `send_memory` sends hold the header and the payload. -/
theorem sendMemory_chunks (hdr : List Octet) (pl : Option (List Octet))
    (hsize : hdr.length + (pl.getD []).length ≤ ssizeMax) :
    (ByteChunks.mk (chunkOf hdr :: (pl.map chunkOf).toList) 0).Valid ∧
    (ByteChunks.mk (chunkOf hdr :: (pl.map chunkOf).toList) 0).unread = hdr ++ pl.getD [] := by
  have hun : ∀ l, (chunkOf l).unread = l := fun l => Mem.slice_ofList 0 l
  cases pl with
  | none =>
    refine ⟨fun b hb => ?_, ?_⟩
    · obtain rfl := List.mem_singleton.mp hb
      exact byteBufferOf_valid _ (by omega)
    · show (chunkOf hdr).unread ++ [] = hdr ++ []
      rw [hun]
  | some pl =>
    rw [Option.getD_some] at hsize
    refine ⟨fun b hb => ?_, ?_⟩
    · rcases List.mem_cons.mp hb with rfl | hb
      · exact byteBufferOf_valid _ (by omega)
      · obtain rfl := List.mem_singleton.mp hb
        exact byteBufferOf_valid _ (by omega)
    · show (chunkOf hdr).unread ++ ((chunkOf pl).unread ++ []) = hdr ++ pl
      rw [hun, hun, List.append_nil]

/-- Sending changes the sink only. -/
theorem sendMemory_sink {h : Host} {fuel : Nat} {p p' : RegP σ τ μ α} {hdr : List Octet}
    {pl : Option (List Octet)} {rc : Rc} (hr : sendMemory h fuel p hdr pl = .ok (rc, p')) :
    ∃ sink, p' = { p with sink } := by
  unfold sendMemory at hr
  dsimp only at hr
  split at hr
  · obtain ⟨⟨rc₁, sink₁⟩, -, hres⟩ := bind_eq_ok hr
    cases rc₁ with
    | error e =>
      cases hres
      exact ⟨_, rfl⟩
    | ok k =>
      cases hres
      exact ⟨_, rfl⟩
  · obtain ⟨⟨rc₁, source₁, sink₁⟩, -, hres⟩ := bind_eq_ok hr
    cases hres
    exact ⟨_, rfl⟩

/-- **What goes out is the frame of header and payload.** -/
theorem sendMemory_sends (h : Host) {p : RegP σ τ μ α} {sent : τ → List Octet}
    (hk : p.sink.Accepting sent) {hdr : List Octet} {pl : Option (List Octet)} (hhdr : hdr ≠ [])
    (hsize : hdr.length + (pl.getD []).length + varint64BitMaxOctets ≤ ssizeMax) :
    ∃ sink', Returns (fun fuel => sendMemory h fuel p hdr pl) (.ok 0, { p with sink := sink' }) ∧
      p.sink.Sends sent (lineEncode p.epType (hdr ++ pl.getD [])) sink' := by
  obtain ⟨hv, hun⟩ := sendMemory_chunks hdr pl (by omega)
  obtain ⟨memory, mem, sequence, epType, source, sink, alloc⟩ := p
  cases epType with
  | tcp =>
    have hne : ∀ b ∈ ((chunkOf hdr :: (pl.map chunkOf).toList).drop 0).dropLast, b.unread ≠ [] := by
      intro b hb
      have hb' : b = chunkOf hdr := by
        cases pl with
        | none => cases hb
        | some pl => exact List.mem_singleton.mp hb
      subst hb'
      rwa [show (chunkOf hdr).unread = hdr from Mem.slice_ofList 0 hdr]
    obtain ⟨sink', rc, hret, hs⟩ := lenpChunksToSink_sends h hk hv
      (by rw [hun, List.length_append]; exact hsize) hne
    rw [hun] at hs
    refine ⟨sink', Returns.seq (y := fun _ => .ok (.ok 0, _)) (fun fuel hx => ?_) hret
      (Returns.of_eq fun _ => rfl), hs⟩
    simp only [sendMemory, hx, ok_bind]
  | serial =>
    obtain ⟨source₁, source', hs1, hend⟩ := sourceFromChunks_delivers hv
    rw [hun] at hs1
    obtain ⟨sink', hret, hs⟩ := rfc1055Encode_sends hs1 (.inl hend) rfc1055ContextInitDefault hk
    refine ⟨sink', Returns.seq (y := fun _ => .ok (.ok 0, _)) (fun fuel hx => ?_) hret
      (Returns.of_eq fun _ => rfl), hs⟩
    simp only [sendMemory, hx, ok_bind]

/-- What goes out, where the header is an encoded one. -/
theorem sendMemory_encodeHeader (h : Host) {p q : RegP σ τ μ α} {sent : τ → List Octet}
    (hk : p.sink.Accepting sent) (msem : Msem) (type : RPFrameType) (metaRaw : BitVec 16)
    (seqno : BitVec 16) (address : BitVec 32) (n : Nat) (plcrc : BitVec 16)
    {pl : Option (List Octet)}
    (hsize : (pl.getD []).length + rpHeaderSize + varint64BitMaxOctets ≤ ssizeMax) :
    ∃ sink', Returns (fun fuel => sendMemory h fuel p
        (headerOctets (encodeHeader h q msem type metaRaw seqno address n plcrc)) pl)
        (.ok 0, { p with sink := sink' }) ∧
      p.sink.Sends sent (lineEncode p.epType
        (headerOctets (encodeHeader h q msem type metaRaw seqno address n plcrc) ++ pl.getD []))
        sink' := by
  obtain ⟨hge, hle⟩ := length_headerOctets_bounds h q msem type metaRaw seqno address n plcrc
  refine sendMemory_sends h hk (fun hnil => ?_) (by omega)
  rw [hnil, List.length_nil] at hge
  omega

end Ufw
