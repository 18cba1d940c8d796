/-
  File:      Ufw/RegisterProtocol/Requests.lean
  Subject:   REGISTER PROTOCOL: what a peer makes of the requests an instance sends.

  * `Request` -- a call of the request API;
  * `regpReq_understood` -- **requests that are sent one after another are received as they were
    sent**, and carry consecutive sequence numbers.
-/
import Ufw.RegisterProtocol.EndToEnd
import Ufw.RegisterProtocol.Protection

namespace Ufw

open Base

variable {σ τ μ α : Type} {σ' τ' μ' α' : Type}

/-! ## 1. Calls of the request API -/

/-- The functions `regp_req_read8` … `regp_req_write16`, with their arguments. -/
inductive Request where
  | read8 (address : BitVec 32) (n : Nat)
  | read16 (address : BitVec 32) (n : Nat)
  | write8 (address : BitVec 32) (buf : List (BitVec 8))
  | write16 (address : BitVec 32) (buf : List (BitVec 16))

namespace Request

/-- The call. -/
def send (h : Host) (fuel : Nat) (p : RegP σ τ μ α) : Request → Exec (Rc × RegP σ τ μ α)
  | read8 address n => regpReqRead8 h fuel p address n
  | read16 address n => regpReqRead16 h fuel p address n
  | write8 address buf => regpReqWrite8 h fuel p address buf
  | write16 address buf => regpReqWrite16 h fuel p address buf

/-- The word size the header is encoded for. -/
def msem : Request → Msem
  | read8 _ _ | write8 _ _ => .bit8
  | read16 _ _ | write16 _ _ => .bit16

def type : Request → RPFrameType
  | read8 _ _ | read16 _ _ => .readRequest
  | write8 _ _ | write16 _ _ => .writeRequest

def address : Request → BitVec 32
  | read8 address _ | read16 address _ | write8 address _ | write16 address _ => address

/-- The block size in the header. -/
def words : Request → Nat
  | read8 _ n | read16 _ n => n
  | write8 _ buf => buf.length
  | write16 _ buf => buf.length

/-- The octets of the payload, if there is one. -/
def payload (h : Host) : Request → Option (List Octet)
  | read8 _ _ | read16 _ _ => none
  | write8 _ buf => some buf
  | write16 _ buf => some (wordOctets h buf)

/-- The octets of a request, unframed. -/
def octets (h : Host) (p : RegP σ τ μ α) (r : Request) : List Octet :=
  headerOctets (encodeHeader h p r.msem r.type 0 p.sequence r.address r.words
    (payloadCrc (r.payload h))) ++ (r.payload h).getD []

/-- What was received is the request as it was sent, with the sequence number `seqno`. -/
structure ReceivedAs (h : Host) (seqno : BitVec 16) (r : Request) (mf : RPMaybeFrame)
    (frame : RPFrame) : Prop where
  frame_eq : mf.frame = some frame
  error : mf.errorId = none
  type : frame.header.type = r.type
  wordSize : regpIs16bitsem frame = decide (r.msem = .bit16)
  address : frame.header.address = r.address
  blocksize : frame.header.blocksize.toNat = r.words
  payload : payloadOctets frame = (r.payload h).getD []
  sequence : frame.header.sequence = seqno

section Sending

variable {p : RegP σ τ μ α} {sent : τ → List Octet}

/-- A call sends an encoded header and the payload. -/
theorem send_eq (h : Host) (fuel : Nat) (p : RegP σ τ μ α) (r : Request) :
    r.send h fuel p = regpReq h fuel p r.msem r.type r.address r.words
      (payloadCrc (r.payload h)) (r.payload h) := by
  cases r with
  | read8 address n | read16 address n | write8 address buf => rfl
  | write16 address buf =>
    have hcrc : ufwBufferCrc16ArcU16 h buf = ufwBufferCrc16Arc (wordOctets h buf) :=
      ufwCrc16ArcU16_eq h crc16ArcInitial buf
    simp only [send, regpReqWrite16, hcrc]
    rfl

/-- **A request goes out, and the session goes on.** -/
theorem send_sends (h : Host) (hk : p.sink.Accepting sent) (r : Request)
    (hsize : ((r.payload h).getD []).length + rpHeaderSize + varint64BitMaxOctets ≤ ssizeMax) :
    ∃ sink', Returns (fun fuel => r.send h fuel p)
        (.ok 0, { p with sequence := p.sequence + 1, sink := sink' }) ∧
      p.sink.Sends sent (lineEncode p.epType (r.octets h p)) sink' := by
  obtain ⟨sink', hret, hs⟩ := regpReq_sends h hk r.msem r.type r.address r.words
    (payloadCrc (r.payload h)) (r.payload h) hsize
  exact ⟨sink', Returns.congr (fun fuel => r.send_eq h fuel p) hret, hs⟩

/-- A request carries no payload, or the block its header says. -/
theorem length_payload (h : Host) (p : RegP σ τ μ α) (r : Request) :
    r.payload h = none ∧ r.type = .readRequest ∨
    ((r.payload h).getD []).length = r.words * Ufw.wordSize p r.msem ∧ r.type = .writeRequest ∧
      payloadCrc (r.payload h) = ufwBufferCrc16Arc ((r.payload h).getD []) := by
  cases r with
  | read8 address n | read16 address n => exact .inl ⟨rfl, rfl⟩
  | write8 address buf => exact .inr ⟨(Nat.mul_one _).symm, rfl, rfl⟩
  | write16 address buf =>
    exact .inr ⟨(length_wordOctets h buf).trans (Nat.mul_comm 2 buf.length), rfl, rfl⟩

/-- A block of fewer than 2^32 words can be sent. -/
theorem payload_le (h : Host) (r : Request) (hn : r.words < 2 ^ 32) :
    ((r.payload h).getD []).length + rpHeaderSize + varint64BitMaxOctets ≤ ssizeMax := by
  have hle : ((r.payload h).getD []).length ≤ 2 * r.words := by
    cases r with
    | read8 address n | read16 address n => exact Nat.zero_le _
    | write8 address buf => exact Nat.le_mul_of_pos_left _ (by decide)
    | write16 address buf => exact le_of_eq (length_wordOctets h buf)
  unfold rpHeaderSize rpHeaderSize16 varint64BitMaxOctets ssizeMax
  omega

end Sending

/-! ## 2. One request -/

section Receiving

variable {h h' : Host} {p : RegP σ τ μ α} {block : Block} {used : Nat}

/-- The frame a request is parsed into. -/
def frame (h h' : Host) (p : RegP σ τ μ α) (r : Request) (block : Block) (used : Nat) : RPFrame :=
  headedFrame h' block used
    (encodedHeader h' p r.msem r.type 0 p.sequence r.address r.words (payloadCrc (r.payload h)))
    (headerWords (makeMotv p r.msem 0 r.type r.words))

/-- **A request is parsed.** -/
theorem parse (r : Request) (hn : r.words < 2 ^ 32)
    (hholds : block.Holds h' used (r.octets h p)) :
    (parseFrame h' block used).val = (r.frame h h' p block used, .ok 0) := by
  unfold octets at hholds
  rw [encodeHeader_host h p _ _ _ _ _ _ _ h'] at hholds
  rcases r.length_payload h p with ⟨hnone, htype⟩ | ⟨hlen, htype, hcrc⟩
  · refine parseFrame_bare hholds (by rw [htype]; rfl) rfl (by rw [htype]; rfl) (.inl htype) ?_
    rw [hnone]
    rfl
  · exact parseFrame_block hholds (by rw [htype]; rfl) rfl (by rw [htype]; rfl) (.inr htype) hlen hn
      fun _ => hcrc

/-- The fields of the frame are those of the request. -/
theorem frame_received (r : Request) (hn : r.words < 2 ^ 32)
    (hholds : block.Holds h' used (r.octets h p)) :
    r.ReceivedAs h p.sequence
      { errorId := none, framesize := 0, frame := some (r.frame h h' p block used) }
      (r.frame h h' p block used) := by
  unfold octets at hholds
  rw [encodeHeader_host h p _ _ _ _ _ _ _ h'] at hholds
  obtain ⟨-, -, hsize, hslice⟩ := headedFrame_encodeHeader hholds
    (encodedHeader h' p r.msem r.type 0 p.sequence r.address r.words (payloadCrc (r.payload h)))
  refine
    { frame_eq := rfl, error := rfl, type := rfl, wordSize := ?_, address := rfl
      blocksize := (BitVec.toNat_ofNat r.words 32).trans (Nat.mod_eq_of_lt hn)
      payload := ?_, sequence := rfl }
  · refine wordSize_motvOptions.trans (decide_eq_decide.mpr ?_)
    have hauto : r.msem ≠ .auto := by cases r <;> exact fun he => nomatch he
    exact ⟨fun hw => hw.resolve_left fun ha => hauto ha.1, .inr⟩
  · unfold payloadOctets
    rw [show (r.frame h h' p block used).payloadSize = _ from hsize]
    exact hslice

theorem octets_ne_nil (h : Host) (p : RegP σ τ μ α) (r : Request) : r.octets h p ≠ [] := by
  obtain ⟨hge, -⟩ := length_headerOctets_bounds h p r.msem r.type 0 p.sequence r.address r.words
    (payloadCrc (r.payload h))
  unfold octets
  refine List.ne_nil_of_length_pos ?_
  rw [List.length_append]
  omega

/-- **A peer on the same channel that has a block for a frame of `n` octets.** -/
structure Hears (h' : Host) (ep : RPEndpointType) (n : Nat) (peer : RegP σ' τ' μ' α') : Prop where
  channel : peer.epType = ep
  block : ∃ block alloc', blockAlloc peer.alloc = (.ok block, alloc')
  room : h'.sizeofRPFrame + n ≤ peer.alloc.blocksize

/-- A request is received as it was sent. -/
theorem received (r : Request) (hn : r.words < 2 ^ 32) {peer : RegP σ' τ' μ' α'}
    (hpeer : Hears h' p.epType (r.octets h p).length peer) {source' : Source σ'}
    (hs : peer.source.Delivers (lineEncode p.epType (r.octets h p)) source') :
    ∃ mf frame peer', Returns (fun fuel => regpRecv h' fuel peer) (.ok 0, mf, peer') ∧
      r.ReceivedAs h p.sequence mf frame := by
  obtain ⟨hchannel, ⟨block, alloc', hblock⟩, hroom⟩ := hpeer
  rw [← hchannel] at hs
  obtain ⟨block', hholds, hret⟩ := regpRecv_accepts h' (r.octets_ne_nil h p) hs hblock hroom
    fun _ hholds => r.parse hn hholds
  exact ⟨_, _, _, hret, r.frame_received hn hholds⟩

end Receiving

/-! ## 3. Consecutive requests -/

/-- **Requests that are sent one after another are received as they were sent**, the first with the
    sequence number `seqno`, each with the number behind that of the one before. Between two of
    them the client may do anything but send requests. -/
def Understood (h h' : Host) (sent : τ → List Octet) (σ' τ' μ' α' : Type) :
    BitVec 16 → List Request → RegP σ τ μ α → Prop
  | _, [], _ => True
  | seqno, r :: rs, p => ∃ p', Returns (fun fuel => r.send h fuel p) (.ok 0, p') ∧
      p.sink.Sends sent (lineEncode p.epType (r.octets h p)) p'.sink ∧ p'.sequence = seqno + 1 ∧
      (∀ (peer : RegP σ' τ' μ' α') source',
        Hears h' p.epType (r.octets h p).length peer →
        peer.source.Delivers (lineEncode p.epType (r.octets h p)) source' →
        ∃ mf frame peer', Returns (fun fuel => regpRecv h' fuel peer) (.ok 0, mf, peer') ∧
          r.ReceivedAs h seqno mf frame) ∧
      ∀ q : RegP σ τ μ α, q.sequence = p'.sequence → q.sink.Accepting sent →
        Understood h h' sent σ' τ' μ' α' (seqno + 1) rs q

end Request

/-- **Every request is understood as sent**: of requests with block sizes below 2^32 that are sent
    one after another, each is received by any peer that has a block for it, with its type, its
    word size, its address, its block size, its payload and its sequence number. -/
theorem regpReq_understood (h h' : Host) (p : RegP σ τ μ α) (sent : τ → List Octet)
    (hk : p.sink.Accepting sent) (rs : List Request) (hn : ∀ r ∈ rs, r.words < 2 ^ 32) :
    Request.Understood h h' sent σ' τ' μ' α' p.sequence rs p := by
  induction rs generalizing p with
  | nil => exact trivial
  | cons r rs ih =>
    have hn₀ := hn r (List.mem_cons_self ..)
    obtain ⟨sink', hret, hs⟩ := r.send_sends h hk (r.payload_le h hn₀)
    refine ⟨_, hret, hs, rfl, fun peer source' hpeer hd => r.received hn₀ hpeer hd, ?_⟩
    intro q hseq hkq
    have hrest := ih q hkq fun r' hr' => hn r' (List.mem_cons_of_mem r hr')
    rwa [hseq] at hrest

/-- A read request and a write request, one behind the other, on TCP. -/
theorem regpReq_understood_readWrite :
    Request.Understood lp64Host lp64Host id (List Octet) (List Octet) (Mem (BitVec 16)) Unit 0
      [.read16 0x1000 8, .write8 0x20 [0x01, 0xc0]] (ramInstance .tcp []) :=
  regpReq_understood lp64Host lp64Host (ramInstance .tcp []) id (collectSink_accepting []) _
    (by decide)

end Ufw
