/-
  File:      Ufw/RegisterProtocol/Responses.lean
  Subject:   REGISTER PROTOCOL: what a peer makes of the responses an instance sends.

  * `Response` -- a call of the response API;
  * `regpResp_received_iff` -- **which responses the peer receives as they were sent.** Not those
    whose code the parser does not know, nor those with an argument to a write request: a write
    response must not carry a payload.
-/
import Ufw.RegisterProtocol.Recv

namespace Ufw

open Base

variable {σ τ μ α : Type}

/-! ## 1. Calls of the response API -/

/-- The functions `regp_resp_ack` … `regp_resp_eio`, with their arguments. -/
inductive Response where
  | ack (pl : Option (Mem Octet)) (n : Nat)
  | ewordsize
  | epayloadcrc
  | epayloadsize
  | erxoverflow (size : BitVec 32)
  | etxoverflow (size : BitVec 32)
  | ebusy
  | eunmapped (address : BitVec 32)
  | eaccess (address : BitVec 32)
  | erange (address : BitVec 32)
  | einvalid (address : BitVec 32)
  | eio

namespace Response

/-- The call. -/
def send (h : Host) (fuel : Nat) (p : RegP σ τ μ α) (f : RPFrame) :
    Response → Exec (Rc × RegP σ τ μ α)
  | ack pl n => regpRespAck h fuel p f pl n
  | ewordsize => regpRespEwordsize h fuel p f
  | epayloadcrc => regpRespEpayloadcrc h fuel p f
  | epayloadsize => regpRespEpayloadsize h fuel p f
  | erxoverflow size => regpRespErxoverflow h fuel p f size
  | etxoverflow size => regpRespEtxoverflow h fuel p f size
  | ebusy => regpRespEbusy h fuel p f
  | eunmapped address => regpRespEunmapped h fuel p f address
  | eaccess address => regpRespEaccess h fuel p f address
  | erange address => regpRespErange h fuel p f address
  | einvalid address => regpRespEinvalid h fuel p f address
  | eio => regpRespEio h fuel p f

/-- The response code. -/
def code : Response → RPResponse
  | ack _ _ => .ack
  | ewordsize => .ewordsize
  | epayloadcrc => .epayloadcrc
  | epayloadsize => .epayloadsize
  | erxoverflow _ => .erxoverflow
  | etxoverflow _ => .etxoverflow
  | ebusy => .ebusy
  | eunmapped _ => .eunmapped
  | eaccess _ => .eaccess
  | erange _ => .erange
  | einvalid _ => .einvalid
  | eio => .eio

/-- The 32-bit argument. -/
def arg : Response → Option (BitVec 32)
  | erxoverflow size | etxoverflow size => some size
  | eunmapped address | eaccess address | erange address | einvalid address => some address
  | _ => none

/-- The word size the header is encoded for. -/
def msem : Response → Msem
  | ack _ _ => .auto
  | _ => .bit8

/-- The octets of the payload, if there is one. -/
def payload (h : Host) (p : RegP σ τ μ α) : Response → Option (List Octet)
  | ack pl n => pl.map fun pl => pl.slice 0 (n * wordSize p .auto)
  | r => r.arg.map (bfSetU32b h)

/-- The block size in the header. -/
def words : Response → Nat
  | ack _ n => n
  | r => if r.arg.isSome then 4 else 0

/-- An acknowledgement carries a payload if it answers a read request, and only then. -/
def Proper (f : RPFrame) : Response → Prop
  | ack pl _ => pl.isSome = regpIsReadRequest f
  | _ => True

/-- **The condition**: the block size field holds the size of an acknowledged block; the code is
    one the parser knows; and a write request is not answered with an argument. -/
def Fits (f : RPFrame) : Response → Prop
  | ack _ n => regpIsReadRequest f = true → n < 2 ^ 32
  | eio => False
  | r => regpIsReadRequest f = true ∨ r.arg = none

/-- What was received is the response as it was sent. -/
structure ReceivedAs (h : Host) (p : RegP σ τ μ α) (f : RPFrame) (r : Response)
    (mf : RPMaybeFrame) (frame : RPFrame) : Prop where
  frame_eq : mf.frame = some frame
  error : mf.errorId = none
  type : frame.header.type = req2resp f.header.type
  code : frame.header.metaRaw = r.code.code.setWidth 32
  sequence : frame.header.sequence = f.header.sequence
  address : frame.header.address = f.header.address
  payload : frame.memory.slice frame.payloadData frame.payloadSize = (r.payload h p).getD []

end Response

/-! ## 2. What goes out -/

/-- The payload's checksum. -/
def payloadCrc (pl : Option (List Octet)) : BitVec 16 := pl.elim 0 ufwBufferCrc16Arc

/-- The octets of a response, unframed. -/
def Response.octets (h : Host) (p : RegP σ τ μ α) (f : RPFrame) (r : Response) : List Octet :=
  headerOctets (encodeHeader h p r.msem (req2resp f.header.type) r.code.code f.header.sequence
    f.header.address r.words (payloadCrc (r.payload h p))) ++ (r.payload h p).getD []

theorem regpRespAck_eq (h : Host) (fuel : Nat) (p : RegP σ τ μ α) (f : RPFrame)
    (pl : Option (Mem Octet)) (n : Nat) :
    regpRespAck h fuel p f pl n = sendMemory h fuel p (headerOctets (encodeHeader h p .auto
      (req2resp f.header.type) 0 f.header.sequence f.header.address n
      (payloadCrc (pl.map fun pl => pl.slice 0 (n * wordSize p .auto)))))
      (pl.map fun pl => pl.slice 0 (n * wordSize p .auto)) := by
  unfold regpRespAck
  cases hm : p.memory.type with
  | memtype8 =>
    have hw : wordSize p .auto = 1 := by simp [wordSize, hm]
    cases pl with
    | none => rfl
    | some pl => simp only [hw, Nat.mul_one, payloadCrc, Option.map_some, Option.elim]
  | memtype16 =>
    have hw : wordSize p .auto = 2 := by simp [wordSize, hm]
    cases pl with
    | none => rfl
    | some pl =>
      have hcrc : ufwBufferCrc16ArcU16 h (octetWords h (pl.slice 0 (n * 2))) =
          ufwBufferCrc16Arc (pl.slice 0 (n * 2)) :=
        ufwCrc16ArcU16_octetWords h _ _ (by rw [Mem.length_slice]; exact Nat.mul_mod_left n 2)
      simp only [hw, hcrc, payloadCrc, Option.map_some, Option.elim]

theorem sendResp32_eq (h : Host) (fuel : Nat) (p : RegP σ τ μ α) (f : RPFrame)
    (code : RPResponse) (v : BitVec 32) :
    sendResp32 h fuel p f code v .bit8 = sendMemory h fuel p (headerOctets (encodeHeader h p .bit8
      (req2resp f.header.type) code.code f.header.sequence f.header.address 4
      (payloadCrc (some (bfSetU32b h v))))) (some (bfSetU32b h v)) := by
  have hcrc : ufwBufferCrc16ArcU16 h (octetWords h (bfSetU32b h v)) =
      ufwBufferCrc16Arc (bfSetU32b h v) :=
    ufwCrc16ArcU16_octetWords h _ _ (by rw [length_bfSetU32b])
  simp only [sendResp32, hcrc, msemSize, payloadCrc, Option.elim]

/-- A call sends an encoded header and the payload. -/
theorem Response.send_eq (h : Host) (fuel : Nat) (p : RegP σ τ μ α) (f : RPFrame) (r : Response) :
    r.send h fuel p f = sendMemory h fuel p (headerOctets (encodeHeader h p r.msem
      (req2resp f.header.type) r.code.code f.header.sequence f.header.address r.words
      (payloadCrc (r.payload h p)))) (r.payload h p) := by
  cases r with
  | ack pl n => exact regpRespAck_eq h fuel p f pl n
  | erxoverflow v | etxoverflow v | eunmapped v | eaccess v | erange v | einvalid v =>
    exact sendResp32_eq h fuel p f _ v
  | ewordsize | epayloadcrc | epayloadsize | ebusy | eio => rfl

/-! ## 3. What comes in -/

section Receive

variable {h h' : Host} {p : RegP σ τ μ α} {f : RPFrame} {r : Response} {block : Block}
  {used : Nat}

theorem regpIsRequest_cases (hreq : regpIsRequest f = true) :
    f.header.type = .readRequest ∨ f.header.type = .writeRequest := by
  unfold regpIsRequest at hreq
  rwa [Bool.or_eq_true, beq_iff_eq, beq_iff_eq] at hreq

/-- The codes of a response: the parser knows all of them but one. -/
theorem metaValid_code {type : RPFrameType} (ht : type = .readResponse ∨ type = .writeResponse)
    {code : RPResponse} (hc : ∀ n, code ≠ .undefined n) :
    (code.code.setWidth 4).setWidth 16 = code.code ∧
    (metaValid type (code.code.setWidth 32) = false ↔ code = .eio) := by
  cases code with
  | undefined n => exact absurd rfl (hc n)
  | _ => rcases ht with rfl | rfl <;> decide

theorem Response.code_defined (r : Response) (n : Nat) : r.code ≠ .undefined n := by
  cases r <;> exact fun he => nomatch he

/-- An error has the size of its argument in the header. -/
theorem Response.length_payload_arg {v : BitVec 32} (hv : r.arg = some v) :
    r.payload h p = some (bfSetU32b h v) ∧ r.words = 4 ∧ wordSize p r.msem = 1 := by
  cases r <;> first | cases hv; exact ⟨rfl, rfl, rfl⟩ | cases hv

/-- A response to a read request carries the block its header says. -/
theorem Response.length_payload (hread : regpIsReadRequest f = true) (hproper : r.Proper f) :
    ((r.payload h p).getD []).length = r.words * wordSize p r.msem ∧
    (0 < r.words → payloadCrc (r.payload h p) =
      ufwBufferCrc16Arc ((r.payload h p).getD [])) := by
  cases hv : r.arg with
  | some v =>
    obtain ⟨h1, h2, h3⟩ := length_payload_arg (h := h) (p := p) hv
    rw [h1, h2, h3]
    exact ⟨length_bfSetU32b h v, fun _ => rfl⟩
  | none =>
    cases r with
    | ack pl n =>
      have hsome : pl.isSome = true := (show pl.isSome = _ from hproper).trans hread
      obtain ⟨pl, rfl⟩ := Option.isSome_iff_exists.mp hsome
      exact ⟨Mem.length_slice pl 0 _, fun _ => rfl⟩
    | erxoverflow v | etxoverflow v | eunmapped v | eaccess v | erange v | einvalid v => cases hv
    | ewordsize | epayloadcrc | epayloadsize | ebusy | eio =>
      exact ⟨(Nat.zero_mul _).symm, fun hpos => absurd hpos (Nat.lt_irrefl 0)⟩

/-- The frame a response is parsed into. -/
def Response.frame (h h' : Host) (p : RegP σ τ μ α) (f : RPFrame) (r : Response) (block : Block)
    (used : Nat) : RPFrame :=
  let type := req2resp f.header.type
  headedFrame h' block used
    (encodedHeader h' p r.msem type r.code.code f.header.sequence f.header.address r.words
      (payloadCrc (r.payload h p)))
    (headerWords (makeMotv p r.msem r.code.code type r.words))

/-- **A response that fits is parsed.** -/
theorem Response.parse_fits (hreq : regpIsRequest f = true) (hproper : r.Proper f)
    (hholds : block.Holds h' used (r.octets h p f)) (hfits : r.Fits f) :
    (parseFrame h' block used).val = (r.frame h h' p f block used, .ok 0) := by
  unfold Response.octets at hholds
  rw [encodeHeader_host h p _ _ _ _ _ _ _ h'] at hholds
  have hcode : r.code ≠ .eio := by
    cases r with
    | eio => exact hfits.elim
    | _ => exact fun he => nomatch he
  rcases regpIsRequest_cases hreq with ht | ht
  · -- a read request: the payload is the block
    have hresp : req2resp f.header.type = .readResponse := by rw [ht]; rfl
    have hread : regpIsReadRequest f = true := beq_iff_eq.mpr ht
    obtain ⟨hmeta, hvalid⟩ := metaValid_code (.inl hresp) r.code_defined
    obtain ⟨hlen, hcrc⟩ := length_payload (h := h) (p := p) hread hproper
    refine parseFrame_block hholds (by rw [hresp]; rfl) hmeta
      (Bool.eq_true_of_not_eq_false (mt hvalid.mp hcode)) (.inl hresp) hlen ?_ hcrc
    cases r with
    | ack pl n => exact hfits hread
    | erxoverflow v | etxoverflow v | eunmapped v | eaccess v | erange v | einvalid v =>
      exact (by decide : 4 < 2 ^ 32)
    | ewordsize | epayloadcrc | epayloadsize | ebusy | eio => exact (by decide : 0 < 2 ^ 32)
  · -- a write request: there is no payload
    have hresp : req2resp f.header.type = .writeResponse := by rw [ht]; rfl
    have hread : regpIsReadRequest f = false := by
      unfold regpIsReadRequest
      rw [ht]
      rfl
    obtain ⟨hmeta, hvalid⟩ := metaValid_code (.inr hresp) r.code_defined
    refine parseFrame_bare hholds (by rw [hresp]; rfl) hmeta
      (Bool.eq_true_of_not_eq_false (mt hvalid.mp hcode)) (.inr (.inl hresp)) ?_
    cases r with
    | ack pl n =>
      have hnone : pl.isSome = false := (show pl.isSome = _ from hproper).trans hread
      obtain rfl := Option.isSome_eq_false_iff.mp hnone |> Option.isNone_iff_eq_none.mp
      rfl
    | erxoverflow v | etxoverflow v | eunmapped v | eaccess v | erange v | einvalid v =>
      rcases hfits with hf | hf
      · exact absurd (hread.symm.trans hf) Bool.false_ne_true
      · cases hf
    | ewordsize | epayloadcrc | epayloadsize | ebusy => rfl
    | eio => exact absurd rfl hcode

/-- **A response that does not fit is refused.** -/
theorem Response.parse_unfit (hreq : regpIsRequest f = true) (hproper : r.Proper f)
    (hholds : block.Holds h' used (r.octets h p f)) (hfits : ¬r.Fits f) :
    ∃ e, (parseFrame h' block used).val.2 = .error e := by
  unfold Response.octets at hholds
  rw [encodeHeader_host h p _ _ _ _ _ _ _ h'] at hholds
  have hresp :
      req2resp f.header.type = .readResponse ∨ req2resp f.header.type = .writeResponse := by
    rcases regpIsRequest_cases hreq with ht | ht <;> rw [ht]
    · exact .inl rfl
    · exact .inr rfl
  have htype : RPFrameType.ofCode (((req2resp f.header.type).code.setWidth 4).setWidth 16) =
      req2resp f.header.type := by
    rcases hresp with hr | hr <;> rw [hr] <;> rfl
  obtain ⟨hmeta, hvalid⟩ := metaValid_code hresp r.code_defined
  by_cases hcode : r.code = .eio
  · exact ⟨_, parseFrame_badMeta hholds htype hmeta (hvalid.mpr hcode)⟩
  · have hok := Bool.eq_true_of_not_eq_false (mt hvalid.mp hcode)
    cases r with
    | ack pl n =>
      -- the block size of the acknowledged block is too large for its field
      obtain ⟨hread, hn⟩ := Classical.not_imp.mp hfits
      have hresp' : req2resp f.header.type = .readResponse := by
        rw [show f.header.type = .readRequest from beq_iff_eq.mp hread]
        rfl
      obtain ⟨hlen, -⟩ := length_payload (h := h) (p := p) hread hproper
      exact ⟨_, parseFrame_block_large hholds htype hmeta hok (.inl hresp') hlen
        (Nat.le_of_not_lt hn)⟩
    | erxoverflow v | etxoverflow v | eunmapped v | eaccess v | erange v | einvalid v =>
      -- a write response with an argument
      obtain ⟨hread, -⟩ := not_or.mp hfits
      have hresp' : req2resp f.header.type = .writeResponse := by
        rcases regpIsRequest_cases hreq with ht | ht
        · exact absurd (beq_iff_eq.mpr ht) hread
        · rw [ht]
          rfl
      refine ⟨_, parseFrame_bare_payload hholds htype hmeta hok (.inr (.inl hresp')) ?_⟩
      show 1 ≤ (bfSetU32b h v).length
      rw [length_bfSetU32b]
      decide
    | ewordsize | epayloadcrc | epayloadsize | ebusy => exact absurd (.inr rfl) hfits
    | eio => exact absurd rfl hcode

/-- The fields of the frame are those of the response. -/
theorem Response.frame_received (hholds : block.Holds h' used (r.octets h p f)) :
    r.ReceivedAs h p f
      { errorId := none, framesize := 0, frame := some (r.frame h h' p f block used) }
      (r.frame h h' p f block used) := by
  unfold Response.octets at hholds
  rw [encodeHeader_host h p _ _ _ _ _ _ _ h'] at hholds
  obtain ⟨-, -, hsize, hslice⟩ := headedFrame_encodeHeader hholds
    (encodedHeader h' p r.msem (req2resp f.header.type) r.code.code f.header.sequence
      f.header.address r.words (payloadCrc (r.payload h p)))
  refine
    { frame_eq := rfl, error := rfl, type := rfl, code := rfl, sequence := rfl, address := rfl
      payload := ?_ }
  rw [show (r.frame h h' p f block used).payloadSize = _ from hsize]
  exact hslice

variable {σ' τ' μ' α' : Type} {q : RegP σ' τ' μ' α'} {alloc' : BlockAllocator α'}

theorem Response.octets_bounds (h : Host) (p : RegP σ τ μ α) (f : RPFrame) (r : Response) :
    r.octets h p f ≠ [] ∧
      (r.octets h p f).length ≤ rpHeaderSize + ((r.payload h p).getD []).length := by
  obtain ⟨hge, hle⟩ := length_headerOctets_bounds h p r.msem (req2resp f.header.type) r.code.code
    f.header.sequence f.header.address r.words (payloadCrc (r.payload h p))
  unfold octets
  refine ⟨List.ne_nil_of_length_pos ?_, ?_⟩ <;> rw [List.length_append] <;> omega

/-- A response that fits is received as it was sent. -/
theorem Response.received (hreq : regpIsRequest f = true) (hproper : r.Proper f)
    (hfits : r.Fits f) {source' : Source σ'}
    (hs : q.source.Delivers (lineEncode q.epType (r.octets h p f)) source')
    (hblock : blockAlloc q.alloc = (.ok block, alloc'))
    (hfit : h'.sizeofRPFrame + rpHeaderSize + ((r.payload h p).getD []).length ≤
      q.alloc.blocksize) :
    ∃ mf frame q', Returns (fun fuel => regpRecv h' fuel q) (.ok 0, mf, q') ∧
      r.ReceivedAs h p f mf frame := by
  obtain ⟨hne, hle⟩ := r.octets_bounds h p f
  obtain ⟨block', hholds, hret⟩ := regpRecv_accepts h' hne hs hblock (by omega)
    fun _ hholds => parse_fits hreq hproper hholds hfits
  exact ⟨_, _, _, hret, frame_received hholds⟩

/-- **A response that fits is received as it was sent, one that does not is not.** -/
theorem Response.received_iff (hreq : regpIsRequest f = true) (hproper : r.Proper f)
    {source' : Source σ'} (hs : q.source.Delivers (lineEncode q.epType (r.octets h p f)) source')
    (hblock : blockAlloc q.alloc = (.ok block, alloc'))
    (hfit : h'.sizeofRPFrame + rpHeaderSize + ((r.payload h p).getD []).length ≤
      q.alloc.blocksize) :
    (∃ rc mf frame q', Returns (fun fuel => regpRecv h' fuel q) (rc, mf, q') ∧
      r.ReceivedAs h p f mf frame) ↔ r.Fits f := by
  obtain ⟨hne, hle⟩ := r.octets_bounds h p f
  constructor
  · rintro ⟨rc, mf, frame, q', hret, hrec⟩
    by_contra hfits
    obtain ⟨block', hholds, -, hiff⟩ := regpRecv_frame h' hne hs hblock (by omega)
    obtain ⟨e, he⟩ := parse_unfit hreq hproper hholds hfits
    obtain ⟨n, hn⟩ := (hiff _).mp hret
    have herr := recvParse_error he (hn n (le_refl n))
    exact absurd (herr.symm.trans hrec.error) (Option.some_ne_none e)
  · intro hfits
    obtain ⟨mf, frame, q', hret, hrec⟩ := received hreq hproper hfits hs hblock hfit
    exact ⟨_, mf, frame, q', hret, hrec⟩

end Receive

/-! ## 4. Responses and requests -/

theorem Response.send_sends (h : Host) {p : RegP σ τ μ α} {sent : τ → List Octet}
    (hk : p.sink.Accepting sent) (f : RPFrame) (r : Response)
    (hsize : ((r.payload h p).getD []).length + rpHeaderSize + varint64BitMaxOctets ≤ ssizeMax) :
    ∃ sink', Returns (fun fuel => r.send h fuel p f) (.ok 0, { p with sink := sink' }) ∧
      p.sink.Sends sent (lineEncode p.epType (r.octets h p f)) sink' := by
  obtain ⟨sink', hret, hs⟩ := sendMemory_encodeHeader h (q := p) hk r.msem
    (req2resp f.header.type) r.code.code f.header.sequence f.header.address r.words
    (payloadCrc (r.payload h p)) hsize
  exact ⟨sink', Returns.congr (fun fuel => r.send_eq h fuel p f) hret, hs⟩

/-- **Which responses arrive.** For a request `f`, a call of the response API is sent, and a peer
    with room for it receives it as it was sent if, and only if, it fits. -/
theorem regpResp_received_iff {σ' τ' μ' α' : Type} (h h' : Host) (p : RegP σ τ μ α)
    (peer : RegP σ' τ' μ' α') (f : RPFrame) (r : Response) (sent : τ → List Octet)
    (hreq : regpIsRequest f = true) (hproper : r.Proper f) (hk : p.sink.Accepting sent)
    (hep : peer.epType = p.epType) (block : Block) (alloc' : BlockAllocator α')
    (hblock : blockAlloc peer.alloc = (.ok block, alloc'))
    (hfit : h'.sizeofRPFrame + rpHeaderSize + ((r.payload h p).getD []).length ≤
      peer.alloc.blocksize) :
    ∃ octets sink', Returns (fun fuel => r.send h fuel p f) (.ok 0, { p with sink := sink' }) ∧
      p.sink.Sends sent octets sink' ∧
      ∀ source source' : Source σ', source.Delivers octets source' →
        ((∃ rc mf frame peer',
          Returns (fun fuel => regpRecv h' fuel { peer with source }) (rc, mf, peer') ∧
          r.ReceivedAs h p f mf frame) ↔ r.Fits f) := by
  have hmax := peer.alloc.blocksize_le
  have hframe := h'.sizeofRPFrame_ge
  obtain ⟨sink', hret, hs⟩ := r.send_sends h hk f (by rw [varint64BitMaxOctets]; omega)
  refine ⟨_, sink', hret, hs, fun source source' hd => ?_⟩
  rw [← hep] at hd
  exact Response.received_iff (q := { peer with source }) hreq hproper hd hblock hfit

/-- A frame with a request, as the response API reads it. -/
def requestFrame (type : RPFrameType) : RPFrame where
  header := { (default : RPHeader) with type }
  payloadSize := 0
  payloadData := 0
  memory := fun _ => 0
  rawSize := 0
  address := 0

/-- The acknowledgement of a write request, on a serial line. -/
theorem regpResp_received_iff_ack :
    ∃ octets sink',
      Returns (fun fuel => (Response.ack none 0).send lp64Host fuel (ramInstance .serial [])
        (requestFrame .writeRequest)) (.ok 0, { ramInstance .serial [] with sink := sink' }) ∧
      (ramInstance .serial []).sink.Sends id octets sink' ∧
      ∀ source source' : Source (List Octet), source.Delivers octets source' →
        ((∃ rc mf frame peer',
          Returns (fun fuel => regpRecv lp64Host fuel { ramInstance .serial [] with source })
            (rc, mf, peer') ∧
          (Response.ack none 0).ReceivedAs lp64Host (ramInstance .serial [])
            (requestFrame .writeRequest) mf frame) ↔
        (Response.ack none 0).Fits (requestFrame .writeRequest)) :=
  regpResp_received_iff lp64Host lp64Host (ramInstance .serial []) (ramInstance .serial [])
    (requestFrame .writeRequest) (.ack none 0) id rfl rfl (collectSink_accepting []) rfl
    ⟨0, fun _ => 0⟩ pageAllocator rfl (by decide)

/-- A write request is answered with ERANGE: the peer refuses the response. -/
theorem regpRespErange_refused :
    ∃ octets sink',
      Returns (fun fuel => regpRespErange lp64Host fuel (ramInstance .serial [])
        (requestFrame .writeRequest) 0x1000)
        (.ok 0, { ramInstance .serial [] with sink := sink' }) ∧
      (ramInstance .serial []).sink.Sends id octets sink' ∧
      ¬∃ rc mf frame peer',
        Returns (fun fuel => regpRecv lp64Host fuel (ramInstance .serial octets))
          (rc, mf, peer') ∧
        (Response.erange 0x1000).ReceivedAs lp64Host (ramInstance .serial [])
          (requestFrame .writeRequest) mf frame := by
  obtain ⟨sink', hret, hs⟩ := (Response.erange 0x1000).send_sends lp64Host
    (p := ramInstance .serial []) (collectSink_accepting []) (requestFrame .writeRequest)
    (by decide)
  refine ⟨_, sink', hret, hs, ?_⟩
  have hproper : (Response.erange 0x1000).Proper (requestFrame .writeRequest) := trivial
  intro hrec
  have hblock : blockAlloc pageAllocator = (.ok ⟨0, fun _ => 0⟩, pageAllocator) := rfl
  have hfits := (Response.received_iff rfl hproper (streamSource_delivers_all _) hblock
    (by decide)).mp hrec
  rcases hfits with hf | hf <;> cases hf

end Ufw
