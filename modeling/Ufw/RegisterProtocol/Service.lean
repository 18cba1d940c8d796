/-
  File:      Ufw/RegisterProtocol/Service.lean
  Subject:   REGISTER PROTOCOL: a server as a service. What it makes of a request, told without
             frames, channels and blocks; and that frames, channels and blocks come to the same.

  * `RPMemory.reply` -- the reply to a request, and the memory behind it;
  * `regpProcess_replies` -- **`regp_process` sends that reply**, and leaves that memory behind;
  * `Answered.Carried`, `Replied.carried` -- **the client reads the reply off the frame.**
-/
import Ufw.RegisterProtocol.Requests
import Ufw.RegisterProtocol.Answers

namespace Ufw

open Base

variable {σ τ μ α : Type} {σ' τ' μ' α' : Type}

/-! ## 1. The service -/

/-- What a client is told: a code and some octets. -/
structure Reply where
  code : RPResponse
  payload : List Octet

/-- A reply, with the request it is given to and the sequence number of that request. -/
structure Answered where
  sequence : BitVec 16
  request : Request
  reply : Reply

/-- The codes a peer knows: those with an enumerator, but for EIO, which the parser refuses. -/
def RPResponse.Known (code : RPResponse) : Prop := code ≠ .eio ∧ ∀ n, code ≠ .undefined n

/-- The reply to the status of an access, which has answered with the octets `l`; `trx` is the room
    the server has for words. -/
def statusReply (h : Host) (trx : BitVec 32) (ba : RPBlockAccess) (l : List Octet) : Reply where
  code := ba.status
  payload := match ba.status with
    | .ack => l
    | .erxoverflow | .etxoverflow => bfSetU32b h trx
    | .eunmapped | .eaccess | .erange | .einvalid => bfSetU32b h ba.address
    | _ => []

/-- **The reply to a request**, and the memory behind it: no access with the wrong word size, none
    to more words than there is room for, and one access to the memory otherwise. -/
def RPMemory.reply (h h' : Host) (room : Nat) (m : RPMemory μ) (mem : μ) (r : Request) :
    Reply × μ :=
  let trx := BitVec.ofNat 32 room
  if r.msem ≠ m.type.msem then ({ code := .ewordsize, payload := [] }, mem)
  else if r.type = .readRequest then
    if room < r.words * m.type.octets then
      (statusReply h' trx { status := .etxoverflow, address := 0 } [], mem)
    else
      let (ba, l, mem) := m.readOctets h' mem r.address r.words
      (statusReply h' trx ba l, mem)
  else
    let (ba, mem) := m.writeOctets h' mem r.address r.words ((r.payload h).getD [])
    (statusReply h' trx ba [], mem)

/-- The service: its state is the sequence number of the next request, and the memory. -/
def RPMemory.serve (h h' : Host) (room : Nat) (m : RPMemory μ) (s : BitVec 16 × μ) (r : Request) :
    Answered × BitVec 16 × μ :=
  let (reply, mem) := m.reply h h' room s.2 r
  ({ sequence := s.1, request := r, reply }, s.1 + 1, mem)

/-- **A memory peers understand**: its codes are known, and a read it acknowledges fills the
    buffer. -/
structure RPMemory.Understandable (h : Host) (m : RPMemory μ) : Prop where
  read : ∀ mem address n, (m.readOctets h mem address n).1.status.Known
  write : ∀ mem address n l, (m.writeOctets h mem address n l).1.status.Known
  fills : ∀ mem address n, (m.readOctets h mem address n).1.status = .ack →
    (m.readOctets h mem address n).2.1.length = n * m.type.octets

/-- **A request there is room for**, in blocks of `room` octets at the client and `room'` octets at
    the server: the frame of a write request fits the server's; the words of a read request, behind
    a header, fit both, or they are too many for the server to begin with. -/
structure Request.Fits (h h' : Host) (room room' : Nat) (m : RPMemory μ) (r : Request) : Prop where
  words : r.words < 2 ^ 32
  frame : h'.sizeofRPFrame + rpHeaderSize + ((r.payload h).getD []).length ≤ room'
  read : r.type = .readRequest →
    h.sizeofRPFrame + rpHeaderSize + r.words * m.type.octets ≤ room ∧
      h'.sizeofRPFrame + rpHeaderSize + r.words * m.type.octets ≤ room' ∨
    room' - h'.sizeofRPFrame < r.words * m.type.octets

/-! ## 2. The server -/

/-- What a response tells. -/
structure Response.Tells (h : Host) (p : RegP σ τ μ α) (resp : Response) (reply : Reply) :
    Prop where
  code : resp.code = reply.code
  payload : (resp.payload h p).getD [] = reply.payload

/-- A call that stays inside the block of its frame. -/
def RPCall.Inside (p : RegP σ τ μ α) (c : RPCall) : Prop :=
  c.buf + c.size * p.memory.type.octets ≤ p.alloc.blocksize

section Server

variable {h h' : Host} {p : RegP σ τ μ α} {f : RPFrame} {mf : RPMaybeFrame} {r : Request}
  {seqno : BitVec 16} {sent : τ → List Octet}

/-- **The `switch` of the source calls the response function of the status.** -/
theorem regpRespond_known (ba : RPBlockAccess) (buf : Option (Mem Octet)) (l : List Octet)
    (hknown : ba.status.Known) (hbuf : buf.isSome = regpIsReadRequest f)
    (hl : ba.status = .ack → ((Response.ack buf
      (if buf.isNone then 0 else f.header.blocksize.toNat)).payload h p).getD [] = l) :
    ∃ resp : Response, (∀ fuel, regpRespond h fuel p f ba buf = resp.send h fuel p f) ∧
      resp.Proper f ∧ resp.words < 2 ^ 32 ∧
      resp.Tells h p (statusReply h (BitVec.ofNat 32 (trxbufsize h p)) ba l) := by
  have harg : 4 < 2 ^ 32 := by decide
  have hnone : 0 < 2 ^ 32 := by decide
  obtain ⟨status, address⟩ := ba
  cases status with
  | ack =>
    refine ⟨.ack buf _, fun _ => rfl, hbuf, ?_, rfl, hl rfl⟩
    show (if buf.isNone then 0 else f.header.blocksize.toNat) < 2 ^ 32
    split
    · exact hnone
    · exact f.header.blocksize.isLt
  | ewordsize => exact ⟨.ewordsize, fun _ => rfl, trivial, hnone, rfl, rfl⟩
  | epayloadcrc => exact ⟨.epayloadcrc, fun _ => rfl, trivial, hnone, rfl, rfl⟩
  | epayloadsize => exact ⟨.epayloadsize, fun _ => rfl, trivial, hnone, rfl, rfl⟩
  | erxoverflow => exact ⟨.erxoverflow _, fun _ => rfl, trivial, harg, rfl, rfl⟩
  | etxoverflow => exact ⟨.etxoverflow _, fun _ => rfl, trivial, harg, rfl, rfl⟩
  | ebusy => exact ⟨.ebusy, fun _ => rfl, trivial, hnone, rfl, rfl⟩
  | eunmapped => exact ⟨.eunmapped _, fun _ => rfl, trivial, harg, rfl, rfl⟩
  | eaccess => exact ⟨.eaccess _, fun _ => rfl, trivial, harg, rfl, rfl⟩
  | erange => exact ⟨.erange _, fun _ => rfl, trivial, harg, rfl, rfl⟩
  | einvalid => exact ⟨.einvalid _, fun _ => rfl, trivial, harg, rfl, rfl⟩
  | eio => exact absurd rfl hknown.1
  | undefined n => exact absurd rfl (hknown.2 n)

/-- The payload of a response has the size its header says, or there is none. -/
theorem Response.length_payload_le (h : Host) (p : RegP σ τ μ α) (resp : Response) :
    ((resp.payload h p).getD []).length ≤ 2 * resp.words := by
  cases harg : resp.arg with
  | some v =>
    obtain ⟨hpl, hwords, -⟩ := Response.length_payload_arg (h := h) (p := p) harg
    rw [hpl, hwords, Option.getD_some, length_bfSetU32b]
    decide
  | none =>
    cases resp with
    | ack buf n =>
      cases buf with
      | none => exact Nat.zero_le _
      | some buf =>
        show (buf.slice 0 (n * wordSize p .auto)).length ≤ 2 * n
        rw [Mem.length_slice]
        unfold wordSize
        split <;> omega
    | erxoverflow v | etxoverflow v | eunmapped v | eaccess v | erange v | einvalid v => cases harg
    | ewordsize | epayloadcrc | epayloadsize | ebusy | eio => exact Nat.zero_le _

/-- A response of fewer than 2^32 words can be sent. -/
theorem Response.send_size (h : Host) (p : RegP σ τ μ α) (resp : Response)
    (hwords : resp.words < 2 ^ 32) :
    ((resp.payload h p).getD []).length + rpHeaderSize + varint64BitMaxOctets ≤ ssizeMax := by
  have hle := resp.length_payload_le h p
  unfold rpHeaderSize rpHeaderSize16 varint64BitMaxOctets ssizeMax
  omega

/-- The sink has no part in what a response tells. -/
theorem Response.Tells.sink {resp : Response} {reply : Reply} (ht : resp.Tells h p reply)
    (sink' : Sink τ) : resp.Tells h { p with sink := sink' } reply := by
  obtain ⟨hcode, hpayload⟩ := ht
  refine ⟨hcode, ?_⟩
  rw [← hpayload]
  cases resp <;> rfl

/-- The words of a request are those of the memory, or they are not. -/
theorem Request.ReceivedAs.memtypeValid (hr : r.ReceivedAs h seqno mf f) (p : RegP σ τ μ α) :
    Ufw.memtypeValid p f = decide (r.msem = p.memory.type.msem) := by
  have hw : bitIsset f.header.options rpOptWordSize16 = decide (r.msem = .bit16) := hr.wordSize
  unfold Ufw.memtypeValid
  rw [hw]
  cases p.memory.type <;> cases r <;> rfl

theorem Request.type_write (r : Request) : r.type = .writeRequest ↔ r.type ≠ .readRequest := by
  cases r <;> simp [Request.type]

/-- A request is a request, and it is one to read or one to write. -/
theorem Request.ReceivedAs.isRequest (hr : r.ReceivedAs h seqno mf f) :
    regpIsRequest f = true ∧ regpIsReadRequest f = decide (r.type = .readRequest) := by
  unfold regpIsRequest regpIsReadRequest
  rw [hr.type]
  cases r <;> exact ⟨rfl, rfl⟩

/-- The access to the memory for a valid request, as `regp_process` leaves it. -/
structure Accessed (h h' : Host) (room : Nat) (p : RegP σ τ μ α) (f : RPFrame) (r : Request)
    (resp : Response) (access : RPAccessed μ) : Prop where
  send : ∀ fuel, regpRespond h' fuel { p with mem := access.mem } f access.ba access.buf =
    resp.send h' fuel { p with mem := access.mem } f
  proper : resp.Proper f
  words : resp.words < 2 ^ 32
  tells : resp.Tells h' { p with mem := access.mem } (p.memory.reply h h' room p.mem r).1
  mem : access.mem = (p.memory.reply h h' room p.mem r).2

/-- **What becomes of the request `r`**, received as the frame `f`: the response `resp` goes out,
    with the reply to the request, and the memory is that behind it. -/
structure Replied (h h' : Host) (sent : τ → List Octet) (p : RegP σ τ μ α) (f : RPFrame)
    (r : Request) (resp : Response) (p' : RegP σ τ μ α) (calls : List RPCall) : Prop where
  session : ∃ sink', p' = { p with
    mem := (p.memory.reply h h' (p.alloc.blocksize - h'.sizeofRPFrame) p.mem r).2, sink := sink' }
  out : p.sink.Sends sent (lineEncode p.epType (resp.octets h' p' f)) p'.sink
  proper : resp.Proper f
  words : resp.words < 2 ^ 32
  tells : resp.Tells h' p' (p.memory.reply h h' (p.alloc.blocksize - h'.sizeofRPFrame) p.mem r).1
  inside : ∀ c ∈ calls, c.Inside p

variable (hr : r.ReceivedAs h seqno mf f) (hm : p.memory.Understandable h')
  (hroom : h'.sizeofRPFrame ≤ p.alloc.blocksize) (hword : r.msem = p.memory.type.msem)
  (hdata : f.payloadData ≤ rpHeaderSize)
  {room : Nat} (hfits : r.Fits h h' room p.alloc.blocksize p.memory)

include hr hm hroom hword hdata hfits

/-- **A read request**: the reply is that to the access, or the words are too many. -/
theorem regpRead_reply (hread : r.type = .readRequest) : ∃ resp,
    Accessed h h' (p.alloc.blocksize - h'.sizeofRPFrame) p f r resp (regpRead h' p f) ∧
    ∀ c ∈ (regpRead h' p f).calls, c.Inside p := by
  have hisread : regpIsReadRequest f = true := hr.isRequest.2.trans (decide_eq_true hread)
  have htrx : trxbufsize h' p = p.alloc.blocksize - h'.sizeofRPFrame := trxbufsize_eq hroom
  have hreply : p.memory.reply h h' (p.alloc.blocksize - h'.sizeofRPFrame) p.mem r =
      if p.alloc.blocksize - h'.sizeofRPFrame < r.words * p.memory.type.octets then
        (statusReply h' (BitVec.ofNat 32 (trxbufsize h' p))
          { status := .etxoverflow, address := 0 } [], p.mem)
      else (statusReply h' (BitVec.ofNat 32 (trxbufsize h' p))
          (p.memory.readOctets h' p.mem r.address r.words).1
          (p.memory.readOctets h' p.mem r.address r.words).2.1,
        (p.memory.readOctets h' p.mem r.address r.words).2.2) := by
    rw [htrx]
    unfold RPMemory.reply
    rw [if_neg (fun hne => hne hword), if_pos hread]
  by_cases hover : ReadOverflow h' p f
  · obtain ⟨buf, heq⟩ := regpRead_overflow hroom hover
    obtain ⟨resp, hsend, hproper, hwords, htells⟩ := regpRespond_known (h := h') (p := p) (f := f)
      { status := .etxoverflow, address := 0 } (some buf) []
      ⟨nofun, fun _ => nofun⟩ hisread.symm nofun
    have hlt : p.alloc.blocksize - h'.sizeofRPFrame < r.words * p.memory.type.octets := by
      rw [← hr.blocksize]
      exact hover
    rw [if_pos hlt] at hreply
    rw [heq]
    exact ⟨resp, ⟨hsend, hproper, hwords, by rw [hreply]; exact htells, by rw [hreply]⟩,
      fun c hc => absurd hc List.not_mem_nil⟩
  · have hlt : ¬p.alloc.blocksize - h'.sizeofRPFrame < r.words * p.memory.type.octets := by
      rw [← hr.blocksize]
      exact hover
    have heq := regpRead_forward hroom hover
    rw [hr.address, hr.blocksize] at heq
    rw [if_neg hlt] at hreply
    obtain ⟨resp, hsend, hproper, hwords, htells⟩ := regpRespond_known (h := h')
      (p := { p with mem := (p.memory.readOctets h' p.mem r.address r.words).2.2 }) (f := f)
      (p.memory.readOctets h' p.mem r.address r.words).1
      (some ((f.memory.shift f.payloadData).store 0
        (p.memory.readOctets h' p.mem r.address r.words).2.1))
      (p.memory.readOctets h' p.mem r.address r.words).2.1
      (hm.read _ _ _) hisread.symm (fun hack => by
        have hl := hm.fills _ _ _ hack
        show Mem.slice _ 0 (f.header.blocksize.toNat * wordSize _ .auto) = _
        rw [wordSize_auto, hr.blocksize]
        show Mem.slice _ 0 (r.words * p.memory.type.octets) = _
        rw [← hl, Mem.slice_store])
    rw [heq]
    refine ⟨resp, ⟨hsend, hproper, hwords, by rw [hreply]; exact htells, by rw [hreply]⟩, ?_⟩
    intro c hc
    obtain rfl := List.mem_singleton.mp hc
    obtain ⟨-, hin⟩ := (hfits.read hread).resolve_right hlt
    show h'.sizeofRPFrame + f.payloadData + f.header.blocksize.toNat * p.memory.type.octets ≤ _
    rw [hr.blocksize]
    omega

/-- **A write request**: the reply is that to the access. -/
theorem regpWrite_reply (hwrite : r.type ≠ .readRequest) : ∃ resp,
    Accessed h h' (p.alloc.blocksize - h'.sizeofRPFrame) p f r resp (regpWrite h' p f) ∧
    ∀ c ∈ (regpWrite h' p f).calls, c.Inside p := by
  have hisread : regpIsReadRequest f = false := hr.isRequest.2.trans (decide_eq_false hwrite)
  have htrx : trxbufsize h' p = p.alloc.blocksize - h'.sizeofRPFrame := trxbufsize_eq hroom
  have hlen : ((r.payload h).getD []).length = r.words * p.memory.type.octets := by
    rcases r.length_payload h p with ⟨-, ht⟩ | ⟨hlen, -⟩
    · exact absurd ht hwrite
    · rw [hlen, hword, wordSize_msem]
  -- behind the header stand the words of the request
  have hslice : (f.memory.shift f.payloadData).slice 0
      (f.header.blocksize.toNat * p.memory.type.octets) = (r.payload h).getD [] := by
    have hpl : f.memory.slice f.payloadData f.payloadSize = (r.payload h).getD [] := hr.payload
    have hsize : f.payloadSize = r.words * p.memory.type.octets := by
      rw [← hlen, ← hpl, Mem.length_slice]
    rw [Mem.slice_shift, Nat.add_zero, hr.blocksize, ← hsize, hpl]
  have heq := regpWrite_forward (h := h') (p := p) (f := f)
  rw [hslice, hr.address, hr.blocksize] at heq
  have hreply : p.memory.reply h h' (p.alloc.blocksize - h'.sizeofRPFrame) p.mem r =
      (statusReply h' (BitVec.ofNat 32 (trxbufsize h' p))
        (p.memory.writeOctets h' p.mem r.address r.words ((r.payload h).getD [])).1 [],
      (p.memory.writeOctets h' p.mem r.address r.words ((r.payload h).getD [])).2) := by
    rw [htrx]
    unfold RPMemory.reply
    rw [if_neg (fun hne => hne hword), if_neg hwrite]
  obtain ⟨resp, hsend, hproper, hwords, htells⟩ := regpRespond_known (h := h')
    (p := { p with mem :=
      (p.memory.writeOctets h' p.mem r.address r.words ((r.payload h).getD [])).2 }) (f := f)
    (p.memory.writeOctets h' p.mem r.address r.words ((r.payload h).getD [])).1 none []
    (hm.write _ _ _ _) hisread.symm fun _ => rfl
  rw [heq]
  refine ⟨resp, ⟨hsend, hproper, hwords, by rw [hreply]; exact htells, by rw [hreply]⟩, ?_⟩
  intro c hc
  obtain rfl := List.mem_singleton.mp hc
  have hin := hfits.frame
  show h'.sizeofRPFrame + f.payloadData + f.header.blocksize.toNat * p.memory.type.octets ≤ _
  rw [hr.blocksize, ← hlen]
  omega

omit hword in
/-- **`regp_process` sends the reply to the request**, leaves the memory behind it, and calls the
    memory inside the block of the frame. -/
theorem regpProcess_replies (hk : p.sink.Accepting sent) :
    ∃ resp p' calls, Returns (fun fuel => regpProcess h' fuel p mf) (.ok 0, p', calls) ∧
      Replied h h' sent p f r resp p' calls := by
  obtain ⟨hreq, hisread⟩ := hr.isRequest
  have hvalid := hr.memtypeValid p
  by_cases hword : r.msem = p.memory.type.msem
  · -- the words are those of the memory: the access decides
    have haccess : ∃ resp,
        Accessed h h' (p.alloc.blocksize - h'.sizeofRPFrame) p f r resp
          (if regpIsReadRequest f then regpRead h' p f else regpWrite h' p f) ∧
        ∀ c ∈ (if regpIsReadRequest f then regpRead h' p f else regpWrite h' p f).calls,
          c.Inside p := by
      by_cases hread : r.type = .readRequest
      · rw [if_pos (hisread.trans (decide_eq_true hread))]
        exact regpRead_reply hr hm hroom hword hdata hfits hread
      · rw [if_neg (Bool.eq_false_iff.mp (hisread.trans (decide_eq_false hread)))]
        exact regpWrite_reply hr hm hroom hword hdata hfits hread
    obtain ⟨resp, ⟨hsend, hproper, hwords, htells, hmem⟩, hinside⟩ := haccess
    generalize hacc : (if regpIsReadRequest f then regpRead h' p f else regpWrite h' p f) =
      access at hsend htells hmem hinside
    obtain ⟨sink', hret, hs⟩ := resp.send_sends h' (p := { p with mem := access.mem }) hk f
      (resp.send_size h' { p with mem := access.mem } hwords)
    refine ⟨resp, { p with mem := access.mem, sink := sink' }, access.calls,
      regpProcess_valid hr.frame_eq hr.error hreq (hvalid.trans (decide_eq_true hword)) hacc
        (Returns.congr hsend hret), ⟨sink', by rw [hmem]⟩, hs, hproper, hwords, ?_, hinside⟩
    exact htells.sink sink'
  · -- the words are of another size: there is no access
    have hreply : p.memory.reply h h' (p.alloc.blocksize - h'.sizeofRPFrame) p.mem r =
        ({ code := .ewordsize, payload := [] }, p.mem) := if_pos hword
    obtain ⟨sink', hret, hs⟩ := Response.ewordsize.send_sends h' hk f
      (Response.ewordsize.send_size h' p (by decide))
    refine ⟨.ewordsize, { p with sink := sink' }, [], ?_, ⟨sink', by rw [hreply]⟩, hs, trivial,
      (by decide), ?_, fun c hc => absurd hc List.not_mem_nil⟩
    · refine Returns.after hret fun fuel hsend => ?_
      have hsend' :
          sendResp0 h' fuel p f .ewordsize .bit8 = .ok (.ok 0, { p with sink := sink' }) :=
        hsend
      simp only [regpProcess, hr.frame_eq, hr.error, hreq, Bool.true_eq_false, if_false,
        hvalid.trans (decide_eq_false hword), if_true, hsend', ok_bind]
    · rw [hreply]
      exact ⟨rfl, rfl⟩

end Server

/-! ## 3. The client -/

/-- An answer the client takes for a broken frame: a write response must not carry a payload. -/
def Answered.Refused (a : Answered) : Prop := a.request.type = .writeRequest ∧ a.reply.payload ≠ []

instance Answered.instDecidableRefused (a : Answered) : Decidable a.Refused :=
  inferInstanceAs (Decidable (a.request.type = .writeRequest ∧ a.reply.payload ≠ []))

/-- **What the client has received is the answer**: to its request, by type, address and sequence
    number, with the code and the payload of the reply. -/
structure Answered.ReceivedAs (a : Answered) (mf : RPMaybeFrame) (frame : RPFrame) : Prop where
  frame_eq : mf.frame = some frame
  error : mf.errorId = if a.Refused then some .efault else none
  type : frame.header.type = req2resp a.request.type
  code : frame.header.metaRaw = a.reply.code.code.setWidth 32
  sequence : frame.header.sequence = a.sequence
  address : frame.header.address = a.request.address
  payload : payloadOctets frame = a.reply.payload

/-- **The octets of a frame the client reads the answer off**, wherever it stores them. -/
structure Answered.Carried (h : Host) (room : Nat) (a : Answered) (l : List Octet) : Prop where
  ne_nil : l ≠ []
  room : h.sizeofRPFrame + l.length ≤ room
  parsed : ∀ block : Block, block.Holds h (h.sizeofRPFrame + l.length) l → ∃ frame,
    frame.address = block.address ∧
    (parseFrame h block (h.sizeofRPFrame + l.length)).val =
      (frame, if a.Refused then .error .efault else .ok 0) ∧
    a.ReceivedAs { errorId := if a.Refused then some .efault else none, framesize := 0
                   frame := some frame } frame

section Client

variable {h h' : Host} {p p' : RegP σ τ μ α} {f : RPFrame} {mf : RPMaybeFrame} {r : Request}
  {seqno : BitVec 16} {sent : τ → List Octet} {resp : Response} {calls : List RPCall}

/-- The codes of a memory peers understand are known, and so are those of the replies. -/
theorem RPMemory.Understandable.reply {m : RPMemory μ} (hm : m.Understandable h') (h : Host)
    (room : Nat) (mem : μ) (r : Request) : (m.reply h h' room mem r).1.code.Known := by
  unfold RPMemory.reply
  dsimp only
  split
  · exact ⟨nofun, fun _ => nofun⟩
  · split
    · split
      · exact ⟨nofun, fun _ => nofun⟩
      · exact hm.read _ _ _
    · exact hm.write _ _ _ _

/-- A reply to a status is the answer of the access, or an argument at most. -/
theorem length_statusReply (h : Host) (trx : BitVec 32) (ba : RPBlockAccess) (l : List Octet) :
    (statusReply h trx ba l).payload.length ≤ 4 ∨
      ba.status = .ack ∧ (statusReply h trx ba l).payload = l := by
  obtain ⟨status, address⟩ := ba
  cases status with
  | ack => exact .inr ⟨rfl, rfl⟩
  | erxoverflow | etxoverflow => exact .inl (le_of_eq (length_bfSetU32b h trx))
  | eunmapped | eaccess | erange | einvalid => exact .inl (le_of_eq (length_bfSetU32b h address))
  | ewordsize | epayloadcrc | epayloadsize | ebusy | eio | undefined n => exact .inl (Nat.zero_le _)

/-- **The reply to a request there is room for fits the client's blocks.** -/
theorem RPMemory.Understandable.reply_fits {m : RPMemory μ} (hm : m.Understandable h') {h : Host}
    {room room' : Nat} {r : Request} (hfits : r.Fits h h' room room' m)
    (hroom : h.sizeofRPFrame + rpHeaderSize + 4 ≤ room) (mem : μ) :
    h.sizeofRPFrame + rpHeaderSize +
      (m.reply h h' (room' - h'.sizeofRPFrame) mem r).1.payload.length ≤ room := by
  unfold RPMemory.reply
  dsimp only
  split
  · exact Nat.le_trans (Nat.add_le_add_left (Nat.zero_le 4) _) hroom
  · split
    · rename_i hread
      split
      · rcases length_statusReply h' (BitVec.ofNat 32 (room' - h'.sizeofRPFrame))
          { status := .etxoverflow, address := 0 } [] with hle | ⟨hack, -⟩
        · exact Nat.le_trans (Nat.add_le_add_left hle _) hroom
        · cases hack
      · rename_i hover
        obtain ⟨hin, -⟩ := (hfits.read hread).resolve_right hover
        rcases length_statusReply h' (BitVec.ofNat 32 (room' - h'.sizeofRPFrame))
          (m.readOctets h' mem r.address r.words).1
          (m.readOctets h' mem r.address r.words).2.1 with hle | ⟨hack, hl⟩
        · exact Nat.le_trans (Nat.add_le_add_left hle _) hroom
        · show h.sizeofRPFrame + rpHeaderSize + (statusReply h' _ _ _).payload.length ≤ room
          rw [hl, hm.fills _ _ _ hack]
          exact hin
    · rcases length_statusReply h' (BitVec.ofNat 32 (room' - h'.sizeofRPFrame))
          (m.writeOctets h' mem r.address r.words ((r.payload h).getD [])).1 [] with hle | ⟨-, hl⟩
      · exact Nat.le_trans (Nat.add_le_add_left hle _) hroom
      · show h.sizeofRPFrame + rpHeaderSize + (statusReply h' _ _ _).payload.length ≤ room
        rw [hl, List.length_nil]
        omega

/-- **A known response is refused exactly where it carries a payload to a write request.** -/
theorem Response.fits_iff (hproper : resp.Proper f) (hwords : resp.words < 2 ^ 32)
    (hcode : resp.code ≠ .eio) (h : Host) (p : RegP σ τ μ α) :
    resp.Fits f ↔ (regpIsReadRequest f = true ∨ (resp.payload h p).getD [] = []) := by
  cases harg : resp.arg with
  | some v =>
    have hpl : ((resp.payload h p).getD []).length = 4 := by
      rw [(Response.length_payload_arg harg).1, Option.getD_some, length_bfSetU32b]
    have hne : (resp.payload h p).getD [] ≠ [] := List.ne_nil_of_length_eq_add_one hpl
    cases resp with
    | ack pl n => cases harg
    | erxoverflow v | etxoverflow v | eunmapped v | eaccess v | erange v | einvalid v =>
      exact ⟨fun hfits => .inl (hfits.resolve_right nofun), fun hor => .inl (hor.resolve_right hne)⟩
    | ewordsize | epayloadcrc | epayloadsize | ebusy | eio => cases harg
  | none =>
    cases resp with
    | ack pl n =>
      refine ⟨fun _ => ?_, fun _ _ => hwords⟩
      cases hread : regpIsReadRequest f with
      | true => exact .inl rfl
      | false =>
        have hnone : pl.isSome = false := (show pl.isSome = _ from hproper).trans hread
        obtain rfl := Option.isSome_eq_false_iff.mp hnone |> Option.isNone_iff_eq_none.mp
        exact .inr rfl
    | erxoverflow v | etxoverflow v | eunmapped v | eaccess v | erange v | einvalid v => cases harg
    | ewordsize | epayloadcrc | epayloadsize | ebusy => exact ⟨fun _ => .inr rfl, fun _ => .inr rfl⟩
    | eio => exact absurd rfl hcode

/-- A response with a payload to a write request: the header is read, and the payload is refused. -/
theorem Response.parse_refused {block : Block} {used : Nat} (hreq : regpIsRequest f = true)
    (hread : regpIsReadRequest f = false) (hproper : resp.Proper f) (hcode : resp.code ≠ .eio)
    (hpl : (resp.payload h p).getD [] ≠ []) (hholds : block.Holds h' used (resp.octets h p f)) :
    (parseFrame h' block used).val = (resp.frame h h' p f block used, .error .efault) := by
  have ht : f.header.type = .writeRequest := by
    rcases regpIsRequest_cases hreq with ht | ht
    · exact absurd ((beq_iff_eq.mpr ht : regpIsReadRequest f = true).symm.trans hread) nofun
    · exact ht
  have hresp : req2resp f.header.type = .writeResponse := by rw [ht]; rfl
  unfold Response.octets at hholds
  rw [encodeHeader_host h p _ _ _ _ _ _ _ h'] at hholds
  obtain ⟨hmeta, hvalid⟩ := metaValid_code (.inr hresp) resp.code_defined
  have hok := Bool.eq_true_of_not_eq_false (mt hvalid.mp hcode)
  have htype : RPFrameType.ofCode (((req2resp f.header.type).code.setWidth 4).setWidth 16) =
      req2resp f.header.type := by rw [hresp]; rfl
  have hsize : wordSize p resp.msem ≤ ((resp.payload h p).getD []).length := by
    cases harg : resp.arg with
    | some v =>
      obtain ⟨hpl', -, hw⟩ := Response.length_payload_arg (h := h) (p := p) harg
      rw [hpl', hw, Option.getD_some, length_bfSetU32b]
      decide
    | none =>
      exfalso
      cases resp with
      | ack pl n =>
        have hnone : pl.isSome = false := (show pl.isSome = _ from hproper).trans hread
        obtain rfl := Option.isSome_eq_false_iff.mp hnone |> Option.isNone_iff_eq_none.mp
        exact hpl rfl
      | erxoverflow v | etxoverflow v | eunmapped v | eaccess v | erange v | einvalid v =>
        cases harg
      | ewordsize | epayloadcrc | epayloadsize | ebusy | eio => exact hpl rfl
  refine Prod.ext ?_ (parseFrame_bare_payload hholds htype hmeta hok (.inr (.inl hresp)) hsize)
  rw [parseFrame_encodeHeader hholds htype hmeta hok]
  rfl

/-- **The client reads the reply off the frame that was sent.** -/
theorem Replied.carried (hr : r.ReceivedAs h seqno mf f) (hm : p.memory.Understandable h')
    (hrep : Replied h h' sent p f r resp p' calls) (room : Nat)
    (hroom : h.sizeofRPFrame + rpHeaderSize + ((resp.payload h' p').getD []).length ≤ room) :
    Answered.Carried h room
      { sequence := seqno, request := r
        reply := (p.memory.reply h h' (p.alloc.blocksize - h'.sizeofRPFrame) p.mem r).1 }
      (resp.octets h' p' f) := by
  obtain ⟨hne, hle⟩ := resp.octets_bounds h' p' f
  obtain ⟨hreq, hisread⟩ := hr.isRequest
  obtain ⟨htold, hpayload⟩ := hrep.tells
  have hcode : resp.code ≠ .eio := by
    rw [htold]
    exact (hm.reply h _ p.mem r).1
  have hfits := Response.fits_iff hrep.proper hrep.words hcode h' p'
  rw [hpayload] at hfits
  generalize (p.memory.reply h h' (p.alloc.blocksize - h'.sizeofRPFrame) p.mem r).1 = reply
    at htold hpayload hfits ⊢
  have hrefused : ({ sequence := seqno, request := r, reply } : Answered).Refused ↔
    ¬resp.Fits f := by
    rw [hfits, hisread, not_or, decide_eq_true_iff]
    unfold Answered.Refused
    exact and_congr_left' r.type_write
  refine ⟨hne, by omega, fun block hholds =>
    ⟨resp.frame h' h p' f block (h.sizeofRPFrame + (resp.octets h' p' f).length), rfl, ?_, ?_⟩⟩
  · by_cases hf : resp.Fits f
    · rw [if_neg (fun hn => hrefused.mp hn hf)]
      exact Response.parse_fits hreq hrep.proper hholds hf
    · rw [if_pos (hrefused.mpr hf)]
      obtain ⟨hread, hpl⟩ := not_or.mp (mt hfits.mpr hf)
      exact Response.parse_refused hreq (Bool.eq_false_iff.mpr hread) hrep.proper hcode
        (by rw [hpayload]; exact hpl) hholds
  · have hrec := Response.frame_received hholds
    exact
      { frame_eq := rfl
        error := rfl
        type := hrec.type.trans (by rw [hr.type])
        code := hrec.code.trans (by rw [htold])
        sequence := hrec.sequence.trans hr.sequence
        address := hrec.address.trans hr.address
        payload := hrec.payload.trans hpayload }

end Client

end Ufw
