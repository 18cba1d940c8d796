/-
  File:      Ufw/RegisterProtocol/Session.lean
  Subject:   REGISTER PROTOCOL: a client and a server on a line in each direction. The client sends
             requests without waiting for the answers; the server serves them when it likes; the
             client receives when it likes.

  * `Line` -- the octets that are on their way, as a source;
  * `Session`, `Session.Step` -- the two instances, the lines between them, and what can happen;
  * `Session.Follows` -- the invariant: what is on the lines, and which pipelined service it is;
  * `session_sequential` -- **whatever the interleaving, the server's memory is that of the requests
    served one after the other, and the client has received their replies, in order**;
  * `session_settles` -- **every request is answered**: the parties cannot go on for ever, and they
    can go on until all answers are received.

  The parties read whole frames only: a call of `regp_recv` waits for the frame it has begun.
-/
import Ufw.Base.Pipeline
import Ufw.RegisterProtocol.Service
import Ufw.RegisterProtocol.Ownership

namespace Ufw

open Base

variable {σ τ μ α : Type} {σ' τ' μ' α' : Type}

/-! ## 1. Lines -/

/-- **A line**: a source that hands out what is on the way, in order, and nothing else. -/
structure Line (σ : Type) where
  source : List Octet → Source σ
  delivers : ∀ l m, (source (l ++ m)).Delivers l (source m)
  silent : ∀ o source', sourceGetOctet (source []) ≠ (.ok (some o), source')

/-- What a source hands out before it falls silent is determined. -/
theorem Source.Delivers.same {source end₁ end₂ : Source σ} {l m : List Octet}
    (h1 : source.Delivers l end₁) (h2 : source.Delivers m end₂)
    (hs1 : ∀ o s, sourceGetOctet end₁ ≠ (.ok (some o), s))
    (hs2 : ∀ o s, sourceGetOctet end₂ ≠ (.ok (some o), s)) : l = m := by
  induction h1 generalizing m with
  | nil =>
    cases h2 with
    | nil => rfl
    | cons get rest => exact absurd get (hs1 _ _)
  | cons get rest ih =>
    cases h2 with
    | nil => exact absurd get (hs2 _ _)
    | cons get' rest' =>
      rw [get] at get'
      cases get'
      rw [ih rest' hs1]

/-- A line tells what is on the way. -/
theorem Line.source_injective (line : Line σ) : Function.Injective line.source := by
  intro l m heq
  have hl := line.delivers l []
  have hm := line.delivers m []
  rw [List.append_nil] at hl hm
  rw [heq] at hl
  exact hl.same hm line.silent line.silent

/-- A list of octets as a line. -/
def streamLine : Line (List Octet) where
  source := streamSource
  delivers l m := streamSource_delivers l m
  silent o source' := by rintro ⟨⟩

/-! ## 2. Sessions -/

/-- Two instances, and the octets on the lines between them; `calls` are the calls of the server's
    access functions so far. -/
structure Session (σ τ μ α σ' τ' μ' α' : Type) where
  client : RegP σ τ μ α
  server : RegP σ' τ' μ' α'
  up : List Octet
  down : List Octet
  calls : List RPCall

/-- **An allocator that gets its blocks back**: in an idle one there is a block, and it is idle
    again when that block is freed. -/
structure Recycles (Idle : BlockAllocator α → Prop) : Prop where
  alloc : ∀ ba, Idle ba → ∃ block ba', blockAlloc ba = (.ok block, ba') ∧
    ∀ m : Block, m.address = block.address → Idle (blockFree ba' m)

/-- **An instance at rest**: on the channel `ep`, with a sink that takes what it is given, and with
    an idle allocator of blocks of `room` octets. -/
structure RegP.AtRest (sent : τ → List Octet) (Idle : BlockAllocator α → Prop)
    (ep : RPEndpointType) (room : Nat) (p : RegP σ τ μ α) : Prop where
  channel : p.epType = ep
  sink : p.sink.Accepting sent
  idle : Idle p.alloc
  room : p.alloc.blocksize = room

section Steps

variable (h h' : Host) (sent : τ → List Octet) (sent' : τ' → List Octet) (upLine : Line σ')
  (downLine : Line σ)

/-- **What can happen.** The client sends a request there is room for; the server, once a frame is
    on its line, receives, processes and frees it; the client, once a frame is on its line, receives
    and frees it. What a party sends is put on the other's line. -/
inductive Session.Step : Session σ τ μ α σ' τ' μ' α' → Move Request RPMaybeFrame →
    Session σ τ μ α σ' τ' μ' α' → Prop
  | request {s : Session σ τ μ α σ' τ' μ' α'} {r : Request} {rc : Rc} {client : RegP σ τ μ α}
      {v : List Octet}
      (fits : r.Fits h h' s.client.alloc.blocksize s.server.alloc.blocksize s.server.memory)
      (ret : Returns (fun fuel => r.send h fuel s.client) (rc, client))
      (out : sent client.sink.driver = sent s.client.sink.driver ++ v) :
      Step s (.ask r) { s with client, up := s.up ++ v }
  | serve {s : Session σ τ μ α σ' τ' μ' α'} {rc rc' : Rc} {mf : RPMaybeFrame}
      {server₁ server₂ : RegP σ' τ' μ' α'} {calls : List RPCall} {up v : List Octet}
      (arrived : s.up ≠ [])
      (recv : Returns (fun fuel => regpRecv h' fuel { s.server with source := upLine.source s.up })
        (rc, mf, server₁))
      (read : server₁.source = upLine.source up)
      (process : Returns (fun fuel => regpProcess h' fuel server₁ mf) (rc', server₂, calls))
      (out : sent' server₂.sink.driver = sent' s.server.sink.driver ++ v) :
      Step s .serve { s with server := regpFree h' server₂ mf.frame, up, down := s.down ++ v
                             calls := s.calls ++ calls }
  | collect {s : Session σ τ μ α σ' τ' μ' α'} {rc : Rc} {mf : RPMaybeFrame}
      {client : RegP σ τ μ α} {down v : List Octet} (arrived : s.down ≠ [])
      (recv : Returns
          (fun fuel => regpRecv h fuel { s.client with source := downLine.source s.down })
        (rc, mf, client))
      (read : client.source = downLine.source down)
      (out : sent client.sink.driver = sent s.client.sink.driver ++ v) :
      Step s (.collect mf) { s with client := regpFree h client mf.frame, up := s.up ++ v, down }

end Steps

/-! ## 3. Requests on the line -/

/-- The octets of requests that are sent one after another, from the session state of `p` on. -/
def requestOctets (h : Host) (p : RegP σ τ μ α) : List Request → List Octet
  | [] => []
  | r :: rs => lineEncode p.epType (r.octets h p) ++
      requestOctets h { p with sequence := p.sequence + 1 } rs

section Requests

variable {h : Host} {p q : RegP σ τ μ α}

/-- The octets of a request are those of its channel and of its sequence number. -/
theorem Request.octets_congr (hep : p.epType = q.epType) (hseq : p.sequence = q.sequence)
    (r : Request) : r.octets h p = r.octets h q := by
  have hmotv : ∀ n, makeMotv p r.msem 0 r.type n = makeMotv q r.msem 0 r.type n := by
    intro n
    unfold makeMotv motvOptions
    rw [hep]
    cases r <;> rfl
  unfold Request.octets encodeHeader
  rw [hseq, hmotv]

theorem requestOctets_congr (hep : p.epType = q.epType) (hseq : p.sequence = q.sequence)
    (rs : List Request) : requestOctets h p rs = requestOctets h q rs := by
  induction rs generalizing p q with
  | nil => rfl
  | cons r rs ih =>
    have hrest := ih (p := { p with sequence := p.sequence + 1 })
      (q := { q with sequence := q.sequence + 1 }) hep (congrArg (· + 1) hseq)
    unfold requestOctets
    rw [hrest, r.octets_congr hep hseq, hep]

theorem requestOctets_concat (rs : List Request) (r : Request) :
    requestOctets h p (rs ++ [r]) = requestOctets h p rs ++ lineEncode p.epType
      (r.octets h { p with sequence := p.sequence + BitVec.ofNat 16 rs.length }) := by
  induction rs generalizing p with
  | nil =>
    show lineEncode p.epType (r.octets h p) ++ [] = _
    rw [List.append_nil]
    refine congrArg (lineEncode p.epType) ?_
    apply Request.octets_congr
    · rfl
    · exact (BitVec.add_zero p.sequence).symm
  | cons r₀ rs ih =>
    show lineEncode p.epType (r₀.octets h p) ++ requestOctets h _ (rs ++ [r]) = _
    rw [ih]
    show _ = (lineEncode p.epType (r₀.octets h p) ++ requestOctets h _ rs) ++ _
    rw [List.append_assoc]
    refine congrArg _ (congrArg _ (congrArg (lineEncode p.epType) ?_))
    apply Request.octets_congr
    · rfl
    · show p.sequence + 1 + BitVec.ofNat 16 rs.length = p.sequence + BitVec.ofNat 16 (rs.length + 1)
      rw [BitVec.add_assoc, BitVec.add_comm 1, BitVec.ofNat_add]
      rfl

end Requests

/-! ## 4. The invariant -/

/-- What the server makes of requests: it has `room'` octets in its blocks. -/
abbrev serveOf (h h' : Host) (room' : Nat) (m : RPMemory μ') :
    BitVec 16 × μ' → Request → Answered × BitVec 16 × μ' := m.serve h h' (room' - h'.sizeofRPFrame)

/-- **The invariant: a session is a pipelined service.** The client's line holds the requests that
    are waiting, with the sequence numbers they will be served under; the server's line holds frames
    with the answers that are ready; the parties are at rest, and the memory is that of the
    service. -/
structure Session.Mirrors (h h' : Host) (sent : τ → List Octet) (sent' : τ' → List Octet)
    (Idle : BlockAllocator α → Prop) (Idle' : BlockAllocator α' → Prop) (ep : RPEndpointType)
    (room room' : Nat) (m : RPMemory μ') (s : Session σ τ μ α σ' τ' μ' α')
    (a : Pipeline (BitVec 16 × μ') Request Answered) : Prop where
  client : s.client.AtRest sent Idle ep room
  server : s.server.AtRest sent' Idle' ep room'
  memory : s.server.memory = m
  mem : s.server.mem = a.state.2
  sequence : s.client.sequence = a.state.1 + BitVec.ofNat 16 a.waiting.length
  fits : ∀ r ∈ a.waiting, r.Fits h h' room room' m
  up : s.up = requestOctets h { s.client with sequence := a.state.1 } a.waiting
  down : ∃ ls, s.down = ls.flatMap (lineEncode ep) ∧
    List.Forall₂ (Answered.Carried h room) a.ready ls
  calls : ∀ c ∈ s.calls, c.buf + c.size * m.type.octets ≤ room'

section Receiving

variable {h : Host} {p : RegP σ τ μ α} {sent : τ → List Octet} {Idle : BlockAllocator α → Prop}
  {ep : RPEndpointType} {room : Nat}

/-- **An instance at rest receives the next frame of its line**; what comes of it is what the parser
    makes of it, and the allocator is idle again once the frame is freed. -/
theorem RegP.AtRest.receives (hp : p.AtRest sent Idle ep room) (hI : Recycles Idle) (line : Line σ)
    {l : List Octet} (hne : l ≠ []) (hfit : h.sizeofRPFrame + l.length ≤ room) (rest : List Octet) :
    ∃ block alloc, block.Holds h (h.sizeofRPFrame + l.length) l ∧ alloc.blocksize = room ∧
      (∀ b : Block, b.address = block.address → Idle (blockFree alloc b)) ∧
      ∀ rc mf, (∀ fuel q, recvParse h fuel q block (h.sizeofRPFrame + l.length) =
          .ok (rc, mf, (q : RegP σ τ μ α))) →
        Returns (fun fuel => regpRecv h fuel
            { p with source := line.source (lineEncode ep l ++ rest) })
          (rc, mf, { p with source := line.source rest, alloc }) := by
  obtain ⟨rfl, -, hidle, rfl⟩ := hp
  obtain ⟨block₀, alloc, hblock, hback⟩ := hI.alloc p.alloc hidle
  obtain ⟨block, hholds, haddr, hiff⟩ := regpRecv_frame h
    (p := { p with source := line.source (lineEncode p.epType l ++ rest) }) hne
    (line.delivers (lineEncode p.epType l) rest) hblock hfit
  refine ⟨block, alloc, hholds, blockAlloc_blocksize hblock,
    fun b hb => hback b (hb.trans haddr), fun rc mf hparse => ?_⟩
  exact (hiff _).mpr (Returns.of_eq fun fuel => hparse fuel _)

/-- A frame the parser refuses as EFAULT is handed out as it is. -/
theorem recvParse_efault {block : Block} {used : Nat} {frame : RPFrame}
    (hparse : (parseFrame h block used).val = (frame, .error .efault)) (fuel : Nat)
    (p : RegP σ τ μ α) : recvParse h fuel p block used =
      .ok (.ok 0, { errorId := some .efault, framesize := 0, frame := some frame }, p) := by
  unfold recvParse
  rw [hparse]

/-- A frame that carries an answer is handed out, and is that answer. -/
theorem Answered.Carried.received {a : Answered} {l : List Octet} (ha : a.Carried h room l)
    {block : Block} (hholds : block.Holds h (h.sizeofRPFrame + l.length) l) : ∃ mf frame,
      (∀ fuel q, recvParse h fuel q block (h.sizeofRPFrame + l.length) =
        .ok (.ok 0, mf, (q : RegP σ τ μ α))) ∧
      a.ReceivedAs mf frame ∧ frame.address = block.address := by
  obtain ⟨frame, haddr, hparse, hrec⟩ := ha.parsed block hholds
  refine ⟨_, frame, fun fuel q => ?_, hrec, haddr⟩
  by_cases hrefused : a.Refused
  · rw [if_pos hrefused] at hparse ⊢
    exact recvParse_efault hparse fuel q
  · rw [if_neg hrefused] at hparse ⊢
    exact recvParse_ok hparse fuel q

/-- The payload of a request stands behind a header at most. -/
theorem payloadData_frame {σ τ μ α : Type} (h h' : Host) (p : RegP σ τ μ α) (r : Request)
    (block : Block) (used : Nat) : (r.frame h h' p block used).payloadData ≤ rpHeaderSize := by
  show 2 * headerWords _ ≤ rpHeaderSize
  unfold headerWords rpHeaderMinSize16 rpHeaderSize rpHeaderSize16
  split <;> split <;> omega

end Receiving

/-! ## 5. What one step keeps -/

section Serving

variable {h h' : Host} {sent : τ → List Octet} {Idle : BlockAllocator α → Prop}
  {ep : RPEndpointType} {room room' : Nat} {p : RegP σ τ μ α} {r : Request}

/-- **An instance at rest serves the request of a client.** -/
theorem RegP.AtRest.serves (hp : p.AtRest sent Idle ep room') (hI : Recycles Idle)
    (hm : p.memory.Understandable h') (hfits : r.Fits h h' room room' p.memory)
    (hroom : h.sizeofRPFrame + rpHeaderSize + 4 ≤ room) (line : Line σ) (client : RegP σ' τ' μ' α')
    (rest : List Octet) :
    ∃ mf p₁ p₂ calls l,
      Returns (fun fuel => regpRecv h' fuel
          { p with source := line.source (lineEncode ep (r.octets h client) ++ rest) })
        (.ok 0, mf, p₁) ∧ p₁.source = line.source rest ∧
      Returns (fun fuel => regpProcess h' fuel p₁ mf) (.ok 0, p₂, calls) ∧
      sent p₂.sink.driver = sent p.sink.driver ++ lineEncode ep l ∧
      (regpFree h' p₂ mf.frame).AtRest sent Idle ep room' ∧
      (regpFree h' p₂ mf.frame).memory = p.memory ∧
      (regpFree h' p₂ mf.frame).mem =
        (p.memory.reply h h' (room' - h'.sizeofRPFrame) p.mem r).2 ∧
      Answered.Carried h room
        { sequence := client.sequence, request := r
          reply := (p.memory.reply h h' (room' - h'.sizeofRPFrame) p.mem r).1 } l ∧
      ∀ c ∈ calls, c.buf + c.size * p.memory.type.octets ≤ room' := by
  have hframe := hfits.frame
  have hlen : h'.sizeofRPFrame + (r.octets h client).length ≤ room' := by
    obtain ⟨-, hle⟩ := length_headerOctets_bounds h client r.msem r.type 0 client.sequence r.address
      r.words (payloadCrc (r.payload h))
    unfold Request.octets
    rw [List.length_append]
    omega
  obtain ⟨block, alloc, hholds, rfl, hback, hrecv⟩ := hp.receives hI line
    (r.octets_ne_nil h client) hlen rest
  have hrec := r.frame_received hfits.words hholds
  -- the server that has received the frame
  generalize hq : ({ p with source := line.source rest, alloc } : RegP σ τ μ α) = q at hrecv
  have hqm : q.memory = p.memory := by rw [← hq]
  have hqmem : q.mem = p.mem := by rw [← hq]
  have hqalloc : q.alloc = alloc := by rw [← hq]
  have hfront : h'.sizeofRPFrame ≤ q.alloc.blocksize := by rw [hqalloc]; omega
  obtain ⟨resp, p₂, calls, hproc, hrep⟩ := regpProcess_replies (p := q) hrec (hqm ▸ hm) hfront
    (payloadData_frame h h' client r block _) (hqalloc ▸ hqm ▸ hfits)
    (show q.sink.Accepting sent by rw [← hq]; exact hp.sink)
  have hcar := hrep.carried hrec (hqm ▸ hm) room (by
    rw [hrep.tells.payload, hqm, hqalloc, hqmem]
    exact hm.reply_fits hfits hroom p.mem)
  obtain ⟨⟨sink', rfl⟩, hs, -, -, -, hinside⟩ := hrep
  subst hq
  have hk' : sink'.Accepting sent := hp.sink.sends hs
  obtain ⟨d', hsink, hsent⟩ := hs
  refine ⟨_, _, _, calls, _,
    hrecv _ _ fun fuel q => recvParse_ok (r.parse hfits.words hholds) fuel q, rfl, hproc, ?_,
    ⟨hp.channel, hk', hback _ rfl, rfl⟩, rfl, rfl, hcar, hinside⟩
  rw [← hp.channel]
  exact (congrArg (fun k : Sink τ => sent k.driver) hsink).trans hsent

end Serving

section Mirroring

variable {h h' : Host} {sent : τ → List Octet} {sent' : τ' → List Octet}
  {Idle : BlockAllocator α → Prop} {Idle' : BlockAllocator α' → Prop} {ep : RPEndpointType}
  {room room' : Nat} {m : RPMemory μ'} {s : Session σ τ μ α σ' τ' μ' α'}
  {upLine : Line σ'} {downLine : Line σ} {st : BitVec 16 × μ'} {r : Request} {rs : List Request}
  {answer : Answered} {ready : List Answered}

/-- **A request is sent**, and waits. -/
theorem Session.Mirrors.request {a : Pipeline (BitVec 16 × μ') Request Answered}
    (hM : s.Mirrors h h' sent sent' Idle Idle' ep room room' m a)
    (hfits : r.Fits h h' room room' m) :
    ∃ client v, Returns (fun fuel => r.send h fuel s.client) (.ok 0, client) ∧
      sent client.sink.driver = sent s.client.sink.driver ++ v ∧
      Session.Mirrors h h' sent sent' Idle Idle' ep room room' m { s with client, up := s.up ++ v }
        ⟨a.state, a.waiting ++ [r], a.ready⟩ := by
  obtain ⟨⟨hep, hk, hidle, hroom⟩, hserver, hmemory, hmem, hseq, hwait, hup, hdown, hcalls⟩ := hM
  obtain ⟨sink', hret, hs⟩ := r.send_sends h hk (r.payload_le h hfits.words)
  have hk' : sink'.Accepting sent := hk.sends hs
  obtain ⟨d', hsink, hsent⟩ := hs
  refine ⟨_, _, hret, (congrArg (fun k : Sink τ => sent k.driver) hsink).trans hsent,
    ⟨hep, hk', hidle, hroom⟩, hserver, hmemory, hmem, ?_, ?_, ?_, hdown, hcalls⟩
  · show s.client.sequence + 1 = a.state.1 + BitVec.ofNat 16 (a.waiting ++ [r]).length
    rw [hseq, List.length_append, BitVec.ofNat_add, BitVec.add_assoc]
    rfl
  · intro q hq
    rcases List.mem_append.mp hq with hq | hq
    · exact hwait q hq
    · rw [List.mem_singleton.mp hq]
      exact hfits
  · show s.up ++ _ = requestOctets h _ (a.waiting ++ [r])
    rw [requestOctets_concat, hup]
    refine congrArg₂ (· ++ ·) ?_ (congrArg (lineEncode s.client.epType) ?_)
    · apply requestOctets_congr <;> rfl
    · apply Request.octets_congr
      · rfl
      · exact hseq

/-- **A request is served**, and its answer is ready. -/
theorem Session.Mirrors.serve (hI' : Recycles Idle') (hm : m.Understandable h')
    (hroom : h.sizeofRPFrame + rpHeaderSize + 4 ≤ room) (upLine : Line σ')
    (hM : s.Mirrors h h' sent sent' Idle Idle' ep room room' m ⟨st, r :: rs, ready⟩) :
    ∃ mf server₁ server₂ calls up v,
      Returns (fun fuel => regpRecv h' fuel { s.server with source := upLine.source s.up })
        (.ok 0, mf, server₁) ∧
      server₁.source = upLine.source up ∧
      Returns (fun fuel => regpProcess h' fuel server₁ mf) (.ok 0, server₂, calls) ∧
      sent' server₂.sink.driver = sent' s.server.sink.driver ++ v ∧
      Session.Mirrors h h' sent sent' Idle Idle' ep room room' m
        { s with server := regpFree h' server₂ mf.frame, up, down := s.down ++ v
                 calls := s.calls ++ calls }
        ⟨(serveOf h h' room' m st r).2, rs, ready ++ [(serveOf h h' room' m st r).1]⟩ := by
  obtain ⟨hclient, hserver, rfl, hmem, hseq, hwait, hup, ⟨ls, hdown, hcarried⟩, hcalls⟩ := hM
  obtain ⟨hfits, hrest⟩ := List.forall_mem_cons.mp hwait
  -- the first frame of the line is that of the request, the others are those behind it
  have hline : s.up = lineEncode ep (r.octets h { s.client with sequence := st.1 }) ++
      requestOctets h { s.client with sequence := st.1 + 1 } rs := by
    rw [hup, ← hclient.channel]
    rfl
  obtain ⟨mf, server₁, server₂, calls, l, hrecv, hread, hproc, hsent, hrested, hmemory, hmem',
    hcar, hinside⟩ := hserver.serves hI' hm hfits hroom upLine { s.client with sequence := st.1 }
      (requestOctets h { s.client with sequence := st.1 + 1 } rs)
  refine ⟨mf, server₁, server₂, calls, _, _, by rw [hline]; exact hrecv, hread, hproc, hsent,
    hclient, hrested, hmemory, ?_, ?_, hrest, ?_, ?_, ?_⟩
  · rw [hmem', hmem]
    rfl
  · show s.client.sequence = st.1 + 1 + BitVec.ofNat 16 rs.length
    rw [hseq, List.length_cons, Nat.add_comm, BitVec.ofNat_add, BitVec.add_assoc]
    rfl
  · rfl
  · refine ⟨ls ++ [l], ?_, List.rel_append hcarried (.cons ?_ .nil)⟩
    · rw [hdown, List.flatMap_append, List.flatMap_singleton]
    · rw [hmem] at hcar
      exact hcar
  · intro c hc
    rcases List.mem_append.mp hc with hc | hc
    · exact hcalls c hc
    · exact hinside c hc

/-- **An answer is received.** -/
theorem Session.Mirrors.collect (hI : Recycles Idle) (downLine : Line σ) {waiting : List Request}
    (hM : s.Mirrors h h' sent sent' Idle Idle' ep room room' m ⟨st, waiting, answer :: ready⟩) :
    ∃ mf frame client down,
      Returns (fun fuel => regpRecv h fuel { s.client with source := downLine.source s.down })
        (.ok 0, mf, client) ∧
      client.source = downLine.source down ∧
      sent client.sink.driver = sent s.client.sink.driver ++ [] ∧ answer.ReceivedAs mf frame ∧
      Session.Mirrors h h' sent sent' Idle Idle' ep room room' m
        { s with client := regpFree h client mf.frame, up := s.up ++ [], down }
        ⟨st, waiting, ready⟩ := by
  obtain ⟨hclient, hserver, hmemory, hmem, hseq, hwait, hup, ⟨ls, hdown, hcarried⟩, hcalls⟩ := hM
  cases hcarried with
  | @cons _ l _ ls hhead htail =>
    obtain ⟨block, alloc, hholds, hsize, hback, hrecv⟩ := hclient.receives hI downLine hhead.ne_nil
      hhead.room (ls.flatMap (lineEncode ep))
    obtain ⟨mf, frame, hparse, hrec, haddr⟩ :=
      hhead.received (σ := σ) (τ := τ) (μ := μ) (α := α) hholds
    refine ⟨mf, frame,
      { s.client with source := downLine.source (ls.flatMap (lineEncode ep)), alloc }, _,
      by rw [hdown]; exact hrecv _ _ hparse, rfl, (List.append_nil _).symm, hrec, ?_, hserver,
        hmemory, hmem, ?_, hwait, ?_, ⟨ls, rfl, htail⟩, hcalls⟩
    · rw [hrec.frame_eq]
      exact ⟨hclient.channel, hclient.sink, hback _ haddr, hsize⟩
    · rw [hrec.frame_eq]
      exact hseq
    · show s.up ++ [] = _
      rw [List.append_nil, hup, hrec.frame_eq]
      apply requestOctets_congr <;> rfl

/-- An answer that was received. -/
def IsAnswer (mf : RPMaybeFrame) (answer : Answered) : Prop := ∃ frame, answer.ReceivedAs mf frame

theorem lineEncode_ne_nil (ep : RPEndpointType) (l : List Octet) : lineEncode ep l ≠ [] := by
  cases ep with
  | serial => exact List.append_ne_nil_of_right_ne_nil _ (List.cons_ne_nil _ _)
  | tcp =>
    refine List.append_ne_nil_of_left_ne_nil ?_ _
    rw [varintEncode_eq]
    split <;> exact List.cons_ne_nil _ _

theorem requestOctets_eq_nil {p : RegP σ τ μ α} : requestOctets h p rs = [] ↔ rs = [] := by
  cases rs with
  | nil => exact ⟨fun _ => rfl, fun _ => rfl⟩
  | cons r rs =>
    refine ⟨fun hnil => ?_, nofun⟩
    exact absurd (List.append_eq_nil_iff.mp hnil).1 (lineEncode_ne_nil p.epType _)

/-- What is on the lines is what is on its way in the service. -/
theorem Session.Mirrors.lines {a : Pipeline (BitVec 16 × μ') Request Answered}
    (hM : s.Mirrors h h' sent sent' Idle Idle' ep room room' m a) :
    (s.up = [] ↔ a.waiting = []) ∧ (s.down = [] ↔ a.ready = []) := by
  refine ⟨by rw [hM.up]; exact requestOctets_eq_nil, ?_⟩
  obtain ⟨ls, hdown, hcarried⟩ := hM.down
  rw [hdown]
  obtain ⟨st, waiting, ready⟩ := a
  cases hcarried with
  | nil => exact ⟨fun _ => rfl, fun _ => rfl⟩
  | cons _ _ =>
    exact ⟨fun hnil => absurd (List.append_eq_nil_iff.mp hnil).1 (lineEncode_ne_nil ep _), nofun⟩

/-- **Every step of a session is one of the service.** -/
theorem Session.follows (hI : Recycles Idle) (hI' : Recycles Idle') (hm : m.Understandable h')
    (hroom : h.sizeofRPFrame + rpHeaderSize + 4 ≤ room) (upLine : Line σ') (downLine : Line σ) :
    Follows (Session.Step (μ := μ) h h' sent sent' upLine downLine)
      (Pipeline.Step (serveOf h h' room' m))
      (Session.Mirrors h h' sent sent' Idle Idle' ep room room' m) (Move.Related IsAnswer) := by
  intro s a l s' hM hstep
  obtain ⟨st, waiting, ready⟩ := a
  cases hstep with
  | request fits ret out =>
    rw [hM.client.room, hM.server.room, hM.memory] at fits
    obtain ⟨client, v, hret, hout, hM'⟩ := hM.request fits
    cases Returns.unique hret ret
    obtain rfl := List.append_cancel_left (hout.symm.trans out)
    exact ⟨_, _, .ask _, .ask st waiting ready _, hM'⟩
  | serve arrived recv read process out =>
    cases waiting with
    | nil => exact absurd (hM.lines.1.mpr rfl) arrived
    | cons r rs =>
      obtain ⟨mf, server₁, server₂, calls, up, v, hrecv, hread, hproc, hout, hM'⟩ :=
        hM.serve hI' hm hroom upLine
      cases Returns.unique hrecv recv
      cases Returns.unique hproc process
      obtain rfl := upLine.source_injective (hread.symm.trans read)
      obtain rfl := List.append_cancel_left (hout.symm.trans out)
      exact ⟨_, _, .serve, .serve st r rs ready, hM'⟩
  | collect arrived recv read out =>
    cases ready with
    | nil => exact absurd (hM.lines.2.mpr rfl) arrived
    | cons answer ready =>
      obtain ⟨mf, frame, client, down, hrecv, hread, hout, hrec, hM'⟩ := hM.collect hI downLine
      cases Returns.unique hrecv recv
      obtain rfl := downLine.source_injective (hread.symm.trans read)
      obtain rfl := List.append_cancel_left (hout.symm.trans out)
      exact ⟨_, _, .collect ⟨frame, hrec⟩, .collect st waiting answer ready, hM'⟩

/-- **Unless nothing is on its way, a party can go on.** -/
theorem Session.Mirrors.next {a : Pipeline (BitVec 16 × μ') Request Answered} (hI : Recycles Idle)
    (hI' : Recycles Idle') (hm : m.Understandable h')
    (hroom : h.sizeofRPFrame + rpHeaderSize + 4 ≤ room) (upLine : Line σ') (downLine : Line σ)
    (hM : s.Mirrors h h' sent sent' Idle Idle' ep room room' m a) :
    a.Quiet ∨ ∃ l s', Session.Step h h' sent sent' upLine downLine s l s' ∧ l.Inner := by
  obtain ⟨st, waiting, ready⟩ := a
  cases waiting with
  | cons r rs =>
    obtain ⟨mf, server₁, server₂, calls, up, v, hrecv, hread, hproc, hout, -⟩ :=
      hM.serve hI' hm hroom upLine
    exact .inr ⟨_, _, .serve (mt hM.lines.1.mp nofun) hrecv hread hproc hout, trivial⟩
  | nil =>
    cases ready with
    | cons answer ready =>
      obtain ⟨mf, frame, client, down, hrecv, hread, hout, -, -⟩ := hM.collect hI downLine
      exact .inr ⟨_, _, .collect (mt hM.lines.2.mp nofun) hrecv hread hout, trivial⟩
    | nil => exact .inl ⟨rfl, rfl⟩

end Mirroring

/-! ## 6. Runs -/

section Runs

variable {h h' : Host} {sent : τ → List Octet} {sent' : τ' → List Octet}
  {Idle : BlockAllocator α → Prop} {Idle' : BlockAllocator α' → Prop} {ep : RPEndpointType}
  {room room' : Nat} {s s₀ : Session σ τ μ α σ' τ' μ' α'} {upLine : Line σ'} {downLine : Line σ}
  {ms : List (Move Request RPMaybeFrame)}

/-- **Where a session begins**: both instances are at rest, and nothing is on its way. -/
structure Session.Starts (sent : τ → List Octet) (sent' : τ' → List Octet)
    (Idle : BlockAllocator α → Prop) (Idle' : BlockAllocator α' → Prop) (ep : RPEndpointType)
    (room room' : Nat) (s₀ : Session σ τ μ α σ' τ' μ' α') : Prop where
  client : s₀.client.AtRest sent Idle ep room
  server : s₀.server.AtRest sent' Idle' ep room'
  up : s₀.up = []
  down : s₀.down = []
  calls : s₀.calls = []

/-- The service the server of a session is. -/
abbrev Session.service (h h' : Host) (room' : Nat) (s₀ : Session σ τ μ α σ' τ' μ' α') :
    BitVec 16 × μ' → Request → Answered × BitVec 16 × μ' := serveOf h h' room' s₀.server.memory

/-- The state of the service in the beginning. -/
def Session.serviceState (s₀ : Session σ τ μ α σ' τ' μ' α') : BitVec 16 × μ' :=
  (s₀.client.sequence, s₀.server.mem)

theorem Session.Starts.mirrors (hs : s₀.Starts sent sent' Idle Idle' ep room room') :
    s₀.Mirrors h h' sent sent' Idle Idle' ep room room' s₀.server.memory
      ⟨s₀.serviceState, [], []⟩ where
  client := hs.client
  server := hs.server
  memory := rfl
  mem := rfl
  sequence := (BitVec.add_zero _).symm
  fits := fun r hr => absurd hr List.not_mem_nil
  up := hs.up
  down := ⟨[], hs.down, .nil⟩
  calls := by rw [hs.calls]; exact fun c hc => absurd hc List.not_mem_nil

/-- **A run of a session is one of the service.** -/
theorem Session.Starts.run (hI : Recycles Idle) (hI' : Recycles Idle')
    (hm : s₀.server.memory.Understandable h') (hroom : h.sizeofRPFrame + rpHeaderSize + 4 ≤ room)
    (hs : s₀.Starts sent sent' Idle Idle' ep room room')
    (hrun : Course (Session.Step h h' sent sent' upLine downLine) s₀ ms s) :
    ∃ ks a, List.Forall₂ (Move.Related IsAnswer) ms ks ∧
      Course (Pipeline.Step (s₀.service h h' room')) ⟨s₀.serviceState, [], []⟩ ks a ∧
      s.Mirrors h h' sent sent' Idle Idle' ep room room' s₀.server.memory a :=
  hrun.simulates (Session.follows hI hI' hm hroom upLine downLine) hs.mirrors

/-- **Requests there is room for can be sent**, whatever is on its way. -/
theorem Session.Mirrors.requests {m : RPMemory μ'} {a : Pipeline (BitVec 16 × μ') Request Answered}
    (hM : s.Mirrors h h' sent sent' Idle Idle' ep room room' m a) (upLine : Line σ')
    (downLine : Line σ) (rs : List Request) (hrs : ∀ r ∈ rs, r.Fits h h' room room' m) :
    ∃ s' a', Course (Session.Step h h' sent sent' upLine downLine) s (rs.map .ask) s' ∧
      s'.Mirrors h h' sent sent' Idle Idle' ep room room' m a' := by
  induction rs generalizing s a with
  | nil => exact ⟨s, a, .nil s, hM⟩
  | cons r rs ih =>
    obtain ⟨hr, hrest⟩ := List.forall_mem_cons.mp hrs
    obtain ⟨client, v, hret, hout, hM₁⟩ := hM.request hr
    obtain ⟨s', a', hmoves, hM'⟩ := ih hM₁ hrest
    refine ⟨s', a', .cons (.request ?_ hret hout) hmoves, hM'⟩
    rw [hM.client.room, hM.server.room, hM.memory]
    exact hr

/-- **The parties can go on until nothing is on its way.** -/
theorem Session.Mirrors.drains {m : RPMemory μ'} (hI : Recycles Idle) (hI' : Recycles Idle')
    (hm : m.Understandable h') (hroom : h.sizeofRPFrame + rpHeaderSize + 4 ≤ room)
    (upLine : Line σ') (downLine : Line σ) : ∀ (n : Nat) {s : Session σ τ μ α σ' τ' μ' α'}
    {a : Pipeline (BitVec 16 × μ') Request Answered}, a.left = n →
    s.Mirrors h h' sent sent' Idle Idle' ep room room' m a →
    ∃ ms s', Course (Session.Step h h' sent sent' upLine downLine) s ms s' ∧
      (∀ l ∈ ms, l.Inner) ∧ s'.up = [] ∧ s'.down = [] := by
  intro n
  induction n with
  | zero =>
    intro s a hleft hM
    have hquiet : a.waiting = [] ∧ a.ready = [] := by
      unfold Pipeline.left at hleft
      exact ⟨List.length_eq_zero_iff.mp (by omega), List.length_eq_zero_iff.mp (by omega)⟩
    exact ⟨[], s, .nil s, fun l hl => absurd hl List.not_mem_nil, hM.lines.1.mpr hquiet.1,
      hM.lines.2.mpr hquiet.2⟩
  | succ n ih =>
    intro s a hleft hM
    rcases hM.next hI hI' hm hroom upLine downLine with hquiet | ⟨l, s₁, hstep, hl⟩
    · exact ⟨[], s, .nil s, fun l hl => absurd hl List.not_mem_nil, hM.lines.1.mpr hquiet.1,
        hM.lines.2.mpr hquiet.2⟩
    · obtain ⟨k, a₁, hrel, hstep', hM₁⟩ :=
        Session.follows hI hI' hm hroom upLine downLine _ _ _ _ hM hstep
      have hk : k.Inner := by
        cases hrel with
        | ask i => exact hl
        | serve => exact trivial
        | collect hQ => exact trivial
      have hdown := hstep'.left hk
      obtain ⟨ms, s', hmoves, hms, hquiet⟩ := ih (by omega) hM₁
      exact ⟨l :: ms, s', .cons hstep hmoves, List.forall_mem_cons.mpr ⟨hl, hms⟩, hquiet⟩

/-- **Requests there is room for can all be sent, and then answered.** -/
theorem Session.Starts.quiets (hI : Recycles Idle) (hI' : Recycles Idle')
    (hm : s₀.server.memory.Understandable h') (hroom : h.sizeofRPFrame + rpHeaderSize + 4 ≤ room)
    (hs : s₀.Starts sent sent' Idle Idle' ep room room') (upLine : Line σ') (downLine : Line σ)
    {rs : List Request} (hrs : ∀ r ∈ rs, r.Fits h h' room room' s₀.server.memory) :
    ∃ ms s, Course (Session.Step h h' sent sent' upLine downLine) s₀ ms s ∧
      Move.asked ms = rs ∧ s.up = [] ∧ s.down = [] := by
  have hM : s₀.Mirrors h h' sent sent' Idle Idle' ep room room' _ _ := hs.mirrors
  obtain ⟨s₁, a₁, hsend, hM₁⟩ := hM.requests upLine downLine rs hrs
  obtain ⟨ms, s, hmoves, hms, hup, hdown⟩ :=
    Session.Mirrors.drains hI hI' hm hroom upLine downLine _ rfl hM₁
  have hask : ∀ rs : List Request,
      Move.asked (rs.map .ask : List (Move Request RPMaybeFrame)) = rs := by
    intro rs
    induction rs with
    | nil => rfl
    | cons r rs ih => exact congrArg (List.cons r) ih
  refine ⟨_, s, hsend.append hmoves, ?_, hup, hdown⟩
  rw [Move.asked_append, Move.asked_of_inner hms, List.append_nil, hask]

end Runs

/-! ## 7. Sequential sessions -/

/-- **Any interleaving is sequential.** In every run of a session, the requests sent are those that
    were served and those that wait; the server's memory is what serving them one after the other
    makes of it; the frames the client has received are the replies to the first of them, in order,
    each with the sequence number of its request; both instances hold no block, and the server's
    memory was called inside its blocks only. -/
theorem session_sequential (h h' : Host) (sent : τ → List Octet) (sent' : τ' → List Octet)
    (upLine : Line σ') (downLine : Line σ) (Idle : BlockAllocator α → Prop)
    (Idle' : BlockAllocator α' → Prop) (hI : Recycles Idle) (hI' : Recycles Idle')
    (ep : RPEndpointType) (room room' : Nat) (hroom : h.sizeofRPFrame + rpHeaderSize + 4 ≤ room)
    (s₀ s : Session σ τ μ α σ' τ' μ' α') (hm : s₀.server.memory.Understandable h')
    (hs : s₀.Starts sent sent' Idle Idle' ep room room') (ms : List (Move Request RPMaybeFrame))
    (hrun : Course (Session.Step h h' sent sent' upLine downLine) s₀ ms s) :
    ∃ served waiting taken ready,
      Move.asked ms = served ++ waiting ∧ (s.up = [] ↔ waiting = []) ∧
      s.server.mem = (after (s₀.service h h' room') s₀.serviceState served).2 ∧
      answers (s₀.service h h' room') s₀.serviceState served = taken ++ ready ∧
      (s.down = [] ↔ ready = []) ∧ List.Forall₂ IsAnswer (Move.collected ms) taken ∧
      s.client.AtRest sent Idle ep room ∧ s.server.AtRest sent' Idle' ep room' ∧
      ∀ c ∈ s.calls, c.Inside s.server := by
  obtain ⟨ks, a, hrel, hmoves, hM⟩ := hs.run hI hI' hm hroom hrun
  obtain ⟨served, hasked, hstate, hready⟩ := Pipeline.course_sequential hmoves
  obtain ⟨hup, hdown⟩ := hM.lines
  refine ⟨served, a.waiting, Move.collected ks, a.ready, ?_, hup, ?_, hready, hdown,
    Move.related_collected hrel, hM.client, hM.server, fun c hc => ?_⟩
  · rw [Move.related_asked hrel]
    exact hasked
  · rw [hM.mem, hstate]
  · unfold RPCall.Inside
    rw [hM.memory, hM.server.room]
    exact hM.calls c hc

/-- A slab of one block: there is none as long as that one is not freed. -/
def slabAllocator : BlockAllocator Bool where
  alloc := .slab fun there => if there then (.ok ⟨0, fun _ => 0⟩, false)
    else (.error .enomem, there)
  free := fun there m => there || m.address == 0
  driver := true
  blocksize := 256
  blocksize_le := pageAllocator.blocksize_le

theorem slabAllocator_recycles : Recycles fun ba => ba = slabAllocator where
  alloc := by
    rintro ba rfl
    refine ⟨⟨0, fun _ => 0⟩, { slabAllocator with driver := false }, rfl, fun m hm => ?_⟩
    unfold blockFree slabAllocator
    simp only [hm, Bool.false_or, beq_self_eq_true]

/-- An instance over lists whose blocks come from the slab. -/
def slabInstance : RegP (List Octet) (List Octet) (Mem (BitVec 16)) Bool where
  memory := .m16 (ramAccess 16)
  mem := fun i => BitVec.ofNat 16 i
  sequence := 0xfffe
  epType := .serial
  source := streamSource []
  sink := collectSink []
  alloc := slabAllocator

/-- Two such instances, with nothing on the lines between them. -/
def slabSession : Session (List Octet) (List Octet) (Mem (BitVec 16)) Bool
    (List Octet) (List Octet) (Mem (BitVec 16)) Bool where
  client := slabInstance
  server := slabInstance
  up := []
  down := []
  calls := []

theorem slabSession_starts : slabSession.Starts id id (fun ba => ba = slabAllocator)
    (fun ba => ba = slabAllocator) .serial 256 256 where
  client := ⟨rfl, collectSink_accepting [], rfl, rfl⟩
  server := ⟨rfl, collectSink_accepting [], rfl, rfl⟩
  up := rfl
  down := rfl
  calls := rfl

theorem ramAccess_understandable (h : Host) : (RPMemory.m16 (ramAccess 16)).Understandable h where
  read _ _ _ := ⟨nofun, fun _ => nofun⟩
  write _ _ _ _ := ⟨nofun, fun _ => nofun⟩
  fills mem address n _ := by
    show (wordOctets h (mem.slice address.toNat n)).length = n * 2
    rw [length_wordOctets, Mem.length_slice, Nat.mul_comm]

/-- A write, a read of what was written, and a read with the wrong word size. -/
def slabRequests : List Request :=
  [.write16 0x10 [0xcafe, 0xd00d], .read16 0x11 2, .read8 0x10 1]

theorem slabRequests_fit : ∀ r ∈ slabRequests, r.Fits lp64Host lp64Host 256 256
    slabSession.server.memory := by
  intro r hr
  simp only [slabRequests, List.mem_cons, List.not_mem_nil, or_false] at hr
  rcases hr with rfl | rfl | rfl
  · exact ⟨by decide, by decide, nofun⟩
  · exact ⟨by decide, by decide, fun _ => .inl (by decide)⟩
  · exact ⟨by decide, by decide, fun _ => .inl (by decide)⟩

/-- The requests are sent one behind the other, and then the parties go on until all is quiet. -/
theorem slabSession_run : ∃ ms s,
    Course (Session.Step lp64Host lp64Host id id streamLine streamLine) slabSession ms s ∧
      Move.asked ms = slabRequests ∧ s.up = [] ∧ s.down = [] :=
  slabSession_starts.quiets slabAllocator_recycles slabAllocator_recycles
    (ramAccess_understandable lp64Host) (by decide) streamLine streamLine slabRequests_fit

/-- Three requests, sent across the wrap of the sequence number, with one block on either side. -/
theorem session_sequential_slab : ∃ ms s served waiting taken ready,
    Course (Session.Step lp64Host lp64Host id id streamLine streamLine) slabSession ms s ∧
      Move.asked ms = slabRequests ∧ s.up = [] ∧ s.down = [] ∧
      Move.asked ms = served ++ waiting ∧ (s.up = [] ↔ waiting = []) ∧
      s.server.mem =
        (after (slabSession.service lp64Host lp64Host 256) slabSession.serviceState served).2 ∧
      answers (slabSession.service lp64Host lp64Host 256) slabSession.serviceState served =
        taken ++ ready ∧
      (s.down = [] ↔ ready = []) ∧ List.Forall₂ IsAnswer (Move.collected ms) taken ∧
      s.client.AtRest id (fun ba => ba = slabAllocator) .serial 256 ∧
      s.server.AtRest id (fun ba => ba = slabAllocator) .serial 256 ∧
      ∀ c ∈ s.calls, c.Inside s.server := by
  obtain ⟨ms, s, hmoves, hasked, hup, hdown⟩ := slabSession_run
  obtain ⟨served, waiting, taken, ready, hrun⟩ := session_sequential lp64Host lp64Host id id
    streamLine streamLine _ _ slabAllocator_recycles slabAllocator_recycles .serial 256 256
    (by decide) slabSession s (ramAccess_understandable lp64Host) slabSession_starts ms hmoves
  exact ⟨ms, s, served, waiting, taken, ready, hmoves, hasked, hup, hdown, hrun⟩

/-- **Every request is answered.** From any state a run of a session has reached: without new
    requests, no run is longer than two steps for each request sent; there is one that ends with
    nothing on its way; and with nothing on its way, the memory is that behind all the requests, and
    the client has received the replies to all of them, in order. -/
theorem session_settles (h h' : Host) (sent : τ → List Octet) (sent' : τ' → List Octet)
    (upLine : Line σ') (downLine : Line σ) (Idle : BlockAllocator α → Prop)
    (Idle' : BlockAllocator α' → Prop) (hI : Recycles Idle) (hI' : Recycles Idle')
    (ep : RPEndpointType) (room room' : Nat) (hroom : h.sizeofRPFrame + rpHeaderSize + 4 ≤ room)
    (s₀ s : Session σ τ μ α σ' τ' μ' α') (hm : s₀.server.memory.Understandable h')
    (hs : s₀.Starts sent sent' Idle Idle' ep room room') (ms : List (Move Request RPMaybeFrame))
    (hrun : Course (Session.Step h h' sent sent' upLine downLine) s₀ ms s) :
    (∀ ms' s', Course (Session.Step h h' sent sent' upLine downLine) s ms' s' →
      (∀ l ∈ ms', l.Inner) → ms'.length ≤ 2 * (Move.asked ms).length) ∧
    (∃ ms' s', Course (Session.Step h h' sent sent' upLine downLine) s ms' s' ∧
      (∀ l ∈ ms', l.Inner) ∧ s'.up = [] ∧ s'.down = []) ∧
    (s.up = [] → s.down = [] →
      s.server.mem = (after (s₀.service h h' room') s₀.serviceState (Move.asked ms)).2 ∧
      List.Forall₂ IsAnswer (Move.collected ms)
        (answers (s₀.service h h' room') s₀.serviceState (Move.asked ms))) := by
  obtain ⟨ks, a, hrel, hmoves, hM⟩ := hs.run hI hI' hm hroom hrun
  obtain ⟨served, hasked, hstate, hready⟩ := Pipeline.course_sequential hmoves
  rw [← Move.related_asked hrel] at hasked
  refine ⟨fun ms' s' hrun' hinner => ?_,
    hM.drains hI hI' hm hroom upLine downLine a.left rfl, fun hup hdown => ?_⟩
  · -- what is left to do is two steps for each request at most
    obtain ⟨ks', a', hrel', hmoves', -⟩ :=
      hrun'.simulates (Session.follows hI hI' hm hroom upLine downLine) hM
    have hlen := Pipeline.course_length hmoves' (Move.related_inner hrel' hinner)
    rw [← hrel'.length_eq] at hlen
    have hserved := congrArg List.length hready
    have hall := congrArg List.length hasked
    simp only [Pipeline.length_answers, List.length_append, List.length_nil] at hserved hall
    unfold Pipeline.left at hlen
    omega
  · have hwaiting := hM.lines.1.mp hup
    have hnone := hM.lines.2.mp hdown
    rw [hwaiting, List.append_nil] at hasked
    rw [hnone, List.append_nil] at hready
    obtain rfl : Move.asked ms = served := hasked
    have hanswers : answers (s₀.service h h' room') s₀.serviceState (Move.asked ms) =
        Move.collected ks := hready
    rw [hanswers]
    exact ⟨hM.mem.trans (congrArg Prod.snd hstate), Move.related_collected hrel⟩

/-- The same requests, from the end of their run on. -/
theorem session_settles_slab : ∃ ms s,
    Course (Session.Step lp64Host lp64Host id id streamLine streamLine) slabSession ms s ∧
      Move.asked ms = slabRequests ∧
      s.server.mem = (after (slabSession.service lp64Host lp64Host 256) slabSession.serviceState
        slabRequests).2 ∧
      List.Forall₂ IsAnswer (Move.collected ms)
        (answers (slabSession.service lp64Host lp64Host 256) slabSession.serviceState
          slabRequests) := by
  obtain ⟨ms, s, hmoves, hasked, hup, hdown⟩ := slabSession_run
  obtain ⟨-, -, hall⟩ := session_settles lp64Host lp64Host id id streamLine streamLine _ _
    slabAllocator_recycles slabAllocator_recycles .serial 256 256 (by decide) slabSession s
    (ramAccess_understandable lp64Host) slabSession_starts ms hmoves
  rw [hasked] at hall
  exact ⟨ms, s, hmoves, hasked, hall hup hdown⟩

end Ufw
