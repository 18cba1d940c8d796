/-
  File:      Ufw/RegisterProtocol/EndToEnd.lean
  Subject:   REGISTER PROTOCOL: two instances on one channel. A request of the client, what the
             server makes of it, and what the client makes of the answer.

  * `Exchange` -- the request goes out, is received, is processed, and the answer is received;
  * `regp_remoteAccess` -- **remote access reads and writes the words of the server's memory**;
  * `regp_remoteAccess_large` -- a block size of `2 ^ 32` words is a block size of 0.
-/
import Ufw.RegisterProtocol.Process

namespace Ufw

open Base

variable {σ τ μ α σ' τ' μ' α' : Type}

/-! ## 1. Exchanges -/

/-- The frame the client has received acknowledges its request. -/
structure Acknowledges (client : RegP σ τ μ α) (type : RPFrameType) (address : BitVec 32)
    (payload : List Octet) (mf : RPMaybeFrame) (frame : RPFrame) : Prop where
  frame_eq : mf.frame = some frame
  error : mf.errorId = none
  type : frame.header.type = type
  code : frame.header.metaRaw = RPResponse.ack.code.setWidth 32
  sequence : frame.header.sequence = client.sequence
  address : frame.header.address = address
  payload : frame.memory.slice frame.payloadData frame.payloadSize = payload

/-- The one call a request leads to. -/
structure Called (write : Bool) (address : BitVec 32) (n : Nat) (calls : List RPCall) : Prop where
  once : calls.length = 1
  write : ∀ c ∈ calls, c.write = write
  address : ∀ c ∈ calls, c.address = address
  size : ∀ c ∈ calls, c.size = n

/-- **An exchange.** The client sends its request; the server, that reads exactly these octets,
    receives it, serves it with one call of its memory, which is in the state `mem` then, and sends
    an answer; the client, that reads exactly those octets, receives the acknowledgement. -/
def Exchange (h h' : Host) (client : RegP σ τ μ α) (server : RegP σ' τ' μ' α')
    (sent : τ → List Octet) (sent' : τ' → List Octet)
    (request : Nat → Exec (Rc × RegP σ τ μ α)) (write : Bool) (address : BitVec 32) (n : Nat)
    (mem : μ') (payload : List Octet) : Prop :=
  ∃ octets client₁,
    Returns request (.ok 0, client₁) ∧ client.sink.Sends sent octets client₁.sink ∧
    ∀ source source' : Source σ', source.Delivers octets source' →
      ∃ mf server₁ octets' server₂ calls,
        Returns (fun fuel => regpRecv h' fuel { server with source }) (.ok 0, mf, server₁) ∧
        Returns (fun fuel => regpProcess h' fuel server₁ mf) (.ok 0, server₂, calls) ∧
        Called write address n calls ∧ server₂.mem = mem ∧
        server.sink.Sends sent' octets' server₂.sink ∧
        ∀ back back' : Source σ, back.Delivers octets' back' →
          ∃ mf' frame client₂,
            Returns (fun fuel => regpRecv h fuel { client₁ with source := back })
              (.ok 0, mf', client₂) ∧
            Acknowledges client (if write then .writeResponse else .readResponse) address payload
              mf' frame

/-! ## 2. The stages of an exchange -/

section Stages

variable {h h' : Host} {p : RegP σ τ μ α} {f : RPFrame} {m : RPMaybeFrame} {sent : τ → List Octet}

/-- `MSEM_8BIT` or `MSEM_16BIT`: the words of a memory. -/
def RPMemoryType.msem : RPMemoryType → Msem
  | .memtype8 => .bit8
  | .memtype16 => .bit16

@[simp] theorem wordSize_msem (type : RPMemoryType) : wordSize p type.msem = type.octets := by
  cases type <;> rfl

/-- A request goes out, and the session goes on. -/
theorem regpReq_sends (h : Host) (hk : p.sink.Accepting sent) (msem : Msem) (type : RPFrameType)
    (address : BitVec 32) (n : Nat) (plcrc : BitVec 16) (pl : Option (List Octet))
    (hsize : (pl.getD []).length + rpHeaderSize + varint64BitMaxOctets ≤ ssizeMax) :
    ∃ sink', Returns (fun fuel => regpReq h fuel p msem type address n plcrc pl)
        (.ok 0, { p with sequence := p.sequence + 1, sink := sink' }) ∧
      p.sink.Sends sent (lineEncode p.epType (headerOctets
        (encodeHeader h p msem type 0 p.sequence address n plcrc) ++ pl.getD [])) sink' :=
  sendMemory_encodeHeader h (p := { p with sequence := p.sequence + 1 }) (q := p) hk msem type 0
    p.sequence address n plcrc hsize

/-- A frame with an encoded header has the words of its memory, as far as the header goes. -/
theorem memtypeValid_encodeHeader (q : RegP σ' τ' μ' α') {type : RPFrameType} {n : Nat}
    (hoptions : f.header.options = motvOptions p q.memory.type.msem type n) :
    memtypeValid q f = true := by
  unfold memtypeValid
  rw [hoptions, wordSize_motvOptions]
  cases q.memory.type <;> rfl

/-- The call `regp_process` makes is the one the header asks for. -/
theorem Called.regpCall (h : Host) {write : Bool} {address : BitVec 32} {n : Nat}
    (haddr : f.header.address = address) (hbs : f.header.blocksize.toNat = n) :
    Called write address n [Ufw.regpCall h f write] where
  once := rfl
  write c hc := by rw [List.mem_singleton.mp hc]; rfl
  address c hc := by rw [List.mem_singleton.mp hc]; exact haddr
  size c hc := by rw [List.mem_singleton.mp hc]; exact hbs

/-- The answer to a request of the client acknowledges it. -/
theorem Response.ReceivedAs.acknowledges {client : RegP σ' τ' μ' α'} {write : Bool}
    {address : BitVec 32} {buf : Option (Mem Octet)} {n : Nat} {payload : List Octet}
    {mf : RPMaybeFrame} {frame : RPFrame} (hrec : (Response.ack buf n).ReceivedAs h p f mf frame)
    (htype : f.header.type = if write then .writeRequest else .readRequest)
    (hseq : f.header.sequence = client.sequence) (haddr : f.header.address = address)
    (hpayload : ((Response.ack buf n).payload h p).getD [] = payload) :
    Acknowledges client (if write then .writeResponse else .readResponse) address payload mf
      frame where
  frame_eq := hrec.frame_eq
  error := hrec.error
  type := hrec.type.trans (by rw [htype]; cases write <;> rfl)
  code := hrec.code
  sequence := hrec.sequence.trans hseq
  address := hrec.address.trans haddr
  payload := hrec.payload.trans hpayload

/-- **An acknowledged request is answered, and the client receives the answer.** -/
theorem regpProcess_acknowledged {q : RegP σ' τ' μ' α'} (hk : p.sink.Accepting sent)
    (hep : q.epType = p.epType) (hf : m.frame = some f) (he : m.errorId = none)
    (hreq : regpIsRequest f = true) (hvalid : memtypeValid p f = true) {address : BitVec 32}
    {buf : Option (Mem Octet)} {mem : μ} {calls : List RPCall} {n : Nat} {payload : List Octet}
    (haccess : (if regpIsReadRequest f then regpRead h p f else regpWrite h p f) =
      { ba := { status := .ack, address }, buf, mem, calls })
    (hn : (if buf.isNone then 0 else f.header.blocksize.toNat) = n)
    (hproper : buf.isSome = regpIsReadRequest f) (hfits : n < 2 ^ 32)
    (hpayload : ((Response.ack buf n).payload h { p with mem }).getD [] = payload)
    (hsize : payload.length + rpHeaderSize + varint64BitMaxOctets ≤ ssizeMax)
    {block : Block} {alloc : BlockAllocator α'} (hblock : blockAlloc q.alloc = (.ok block, alloc))
    (hfit : h'.sizeofRPFrame + rpHeaderSize + payload.length ≤ q.alloc.blocksize) :
    ∃ octets p', Returns (fun fuel => regpProcess h fuel p m) (.ok 0, p', calls) ∧
      p'.mem = mem ∧ p.sink.Sends sent octets p'.sink ∧
      ∀ back back' : Source σ', back.Delivers octets back' →
        ∃ mf' frame q', Returns (fun fuel => regpRecv h' fuel { q with source := back })
            (.ok 0, mf', q') ∧
          (Response.ack buf n).ReceivedAs h { p with mem } f mf' frame := by
  subst hn hpayload
  obtain ⟨sink', hret, hs⟩ := Response.send_sends h (p := { p with mem }) hk f _ hsize
  refine ⟨_, { p with mem, sink := sink' }, regpProcess_valid hf he hreq hvalid haccess hret, rfl,
    hs, fun back back' hb => ?_⟩
  have hb' : back.Delivers (lineEncode q.epType ((Response.ack buf
      (if buf.isNone then 0 else f.header.blocksize.toNat)).octets h { p with mem } f)) back' := by
    rw [hep]
    exact hb
  exact Response.received (q := { q with source := back }) hreq hproper (fun _ => hfits) hb'
    hblock hfit

end Stages

/-! ## 3. Reading and writing -/

section Access

variable {h h' : Host} {client : RegP σ τ μ α} {server : RegP σ' τ' μ' α'}
  {sent : τ → List Octet} {sent' : τ' → List Octet} {address : BitVec 32} {n : Nat}
  {block : Block} {alloc : BlockAllocator α} {block' : Block} {alloc' : BlockAllocator α'}
  (hk : client.sink.Accepting sent) (hk' : server.sink.Accepting sent')
  (hep : client.epType = server.epType) (hblock : blockAlloc client.alloc = (.ok block, alloc))
  (hblock' : blockAlloc server.alloc = (.ok block', alloc'))
  (hfit : h.sizeofRPFrame + rpHeaderSize + n * server.memory.type.octets ≤ client.alloc.blocksize)
  (hfit' : h'.sizeofRPFrame + rpHeaderSize + n * server.memory.type.octets ≤
    server.alloc.blocksize)
  (hn : n < 2 ^ 32)

include hk hk' hep hblock hblock' hfit hfit' hn

/-- **Reading**: the client is sent the octets the server's memory answers with. -/
theorem exchange_read {ba : BitVec 32} {l : List Octet} {mem : μ'}
    (hread : server.memory.readOctets h' server.mem address n =
      ({ status := .ack, address := ba }, l, mem))
    (hl : l.length = n * server.memory.type.octets) :
    Exchange h h' client server sent sent' (fun fuel => regpReq h fuel client
      server.memory.type.msem .readRequest address n 0 none) false address n mem l := by
  have hmax := client.alloc.blocksize_le
  have hframe := h.sizeofRPFrame_ge
  have hmax' := server.alloc.blocksize_le
  obtain ⟨hge, hle⟩ := length_headerOctets_bounds h' client server.memory.type.msem .readRequest 0
    client.sequence address n 0
  obtain ⟨sink₁, hreq, hs₁⟩ := regpReq_sends h hk server.memory.type.msem .readRequest address n 0
    none (by decide)
  refine ⟨_, _, hreq, hs₁, fun source source' hd => ?_⟩
  rw [hep, encodeHeader_host h client _ _ _ _ _ _ _ h'] at hd
  obtain ⟨block₁, hholds, hrecv⟩ := regpRecv_accepts h' (p := { server with source })
    (List.ne_nil_of_length_pos (by rw [List.length_append]; omega)) hd hblock'
    (by rw [List.length_append, Option.getD_none, List.length_nil]
        show _ ≤ server.alloc.blocksize
        omega)
    fun _ hh => parseFrame_bare hh rfl rfl rfl (.inl rfl) rfl
  generalize hf : headedFrame h' block₁ _ _ _ = f at hrecv
  have hbs : f.header.blocksize.toNat = n := by
    rw [← hf]
    exact (BitVec.toNat_ofNat n 32).trans (Nat.mod_eq_of_lt hn)
  have htype : f.header.type = .readRequest := by rw [← hf]; rfl
  have hseq : f.header.sequence = client.sequence := by rw [← hf]; rfl
  have haddr : f.header.address = address := by rw [← hf]; rfl
  have hisread : regpIsReadRequest f = true := beq_iff_eq.mpr htype
  have hisreq : regpIsRequest f = true := Bool.or_eq_true _ _ |>.mpr (.inl hisread)
  -- the server: the words fit the block, so the request is forwarded
  have hsize := blockAlloc_blocksize hblock'
  have hover : ¬ReadOverflow h' { server with source := source', alloc := alloc' } f := by
    unfold ReadOverflow
    rw [hbs]
    show ¬alloc'.blocksize - _ < n * server.memory.type.octets
    omega
  have haccess := regpRead_forward (h := h') (f := f)
    (p := { server with source := source', alloc := alloc' })
    (show _ ≤ alloc'.blocksize by omega) hover
  rw [show RPMemory.readOctets h' server.memory server.mem f.header.address
    f.header.blocksize.toNat = _ by rw [hbs, haddr, hread]] at haccess
  have hpayload : ((Response.ack (some ((f.memory.shift f.payloadData).store 0 l)) n).payload h'
      { server with source := source', alloc := alloc', mem }).getD [] = l := by
    show Mem.slice _ 0 (n * wordSize _ .auto) = l
    rw [wordSize_auto]
    show Mem.slice _ 0 (n * server.memory.type.octets) = l
    rw [← hl, Mem.slice_store]
  obtain ⟨octets', server₂, hproc, hmem, hs₂, hback⟩ := regpProcess_acknowledged (h := h')
    (f := f) (m := { errorId := none, framesize := 0, frame := some f })
    (p := { server with source := source', alloc := alloc' })
    (q := { client with sequence := client.sequence + 1, sink := sink₁ }) hk' hep rfl rfl hisreq
    (memtypeValid_encodeHeader _ (by rw [← hf]; rfl)) ((if_pos hisread).trans haccess) hbs
    hisread.symm hn hpayload (by rw [hl, varint64BitMaxOctets]; omega) hblock
    (by rw [hl]; exact hfit)
  refine ⟨_, _, octets', server₂, _, hrecv, hproc, Called.regpCall h' haddr hbs, hmem, hs₂,
    fun back back' hb => ?_⟩
  obtain ⟨mf', frame, client₂, hret, hrec⟩ := hback back back' hb
  exact ⟨mf', frame, client₂, hret, hrec.acknowledges htype hseq haddr hpayload⟩

/-- **Writing**: the server's memory is written the octets the client has sent. -/
theorem exchange_write {ba : BitVec 32} {l : List Octet} {mem : μ'}
    (hwrite : server.memory.writeOctets h' server.mem address n l =
      ({ status := .ack, address := ba }, mem))
    (hl : l.length = n * server.memory.type.octets) :
    Exchange h h' client server sent sent' (fun fuel => regpReq h fuel client
      server.memory.type.msem .writeRequest address n (ufwBufferCrc16Arc l) (some l)) true address n
      mem [] := by
  have hmax := client.alloc.blocksize_le
  have hframe := h.sizeofRPFrame_ge
  obtain ⟨hge, hle⟩ := length_headerOctets_bounds h' client server.memory.type.msem .writeRequest 0
    client.sequence address n (ufwBufferCrc16Arc l)
  obtain ⟨sink₁, hreq, hs₁⟩ := regpReq_sends h hk server.memory.type.msem .writeRequest address n
    (ufwBufferCrc16Arc l) (some l) (by
      rw [Option.getD_some, hl, varint64BitMaxOctets]
      omega)
  refine ⟨_, _, hreq, hs₁, fun source source' hd => ?_⟩
  rw [hep, encodeHeader_host h client _ _ _ _ _ _ _ h', Option.getD_some] at hd
  obtain ⟨block₁, hholds, hrecv⟩ := regpRecv_accepts h' (p := { server with source })
    (List.ne_nil_of_length_pos (by rw [List.length_append]; omega)) hd hblock'
    (by rw [List.length_append, hl]
        show _ ≤ server.alloc.blocksize
        omega)
    fun _ hh => parseFrame_block hh rfl rfl rfl (.inr rfl)
      (by rw [hl, wordSize_msem]) hn fun _ => rfl
  obtain ⟨-, -, -, hslice⟩ := headedFrame_encodeHeader hholds default
  generalize hf : headedFrame h' block₁ _ _ _ = f at hrecv
  have hbs : f.header.blocksize.toNat = n := by
    rw [← hf]
    exact (BitVec.toNat_ofNat n 32).trans (Nat.mod_eq_of_lt hn)
  have htype : f.header.type = .writeRequest := by rw [← hf]; rfl
  have hseq : f.header.sequence = client.sequence := by rw [← hf]; rfl
  have haddr : f.header.address = address := by rw [← hf]; rfl
  have hisread : regpIsReadRequest f = false := by
    unfold regpIsReadRequest
    rw [htype]
    rfl
  have hisreq : regpIsRequest f = true :=
    Bool.or_eq_true _ _ |>.mpr (.inr (beq_iff_eq.mpr htype))
  -- the server: behind the header stand the words the client has sent
  have hdata : (f.memory.shift f.payloadData).slice 0 (n * server.memory.type.octets) = l := by
    rw [Mem.slice_shift, ← hl, ← hf]
    exact hslice
  have haccess := regpWrite_forward (h := h') (f := f)
    (p := { server with source := source', alloc := alloc' })
  rw [show RPMemory.writeOctets h' server.memory server.mem f.header.address
    f.header.blocksize.toNat _ = _ by rw [hbs, haddr, hdata, hwrite]] at haccess
  obtain ⟨octets', server₂, hproc, hmem, hs₂, hback⟩ := regpProcess_acknowledged (h := h')
    (f := f) (m := { errorId := none, framesize := 0, frame := some f })
    (p := { server with source := source', alloc := alloc' }) (n := 0)
    (q := { client with sequence := client.sequence + 1, sink := sink₁ }) hk' hep rfl rfl hisreq
    (memtypeValid_encodeHeader _ (by rw [← hf]; rfl))
    ((if_neg (by rw [hisread]; exact Bool.false_ne_true)).trans haccess) rfl hisread.symm
    (by decide) (show _ = [] from rfl) (by decide) hblock
    (show h.sizeofRPFrame + rpHeaderSize + 0 ≤ client.alloc.blocksize by omega)
  refine ⟨_, _, octets', server₂, _, hrecv, hproc, Called.regpCall h' haddr hbs, hmem, hs₂,
    fun back back' hb => ?_⟩
  obtain ⟨mf', frame, client₂, hret, hrec⟩ := hback back back' hb
  exact ⟨mf', frame, client₂, hret, hrec.acknowledges htype hseq haddr rfl⟩

end Access

/-! ## 4. Remote access -/

/-- Hosts of one byte order lay words out alike. -/
theorem wordOctets_host {h h' : Host} (hhost : h.bigEndian = h'.bigEndian)
    (ws : List (BitVec 16)) : wordOctets h ws = wordOctets h' ws := by
  have hset : bfSetN h 2 (w := 16) = bfSetN h' 2 := by
    funext w
    unfold bfSetN
    rw [hhost]
  unfold wordOctets
  rw [hset]

/-- **Remote memory access.** For a memory of octets or of words that acknowledges the range, a
    read request of `n` words, served and answered, makes the client receive the words the memory
    has answered with; a write request makes the server's write function run once, with the words
    the client has sent. -/
theorem regp_remoteAccess (h h' : Host) (hhost : h.bigEndian = h'.bigEndian)
    (client : RegP σ τ μ α) (server : RegP σ' τ' μ' α') (sent : τ → List Octet)
    (sent' : τ' → List Octet) (hk : client.sink.Accepting sent) (hk' : server.sink.Accepting sent')
    (hep : client.epType = server.epType) (block : Block) (alloc : BlockAllocator α)
    (hblock : blockAlloc client.alloc = (.ok block, alloc)) (block' : Block)
    (alloc' : BlockAllocator α') (hblock' : blockAlloc server.alloc = (.ok block', alloc'))
    (address : BitVec 32) (n : Nat)
    (hfit : h.sizeofRPFrame + rpHeaderSize + n * server.memory.type.octets ≤
      client.alloc.blocksize)
    (hfit' : h'.sizeofRPFrame + rpHeaderSize + n * server.memory.type.octets ≤
      server.alloc.blocksize)
    (hn : n < 2 ^ 32) :
    match server.memory with
    | .m8 access =>
      (∀ ba ws mem, ws.length = n →
        access.read server.mem address n = ({ status := .ack, address := ba }, ws, mem) →
        Exchange h h' client server sent sent'
          (fun fuel => regpReqRead8 h fuel client address n) false address n mem ws) ∧
      (∀ ba ws mem, ws.length = n →
        access.write server.mem address n ws = ({ status := .ack, address := ba }, mem) →
        Exchange h h' client server sent sent'
          (fun fuel => regpReqWrite8 h fuel client address ws) true address n mem [])
    | .m16 access =>
      (∀ ba ws mem, ws.length = n →
        access.read server.mem address n = ({ status := .ack, address := ba }, ws, mem) →
        Exchange h h' client server sent sent'
          (fun fuel => regpReqRead16 h fuel client address n) false address n mem
          (wordOctets h ws)) ∧
      (∀ ba ws mem, ws.length = n →
        access.write server.mem address n ws = ({ status := .ack, address := ba }, mem) →
        Exchange h h' client server sent sent'
          (fun fuel => regpReqWrite16 h fuel client address ws) true address n mem []) := by
  have hread : ∀ ba l mem, server.memory.readOctets h' server.mem address n =
      ({ status := .ack, address := ba }, l, mem) → l.length = n * server.memory.type.octets →
      Exchange h h' client server sent sent' (fun fuel => regpReq h fuel client
        server.memory.type.msem .readRequest address n 0 none) false address n mem l :=
    fun _ _ _ => exchange_read hk hk' hep hblock hblock' hfit hfit' hn
  have hwrite : ∀ ba l mem, server.memory.writeOctets h' server.mem address n l =
      ({ status := .ack, address := ba }, mem) → l.length = n * server.memory.type.octets →
      Exchange h h' client server sent sent' (fun fuel => regpReq h fuel client
        server.memory.type.msem .writeRequest address n (ufwBufferCrc16Arc l) (some l)) true address
        n mem [] :=
    fun _ _ _ => exchange_write hk hk' hep hblock hblock' hfit hfit' hn
  cases hm : server.memory with
  | m8 access =>
    rw [hm] at hread hwrite
    refine ⟨fun ba ws mem hl ha => ?_, fun ba ws mem hl ha => ?_⟩
    · exact hread ba ws mem ha (hl.trans (Nat.mul_one n).symm)
    · have hx := hwrite ba ws mem ha (hl.trans (Nat.mul_one n).symm)
      subst hl
      exact hx
  | m16 access =>
    rw [hm] at hread hwrite
    have hlen : ∀ ws : List (BitVec 16), ws.length = n → (wordOctets h ws).length = n * 2 :=
      fun ws hl => by rw [length_wordOctets, hl, Nat.mul_comm]
    refine ⟨fun ba ws mem hl ha => ?_, fun ba ws mem hl ha => ?_⟩
    · refine hread ba (wordOctets h ws) mem ?_ (hlen ws hl)
      simp only [RPMemory.readOctets, ha, wordOctets_host hhost]
    · have ha' : (RPMemory.m16 access).writeOctets h' server.mem address n (wordOctets h ws) =
          ({ status := .ack, address := ba }, mem) := by
        unfold RPMemory.writeOctets
        rw [wordOctets_host hhost, octetWords_wordOctets]
        exact ha
      have hx := hwrite ba (wordOctets h ws) mem ha' (hlen ws hl)
      have hcrc : ufwBufferCrc16Arc (wordOctets h ws) = ufwBufferCrc16ArcU16 h ws :=
        (ufwCrc16ArcU16_eq h crc16ArcInitial ws).symm
      rw [hcrc] at hx
      subst hl
      exact hx

/-- A client and a server over plain memory, on a serial line. -/
theorem regp_remoteAccess_ram :
    Exchange lp64Host lp64Host (ramInstance .serial []) (ramInstance .serial []) id id
      (fun fuel => regpReqRead16 lp64Host fuel (ramInstance .serial []) 0x10 3) false 0x10 3
      (fun i => BitVec.ofNat 16 i) (wordOctets lp64Host [0x10, 0x11, 0x12]) :=
  (regp_remoteAccess lp64Host lp64Host rfl (ramInstance .serial []) (ramInstance .serial []) id id
    (collectSink_accepting []) (collectSink_accepting []) rfl ⟨0, fun _ => 0⟩ pageAllocator rfl
    ⟨0, fun _ => 0⟩ pageAllocator rfl 0x10 3 (by decide) (by decide) (by decide)).1 0x10
    [0x10, 0x11, 0x12] _ rfl rfl

/-- An instance with blocks of `2 ^ 40` octets, that serves plain memory of octets. -/
def largeInstance : RegP (List Octet) (List Octet) (Mem Octet) Unit where
  memory := .m8 (ramAccess 8)
  mem := fun _ => 0
  sequence := 0
  epType := .tcp
  source := streamSource []
  sink := collectSink []
  alloc := { pageAllocator with blocksize := 2 ^ 40, blocksize_le := by decide }

/-- `2 ^ 32` words fit the blocks, but not the block size field: the server is not given them. -/
theorem regp_remoteAccess_large :
    lp64Host.sizeofRPFrame + rpHeaderSize + 2 ^ 32 * largeInstance.memory.type.octets ≤
      largeInstance.alloc.blocksize ∧
    (∀ mem address n ws, ((ramAccess 8).write mem address n ws).1.status = .ack) ∧
    ∀ mem, ¬Exchange lp64Host lp64Host largeInstance largeInstance id id
      (fun fuel => regpReqWrite8 lp64Host fuel largeInstance 0 (List.replicate (2 ^ 32) 0)) true 0
      (2 ^ 32) mem [] := by
  refine ⟨by decide, fun _ _ _ _ => rfl, ?_⟩
  rintro mem ⟨octets, client₁, -, -, hserve⟩
  obtain ⟨mf, server₁, octets', server₂, calls, -, ⟨fuel, hproc⟩, hcalled, -⟩ :=
    hserve _ _ (streamSource_delivers_all octets)
  have honce := hcalled.once
  rcases regpProcess_calls (hproc fuel (le_refl fuel)) with hnil | ⟨f, -, -, -, -, hcall⟩
  · rw [hnil] at honce
    cases honce
  · have hsize := hcalled.size (regpCall lp64Host f (!regpIsReadRequest f))
      (by rw [hcall]; exact List.mem_singleton.mpr rfl)
    have hlt : f.header.blocksize.toNat < 2 ^ 32 := f.header.blocksize.isLt
    exact absurd hsize (Nat.ne_of_lt hlt)

end Ufw
