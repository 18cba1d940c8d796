/-
  File:      Ufw/RegisterProtocol/Process.lean
  Subject:   REGISTER PROTOCOL: serving requests (register-protocol.c).

  * `regpProcess` -- the function of the source, with a record of the access functions it calls;
  * `regpProcess_read`, `regpProcess_write` -- what becomes of a valid request;
  * `regpProcess_read_inside_iff` -- **when the memory a read request is answered from lies inside
    the block**: the limit of the source leaves the header out.
-/
import Ufw.RegisterProtocol.Responses

namespace Ufw

open Base

variable {σ τ μ α : Type}

/-! ## 1. Access to the memory -/

/-- A call of an access function: `size` words, at the octet `buf` of the frame's block. -/
structure RPCall where
  write : Bool
  address : BitVec 32
  size : Nat
  buf : Nat
  deriving DecidableEq, Repr

/-- The call `regp_process` makes for a request: the block of its header, behind the header. -/
def regpCall (h : Host) (f : RPFrame) (write : Bool) : RPCall where
  write := write
  address := f.header.address
  size := f.header.blocksize.toNat
  buf := h.sizeofRPFrame + f.payloadData

/-- `memtype_valid` -/
def memtypeValid (p : RegP σ τ μ α) (f : RPFrame) : Bool :=
  let opt16 := bitIsset f.header.options rpOptWordSize16
  (p.memory.type == .memtype16 && opt16) || (p.memory.type == .memtype8 && !opt16)

/-- `trxbufsize` -/
def trxbufsize (h : Host) (p : RegP σ τ μ α) : Nat := sizeSub p.alloc.blocksize h.sizeofRPFrame

/-- What `regp_process` has after the access: its status, the buffer of the answer, the state of
    the memory, and the call. -/
structure RPAccessed (μ : Type) where
  ba : RPBlockAccess
  buf : Option (Mem Octet)
  mem : μ
  calls : List RPCall

/-- A read request in `regp_process`. -/
def regpRead (h : Host) (p : RegP σ τ μ α) (f : RPFrame) : RPAccessed μ :=
  let addr := f.header.address
  let blocksize := f.header.blocksize.toNat
  let buf := f.memory.shift f.payloadData
  let calls := [regpCall h f false]
  -- the status only is set, the address is never read
  let overflow : RPAccessed μ :=
    { ba := { status := .etxoverflow, address := 0 }, buf := some buf, mem := p.mem, calls := [] }
  match p.memory with
  | .m16 access =>
    let maxsize := sizeSub p.alloc.blocksize h.sizeofRPFrame / 2
    if maxsize < blocksize then overflow
    else
      let (ba, ws, mem) := access.read p.mem addr blocksize
      { ba, buf := some (buf.store 0 (wordOctets h ws)), mem, calls }
  | .m8 access =>
    let maxsize := sizeSub p.alloc.blocksize h.sizeofRPFrame
    if maxsize < blocksize then overflow
    else
      let (ba, ws, mem) := access.read p.mem addr blocksize
      { ba, buf := some (buf.store 0 ws), mem, calls }

/-- A write request in `regp_process`. -/
def regpWrite (h : Host) (p : RegP σ τ μ α) (f : RPFrame) : RPAccessed μ :=
  let addr := f.header.address
  let blocksize := f.header.blocksize.toNat
  let buf := f.memory.shift f.payloadData
  let calls := [regpCall h f true]
  match p.memory with
  | .m16 access =>
    let (ba, mem) := access.write p.mem addr blocksize (octetWords h (buf.slice 0 (2 * blocksize)))
    { ba, buf := none, mem, calls }
  | .m8 access =>
    let (ba, mem) := access.write p.mem addr blocksize (buf.slice 0 blocksize)
    { ba, buf := none, mem, calls }

/-! ## 2. Answering requests -/

/-- The `switch` at the end of `regp_process`. -/
def regpRespond (h : Host) (fuel : Nat) (p : RegP σ τ μ α) (f : RPFrame) (ba : RPBlockAccess)
    (buf : Option (Mem Octet)) : Exec (Rc × RegP σ τ μ α) :=
  let trx := BitVec.ofNat 32 (trxbufsize h p)
  match ba.status with
  | .ack => regpRespAck h fuel p f buf (if buf.isNone then 0 else f.header.blocksize.toNat)
  | .ewordsize => regpRespEwordsize h fuel p f
  | .epayloadcrc => regpRespEpayloadcrc h fuel p f
  | .epayloadsize => regpRespEpayloadsize h fuel p f
  | .erxoverflow => regpRespErxoverflow h fuel p f trx
  | .etxoverflow => regpRespEtxoverflow h fuel p f trx
  | .ebusy => regpRespEbusy h fuel p f
  | .eunmapped => regpRespEunmapped h fuel p f ba.address
  | .eaccess => regpRespEaccess h fuel p f ba.address
  | .erange => regpRespErange h fuel p f ba.address
  | .einvalid => regpRespEinvalid h fuel p f ba.address
  | .eio => regpRespEio h fuel p f
  | .undefined _ => .ok (.error .einval, p)

/-- `regp_process`, with the calls of access functions it makes. -/
def regpProcess (h : Host) (fuel : Nat) (p : RegP σ τ μ α) (mf : RPMaybeFrame) :
    Exec (Rc × RegP σ τ μ α × List RPCall) :=
  match mf.frame with
  | none => .ok (.ok 0, p, [])
  | some f =>
    let reply (code : RPResponse) : Exec (Rc × RegP σ τ μ α × List RPCall) := do
      let (rc, p) ← sendResp0 h fuel p f code .bit8
      .ok (rc, p, [])
    match mf.errorId with
    | some .eproto => if regpIsRequest f then reply .epayloadcrc else .ok (.ok 0, p, [])
    | some .efault => if regpIsRequest f then reply .epayloadsize else .ok (.ok 0, p, [])
    | some _ => .ok (.ok 0, p, [])
    | none =>
      if regpIsRequest f = false then .ok (.ok 0, p, [])
      else if memtypeValid p f = false then reply .ewordsize
      else do
        let access := if regpIsReadRequest f then regpRead h p f else regpWrite h p f
        let (rc, p) ← regpRespond h fuel { p with mem := access.mem } f access.ba access.buf
        .ok (rc, p, access.calls)

/-! ## 3. Valid requests -/

section Valid

variable {h : Host} {p : RegP σ τ μ α} {f : RPFrame} {m : RPMaybeFrame} {sent : τ → List Octet}

/-- **The answer to a status of the protocol is a message with that code.** -/
theorem regpRespond_sends (hk : p.sink.Accepting sent) (ba : RPBlockAccess)
    (buf : Option (Mem Octet)) (hdef : ∀ n, ba.status ≠ .undefined n) :
    ∃ r : Response, r.code = ba.status ∧ ∃ sink',
      Returns (fun fuel => regpRespond h fuel p f ba buf) (.ok 0, { p with sink := sink' }) ∧
      p.sink.Sends sent (lineEncode p.epType (r.octets h p f)) sink' := by
  have harg : ∀ r : Response, ∀ v, r.arg = some v →
      ((r.payload h p).getD []).length + rpHeaderSize + varint64BitMaxOctets ≤ ssizeMax := by
    intro r v hv
    rw [(Response.length_payload_arg hv).1, Option.getD_some, length_bfSetU32b]
    decide
  have hnone : 0 + rpHeaderSize + varint64BitMaxOctets ≤ ssizeMax := by decide
  have hsend : ∀ r : Response, r.code = ba.status →
      (∀ fuel, regpRespond h fuel p f ba buf = r.send h fuel p f) →
      ((r.payload h p).getD []).length + rpHeaderSize + varint64BitMaxOctets ≤ ssizeMax →
      ∃ r : Response, r.code = ba.status ∧ ∃ sink',
        Returns (fun fuel => regpRespond h fuel p f ba buf) (.ok 0, { p with sink := sink' }) ∧
        p.sink.Sends sent (lineEncode p.epType (r.octets h p f)) sink' := by
    intro r hcode heq hsize
    obtain ⟨sink', hret, hs⟩ := r.send_sends h hk f hsize
    exact ⟨r, hcode, sink', Returns.congr heq hret, hs⟩
  obtain ⟨status, address⟩ := ba
  cases status with
  | ack =>
    refine hsend (.ack buf _) rfl (fun _ => rfl) ?_
    cases buf with
    | none => exact hnone
    | some buf =>
      -- a block has fewer than 2^32 words of two octets at most
      have hn := f.header.blocksize.isLt
      show (buf.slice 0 (f.header.blocksize.toNat * wordSize p .auto)).length + _ + _ ≤ _
      rw [Mem.length_slice, rpHeaderSize, rpHeaderSize16, varint64BitMaxOctets, ssizeMax]
      unfold wordSize
      split <;> omega
  | ewordsize => exact hsend .ewordsize rfl (fun _ => rfl) hnone
  | epayloadcrc => exact hsend .epayloadcrc rfl (fun _ => rfl) hnone
  | epayloadsize => exact hsend .epayloadsize rfl (fun _ => rfl) hnone
  | erxoverflow => exact hsend (.erxoverflow _) rfl (fun _ => rfl) (harg _ _ rfl)
  | etxoverflow => exact hsend (.etxoverflow _) rfl (fun _ => rfl) (harg _ _ rfl)
  | ebusy => exact hsend .ebusy rfl (fun _ => rfl) hnone
  | eunmapped => exact hsend (.eunmapped _) rfl (fun _ => rfl) (harg _ _ rfl)
  | eaccess => exact hsend (.eaccess _) rfl (fun _ => rfl) (harg _ _ rfl)
  | erange => exact hsend (.erange _) rfl (fun _ => rfl) (harg _ _ rfl)
  | einvalid => exact hsend (.einvalid _) rfl (fun _ => rfl) (harg _ _ rfl)
  | eio => exact hsend .eio rfl (fun _ => rfl) hnone
  | undefined n => exact absurd rfl (hdef n)

/-- The answer to a status is sent, whatever the status is. -/
theorem regpRespond_returns (hk : p.sink.Accepting sent) (ba : RPBlockAccess)
    (buf : Option (Mem Octet)) :
    ∃ rc p', Returns (fun fuel => regpRespond h fuel p f ba buf) (rc, p') := by
  by_cases hdef : ∀ n, ba.status ≠ .undefined n
  · obtain ⟨r, -, sink', hret, -⟩ := regpRespond_sends (h := h) (f := f) hk ba buf hdef
    exact ⟨_, _, hret⟩
  · obtain ⟨n, hn⟩ := not_forall_not.mp hdef
    refine ⟨.error .einval, p, Returns.of_eq fun fuel => ?_⟩
    unfold regpRespond
    rw [hn]

/-- **A valid request is forwarded to the memory**, and the answer is sent. -/
theorem regpProcess_valid (hf : m.frame = some f) (he : m.errorId = none)
    (hreq : regpIsRequest f = true) (hvalid : memtypeValid p f = true) {rc : Rc}
    {p' : RegP σ τ μ α} {access : RPAccessed μ}
    (haccess : (if regpIsReadRequest f then regpRead h p f else regpWrite h p f) = access)
    (hret : Returns (fun fuel =>
      regpRespond h fuel { p with mem := access.mem } f access.ba access.buf) (rc, p')) :
    Returns (fun fuel => regpProcess h fuel p m) (rc, p', access.calls) := by
  refine Returns.seq (fun fuel hx => ?_) hret (Returns.of_eq fun _ => rfl)
  simp only [regpProcess, hf, he, hreq, hvalid, Bool.true_eq_false, if_false, haccess, hx, ok_bind]

/-- A read request is forwarded, or over the limit. -/
theorem regpRead_calls :
    (regpRead h p f).calls = [] ∨ (regpRead h p f).calls = [regpCall h f false] := by
  unfold regpRead
  cases p.memory with
  | m8 access =>
    dsimp only
    split
    · exact .inl rfl
    · exact .inr rfl
  | m16 access =>
    dsimp only
    split
    · exact .inl rfl
    · exact .inr rfl

theorem regpWrite_calls : (regpWrite h p f).calls = [regpCall h f true] := by
  unfold regpWrite
  cases p.memory <;> rfl

/-- **An access function is called at most once**, and only for a valid request whose words are
    those of the memory. -/
theorem regpProcess_calls {fuel : Nat} {rc : Rc} {p' : RegP σ τ μ α} {calls : List RPCall}
    (hr : regpProcess h fuel p m = .ok (rc, p', calls)) :
    calls = [] ∨ ∃ f, m.frame = some f ∧ m.errorId = none ∧ regpIsRequest f = true ∧
      memtypeValid p f = true ∧ calls = [regpCall h f (!regpIsReadRequest f)] := by
  unfold regpProcess at hr
  split at hr
  · cases hr
    exact .inl rfl
  · rename_i f hf
    dsimp only at hr
    split at hr
    · split at hr
      · obtain ⟨a, -, ha⟩ := bind_eq_ok hr
        cases ha
        exact .inl rfl
      · cases hr
        exact .inl rfl
    · split at hr
      · obtain ⟨a, -, ha⟩ := bind_eq_ok hr
        cases ha
        exact .inl rfl
      · cases hr
        exact .inl rfl
    · cases hr
      exact .inl rfl
    · rename_i he
      split at hr
      · cases hr
        exact .inl rfl
      · rename_i hreq
        split at hr
        · obtain ⟨a, -, ha⟩ := bind_eq_ok hr
          cases ha
          exact .inl rfl
        · rename_i hvalid
          obtain ⟨a, -, ha⟩ := bind_eq_ok hr
          cases ha
          by_cases hread : regpIsReadRequest f = true
          · rw [if_pos hread]
            rcases regpRead_calls (h := h) (p := p) (f := f) with hc | hc
            · exact .inl hc
            · exact .inr ⟨f, hf, he, Bool.eq_true_of_not_eq_false hreq,
                Bool.eq_true_of_not_eq_false hvalid, by rw [hc, hread]; rfl⟩
          · rw [if_neg hread]
            refine .inr ⟨f, hf, he, Bool.eq_true_of_not_eq_false hreq,
              Bool.eq_true_of_not_eq_false hvalid, ?_⟩
            rw [regpWrite_calls, Bool.eq_false_of_not_eq_true hread]
            rfl

/-! ## 4. Read requests -/

/-- The end of the memory a read request is answered from, in the block. -/
def readEnd (h : Host) (p : RegP σ τ μ α) (f : RPFrame) : Nat :=
  h.sizeofRPFrame + f.payloadData + f.header.blocksize.toNat * p.memory.type.octets

/-- Whether the limit of the source stops a read request. -/
def ReadOverflow (h : Host) (p : RegP σ τ μ α) (f : RPFrame) : Prop :=
  p.alloc.blocksize - h.sizeofRPFrame < f.header.blocksize.toNat * p.memory.type.octets

theorem trxbufsize_eq (hroom : h.sizeofRPFrame ≤ p.alloc.blocksize) :
    sizeSub p.alloc.blocksize h.sizeofRPFrame = p.alloc.blocksize - h.sizeofRPFrame :=
  sizeSub_eq hroom (lt_of_le_of_lt p.alloc.blocksize_le (by decide))

/-- A request over the limit is not forwarded. -/
theorem regpRead_overflow (hroom : h.sizeofRPFrame ≤ p.alloc.blocksize)
    (hover : ReadOverflow h p f) :
    ∃ buf, regpRead h p f =
      { ba := { status := .etxoverflow, address := 0 }, buf := some buf, mem := p.mem
        calls := [] } := by
  unfold ReadOverflow at hover
  unfold regpRead
  rw [trxbufsize_eq hroom]
  cases hm : p.memory with
  | m8 access =>
    rw [hm, RPMemory.type, RPMemoryType.octets, Nat.mul_one] at hover
    exact ⟨_, if_pos hover⟩
  | m16 access =>
    rw [hm, RPMemory.type, RPMemoryType.octets] at hover
    exact ⟨_, if_pos (by omega)⟩

/-- A read of the memory, by the octets of the words it answers with. -/
def RPMemory.readOctets (h : Host) (m : RPMemory μ) (mem : μ) (address : BitVec 32) (n : Nat) :
    RPBlockAccess × List Octet × μ :=
  match m with
  | .m8 access => access.read mem address n
  | .m16 access =>
    let (ba, ws, mem) := access.read mem address n
    (ba, wordOctets h ws, mem)

/-- A request under the limit is forwarded, with the buffer behind the header. -/
theorem regpRead_forward (hroom : h.sizeofRPFrame ≤ p.alloc.blocksize)
    (hover : ¬ReadOverflow h p f) :
    regpRead h p f =
      (let (ba, l, mem) :=
        p.memory.readOctets h p.mem f.header.address f.header.blocksize.toNat
      { ba, buf := some ((f.memory.shift f.payloadData).store 0 l), mem
        calls := [regpCall h f false] }) := by
  unfold ReadOverflow at hover
  unfold regpRead RPMemory.readOctets
  rw [trxbufsize_eq hroom]
  cases hm : p.memory with
  | m8 access =>
    rw [hm, RPMemory.type, RPMemoryType.octets, Nat.mul_one] at hover
    exact if_neg hover
  | m16 access =>
    rw [hm, RPMemory.type, RPMemoryType.octets] at hover
    exact if_neg (by omega)

/-- A write to the memory, given the octets of its words. -/
def RPMemory.writeOctets (h : Host) (m : RPMemory μ) (mem : μ) (address : BitVec 32) (n : Nat)
    (l : List Octet) : RPBlockAccess × μ :=
  match m with
  | .m8 access => access.write mem address n l
  | .m16 access => access.write mem address n (octetWords h l)

/-- A write request is forwarded, with the words behind the header. -/
theorem regpWrite_forward :
    regpWrite h p f =
      (let (ba, mem) := p.memory.writeOctets h p.mem f.header.address f.header.blocksize.toNat
        ((f.memory.shift f.payloadData).slice 0
          (f.header.blocksize.toNat * p.memory.type.octets))
      { ba, buf := none, mem, calls := [regpCall h f true] }) := by
  unfold regpWrite RPMemory.writeOctets
  cases hm : p.memory with
  | m8 access =>
    simp only [RPMemory.type, RPMemoryType.octets, Nat.mul_one]
  | m16 access =>
    simp only [RPMemory.type, RPMemoryType.octets, Nat.mul_comm 2]

/-- A read request is served as it should be: the memory the access function is given lies inside
    the block, and where it would not, the answer is ETXOVERFLOW and no function is called. -/
structure ReadServed (h : Host) (p : RegP σ τ μ α) (f : RPFrame) (rc : Rc) (p' : RegP σ τ μ α)
    (calls : List RPCall) : Prop where
  inside : ∀ c ∈ calls, c.buf + c.size * p.memory.type.octets ≤ p.alloc.blocksize
  overflow : p.alloc.blocksize < readEnd h p f → calls = [] ∧
    Returns (fun fuel => regpRespEtxoverflow h fuel p f (BitVec.ofNat 32 (trxbufsize h p))) (rc, p')

theorem wordSize_auto : wordSize p .auto = p.memory.type.octets := by
  unfold wordSize
  cases p.memory.type <;> rfl

/-- What `regp_process` does with a valid read request. -/
theorem regpProcess_read (hk : p.sink.Accepting sent) (hroom : h.sizeofRPFrame ≤ p.alloc.blocksize)
    (hread : regpIsReadRequest f = true) (hvalid : memtypeValid p f = true)
    (hf : m.frame = some f) (he : m.errorId = none) :
    ∃ rc p' calls, Returns (fun fuel => regpProcess h fuel p m) (rc, p', calls) ∧
      (ReadOverflow h p f → ReadServed h p f rc p' calls) ∧
      (¬ReadOverflow h p f → calls = [regpCall h f false]) := by
  have hreq : regpIsRequest f = true := Bool.or_eq_true _ _ |>.mpr (.inl hread)
  by_cases hover : ReadOverflow h p f
  · obtain ⟨buf, hbuf⟩ := regpRead_overflow hroom hover
    obtain ⟨sink', hret, -⟩ :=
      (Response.etxoverflow (BitVec.ofNat 32 (trxbufsize h p))).send_sends h
      hk f (by
        rw [(Response.length_payload_arg rfl).1, Option.getD_some, length_bfSetU32b]
        decide)
    refine ⟨_, _, _, regpProcess_valid hf he hreq hvalid ((if_pos hread).trans hbuf) hret,
      fun _ => ⟨fun c hc => (nomatch hc), fun _ => ⟨rfl, hret⟩⟩, fun hn => absurd hover hn⟩
  · have hacc := regpRead_forward hroom hover
    generalize p.memory.readOctets h p.mem f.header.address f.header.blocksize.toNat = acc at hacc
    obtain ⟨ba, l, mem⟩ := acc
    obtain ⟨rc, p', hret⟩ := regpRespond_returns (h := h) (p := { p with mem }) (f := f) hk ba
      (some ((f.memory.shift f.payloadData).store 0 l))
    exact ⟨rc, p', _, regpProcess_valid hf he hreq hvalid ((if_pos hread).trans hacc) hret,
      fun h' => absurd h' hover, fun _ => rfl⟩

/-- **When the memory of a read request lies inside the block.** The limit of the source is taken
    without the header: a request between the two limits is forwarded all the same. -/
theorem regpProcess_read_inside_iff (h : Host) (p : RegP σ τ μ α) (f : RPFrame) (mf : RPMaybeFrame)
    (sent : τ → List Octet) (hk : p.sink.Accepting sent)
    (hroom : h.sizeofRPFrame ≤ p.alloc.blocksize) (hread : regpIsReadRequest f = true)
    (hvalid : memtypeValid p f = true) (hf : mf.frame = some f) (he : mf.errorId = none) :
    ∃ rc p' calls, Returns (fun fuel => regpProcess h fuel p mf) (rc, p', calls) ∧
      (ReadServed h p f rc p' calls ↔
        ReadOverflow h p f ∨ readEnd h p f ≤ p.alloc.blocksize) := by
  obtain ⟨rc, p', calls, hret, h1, h2⟩ := regpProcess_read hk hroom hread hvalid hf he
  refine ⟨rc, p', calls, hret, fun hs => ?_, fun hor => ?_⟩
  · by_cases hover : ReadOverflow h p f
    · exact .inl hover
    · have hmem : regpCall h f false ∈ calls := by
        rw [h2 hover]
        exact List.mem_singleton.mpr rfl
      exact .inr (hs.inside _ hmem)
  · by_cases hover : ReadOverflow h p f
    · exact h1 hover
    · have hend := hor.resolve_left hover
      refine ⟨fun c hc => ?_, fun hlt => absurd hend (Nat.not_le_of_lt hlt)⟩
      rw [h2 hover] at hc
      obtain rfl := List.mem_singleton.mp hc
      exact hend

end Valid

/-- A read request for 96 words, with its checksum. -/
def blockRequest : List Octet :=
  [0x03, 0x00, 0x00, 0x00, 0x00, 0x00, 0x00, 0x00, 0x00, 0x00, 0x00, 0x60, 0x2c, 0x04]

/-- The parsed frame of a request, in a block of its own. -/
def requestOf (l : List Octet) : RPFrame :=
  (parseFrame lp64Host (receivedBlock lp64Host l) (lp64Host.sizeofRPFrame + l.length)).val.1

/-- A request for one word fits. -/
theorem regpProcess_read_inside_iff_word :
    ∃ rc p' calls, Returns (fun fuel => regpProcess lp64Host fuel (ramInstance .serial [])
        { errorId := none, framesize := 0, frame := some (requestOf wordRequest) })
        (rc, p', calls) ∧
      (ReadServed lp64Host (ramInstance .serial []) (requestOf wordRequest) rc p' calls ↔
        ReadOverflow lp64Host (ramInstance .serial []) (requestOf wordRequest) ∨
        readEnd lp64Host (ramInstance .serial []) (requestOf wordRequest) ≤
          (ramInstance .serial []).alloc.blocksize) :=
  regpProcess_read_inside_iff lp64Host (ramInstance .serial []) (requestOf wordRequest) _ id
    (collectSink_accepting []) (by decide) (by decide +kernel) (by decide +kernel) rfl rfl

/-- The words of a block of 256 octets, without the `RPFrame`: as many as the limit admits. The
    header takes 14 octets of them, so the last seven words lie behind the block. -/
theorem regpProcess_read_outside :
    (parseFrame lp64Host (receivedBlock lp64Host blockRequest) 78).val.2 = .ok 0 ∧
    ∃ rc p' calls, Returns (fun fuel => regpProcess lp64Host fuel (ramInstance .serial [])
        { errorId := none, framesize := 0, frame := some (requestOf blockRequest) })
        (rc, p', calls) ∧
      ¬ReadServed lp64Host (ramInstance .serial []) (requestOf blockRequest) rc p' calls := by
  have hread : regpIsReadRequest (requestOf blockRequest) = true := by decide +kernel
  have hvalid : memtypeValid (ramInstance .serial []) (requestOf blockRequest) = true := by
    decide +kernel
  have hn : (requestOf blockRequest).header.blocksize.toNat = 96 := by decide +kernel
  have hdata : (requestOf blockRequest).payloadData = 14 := by decide +kernel
  refine ⟨by decide +kernel, ?_⟩
  obtain ⟨rc, p', calls, hret, -, hcalls⟩ := regpProcess_read (h := lp64Host)
    (p := ramInstance .serial []) (collectSink_accepting []) (by decide) hread hvalid
    (m := { errorId := none, framesize := 0, frame := some (requestOf blockRequest) }) rfl rfl
  refine ⟨rc, p', calls, hret, fun hs => ?_⟩
  have hover : ¬ReadOverflow lp64Host (ramInstance .serial []) (requestOf blockRequest) := by
    unfold ReadOverflow
    rw [hn]
    decide
  have hin := hs.inside (regpCall lp64Host (requestOf blockRequest) false)
    (by rw [hcalls hover]; exact List.mem_singleton.mpr rfl)
  simp only [regpCall, hn, hdata] at hin
  exact absurd hin (by decide)

end Ufw
