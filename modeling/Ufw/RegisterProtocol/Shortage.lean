/-
  File:      Ufw/RegisterProtocol/Shortage.lean
  Subject:   REGISTER PROTOCOL: what a peer learns when memory is short.

  * `SaysCode` -- what goes out is one response to a request, with a code;
  * `busy_answer` -- without a block, the answer is a meta message: the header of the request was
    not kept;
  * `overflow_errorId` -- a frame that is cut to its block is no overflow to the receiver;
  * `regpRecv_shortage` -- **a shortage is never answered as one.**
-/
import Ufw.RegisterProtocol.Framing

namespace Ufw

open Base

variable {σ τ μ α : Type}

/-! ## 1. The answer a shortage asks for -/

/-- **What goes out is one message**, a response with this code to the request with this header. -/
def SaysCode (h : Host) (sent : τ → List Octet) (p p' : RegP σ τ μ α) (request : RPHeader)
    (code : RPResponse) : Prop :=
  ∃ octets header off, p.sink.Sends sent (lineEncode p.epType octets) p'.sink ∧
    HeaderOk h (Mem.ofList 0 octets) octets.length header off ∧
    header.type = req2resp request.type ∧ header.metaRaw = code.code.setWidth 32 ∧
    header.sequence = request.sequence ∧ header.address = request.address

/-- A call that ends with the error `e`, and answers with the code `code`. -/
def AnswersShortage (h : Host) (sent : τ → List Octet) (p : RegP σ τ μ α) (request : RPHeader)
    (e : Errno) (code : RPResponse) : Prop :=
  ∃ rc mf p', Returns (fun fuel => regpRecv h fuel p) (rc, mf, p') ∧ mf.errorId = some e ∧
    SaysCode h sent p p' request code

section Shortage

variable {h : Host} {sent : τ → List Octet} {ep : RPEndpointType} {p p' : RegP σ τ μ α}

/-! ## 2. No block -/

/-- A meta message is no response. -/
theorem headerOk_meta {q : RegP σ τ μ α} {metaRaw : BitVec 16} {header : RPHeader} {n off : Nat}
    (hok : HeaderOk h (Mem.ofList 0 (headerOctets
      (encodeHeader h q .bit8 .metaMessage metaRaw 0 0 0 0))) n header off) :
    header.type = .metaMessage := by
  have hlen := length_headerOctets_encodeHeader h q .bit8 .metaMessage metaRaw 0 0 0 0
  have hraw := Mem.slice_ofList 0
    (headerOctets (encodeHeader h q .bit8 .metaMessage metaRaw 0 0 0 0))
  rw [hlen] at hraw
  obtain ⟨hmotv, -, -, -⟩ := read_encodeHeader hraw
  rw [hok.type, hmotv, (bitGet_makeMotv q .bit8 .metaMessage metaRaw 0).2.1]
  rfl

theorem req2resp_ne_meta {type : RPFrameType} (ht : type = .readRequest ∨ type = .writeRequest) :
    req2resp type ≠ .metaMessage := by
  rcases ht with rfl | rfl <;> exact fun he => nomatch he

/-- **Without a block the answer is a meta message**, and no response. -/
theorem busy_answer (hp : p.Listens h sent ep) {l : List Octet} (hne : l ≠ [])
    (hl : ep = .tcp → l.length ≤ ssizeMax) {source' : Source σ}
    (hs : p.source.Delivers (lineEncode ep l) source') {e : Errno} {alloc' : BlockAllocator α}
    (hblock : blockAlloc p.alloc = (.error e, alloc')) {request : RPHeader}
    (hreq : request.type = .readRequest ∨ request.type = .writeRequest) (code : RPResponse)
    (e' : Errno) : ¬AnswersShortage h sent p request e' code := by
  obtain ⟨rfl, hk, hroom⟩ := hp
  rintro ⟨rc, mf, p', hret, -, octets, header, off, hsays, hok, htype, -⟩
  obtain ⟨sink', hmeta, hsent⟩ := regpRespMeta_returns (h := h)
    (p := { p with source := source', alloc := alloc' }) hk rpMetaEheaderenc
  obtain ⟨n, hret'⟩ := regpRecv_busy hl hne hs hblock hmeta
  cases hret.unique hret'
  obtain ⟨d, hd, hd'⟩ := hsays
  obtain ⟨d₂, hd₂, hd₂'⟩ := hsent
  -- both are what was sent
  have hdd : d = d₂ := congrArg Sink.driver (hd.symm.trans hd₂)
  rw [hdd, hd₂'] at hd'
  have hsame := lineEncode_inj ?_ (List.append_cancel_left hd')
  · rw [← hsame] at hok
    exact req2resp_ne_meta hreq (htype.symm.trans (headerOk_meta hok))
  · have hmax := (length_headerOctets_bounds h { p with source := source', alloc := alloc' } .bit8
      .metaMessage rpMetaEheaderenc 0 0 0 0).2
    exact le_trans (Nat.add_le_add_right hmax _) (by decide)

/-! ## 3. A block that is too small -/

/-- **With a block, no call ends with ENOMEM**: the frame is cut, and what is left is parsed. -/
theorem overflow_errorId (hp : p.Listens h sent ep) {l : List Octet} (hne : l ≠ [])
    (hl : ep = .tcp → l.length ≤ ssizeMax) {source' : Source σ}
    (hs : p.source.Delivers (lineEncode ep l) source') {block : Block} {alloc' : BlockAllocator α}
    (hblock : blockAlloc p.alloc = (.ok block, alloc')) {request : RPHeader} {code : RPResponse} :
    ¬AnswersShortage h sent p request .enomem code := by
  obtain ⟨rfl, hk, hroom⟩ := hp
  rintro ⟨rc, mf, p', hret, herr, -⟩
  obtain ⟨rc', mf', sink', ⟨m, hparse⟩, -⟩ := recvParse_returns (h := h)
    (p := { p with source := source', alloc := alloc' }) hk (recvBlock h block (recvKept h p l))
    (h.sizeofRPFrame + (recvKept h p l).length)
  cases hret.unique (regpRecv_parsed hl hne hroom hs hblock ⟨m, hparse⟩)
  obtain ⟨herr', -⟩ := recvParse_result (hparse m (le_refl m))
  rw [herr] at herr'
  rcases hval : (parseFrame h (recvBlock h block (recvKept h p l))
    (h.sizeofRPFrame + (recvKept h p l).length)).val.2 with e | k
  · rw [hval] at herr'
    cases herr'
    rcases parseFrame_error hval with he | he | he | he | he <;> cases he
  · rw [hval] at herr'
    cases herr'

/-! ## 4. Shortages -/

/-- **A shortage is never answered as one.** Where no block is allocated for a request, EBUSY is
    not what is sent; where a request is longer than its block has room for, the call does not end
    with ENOMEM. -/
theorem regpRecv_shortage (hp : p.Listens h sent ep) {l : List Octet} {request : RPHeader}
    {off : Nat} (hok : HeaderOk h (Mem.ofList 0 l) l.length request off)
    (hreq : request.type = .readRequest ∨ request.type = .writeRequest)
    (hl : ep = .tcp → l.length ≤ ssizeMax) {source' : Source σ}
    (hs : p.source.Delivers (lineEncode ep l) source') :
    (∀ e alloc', blockAlloc p.alloc = (.error e, alloc') →
      ¬AnswersShortage h sent p request .ebusy .ebusy) ∧
    (∀ block alloc', blockAlloc p.alloc = (.ok block, alloc') →
      p.alloc.blocksize < h.sizeofRPFrame + l.length →
      ¬AnswersShortage h sent p request .enomem .erxoverflow) := by
  have hne : l ≠ [] := by
    rintro rfl
    have hsize := hok.size
    rw [hok.off_eq, headerWords, rpHeaderMinSize16, List.length_nil] at hsize
    omega
  exact ⟨fun e alloc' hblock => busy_answer hp hne hl hs hblock hreq _ _,
    fun block alloc' hblock _ => overflow_errorId hp hne hl hs hblock⟩

end Shortage

/-- An allocator that has no block. -/
def busyAllocator : BlockAllocator Unit where
  alloc := .slab fun driver => (.error .enomem, driver)
  free := fun driver _ => driver
  driver := ()
  blocksize := 256
  blocksize_le := pageAllocator.blocksize_le

/-- An allocator whose blocks have room for eight octets behind the `RPFrame`. -/
def smallAllocator : BlockAllocator Unit where
  alloc := pageAllocator.alloc
  free := fun driver _ => driver
  driver := ()
  blocksize := 72
  blocksize_le := by decide

/-- The header of `wordRequest`. -/
def wordRequestHeader : RPHeader where
  version := 0
  type := .readRequest
  options := 3
  metaRaw := 0
  sequence := 0
  address := 0
  blocksize := 1
  hdcrc := 0xc4c5
  plcrc := 0

theorem wordRequest_headerOk :
    HeaderOk lp64Host (Mem.ofList 0 wordRequest) wordRequest.length wordRequestHeader 7 := by
  have hval : (parseHeader lp64Host default (Mem.ofList 0 wordRequest) wordRequest.length).val =
      (wordRequestHeader, .ok 7) := by decide +kernel
  exact parseHeader_ok_iff.mp hval

/-- An instance on a serial line that carries `wordRequest`, with an allocator. -/
def shortInstance (alloc : BlockAllocator Unit) :
    RegP (List Octet) (List Octet) (Mem (BitVec 16)) Unit :=
  { ramInstance .serial (lineEncode .serial wordRequest) with alloc }

theorem shortInstance_listens {alloc : BlockAllocator Unit}
    (hroom : lp64Host.sizeofRPFrame < alloc.blocksize) :
    (shortInstance alloc).Listens lp64Host id .serial := ⟨rfl, collectSink_accepting [], hroom⟩

theorem regpRecv_shortage_wordRequest :
    (∀ e alloc', blockAlloc busyAllocator = (.error e, alloc') →
      ¬AnswersShortage lp64Host id (shortInstance busyAllocator) wordRequestHeader .ebusy .ebusy) ∧
    (∀ block alloc', blockAlloc busyAllocator = (.ok block, alloc') →
      256 < lp64Host.sizeofRPFrame + wordRequest.length →
      ¬AnswersShortage lp64Host id (shortInstance busyAllocator) wordRequestHeader .enomem
        .erxoverflow) :=
  regpRecv_shortage (shortInstance_listens (by decide)) wordRequest_headerOk (.inl rfl) nofun
    (streamSource_delivers_all _)

/-- A request of 14 octets, without a block, and with a block that has room for 8 of them. -/
theorem regpRecv_unanswered :
    ¬AnswersShortage lp64Host id (shortInstance busyAllocator) wordRequestHeader .ebusy .ebusy ∧
    ¬AnswersShortage lp64Host id (shortInstance smallAllocator) wordRequestHeader .enomem
      .erxoverflow :=
  ⟨busy_answer (shortInstance_listens (by decide)) (by decide) nofun (streamSource_delivers_all _)
    rfl (.inl rfl) _ _,
  overflow_errorId (shortInstance_listens (by decide)) (by decide) nofun
    (streamSource_delivers_all _) rfl⟩

end Ufw
