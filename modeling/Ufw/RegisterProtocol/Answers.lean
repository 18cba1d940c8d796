/-
  File:      Ufw/RegisterProtocol/Answers.lean
  Subject:   REGISTER PROTOCOL: what becomes of a received frame.

  * `Owes` -- the answer a frame is owed: by the first check that fails, or by the memory;
  * `Dispatched` -- **one answer where one is owed, none otherwise**, and no access to the memory
    but for a valid request;
  * `regpProcess_dispatched` -- `regp_process` does so with every frame.
-/
import Ufw.RegisterProtocol.Process

namespace Ufw

open Base

variable {σ τ μ α : Type}

/-! ## 1. What is owed -/

/-- Access functions that answer with the codes of the protocol only. -/
structure RPAccessors.Defined {w : Nat} (access : RPAccessors μ w) : Prop where
  read : ∀ mem address n code, (access.read mem address n).1.status ≠ .undefined code
  write : ∀ mem address n l code, (access.write mem address n l).1.status ≠ .undefined code

def RPMemory.Defined : RPMemory μ → Prop
  | .m8 access => access.Defined
  | .m16 access => access.Defined

/-- Whether a block is larger than what the source takes for the room in a frame's memory. -/
def BlockOverflow (h : Host) (p : RegP σ τ μ α) (f : RPFrame) : Prop :=
  trxbufsize h p / p.memory.type.octets < f.header.blocksize.toNat

/-- The status of the memory for a read request. -/
def readStatus (h : Host) (p : RegP σ τ μ α) (f : RPFrame) : RPResponse :=
  (p.memory.readOctets h p.mem f.header.address f.header.blocksize.toNat).1.status

/-- The status of the memory for a write request, given the payload of the frame. -/
def writeStatus (h : Host) (p : RegP σ τ μ α) (f : RPFrame) : RPResponse :=
  (p.memory.writeOctets h p.mem f.header.address f.header.blocksize.toNat
    ((f.memory.shift f.payloadData).slice 0
      (f.header.blocksize.toNat * p.memory.type.octets))).1.status

/-- **The answer a frame is owed**, received with an error or without. -/
inductive Owes (h : Host) (p : RegP σ τ μ α) (f : RPFrame) : Option Errno → RPResponse → Prop where
  | payloadcrc (hreq : regpIsRequest f = true) : Owes h p f (some .eproto) .epayloadcrc
  | payloadsize (hreq : regpIsRequest f = true) : Owes h p f (some .efault) .epayloadsize
  | wordsize (hreq : regpIsRequest f = true) (hword : memtypeValid p f = false) :
      Owes h p f none .ewordsize
  | txoverflow (hread : regpIsReadRequest f = true) (hword : memtypeValid p f = true)
      (hover : BlockOverflow h p f) : Owes h p f none .etxoverflow
  | read (hread : regpIsReadRequest f = true) (hword : memtypeValid p f = true)
      (hover : ¬BlockOverflow h p f) : Owes h p f none (readStatus h p f)
  | write (hreq : regpIsRequest f = true) (hread : regpIsReadRequest f = false)
      (hword : memtypeValid p f = true) : Owes h p f none (writeStatus h p f)

/-- Whether an answer is owed at all: to requests, unless there was another error. -/
def Owed (f : RPFrame) (errorId : Option Errno) : Prop :=
  regpIsRequest f = true ∧ (errorId = none ∨ errorId = some .eproto ∨ errorId = some .efault)

/-- **What becomes of the frame `f`**: exactly the answer it is owed is sent; it is the response to
    its type, with its sequence number and its address. The memory is accessed at most once, in the
    direction of the request, and for a valid request only. -/
structure Dispatched (h : Host) (sent : τ → List Octet) (p : RegP σ τ μ α) (f : RPFrame)
    (errorId : Option Errno) (p' : RegP σ τ μ α) (calls : List RPCall) : Prop where
  answered : Owed f errorId → ∃ code, Owes h p f errorId code
  answer : ∀ code, Owes h p f errorId code → ∃ r : Response, r.code = code ∧
    p.sink.Sends sent (lineEncode p.epType (r.octets h p f)) p'.sink
  silent : ¬Owed f errorId → p'.sink = p.sink
  access : calls = [] ∨ calls = [regpCall h f (!regpIsReadRequest f)] ∧ errorId = none ∧
    regpIsRequest f = true ∧ memtypeValid p f = true
  untouched : calls = [] → p'.mem = p.mem

/-! ## 2. Every frame -/

section Process

variable {h : Host} {p : RegP σ τ μ α} {f : RPFrame} {mf : RPMaybeFrame} {sent : τ → List Octet}
  {errorId : Option Errno} {code : RPResponse}

theorem Owes.owed (ho : Owes h p f errorId code) : Owed f errorId := by
  have hread : regpIsReadRequest f = true → regpIsRequest f = true := fun hr =>
    (Bool.or_eq_true _ _).mpr (.inl hr)
  cases ho with
  | payloadcrc hreq => exact ⟨hreq, .inr (.inl rfl)⟩
  | payloadsize hreq => exact ⟨hreq, .inr (.inr rfl)⟩
  | wordsize hreq => exact ⟨hreq, .inl rfl⟩
  | txoverflow hr => exact ⟨hread hr, .inl rfl⟩
  | read hr => exact ⟨hread hr, .inl rfl⟩
  | write hreq => exact ⟨hreq, .inl rfl⟩

/-- A frame is owed one answer. -/
theorem Owes.unique {code' : RPResponse} (ho : Owes h p f errorId code)
    (ho' : Owes h p f errorId code') : code = code' := by
  cases ho with
  | payloadcrc | payloadsize => cases ho'; rfl
  | wordsize hreq hword =>
    cases ho' with
    | wordsize => rfl
    | txoverflow _ hw | read _ hw | write _ _ hw =>
      exact absurd (hword.symm.trans hw) Bool.false_ne_true
  | txoverflow hread hword hover =>
    cases ho' with
    | wordsize _ hw => exact absurd (hw.symm.trans hword) Bool.false_ne_true
    | txoverflow => rfl
    | read _ _ hn => exact absurd hover hn
    | write _ hr => exact absurd (hr.symm.trans hread) Bool.false_ne_true
  | read hread hword hover =>
    cases ho' with
    | wordsize _ hw => exact absurd (hw.symm.trans hword) Bool.false_ne_true
    | txoverflow _ _ ho => exact absurd ho hover
    | read => rfl
    | write _ hr => exact absurd (hr.symm.trans hread) Bool.false_ne_true
  | write hreq hread hword =>
    cases ho' with
    | wordsize _ hw => exact absurd (hw.symm.trans hword) Bool.false_ne_true
    | txoverflow hr | read hr => exact absurd (hread.symm.trans hr) Bool.false_ne_true
    | write => rfl

/-- The status of an answer of the memory is a code of the protocol. -/
theorem RPMemory.Defined.read (hdef : p.memory.Defined) (n : Nat) :
    readStatus h p f ≠ .undefined n := by
  unfold readStatus RPMemory.readOctets
  cases hm : p.memory with
  | m8 access => rw [hm] at hdef; exact RPAccessors.Defined.read hdef _ _ _ n
  | m16 access => rw [hm] at hdef; exact RPAccessors.Defined.read hdef _ _ _ n

theorem RPMemory.Defined.write (hdef : p.memory.Defined) (n : Nat) :
    writeStatus h p f ≠ .undefined n := by
  unfold writeStatus RPMemory.writeOctets
  cases hm : p.memory with
  | m8 access => rw [hm] at hdef; exact RPAccessors.Defined.write hdef _ _ _ _ n
  | m16 access => rw [hm] at hdef; exact RPAccessors.Defined.write hdef _ _ _ _ n

/-- **What a read request comes to**: the limit, or the status of the memory. -/
theorem regpRead_cases :
    (BlockOverflow h p f ∧ (regpRead h p f).ba.status = .etxoverflow ∧
      (regpRead h p f).calls = [] ∧ (regpRead h p f).mem = p.mem) ∨
    (¬BlockOverflow h p f ∧ (regpRead h p f).ba.status = readStatus h p f ∧
      (regpRead h p f).calls = [regpCall h f false]) := by
  unfold BlockOverflow trxbufsize regpRead readStatus RPMemory.readOctets
  cases p.memory with
  | m8 access =>
    dsimp only [RPMemory.type, RPMemoryType.octets]
    rw [Nat.div_one]
    split
    · exact .inl ⟨‹_›, rfl, rfl, rfl⟩
    · exact .inr ⟨‹_›, rfl, rfl⟩
  | m16 access =>
    dsimp only [RPMemory.type, RPMemoryType.octets]
    split
    · exact .inl ⟨‹_›, rfl, rfl, rfl⟩
    · exact .inr ⟨‹_›, rfl, rfl⟩

/-- An answer without access to the memory. -/
theorem regpProcess_reply (hk : p.sink.Accepting sent) {r : Response} (harg : r.payload h p = none)
    (ho : Owes h p f mf.errorId r.code)
    (heq : ∀ fuel, regpProcess h fuel p mf = do
      let (rc, p) ← r.send h fuel p f
      .ok (rc, p, [])) :
    ∃ rc p' calls, Returns (fun fuel => regpProcess h fuel p mf) (rc, p', calls) ∧
      Dispatched h sent p f mf.errorId p' calls := by
  obtain ⟨sink', hret, hs⟩ := r.send_sends h hk f (by rw [harg]; decide)
  refine ⟨.ok 0, { p with sink := sink' }, [], Returns.congr heq ?_,
    { answered := fun _ => ⟨_, ho⟩
      answer := fun code hc => ⟨r, ho.unique hc, hs⟩
      silent := fun hn => absurd ho.owed hn
      access := .inl rfl
      untouched := fun _ => rfl }⟩
  exact Returns.seq (fun fuel hx => congrArg (fun x => x >>= _) hx) hret
    (Returns.of_eq fun _ => rfl)

/-- Nothing becomes of a frame that is owed no answer. -/
theorem dispatched_ignored (hn : ¬Owed f errorId) : Dispatched h sent p f errorId p [] where
  answered := fun ho => absurd ho hn
  answer := fun _ ho => absurd ho.owed hn
  silent := fun _ => rfl
  access := .inl rfl
  untouched := fun _ => rfl

/-- **A valid request is answered with the status of its access.** -/
theorem regpProcess_accessed (hk : p.sink.Accepting sent) (hf : mf.frame = some f)
    (he : mf.errorId = none) (hreq : regpIsRequest f = true) (hword : memtypeValid p f = true)
    {access : RPAccessed μ}
    (haccess : (if regpIsReadRequest f then regpRead h p f else regpWrite h p f) = access)
    (ho : Owes h p f none access.ba.status) (hdef : ∀ n, access.ba.status ≠ .undefined n)
    (hcalls : access.calls = [] ∧ access.mem = p.mem ∨
      access.calls = [regpCall h f (!regpIsReadRequest f)]) :
    ∃ rc p' calls, Returns (fun fuel => regpProcess h fuel p mf) (rc, p', calls) ∧
      Dispatched h sent p f mf.errorId p' calls := by
  obtain ⟨r, hcode, sink', hret, hs⟩ := regpRespond_sends (h := h)
    (p := { p with mem := access.mem }) (f := f) hk access.ba access.buf hdef
  refine ⟨.ok 0, _, _, regpProcess_valid hf he hreq hword haccess hret, ?_⟩
  rw [he]
  exact
    { answered := fun _ => ⟨_, ho⟩
      answer := fun code hc => ⟨r, hcode.trans (ho.unique hc), hs⟩
      silent := fun hn => absurd ho.owed hn
      access := hcalls.imp And.left fun hc => ⟨hc, rfl, hreq, hword⟩
      untouched := fun hnil => (hcalls.resolve_right (by rw [hnil]; exact nofun)).2 }

/-- **Every received frame is dispatched**: it is given exactly the answer it is owed, and the
    memory is accessed for valid requests only. -/
theorem regpProcess_dispatched (h : Host) (p : RegP σ τ μ α) (sent : τ → List Octet)
    (hk : p.sink.Accepting sent) (hdef : p.memory.Defined) (mf : RPMaybeFrame) (f : RPFrame)
    (hf : mf.frame = some f) :
    ∃ rc p' calls, Returns (fun fuel => regpProcess h fuel p mf) (rc, p', calls) ∧
      Dispatched h sent p f mf.errorId p' calls := by
  obtain ⟨errorId, framesize, frame⟩ := mf
  obtain rfl : frame = some f := hf
  have hignored : ¬Owed f errorId →
      (∀ fuel, regpProcess h fuel p ⟨errorId, framesize, some f⟩ = .ok (.ok 0, p, [])) →
      ∃ rc p' calls, Returns (fun fuel => regpProcess h fuel p ⟨errorId, framesize, some f⟩)
        (rc, p', calls) ∧ Dispatched h sent p f errorId p' calls := fun hn heq =>
    ⟨_, _, _, Returns.of_eq heq, dispatched_ignored hn⟩
  cases hreq : regpIsRequest f with
  | false =>
    -- answers and meta messages are not answered
    have hpos : ¬regpIsRequest f = true := Bool.eq_false_iff.mp hreq
    refine hignored (fun ho => hpos ho.1) fun fuel => ?_
    cases errorId with
    | none => exact if_pos hreq
    | some e =>
      cases e with
      | eproto | efault => exact if_neg hpos
      | _ => rfl
  | true =>
    cases errorId with
    | some e =>
      cases e with
      | eproto =>
        exact regpProcess_reply hk (r := .epayloadcrc) rfl (.payloadcrc hreq) fun _ => if_pos hreq
      | efault =>
        exact regpProcess_reply hk (r := .epayloadsize) rfl (.payloadsize hreq) fun _ => if_pos hreq
      | _ =>
        -- `regp_recv` has dealt with every other error
        refine hignored ?_ fun fuel => rfl
        rintro ⟨-, ho | ho | ho⟩ <;> cases ho
    | none =>
      have hvalid : ¬regpIsRequest f = false := fun hn => Bool.false_ne_true (hn.symm.trans hreq)
      cases hword : memtypeValid p f with
      | false =>
        exact regpProcess_reply hk (r := .ewordsize) rfl (.wordsize hreq hword) fun _ =>
          (if_neg hvalid).trans (if_pos hword)
      | true =>
        cases hread : regpIsReadRequest f with
        | true =>
          have haccess : (if regpIsReadRequest f then regpRead h p f else regpWrite h p f) =
              regpRead h p f := if_pos hread
          rcases regpRead_cases (h := h) (p := p) (f := f) with
            ⟨hover, hst, hcalls, hmem⟩ | ⟨hover, hst, hcalls⟩
          · exact regpProcess_accessed hk rfl rfl hreq hword haccess
              (hst ▸ .txoverflow hread hword hover) (fun n => hst ▸ nofun) (.inl ⟨hcalls, hmem⟩)
          · refine regpProcess_accessed hk rfl rfl hreq hword haccess
              (hst ▸ .read hread hword hover) (fun n => hst ▸ hdef.read n) (.inr ?_)
            rw [hcalls, hread]
            rfl
        | false =>
          have haccess : (if regpIsReadRequest f then regpRead h p f else regpWrite h p f) =
              regpWrite h p f := if_neg (Bool.eq_false_iff.mp hread)
          have hst : (regpWrite h p f).ba.status = writeStatus h p f :=
            (congrArg (fun access : RPAccessed μ => access.ba.status) regpWrite_forward).trans rfl
          refine regpProcess_accessed hk rfl rfl hreq hword haccess
            (hst ▸ .write hreq hread hword) (fun n => hst ▸ hdef.write n) (.inr ?_)
          exact regpWrite_calls.trans (by rw [hread]; rfl)

end Process

/-- Plain memory answers with ACK only. -/
theorem ramAccess_defined (w : Nat) : (ramAccess w).Defined where
  read := fun _ _ _ _ => nofun
  write := fun _ _ _ _ _ => nofun

/-- A request for one word, on a serial line. -/
theorem regpProcess_dispatched_wordRequest :
    ∃ rc p' calls, Returns (fun fuel => regpProcess lp64Host fuel (ramInstance .serial [])
        { errorId := none, framesize := 0, frame := some (requestOf wordRequest) })
        (rc, p', calls) ∧
      Dispatched lp64Host id (ramInstance .serial []) (requestOf wordRequest) none p' calls :=
  regpProcess_dispatched lp64Host (ramInstance .serial []) id (collectSink_accepting [])
    (ramAccess_defined 16)
    { errorId := none, framesize := 0, frame := some (requestOf wordRequest) }
    (requestOf wordRequest) rfl

end Ufw
