/-
  File:      Ufw/RegisterProtocol/Registers.lean
  Subject:   REGISTER PROTOCOL: a register table behind a server. The access functions of the server
             read and write blocks of the table, and `regaccess2blockaccess` turns the reports
             round.

  * `registerAccessors` -- the access functions;
  * `registerReply` -- what a request is replied to, told by the words at the addresses of the
    table;
  * `wordsAfter` -- the words written last by the writes that were acknowledged;
  * `register_session` -- **in any interleaving, every reply is the one these words make**, and the
    table holds them: no write that was acknowledged is lost, and one that was not has no effect.
-/
import Ufw.RegisterProtocol.Session
import Ufw.Registers.Store

namespace Ufw

open Base

variable {δ : Type} {h h' : Host}

/-! ## 1. The access functions -/

/-- `regaccess2blockaccess` -/
def regaccess2blockaccess (access : RegisterAccess) : RPBlockAccess where
  status := match access.code with
    | .success => .ack
    | .uninitialised | .noentry => .eunmapped
    | .range => .erange
    | .invalid => .einvalid
    | .readonly => .eaccess
    | .failure | .ioError => .eio
  address := access.address

/-- A report that says what is wrong with a block is one peers know. -/
theorem regaccess2blockaccess_known {rv : RegisterAccess} (hfailure : rv.code ≠ .failure)
    (hio : rv.code ≠ .ioError) : (regaccess2blockaccess rv).status.Known := by
  obtain ⟨code, address⟩ := rv
  cases code with
  | failure => exact absurd rfl hfailure
  | ioError => exact absurd rfl hio
  | success | uninitialised | noentry | range | invalid | readonly =>
    exact ⟨nofun, fun _ => nofun⟩

theorem valueVerdict_known (t : RegisterTable δ) (e : RegisterEntry) (v : RegisterValue) :
    valueVerdict t e v ≠ .failure ∧ valueVerdict t e v ≠ .ioError := by
  unfold valueVerdict
  cases v.usable <;> cases rvValidate t e v <;> exact ⟨nofun, nofun⟩

/-- A table of memory that can be read and written. -/
structure StoredTable (δ : Type) where
  table : RegisterTable δ
  storable : Storable table

/-- The result of a call that returns. -/
def Exec.result {α : Type} : (run : Exec α) → (∃ r, run = .ok r) → { r : α // run = .ok r }
  | .ok r, _ => ⟨r, rfl⟩
  | .error _, h => absurd h (by rintro ⟨r, hr⟩; cases hr)

theorem Exec.result_eq {α : Type} {run : Exec α} {r : α} (hr : run = .ok r)
    (h : ∃ r, run = .ok r) : Exec.result run h = ⟨r, hr⟩ := by
  subst hr
  rfl

/-- **A block write returns**, whatever it writes, and the table has its layout then. -/
theorem Storable.blockWrite_returns {t : RegisterTable δ} (ht : Storable t) (h : Host)
    (addr : RegisterAddress) (n : RegisterOffset) (buf : Mem RegisterAtom) :
    ∃ rv t', registerBlockWrite h t addr n buf = .ok (rv, t') ∧ SameTable t t' ∧
      rv.code ≠ .failure ∧ rv.code ≠ .ioError := by
  by_cases hn : n = 0
  · refine ⟨regAccessResultInit, t, ?_, .refl t, nofun, nofun⟩
    unfold registerBlockWrite
    rw [ht.layout.initialised, if_neg (by decide), if_pos hn]
  obtain ⟨rv, t', hrun, hout⟩ := registerBlockWrite_outcome (h := h) ht.layout ht.inRange
    ht.memoryBacked addr hn buf
  refine ⟨rv, t', hrun, ?_⟩
  cases hout with
  | readonly hw => exact absurd (raWriteable_success ht.memoryBacked ht.readWrite addr n) hw
  | hole _ hc hlow =>
    refine ⟨.refl t, ?_⟩
    rw [hc]
    exact ⟨nofun, nofun⟩
  | malformed _ hno hi => exact ⟨.refl t, valueVerdict_known _ _ _⟩
  | @written flags ha hf => exact ⟨(ht.writing _ _ buf flags).1, nofun, nofun⟩

/-- A block read returns, and leaves the table as it is. -/
theorem Storable.blockRead_returns {t : RegisterTable δ} (ht : Storable t) (addr : RegisterAddress)
    (n : RegisterOffset) (buf : Mem RegisterAtom) :
    ∃ rv buf', registerBlockRead t addr n buf = .ok (rv, buf', t) :=
  ⟨_, _, ht.blockRead (h := lp64Host) addr n buf⟩

namespace StoredTable

/-- The access function for reading, with the words it stores in the buffer of its caller. -/
def blockRead (s : StoredTable δ) (address : BitVec 32) (n : Nat) :
    RPBlockAccess × List RegisterAtom × StoredTable δ :=
  let run :=
    Exec.result (registerBlockRead s.table address (BitVec.ofNat 32 n) (Mem.ofList 0 [])) (by
    obtain ⟨rv, buf, hrun⟩ :=
      s.storable.blockRead_returns address (BitVec.ofNat 32 n) (Mem.ofList 0 [])
    exact ⟨_, hrun⟩)
  (regaccess2blockaccess run.1.1, if run.1.1.code = .success then run.1.2.1.slice 0 n else [],
    { table := run.1.2.2
      storable := by
        obtain ⟨rv, buf, hrun⟩ :=
          s.storable.blockRead_returns address (BitVec.ofNat 32 n) (Mem.ofList 0 [])
        have heq := run.2.symm.trans hrun
        rw [congrArg (fun r => r.2.2) (Except.ok.inj heq)]
        exact s.storable })

/-- The access function for writing. -/
def blockWrite (h : Host) (s : StoredTable δ) (address : BitVec 32) (n : Nat)
    (l : List RegisterAtom) : RPBlockAccess × StoredTable δ :=
  let run :=
    Exec.result (registerBlockWrite h s.table address (BitVec.ofNat 32 n) (Mem.ofList 0 l)) (by
    obtain ⟨rv, t, hrun, -⟩ :=
      s.storable.blockWrite_returns h address (BitVec.ofNat 32 n) (Mem.ofList 0 l)
    exact ⟨_, hrun⟩)
  (regaccess2blockaccess run.1.1,
    { table := run.1.2
      storable := by
        obtain ⟨rv, t, hrun, hsame, -⟩ :=
          s.storable.blockWrite_returns h address (BitVec.ofNat 32 n) (Mem.ofList 0 l)
        have heq := run.2.symm.trans hrun
        rw [congrArg Prod.snd (Except.ok.inj heq)]
        exact hsame.storable s.storable })

variable {s : StoredTable δ} {address : BitVec 32} {n : Nat}

theorem blockRead_eq {rv : RegisterAccess} {buf : Mem RegisterAtom}
    (hrun : registerBlockRead s.table address (BitVec.ofNat 32 n) (Mem.ofList 0 [])
      = .ok (rv, buf, s.table)) :
    s.blockRead address n
      = (regaccess2blockaccess rv, if rv.code = .success then buf.slice 0 n else [], s) := by
  unfold blockRead
  simp only [Exec.result_eq hrun]

theorem blockWrite_eq {l : List RegisterAtom} {rv : RegisterAccess} {t : RegisterTable δ}
    (hrun : registerBlockWrite h s.table address (BitVec.ofNat 32 n) (Mem.ofList 0 l) =
      .ok (rv, t)) :
    (s.blockWrite h address n l).1 = regaccess2blockaccess rv ∧
      (s.blockWrite h address n l).2.table = t := by
  unfold blockWrite
  simp only [Exec.result_eq hrun, and_self]

end StoredTable

/-- **The access functions of a server for a table.** -/
def registerAccessors (δ : Type) (h : Host) : RPAccessors (StoredTable δ) 16 where
  read := StoredTable.blockRead
  write := StoredTable.blockWrite h

/-- **Peers understand what a table reports.** -/
theorem registerAccessors_understandable (δ : Type) (h : Host) :
    (RPMemory.m16 (registerAccessors δ h)).Understandable h where
  read s address n := by
    have hrun := s.storable.blockRead (h := h) address (BitVec.ofNat 32 n) (Mem.ofList 0 [])
    show (s.blockRead address n).1.status.Known
    rw [StoredTable.blockRead_eq hrun]
    unfold storeRead
    split <;> exact regaccess2blockaccess_known nofun nofun
  write s address n l := by
    obtain ⟨rv, t, hrun, -, hknown⟩ :=
      s.storable.blockWrite_returns h address (BitVec.ofNat 32 n) (Mem.ofList 0 (octetWords h l))
    show (s.blockWrite h address n (octetWords h l)).1.status.Known
    rw [(StoredTable.blockWrite_eq hrun).1]
    exact regaccess2blockaccess_known hknown.1 hknown.2
  fills s address n := by
    have hrun := s.storable.blockRead (h := h) address (BitVec.ofNat 32 n) (Mem.ofList 0 [])
    show (s.blockRead address n).1.status = .ack →
      (wordOctets h (s.blockRead address n).2.1).length = n * 2
    rw [StoredTable.blockRead_eq hrun]
    generalize (storeRead h s.table s.table.image address (BitVec.ofNat 32 n) (Mem.ofList 0 [])).1
      = rv
    intro hack
    have hcode : rv.code = .success := by
      obtain ⟨code, address⟩ := rv
      cases code with
      | success => rfl
      | failure | uninitialised | noentry | range | invalid | readonly | ioError => cases hack
    simp only [hcode, if_true]
    rw [length_wordOctets, Mem.length_slice, Nat.mul_comm]

/-! ## 2. What a request is replied to -/

/-- The words a write request carries, as the server takes them. -/
def Request.block (h h' : Host) (r : Request) : List RegisterAtom :=
  octetWords h' ((r.payload h).getD [])

section Meaning

variable (h h' : Host) (room : Nat) (t : RegisterTable δ)

/-- A reply about address `x`. -/
def addressReply (h' : Host) (code : RPResponse) (x : Nat) : Reply :=
  { code, payload := bfSetU32b h' (BitVec.ofNat 32 x) }

/-- The reply to a read request: a server has room for `room` octets. -/
noncomputable def readReply (m : Mem RegisterAtom) (r : Request) : Reply :=
  if room < r.words * 2 then addressReply h' .etxoverflow room
  else
    match (t.fields h').read m r.address.toNat r.words with
    | .error x => addressReply h' .eunmapped x
    | .ok l => { code := .ack, payload := wordOctets h' l }

/-- The reply to a write request: what is wrong with the block, if anything is. -/
noncomputable def writeReply (m : Mem RegisterAtom) (r : Request) : Reply :=
  match (t.fields h').refusal m r.address.toNat (r.block h h') with
  | none => { code := .ack, payload := [] }
  | some (.hole x) => addressReply h' .eunmapped x
  | some (.field i) =>
    let v := (t.field h' i).value (m.store r.address.toNat (r.block h h'))
    addressReply h' (if v.usable then .erange else .einvalid)
      (max r.address.toNat (t.entry i).address.toNat)

/-- **The reply to a request**, with the words `m` at the addresses of the table. -/
noncomputable def registerReply (m : Mem RegisterAtom) (r : Request) : Reply :=
  if r.msem ≠ .bit16 then { code := .ewordsize, payload := [] }
  else if r.type = .readRequest then readReply h' room t m r
  else writeReply h h' t m r

/-- What an answer says is written: the block of a write request that is acknowledged. -/
def Answered.written (h h' : Host) (a : Answered) : List (Nat × List RegisterAtom) :=
  if a.request.type = .writeRequest ∧ a.reply.code = .ack then
    [(a.request.address.toNat, a.request.block h h')]
  else []

/-- **The words at the addresses of a table after some answers**: those of the last write to them
    that was acknowledged, or those that were there in the beginning. -/
def wordsAfter (m : Mem RegisterAtom) (as : List Answered) : Mem RegisterAtom :=
  fun x => (lastWritten (as.flatMap (Answered.written h h')) x).getD (m x)

/-- The service of a memory with registers. -/
noncomputable def registerServe (s : BitVec 16 × Mem RegisterAtom) (r : Request) :
    Answered × BitVec 16 × Mem RegisterAtom :=
  let a : Answered := { sequence := s.1, request := r, reply := registerReply h h' room t s.2 r }
  (a, s.1 + 1, replay s.2 (a.written h h'))

end Meaning

/-- A request whose write, if it is one, is checked. -/
def Request.Checked (t : RegisterTable δ) (r : Request) : Prop :=
  r.type = .writeRequest → ∀ i, i < t.entries → ¬Unchecked (t.entry i) r.address.toNat r.words

/-! ## 3. One request -/

/-- The reply about a value that is not accepted. -/
theorem statusReply_refused {t : RegisterTable δ} {e : RegisterEntry} {v : RegisterValue}
    (hbad : ¬(v.usable = true ∧ rvValidate t e v = true)) (trx : BitVec 32) (x : Nat) :
    statusReply h trx (regaccess2blockaccess ⟨valueVerdict t e v, BitVec.ofNat 32 x⟩) []
      = addressReply h (if v.usable then .erange else .einvalid) x := by
  unfold valueVerdict
  cases hu : v.usable with
  | false => rfl
  | true =>
    cases hval : rvValidate t e v with
    | false => rfl
    | true => exact absurd ⟨hu, hval⟩ hbad

/-- A write of words carries as many words as its header tells. -/
theorem Request.length_block (h h' : Host) {r : Request} (hmsem : r.msem = .bit16)
    (htype : r.type = .writeRequest) : (r.block h h').length = r.words := by
  cases r with
  | read8 address n | read16 address n => cases htype
  | write8 address buf => cases hmsem
  | write16 address buf =>
    have hback := wordOctets_octetWords h' (wordOctets h buf) (by
      rw [length_wordOctets, Nat.mul_mod_right])
    have hlen := congrArg List.length hback
    rw [length_wordOctets, length_wordOctets] at hlen
    show (octetWords h' (wordOctets h buf)).length = buf.length
    omega

section Request

variable {s : StoredTable δ} {r : Request} (hwords : r.words < 2 ^ 32)

include hwords

/-- **A read request**, with enough room. -/
theorem StoredTable.read_reply (h' : Host) {room : Nat} (hroom : ¬room < r.words * 2) :
    statusReply h' (BitVec.ofNat 32 room) (s.blockRead r.address r.words).1
        (wordOctets h' (s.blockRead r.address r.words).2.1)
      = readReply h' room s.table s.table.image r ∧
      (s.blockRead r.address r.words).2.2 = s := by
  have hrun := s.storable.blockRead (h := h') r.address (BitVec.ofNat 32 r.words) (Mem.ofList 0 [])
  have hn : (BitVec.ofNat 32 r.words).toNat = r.words := by
    rw [BitVec.toNat_ofNat, Nat.mod_eq_of_lt hwords]
  rw [StoredTable.blockRead_eq hrun]
  unfold storeRead readReply
  rw [hn, if_neg hroom]
  cases hread : (s.table.fields h').read s.table.image r.address.toNat r.words with
  | error x => exact ⟨rfl, rfl⟩
  | ok l =>
    have hl : ((Mem.ofList 0 []).store 0 l).slice 0 r.words = l := by
      rw [← FieldMap.length_read hread]
      exact Mem.slice_store _ 0 l
    refine ⟨?_, rfl⟩
    show (⟨.ack, wordOctets h' (((Mem.ofList 0 []).store 0 l).slice 0 r.words)⟩ : Reply) = _
    rw [hl]

/-- **A write request** whose write is checked. -/
theorem StoredTable.write_reply (hmsem : r.msem = .bit16) (htype : r.type = .writeRequest)
    (hchecked : r.Checked s.table) (trx : BitVec 32) :
    statusReply h' trx (s.blockWrite h' r.address r.words (r.block h h')).1 []
      = writeReply h h' s.table s.table.image r ∧
      SameTable s.table (s.blockWrite h' r.address r.words (r.block h h')).2.table ∧
      (s.blockWrite h' r.address r.words (r.block h h')).2.table.image =
        ((s.table.fields h').write s.table.image r.address.toNat (r.block h h')).2 := by
  have hn : (BitVec.ofNat 32 r.words).toNat = r.words := by
    rw [BitVec.toNat_ofNat, Nat.mod_eq_of_lt hwords]
  have hslice : (Mem.ofList 0 (r.block h h')).slice 0 (BitVec.ofNat 32 r.words).toNat
      = r.block h h' := by
    rw [hn, ← Request.length_block h h' hmsem htype, Mem.slice_ofList]
  have hu : ∀ i, i < s.table.entries →
      ¬Unchecked (s.table.entry i) r.address.toNat (BitVec.ofNat 32 r.words).toNat := by
    rw [hn]
    exact hchecked htype
  obtain ⟨t, hrun, hsame, himage⟩ :=
    s.storable.blockWrite (h := h') (Mem.ofList 0 (r.block h h')) hu
  rw [hslice] at hrun himage
  obtain ⟨hba, htable⟩ := StoredTable.blockWrite_eq hrun
  rw [hba, htable]
  refine ⟨?_, hsame, himage⟩
  unfold storeWrite FieldMap.write writeReply
  cases hr : (s.table.fields h').refusal s.table.image r.address.toNat (r.block h h') with
  | none => rfl
  | some refusal =>
    cases refusal with
    | hole x => rfl
    | field i =>
      obtain ⟨-, -, hbad⟩ := FieldMap.spoils_of_refusal hr
      exact statusReply_refused hbad trx _

end Request

/-- **A write is acknowledged where nothing is wrong with its block.** -/
theorem writeReply_ack {t : RegisterTable δ} {m : Mem RegisterAtom} {r : Request} :
    (writeReply h h' t m r).code = .ack ↔
      (t.fields h').refusal m r.address.toNat (r.block h h') = none := by
  unfold writeReply
  cases (t.fields h').refusal m r.address.toNat (r.block h h') with
  | none => exact iff_of_true rfl rfl
  | some refusal =>
    refine iff_of_false ?_ (Option.some_ne_none _)
    cases refusal with
    | hole x => nofun
    | field i =>
      simp only [addressReply]
      split <;> nofun

/-- **What the service leaves in the memory**: the block of a write that is not refused. -/
theorem registerServe_memory (h h' : Host) (room : Nat) (t : RegisterTable δ)
    (s : BitVec 16 × Mem RegisterAtom) (r : Request) :
    (registerServe h h' room t s r).2.2 =
      if r.msem = .bit16 ∧ r.type = .writeRequest then
        ((t.fields h').write s.2 r.address.toNat (r.block h h')).2
      else s.2 := by
  show replay s.2 (Answered.written h h' _) = _
  unfold Answered.written registerReply
  by_cases hmsem : r.msem = .bit16
  · by_cases htype : r.type = .writeRequest
    · have hread : r.type ≠ .readRequest := by
        rw [htype]
        nofun
      rw [if_neg (not_not.mpr hmsem), if_neg hread, if_pos (And.intro hmsem htype)]
      cases hr : (t.fields h').refusal s.2 r.address.toNat (r.block h h') with
      | none =>
        rw [if_pos ⟨htype, writeReply_ack.mpr hr⟩, FieldMap.write_none hr]
        rfl
      | some refusal =>
        have hack : (writeReply h h' t s.2 r).code ≠ .ack := fun hack =>
          Option.some_ne_none _ (hr.symm.trans (writeReply_ack.mp hack))
        rw [if_neg fun hw => hack hw.2, FieldMap.write_some hr]
        rfl
    · rw [if_neg fun hw => htype hw.1, if_neg fun hw => htype hw.2]
      rfl
  · rw [if_pos hmsem, if_neg fun hw => RPResponse.noConfusion hw.2, if_neg fun hw => hmsem hw.1]
    rfl

section Reply

variable {s : StoredTable δ} {r : Request} {room : Nat}

theorem registerAccessors_reply_read (hmsem : r.msem = .bit16) (htype : r.type = .readRequest) :
    (RPMemory.m16 (registerAccessors δ h')).reply h h' room s r =
      if room < r.words * 2 then (addressReply h' .etxoverflow room, s)
      else (statusReply h' (BitVec.ofNat 32 room) (s.blockRead r.address r.words).1
        (wordOctets h' (s.blockRead r.address r.words).2.1),
        (s.blockRead r.address r.words).2.2) := by
  have hsize : ¬r.msem ≠ (RPMemory.m16 (registerAccessors δ h')).type.msem := not_not.mpr hmsem
  unfold RPMemory.reply
  dsimp only
  rw [if_neg hsize, if_pos htype]
  rfl

theorem registerAccessors_reply_write (hmsem : r.msem = .bit16) (htype : r.type = .writeRequest) :
    (RPMemory.m16 (registerAccessors δ h')).reply h h' room s r =
      (statusReply h' (BitVec.ofNat 32 room)
          (s.blockWrite h' r.address r.words (r.block h h')).1 [],
        (s.blockWrite h' r.address r.words (r.block h h')).2) := by
  have hread : r.type ≠ .readRequest := by
    rw [htype]
    nofun
  have hsize : ¬r.msem ≠ (RPMemory.m16 (registerAccessors δ h')).type.msem := not_not.mpr hmsem
  unfold RPMemory.reply
  dsimp only
  rw [if_neg hsize, if_neg hread]
  rfl

/-- **The service of a table is that of its memory.** -/
theorem registerAccessors_reply (h h' : Host) (room : Nat) (hwords : r.words < 2 ^ 32)
    (hchecked : r.Checked s.table) (seqno : BitVec 16) :
    let run := (RPMemory.m16 (registerAccessors δ h')).reply h h' room s r
    run.1 = registerReply h h' room s.table s.table.image r ∧ SameTable s.table run.2.table ∧
      run.2.table.image = (registerServe h h' room s.table (seqno, s.table.image) r).2.2 := by
  dsimp only
  rw [registerServe_memory]
  unfold registerReply
  by_cases hmsem : r.msem = .bit16
  · rw [if_neg (not_not.mpr hmsem)]
    by_cases htype : r.type = .writeRequest
    · have hread : r.type ≠ .readRequest := by
        rw [htype]
        nofun
      rw [registerAccessors_reply_write hmsem htype, if_neg hread, if_pos (And.intro hmsem htype)]
      exact StoredTable.write_reply hwords hmsem htype hchecked _
    · have hread : r.type = .readRequest := not_not.mp fun hr => htype (r.type_write.mpr hr)
      have hkept : ¬(r.msem = .bit16 ∧ r.type = .writeRequest) := fun hw => htype hw.2
      rw [registerAccessors_reply_read hmsem hread, if_pos hread, if_neg hkept]
      by_cases hroom : room < r.words * 2
      · unfold readReply
        rw [if_pos hroom, if_pos hroom]
        exact ⟨rfl, .refl _, rfl⟩
      · obtain ⟨hreply, hsame⟩ := StoredTable.read_reply hwords h' hroom
        rw [if_neg hroom, hsame]
        exact ⟨hreply, .refl _, rfl⟩
  · have hreply : (RPMemory.m16 (registerAccessors δ h')).reply h h' room s r
        = ({ code := .ewordsize, payload := [] }, s) := if_pos hmsem
    rw [hreply, if_pos hmsem, if_neg fun hw => hmsem hw.1]
    exact ⟨rfl, .refl _, rfl⟩

end Reply

/-! ## 4. Requests one after the other -/

theorem SameTable.registerServe {t u : RegisterTable δ} (hs : SameTable t u) (h h' : Host)
    (room : Nat) : Ufw.registerServe h h' room u = Ufw.registerServe h h' room t := by
  rw [hs]
  rfl

theorem SameTable.checked {t u : RegisterTable δ} (hs : SameTable t u) {r : Request}
    (hr : r.Checked t) : r.Checked u := by
  rw [hs]
  exact hr

/-- **A run of the service of a table is one of its memory.** -/
theorem registerAccessors_run {s : StoredTable δ} {l : List Request}
    (hl : ∀ r ∈ l, r.words < 2 ^ 32 ∧ r.Checked s.table) (h h' : Host) (room : Nat)
    (seqno : BitVec 16) :
    let serve := (RPMemory.m16 (registerAccessors δ h')).serve h h' room
    let spec := registerServe h h' room s.table
    answers serve (seqno, s) l = answers spec (seqno, s.table.image) l ∧
      SameTable s.table (after serve (seqno, s) l).2.table ∧
      (after serve (seqno, s) l).2.table.image = (after spec (seqno, s.table.image) l).2 := by
  dsimp only
  have hstep : ∀ (u : BitVec 16 × StoredTable δ) (v : BitVec 16 × Mem RegisterAtom) (r : Request),
      (u.1 = v.1 ∧ SameTable s.table u.2.table ∧ u.2.table.image = v.2) →
      (r.words < 2 ^ 32 ∧ r.Checked s.table) →
      ((RPMemory.m16 (registerAccessors δ h')).serve h h' room u r).1
          = id (registerServe h h' room s.table v r).1 ∧
        ((RPMemory.m16 (registerAccessors δ h')).serve h h' room u r).2.1
          = (registerServe h h' room s.table v r).2.1 ∧
        SameTable s.table ((RPMemory.m16 (registerAccessors δ h')).serve h h' room u r).2.2.table ∧
        ((RPMemory.m16 (registerAccessors δ h')).serve h h' room u r).2.2.table.image
          = (registerServe h h' room s.table v r).2.2 := by
    rintro ⟨seqno, u⟩ ⟨seqno', m⟩ r ⟨rfl, hs, rfl⟩ ⟨hwords, hchecked⟩
    obtain ⟨hreply, hsame, himage⟩ := registerAccessors_reply h h' room hwords
      (hs.checked hchecked) seqno
    have hanswer : registerReply h h' room u.table u.table.image r
        = registerReply h h' room s.table u.table.image r := congrArg (fun f =>
      (f (seqno, u.table.image) r).1.reply) (hs.registerServe h h' room)
    rw [hs.registerServe] at himage
    refine ⟨?_, rfl, hs.trans hsame, himage⟩
    exact congrArg (Answered.mk seqno r) (hreply.trans hanswer)
  obtain ⟨hanswers, -, hsame, himage⟩ := simulated_run (s := (seqno, s))
    (t := (seqno, s.table.image)) hstep ⟨rfl, .refl s.table, rfl⟩ hl
  rw [List.map_id] at hanswers
  exact ⟨hanswers, hsame, himage⟩

section Answers

variable {t : RegisterTable δ} {room : Nat}

/-- **The memory behind requests** holds what was written last by those acknowledged. -/
theorem registerServe_after (h h' : Host) (s : BitVec 16 × Mem RegisterAtom) (l : List Request) :
    (after (registerServe h h' room t) s l).2
      = wordsAfter h h' s.2 (answers (registerServe h h' room t) s l) := by
  have hfold : ∀ (as : List Answered) (s : BitVec 16 × Mem RegisterAtom),
      (as.foldl (fun s a => (s.1 + 1, replay s.2 (a.written h h'))) s).2
        = replay s.2 (as.flatMap (Answered.written h h')) := by
    intro as
    induction as with
    | nil => exact fun s => rfl
    | cons a as ih =>
      intro s
      rw [List.foldl_cons, ih, List.flatMap_cons, replay_append]
  have hnext : ∀ (s : BitVec 16 × Mem RegisterAtom) (r : Request),
      (registerServe h h' room t s r).2 =
        (s.1 + 1, replay s.2 ((registerServe h h' room t s r).1.written h h')) := fun _ _ => rfl
  rw [after_told (f := fun s a => (s.1 + 1, replay s.2 (a.written h h'))) hnext, hfold]
  exact funext (replay_apply _ _)

theorem registerServe_requests (h h' : Host) (s : BitVec 16 × Mem RegisterAtom)
    (l : List Request) : (answers (registerServe h h' room t) s l).map Answered.request = l := by
  induction l generalizing s with
  | nil => rfl
  | cons r l ih => rw [answers_cons, List.map_cons, ih]; rfl

/-- **An answer is told by those before it.** -/
theorem registerServe_explains {s : BitVec 16 × Mem RegisterAtom} {l : List Request}
    {before rest : List Answered} {a : Answered}
    (ha : answers (registerServe h h' room t) s l = before ++ a :: rest) :
    a.reply = registerReply h h' room t (wordsAfter h h' s.2 before) a.request := by
  obtain ⟨l₁, r, l₂, -, hbefore, hlast⟩ := answers_split ha
  rw [← hlast, ← hbefore, ← registerServe_after]
  rfl

/-- A register that holds an accepted value holds one behind any requests. -/
theorem registerServe_sane (h h' : Host) (room : Nat) {s : BitVec 16 × Mem RegisterAtom} {i : Nat}
    (hi : i < t.entries) (hs : (t.fields h').Sane s.2 i) (l : List Request) :
    (t.fields h').Sane (after (registerServe h h' room t) s l).2 i := by
  have hstep : ∀ (s : BitVec 16 × Mem RegisterAtom) (r : Request), (t.fields h').Sane s.2 i →
      (t.fields h').Sane (registerServe h h' room t s r).2.2 i := by
    intro s r hs
    rw [registerServe_memory]
    split
    · exact hs.write hi _ _
    · exact hs
  exact after_keeps (I := fun s : BitVec 16 × Mem RegisterAtom => (t.fields h').Sane s.2 i)
    hstep hs l

end Answers

/-! ## 5. Sessions -/

section Session

variable {σ τ μ α σ' τ' α' : Type}

/-- The block sizes of the requests of a run fit their field. -/
theorem Session.asked_words {μ' : Type} {sent : τ → List Octet} {sent' : τ' → List Octet}
    {upLine : Line σ'} {downLine : Line σ} {s s' : Session σ τ μ α σ' τ' μ' α'}
    {ms : List (Move Request RPMaybeFrame)}
    (hrun : Course (Session.Step h h' sent sent' upLine downLine) s ms s') :
    ∀ r ∈ Move.asked ms, r.words < 2 ^ 32 := by
  induction hrun with
  | nil => exact fun r hr => absurd hr List.not_mem_nil
  | cons head _ ih =>
    cases head with
    | request fits ret out => exact List.forall_mem_cons.mpr ⟨fits.words, ih⟩
    | serve arrived recv read process out => exact ih
    | collect arrived recv read out => exact ih

/-- **A register table behind a server is a memory with registers, whatever is on its way.** In
    every run of a session: the frames the client has received are the replies to the first of its
    requests; each reply is the one that the words make that were written last by the writes
    acknowledged before it; the table holds the words written last by all that were acknowledged;
    and a register that held an accepted value in the beginning holds one. -/
theorem register_session (h h' : Host) (sent : τ → List Octet) (sent' : τ' → List Octet)
    (upLine : Line σ') (downLine : Line σ) (Idle : BlockAllocator α → Prop)
    (Idle' : BlockAllocator α' → Prop) (hI : Recycles Idle) (hI' : Recycles Idle')
    (ep : RPEndpointType) (room room' : Nat) (hroom : h.sizeofRPFrame + rpHeaderSize + 4 ≤ room)
    (s₀ s : Session σ τ μ α σ' τ' (StoredTable δ) α')
    (hmem : s₀.server.memory = .m16 (registerAccessors δ h'))
    (hs : s₀.Starts sent sent' Idle Idle' ep room room') (ms : List (Move Request RPMaybeFrame))
    (hrun : Course (Session.Step h h' sent sent' upLine downLine) s₀ ms s)
    (hchecked : ∀ r ∈ Move.asked ms, r.Checked s₀.server.mem.table) :
    let t := s₀.server.mem.table
    ∃ taken ready waiting,
      Move.asked ms = (taken ++ ready).map Answered.request ++ waiting ∧
      (s.up = [] ↔ waiting = []) ∧ (s.down = [] ↔ ready = []) ∧
      List.Forall₂ IsAnswer (Move.collected ms) taken ∧
      (∀ before a rest, taken ++ ready = before ++ a :: rest →
        a.reply = registerReply h h' (room' - h'.sizeofRPFrame) t (wordsAfter h h' t.image before)
          a.request) ∧
      SameTable t s.server.mem.table ∧
      s.server.mem.table.image = wordsAfter h h' t.image (taken ++ ready) ∧
      ∀ i, i < t.entries → (t.fields h').Sane t.image i →
        (t.fields h').Sane s.server.mem.table.image i := by
  have hunderstood : s₀.server.memory.Understandable h' := by
    rw [hmem]
    exact registerAccessors_understandable δ h'
  obtain ⟨ks, a, hrel, hmoves, hM⟩ := hs.run hI hI' hunderstood hroom hrun
  obtain ⟨served, hasked, hstate, hready⟩ := Pipeline.course_sequential hmoves
  have hall : Move.asked ms = served ++ a.waiting := (Move.related_asked hrel).trans hasked
  have hl : ∀ r ∈ served, r.words < 2 ^ 32 ∧ r.Checked s₀.server.mem.table := by
    intro r hr
    have hin : r ∈ Move.asked ms := by
      rw [hall]
      exact List.mem_append_left _ hr
    exact ⟨Session.asked_words hrun r hin, hchecked r hin⟩
  obtain ⟨hanswers, hsame, himage⟩ := registerAccessors_run hl h h' (room' - h'.sizeofRPFrame)
    s₀.client.sequence
  have hservice : s₀.service h h' room' = (RPMemory.m16 (registerAccessors δ h')).serve h h'
      (room' - h'.sizeofRPFrame) := congrArg (serveOf h h' room') hmem
  have hmem' : s.server.mem = (after ((RPMemory.m16 (registerAccessors δ h')).serve h h'
      (room' - h'.sizeofRPFrame)) (s₀.client.sequence, s₀.server.mem) served).2 := by
    rw [hM.mem, hstate, hservice]
    rfl
  have htold : answers (registerServe h h' (room' - h'.sizeofRPFrame) s₀.server.mem.table)
      (s₀.client.sequence, s₀.server.mem.table.image) served = Move.collected ks ++ a.ready := by
    rw [← hanswers, ← hservice]
    exact hready
  rw [hmem']
  refine ⟨Move.collected ks, a.ready, a.waiting, ?_, hM.lines.1, hM.lines.2,
    Move.related_collected hrel, ?_, hsame, ?_, ?_⟩
  · rw [hall, ← htold, registerServe_requests]
  · intro before o rest ho
    have hreply := registerServe_explains (htold.trans ho)
    exact hreply
  · rw [himage, registerServe_after, htold]
  · intro i hi hsane
    rw [himage]
    exact registerServe_sane h h' (room' - h'.sizeofRPFrame)
      (s := (s₀.client.sequence, s₀.server.mem.table.image)) hi hsane served

end Session

/-- Peers on the two ends of a line: the server has the registers of the sample table. -/
def registerSlabSession : Session (List Octet) (List Octet) (Mem (BitVec 16)) Bool
    (List Octet) (List Octet) (StoredTable Unit) Bool where
  client := slabInstance
  server := { slabInstance with
    memory := .m16 (registerAccessors Unit lp64Host)
    mem := ⟨initialTable lp64Host sampleTable, sampleTable_storable⟩ }
  up := []
  down := []
  calls := []

/-- A write across two registers, a read of what was written, and a read behind the table. -/
def registerSlabRequests : List Request := [.write16 1 [5, 6], .read16 1 2, .read16 5 4]

theorem register_session_slab : ∃ ms s taken ready waiting,
    Course (Session.Step lp64Host lp64Host id id streamLine streamLine) registerSlabSession ms s ∧
      Move.asked ms = registerSlabRequests ∧ s.up = [] ∧ s.down = [] ∧
      Move.asked ms = (taken ++ ready).map Answered.request ++ waiting ∧
      List.Forall₂ IsAnswer (Move.collected ms) taken ∧
      ∀ before a rest, taken ++ ready = before ++ a :: rest →
        a.reply = registerReply lp64Host lp64Host (256 - lp64Host.sizeofRPFrame)
          (initialTable lp64Host sampleTable)
          (wordsAfter lp64Host lp64Host (initialTable lp64Host sampleTable).image before)
          a.request := by
  have hstarts : registerSlabSession.Starts id id (fun ba => ba = slabAllocator)
      (fun ba => ba = slabAllocator) .serial 256 256 :=
    { client := ⟨rfl, collectSink_accepting [], rfl, rfl⟩
      server := ⟨rfl, collectSink_accepting [], rfl, rfl⟩
      up := rfl
      down := rfl
      calls := rfl }
  have hfit : ∀ r ∈ registerSlabRequests, r.Fits lp64Host lp64Host 256 256
      registerSlabSession.server.memory := by
    intro r hr
    simp only [registerSlabRequests, List.mem_cons, List.not_mem_nil, or_false] at hr
    rcases hr with rfl | rfl | rfl
    · exact ⟨by decide, by decide, nofun⟩
    · exact ⟨by decide, by decide, fun _ => .inl (by decide)⟩
    · exact ⟨by decide, by decide, fun _ => .inl (by decide)⟩
  obtain ⟨ms, s, hmoves, hasked, hup, hdown⟩ := hstarts.quiets slabAllocator_recycles
    slabAllocator_recycles (registerAccessors_understandable Unit lp64Host) (by decide) streamLine
    streamLine hfit
  have hchecked : ∀ r ∈ Move.asked ms, r.Checked registerSlabSession.server.mem.table := by
    intro r hr
    rw [hasked] at hr
    simp only [registerSlabRequests, List.mem_cons, List.not_mem_nil, or_false] at hr
    rcases hr with rfl | rfl | rfl
    · rintro - i - ⟨-, -, hone⟩
      exact absurd hone (by decide)
    · exact nofun
    · exact nofun
  obtain ⟨taken, ready, waiting, hall, -, -, hanswers, hreplies, -⟩ := register_session lp64Host
    lp64Host id id streamLine streamLine _ _ slabAllocator_recycles slabAllocator_recycles .serial
    256 256 (by decide) registerSlabSession s rfl hstarts ms hmoves hchecked
  exact ⟨ms, s, taken, ready, waiting, hmoves, hasked, hup, hdown, hall, hanswers, hreplies⟩

end Ufw
