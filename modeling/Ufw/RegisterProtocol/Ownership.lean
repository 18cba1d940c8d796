/-
  File:      Ufw/RegisterProtocol/Ownership.lean
  Subject:   REGISTER PROTOCOL: who owns a block that was allocated for a frame.

  * `ledgerAllocator` -- an allocator that keeps a ledger of the blocks it has handed out;
  * `regpFree` -- the function of the source;
  * `regpRecv_noLeak` -- a call hands out what it has allocated, unless the decoder fails late;
  * `regpRecv_ownership` -- **where no decoder fails behind the first octet of a frame, a caller
    that frees every frame it is given holds no block between two calls.**
-/
import Ufw.RegisterProtocol.Reception

namespace Ufw

open Base

variable {σ τ μ α : Type}

/-! ## 1. The ledger -/

/-- A block that was handed out is entered. -/
def ledgerNote (rc : Except Errno Block) (held : List Nat) : List Nat :=
  match rc with
  | .ok m => m.address :: held
  | .error _ => held

/-- The allocator `ba`, with a ledger: the addresses of the blocks it has handed out and not been
    given back. -/
def ledgerAllocator (ba : BlockAllocator α) (held : List Nat) : BlockAllocator (α × List Nat) where
  alloc := match ba.alloc with
    | .generic run => .generic fun (driver, held) n =>
      let (rc, driver) := run driver n
      (rc, (driver, ledgerNote rc held))
    | .slab run => .slab fun (driver, held) =>
      let (rc, driver) := run driver
      (rc, (driver, ledgerNote rc held))
  free := fun (driver, held) m => (ba.free driver m, held.erase m.address)
  driver := (ba.driver, held)
  blocksize := ba.blocksize
  blocksize_le := ba.blocksize_le

theorem blockAlloc_ledger (ba : BlockAllocator α) (held : List Nat) :
    blockAlloc (ledgerAllocator ba held) =
      ((blockAlloc ba).1, ledgerAllocator (blockAlloc ba).2
        (ledgerNote (blockAlloc ba).1 held)) := by
  obtain ⟨alloc, free, driver, blocksize, hle⟩ := ba
  cases alloc <;> rfl

theorem blockFree_ledger (ba : BlockAllocator α) (held : List Nat) (m : Block) :
    blockFree (ledgerAllocator ba held) m =
      ledgerAllocator (blockFree ba m) (held.erase m.address) := by
  obtain ⟨alloc, free, driver, blocksize, hle⟩ := ba
  cases alloc <;> rfl

/-- The block a frame stands in. What its front, the `RPFrame`, looks like is left open. -/
def frameBlock (h : Host) (f : RPFrame) : Block where
  address := f.address
  octets := fun i => if i < h.sizeofRPFrame then h.indeterminate else f.memory (i - h.sizeofRPFrame)

/-- `regp_free` -/
def regpFree (h : Host) (p : RegP σ τ μ α) (f : Option RPFrame) : RegP σ τ μ α :=
  match f with
  | none => p
  | some f => { p with alloc := blockFree p.alloc (frameBlock h f) }

/-! ## 2. Blocks that are held -/

section Held

variable {h : Host} {p p' : RegP σ τ μ (α × List Nat)}

/-- The blocks handed out by the allocator of an instance. -/
def RegP.held (p : RegP σ τ μ (α × List Nat)) : List Nat := p.alloc.driver.2

/-- The allocator of an instance keeps a ledger. -/
def RegP.Ledger (p : RegP σ τ μ (α × List Nat)) : Prop :=
  ∃ ba : BlockAllocator α, p.alloc = ledgerAllocator ba p.held

/-- **A call hands out what it has allocated**: the blocks held are those held before and that of
    the frame. -/
def NoLeak (h : Host) (p : RegP σ τ μ (α × List Nat)) : Prop :=
  ∀ fuel rc mf p', regpRecv h fuel p = .ok (rc, mf, p') →
    p'.held = mf.frame.toList.map RPFrame.address ++ p.held

/-- **No late error**: the decoder does not fail behind the first octet of a frame, unless there is
    no block for it anyway. -/
def NoLateError (h : Host) (p : RegP σ τ μ α) : Prop :=
  ∀ fuel e source' v, lineRead h fuel p.epType p.source = .ok (.error e, source', v) → v ≠ [] →
    ∃ e', (blockAlloc p.alloc).1 = .error e'

theorem RegP.Ledger.of_eq {ba : BlockAllocator α} {held : List Nat}
    (he : p.alloc = ledgerAllocator ba held) : p.Ledger ∧ p.held = held := by
  have hheld : p.held = held := by
    unfold RegP.held
    rw [he]
    rfl
  exact ⟨⟨ba, by rw [hheld]; exact he⟩, hheld⟩

/-- After an allocation the ledger goes on, with the block that was handed out. -/
theorem RegP.Ledger.alloc {ba : BlockAllocator α} (halloc : p.alloc = ledgerAllocator ba p.held)
    {rc : Except Errno Block} {alloc' : BlockAllocator (α × List Nat)}
    (hblock : blockAlloc p.alloc = (rc, alloc')) (he : p'.alloc = alloc') :
    p'.Ledger ∧ p'.alloc.blocksize = p.alloc.blocksize ∧ p'.held = ledgerNote rc p.held := by
  have hsize := blockAlloc_blocksize hblock
  have hstep := blockAlloc_ledger ba p.held
  rw [← halloc, hblock] at hstep
  obtain ⟨hrc, hled⟩ := Prod.mk.inj hstep
  rw [← hrc] at hled
  obtain ⟨hl, hheld⟩ := RegP.Ledger.of_eq (he.trans hled)
  exact ⟨hl, by rw [he, hsize], hheld⟩

/-- A call without a late error keeps the ledger, and hands out what it has allocated. -/
theorem regpRecv_ledger (hp : p.Ledger) (hroom : h.sizeofRPFrame < p.alloc.blocksize)
    (hclean : NoLateError h p) {fuel : Nat} {rc : Rc} {mf : RPMaybeFrame}
    (hr : regpRecv h fuel p = .ok (rc, mf, p')) :
    p'.Ledger ∧ p'.alloc.blocksize = p.alloc.blocksize ∧
      p'.held = mf.frame.toList.map RPFrame.address ++ p.held := by
  obtain ⟨ba, halloc⟩ := hp
  cases regpRecv_cases hroom hr with
  | @failed e source' v read =>
    by_cases hv : v = []
    · rw [if_pos hv]
      exact ⟨⟨ba, halloc⟩, rfl, rfl⟩
    · -- there is no block: the allocation has failed
      obtain ⟨e', he'⟩ := hclean fuel e source' v read hv
      exact RegP.Ledger.alloc halloc (Prod.ext he' rfl) (if_neg hv)
  | busy read octets refused answer =>
    obtain ⟨sink', rfl⟩ := sendMemory_sink answer
    exact RegP.Ledger.alloc halloc refused rfl
  | parsed read octets allocated parse =>
    obtain ⟨-, hframe⟩ := recvParse_result parse
    obtain ⟨sink', rfl⟩ := recvParse_sink parse
    rw [hframe, Option.toList_some, List.map_singleton, (parseFrame_raw h _ _).1]
    exact RegP.Ledger.alloc halloc allocated rfl

/-- **When a call hands out what it has allocated**: where there is no late error. -/
theorem noLeak_iff (hp : p.Ledger) (hroom : h.sizeofRPFrame < p.alloc.blocksize) :
    NoLeak h p ↔ NoLateError h p := by
  constructor
  · intro hleak fuel e source' v hread hv
    rcases hblock : blockAlloc p.alloc with ⟨e' | block, alloc'⟩
    · exact ⟨e', rfl⟩
    · -- the call returns what the decoder does, and the block is held then
      exfalso
      have hr : regpRecv h fuel p = .ok (.error e,
          { errorId := none, framesize := 0, frame := none },
          { p with source := source', alloc := alloc' }) := by
        rw [regpRecv, recvDecode_of_lineRead (recvSink_total hroom) hread
          (recvSink_fills hroom hblock hv), ok_bind]
        rfl
      obtain ⟨ba, halloc⟩ := hp
      have hsame : ({ p with source := source', alloc := alloc' } : RegP _ _ _ _).alloc = alloc' :=
        rfl
      obtain ⟨-, -, hheld⟩ := RegP.Ledger.alloc halloc hblock hsame
      have hlen := congrArg List.length ((hleak _ _ _ _ hr).symm.trans hheld)
      exact absurd hlen (Nat.ne_of_lt (Nat.lt_succ_self _))
  · intro hclean fuel rc mf p' hr
    exact (regpRecv_ledger hp hroom hclean hr).2.2

/-- `regp_free` gives back the block of a frame that was handed out. -/
theorem regpFree_ledger (hp : p.Ledger) {f : Option RPFrame} {held : List Nat}
    (hheld : p.held = f.toList.map RPFrame.address ++ held) :
    (regpFree h p f).Ledger ∧ (regpFree h p f).alloc.blocksize = p.alloc.blocksize ∧
      (regpFree h p f).held = held := by
  obtain ⟨ba, halloc⟩ := hp
  cases f with
  | none => exact ⟨⟨ba, halloc⟩, rfl, hheld⟩
  | some f =>
    have hfree : (regpFree h p (some f)).alloc =
        ledgerAllocator (blockFree ba (frameBlock h f)) held := by
      show blockFree p.alloc (frameBlock h f) = _
      rw [halloc, blockFree_ledger, hheld]
      show ledgerAllocator _ ((f.address :: held).erase f.address) = _
      rw [List.erase_cons_head]
    obtain ⟨hl, hh⟩ := RegP.Ledger.of_eq hfree
    exact ⟨hl, rfl, hh⟩

/-! ## 3. Runs -/

/-- Rounds of a caller: it calls `regp_recv`, may do anything with the frame but give it away, and
    calls `regp_free`. Each round begins in a state in which `C` holds. -/
inductive Rounds (h : Host) (C : RegP σ τ μ (α × List Nat) → Prop)
    (p₀ : RegP σ τ μ (α × List Nat)) : RegP σ τ μ (α × List Nat) → Prop
  | start : Rounds h C p₀ p₀
  | round {p p' q : RegP σ τ μ (α × List Nat)} {rc : Rc} {mf : RPMaybeFrame} (fuel : Nat)
      (run : Rounds h C p₀ p) (cond : C p) (recv : regpRecv h fuel p = .ok (rc, mf, p'))
      (free : q.alloc = (regpFree h p' mf.frame).alloc) : Rounds h C p₀ q

variable {p₀ : RegP σ τ μ (α × List Nat)}

/-- Rounds without late errors leave no block behind. -/
theorem Rounds.held (hp : p₀.Ledger) (hheld : p₀.held = [])
    (hroom : h.sizeofRPFrame < p₀.alloc.blocksize) (hrun : Rounds h (NoLateError h) p₀ p) :
    p.Ledger ∧ h.sizeofRPFrame < p.alloc.blocksize ∧ p.held = [] := by
  induction hrun with
  | start => exact ⟨hp, hroom, hheld⟩
  | @round p p' q rc mf fuel run cond recv free ih =>
    obtain ⟨hl, hr, hh⟩ := ih
    obtain ⟨hl₁, hsize₁, hh₁⟩ := regpRecv_ledger hl hr cond recv
    rw [hh] at hh₁
    obtain ⟨⟨ba, hba⟩, hsize₂, hh₂⟩ := regpFree_ledger (h := h) hl₁ hh₁
    have hq : q.alloc = ledgerAllocator ba [] := by rw [free, hba, hh₂]
    refine ⟨(RegP.Ledger.of_eq hq).1, ?_, (RegP.Ledger.of_eq hq).2⟩
    rw [free, hsize₂, hsize₁]
    exact hr

/-- **In a run without late errors no block stays allocated between two calls**, and in each state
    of it a call hands out what it allocates if there is no late error then, and only if. -/
theorem regpRecv_ownership (hp : p₀.Ledger) (hheld : p₀.held = [])
    (hroom : h.sizeofRPFrame < p₀.alloc.blocksize) (hrun : Rounds h (NoLateError h) p₀ p) :
    p.held = [] ∧ (NoLeak h p ↔ NoLateError h p) := by
  obtain ⟨hl, hr, hh⟩ := hrun.held hp hheld hroom
  exact ⟨hh, noLeak_iff hl hr⟩

end Held

/-- An instance whose allocator keeps a ledger. -/
def ledgerInstance (epType : RPEndpointType) (source : List Octet) :
    RegP (List Octet) (List Octet) (Mem (BitVec 16)) (Unit × List Nat) where
  memory := .m16 (ramAccess 16)
  mem := fun i => BitVec.ofNat 16 i
  sequence := 0
  epType := epType
  source := streamSource source
  sink := collectSink []
  alloc := ledgerAllocator pageAllocator []

set_option maxRecDepth 4000 in
/-- A frame of one octet is complete, and its header is not: there is a frame to free. -/
theorem regpRecv_ownership_short :
    ∃ rc mf p', regpRecv lp64Host 32 (ledgerInstance .serial [0x01, 0xc0]) = .ok (rc, mf, p') ∧
      p'.held = [0] ∧ (regpFree lp64Host p' mf.frame).held = [] := by
  have hp : (ledgerInstance .serial [0x01, 0xc0]).Ledger := ⟨pageAllocator, rfl⟩
  refine ⟨_, _, _, rfl, rfl, (regpRecv_ownership hp rfl (by decide)
    (.round 32 .start (fun fuel e source' v hread hv => ?_) rfl rfl)).1⟩
  match fuel with
  | 0 => cases hread
  | 1 => cases hread
  | _ + 2 => cases hread

/-- An escape sequence that is broken, and a stream that ends early. -/
theorem regpRecv_lateError :
    (∃ p, Rounds lp64Host (fun _ => True) (ledgerInstance .serial [0x01, 0xdb, 0x07]) p ∧
      p.held ≠ []) ∧
    (∃ p, Rounds lp64Host (fun _ => True) (ledgerInstance .tcp [0x02, 0x01]) p ∧ p.held ≠ []) := by
  refine ⟨⟨_, .round 8 .start trivial rfl rfl, ?_⟩,
    ⟨_, .round 8 .start trivial rfl rfl, ?_⟩⟩
  · show [0] ≠ []
    decide
  · show [0] ≠ []
    decide

end Ufw
