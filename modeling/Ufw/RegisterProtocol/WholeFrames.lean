/-
  File:      Ufw/RegisterProtocol/WholeFrames.lean
  Subject:   REGISTER PROTOCOL: any octets on a serial line, over any number of calls.

  * `SlipRead` -- what the decoder makes of a stream, from the beginning of a frame on;
  * `FrameStart` -- THE INVARIANT between two calls: the next octet is the first of a frame. A
    broken escape sequence breaks it, because every call begins with a context of its own;
  * `regpRecv_wholeFrames` -- **what a call parses is a whole frame of the stream**, in every run
    without such a sequence and without frames that are too long for their block.
-/
import Ufw.RegisterProtocol.Framing

namespace Ufw

open Base

variable {σ τ μ α : Type}

/-! ## 1. Streams of any octets -/

/-- **What the decoder reads of a stream**, from the beginning of a frame on, in classic mode: the
    octets `v`, up to a delimiter, a broken escape sequence or the end of the stream. -/
inductive SlipRead : List Octet → Rc → List Octet → List Octet → Prop where
  | frame (v rest : List Octet) : SlipRead (slipBody v ++ rawEof :: rest) (.ok 1) rest v
  | broken {o : Octet} (v rest : List Octet) (h1 : o ≠ escEof) (h2 : o ≠ escEsc) :
      SlipRead (slipBody v ++ rawEsc :: o :: rest) (.error .eilseq) rest v
  | ended (v : List Octet) : SlipRead (slipBody v) (.error .enodata) [] v
  | endedEsc (v : List Octet) : SlipRead (slipBody v ++ [rawEsc]) (.error .enodata) [] v

theorem length_le_slipBody (v : List Octet) : v.length ≤ (slipBody v).length := by
  induction v with
  | nil => exact Nat.le_refl 0
  | cons o v ih =>
    have hpos : 0 < (slipEscape o).length := by
      unfold slipEscape
      split
      · decide
      · split <;> exact Nat.zero_lt_succ _
    rw [slipBody_cons, List.length_append, List.length_cons]
    omega

theorem SlipRead.put {stream rest v : List Octet} {rc : Rc} (o : Octet)
    (hr : SlipRead stream rc rest v) : SlipRead (slipEscape o ++ stream) rc rest (o :: v) := by
  cases hr with
  | frame | broken v rest h1 h2 | endedEsc =>
    rw [← List.append_assoc, ← slipBody_cons]
    first
      | exact .frame _ _
      | exact .broken _ _ h1 h2
      | exact .endedEsc _
  | ended =>
    rw [← slipBody_cons]
    exact .ended _

/-- A call of the decoder, octet by octet. -/
theorem rfc1055Decode_stream (h : Host) {fuel : Nat} {stream w : List Octet}
    {r : Rc × Rfc1055Context × Source (List Octet) × Sink (List Octet)}
    (hr : rfc1055Decode h fuel rfc1055ContextInitDefault (streamSource stream) (collectSink w) =
      .ok r) :
    ∃ rest v, SlipRead stream r.1 rest v ∧ r.2.2.1 = streamSource rest ∧
      r.2.2.2 = collectSink (w ++ v) := by
  induction fuel generalizing stream w with
  | zero => cases hr
  | succ fuel ih =>
    -- an octet is put, and the rest is read by the next pass of the loop
    have hput : ∀ {o : Octet} {m : Nat} {l : List Octet},
        rfc1055DecodeOctet h (streamSource stream) = (.ok (m + 1), o, streamSource l) →
        stream = slipEscape o ++ l →
        ∃ rest v, SlipRead stream r.1 rest v ∧ r.2.2.1 = streamSource rest ∧
          r.2.2.2 = collectSink (w ++ v) := by
      intro o m l hoct hstream
      simp only [rfc1055Decode, rfc1055ContextInitDefault, hoct, sinkPutOctet_collect, ok_bind]
        at hr
      obtain ⟨rest, v, hread, h1, h2⟩ := ih hr
      refine ⟨rest, o :: v, hstream ▸ hread.put o, h1, ?_⟩
      rw [h2, List.append_assoc]
      rfl
    cases stream with
    | nil =>
      cases hr
      exact ⟨[], [], .ended [], rfl, by rw [List.append_nil]⟩
    | cons o l =>
      by_cases hesc : o = rawEsc
      · subst hesc
        cases l with
        | nil =>
          cases hr
          exact ⟨[], [], .endedEsc [], rfl, by rw [List.append_nil]⟩
        | cons o l =>
          have hget : sourceGetOctet (streamSource (rawEsc :: o :: l))
              = (.ok (some rawEsc), streamSource (o :: l)) := rfl
          have hoct := rfc1055DecodeOctet_esc h hget rfl
          by_cases h1 : o = escEof
          · rw [if_pos h1] at hoct
            subst h1
            exact hput hoct rfl
          · by_cases h2 : o = escEsc
            · rw [if_neg h1, if_pos h2] at hoct
              subst h2
              exact hput hoct rfl
            · rw [if_neg h1, if_neg h2] at hoct
              simp only [rfc1055Decode, rfc1055ContextInitDefault, hoct] at hr
              cases hr
              exact ⟨l, [], .broken [] l h1 h2, rfl, by rw [List.append_nil]⟩
      · by_cases heof : o = rawEof
        · subst heof
          cases hr
          exact ⟨l, [], .frame [] l, rfl, by rw [List.append_nil]⟩
        · refine hput (rfc1055DecodeOctet_plain h rfl hesc heof) ?_
          unfold slipEscape
          rw [if_neg hesc, if_neg heof]
          rfl

theorem lineRead_stream (h : Host) {fuel : Nat} {stream v : List Octet} {rc : Rc}
    {source' : Source (List Octet)}
    (hr : lineRead h fuel .serial (streamSource stream) = .ok (rc, source', v)) :
    ∃ rest, SlipRead stream rc rest v ∧ source' = streamSource rest := by
  obtain ⟨⟨rc₁, ctx₁, source₁, sink₁⟩, hdec, hres⟩ := bind_eq_ok hr
  obtain ⟨rest, w, hread, h1, h2⟩ := rfc1055Decode_stream h hdec
  cases hres
  dsimp only at hread h1 h2
  subst h2
  exact ⟨rest, hread, h1⟩

/-! ## 2. One call -/

/-- The octets of a frame, header and payload. -/
def frameOctets (f : RPFrame) : List Octet := f.memory.slice 0 f.rawSize

/-- **A whole frame of the stream**: what stands between two delimiters, or between the beginning of
    the stream and its first delimiter, is the frame `f` on the line; `rest` is what follows. -/
def WholeFrame (stream rest : List Octet) (f : RPFrame) : Prop :=
  ∃ front, stream = front ++ (lineEncode .serial (frameOctets f) ++ rest) ∧
    (front = [] ∨ front.getLast? = some rawEof)

/-- **The invariant**: the rest of the stream begins with a frame, or has none that ends. -/
def FrameStart (stream rest : List Octet) : Prop :=
  rawEof ∉ rest ∨ ∃ front, stream = front ++ rest ∧ (front = [] ∨ front.getLast? = some rawEof)

/-- The next frame is torn: a broken escape sequence stands before its end. -/
def TornFrame (rest : List Octet) : Prop :=
  ∃ v o back, rest = slipBody v ++ rawEsc :: o :: back ∧ o ≠ escEof ∧ o ≠ escEsc ∧ o ≠ rawEof ∧
    rawEof ∈ back

/-- The next frame is cut: it is too long for the block that is allocated for it. -/
def CutFrame (h : Host) (p : RegP σ τ μ α) (rest : List Octet) : Prop :=
  ∃ v back block, rest = slipBody v ++ rawEof :: back ∧ (blockAlloc p.alloc).1 = .ok block ∧
    p.alloc.blocksize < h.sizeofRPFrame + v.length

/-- A call of `regp_recv` on a serial line, with blocks as `setup_buffer` asserts. -/
structure Recvs (h : Host) (p : RegP σ τ μ α) (mf : RPMaybeFrame) (p' : RegP σ τ μ α) : Prop where
  channel : p.epType = .serial
  room : h.sizeofRPFrame < p.alloc.blocksize
  ret : ∃ fuel rc, regpRecv h fuel p = .ok (rc, mf, p')

/-- The next frame of the stream an instance reads is neither torn nor cut. -/
def Intact (h : Host) (p : RegP (List Octet) τ μ α) : Prop :=
  ∀ rest, p.source = streamSource rest → ¬TornFrame rest ∧ ¬CutFrame h p rest

section Calls

variable {h : Host} {p p' : RegP (List Octet) τ μ α} {mf : RPMaybeFrame}
  {stream rest rest' v : List Octet} {rc : Rc}

/-- Behind a frame, a frame begins. -/
theorem FrameStart.behind {front : List Octet} (hs : stream = front ++ rawEof :: rest) :
    FrameStart stream rest :=
  .inr ⟨front ++ [rawEof], by rw [hs, List.append_assoc]; rfl, .inr List.getLast?_concat⟩

/-- **What is read leaves the beginning of a frame behind**, unless the frame is torn. -/
theorem FrameStart.read (hstart : FrameStart stream rest) (hr : SlipRead rest rc rest' v)
    (htorn : ¬TornFrame rest) : FrameStart stream rest' := by
  cases hr with
  | frame v =>
    rcases hstart with hnone | ⟨front, hs, -⟩
    · exact absurd (List.mem_append_right _ List.mem_cons_self) hnone
    · rw [← List.append_assoc] at hs
      exact .behind hs
  | @broken o v rest h1 h2 =>
    rcases hstart with hnone | ⟨front, hs, -⟩
    · refine .inl fun hm => hnone ?_
      exact List.mem_append_right _ (List.mem_cons_of_mem _ (List.mem_cons_of_mem _ hm))
    · by_cases heof : o = rawEof
      · -- the escape sequence takes the delimiter with it
        subst heof
        refine @FrameStart.behind _ _ (front ++ (slipBody v ++ [rawEsc])) ?_
        rw [hs, List.append_assoc, List.append_assoc]
        rfl
      · exact .inl fun hm => htorn ⟨v, o, rest', rfl, h1, h2, heof, hm⟩
  | ended => exact .inl List.not_mem_nil
  | endedEsc => exact .inl List.not_mem_nil

/-- **A step of a run**: the call leaves the beginning of a frame behind, and the frame it parses is
    a whole one. -/
theorem Recvs.step (hret : Recvs h p mf p') (hsource : p.source = streamSource rest)
    (hstart : FrameStart stream rest) (hintact : Intact h p) :
    ∃ rest', p'.source = streamSource rest' ∧ FrameStart stream rest' ∧
      ∀ f, mf.frame = some f → WholeFrame stream rest' f := by
  obtain ⟨hchannel, hroom, fuel, rc, hr⟩ := hret
  obtain ⟨htorn, hcut⟩ := hintact rest hsource
  have hread : ∀ {rc source' v},
      lineRead h fuel p.epType p.source = .ok (rc, source', v) →
      ∃ rest', SlipRead rest rc rest' v ∧ source' = streamSource rest' := by
    intro rc source' v hread
    rw [hchannel, hsource] at hread
    exact lineRead_stream h hread
  cases regpRecv_cases hroom hr with
  | failed read =>
    obtain ⟨rest', hslip, rfl⟩ := hread read
    exact ⟨rest', rfl, hstart.read hslip htorn, fun f hf => nomatch hf⟩
  | busy read octets refused answer =>
    obtain ⟨rest', hslip, rfl⟩ := hread read
    obtain ⟨sink', rfl⟩ := sendMemory_sink answer
    exact ⟨rest', rfl, hstart.read hslip htorn, fun f hf => nomatch hf⟩
  | @parsed k block source' v alloc' rc mf p' read octets allocated parse =>
    obtain ⟨rest', hslip, rfl⟩ := hread read
    obtain ⟨-, hframe⟩ := recvParse_result parse
    obtain ⟨sink', rfl⟩ := recvParse_sink parse
    refine ⟨rest', rfl, hstart.read hslip htorn, fun f hf => ?_⟩
    cases hslip
    have hfit : ¬p.alloc.blocksize < h.sizeofRPFrame + v.length := fun hlt =>
      hcut ⟨v, rest', block, rfl, congrArg Prod.fst allocated, hlt⟩
    have hkept : recvKept h p v = v := List.take_of_length_le (by omega)
    have hmax := p.alloc.blocksize_le
    -- the octets of the frame are those that were read
    have hoct : frameOctets f = v := by
      obtain rfl := Option.some.inj (hf.symm.trans hframe)
      obtain ⟨-, hmem, hsize⟩ := parseFrame_raw h (recvBlock h block (recvKept h p v))
        (h.sizeofRPFrame + (recvKept h p v).length)
      unfold frameOctets
      rw [hmem, hsize, hkept, sizeSub_eq (Nat.le_add_right _ _) (by unfold ssizeMax at hmax; omega),
        Nat.add_sub_cancel_left]
      exact (csBuffer_holds h block (by omega)).octets
    rcases hstart with hnone | ⟨front, hs, hfront⟩
    · exact absurd (List.mem_append_right _ List.mem_cons_self) hnone
    · refine ⟨front, ?_, hfront⟩
      rw [hoct, hs]
      show _ = front ++ (([] ++ slipBody v ++ [rawEof]) ++ rest')
      rw [List.nil_append, List.append_assoc]
      rfl

end Calls

/-! ## 3. Runs -/

/-- **Calls on one stream**, in all of which the next frame is intact, as far as the source is
    concerned: between two of them the caller may do what it likes with the instance, but not read
    the source. -/
inductive IntactRun (h : Host) (stream : List Octet) (τ μ α : Type) : Source (List Octet) →
    Prop where
  | start : IntactRun h stream τ μ α (streamSource stream)
  | call {p p' : RegP (List Octet) τ μ α} {mf : RPMaybeFrame}
      (run : IntactRun h stream τ μ α p.source) (ret : Recvs h p mf p') (intact : Intact h p) :
      IntactRun h stream τ μ α p'.source

/-- A run stands at the beginning of a frame. -/
theorem IntactRun.frameStart {h : Host} {stream : List Octet} {source : Source (List Octet)}
    (hrun : IntactRun h stream τ μ α source) :
    ∃ rest, source = streamSource rest ∧ FrameStart stream rest := by
  induction hrun with
  | start => exact ⟨stream, rfl, .inr ⟨[], rfl, .inl rfl⟩⟩
  | call run ret intact ih =>
    obtain ⟨rest, hsource, hstart⟩ := ih
    obtain ⟨rest', hsource', hstart', -⟩ := ret.step hsource hstart intact
    exact ⟨rest', hsource', hstart'⟩

/-- **Only whole frames are parsed**: in every run of calls over any stream, none of which finds a
    torn frame or one that is cut, what a call parses is what stands between two delimiters of the
    stream, decoded; so the tail of a frame is never parsed. -/
theorem regpRecv_wholeFrames (h : Host) (stream : List Octet) (p p' : RegP (List Octet) τ μ α)
    (mf : RPMaybeFrame) (hrun : IntactRun h stream τ μ α p.source) (hret : Recvs h p mf p')
    (hintact : Intact h p) (f : RPFrame) (hf : mf.frame = some f) :
    ∃ rest, p'.source = streamSource rest ∧ WholeFrame stream rest f := by
  obtain ⟨rest, hsource, hstart⟩ := hrun.frameStart
  obtain ⟨rest', hsource', -, hwhole⟩ := hret.step hsource hstart hintact
  exact ⟨rest', hsource', hwhole f hf⟩

/-- A line with a request for one word: a call parses it, and without an error. -/
theorem recvs_wordRequest :
    ∃ mf p' f, Recvs lp64Host (ramInstance .serial (lineEncode .serial wordRequest)) mf p' ∧
      mf.errorId = none ∧ mf.frame = some f ∧ frameOctets f = wordRequest := by
  have hval : (parseFrame lp64Host (recvBlock lp64Host ⟨0, fun _ => 0⟩ wordRequest) 78).val.2 =
      .ok 0 := by decide +kernel
  have hblock : blockAlloc (ramInstance .serial (lineEncode .serial wordRequest)).alloc
      = (.ok ⟨0, fun _ => 0⟩, _) := rfl
  obtain ⟨n, hret⟩ := regpRecv_parsed (p := ramInstance .serial (lineEncode .serial wordRequest))
    nofun (l := wordRequest) (by decide) (by decide) (streamSource_delivers_all _)
    hblock (Returns.of_eq fun fuel =>
      recvParse_ok (h := lp64Host) (Prod.ext rfl hval) fuel _)
  refine ⟨_, _, _, ⟨rfl, by decide, n, _, hret n (le_refl n)⟩, rfl, rfl, ?_⟩
  obtain ⟨-, hmem, hsize⟩ := parseFrame_raw lp64Host
    (recvBlock lp64Host ⟨0, fun _ => 0⟩ wordRequest) 78
  unfold frameOctets
  rw [hmem, hsize]
  exact (csBuffer_holds lp64Host ⟨0, fun _ => 0⟩ (l := wordRequest) (by decide)).octets

/-- The request is read from the beginning of the stream. -/
theorem regpRecv_wholeFrames_wordRequest :
    ∃ mf p' f, Recvs lp64Host (ramInstance .serial (lineEncode .serial wordRequest)) mf p' ∧
      mf.frame = some f ∧
      ∃ rest, p'.source = streamSource rest ∧
        WholeFrame (lineEncode .serial wordRequest) rest f := by
  obtain ⟨mf, p', f, hret, -, hf, -⟩ := recvs_wordRequest
  have hintact : Intact lp64Host (ramInstance .serial (lineEncode .serial wordRequest)) := by
    intro rest hrest
    obtain rfl : lineEncode .serial wordRequest = rest := congrArg Source.driver hrest
    refine ⟨?_, ?_⟩
    · rintro ⟨v, o, back, he, -⟩
      have hmem : rawEsc ∈ lineEncode .serial wordRequest := by
        rw [he]
        exact List.mem_append_right _ List.mem_cons_self
      exact absurd hmem (by decide)
    · rintro ⟨v, back, block, he, -, hlt⟩
      have hv := length_le_slipBody v
      have hlen : 15 = (slipBody v ++ rawEof :: back).length := congrArg List.length he
      have hlt' : 256 < 64 + v.length := hlt
      rw [List.length_append] at hlen
      omega
  exact ⟨mf, p', f, hret, hf, regpRecv_wholeFrames lp64Host _ _ p' mf .start hret hintact f hf⟩

/-- **The tail of a rejected frame is parsed**: a broken escape sequence stands before a request.
    The first call fails, the second parses the octets behind the sequence. -/
theorem regpRecv_tail :
    Recvs lp64Host (ramInstance .serial ([0xdb, 0x07] ++ lineEncode .serial wordRequest))
      { errorId := none, framesize := 0, frame := none }
      (ramInstance .serial (lineEncode .serial wordRequest)) ∧
    ∃ mf p' f, Recvs lp64Host (ramInstance .serial (lineEncode .serial wordRequest)) mf p' ∧
      mf.errorId = none ∧ mf.frame = some f ∧
      ∀ rest, ¬WholeFrame ([0xdb, 0x07] ++ lineEncode .serial wordRequest) rest f := by
  refine ⟨⟨rfl, by decide, 1, .error .eilseq, rfl⟩, ?_⟩
  obtain ⟨mf, p', f, hret, herr, hf, hoct⟩ := recvs_wordRequest
  refine ⟨mf, p', f, hret, herr, hf, ?_⟩
  rintro rest ⟨front, he, hfront⟩
  rw [hoct] at he
  have hhead : lineEncode .serial wordRequest = 0x03 :: (lineEncode .serial wordRequest).tail := rfl
  have hlen := congrArg List.length he
  simp only [List.length_append, List.length_cons, List.length_nil] at hlen
  rcases front with _ | ⟨a, _ | ⟨b, front⟩⟩
  · rw [hhead] at he
    exact absurd (List.cons.inj he).1 (by decide)
  · obtain rfl : 0xdb = a := (List.cons.inj he).1
    exact absurd hfront (by decide)
  · rw [List.length_cons, List.length_cons] at hlen
    obtain rfl : front = [] := List.length_eq_zero_iff.mp (by omega)
    obtain rfl : 0xdb = a := (List.cons.inj he).1
    obtain rfl : 0x07 = b := (List.cons.inj (List.cons.inj he).2).1
    exact absurd hfront (by decide)

end Ufw
