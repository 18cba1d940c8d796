/-
  File:      Ufw/RegisterProtocol/PayloadSize.lean
  Subject:   REGISTER PROTOCOL: how many octets the payload of a received frame has.

  * `expectedOctets` -- what a header promises: its block, in octets, or nothing;
  * `payloadPlausible_iff` -- `payload_plausible` counts whole words: with 16-bit words, one octet
    more passes as well;
  * `regpRecv_payloadSize_iff` -- **the payload of an accepted frame is what its header promises**,
    unless there is half a word more, or the frame was cut and what is left of it is as promised.
-/
import Ufw.RegisterProtocol.Protection

namespace Ufw

open Base

variable {σ τ μ α : Type}

/-! ## 1. What a header promises -/

/-- The octets of the payload a header promises. -/
def expectedOctets (f : RPFrame) : Nat :=
  match f.header.type with
  | .readResponse | .writeRequest => f.header.blocksize.toNat * frameWord f
  | _ => 0

theorem expectedOctets_bare {f : RPFrame} (ht : f.header.type.Bare) : expectedOctets f = 0 := by
  unfold expectedOctets
  rcases ht with ht | ht | ht <;> rw [ht]

theorem expectedOctets_block {f : RPFrame}
    (ht : f.header.type = .readResponse ∨ f.header.type = .writeRequest) :
    expectedOctets f = f.header.blocksize.toNat * frameWord f := by
  unfold expectedOctets
  rcases ht with ht | ht <;> rw [ht]

/-- A header that is accepted has a type. -/
theorem HeaderOk.type_cases {h : Host} {raw : Mem Octet} {n off : Nat} {header : RPHeader}
    (hok : HeaderOk h raw n header off) :
    header.type.Bare ∨ header.type = .readResponse ∨ header.type = .writeRequest := by
  have hmeta := hok.meta_ok
  unfold RPFrameType.Bare
  cases ht : header.type with
  | readRequest => exact .inl (.inl rfl)
  | readResponse => exact .inr (.inl rfl)
  | writeRequest => exact .inr (.inr rfl)
  | writeResponse => exact .inl (.inr (.inl rfl))
  | metaMessage => exact .inl (.inr (.inr rfl))
  | reserved code =>
    rw [ht] at hmeta
    cases hmeta

section Plausible

variable {f : RPFrame}
  (ht : f.header.type.Bare ∨ f.header.type = .readResponse ∨ f.header.type = .writeRequest)

include ht

/-- **The payload that passes**: what was promised, or half a word more. -/
theorem payloadPlausible_iff :
    payloadPlausible f = .ok 0 ↔ f.payloadSize = expectedOctets f ∨
      (frameWord f = 2 ∧ f.payloadSize = expectedOctets f + 1) := by
  have hact := actualsize_eq f
  rcases ht with ht | ht
  · rw [payloadPlausible_bare ht, expectedOctets_bare ht, hact]
    rcases frameWord_cases f with hw | hw <;> rw [hw] <;> split <;> simp <;> omega
  · rw [payloadPlausible_block ht, expectedOctets_block ht, hact]
    rcases frameWord_cases f with hw | hw <;> rw [hw] <;> split <;> simp <;> omega

/-- **Any other payload is EFAULT.** -/
theorem payloadPlausible_efault (hne : payloadPlausible f ≠ .ok 0) :
    payloadPlausible f = .error .efault := by
  rcases ht with ht | ht
  · rw [payloadPlausible_bare ht] at hne ⊢
    split at hne
    · exact absurd rfl hne
    · rename_i hsize
      exact if_neg hsize
  · rw [payloadPlausible_block ht] at hne ⊢
    split at hne
    · exact absurd rfl hne
    · rename_i hsize
      exact if_neg hsize

end Plausible

/-! ## 2. Received frames -/

/-- A frame stands in a block, with as many of its octets `v` as the block has room for. -/
structure ReceivedOctets (h : Host) (fuel : Nat) (p : RegP σ τ μ α) (v : List Octet)
    (block : Block) (used : Nat) : Prop where
  intro ::
  read : ∃ k source' block₀ alloc',
    lineRead h fuel p.epType p.source = .ok (.ok k, source', v) ∧ v ≠ [] ∧
    blockAlloc p.alloc = (.ok block₀, alloc') ∧ block = recvBlock h block₀ (recvKept h p v) ∧
    used = h.sizeofRPFrame + (recvKept h p v).length

/-- **The payload of a frame has the size its header promises**: it has in every frame that is
    accepted, and a frame with a good header and another payload is refused with EFAULT. The
    payload is all that the decoder has read behind the header. -/
structure SizesPayload (h : Host) (p : RegP σ τ μ α) : Prop where
  accepted : ∀ fuel k source' v rc mf p' f,
    lineRead h fuel p.epType p.source = .ok (.ok k, source', v) →
    regpRecv h fuel p = .ok (rc, mf, p') → mf.errorId = none → mf.frame = some f →
    v.length = f.payloadData + expectedOctets f
  refused : ∀ fuel k source' v rc mf p' f off,
    lineRead h fuel p.epType p.source = .ok (.ok k, source', v) →
    regpRecv h fuel p = .ok (rc, mf, p') → mf.frame = some f →
    HeaderOk h f.memory f.rawSize f.header off → v.length ≠ 2 * off + expectedOctets f →
    mf.errorId = some .efault

/-- **A payload of another size that passes**: with 16-bit words, half a word more than promised;
    or what was promised, in a frame that has lost its end because the block was full. -/
def Missized (h : Host) (p : RegP σ τ μ α) (v : List Octet) (f : RPFrame) : Prop :=
  (frameWord f = 2 ∧ f.payloadSize = expectedOctets f + 1) ∨
    (f.payloadSize = expectedOctets f ∧ (recvKept h p v).length < v.length)

/-- Such a frame is received, behind a header that is accepted. -/
def ReceivesMissized (h : Host) (p : RegP σ τ μ α) : Prop :=
  ∃ fuel v block used header off, ReceivedOctets h fuel p v block used ∧
    HeaderOk h (block.octets.shift h.sizeofRPFrame) (rawFrame h block used).rawSize header off ∧
    Missized h p v (headedFrame h block used header off)

section Received

variable {h : Host} {fuel : Nat} {p : RegP σ τ μ α} {v : List Octet} {block : Block} {used : Nat}

theorem ReceivedOctets.received (hrec : ReceivedOctets h fuel p v block used) :
    Received h fuel p block used := by
  obtain ⟨k, source', block₀, alloc', hread, hv, hblock, he, hused⟩ := hrec.read
  exact ⟨⟨k, source', v, block₀, alloc', hread, hv, hblock, he, hused⟩⟩

/-- A frame that is handed out was read from the line. -/
theorem Received.octets (hrec : Received h fuel p block used) {k : Nat} {source' : Source σ}
    (hread : lineRead h fuel p.epType p.source = .ok (.ok k, source', v)) :
    ReceivedOctets h fuel p v block used := by
  obtain ⟨k', source₁, v', block₀, alloc', hread', hv, hblock, he, hused⟩ := hrec.read
  rw [hread] at hread'
  cases hread'
  exact ⟨⟨k, source', block₀, alloc', hread, hv, hblock, he, hused⟩⟩

/-- The size of the payload, as the parser sees it. -/
theorem ReceivedOctets.payloadSize (hroom : h.sizeofRPFrame < p.alloc.blocksize)
    (hrec : ReceivedOctets h fuel p v block used) {header : RPHeader} {off : Nat}
    (hok : HeaderOk h (block.octets.shift h.sizeofRPFrame) (rawFrame h block used).rawSize
      header off) :
    2 * off + (headedFrame h block used header off).payloadSize = (recvKept h p v).length := by
  obtain ⟨k, source', block₀, alloc', -, -, -, -, rfl⟩ := hrec.read
  have hmax := p.alloc.blocksize_le
  have hkept : (recvKept h p v).length ≤ p.alloc.blocksize - h.sizeofRPFrame := by
    unfold recvKept
    rw [List.length_take]
    exact Nat.min_le_left _ _
  have hraw : (rawFrame h block (h.sizeofRPFrame + (recvKept h p v).length)).rawSize
      = (recvKept h p v).length := by
    show sizeSub _ _ = _
    unfold ssizeMax at hmax
    rw [sizeSub_eq (by omega) (by omega), Nat.add_sub_cancel_left]
  have hsize := hok.size
  have hpl : (headedFrame h block (h.sizeofRPFrame + (recvKept h p v).length) header
      off).payloadSize = (recvKept h p v).length - 2 * off := by
    show sizeSub (rawFrame h block _).rawSize (2 * off) = _
    rw [hraw] at hsize ⊢
    unfold ssizeMax at hmax
    rw [sizeSub_eq hsize (by omega)]
  rw [hraw] at hsize
  omega

theorem length_recvKept_le (h : Host) (p : RegP σ τ μ α) (v : List Octet) :
    (recvKept h p v).length ≤ v.length := by
  unfold recvKept
  rw [List.length_take]
  exact Nat.min_le_right _ _

/-- A frame with a payload of another size that passes is not refused as it should be. -/
theorem ReceivesMissized.not_sizesPayload (hroom : h.sizeofRPFrame < p.alloc.blocksize)
    (hmis : ReceivesMissized h p) : ¬SizesPayload h p := by
  obtain ⟨fuel, v, block, used, header, off, hrec, hok, hkind⟩ := hmis
  obtain ⟨q, hcall⟩ := hrec.received.recv hroom
  obtain ⟨k, source', block₀, alloc', hread, -⟩ := hrec.read
  have hsize := hrec.payloadSize hroom hok
  have hlen := length_recvKept_le h p v
  have hne : v.length ≠ 2 * off + expectedOctets (headedFrame h block used header off) := by
    rcases hkind with ⟨-, hone⟩ | ⟨hsame, hcut⟩ <;> omega
  have hplaus : payloadPlausible (headedFrame h block used header off) = .ok 0 := by
    refine (payloadPlausible_iff hok.type_cases).mpr ?_
    rcases hkind with hone | ⟨hsame, -⟩
    · exact .inr hone
    · exact .inl hsame
  have hval := PlausibleFrame.parse ⟨⟨header, off, hok, rfl⟩, hplaus⟩
  have hokf : HeaderOk h (headedFrame h block used header off).memory
    (headedFrame h block used header off).rawSize (headedFrame h block used header off).header
    off := hok
  intro hs
  split at hval
  · -- the checksum of the payload is wrong besides
    generalize headedFrame h block used header off = f at *
    have hr : regpRecv h fuel p = .ok (.ok 0,
        { errorId := some .eproto, framesize := 0, frame := some f }, q) := by
      rw [hcall, recvParse, hval]
    cases hs.refused fuel k source' v _ _ _ f off hread hr rfl hokf hne
  · exact hne (hs.accepted fuel k source' v _ _ _ _ hread (hcall.trans (recvParse_ok hval fuel q))
      rfl rfl)

/-- Where no such frame is received, a payload that passes is as promised. -/
theorem ReceivedOctets.length_eq (hroom : h.sizeofRPFrame < p.alloc.blocksize)
    (hnone : ¬ReceivesMissized h p) (hrec : ReceivedOctets h fuel p v block used)
    {header : RPHeader} {off : Nat}
    (hok : HeaderOk h (block.octets.shift h.sizeofRPFrame) (rawFrame h block used).rawSize
      header off)
    (hplaus : payloadPlausible (headedFrame h block used header off) = .ok 0) :
    v.length = 2 * off + expectedOctets (headedFrame h block used header off) := by
  have hsize := hrec.payloadSize hroom hok
  have hlen := length_recvKept_le h p v
  have hmis : ∀ {P : Prop}, Missized h p v (headedFrame h block used header off) → P := fun hkind =>
    absurd ⟨fuel, v, block, used, header, off, hrec, hok, hkind⟩ hnone
  rcases (payloadPlausible_iff hok.type_cases).mp hplaus with hsame | hone
  · by_cases hcut : (recvKept h p v).length < v.length
    · exact hmis (.inr ⟨hsame, hcut⟩)
    · omega
  · exact hmis (.inl hone)

/-- **When the payload of a frame has the size its header promises.** -/
theorem regpRecv_payloadSize_iff (h : Host) (p : RegP σ τ μ α)
    (hroom : h.sizeofRPFrame < p.alloc.blocksize) :
    SizesPayload h p ↔ ¬ReceivesMissized h p := by
  refine ⟨fun hs hmis => hmis.not_sizesPayload hroom hs, fun hnone => ⟨?_, ?_⟩⟩
  · intro fuel k source' v rc mf p' f hread hr herr hframe
    obtain ⟨block, used, n, hrec, hval⟩ := Received.of_accepted hroom hr herr hframe
    obtain ⟨-, header, off, hok, rfl, hplaus, -⟩ := parseFrame_ok_iff.mp hval
    exact (hrec.octets hread).length_eq hroom hnone hok hplaus
  · intro fuel k source' v rc mf p' f off hread hr hframe hok hne
    obtain ⟨block, used, hrec, hf, he⟩ := Received.of_frame hroom hr hframe
    obtain ⟨-, hmem, hraw⟩ := parseFrame_raw h block used
    rw [← hf] at hmem hraw
    rw [hmem, hraw] at hok
    obtain ⟨header, hheader⟩ : ∃ header, header = f.header := ⟨_, rfl⟩
    rw [← hheader] at hok
    have hval : (parseFrame h block used).val = (headedFrame h block used header off,
        payloadPlausible (headedFrame h block used header off) >>= fun _ =>
          (checkPayload h (headedFrame h block used header off)).val >>= fun _ => .ok 0) :=
      parseFrame_headed hok
    obtain rfl : f = headedFrame h block used header off := hf.trans (congrArg Prod.fst hval)
    by_cases hplaus : payloadPlausible (headedFrame h block used header off) = .ok 0
    · exact absurd ((hrec.octets hread).length_eq hroom hnone hok hplaus) hne
    · rw [he, hval, payloadPlausible_efault hok.type_cases hplaus]
      rfl

theorem regpRecv_payloadSize_iff_wordRequest :
    SizesPayload lp64Host (ramInstance .serial (lineEncode .serial wordRequest)) ↔
      ¬ReceivesMissized lp64Host (ramInstance .serial (lineEncode .serial wordRequest)) :=
  regpRecv_payloadSize_iff lp64Host _ (by decide)

end Received

/-- **A stray octet behind a read request** for one 16-bit word is accepted. -/
theorem regpRecv_missized :
    ¬SizesPayload lp64Host (ramInstance .serial (lineEncode .serial (bareRequest ++ [0x55]))) := by
  intro hs
  have hlen := hs.accepted 32 _ _ _ _ _ _ _ rfl rfl rfl rfl
  exact absurd hlen (by decide)

end Ufw
