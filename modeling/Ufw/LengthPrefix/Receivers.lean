/-
  File:      Ufw/LengthPrefix/Receivers.lean
  Subject:   LENGTH PREFIX FRAMING: the receiver into memory and the receiver into a sink.

  * `ReceiversAgree` -- both return the same value, deliver the same octets and leave the source
    behind the frame;
  * `receiversAgree_iff` -- **they agree on every frame but the empty one**: the receiver into
    memory asks `source_get_chunk` for nothing, which is an error there.
-/
import Ufw.LengthPrefix.Frames

namespace Ufw

open Base

variable {σ τ : Type}

/-- **Agreement** of `flenp_memory_from_source`, into a memory of `size` octets, and
    `flenp_decode_source_to_sink`, on a source with a frame in front of `rest`. -/
def ReceiversAgree (h : Host) (k : LengthPrefixKind) (Left : σ → List Octet → Prop)
    (source : Source σ) (getbuffer : SourceGetBuffer σ) (size : Nat) (sent : τ → List Octet)
    (sink : Sink τ) (rest : List Octet) : Prop :=
  ∃ rc d₁ d₂ sink',
    Returns (fun fuel => flenpMemoryFromSource h fuel k source size)
      (rc, { source with driver := d₁ }) ∧
    Returns (fun fuel => flenpDecodeSourceToSinkExt h fuel k getbuffer source sink)
      (rc.map List.length, { source with driver := d₂ }, sink') ∧
    sink.Sends sent (octetsOf rc) sink' ∧ Left d₁ rest ∧ Left d₂ rest

section Receivers

variable {Left : σ → List Octet → Prop} {source : Source σ} {getbuffer : SourceGetBuffer σ}
  {k : LengthPrefixKind} {octets l rest : List Octet} {size n : Nat} {sent : τ → List Octet}
  {Room : τ → Nat → Prop} {sink : Sink τ}

/-- Behind the prefix, the receiver into memory asks for the payload as a chunk. -/
theorem flenpMemoryFromSource_prefix (h : Host) (hs : source.Lossless Left)
    (hd : Left source.driver (octets ++ (l ++ rest))) (ha : k.Announces h octets l.length)
    (size : Nat) (hl : l.length ≤ size) :
    ∃ d, Left d (l ++ rest) ∧ ∀ r,
      Returns (fun fuel => sourceGetChunk fuel { source with driver := d } l.length) r →
      Returns (fun fuel => flenpMemoryFromSource h fuel k source size) r := by
  obtain ⟨d, hprefix, hd'⟩ := decodePrefix_announces h hs hd ha
  refine ⟨d, hd', fun r hget => Returns.seq (fun fuel hx => ?_) hprefix hget⟩
  rw [flenpMemoryFromSource, hx]
  simp only [ok_bind, if_neg (Nat.not_lt.mpr hl)]

/-- No chunk is empty: where nothing is announced, the receiver into memory fails. -/
theorem flenpMemoryFromSource_empty (h : Host) (hs : source.Lossless Left)
    (hd : Left source.driver (octets ++ rest)) (ha : k.Announces h octets 0) (size : Nat) :
    ∃ d, Returns (fun fuel => flenpMemoryFromSource h fuel k source size)
      (.error .einval, { source with driver := d }) := by
  obtain ⟨d, -, hget⟩ := flenpMemoryFromSource_prefix (l := []) h hs hd ha size
    (Nat.zero_le size)
  exact ⟨d, hget _ (Returns.of_eq fun _ => rfl)⟩

/-- On an empty frame, one of them returns an error, and the other one the length 0. -/
theorem not_receiversAgree_nil (h : Host) (hg : Offers Left getbuffer) (hs : source.Lossless Left)
    (hd : Left source.driver (octets ++ rest)) (ha : k.Announces h octets 0)
    (hk : sink.Roomy sent Room) (hroom : Room sink.driver n) :
    ¬ ReceiversAgree h k Left source getbuffer size sent sink rest := by
  rintro ⟨rc, d₁, d₂, sink', hmem, hsink, -⟩
  obtain ⟨d, hempty⟩ := flenpMemoryFromSource_empty h hs hd ha size
  obtain ⟨d', sink'', hzero, -⟩ := flenpDecodeSourceToSinkExt_delivers (l := []) h hg hs hd ha
    (Nat.zero_le _) hk hroom (Nat.zero_le _)
  have h1 : rc = .error .einval := congrArg Prod.fst (hmem.unique hempty)
  have h2 : rc.map List.length = .ok 0 := congrArg Prod.fst (hsink.unique hzero)
  rw [h1] at h2
  exact nomatch h2

/-- **The receivers agree on every frame but the empty one.** No memory is larger than the largest
    object. -/
theorem receiversAgree_iff (h : Host) (hg : Offers Left getbuffer) (hs : source.Lossless Left)
    (hd : Left source.driver (octets ++ (l ++ rest))) (ha : k.Announces h octets l.length)
    (hl : l.length ≤ size) (hsize : size ≤ ssizeMax) (hk : sink.Roomy sent Room)
    (hroom : Room sink.driver n) (hn : l.length ≤ n) :
    ReceiversAgree h k Left source getbuffer size sent sink rest ↔ l ≠ [] := by
  constructor
  · rintro hagree rfl
    exact not_receiversAgree_nil h hg hs hd ha hk hroom hagree
  · intro hne
    obtain ⟨d, hd', hget⟩ := flenpMemoryFromSource_prefix h hs hd ha size hl
    obtain ⟨d₁, hchunk, hd₁⟩ := sourceGetChunk_lossless (hs.driver d) hd' hne (le_trans hl hsize)
    obtain ⟨d₂, sink', hsink, hd₂, hsends, -⟩ := flenpDecodeSourceToSinkExt_delivers h hg hs hd ha
      (le_trans hl hsize) hk hroom hn
    exact ⟨.ok l, d₁, d₂, sink', hget _ hchunk, hsink, hsends, hd₁, hd₂⟩

end Receivers

theorem receiversAgree_iff_sample :
    ReceiversAgree lp64Host .be16Bit (fun d left => d = left) (streamSource [0, 2, 5, 6, 9]) none 4
      id (collectSink []) [9] ↔ ([5, 6] : List Octet) ≠ [] :=
  receiversAgree_iff lp64Host (.none _) (streamSource_lossless _)
    (show [0, 2, 5, 6, 9] = [0, 2] ++ ([5, 6] ++ [9]) from rfl) ⟨rfl, rfl⟩ (by decide) (by decide)
    (collectSink_accepting []).roomy trivial (le_refl _)

/-- **An empty frame**: -EINVAL from one receiver, 0 from the other. -/
theorem not_receiversAgree_empty :
    ¬ ∀ (octets l rest : List Octet), LengthPrefixKind.octet.Announces lp64Host octets l.length →
      l.length ≤ 4 → ReceiversAgree lp64Host .octet (fun d left => d = left)
        (streamSource (octets ++ (l ++ rest))) none 4 id (collectSink []) rest := by
  intro hagree
  have ha : LengthPrefixKind.octet.Announces lp64Host [0] 0 := ⟨rfl, rfl⟩
  have hroomy := (collectSink_accepting []).roomy
  exact not_receiversAgree_nil (n := 0) lp64Host (.none _) (streamSource_lossless [0])
    (show [0] = [0] ++ [] from rfl) ha hroomy trivial (hagree [0] [] [] ha (by decide))

end Ufw
