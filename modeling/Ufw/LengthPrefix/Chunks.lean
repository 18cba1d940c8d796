/-
  File:      Ufw/LengthPrefix/Chunks.lean
  Subject:   LENGTH PREFIX FRAMING: the sender of chunks, on any mixture of chunks.

  * `EmitsFrame` -- the sender emits the prefix and the unread octets of all chunks, and returns how
    many octets that are;
  * `emitsFrame_iff` -- **it does so exactly where no chunk is empty**: the first empty one ends the
    loop, behind a prefix that announces the chunks that follow as well.
-/
import Ufw.LengthPrefix

namespace Ufw

open Base

variable {τ : Type}

/-- **What `flenp_chunks_to_sink` is for.** -/
def EmitsFrame (h : Host) (k : LengthPrefixKind) (sent : τ → List Octet) (sink : Sink τ)
    (oc : ByteChunks) : Prop :=
  ∃ sink', Returns (fun fuel => flenpChunksToSink h fuel k sink oc)
      (.ok (k.frame h oc.unread).length, sink') ∧ sink.Sends sent (k.frame h oc.unread) sink'

section Emits

variable {k : LengthPrefixKind} {sent : τ → List Octet} {Room : τ → Nat → Prop} {sink : Sink τ}
  {oc : ByteChunks} {n : Nat}

/-- Every length has a prefix of some octets. -/
theorem LengthPrefixKind.Announces.ne_nil {h : Host} {octets : List Octet}
    (ha : k.Announces h octets n) : octets ≠ [] := by
  rintro rfl
  match k, ha with
  | .variable, ha => nomatch ha.1
  | .octet, ha | .le16Bit, ha | .be16Bit, ha | .le32Bit, ha | .be32Bit, ha =>
    exact absurd ha.1 (by decide)

theorem EmitsFrame.ne_nil (h : Host) (hk : sink.Roomy sent Room) (hroom : Room sink.driver n)
    (hv : oc.Valid) (hfits : k.Fits oc.unread.length) (hn : (k.frame h oc.unread).length ≤ n)
    (hemits : EmitsFrame h k sent sink oc) : ∀ b ∈ oc.chunk.drop oc.active, b.unread ≠ [] := by
  obtain ⟨sink', hret, -⟩ := hemits
  obtain ⟨sink'', hrun, -⟩ := flenpChunksToSink_run h hk hroom hv hfits hn
  by_contra hempty
  rw [if_neg hempty] at hrun
  have hzero : (k.frame h oc.unread).length = 0 :=
    Except.ok.inj (congrArg Prod.fst (hret.unique hrun))
  have hnil := (List.append_eq_nil_iff.mp (List.length_eq_zero_iff.mp hzero)).1
  exact (LengthPrefixKind.announces_generate h hfits).ne_nil hnil

/-- **The sender of chunks does what it is for exactly where no chunk is empty.** -/
theorem emitsFrame_iff (h : Host) (hk : sink.Roomy sent Room) (hroom : Room sink.driver n)
    (hv : oc.Valid) (hfits : k.Fits oc.unread.length) (hn : (k.frame h oc.unread).length ≤ n) :
    EmitsFrame h k sent sink oc ↔ ∀ b ∈ oc.chunk.drop oc.active, b.unread ≠ [] := by
  refine ⟨EmitsFrame.ne_nil h hk hroom hv hfits hn, fun hall => ?_⟩
  obtain ⟨sink', hret, hs⟩ := flenpChunksToSink_run h hk hroom hv hfits hn
  rw [if_pos hall] at hret
  rw [flatMap_takeWhile_unread _ fun b hb => hall b (List.mem_of_mem_dropLast hb)] at hs
  exact ⟨sink', hret, hs⟩

end Emits

theorem emitsFrame_iff_sample :
    EmitsFrame lp64Host .octet id (collectSink []) (chunksOf [[1], [2, 3]]) ↔
      ∀ b ∈ (chunksOf [[1], [2, 3]]).chunk.drop 0, b.unread ≠ [] :=
  emitsFrame_iff lp64Host (collectSink_accepting []).roomy trivial (chunksOf_valid (by decide))
    (by decide) (le_refl _)

/-- **An empty chunk between two others**: the frame announces two octets, and holds one. -/
theorem not_emitsFrame_emptyChunk :
    ¬ ∀ oc : ByteChunks, oc.Valid → LengthPrefixKind.octet.Fits oc.unread.length →
      EmitsFrame lp64Host .octet id (collectSink []) oc := by
  intro hall
  have hv : (chunksOf [[1], [], [2]]).Valid := chunksOf_valid (by decide)
  have hfits : LengthPrefixKind.octet.Fits (chunksOf [[1], [], [2]]).unread.length := by decide
  have hne := (hall _ hv hfits).ne_nil lp64Host (collectSink_accepting []).roomy trivial hv hfits
    (le_refl _)
  exact absurd hne (by decide)

end Ufw
