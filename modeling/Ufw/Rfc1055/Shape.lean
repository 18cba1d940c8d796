/-
  File:      Ufw/Rfc1055/Shape.lean
  Subject:   THE SHAPE OF A SLIP FRAME on the line: where its delimiters stand, what follows its
             escapes, and how long it is.

  * `rfc1055WorstCase` -- the size the header announces for a payload;
  * `FollowedUp` -- each escape is followed by one of its two codes, kept by appending;
  * `SlipShape`, `slipEncode_shape` -- **delimiters at the borders only, escapes whole, the length
    to the octet**;
  * `rfc1055Encode_shape` -- what the encoder sends has that shape.
-/
import Ufw.Rfc1055.Streams

namespace Ufw

open Base

variable {σ τ : Type}

/-! ## 1. Escapes -/

/-- `RFC1055_WORST_CASE`, computed without the bound of its argument's type. -/
def rfc1055WorstCase (n : Nat) (withSof : Bool) : Nat := n * 2 + if withSof then 2 else 1

/-- Each `RAW_ESC` is followed by `ESC_EOF` or `ESC_ESC`. -/
def FollowedUp (l : List Octet) : Prop :=
  ∀ i, l[i]? = some rawEsc → l[i + 1]? = some escEof ∨ l[i + 1]? = some escEsc

theorem followedUp_of_not_mem {l : List Octet} (hl : rawEsc ∉ l) : FollowedUp l :=
  fun _ hi => absurd (List.mem_of_getElem? hi) hl

/-- What follows an escape is in the same list: nothing combines at the seam. -/
theorem FollowedUp.append {l l' : List Octet} (h : FollowedUp l) (h' : FollowedUp l') :
    FollowedUp (l ++ l') := by
  intro i hi
  by_cases hlt : i < l.length
  · rw [List.getElem?_append_left hlt] at hi
    have hnext := h i hi
    have hlt' : i + 1 < l.length := by
      rcases hnext with he | he <;> exact (List.getElem?_eq_some_iff.mp he).1
    rwa [List.getElem?_append_left hlt']
  · have hle : l.length ≤ i := Nat.le_of_not_lt hlt
    rw [List.getElem?_append_right hle] at hi
    have hsub : i + 1 - l.length = i - l.length + 1 := Nat.sub_add_comm hle
    rw [List.getElem?_append_right (Nat.le_succ_of_le hle), hsub]
    exact h' _ hi

/-- An escape and its code. -/
theorem followedUp_pair {c : Octet} (hc : c = escEof ∨ c = escEsc) : FollowedUp [rawEsc, c] := by
  intro i hi
  match i with
  | 0 => exact hc.imp (congrArg some) (congrArg some)
  | 1 =>
    have hcode : c = rawEsc := Option.some.inj hi
    rcases hc with rfl | rfl <;> exact absurd hcode (by decide)
  | i + 2 => cases hi

theorem followedUp_slipEscape (o : Octet) : FollowedUp (slipEscape o) := by
  unfold slipEscape
  split
  · exact followedUp_pair (.inr rfl)
  · split
    · exact followedUp_pair (.inl rfl)
    · rename_i hesc _
      exact followedUp_of_not_mem fun hm => hesc (List.mem_singleton.mp hm).symm

theorem followedUp_slipBody (p : List Octet) : FollowedUp (slipBody p) := by
  induction p with
  | nil => exact followedUp_of_not_mem List.not_mem_nil
  | cons o p ih =>
    rw [slipBody_cons]
    exact (followedUp_slipEscape o).append ih

/-! ## 2. Lengths -/

theorem length_slipEscape (o : Octet) :
    (slipEscape o).length = 1 + ([o].count rawEof + [o].count rawEsc) := by
  unfold slipEscape
  split
  · subst_vars
    rfl
  · split
    · subst_vars
      rfl
    · rename_i hesc heof
      rw [List.count_singleton, List.count_singleton, if_neg (by simpa using heof),
        if_neg (by simpa using hesc)]
      rfl

/-- The body takes an octet more for each control character of the payload. -/
theorem length_slipBody (p : List Octet) :
    (slipBody p).length = p.length + (p.count rawEof + p.count rawEsc) := by
  induction p with
  | nil => rfl
  | cons o p ih =>
    have hcount (c : Octet) : (o :: p).count c = [o].count c + p.count c := by
      rw [← List.count_append]
      rfl
    rw [slipBody_cons, List.length_append, length_slipEscape, ih, hcount, hcount, List.length_cons]
    omega

/-- An octet is at most one of the two control characters. -/
theorem count_control_le (p : List Octet) : p.count rawEof + p.count rawEsc ≤ p.length := by
  induction p with
  | nil => exact le_refl 0
  | cons o p ih =>
    have hne : ¬(o = rawEof ∧ o = rawEsc) := fun ⟨h1, h2⟩ => absurd (h1.symm.trans h2) (by decide)
    rw [List.count_cons, List.count_cons, List.length_cons]
    simp only [beq_iff_eq]
    split <;> split <;> first | omega | exact absurd ⟨‹_›, ‹_›⟩ hne

/-! ## 3. Frames -/

/-- **The shape of the frame `l` of the payload `p`.** -/
structure SlipShape (withSof : Bool) (p l : List Octet) : Prop where
  /-- The delimiter stands at the end, at the start where there is one, and nowhere else. -/
  delimiters : ∀ i, l[i]? = some rawEof ↔ i + 1 = l.length ∨ (withSof = true ∧ i = 0)
  /-- No escape is broken. -/
  escapes : FollowedUp l
  length : l.length = p.length + (p.count rawEof + p.count rawEsc) + if withSof then 2 else 1
  worstCase : l.length ≤ rfc1055WorstCase p.length withSof

/-- A delimiter in a list is at its end, where the list before has none. -/
theorem getElem?_concat_eq_iff {l : List Octet} {c : Octet} (hl : c ∉ l) (i : Nat) :
    (l ++ [c])[i]? = some c ↔ i = l.length := by
  constructor
  · intro hi
    by_contra hne
    rcases Nat.lt_or_gt_of_ne hne with hlt | hgt
    · rw [List.getElem?_append_left hlt] at hi
      exact hl (List.mem_of_getElem? hi)
    · rw [List.getElem?_eq_none (by rw [List.length_append]; exact hgt)] at hi
      cases hi
  · rintro rfl
    exact List.getElem?_concat_length

theorem slipEncode_classic {flags : BitVec 32} (hf : bitIsset flags rfc1055WithSof = false)
    (p : List Octet) : slipEncode flags p = slipBody p ++ [rawEof] := by
  rw [slipEncode, if_neg (by simp [hf])]
  rfl

theorem slipEncode_withSof {flags : BitVec 32} (hf : bitIsset flags rfc1055WithSof = true)
    (p : List Octet) : slipEncode flags p = rawEof :: (slipBody p ++ [rawEof]) := by
  rw [slipEncode, if_pos hf]
  rfl

/-- **Every encoded frame has the shape.** -/
theorem slipEncode_shape (flags : BitVec 32) (p : List Octet) :
    SlipShape (bitIsset flags rfc1055WithSof) p (slipEncode flags p) := by
  have hend := getElem?_concat_eq_iff (rawEof_not_mem_slipBody p)
  have hpair : FollowedUp (slipBody p ++ [rawEof]) :=
    (followedUp_slipBody p).append (followedUp_of_not_mem (by decide))
  have hlen := length_slipBody p
  have hle := count_control_le p
  cases hf : bitIsset flags rfc1055WithSof with
  | false =>
    have hl : (slipEncode flags p).length = p.length + (p.count rawEof + p.count rawEsc) + 1 := by
      rw [slipEncode_classic hf, List.length_append, hlen]
      rfl
    refine ⟨fun i => ?_, slipEncode_classic hf p ▸ hpair, hl, ?_⟩
    · rw [hl, slipEncode_classic hf, hend i, hlen]
      simp only [Bool.false_eq_true, false_and, or_false]
      omega
    · rw [hl]
      show _ ≤ p.length * 2 + 1
      omega
  | true =>
    have hl : (slipEncode flags p).length = p.length + (p.count rawEof + p.count rawEsc) + 2 := by
      rw [slipEncode_withSof hf, List.length_cons, List.length_append, hlen]
      rfl
    refine ⟨fun i => ?_, ?_, hl, ?_⟩
    · rw [hl, slipEncode_withSof hf]
      cases i with
      | zero => exact ⟨fun _ => .inr ⟨rfl, rfl⟩, fun _ => rfl⟩
      | succ i =>
        rw [List.getElem?_cons_succ, hend i, hlen]
        simp only [Nat.add_one_ne_zero, and_false, or_false]
        omega
    · rw [slipEncode_withSof hf]
      exact FollowedUp.append (l := [rawEof]) (followedUp_of_not_mem (by decide)) hpair
    · rw [hl]
      show _ ≤ p.length * 2 + 2
      omega

/-- **What the encoder sends for a payload** is a frame of that shape, in both modes: its only
    delimiters are the last octet and, with a start-of-frame delimiter, the first; each escape is
    whole; and it has an octet for each octet of the payload, one more for each control character
    in it, and the delimiters, which the announced worst case covers. -/
theorem rfc1055Encode_shape {source source₁ source' : Source σ} {p : List Octet}
    (hs : source.Delivers p source₁) (he : source₁.Ends source') (ctx : Rfc1055Context)
    {sent : τ → List Octet} {sink : Sink τ} (hk : sink.Accepting sent) :
    ∃ l sink', Returns (fun fuel => rfc1055Encode fuel ctx source sink) (.ok 0, source', sink') ∧
      sink.Sends sent l sink' ∧ SlipShape (bitIsset ctx.flags rfc1055WithSof) p l := by
  obtain ⟨sink', hret, hsends⟩ := rfc1055Encode_sends hs he ctx hk
  exact ⟨slipEncode ctx.flags p, sink', hret, hsends, slipEncode_shape ctx.flags p⟩

/-- A payload of the two control characters, one next to the other. -/
theorem rfc1055Encode_shape_control :
    ∃ l sink', Returns (fun fuel => rfc1055Encode fuel (rfc1055ContextInit rfc1055WithSof)
        (streamSource [rawEsc, rawEof]) (collectSink [])) (.ok 0, streamSource [], sink') ∧
      (collectSink []).Sends id l sink' ∧ SlipShape true [rawEsc, rawEof] l :=
  rfc1055Encode_shape (streamSource_delivers_all [rawEsc, rawEof]) (.inl rfl)
    (rfc1055ContextInit rfc1055WithSof) (collectSink_accepting [])

end Ufw
