/-
  File:      Ufw/Sx/Bounds.lean
  Subject:   WHAT THE S-EXPRESSION PARSER READS behind the text it is given.

  * `SxText.Within` -- a memory in which more can be read; `sxParse_within` -- what the parser
    returns, it returns there, too;
  * `SxBounded` -- the octets of a text alone decide what is returned, even if there is nothing to
    be read behind them;
  * `sxBounded_iff` -- **the parser keeps to its text exactly where it never looks at a `#x` at the
    end, nor at a symbol without a NUL behind it in the text.**
-/
import Ufw.Sx.Parser

namespace Ufw

open Base

/-! ## 1. More memory -/

/-- What can be read in `s` is in `s'`, too. -/
def SxText.Within (s s' : SxText) : Prop := ∀ i c, s i = some c → s' i = some c

section Within

variable {s s' : SxText} {n : Nat}

theorem readOctet_within (h : s.Within s') (i : Nat) : Below (readOctet s i) (readOctet s' i) := by
  intro c hc
  unfold readOctet at *
  cases hi : s i with
  | none => rw [hi] at hc; cases hc
  | some o =>
    rw [hi] at hc
    rw [h i o hi]
    exact hc

theorem scanLoop_within (h : s.Within s') (p : Octet → Bool) (left j : Nat) :
    Below (scanLoop p s left j) (scanLoop p s' left j) := by
  induction left generalizing j with
  | zero => exact .refl _
  | succ left ih => exact (readOctet_within h j).bind fun c => (ih (j + 1)).ite (.refl _)

theorem brokenOff_within (h : s.Within s') (j : Nat) :
    Below (brokenOff s n j) (brokenOff s' n j) :=
  ((readOctet_within h j).bind fun _ => .refl _).ite (.refl _)

theorem strlcpyCopy_within (h : s.Within s') (left src : Nat) :
    Below (strlcpyCopy s left src) (strlcpyCopy s' left src) := by
  induction left generalizing src with
  | zero => exact .refl _
  | succ left ih =>
    exact (readOctet_within h src).bind fun c =>
      (Below.refl _).ite ((ih (src + 1)).bind fun _ => .refl _)

theorem strlcpyTraverse_within (h : s.Within s') (fuel src : Nat) :
    Below (strlcpyTraverse s fuel src) (strlcpyTraverse s' fuel src) := by
  induction fuel generalizing src with
  | zero => exact .refl _
  | succ fuel ih => exact (readOctet_within h src).bind fun c => (Below.refl _).ite (ih (src + 1))

theorem sxMakeSymboln_within (h : s.Within s') (fuel i len : Nat) :
    Below (sxMakeSymboln fuel s i len) (sxMakeSymboln fuel s' i len) := by
  refine Below.bind ?_ fun _ => .refl _
  exact (strlcpyCopy_within h _ i).bind fun copied =>
    (Below.refl _).ite ((strlcpyTraverse_within h fuel _).bind fun _ => .refl _)

theorem parseSymbol_within (h : s.Within s') (fuel i : Nat) :
    Below (parseSymbol fuel s n i) (parseSymbol fuel s' n i) :=
  (scanLoop_within h issymch _ i).bind fun j => (brokenOff_within h j).bind fun _ =>
    (Below.refl _).ite ((sxMakeSymboln_within h fuel i _).bind fun _ => .refl _)

theorem integerLoop_within (h : s.Within s') (base : BitVec 64) (i count : Nat)
    (newi mult : BitVec 64) :
    Below (integerLoop base s i count newi mult) (integerLoop base s' i count newi mult) := by
  induction count generalizing newi mult with
  | zero => exact .refl _
  | succ count ih => exact (readOctet_within h _).bind fun c => ih _ _

theorem parseInteger_within (h : s.Within s') (i offset : Nat) (digitpredicate : Octet → Bool)
    (base : BitVec 64) : Below (parseInteger_ s n i offset digitpredicate base)
      (parseInteger_ s' n i offset digitpredicate base) :=
  (scanLoop_within h digitpredicate _ _).bind fun j => (brokenOff_within h j).bind fun _ =>
    (Below.refl _).ite ((integerLoop_within h base i _ 0 1).bind fun _ => .refl _)

theorem lookingAt_within (h : s.Within s') (i : Nat) :
    Below (lookingAt s n i) (lookingAt s' n i) := by
  have hhex : Below (lookingAtHex s n i) (lookingAtHex s' n i) :=
    ((readOctet_within h i).bind fun _ => ((readOctet_within h (i + 1)).bind fun _ =>
      ((readOctet_within h (i + 2)).bind fun _ => .refl _).ite (.refl _)).ite
        (.refl _)).ite (.refl _)
  exact hhex.bind fun _ => (Below.refl _).ite ((readOctet_within h i).bind fun _ => .refl _)

theorem sxParseToken_within (h : s.Within s') (fuel i : Nat) :
    Below (sxParseToken fuel s n i) (sxParseToken fuel s' n i) := by
  refine (scanLoop_within h isspace _ i).bind fun j => (Below.refl _).ite ?_
  refine (lookingAt_within h j).bind fun what => ?_
  cases what with
  | intDec => exact (parseInteger_within h j 0 isdigit 10).map _
  | intHex => exact (parseInteger_within h j 2 isxdigit 16).map _
  | symbol => exact (parseSymbol_within h fuel j).map _
  | parenOpen | parenClose | unknown => exact .refl _

theorem sxRun_within (h : s.Within s') (fuel : Nat) : ∀ (part : SxPart) (i : Nat),
    Below (sxRun part fuel s n i) (sxRun part fuel s' n i) := by
  induction fuel with
  | zero => intro part i; cases part <;> exact .refl _
  | succ fuel ih =>
    intro part i
    cases part with
    | datum =>
      rw [sxRun, sxParse_, sxParse_]
      exact (sxParseToken_within h fuel i).bind fun rv => (ih .rest rv.position).ite (.refl _)
    | rest =>
      rw [sxRun, sxParseList, sxParseList]
      exact (Below.refl _).ite ((ih .datum i).bind fun carres => (Below.refl _).ite
        ((ih .rest carres.position).bind fun _ => .refl _))

/-- **What the parser returns, it returns with more memory**, too. -/
theorem sxParse_within (h : s.Within s') (fuel i : Nat) :
    Below (sxParse fuel s n i) (sxParse fuel s' n i) :=
  (sxRun_within h fuel .datum i).bind fun _ => .refl _

end Within

/-! ## 2. The octets of the text -/

/-- **The octets of a text decide what is returned**, whatever there is behind them, be it
    nothing. -/
def SxBounded (u : List Octet) : Prop :=
  ∃ res, ∀ s, SxAt s u.length 0 u → Returns (fun fuel => sxParseStringn fuel s u.length) res

section Bounded

variable {s : SxText} {n i : Nat} {u w : List Octet}

/-- Where memory ends with the text, the NUL is in the text. -/
theorem SxAt.mem_of_nulFrom (h : SxAt s n i w) (hend : s n = none) (hnul : NulFrom s i) :
    0 ∈ w := by
  induction w generalizing i with
  | nil =>
    obtain rfl : i = n := h.end_eq
    cases hnul with
    | here h0 => rw [hend] at h0; cases h0
    | next hc _ => rw [hend] at hc; cases hc
  | cons c w ih =>
    have hc : s i = some c := h.octet 0 (Nat.succ_pos _)
    cases hnul with
    | here h0 =>
      rw [hc] at h0
      exact Option.some.inj h0 ▸ List.mem_cons_self
    | next _ rest => exact List.mem_cons_of_mem c (ih h.tail rest)

theorem sxMemory_within (h : SxAt s u.length 0 u) : (sxMemory u).Within s := by
  intro i c hc
  obtain ⟨hi, hget⟩ := List.getElem?_eq_some_iff.mp hc
  have hoctet := h.octet i hi
  rw [Nat.zero_add] at hoctet
  rw [hoctet, hget]

/-- What the tokens need, in a memory that ends with the text. -/
theorem sxReady_memory_iff (u : List Octet) :
    SxReady (sxMemory u) u.length .datum u ↔
      ∀ w, SxLooks .datum u w → w ≠ [sxChar '#', sxChar 'x'] ∧
        ∀ b name r, SxToken b w (.symbol name) r → 0 ∈ w := by
  have hat := sxMemory_self u
  have hend : sxMemory u u.length = none := List.getElem?_eq_none (le_refl _)
  refine forall₂_congr fun w hw => ?_
  have hatw := hat.suffix hw.suffix
  constructor
  · intro hready
    refine ⟨fun hhash => ?_, fun b name r ht => ?_⟩
    · obtain ⟨c, hc⟩ := hready.lookahead hhash
      rw [hend] at hc
      cases hc
    · exact hatw.mem_of_nulFrom hend (hready.symbol b name r ht)
  · intro ⟨hhash, hnul⟩
    refine ⟨fun b name r ht => ?_, fun h => absurd h hhash⟩
    have hatw' : SxAt (sxMemory u) u.length (u.length - w.length) (w ++ []) := by
      rwa [List.append_nil]
    exact hatw'.nulFrom_of_mem (hnul b name r ht)

end Bounded

/-- **The parser keeps to its text** exactly where it never looks at a `#x` at the end of the text,
    nor at a symbol without a NUL in the text from it on. -/
theorem sxBounded_iff (u : List Octet) :
    SxBounded u ↔
      ∀ w, SxLooks .datum u w → w ≠ [sxChar '#', sxChar 'x'] ∧
        ∀ b name r, SxToken b w (.symbol name) r → 0 ∈ w := by
  have hat := sxMemory_self u
  rw [← sxReady_memory_iff]
  constructor
  · rintro ⟨res, hres⟩ w hw
    obtain ⟨fuel, hfuel⟩ := hres (sxMemory u) hat
    obtain ⟨rv, hrv, -⟩ := sxParse_inv (hfuel fuel (le_refl fuel))
    exact hw.ready hat hrv
  · intro hready
    obtain ⟨rv, -, hret⟩ := sxDatum_total hat hready
    refine ⟨sxFinish rv, fun s hs => ?_⟩
    have hparse : Returns (fun fuel => sxParse fuel (sxMemory u) u.length 0) (sxFinish rv) :=
      hret.after fun fuel hrv => sxParse_of hrv
    exact hparse.below fun fuel => sxParse_within (sxMemory_within hs) fuel 0

/-- **A symbol at the end of its text**: what there is behind it is read. -/
theorem not_sxBounded : ¬ ∀ u, SxBounded u := by
  intro hall
  obtain ⟨res, hres⟩ := hall [sxChar 'a']
  have hat := sxMemory_self [sxChar 'a']
  obtain ⟨fuel, hfuel⟩ := hres _ hat
  obtain ⟨rv, hrv, -⟩ := sxParse_inv (hfuel fuel (le_refl fuel))
  have htoken := @SxToken.symbol (sxChar 'a') [] [] (by decide) (fun x hx => nomatch hx)
    (fun c hc => nomatch hc)
  have hlooks : SxLooks .datum [sxChar 'a'] [sxChar 'a'] :=
    SxLooks.here (u := [sxChar 'a']) (by decide)
  have hready := hlooks.ready hat hrv
  have hmem := hat.mem_of_nulFrom rfl (hready.symbol _ _ _ htoken)
  exact absurd hmem (by decide)

end Ufw
