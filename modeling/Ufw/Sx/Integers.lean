/-
  File:      Ufw/Sx/Integers.lean
  Subject:   INTEGER LITERALS in front of the S-expression parser.

  * `SxRadix` -- decimal and hexadecimal literals: how they start, their digits, and the number they
    denote;
  * `SxReadsLiteral` -- what is expected of `sx_parse` in front of one;
  * `sxValue_literal` -- **the number that is accumulated counts the digits A to F as zeros**;
  * `sxParse_literal_iff` -- so **a literal is read as what it denotes exactly if none of its digits
    is one of them**.
-/
import Ufw.Sx.Parser

namespace Ufw

open Base

/-! ## 1. Literals -/

/-- The two kinds of literals. -/
inductive SxRadix where
  | decimal
  | hexadecimal
  deriving DecidableEq, Repr

namespace SxRadix

/-- What stands in front of the digits. -/
def start : SxRadix → List Octet
  | decimal => []
  | hexadecimal => [sxChar '#', sxChar 'x']

/-- The digits: those of a hexadecimal literal are of either case. -/
def isDigit : SxRadix → Octet → Bool
  | decimal => isdigit
  | hexadecimal => isxdigit

def base : SxRadix → Nat
  | decimal => 10
  | hexadecimal => 16

/-- **The number a string of digits denotes**, the most significant digit first. -/
def value (radix : SxRadix) (ds : List Octet) : Nat :=
  ds.foldl (fun v c => radix.base * v + hexDigit c) 0

end SxRadix

/-- The digits A to F. -/
def isUpperDigit (c : Octet) : Bool := 0x41 ≤ c && c ≤ 0x46

/-- **What is expected of `sx_parse`** in front of whitespace and a literal: an integer node with
    the number the literal denotes, and the position behind it, if it is delimited; else the literal
    is broken. -/
def SxReadsLiteral (s : SxText) (n i : Nat) (ws : List Octet) (radix : SxRadix)
    (ds r : List Octet) : Prop :=
  (Delimited r → Returns (fun fuel => sxParse fuel s n i)
    ⟨i + ws.length + (radix.start ++ ds).length, .success,
      .integer (BitVec.ofNat 64 (radix.value ds))⟩) ∧
  (¬Delimited r → ∃ res, Returns (fun fuel => sxParse fuel s n i) res ∧
    res.status = .brokenInteger)

/-! ## 2. The number that is accumulated -/

/-- The digit `digit2int` takes a digit for. -/
def digitRead (c : Octet) : Nat := if isUpperDigit c then 0 else hexDigit c

theorem digit2int_eq {c : Octet} (hc : isxdigit c = true) :
    digit2int c = BitVec.ofNat 64 (digitRead c) := by
  have hall : ∀ k : Fin 256, isxdigit (.ofFin k) = true →
      digit2int (.ofFin k) = BitVec.ofNat 64 (digitRead (.ofFin k)) := by
    decide +kernel
  exact hall c.toFin hc

theorem hexDigit_upper {c : Octet} (hc : isUpperDigit c = true) : 0 < hexDigit c := by
  have hall : ∀ k : Fin 256, isUpperDigit (.ofFin k) = true → 0 < hexDigit (.ofFin k) := by
    decide +kernel
  exact hall c.toFin hc

theorem digitRead_le (c : Octet) : digitRead c ≤ hexDigit c := by
  unfold digitRead
  split
  · exact Nat.zero_le _
  · exact le_refl _

theorem digitRead_lt {c : Octet} (hc : isUpperDigit c = true) : digitRead c < hexDigit c := by
  rw [digitRead, if_pos hc]
  exact hexDigit_upper hc

/-- A decimal digit is a hexadecimal one. -/
theorem SxRadix.isxdigit_of {radix : SxRadix} {c : Octet} (hc : radix.isDigit c = true) :
    isxdigit c = true := by
  cases radix with
  | decimal =>
    rw [isxdigit, show isdigit c = true from hc]
    rfl
  | hexadecimal => exact hc

section Value

variable {radix : SxRadix} {ds : List Octet}

/-- The digits as the parser reads them, behind the number `a`. -/
def readValueFrom (base a : Nat) (ds : List Octet) : Nat :=
  ds.foldl (fun v c => base * v + digitRead c) a

theorem foldl_digit2int (base : Nat) (hds : ∀ c ∈ ds, isxdigit c = true) (a : Nat) :
    ds.foldl (fun v c => v * BitVec.ofNat 64 base + digit2int c) (BitVec.ofNat 64 a) =
      BitVec.ofNat 64 (readValueFrom base a ds) := by
  induction ds generalizing a with
  | nil => rfl
  | cons c ds ih =>
    have hstep : BitVec.ofNat 64 a * BitVec.ofNat 64 base + digit2int c =
        BitVec.ofNat 64 (base * a + digitRead c) := by
      rw [digit2int_eq (hds c List.mem_cons_self), ← BitVec.ofNat_mul, ← BitVec.ofNat_add,
        Nat.mul_comm]
    rw [List.foldl_cons, hstep]
    exact ih (fun x hx => hds x (List.mem_cons_of_mem c hx)) _

/-- **The number that is accumulated.** What a hexadecimal literal starts with counts as zeros,
    too. -/
theorem sxValue_literal (hds : ∀ c ∈ ds, radix.isDigit c = true) :
    sxValue (BitVec.ofNat 64 radix.base) (radix.start ++ ds) =
      BitVec.ofNat 64 (readValueFrom radix.base 0 ds) := by
  have hx : ∀ c ∈ ds, isxdigit c = true := fun c hc => SxRadix.isxdigit_of (hds c hc)
  cases radix with
  | decimal => exact foldl_digit2int 10 hx 0
  | hexadecimal =>
    have hstart : (0 : BitVec 64) * BitVec.ofNat 64 16 + digit2int (sxChar '#') = 0 ∧
        (0 : BitVec 64) * BitVec.ofNat 64 16 + digit2int (sxChar 'x') = 0 := by decide +kernel
    show List.foldl _ _ (sxChar '#' :: sxChar 'x' :: ds) = _
    rw [List.foldl_cons, List.foldl_cons]
    show List.foldl _ ((0 * BitVec.ofNat 64 16 + digit2int (sxChar '#')) * BitVec.ofNat 64 16 +
      digit2int (sxChar 'x')) ds = _
    rw [hstart.1, hstart.2]
    exact foldl_digit2int 16 hx 0

/-- It is no larger than the number the digits denote, and smaller as soon as one of them counts as
    a zero. -/
theorem readValueFrom_le (base : Nat) (hbase : 0 < base) (ds : List Octet) : ∀ {a b : Nat}, a ≤ b →
    readValueFrom base a ds ≤ ds.foldl (fun v c => base * v + hexDigit c) b ∧
    (a < b ∨ (∃ c ∈ ds, isUpperDigit c = true) →
      readValueFrom base a ds < ds.foldl (fun v c => base * v + hexDigit c) b) := by
  induction ds with
  | nil =>
    intro a b hab
    exact ⟨hab, fun h => h.elim id fun ⟨_, hc, _⟩ => nomatch hc⟩
  | cons c ds ih =>
    intro a b hab
    have hdigit := digitRead_le c
    have hmul : base * a ≤ base * b := Nat.mul_le_mul_left base hab
    obtain ⟨hle, hlt⟩ := ih (a := base * a + digitRead c) (b := base * b + hexDigit c) (by omega)
    refine ⟨hle, fun h => hlt ?_⟩
    rcases h with h | ⟨x, hx, hupper⟩
    · have hmul' : base * a < base * b := Nat.mul_lt_mul_of_pos_left h hbase
      exact .inl (by omega)
    · rcases List.mem_cons.mp hx with rfl | hx
      · have hdigit' := digitRead_lt hupper
        exact .inl (by omega)
      · exact .inr ⟨x, hx, hupper⟩

/-- Digits none of which counts as a zero. -/
theorem readValueFrom_eq (base : Nat) (hds : ∀ c ∈ ds, isUpperDigit c = false) (a : Nat) :
    readValueFrom base a ds = ds.foldl (fun v c => base * v + hexDigit c) a := by
  induction ds generalizing a with
  | nil => rfl
  | cons c ds ih =>
    have hc : digitRead c = hexDigit c := by
      rw [digitRead, hds c List.mem_cons_self]
      rfl
    show readValueFrom base (base * a + digitRead c) ds = _
    rw [hc]
    exact ih (fun x hx => hds x (List.mem_cons_of_mem c hx)) _

/-- **The number is right exactly if no digit is one of A to F.** -/
theorem readValue_iff (radix : SxRadix) (hlt : radix.value ds < 2 ^ 64) :
    BitVec.ofNat 64 (readValueFrom radix.base 0 ds) = BitVec.ofNat 64 (radix.value ds) ↔
      ∀ c ∈ ds, isUpperDigit c = false := by
  have hbase : 0 < radix.base := by cases radix <;> decide
  obtain ⟨hle, hless⟩ := readValueFrom_le radix.base hbase ds (le_refl 0)
  constructor
  · intro heq
    have hnat := congrArg BitVec.toNat heq
    rw [BitVec.toNat_ofNat, BitVec.toNat_ofNat, Nat.mod_eq_of_lt hlt,
      Nat.mod_eq_of_lt (lt_of_le_of_lt hle hlt)] at hnat
    intro c hc
    refine eq_false_of_ne_true fun hupper => ?_
    exact absurd hnat (ne_of_lt (hless (.inr ⟨c, hc, hupper⟩)))
  · intro hall
    exact congrArg _ (readValueFrom_eq radix.base hall 0)

end Value

/-! ## 3. The parser in front of a literal -/

section Parse

variable {s : SxText} {n i : Nat} {ws ds r : List Octet} {radix : SxRadix}

/-- What is returned for a token that is not the start of a list. -/
theorem sxParse_token {rv : SxParseResult} (hi : i < n)
    (htoken : ∀ fuel, sxParseToken fuel s n i = .ok rv) (hlist : rv.status ≠ .foundList) :
    Returns (fun fuel => sxParse fuel s n i) (sxFinish rv) := by
  refine Returns.of_succ fun fuel => sxParse_of ?_
  rw [sxParse_, htoken, ok_bind, if_neg hlist, if_neg fun hend => absurd hend.1 (not_le.mpr hi)]

/-- The text of a literal, behind the whitespace. -/
theorem skipSpace_literal (hws : ∀ c ∈ ws, isspace c = true) (hne : ds ≠ [])
    (hds : ∀ c ∈ ds, radix.isDigit c = true) :
    skipSpace (ws ++ (radix.start ++ (ds ++ r))) = radix.start ++ (ds ++ r) := by
  unfold skipSpace
  rw [List.dropWhile_append_of_pos hws]
  cases radix with
  | decimal =>
    obtain ⟨c, ds, rfl⟩ := List.exists_cons_of_ne_nil hne
    have hdigit : nextisdelimiter c = false := ((char_classes c).1 (hds c List.mem_cons_self)).1
    have hspace : ¬ isspace c = true := fun hs => by
      rw [nextisdelimiter, hs, Bool.or_true] at hdigit
      cases hdigit
    exact List.dropWhile_cons_of_neg hspace
  | hexadecimal => exact List.dropWhile_cons_of_neg (by decide)

/-- **In front of a literal**: the number that is accumulated, or a broken literal. -/
theorem sxParseToken_literal (h : SxAt s n i (ws ++ (radix.start ++ (ds ++ r))))
    (hws : ∀ c ∈ ws, isspace c = true) (hne : ds ≠ []) (hds : ∀ c ∈ ds, radix.isDigit c = true)
    (hstop : ∀ c ∈ r.head?, radix.isDigit c = false) (fuel : Nat) :
    (Delimited r → sxParseToken fuel s n i = .ok ⟨n - r.length, .success,
      .integer (BitVec.ofNat 64 (readValueFrom radix.base 0 ds))⟩) ∧
    (¬Delimited r → sxParseToken fuel s n i = .ok ⟨n - r.length, .brokenInteger, .null⟩) := by
  have hskip := skipSpace_literal (r := r) hws hne hds
  rw [← sxValue_literal hds]
  cases radix with
  | decimal => exact sxParseToken_digits h hskip hne hds hstop
  | hexadecimal => exact sxParseToken_xdigits h hskip hne hds hstop

/-- **A literal is read as what it denotes exactly if none of its digits is one of A to F**; whether
    it is broken is found out in any case. -/
theorem sxParse_literal_iff (h : SxAt s n i (ws ++ (radix.start ++ (ds ++ r))))
    (hws : ∀ c ∈ ws, isspace c = true) (hne : ds ≠ []) (hds : ∀ c ∈ ds, radix.isDigit c = true)
    (hlt : radix.value ds < 2 ^ 64) (hstop : ∀ c ∈ r.head?, radix.isDigit c = false) :
    SxReadsLiteral s n i ws radix ds r ↔ (Delimited r → ∀ c ∈ ds, isUpperDigit c = false) := by
  have hend := h.end_eq
  have hpos : 0 < ds.length := List.length_pos_iff.mpr hne
  simp only [List.length_append] at hend
  have hposition : n - r.length = i + ws.length + (radix.start ++ ds).length := by
    rw [List.length_append]
    omega
  have htoken := sxParseToken_literal h hws hne hds hstop
  unfold SxReadsLiteral
  by_cases hr : Delimited r
  · have hret := sxParse_token (by omega) (fun fuel => (htoken fuel).1 hr) nofun
    rw [sxFinish_success rfl, hposition] at hret
    constructor
    · rintro ⟨hread, -⟩ -
      have hnode := congrArg SxParseResult.node (hret.unique (hread hr))
      exact (readValue_iff radix hlt).mp (SxNode.integer.inj hnode)
    · intro hall
      rw [(readValue_iff radix hlt).mpr (hall hr)] at hret
      exact ⟨fun _ => hret, fun hnot => absurd hr hnot⟩
  · have hret := sxParse_token (by omega) (fun fuel => (htoken fuel).2 hr) nofun
    exact ⟨fun _ hdelimited => absurd hdelimited hr, fun _ =>
      ⟨fun hdelimited => absurd hdelimited hr, fun _ => ⟨_, hret, rfl⟩⟩⟩

end Parse

/-- A hexadecimal literal with leading zeros and a letter, in front of a parenthesis. -/
theorem sxParse_literal_iff_sample :
    SxReadsLiteral (sxMemory ([' ', '#', 'x', '0', 'f', ')'].map sxChar)) 6 0 [sxChar ' ']
        .hexadecimal (['0', 'f'].map sxChar) [sxChar ')'] ↔
      (Delimited [sxChar ')'] → ∀ c ∈ ['0', 'f'].map sxChar, isUpperDigit c = false) :=
  sxParse_literal_iff (sxMemory_self _) (by decide) (by decide) (by decide) (by decide) (by decide)

/-- **#xFF is read as 0.** -/
theorem sxParse_upperDigits :
    ¬ SxReadsLiteral (sxMemory (['#', 'x', 'F', 'F'].map sxChar)) 4 0 [] .hexadecimal
      (['F', 'F'].map sxChar) [] := by
  have hat : SxAt (sxMemory (['#', 'x', 'F', 'F'].map sxChar)) 4 0
      ([] ++ (SxRadix.start .hexadecimal ++ (['F', 'F'].map sxChar ++ []))) := sxMemory_self _
  intro hread
  have hret := hread.1 nofun
  have hzero : Returns (fun fuel => sxParse fuel (sxMemory (['#', 'x', 'F', 'F'].map sxChar)) 4 0)
      ⟨4, .success, .integer 0⟩ := Returns.of_succ fun _ => by rfl
  exact absurd (hzero.unique hret) (by decide)

end Ufw
