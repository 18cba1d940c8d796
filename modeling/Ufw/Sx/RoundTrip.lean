/-
  File:      Ufw/Sx/RoundTrip.lean
  Subject:   THE S-EXPRESSION ROUND TRIP: trees, their printed forms, and what becomes of these.

  * `SxTree` -- symbols, numbers and lists; `SxTree.node` -- the node that stands for a tree;
  * `SxTree.Prints` -- the printed forms of a tree, with any whitespace between the elements of a
    list;
  * `SxTree.NoEmptyElement` -- no list has an empty list for an element;
  * `SxTree.reads` -- **the printed form of such a tree is read as that tree**;
  * `sx_roundTrip_iff` -- **the round trip succeeds exactly for such trees**, if there is a NUL
    behind the text for the symbols.
-/
import Mathlib.Data.List.TakeWhile
import Mathlib.Data.Nat.Digits.Defs
import Ufw.Sx.Parser

namespace Ufw

open Base

/-! ## 1. Trees and their printed forms -/

/-- A valid initial character, and valid characters behind it. -/
structure SxSymbol where
  first : Octet
  others : List Octet
  first_mem : first ∈ syminitchtab
  others_char : ∀ c ∈ others, SymbolChar c

/-- The characters of a symbol. -/
def SxSymbol.name (s : SxSymbol) : List Octet := s.first :: s.others

/-- A tree of symbols, numbers and lists. -/
inductive SxTree where
  | symbol (s : SxSymbol)
  | integer (n : BitVec 64)
  | list (l : List SxTree)

/-- The character of a digit. -/
def digitChar (d : Nat) : Octet := BitVec.ofNat 8 (0x30 + d)

/-- A number in decimal. -/
def decimal (n : Nat) : List Octet :=
  if n = 0 then [digitChar 0] else ((Nat.digits 10 n).map digitChar).reverse

namespace SxTree

mutual

/-- The node that stands for a tree. -/
def node : SxTree → SxNode
  | symbol s => .symbol s.name
  | integer n => .integer n
  | list l => nodes l

/-- A list is a chain of pairs that ends with an empty list. -/
def nodes : List SxTree → SxNode
  | [] => .emptyList
  | t :: l => .pair t.node (nodes l)

end

mutual

/-- **The printed forms of a tree**: lists in parentheses, numbers in decimal. -/
def Prints : SxTree → List Octet → Prop
  | symbol s, u => u = s.name
  | integer n, u => u = decimal n.toNat
  | list l, u => ∃ v, u = sxChar '(' :: (v ++ [sxChar ')']) ∧ PrintsAll l v

/-- The elements of a list, with whitespace between them, and maybe around them. -/
def PrintsAll : List SxTree → List Octet → Prop
  | [], u => ∀ c ∈ u, isspace c = true
  | t :: l, u => ∃ gap v w, u = gap ++ (v ++ w) ∧ (∀ c ∈ gap, isspace c = true) ∧ t.Prints v ∧
      PrintsAll l w ∧ (l ≠ [] → ∃ c ∈ w.head?, isspace c = true)

end

mutual

/-- **No list has an empty list for an element.** -/
def NoEmptyElement : SxTree → Prop
  | symbol _ | integer _ => True
  | list l => NoEmptyIn l

/-- None of these trees is an empty list, or has a list with one. -/
def NoEmptyIn : List SxTree → Prop
  | [] => True
  | t :: l => t ≠ list [] ∧ t.NoEmptyElement ∧ NoEmptyIn l

end

mutual

/-- There is a symbol in a tree. -/
def HasSymbol : SxTree → Prop
  | symbol _ => True
  | integer _ => False
  | list l => HasSymbolIn l

/-- There is a symbol in one of these trees. -/
def HasSymbolIn : List SxTree → Prop
  | [] => False
  | t :: l => t.HasSymbol ∨ HasSymbolIn l

end

end SxTree

/-! ## 2. Numbers -/

theorem digitChar_digit {d : Nat} (h : d < 10) :
    isdigit (digitChar d) = true ∧ digit2int (digitChar d) = BitVec.ofNat 64 d := by
  have hall : ∀ d < 10, isdigit (digitChar d) = true ∧
      digit2int (digitChar d) = BitVec.ofNat 64 d := by decide
  exact hall d h

/-- Digits, the last one first, have the value they stand for. -/
theorem sxValue_digits {l : List Nat} (h : ∀ d ∈ l, d < 10) :
    sxValue 10 (l.map digitChar).reverse = BitVec.ofNat 64 (Nat.ofDigits 10 l) := by
  induction l with
  | nil => rfl
  | cons d l ih =>
    obtain ⟨hd, hl⟩ := List.forall_mem_cons.mp h
    rw [List.map_cons, List.reverse_cons, sxValue_append, ih hl, (digitChar_digit hd).2,
      Nat.ofDigits_cons, BitVec.ofNat_add, BitVec.ofNat_mul, BitVec.add_comm, BitVec.mul_comm]
    rfl

theorem decimal_digits (n : Nat) :
    decimal n ≠ [] ∧ (∀ c ∈ decimal n, isdigit c = true) ∧
      sxValue 10 (decimal n) = BitVec.ofNat 64 n := by
  unfold decimal
  split
  · rename_i hn
    subst hn
    exact ⟨by simp, by decide, by decide⟩
  · rename_i hn
    have hlt : ∀ d ∈ Nat.digits 10 n, d < 10 := fun d hd => Nat.digits_lt_base (by decide) hd
    refine ⟨?_, ?_, ?_⟩
    · simpa using Nat.digits_ne_nil_iff_ne_zero.mpr hn
    · intro c hc
      obtain ⟨d, hd, rfl⟩ := List.mem_map.mp (List.mem_reverse.mp hc)
      exact (digitChar_digit (hlt d hd)).1
    · rw [sxValue_digits hlt, Nat.ofDigits_digits]

/-! ## 3. Printed forms are read -/

/-- Whitespace in front of something else is skipped. -/
theorem skipSpace_append {gap : List Octet} (hgap : ∀ c ∈ gap, isspace c = true) {c : Octet}
    (hc : isspace c = false) (r : List Octet) : skipSpace (gap ++ c :: r) = c :: r := by
  rw [skipSpace, List.dropWhile_append_of_pos hgap, List.dropWhile_cons_of_neg]
  rw [hc]
  exact Bool.false_ne_true

/-- The gap in front of an element. -/
theorem skipSpace_gap {gap : List Octet} (hgap : ∀ c ∈ gap, isspace c = true) {c : Octet}
    (hc : isspace c = false) (v w r : List Octet) :
    skipSpace (gap ++ (c :: v ++ w) ++ r) = c :: v ++ (w ++ r) := by
  simp only [List.append_assoc, List.cons_append]
  exact skipSpace_append hgap hc _

theorem isspace_of_not_delimiter {c : Octet} (h : nextisdelimiter c = false) :
    isspace c = false := by
  rw [nextisdelimiter, Bool.or_eq_false_iff] at h
  exact h.2

theorem SxSymbol.atom (s : SxSymbol) {r : List Octet} (hr : Delimited r) :
    SxToken false (s.name ++ r) (.symbol s.name) r := by
  have hproper : ∀ x ∈ s.name, issymch x = true ∧ x ≠ 0 :=
    List.forall_mem_cons.mpr ⟨SymbolChar.proper (.inl s.first_mem),
      fun x hx => (s.others_char x hx).proper⟩
  have htoken := SxToken.symbol (syminitchtab_proper s.first_mem).1
    (fun x hx => (hproper x (List.mem_cons_of_mem _ hx)).1) hr
  have hnul : (s.first :: s.others).contains 0 = false := by
    rw [← Bool.not_eq_true, List.contains_iff_mem]
    exact fun hmem => (hproper 0 hmem).2 rfl
  rwa [hnul, List.takeWhile_eq_self_iff.mpr fun x hx => by simpa using (hproper x hx).2] at htoken

namespace SxTree

theorem node_eq_emptyList {t : SxTree} : t.node = .emptyList ↔ t = list [] := by
  cases t with
  | symbol s => simp [node]
  | integer n => simp [node]
  | list l => cases l <;> simp [node, nodes]

/-- A printed form does not begin with whitespace. -/
theorem Prints.head {t : SxTree} {u : List Octet} (h : t.Prints u) :
    ∃ c v, u = c :: v ∧ isspace c = false := by
  cases t with
  | symbol s =>
    rw [Prints] at h
    refine ⟨_, _, h, isspace_of_not_delimiter ((char_classes _).2.2 ?_)⟩
    exact (SymbolChar.proper (.inl s.first_mem)).1
  | integer n =>
    rw [Prints] at h
    obtain ⟨hne, hdigits, -⟩ := decimal_digits n.toNat
    obtain ⟨c, v, hv⟩ := List.exists_cons_of_ne_nil hne
    have hc := hdigits c (hv ▸ List.mem_cons_self)
    exact ⟨c, v, h.trans hv, isspace_of_not_delimiter ((char_classes c).1 hc).1⟩
  | list l =>
    rw [Prints] at h
    obtain ⟨v, rfl, -⟩ := h
    exact ⟨_, _, rfl, by decide⟩

/-- What follows an element of a list is a delimiter. -/
theorem PrintsAll.delimited {l : List SxTree} {w r : List Octet} (h : PrintsAll l w)
    (hsep : l ≠ [] → ∃ c ∈ w.head?, isspace c = true) : Delimited (w ++ sxChar ')' :: r) := by
  have hspace : ∀ c, isspace c = true → nextisdelimiter c = true := by
    intro c hc
    rw [nextisdelimiter, hc, Bool.or_true]
  intro c hc
  cases w with
  | nil => exact Option.some.inj hc ▸ by decide
  | cons c' w =>
    obtain rfl : c' = c := Option.some.inj hc
    cases l with
    | nil =>
      rw [PrintsAll] at h
      exact hspace c' (h c' List.mem_cons_self)
    | cons t l =>
      obtain ⟨x, hx, hxs⟩ := hsep (List.cons_ne_nil t l)
      exact hspace c' (Option.some.inj hx ▸ hxs)

mutual

/-- **The printed form of a tree without empty elements is read as that tree.** -/
theorem reads (t : SxTree) (ht : t.NoEmptyElement) {u v r : List Octet} (hv : t.Prints v)
    (hu : skipSpace u = v ++ r) (hr : Delimited r) : SxReads false .datum u t.node r := by
  match t with
  | symbol s =>
    rw [Prints] at hv
    exact .token (hu ▸ hv ▸ s.atom hr)
  | integer n =>
    rw [Prints] at hv
    obtain ⟨hne, hdigits, hvalue⟩ := decimal_digits n.toNat
    have htoken := SxToken.integer hne hdigits hr
    rw [hvalue, BitVec.ofNat_toNat, BitVec.setWidth_eq, ← hv, ← hu] at htoken
    exact .token htoken
  | list l =>
    rw [Prints] at hv
    obtain ⟨w, rfl, hw⟩ := hv
    rw [NoEmptyElement] at ht
    rw [List.cons_append, List.append_assoc] at hu
    exact .list hu (readsAll l ht hw r)

/-- The elements of a list, up to its closing parenthesis. -/
theorem readsAll (l : List SxTree) (hl : NoEmptyIn l) {w : List Octet} (hw : PrintsAll l w)
    (r : List Octet) : SxReads false .rest (w ++ sxChar ')' :: r) (nodes l) r := by
  match l with
  | [] =>
    rw [PrintsAll] at hw
    exact .close (skipSpace_append hw (by decide) r)
  | t :: l =>
    rw [PrintsAll] at hw
    obtain ⟨gap, v, w, rfl, hgap, hv, hw, hsep⟩ := hw
    rw [NoEmptyIn] at hl
    obtain ⟨hempty, ht, hl⟩ := hl
    obtain ⟨c, v', rfl, hc⟩ := hv.head
    have hskip := skipSpace_gap hgap hc v' w (sxChar ')' :: r)
    have hfirst := reads t ht hv hskip (hw.delimited hsep)
    exact .more hfirst (fun he => hempty (node_eq_emptyList.mp he)) (readsAll l hl hw r)

end

/-! ## 4. The octets of a printed form -/

/-- An octet of a printed form is no `#`, no NUL, and begins a symbol only where there is one. -/
structure PrintedChar (symbol : Prop) (c : Octet) : Prop where
  ne_hash : c ≠ sxChar '#'
  ne_nul : c ≠ 0
  init : issyminitch c = true → symbol

theorem PrintedChar.of_symbolChar {c : Octet} {p : Prop} (h : SymbolChar c) (hp : p) :
    PrintedChar p c := by
  refine ⟨?_, h.proper.2, fun _ => hp⟩
  rintro rfl
  exact absurd h.proper.1 (by decide)

theorem PrintedChar.of_plain {c : Octet} (p : Prop)
    (h : isspace c = true ∨ isdigit c = true ∨ c = sxChar '(' ∨ c = sxChar ')') :
    PrintedChar p c := by
  have hall : ∀ k : Fin 256, isspace (.ofFin k) = true ∨ isdigit (.ofFin k) = true ∨
      (.ofFin k : Octet) = sxChar '(' ∨ (.ofFin k : Octet) = sxChar ')' →
      (.ofFin k : Octet) ≠ sxChar '#' ∧ (.ofFin k : Octet) ≠ 0 ∧
        issyminitch (.ofFin k) = false := by decide +kernel
  obtain ⟨h1, h2, h3⟩ := hall c.toFin h
  refine ⟨h1, h2, fun hinit => ?_⟩
  rw [show issyminitch c = false from h3] at hinit
  cases hinit

theorem PrintedChar.mono {c : Octet} {p q : Prop} (h : PrintedChar p c) (hpq : p → q) :
    PrintedChar q c := ⟨h.ne_hash, h.ne_nul, fun hinit => hpq (h.init hinit)⟩

mutual

theorem printed_chars (t : SxTree) {u : List Octet} (h : t.Prints u) :
    ∀ c ∈ u, PrintedChar t.HasSymbol c := by
  match t with
  | symbol s =>
    rw [Prints] at h
    rw [HasSymbol, h]
    exact List.forall_mem_cons.mpr ⟨.of_symbolChar (.inl s.first_mem) trivial,
      fun c hc => .of_symbolChar (s.others_char c hc) trivial⟩
  | integer n =>
    rw [Prints] at h
    rw [h]
    exact fun c hc => .of_plain _ (.inr (.inl ((decimal_digits n.toNat).2.1 c hc)))
  | list l =>
    rw [Prints] at h
    obtain ⟨v, rfl, hv⟩ := h
    rw [HasSymbol]
    refine List.forall_mem_cons.mpr ⟨.of_plain _ (.inr (.inr (.inl rfl))), fun c hc => ?_⟩
    rcases List.mem_append.mp hc with hc | hc
    · exact printed_chars_all l hv c hc
    · exact .of_plain _ (.inr (.inr (.inr (List.mem_singleton.mp hc))))

theorem printed_chars_all (l : List SxTree) {u : List Octet} (h : PrintsAll l u) :
    ∀ c ∈ u, PrintedChar (HasSymbolIn l) c := by
  match l with
  | [] =>
    rw [PrintsAll] at h
    exact fun c hc => .of_plain _ (.inl (h c hc))
  | t :: l =>
    rw [PrintsAll] at h
    obtain ⟨gap, v, w, rfl, hgap, hv, hw, -⟩ := h
    intro c hc
    rw [HasSymbolIn]
    rcases List.mem_append.mp hc with hc | hc
    · exact .of_plain _ (.inl (hgap c hc))
    · rcases List.mem_append.mp hc with hc | hc
      · exact (printed_chars t hv c hc).mono .inl
      · exact (printed_chars_all l hw c hc).mono .inr

end

/-! ## 5. Symbols the parser looks at -/

mutual

/-- The parser looks at a symbol of a tree, if there is one. -/
theorem looks_at_symbol (t : SxTree) (ht : t.NoEmptyElement) (hs : t.HasSymbol) {u v r : List Octet}
    (hv : t.Prints v) (hu : skipSpace u = v ++ r) (hr : Delimited r) :
    ∃ w b name x, SxLooks .datum u w ∧ SxToken b w (.symbol name) x := by
  match t with
  | symbol s =>
    rw [Prints] at hv
    have htoken := s.atom hr
    rw [← hv, ← hu] at htoken
    obtain ⟨c, x, hc, -⟩ := htoken.head
    exact ⟨_, _, _, _, .here (by rw [hc]; exact List.cons_ne_nil c x), htoken⟩
  | integer n => exact absurd hs (by rw [HasSymbol]; exact not_false)
  | list l =>
    rw [Prints] at hv
    obtain ⟨w, rfl, hw⟩ := hv
    rw [NoEmptyElement] at ht
    rw [HasSymbol] at hs
    rw [List.cons_append, List.append_assoc] at hu
    obtain ⟨x, b, name, y, hlooks, htoken⟩ := looks_at_symbol_in l ht hs hw r
    exact ⟨x, b, name, y, .inside hu hlooks, htoken⟩

theorem looks_at_symbol_in (l : List SxTree) (hl : NoEmptyIn l) (hs : HasSymbolIn l)
    {w : List Octet} (hw : PrintsAll l w) (r : List Octet) :
    ∃ x b name y, SxLooks .rest (w ++ sxChar ')' :: r) x ∧ SxToken b x (.symbol name) y := by
  match l with
  | [] => exact absurd hs (by rw [HasSymbolIn]; exact not_false)
  | t :: l =>
    rw [PrintsAll] at hw
    obtain ⟨gap, v, w, rfl, hgap, hv, hw, hsep⟩ := hw
    rw [NoEmptyIn] at hl
    obtain ⟨hempty, ht, hl⟩ := hl
    obtain ⟨c, v', rfl, hc⟩ := hv.head
    have hskip := skipSpace_gap hgap hc v' w (sxChar ')' :: r)
    rw [HasSymbolIn] at hs
    rcases hs with hs | hs
    · obtain ⟨x, b, name, y, hlooks, htoken⟩ :=
        looks_at_symbol t ht hs hv hskip (hw.delimited hsep)
      exact ⟨x, b, name, y, .first hlooks, htoken⟩
    · obtain ⟨x, b, name, y, hlooks, htoken⟩ := looks_at_symbol_in l hl hs hw r
      have hfirst := reads t ht hv hskip (hw.delimited hsep)
      exact ⟨x, b, name, y, .next hfirst (fun he => hempty (node_eq_emptyList.mp he)) hlooks,
        htoken⟩

end

/-! ## 6. The round trip -/

end SxTree

/-- No pair of a node begins with an empty list. -/
def SxNode.NoEmptyCar : SxNode → Prop
  | null | symbol _ | integer _ | emptyList => True
  | pair car cdr => car ≠ emptyList ∧ car.NoEmptyCar ∧ cdr.NoEmptyCar

theorem SxToken.noEmptyCar {b : Bool} {u r : List Octet} {node : SxNode} (h : SxToken b u node r) :
    node.NoEmptyCar := by
  cases h <;> trivial

/-- **No node the parser makes has an empty list for an element.** -/
theorem SxReads.noEmptyCar {b : Bool} {part : SxPart} {u r : List Octet} {node : SxNode}
    (h : SxReads b part u node r) : node.NoEmptyCar := by
  induction h with
  | token h => exact h.noEmptyCar
  | list paren h ih => exact ih
  | close | slip => trivial
  | more first ne_empty h ih ih' => exact ⟨ne_empty, ih, ih'⟩

theorem SxOutcome.noEmptyCar {s : SxText} {n : Nat} {u : List Octet} {res : SxParseResult}
    (h : SxOutcome s n .datum u res) (hres : res.status = .success) : res.node.NoEmptyCar := by
  cases h with
  | reads h => exact h.noEmptyCar
  | stray | blank | lookahead => trivial
  | error herr =>
    rw [resultIsError, hres] at herr
    cases herr

namespace SxTree

mutual

theorem noEmptyElement_of_node (t : SxTree) (h : t.node.NoEmptyCar) : t.NoEmptyElement := by
  match t with
  | symbol _ | integer _ => rw [NoEmptyElement]; trivial
  | list l =>
    rw [NoEmptyElement]
    exact noEmptyIn_of_nodes l h

theorem noEmptyIn_of_nodes (l : List SxTree) (h : (nodes l).NoEmptyCar) : NoEmptyIn l := by
  match l with
  | [] => rw [NoEmptyIn]; trivial
  | t :: l =>
    obtain ⟨hne, ht, hl⟩ := h
    rw [NoEmptyIn]
    exact ⟨fun he => hne (node_eq_emptyList.mpr he), noEmptyElement_of_node t ht,
      noEmptyIn_of_nodes l hl⟩

end

end SxTree

section RoundTrip

variable {t : SxTree} {u : List Octet} {s : SxText}

theorem SxTree.Prints.skipSpace_eq (hu : t.Prints u) : skipSpace u = u ++ [] := by
  obtain ⟨c, v, rfl, hc⟩ := hu.head
  have hgap : ∀ x ∈ ([] : List Octet), isspace x = true := fun _ h => nomatch h
  rw [List.append_nil]
  exact skipSpace_append hgap hc v

theorem delimited_nil : Delimited [] := fun _ h => nomatch h

/-- What the tokens of a printed form need: a NUL behind it, if there is a symbol in it. -/
theorem SxTree.Prints.ready (hu : t.Prints u) (hs : SxAt s u.length 0 u)
    (hnul : t.HasSymbol → NulFrom s u.length) : SxReady s u.length .datum u := by
  intro w hw
  have hchars : ∀ c ∈ w, PrintedChar t.HasSymbol c := fun c hc =>
    SxTree.printed_chars t hu c (hw.suffix.subset hc)
  refine ⟨fun b name r ht => ?_, fun hhash => ?_⟩
  · have hat : SxAt s u.length (u.length - w.length) (w ++ []) := by
      rw [List.append_nil]
      exact hs.suffix hw.suffix
    refine hat.nulFrom_append (hnul ?_)
    cases ht with
    | symbol init => exact (hchars _ List.mem_cons_self).init init
  · exact absurd rfl (hchars (sxChar '#') (by rw [hhash]; exact List.mem_cons_self)).ne_hash

/-- No tree the parser returns has an empty list for an element. -/
theorem noEmptyCar_of_parsed {res : SxParseResult} (hs : SxAt s u.length 0 u)
    (hready : SxReady s u.length .datum u)
    (hres : Returns (fun fuel => sxParse fuel s u.length 0) res) (hstatus : res.status = .success) :
    res.node.NoEmptyCar := by
  obtain ⟨rv, hout, hret⟩ := sxDatum_total hs hready
  obtain rfl := hres.unique (hret.after fun fuel hrv => sxParse_of hrv)
  by_cases herr : resultIsError rv = true
  · rw [sxFinish, if_pos herr]
    trivial
  · rw [sxFinish, if_neg herr] at hstatus ⊢
    exact hout.noEmptyCar hstatus

/-- **The round trip**: what is printed is read back exactly if no list has an empty list for an
    element and, should there be a symbol, a NUL is found behind the text. -/
theorem sx_roundTrip_iff (t : SxTree) (u : List Octet) (hu : t.Prints u) (s : SxText)
    (hs : SxAt s u.length 0 u) :
    Returns (fun fuel => sxParse fuel s u.length 0) ⟨u.length, .success, t.node⟩ ↔
      t.NoEmptyElement ∧ (t.HasSymbol → NulFrom s u.length) := by
  constructor
  · intro ⟨fuel, hret⟩
    obtain ⟨rv, hrv, -⟩ := sxParse_inv (hret fuel (le_refl fuel))
    have hready : SxReady s u.length .datum u := fun w hw => hw.ready hs hrv
    have hne := SxTree.noEmptyElement_of_node t (noEmptyCar_of_parsed hs hready ⟨fuel, hret⟩ rfl)
    refine ⟨hne, fun hsym => ?_⟩
    -- the symbol the parser looked at has a NUL behind it, and there is none in the text
    obtain ⟨w, b, name, r, hw, htoken⟩ :=
      SxTree.looks_at_symbol t hne hsym hu hu.skipSpace_eq delimited_nil
    have hat : SxAt s u.length (u.length - w.length) (w ++ []) := by
      rw [List.append_nil]
      exact hs.suffix hw.suffix
    refine hat.nulFrom_behind (fun h0 => ?_) ((hready w hw).symbol b name r htoken)
    exact (SxTree.printed_chars t hu 0 (hw.suffix.subset h0)).ne_nul rfl
  · intro ⟨hne, hnul⟩
    obtain ⟨rv, -, hret⟩ := sxDatum_total hs (hu.ready hs hnul)
    refine hret.after fun fuel hrv => ?_
    have hreads := SxTree.reads t hne hu hu.skipSpace_eq delimited_nil
    rw [sxParse_of hrv, hreads.result hs hrv]
    rfl

/-- A symbol and the list of a number. -/
abbrev sxNested : SxTree :=
  .list [.symbol ⟨sxChar 'a', [], by decide, fun _ h => nomatch h⟩, .list [.integer 7]]

/-- They are printed as `( a (7) )`, here with a tabulator in between. -/
abbrev sxNestedText : List Octet := [0x28, 0x20, 0x61, 0x09, 0x28, 0x37, 0x29, 0x20, 0x29]

theorem sx_roundTrip_iff_sample :
    Returns (fun fuel => sxParse fuel (sxMemory (sxNestedText ++ [0])) sxNestedText.length 0)
        ⟨sxNestedText.length, .success, sxNested.node⟩ ↔
      sxNested.NoEmptyElement ∧
        (sxNested.HasSymbol → NulFrom (sxMemory (sxNestedText ++ [0])) sxNestedText.length) := by
  have hseven : (SxTree.list [.integer 7]).Prints [0x28, 0x37, 0x29] := by
    rw [SxTree.Prints]
    refine ⟨[0x37], rfl, ?_⟩
    rw [SxTree.PrintsAll]
    refine ⟨[], [0x37], [], rfl, fun _ h => (nomatch h), ?_, ?_, fun h => absurd rfl h⟩
    · rw [SxTree.Prints]
      decide
    · rw [SxTree.PrintsAll]
      exact fun _ h => nomatch h
  have hprints : sxNested.Prints sxNestedText := by
    rw [SxTree.Prints]
    refine ⟨[0x20, 0x61, 0x09, 0x28, 0x37, 0x29, 0x20], rfl, ?_⟩
    rw [SxTree.PrintsAll]
    refine ⟨[0x20], [0x61], [0x09, 0x28, 0x37, 0x29, 0x20], rfl, by decide, ?_, ?_,
      fun _ => ⟨0x09, rfl, by decide⟩⟩
    · rw [SxTree.Prints]
      rfl
    · rw [SxTree.PrintsAll]
      refine ⟨[0x09], [0x28, 0x37, 0x29], [0x20], rfl, by decide, hseven, ?_,
        fun h => absurd rfl h⟩
      rw [SxTree.PrintsAll]
      decide
  exact sx_roundTrip_iff _ _ hprints _ (sxMemory_at sxNestedText [0])

/-- **A list that begins with an empty list**: `(() 7)` is read as `()`, up to its third octet. -/
theorem not_sx_roundTrip :
    ¬ ∀ (t : SxTree) (u : List Octet), t.Prints u →
      Returns (fun fuel => sxParse fuel (sxMemory (u ++ [0])) u.length 0)
        ⟨u.length, .success, t.node⟩ := by
  intro hall
  have hseven : (SxTree.integer 7).Prints [0x37] := by
    rw [SxTree.Prints]
    decide
  have hempty : (SxTree.list []).Prints [0x28, 0x29] := by
    rw [SxTree.Prints]
    refine ⟨[], rfl, ?_⟩
    rw [SxTree.PrintsAll]
    exact fun _ h => nomatch h
  have hprints :
      (SxTree.list [.list [], .integer 7]).Prints [0x28, 0x28, 0x29, 0x20, 0x37, 0x29] := by
    rw [SxTree.Prints]
    refine ⟨[0x28, 0x29, 0x20, 0x37], rfl, ?_⟩
    rw [SxTree.PrintsAll]
    refine ⟨[], [0x28, 0x29], [0x20, 0x37], rfl, fun _ h => (nomatch h), hempty, ?_,
      fun _ => ⟨0x20, rfl, by decide⟩⟩
    rw [SxTree.PrintsAll]
    refine ⟨[0x20], [0x37], [], rfl, by decide, hseven, ?_, fun h => absurd rfl h⟩
    rw [SxTree.PrintsAll]
    exact fun _ h => nomatch h
  obtain ⟨fuel, hret⟩ := hall _ _ hprints
  obtain ⟨rv, hrv, hfin⟩ := sxParse_inv (hret fuel (le_refl fuel))
  have hreads : SxReads true .datum [0x28, 0x28, 0x29, 0x20, 0x37, 0x29] .emptyList
      [0x20, 0x37, 0x29] :=
    .list (v := [0x28, 0x29, 0x20, 0x37, 0x29]) (by decide)
      (.slip (.list (v := [0x29, 0x20, 0x37, 0x29]) (by decide) (.close (by decide))))
  rw [hreads.result (sxMemory_at _ [0]) hrv] at hfin
  exact absurd (congrArg SxParseResult.position hfin) (by decide)

end RoundTrip

end Ufw
