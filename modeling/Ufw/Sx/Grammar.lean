/-
  File:      Ufw/Sx/Grammar.lean
  Subject:   THE GRAMMAR OF S-EXPRESSIONS, and what the parser reads instead.

  * `SxGrammar` -- **the grammar**: a datum in front of a text, and the rest of a list up to its
    closing parenthesis;
  * `SxReads` -- what the parser reads, with the node it makes. Its flag marks the two slips: a NUL
    in a symbol, and a list that ends behind an empty list in it;
  * `SxLooks` -- the tokens it looks at on the way;
  * `SxReads.reconciled` -- **where the grammar has a datum, the parser reads that one, unless it
    slips**: behind a slip, lists are still open;
  * `SxGrammar.reads` -- a text of the grammar is read somehow.
-/
import Ufw.Sx

namespace Ufw

open Base

/-! ## 1. The grammar -/

/-- A text behind the whitespace in front of it. -/
def skipSpace (u : List Octet) : List Octet := u.dropWhile isspace

/-- What follows a token is a delimiter, or the end of the text. -/
def Delimited (r : List Octet) : Prop := ∀ c ∈ r.head?, nextisdelimiter c = true

/-- A character of a symbol. -/
def SymbolChar (c : Octet) : Prop := c ∈ syminitchtab ∨ isdigit c = true ∨ c = sxChar '-'

/-- A delimited integer or symbol in front of a text, and what follows it. -/
inductive SxAtom : List Octet → List Octet → Prop
  | integer {ds r : List Octet} (ne_nil : ds ≠ []) (chars : ∀ c ∈ ds, isdigit c = true)
      (delimited : Delimited r) : SxAtom (ds ++ r) r
  | hinteger {ds r : List Octet} (ne_nil : ds ≠ []) (chars : ∀ c ∈ ds, isxdigit c = true)
      (delimited : Delimited r) : SxAtom (sxChar '#' :: sxChar 'x' :: (ds ++ r)) r
  | symbol {c : Octet} {cs r : List Octet} (init : c ∈ syminitchtab)
      (chars : ∀ x ∈ cs, SymbolChar x) (delimited : Delimited r) : SxAtom (c :: (cs ++ r)) r

/-- A datum, or the rest of a list. -/
inductive SxPart where
  | datum
  | rest
  deriving DecidableEq, Repr

/-- **The grammar**: a part in front of a text, and what follows it. -/
inductive SxGrammar : SxPart → List Octet → List Octet → Prop
  | atom {u r : List Octet} (h : SxAtom (skipSpace u) r) : SxGrammar .datum u r
  | list {u v r : List Octet} (paren : skipSpace u = sxChar '(' :: v) (h : SxGrammar .rest v r) :
      SxGrammar .datum u r
  | close {u r : List Octet} (paren : skipSpace u = sxChar ')' :: r) : SxGrammar .rest u r
  | more {u v r : List Octet} (first : SxGrammar .datum u v) (h : SxGrammar .rest v r) :
      SxGrammar .rest u r

/-! ## 2. What the parser reads -/

/-- The number octets stand for. -/
def sxValue (base : BitVec 64) (ds : List Octet) : BitVec 64 :=
  ds.foldl (fun v c => v * base + digit2int c) 0

/-- A token in front of a text, the node it becomes, and what follows it. A NUL is taken for a
    character of a symbol; the symbol ends in front of it. -/
inductive SxToken : Bool → List Octet → SxNode → List Octet → Prop
  | integer {ds r : List Octet} (ne_nil : ds ≠ []) (chars : ∀ c ∈ ds, isdigit c = true)
      (delimited : Delimited r) : SxToken false (ds ++ r) (.integer (sxValue 10 ds)) r
  | hinteger {ds r : List Octet} (ne_nil : ds ≠ []) (chars : ∀ c ∈ ds, isxdigit c = true)
      (delimited : Delimited r) :
      SxToken false (sxChar '#' :: sxChar 'x' :: (ds ++ r))
        (.integer (sxValue 16 (sxChar '#' :: sxChar 'x' :: ds))) r
  | symbol {c : Octet} {cs r : List Octet} (init : issyminitch c = true)
      (chars : ∀ x ∈ cs, issymch x = true) (delimited : Delimited r) :
      SxToken ((c :: cs).contains 0) (c :: (cs ++ r))
        (.symbol ((c :: cs).takeWhile (· != 0))) r

/-- **What the parser reads**, and whether it slips. -/
inductive SxReads : Bool → SxPart → List Octet → SxNode → List Octet → Prop
  | token {b : Bool} {u r : List Octet} {node : SxNode} (h : SxToken b (skipSpace u) node r) :
      SxReads b .datum u node r
  | list {b : Bool} {u v r : List Octet} {node : SxNode} (paren : skipSpace u = sxChar '(' :: v)
      (h : SxReads b .rest v node r) : SxReads b .datum u node r
  | close {u r : List Octet} (paren : skipSpace u = sxChar ')' :: r) :
      SxReads false .rest u .emptyList r
  | slip {b : Bool} {u r : List Octet} (first : SxReads b .datum u .emptyList r) :
      SxReads true .rest u .emptyList r
  | more {b b' : Bool} {u v r : List Octet} {node node' : SxNode}
    (first : SxReads b .datum u node v)
      (ne_empty : node ≠ .emptyList) (h : SxReads b' .rest v node' r) :
      SxReads (b || b') .rest u (.pair node node') r

/-- The tokens the parser looks at; each stands in front of a part of the text. -/
inductive SxLooks : SxPart → List Octet → List Octet → Prop
  | here {u : List Octet} (ne_nil : skipSpace u ≠ []) : SxLooks .datum u (skipSpace u)
  | inside {u v w : List Octet} (paren : skipSpace u = sxChar '(' :: v) (h : SxLooks .rest v w) :
      SxLooks .datum u w
  | first {u w : List Octet} (h : SxLooks .datum u w) : SxLooks .rest u w
  | next {b : Bool} {u v w : List Octet} {node : SxNode} (first : SxReads b .datum u node v)
      (ne_empty : node ≠ .emptyList) (h : SxLooks .rest v w) : SxLooks .rest u w

/-! ## 3. Tokens -/

section Tokens

/-- What is to be known about the classes of characters. -/
theorem char_classes (c : Octet) :
    (isdigit c = true → nextisdelimiter c = false ∧ issyminitch c = false) ∧
      (isxdigit c = true → nextisdelimiter c = false) ∧
      (issymch c = true → nextisdelimiter c = false) := by
  -- the delimiters are few, so they are looked up in the other classes
  have hdelimiter : ∀ k : Fin 256, nextisdelimiter (.ofFin k) = true →
      isdigit (.ofFin k) = false ∧ isxdigit (.ofFin k) = false ∧ issymch (.ofFin k) = false := by
    decide +kernel
  have hdigit : ∀ k : Fin 256, isdigit (.ofFin k) = true → issyminitch (.ofFin k) = false := by
    decide +kernel
  have hclass : ∀ p : Octet → Bool, (nextisdelimiter c = true → p c = false) → p c = true →
      nextisdelimiter c = false := fun p hp hc =>
    eq_false_of_ne_true fun hd => Bool.false_ne_true ((hp hd).symm.trans hc)
  exact ⟨fun hc => ⟨hclass isdigit (fun hd => (hdelimiter c.toFin hd).1) hc, hdigit c.toFin hc⟩,
    hclass isxdigit fun hd => (hdelimiter c.toFin hd).2.1,
    hclass issymch fun hd => (hdelimiter c.toFin hd).2.2⟩

variable {b b' : Bool} {u u' r r' : List Octet} {node node' : SxNode}

theorem not_delimited_of {p : Octet → Bool} (hp : ∀ c, p c = true → nextisdelimiter c = false)
    (h : Delimited r) : ∀ c ∈ r.head?, p c = false := by
  intro c hc
  by_contra hpc
  have hdelim := h c hc
  rw [hp c (Bool.not_eq_false _ ▸ hpc)] at hdelim
  cases hdelim

/-- Every text has a run of octets in front of it. -/
theorem exists_run (p : Octet → Bool) (u : List Octet) :
    ∃ l, u = l ++ u.dropWhile p ∧ (∀ c ∈ l, p c = true) ∧
      ∀ c ∈ (u.dropWhile p).head?, p c = false := by
  induction u with
  | nil => exact ⟨[], rfl, fun _ h => (nomatch h), fun _ h => (nomatch h)⟩
  | cons c u ih =>
    by_cases hc : p c = true
    · obtain ⟨l, hu, hl, hstop⟩ := ih
      rw [List.dropWhile_cons_of_pos hc]
      exact ⟨c :: l, congrArg (c :: ·) hu, List.forall_mem_cons.mpr ⟨hc, hl⟩, hstop⟩
    · rw [List.dropWhile_cons_of_neg hc]
      refine ⟨[], rfl, fun _ h => (nomatch h), fun x hx => ?_⟩
      rw [← Option.some.inj hx]
      exact Bool.not_eq_true _ ▸ hc

theorem exists_run_cons {p : Octet → Bool} {c : Octet} (hc : p c = true) (u : List Octet) :
    ∃ l r, c :: u = l ++ r ∧ l ≠ [] ∧ (∀ c ∈ l, p c = true) ∧ ∀ c ∈ r.head?, p c = false := by
  obtain ⟨l, hu, hl, hstop⟩ := exists_run p u
  exact ⟨c :: l, _, congrArg (c :: ·) hu, List.cons_ne_nil c l, List.forall_mem_cons.mpr ⟨hc, hl⟩,
    hstop⟩

/-- A run of octets ends in one way. -/
theorem run_unique {p : Octet → Bool} {l l' : List Octet} (hl : ∀ c ∈ l, p c = true)
    (hl' : ∀ c ∈ l', p c = true) (hr : ∀ c ∈ r.head?, p c = false)
    (hr' : ∀ c ∈ r'.head?, p c = false) (h : l ++ r = l' ++ r') : l = l' ∧ r = r' := by
  have hstop : ∀ {t : List Octet}, (∀ c ∈ t.head?, p c = false) → t.takeWhile p = [] := by
    intro t ht
    cases t with
    | nil => rfl
    | cons c t => exact List.takeWhile_cons_of_neg (by rw [ht c rfl]; exact Bool.false_ne_true)
  have htake := congrArg (List.takeWhile p) h
  rw [List.takeWhile_append_of_pos hl, List.takeWhile_append_of_pos hl', hstop hr, hstop hr',
    List.append_nil, List.append_nil] at htake
  subst htake
  exact ⟨rfl, List.append_cancel_left h⟩

/-- The first octet of a token. -/
theorem SxToken.head (h : SxToken b u node r) : ∃ c v, u = c :: v ∧ nextisdelimiter c = false := by
  cases h with
  | @integer ds _ ne_nil chars _ =>
    obtain ⟨c, ds', rfl⟩ := List.exists_cons_of_ne_nil ne_nil
    exact ⟨c, _, rfl, ((char_classes c).1 (chars c List.mem_cons_self)).1⟩
  | hinteger => exact ⟨_, _, rfl, by decide⟩
  | @symbol c _ _ init _ _ =>
    exact ⟨c, _, rfl, (char_classes c).2.2 (by rw [issymch, init]; rfl)⟩

/-- Digits begin with a digit. -/
theorem isdigit_head {ds w : List Octet} {c : Octet} (ne_nil : ds ≠ [])
    (chars : ∀ c ∈ ds, isdigit c = true) (hu : c :: w = ds ++ r) : isdigit c = true := by
  obtain ⟨c', ds', rfl⟩ := List.exists_cons_of_ne_nil ne_nil
  obtain rfl : c = c' := (List.cons.inj hu).1
  exact chars c List.mem_cons_self

/-- **A text has one token in front of it**, if any. -/
theorem SxToken.unique (h : SxToken b u node r) (h' : SxToken b' u' node' r') (hu : u = u') :
    b = b' ∧ node = node' ∧ r = r' := by
  have hdigit := fun c => (((char_classes c).1 : isdigit c = true → _))
  have hstop {t : List Octet} (ht : Delimited t) :=
    not_delimited_of (p := isdigit) (fun c hc => (hdigit c hc).1) ht
  cases h with
  | integer ne_nil chars delimited =>
    cases h' with
    | integer ne_nil' chars' delimited' =>
      obtain ⟨rfl, rfl⟩ := run_unique chars chars' (hstop delimited) (hstop delimited') hu
      exact ⟨rfl, rfl, rfl⟩
    | hinteger => exact absurd (isdigit_head ne_nil chars hu.symm) (by decide)
    | symbol init =>
      rw [(hdigit _ (isdigit_head ne_nil chars hu.symm)).2] at init
      cases init
  | hinteger ne_nil chars delimited =>
    cases h' with
    | integer ne_nil' chars' => exact absurd (isdigit_head ne_nil' chars' hu) (by decide)
    | hinteger ne_nil' chars' delimited' =>
      have hx := fun c => (char_classes c).2.1
      obtain ⟨rfl, rfl⟩ := run_unique chars chars' (not_delimited_of hx delimited)
        (not_delimited_of hx delimited') (List.cons.inj (List.cons.inj hu).2).2
      exact ⟨rfl, rfl, rfl⟩
    | symbol init =>
      obtain rfl := (List.cons.inj hu).1
      exact absurd init (by decide)
  | @symbol c cs r init chars delimited =>
    cases h' with
    | integer ne_nil' chars' =>
      rw [(hdigit c (isdigit_head ne_nil' chars' hu)).2] at init
      cases init
    | hinteger =>
      obtain rfl : c = sxChar '#' := (List.cons.inj hu).1
      exact absurd init (by decide)
    | symbol init' chars' delimited' =>
      have hs := fun c => (char_classes c).2.2
      obtain ⟨rfl, htail⟩ := List.cons.inj hu
      obtain ⟨rfl, rfl⟩ := run_unique chars chars' (not_delimited_of hs delimited)
        (not_delimited_of hs delimited') htail
      exact ⟨rfl, rfl, rfl⟩

theorem syminitchtab_proper {c : Octet} (h : c ∈ syminitchtab) : issyminitch c = true ∧ c ≠ 0 := by
  refine ⟨?_, fun hc => absurd (hc ▸ h) (by decide)⟩
  rw [issyminitch, List.contains_iff_mem.mpr h]
  rfl

theorem SymbolChar.proper {c : Octet} (h : SymbolChar c) : issymch c = true ∧ c ≠ 0 := by
  obtain h | h | rfl := h
  · obtain ⟨h1, h2⟩ := syminitchtab_proper h
    exact ⟨by rw [issymch, h1]; rfl, h2⟩
  · refine ⟨by rw [issymch, h, Bool.or_true]; rfl, ?_⟩
    rintro rfl
    exact absurd h (by decide)
  · exact ⟨by decide, by decide⟩

/-- An atom of the grammar is a token the parser reads, without a slip. -/
theorem SxAtom.token (h : SxAtom u r) : ∃ node, SxToken false u node r := by
  cases h with
  | integer ne_nil chars delimited => exact ⟨_, .integer ne_nil chars delimited⟩
  | hinteger ne_nil chars delimited => exact ⟨_, .hinteger ne_nil chars delimited⟩
  | @symbol c cs _ init chars delimited =>
    have hnul : (c :: cs).contains 0 = false := by
      rw [← Bool.not_eq_true, List.contains_iff_mem]
      intro hmem
      rcases List.mem_cons.mp hmem with h0 | h0
      · exact (syminitchtab_proper init).2 h0.symm
      · exact (chars 0 h0).proper.2 rfl
    have htoken := SxToken.symbol (syminitchtab_proper init).1 (fun x hx => (chars x hx).proper.1)
      delimited
    rw [hnul] at htoken
    exact ⟨_, htoken⟩

end Tokens

/-! ## 4. The two side by side -/

section Parts

variable {b b' : Bool} {part : SxPart} {u v r : List Octet} {node node' : SxNode}

theorem length_skipSpace_le (u : List Octet) : (skipSpace u).length ≤ u.length :=
  (List.dropWhile_sublist isspace).length_le

theorem SxToken.length_lt (h : SxToken b u node r) : r.length < u.length := by
  cases h with
  | integer ne_nil =>
    rw [List.length_append]
    exact Nat.lt_add_of_pos_left (List.length_pos_iff.mpr ne_nil)
  | hinteger | symbol =>
    simp only [List.length_cons, List.length_append]
    omega

theorem SxToken.suffix (h : SxToken b u node r) : r <:+ u := by
  cases h with
  | integer => exact List.suffix_append _ _
  | @hinteger ds => exact ⟨sxChar '#' :: sxChar 'x' :: ds, rfl⟩
  | @symbol c cs => exact ⟨c :: cs, rfl⟩

theorem skipSpace_suffix (u : List Octet) : skipSpace u <:+ u := List.dropWhile_suffix isspace

/-- What is left behind a part is the end of the text. -/
theorem SxReads.suffix (h : SxReads b part u node r) : r <:+ u := by
  induction h with
  | @token b u r node h => exact h.suffix.trans (skipSpace_suffix u)
  | @list b u v r node paren h ih =>
    exact ih.trans ((List.suffix_cons _ v).trans (paren ▸ skipSpace_suffix u))
  | @close u r paren => exact (List.suffix_cons _ r).trans (paren ▸ skipSpace_suffix u)
  | slip first ih => exact ih
  | more first ne_empty h ih ih' => exact ih'.trans ih

/-- A token that is looked at, and what follows it, is the end of the text. -/
theorem SxLooks.suffix (h : SxLooks part u v) : v <:+ u := by
  induction h with
  | @here u ne_nil => exact skipSpace_suffix u
  | @inside u v w paren h ih =>
    exact ih.trans ((List.suffix_cons _ v).trans (paren ▸ skipSpace_suffix u))
  | first h ih => exact ih
  | next first ne_empty h ih => exact ih.trans first.suffix

/-- Every part takes an octet at least. -/
theorem SxReads.length_lt (h : SxReads b part u node r) : r.length < u.length := by
  induction h with
  | @token b u r node h => exact lt_of_lt_of_le h.length_lt (length_skipSpace_le u)
  | @list b u v r node paren h ih =>
    have hle := length_skipSpace_le u
    rw [paren, List.length_cons] at hle
    omega
  | @close u r paren =>
    have hle := length_skipSpace_le u
    rw [paren, List.length_cons] at hle
    omega
  | slip first ih => exact ih
  | more first ne_empty h ih ih' => exact lt_trans ih' ih

theorem SxGrammar.length_lt (h : SxGrammar part u r) : r.length < u.length := by
  induction h with
  | @atom u r h =>
    obtain ⟨node, htoken⟩ := h.token
    exact lt_of_lt_of_le htoken.length_lt (length_skipSpace_le u)
  | @list u v r paren h ih =>
    have hle := length_skipSpace_le u
    rw [paren, List.length_cons] at hle
    omega
  | @close u r paren =>
    have hle := length_skipSpace_le u
    rw [paren, List.length_cons] at hle
    omega
  | more first h ih ih' => exact lt_trans ih' ih

/-- A token does not begin with a parenthesis. -/
theorem SxToken.ne_paren (h : SxToken b u node r) {c : Octet} (hc : nextisdelimiter c = true) :
    u ≠ c :: v := by
  rintro rfl
  obtain ⟨c', v', heq, hc'⟩ := h.head
  rw [← (List.cons.inj heq).1, hc] at hc'
  cases hc'

/-- A datum does not begin with a closing parenthesis. -/
theorem SxReads.ne_close (h : SxReads b .datum u node r) : skipSpace u ≠ sxChar ')' :: v := by
  cases h with
  | token h => exact h.ne_paren (by decide)
  | list paren h =>
    rw [paren]
    exact fun he => absurd (List.cons.inj he).1 (by decide)

theorem SxGrammar.ne_close (h : SxGrammar .datum u r) : skipSpace u ≠ sxChar ')' :: v := by
  cases h with
  | atom h =>
    obtain ⟨node, htoken⟩ := h.token
    exact htoken.ne_paren (by decide)
  | list paren h =>
    rw [paren]
    exact fun he => absurd (List.cons.inj he).1 (by decide)

/-- The grammar's datum where the text has a token. -/
theorem SxGrammar.of_token (h : SxGrammar .datum u v) (htoken : SxToken b (skipSpace u) node r) :
    b = false ∧ v = r := by
  cases h with
  | atom h =>
    obtain ⟨node', h'⟩ := h.token
    obtain ⟨hb, -, hr⟩ := htoken.unique h' rfl
    exact ⟨hb, hr.symm⟩
  | list paren h => exact absurd paren (htoken.ne_paren (by decide))

/-- The grammar's datum where the text has a list. -/
theorem SxGrammar.of_paren (h : SxGrammar .datum u r) (paren : skipSpace u = sxChar '(' :: v) :
    SxGrammar .rest v r := by
  cases h with
  | atom h =>
    obtain ⟨node', h'⟩ := h.token
    exact absurd paren (h'.ne_paren (by decide))
  | list paren' h =>
    rw [paren'] at paren
    exact (List.cons.inj paren).2 ▸ h

/-- The grammar's rest of a list where the text has one more datum. -/
theorem SxGrammar.of_datum (h : SxGrammar .rest u r) (hdatum : SxReads b .datum u node v) :
    ∃ w, SxGrammar .datum u w ∧ SxGrammar .rest w r := by
  cases h with
  | close paren => exact absurd paren hdatum.ne_close
  | more first h => exact ⟨_, first, h⟩

/-- A text that closes `k` lists, and what follows them. -/
def SxCloses : Nat → List Octet → List Octet → Prop
  | 0, u, r => u = r
  | k + 1, u, r => ∃ v, SxGrammar .rest u v ∧ SxCloses k v r

/-- **The parser and the grammar side by side**: where the grammar finds a part and then closes `k`
    lists, it still closes as many behind what the parser read, and more of them if that slipped. -/
theorem SxReads.reconciled (h : SxReads b part u node r) : ∀ {k : Nat} {v : List Octet},
    (∃ w, SxGrammar part u w ∧ SxCloses k w v) →
      ∃ k', k ≤ k' ∧ SxCloses k' r v ∧ (b = true ↔ k < k') := by
  induction h with
  | token h =>
    rintro k v ⟨w, hw, hclose⟩
    obtain ⟨rfl, rfl⟩ := hw.of_token h
    exact ⟨k, le_refl k, hclose, by simp⟩
  | list paren h ih =>
    rintro k v ⟨w, hw, hclose⟩
    exact ih ⟨w, hw.of_paren paren, hclose⟩
  | @close u r paren =>
    rintro k v ⟨w, hw, hclose⟩
    cases hw with
    | close paren' =>
      rw [paren'] at paren
      obtain rfl := (List.cons.inj paren).2
      exact ⟨k, le_refl k, hclose, by simp⟩
    | more first h => exact absurd paren first.ne_close
  | slip first ih =>
    -- the list the parser takes for closed is still open
    rintro k v ⟨w, hw, hclose⟩
    obtain ⟨w', hdatum, hrest⟩ := hw.of_datum first
    obtain ⟨k', hk, hclose', -⟩ := ih (k := k + 1) ⟨w', hdatum, w, hrest, hclose⟩
    exact ⟨k', le_of_lt hk, hclose', fun _ => hk, fun _ => rfl⟩
  | more first ne_empty h ih ih' =>
    rintro k v ⟨w, hw, hclose⟩
    obtain ⟨w', hdatum, hrest⟩ := hw.of_datum first
    obtain ⟨k₁, hk₁, hclose₁, hb₁⟩ := ih (k := k + 1) ⟨w', hdatum, w, hrest, hclose⟩
    obtain ⟨k₂, rfl⟩ := Nat.exists_eq_add_of_le' (le_trans (Nat.le_add_left 1 k) hk₁)
    obtain ⟨k', hk', hclose', hb'⟩ := ih' hclose₁
    refine ⟨k', by omega, hclose', ?_⟩
    rw [Bool.or_eq_true_iff, hb₁, hb']
    omega

/-- What closes lists is not longer behind them. -/
theorem SxCloses.length_le {k : Nat} (h : SxCloses k u r) : r.length ≤ u.length := by
  induction k generalizing u with
  | zero => exact le_of_eq (congrArg List.length h.symm)
  | succ k ih =>
    obtain ⟨w, hw, hclose⟩ := h
    exact le_trans (ih hclose) (le_of_lt hw.length_lt)

/-- **A slip shows**: the parser stops where the datum ends exactly if it does not slip. -/
theorem SxReads.stops_iff (h : SxReads b .datum u node r) (hv : SxGrammar .datum u v) :
    r.length = v.length ↔ b = false := by
  obtain ⟨k, -, hclose, hk⟩ := h.reconciled (k := 0) ⟨v, hv, rfl⟩
  cases k with
  | zero =>
    refine ⟨fun _ => ?_, fun _ => congrArg List.length hclose⟩
    rw [← Bool.not_eq_true, hk]
    exact lt_irrefl 0
  | succ k =>
    obtain ⟨w, hw, hrest⟩ := hclose
    rw [hk.mpr (Nat.succ_pos k)]
    refine ⟨fun hlen => ?_, fun hb => nomatch hb⟩
    exact absurd hlen (ne_of_gt (lt_of_le_of_lt hrest.length_le hw.length_lt))

theorem SxToken.atom (h : SxToken b u node r) (hb : b = false) : SxAtom u r := by
  cases h with
  | integer ne_nil chars delimited => exact .integer ne_nil chars delimited
  | hinteger ne_nil chars delimited => exact .hinteger ne_nil chars delimited
  | @symbol c cs r init chars delimited =>
    rw [← Bool.not_eq_true, List.contains_iff_mem] at hb
    have hinit : ∀ x, issyminitch x = true → x ∈ c :: cs → x ∈ syminitchtab := by
      intro x hx hmem
      rcases Bool.or_eq_true_iff.mp hx with hx | hx
      · exact List.contains_iff_mem.mp hx
      · exact absurd (eq_of_beq hx ▸ hmem) hb
    refine .symbol (hinit c init List.mem_cons_self) (fun x hx => ?_) delimited
    have hchar := chars x hx
    rw [issymch, Bool.or_eq_true_iff, Bool.or_eq_true_iff, beq_iff_eq, or_assoc] at hchar
    exact hchar.imp_left fun hx' => hinit x hx' (List.mem_cons_of_mem c hx)

/-- Without a slip, the parser reads what the grammar has there. -/
theorem SxReads.grammar (h : SxReads b part u node r) (hb : b = false) : SxGrammar part u r := by
  induction h with
  | token h => exact .atom (h.atom hb)
  | list paren h ih => exact .list paren (ih hb)
  | close paren => exact .close paren
  | slip => cases hb
  | more first ne_empty h ih ih' =>
    obtain ⟨hb₁, hb₂⟩ := Bool.or_eq_false_iff.mp hb
    exact .more (ih hb₁) (ih' hb₂)

/-- **A text of the grammar is read**, with a slip or without. -/
theorem SxGrammar.reads (h : SxGrammar part u r) :
    ∃ b node v, SxReads b part u node v := by
  induction hn : u.length using Nat.strong_induction_on generalizing part u r with
  | _ n ih =>
    subst hn
    have hdatum : ∀ {w}, SxGrammar .datum u w → ∃ b node v, SxReads b .datum u node v := by
      intro w hw
      cases hw with
      | atom h =>
        obtain ⟨node, htoken⟩ := h.token
        exact ⟨_, _, _, .token htoken⟩
      | @list _ v _ paren h =>
        have hle := length_skipSpace_le u
        rw [paren, List.length_cons] at hle
        obtain ⟨b, node, v', hreads⟩ := ih v.length (by omega) h rfl
        exact ⟨b, node, v', .list paren hreads⟩
    cases h with
    | atom h => exact hdatum (.atom h)
    | list paren h => exact hdatum (.list paren h)
    | close paren => exact ⟨_, _, _, .close paren⟩
    | @more _ w _ first h =>
      obtain ⟨b, node, v, hreads⟩ := hdatum first
      by_cases hempty : node = .emptyList
      · exact ⟨true, .emptyList, v, .slip (hempty ▸ hreads)⟩
      · -- behind the datum as the parser read it, the list is still open
        obtain ⟨k, hk, hclose, -⟩ := hreads.reconciled (k := 1) ⟨w, first, r, h, rfl⟩
        obtain ⟨k', rfl⟩ := Nat.exists_eq_add_of_le' hk
        obtain ⟨x, hx, -⟩ := hclose
        obtain ⟨b', node', v', hrest⟩ := ih v.length hreads.length_lt hx rfl
        exact ⟨_, _, _, .more hreads hempty hrest⟩

end Parts

end Ufw
