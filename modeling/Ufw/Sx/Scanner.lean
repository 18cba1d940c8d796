/-
  File:      Ufw/Sx/Scanner.lean
  Subject:   THE SCANNERS OF THE S-EXPRESSION PARSER, on a text that lies in memory.

  * `SxAt` -- what is left of a text at a position;
  * `NulFrom` -- there is a NUL at a position or behind it, and everything up to it can be read;
  * `sxParseToken_symbol` … `sxParseToken_blank` -- what `sx_parse_token` does in front of each kind
    of token: a symbol is returned once a NUL was found behind it;
  * `sxParseToken_broken` -- what it does in front of anything else.
-/
import Ufw.Sx.Grammar

namespace Ufw

open Base

/-! ## 1. A text in memory -/

/-- The text `u` lies in memory from `i` on, and ends at `n`. -/
structure SxAt (s : SxText) (n i : Nat) (u : List Octet) : Prop where
  octet : ∀ k (h : k < u.length), s (i + k) = some u[k]
  end_eq : i + u.length = n

section Text

variable {s : SxText} {n i : Nat} {c : Octet} {u l r : List Octet}

theorem SxAt.read (h : SxAt s n i (c :: u)) : readOctet s i = .ok c := by
  have hc := h.octet 0 (Nat.succ_pos _)
  unfold readOctet
  rw [show s i = some c from hc]

theorem SxAt.append (h : SxAt s n i (l ++ r)) : SxAt s n (i + l.length) r := by
  have hend := h.end_eq
  rw [List.length_append] at hend
  refine ⟨fun k hk => ?_, by omega⟩
  have hoctet := h.octet (l.length + k) (by rw [List.length_append]; omega)
  rw [Nat.add_assoc, hoctet, List.getElem_append_right (by omega)]
  congr 2
  omega

theorem SxAt.tail (h : SxAt s n i (c :: u)) : SxAt s n (i + 1) u := SxAt.append (l := [c]) h

theorem SxAt.pos_eq (h : SxAt s n i u) : n - u.length = i := by
  have hend := h.end_eq
  omega

/-- A memory that holds some octets, and nothing behind them. -/
def sxMemory (l : List Octet) : SxText := fun i => l[i]?

theorem sxMemory_at (u v : List Octet) : SxAt (sxMemory (u ++ v)) u.length 0 u := by
  refine ⟨fun k hk => ?_, Nat.zero_add _⟩
  rw [sxMemory, Nat.zero_add, List.getElem?_append_left hk, List.getElem?_eq_getElem hk]

theorem sxMemory_self (u : List Octet) : SxAt (sxMemory u) u.length 0 u := by
  have hat := sxMemory_at u []
  rwa [List.append_nil] at hat

/-- **A scanner stops behind a run of octets.** -/
theorem scanLoop_at {p : Octet → Bool} (h : SxAt s n i (l ++ r)) (hl : ∀ c ∈ l, p c = true)
    (hr : ∀ c ∈ r.head?, p c = false) : scanLoop p s (n - i) i = .ok (n - r.length) := by
  have hend := h.end_eq
  induction l generalizing i with
  | nil =>
    rw [List.nil_append] at h
    rw [h.pos_eq]
    cases r with
    | nil =>
      have hleft : n - i = 0 := by simp at hend; omega
      rw [hleft, scanLoop]
    | cons c r =>
      have hleft : n - i = (n - i - 1) + 1 := by simp at hend; omega
      rw [hleft, scanLoop, SxAt.read h, ok_bind, hr c rfl]
      rfl
  | cons c l ih =>
    have hleft : n - i = (n - (i + 1)) + 1 := by simp at hend; omega
    rw [hleft, scanLoop, SxAt.read h, ok_bind, hl c List.mem_cons_self]
    exact ih h.tail (fun x hx => hl x (List.mem_cons_of_mem c hx)) (SxAt.end_eq h.tail)

theorem skipWs_at (h : SxAt s n i u) :
    skipWs s n i = .ok (n - (skipSpace u).length) ∧
      SxAt s n (n - (skipSpace u).length) (skipSpace u) := by
  obtain ⟨l, hu, hl, hstop⟩ := exists_run isspace u
  rw [hu] at h
  refine ⟨scanLoop_at h hl hstop, ?_⟩
  have hafter := h.append
  rw [SxAt.pos_eq (u := skipSpace u) hafter]
  exact hafter

theorem SxAt.skip (h : SxAt s n i u) {v : List Octet} (hu : skipSpace u = v) :
    SxAt s n (n - v.length) v := hu ▸ (skipWs_at h).2

theorem brokenOff_at (h : SxAt s n i u) (hd : Delimited u) : brokenOff s n i = .ok false := by
  have hend := h.end_eq
  unfold brokenOff
  cases u with
  | nil => rw [if_neg (by simp at hend; omega)]
  | cons c u => rw [if_pos (by simp at hend; omega), h.read, ok_bind, hd c rfl]; rfl

theorem brokenOff_at_neg (h : SxAt s n i u) (hd : ¬Delimited u) : brokenOff s n i = .ok true := by
  have hend := h.end_eq
  unfold brokenOff
  cases u with
  | nil => exact absurd (fun c hc => nomatch hc) hd
  | cons c u =>
    have hc : nextisdelimiter c = false := by
      by_contra hc
      exact hd fun x hx => Option.some.inj hx ▸ Bool.not_eq_false _ ▸ hc
    rw [if_pos (by simp at hend; omega), h.read, ok_bind, hc]
    rfl

theorem sxValue_append (base : BitVec 64) (ds : List Octet) (d : Octet) :
    sxValue base (ds ++ [d]) = sxValue base ds * base + digit2int d := by
  rw [sxValue, List.foldl_append]
  rfl

/-- The digits of a number, from the last one to the first. -/
theorem integerLoop_at (base : BitVec 64) {ds : List Octet} (h : SxAt s n i (ds ++ r))
    (newi mult : BitVec 64) :
    integerLoop base s i ds.length newi mult = .ok (newi + mult * sxValue base ds) := by
  induction ds using List.reverseRecOn generalizing r newi mult with
  | nil => simp [integerLoop, sxValue]
  | append_singleton ds d ih =>
    rw [List.append_assoc] at h
    have hd := SxAt.read (c := d) (u := r) h.append
    rw [List.length_append, List.length_singleton, integerLoop, hd, ok_bind, ih h, sxValue_append]
    refine congrArg Except.ok ?_
    rw [BitVec.mul_add, BitVec.add_assoc, BitVec.mul_comm (sxValue base ds) base,
      ← BitVec.mul_assoc, BitVec.add_comm (mult * digit2int d)]

end Text

/-! ## 2. The NUL behind a symbol -/

/-- From `k` on, octets can be read up to a NUL. -/
inductive NulFrom (s : SxText) : Nat → Prop
  | here {k : Nat} (h : s k = some 0) : NulFrom s k
  | next {k : Nat} {c : Octet} (h : s k = some c) (rest : NulFrom s (k + 1)) : NulFrom s k

section Symbol

variable {s : SxText} {n i fuel : Nat} {name r : List Octet}

/-- The rest of a string is read if it ends with a NUL. -/
theorem NulFrom.traversed {k : Nat} (h : NulFrom s k) :
    Returns (fun fuel => strlcpyTraverse s fuel k) () := by
  induction h with
  | @here k h =>
    refine .of_succ fun fuel => ?_
    rw [strlcpyTraverse, readOctet, h]
    rfl
  | @next k c h rest ih =>
    by_cases hc : c = 0
    · refine .of_succ fun fuel => ?_
      rw [strlcpyTraverse, readOctet, h, ok_bind, if_pos hc]
    · refine ih.step fun fuel => ?_
      rw [strlcpyTraverse, readOctet, h, ok_bind, if_neg hc]

theorem nulFrom_of_traversed {k : Nat} (h : strlcpyTraverse s fuel k = .ok ()) : NulFrom s k := by
  induction fuel generalizing k with
  | zero => cases h
  | succ fuel ih =>
    rw [strlcpyTraverse, readOctet] at h
    cases hk : s k with
    | none => rw [hk] at h; cases h
    | some c =>
      rw [hk, ok_bind] at h
      split at h
      · rename_i hc
        exact .here (hk.trans (congrArg some hc))
      · exact .next hk (ih h)

/-- A NUL behind some octets. -/
theorem SxAt.nulFrom_append (h : SxAt s n i (name ++ r)) (hr : NulFrom s (n - r.length)) :
    NulFrom s i := by
  induction name generalizing i with
  | nil => rwa [SxAt.pos_eq (u := r) h] at hr
  | cons c name ih => exact .next (h.octet 0 (Nat.succ_pos _)) (ih h.tail)

/-- A NUL that is not one of them is behind them. -/
theorem SxAt.nulFrom_behind (h : SxAt s n i (name ++ r)) (hname : 0 ∉ name) (hi : NulFrom s i) :
    NulFrom s (n - r.length) := by
  induction name generalizing i with
  | nil => rwa [SxAt.pos_eq (u := r) h]
  | cons c name ih =>
    have hc := h.octet 0 (Nat.succ_pos _)
    rw [List.mem_cons, not_or] at hname
    cases hi with
    | here h0 =>
      rw [show s i = some c from hc] at h0
      exact absurd (Option.some.inj h0).symm hname.1
    | next _ rest => exact ih h.tail hname.2 rest

theorem SxAt.nulFrom_of_mem (h : SxAt s n i (name ++ r)) (hname : 0 ∈ name) : NulFrom s i := by
  induction name generalizing i with
  | nil => cases hname
  | cons c name ih =>
    have hc := h.octet 0 (Nat.succ_pos _)
    rcases List.mem_cons.mp hname with h0 | h0
    · exact .here (hc.trans (congrArg some h0.symm))
    · exact .next hc (ih h.tail h0)

/-- What `strlcpy` reads behind the octets it copied. -/
def nulBehind (fuel : Nat) (s : SxText) (n : Nat) (name r : List Octet) : Exec Unit :=
  if name.contains 0 then .ok () else strlcpyTraverse s fuel (n - r.length)

theorem strlcpyCopy_at (h : SxAt s n i (name ++ r)) :
    strlcpyCopy s name.length i = .ok (name.takeWhile (· != 0), name.contains 0) := by
  induction name generalizing i with
  | nil => rfl
  | cons c name ih =>
    rw [List.length_cons, strlcpyCopy, SxAt.read h, ok_bind]
    by_cases hc : c = 0
    · subst hc
      rfl
    · rw [if_neg hc, ih h.tail, List.takeWhile_cons_of_pos (by simpa using hc),
        List.contains_cons, (beq_eq_false_iff_ne.mpr (Ne.symm hc) : (0 == c) = false)]
      rfl

theorem sxMakeSymboln_at (h : SxAt s n i (name ++ r)) :
    sxMakeSymboln fuel s i name.length =
      nulBehind fuel s n name r >>= fun _ => .ok (.symbol (name.takeWhile (· != 0))) := by
  have hbehind : i + name.length = n - r.length := (h.append.pos_eq).symm
  rw [sxMakeSymboln, strlcpy, Nat.add_sub_cancel, strlcpyCopy_at h, ok_bind, nulBehind, hbehind]
  cases name.contains 0 with
  | true => rfl
  | false =>
    cases strlcpyTraverse s fuel (n - r.length) <;> rfl

/-- What follows a symbol is read if there is a NUL from its first octet on, and only then. -/
theorem nulBehind_returns (h : SxAt s n i (name ++ r)) (hi : NulFrom s i) :
    Returns (fun fuel => nulBehind fuel s n name r) () := by
  by_cases h0 : name.contains 0 = true
  · exact .of_eq fun fuel => if_pos h0
  · refine (h.nulFrom_behind (fun hmem => h0 (List.contains_iff_mem.mpr hmem)) hi).traversed.congr
      fun fuel => if_neg h0

theorem nulFrom_of_nulBehind (h : SxAt s n i (name ++ r))
    (hread : nulBehind fuel s n name r = .ok ()) : NulFrom s i := by
  by_cases h0 : name.contains 0 = true
  · exact h.nulFrom_of_mem (List.contains_iff_mem.mp h0)
  · rw [nulBehind, if_neg h0] at hread
    exact h.nulFrom_append (nulFrom_of_traversed hread)

end Symbol

/-! ## 3. Tokens -/

section Token

variable {s : SxText} {n i fuel : Nat} {c : Octet} {u v ds r : List Octet}

theorem parseSymbol_at {name : List Octet} (h : SxAt s n i (name ++ r))
    (chars : ∀ c ∈ name, issymch c = true) (delimited : Delimited r) :
    parseSymbol fuel s n i = nulBehind fuel s n name r >>= fun _ =>
      .ok (.symbol (name.takeWhile (· != 0)), n - r.length) := by
  have hstop := not_delimited_of (fun c => (char_classes c).2.2) delimited
  have hbehind := h.append
  have hlen : n - r.length - i = name.length := by rw [hbehind.pos_eq]; omega
  rw [← hbehind.pos_eq] at hbehind
  rw [parseSymbol, scanLoop_at h chars hstop, ok_bind, brokenOff_at hbehind delimited, ok_bind,
    if_neg Bool.false_ne_true, hlen, sxMakeSymboln_at h, Nat.min_eq_left (Nat.sub_le _ _)]
  cases nulBehind fuel s n name r <;> rfl

theorem parseSymbol_broken {name : List Octet} (h : SxAt s n i (name ++ r))
    (chars : ∀ c ∈ name, issymch c = true) (hstop : ∀ c ∈ r.head?, issymch c = false)
    (delimited : ¬Delimited r) : parseSymbol fuel s n i = .ok (.null, n - r.length) := by
  have hbehind := h.append
  rw [← hbehind.pos_eq] at hbehind
  rw [parseSymbol, scanLoop_at h chars hstop, ok_bind, brokenOff_at_neg hbehind delimited, ok_bind,
    if_pos rfl]

/-- A number, behind the octets in front of its digits. -/
theorem parseInteger_at {pre : List Octet} {digitpredicate : Octet → Bool} (base : BitVec 64)
    (h : SxAt s n i (pre ++ (ds ++ r))) (chars : ∀ c ∈ ds, digitpredicate c = true)
    (hp : ∀ c, digitpredicate c = true → nextisdelimiter c = false) (delimited : Delimited r) :
    parseInteger_ s n i pre.length digitpredicate base =
      .ok (.integer (sxValue base (pre ++ ds)), n - r.length) := by
  have hbehind := h.append.append
  have hlen : n - r.length - i = (pre ++ ds).length := by
    rw [hbehind.pos_eq, List.length_append]
    omega
  rw [← hbehind.pos_eq] at hbehind
  have hall : SxAt s n i ((pre ++ ds) ++ r) := by rwa [List.append_assoc]
  rw [parseInteger_, scanLoop_at h.append chars (not_delimited_of hp delimited), ok_bind,
    brokenOff_at hbehind delimited, ok_bind, if_neg Bool.false_ne_true, hlen,
    integerLoop_at base hall, ok_bind, Nat.min_eq_left (Nat.sub_le _ _)]
  simp

theorem parseInteger_broken {pre : List Octet} {digitpredicate : Octet → Bool} (base : BitVec 64)
    (h : SxAt s n i (pre ++ (ds ++ r))) (chars : ∀ c ∈ ds, digitpredicate c = true)
    (hstop : ∀ c ∈ r.head?, digitpredicate c = false) (delimited : ¬Delimited r) :
    parseInteger_ s n i pre.length digitpredicate base = .ok (.null, n - r.length) := by
  have hbehind := h.append.append
  rw [← hbehind.pos_eq] at hbehind
  rw [parseInteger_, scanLoop_at h.append chars hstop, ok_bind, brokenOff_at_neg hbehind delimited,
    ok_bind, if_pos rfl]

/-- A number, or digits that are broken off: what becomes of them. -/
theorem tokenResult_integer {pre : List Octet} {digitpredicate : Octet → Bool} (base : BitVec 64)
    (h : SxAt s n i (pre ++ (ds ++ r))) (chars : ∀ c ∈ ds, digitpredicate c = true)
    (hp : ∀ c, digitpredicate c = true → nextisdelimiter c = false)
    (hstop : ∀ c ∈ r.head?, digitpredicate c = false) :
    (Delimited r → tokenResult .brokenInteger <$> parseInteger_ s n i pre.length digitpredicate base
      = .ok ⟨n - r.length, .success, .integer (sxValue base (pre ++ ds))⟩) ∧
    (¬Delimited r →
    tokenResult .brokenInteger <$> parseInteger_ s n i pre.length digitpredicate base
      = .ok ⟨n - r.length, .brokenInteger, .null⟩) := by
  constructor
  · intro delimited
    rw [parseInteger_at base h chars hp delimited]
    rfl
  · intro delimited
    rw [parseInteger_broken base h chars hstop delimited]
    rfl

/-! ### What the parser looks at -/

theorem not_hash (hc : c ≠ sxChar '#') : ∀ v, c :: u ≠ sxChar '#' :: sxChar 'x' :: v :=
  fun _ he => hc (List.cons.inj he).1

theorem lookingAtHex_of_ne (h : SxAt s n i (c :: u))
    (hne : ∀ v, c :: u ≠ sxChar '#' :: sxChar 'x' :: v) : lookingAtHex s n i = .ok false := by
  have hend := h.end_eq
  unfold lookingAtHex
  split
  · rw [h.read, ok_bind]
    split
    · rename_i hc
      cases u with
      | nil => simp at hend; omega
      | cons c₁ v =>
        rw [h.tail.read, ok_bind, if_neg fun hx => hne v (by rw [hc, hx])]
    · rfl
  · rfl

theorem lookingAtHex_of_digit (h : SxAt s n i (sxChar '#' :: sxChar 'x' :: c :: v)) :
    lookingAtHex s n i = .ok (isxdigit c) := by
  have hend := h.end_eq
  rw [lookingAtHex, if_pos (by simp at hend; omega), h.read, ok_bind, if_pos rfl, h.tail.read,
    ok_bind, if_pos rfl, show i + 2 = i + 1 + 1 from rfl, h.tail.tail.read, ok_bind]

/-- A `#x` at the end of the text: the octet behind the text decides. -/
theorem lookingAtHex_of_end (h : SxAt s n i [sxChar '#', sxChar 'x']) :
    lookingAtHex s n i = readOctet s n >>= fun c => .ok (isxdigit c) := by
  have hend : i + 2 = n := h.end_eq
  rw [lookingAtHex, if_pos (by omega), h.read, ok_bind, if_pos rfl, h.tail.read, ok_bind,
    if_pos rfl, hend]

theorem lookingAt_of (h : SxAt s n i (c :: v)) (hx : lookingAtHex s n i = .ok false) :
    lookingAt s n i = .ok (if c = sxChar '(' then .parenOpen
      else if c = sxChar ')' then .parenClose
      else if isdigit c then .intDec
      else if issyminitch c then .symbol
      else .unknown) := by
  rw [lookingAt, hx, ok_bind, if_neg Bool.false_ne_true, h.read, ok_bind]

theorem lookingAt_of_digit (h : SxAt s n i (sxChar '#' :: sxChar 'x' :: c :: v))
    (hc : isxdigit c = true) : lookingAt s n i = .ok .intHex := by
  rw [lookingAt, lookingAtHex_of_digit h, ok_bind, if_pos hc]

/-- `sx_parse_token`, in front of something. -/
theorem sxParseToken_of (h : SxAt s n i u) (hu : skipSpace u = c :: v) :
    sxParseToken fuel s n i = lookingAt s n (n - (c :: v).length) >>= fun what =>
      sxParseWhat fuel s n (n - (c :: v).length) what := by
  obtain ⟨hskip, hat⟩ := skipWs_at h
  rw [hu] at hskip hat
  have hend := hat.end_eq
  have hpos : 0 < (c :: v).length := Nat.succ_pos _
  rw [sxParseToken, hskip, ok_bind, if_neg (by omega)]

theorem sxParseToken_blank (h : SxAt s n i u) (hu : skipSpace u = []) :
    sxParseToken fuel s n i = .ok ⟨n, .success, .null⟩ := by
  obtain ⟨hskip, -⟩ := skipWs_at h
  rw [hu] at hskip
  rw [sxParseToken, hskip, ok_bind]
  exact if_pos rfl

theorem sxParseToken_open (h : SxAt s n i u) (hu : skipSpace u = sxChar '(' :: v) :
    sxParseToken fuel s n i = .ok ⟨n - v.length, .foundList, .null⟩ := by
  have hat := h.skip hu
  have hlook := lookingAt_of hat (lookingAtHex_of_ne hat (not_hash (by decide)))
  rw [if_pos rfl] at hlook
  rw [sxParseToken_of h hu, hlook, ok_bind, sxParseWhat, hat.tail.pos_eq]
  rfl

theorem sxParseToken_close (h : SxAt s n i u) (hu : skipSpace u = sxChar ')' :: v) :
    sxParseToken fuel s n i = .ok ⟨n - v.length, .success, .emptyList⟩ := by
  have hat := h.skip hu
  have hlook := lookingAt_of hat (lookingAtHex_of_ne hat (not_hash (by decide)))
  rw [if_neg (by decide), if_pos rfl] at hlook
  rw [sxParseToken_of h hu, hlook, ok_bind, sxParseWhat, hat.tail.pos_eq]
  rfl

/-- What an octet that is no parenthesis is taken for. -/
theorem lookingAt_of_char (h : SxAt s n i (c :: v)) (hx : lookingAtHex s n i = .ok false)
    (hc : nextisdelimiter c = false) :
    lookingAt s n i = .ok (if isdigit c then .intDec else if issyminitch c then .symbol
      else .unknown) := by
  have hopen : c ≠ sxChar '(' := fun he => by rw [he] at hc; exact absurd hc (by decide)
  have hclose : c ≠ sxChar ')' := fun he => by rw [he] at hc; exact absurd hc (by decide)
  rw [lookingAt_of h hx, if_neg hopen, if_neg hclose]

theorem isdigit_ne_hash (hc : isdigit c = true) : c ≠ sxChar '#' := by
  rintro rfl
  exact absurd hc (by decide)

theorem issyminitch_ne_hash (hc : issyminitch c = true) : c ≠ sxChar '#' := by
  rintro rfl
  exact absurd hc (by decide)

/-- In front of digits: a number, or digits that are broken off. -/
theorem sxParseToken_digits (h : SxAt s n i u) (hu : skipSpace u = ds ++ r) (ne_nil : ds ≠ [])
    (chars : ∀ c ∈ ds, isdigit c = true) (hstop : ∀ c ∈ r.head?, isdigit c = false) :
    (Delimited r → sxParseToken fuel s n i =
      .ok ⟨n - r.length, .success, .integer (sxValue 10 ds)⟩) ∧
    (¬Delimited r → sxParseToken fuel s n i = .ok ⟨n - r.length, .brokenInteger, .null⟩) := by
  obtain ⟨c, ds', rfl⟩ := List.exists_cons_of_ne_nil ne_nil
  rw [List.cons_append] at hu
  have hc := chars c List.mem_cons_self
  have hdelim := (((char_classes c).1 hc)).1
  have hat := h.skip hu
  have hlook := lookingAt_of_char hat
    (lookingAtHex_of_ne hat (not_hash (isdigit_ne_hash hc))) hdelim
  rw [if_pos hc] at hlook
  rw [sxParseToken_of h hu, hlook, ok_bind, sxParseWhat, parseInteger]
  have hat' : SxAt s n _ ([] ++ ((c :: ds') ++ r)) := hat
  exact tokenResult_integer 10 hat' chars (fun c hc => ((char_classes c).1 hc).1) hstop

/-- In front of a `#x` and digits: a number, or digits that are broken off. -/
theorem sxParseToken_xdigits (h : SxAt s n i u)
    (hu : skipSpace u = sxChar '#' :: sxChar 'x' :: (ds ++ r)) (ne_nil : ds ≠ [])
    (chars : ∀ c ∈ ds, isxdigit c = true) (hstop : ∀ c ∈ r.head?, isxdigit c = false) :
    (Delimited r → sxParseToken fuel s n i =
      .ok ⟨n - r.length, .success, .integer (sxValue 16 (sxChar '#' :: sxChar 'x' :: ds))⟩) ∧
    (¬Delimited r → sxParseToken fuel s n i = .ok ⟨n - r.length, .brokenInteger, .null⟩) := by
  obtain ⟨c, ds', rfl⟩ := List.exists_cons_of_ne_nil ne_nil
  rw [List.cons_append] at hu
  have hc := chars c List.mem_cons_self
  have hat := h.skip hu
  have hlook := lookingAt_of_digit hat hc
  rw [sxParseToken_of h hu, hlook, ok_bind, sxParseWhat, parseHinteger]
  have hat' : SxAt s n _ ([sxChar '#', sxChar 'x'] ++ ((c :: ds') ++ r)) := hat
  exact tokenResult_integer 16 hat' chars (fun c => (char_classes c).2.1) hstop

/-- In front of a character of a symbol: the symbol, once what follows was read up to a NUL, or
    characters that are broken off. -/
theorem sxParseToken_chars {cs : List Octet} (h : SxAt s n i u) (hu : skipSpace u = c :: (cs ++ r))
    (init : issyminitch c = true) (chars : ∀ x ∈ cs, issymch x = true)
    (hstop : ∀ c ∈ r.head?, issymch c = false) :
    (Delimited r → sxParseToken fuel s n i = nulBehind fuel s n (c :: cs) r >>= fun _ =>
      .ok ⟨n - r.length, .success, .symbol ((c :: cs).takeWhile (· != 0))⟩) ∧
    (¬Delimited r → sxParseToken fuel s n i = .ok ⟨n - r.length, .brokenSymbol, .null⟩) := by
  have hsym : issymch c = true := by rw [issymch, init]; rfl
  have hdelim := (char_classes c).2.2 hsym
  have hdigit : ¬isdigit c = true := fun hd => by
    rw [((char_classes c).1 hd).2] at init
    cases init
  have hall : ∀ x ∈ c :: cs, issymch x = true := List.forall_mem_cons.mpr ⟨hsym, chars⟩
  have hat := h.skip hu
  have hlook := lookingAt_of_char hat
    (lookingAtHex_of_ne hat (not_hash (issyminitch_ne_hash init))) hdelim
  rw [if_neg hdigit, if_pos init] at hlook
  have hat' : SxAt s n _ ((c :: cs) ++ r) := hat
  rw [sxParseToken_of h hu, hlook, ok_bind, sxParseWhat]
  refine ⟨fun delimited => ?_, fun delimited => ?_⟩
  · rw [parseSymbol_at hat' hall delimited]
    cases nulBehind fuel s n (c :: cs) r <;> rfl
  · rw [parseSymbol_broken hat' hall hstop delimited]
    rfl

end Token

/-! ## 4. What comes of a token -/

/-- What the parser needs in front of a token: a NUL from a symbol on, and an octet behind a `#x` at
    the end of the text. -/
structure TokenReady (s : SxText) (n : Nat) (v : List Octet) : Prop where
  symbol : ∀ b name r, SxToken b v (.symbol name) r → NulFrom s (n - v.length)
  lookahead : v = [sxChar '#', sxChar 'x'] → ∃ c, s n = some c

/-- What `sx_parse_token` returns in front of something that is no parenthesis. -/
inductive TokenOutcome (s : SxText) (n : Nat) (v : List Octet) : SxParseResult → Prop
  | token {b : Bool} {node : SxNode} {r : List Octet} (h : SxToken b v node r) :
      TokenOutcome s n v ⟨n - r.length, .success, node⟩
  | lookahead {c : Octet} (hv : v = [sxChar '#', sxChar 'x']) (hc : s n = some c)
      (digit : isxdigit c = true) : TokenOutcome s n v ⟨n, .success, .integer 0⟩
  | broken {res : SxParseResult} (h : resultIsError res = true) : TokenOutcome s n v res

section Outcome

variable {s : SxText} {n i fuel : Nat} {b : Bool} {u r : List Octet} {node : SxNode}
  {res : SxParseResult}

/-- **In front of a token, its node is returned, or nothing.** -/
theorem sxParseToken_result (h : SxAt s n i u) (ht : SxToken b (skipSpace u) node r)
    (hres : sxParseToken fuel s n i = .ok res) : res = ⟨n - r.length, .success, node⟩ := by
  generalize hv : skipSpace u = v at ht
  cases ht with
  | integer ne_nil chars delimited =>
    rw [(sxParseToken_digits h hv ne_nil chars
      (not_delimited_of (fun c hc => ((char_classes c).1 hc).1) delimited)).1 delimited] at hres
    exact (Except.ok.inj hres).symm
  | hinteger ne_nil chars delimited =>
    rw [(sxParseToken_xdigits h hv ne_nil chars
      (not_delimited_of (fun c => (char_classes c).2.1) delimited)).1 delimited] at hres
    exact (Except.ok.inj hres).symm
  | symbol init chars delimited =>
    rw [(sxParseToken_chars h hv init chars
      (not_delimited_of (fun c => (char_classes c).2.2) delimited)).1 delimited] at hres
    obtain ⟨-, -, hres⟩ := bind_eq_ok hres
    exact (Except.ok.inj hres).symm

/-- **No token is returned without what it needs.** -/
theorem sxParseToken_ready (h : SxAt s n i u) (hres : sxParseToken fuel s n i = .ok res) :
    TokenReady s n (skipSpace u) := by
  constructor
  · intro b name r ht
    generalize hv : skipSpace u = v at ht
    cases ht with
    | @symbol c cs r init chars delimited =>
      rw [(sxParseToken_chars h hv init chars
        (not_delimited_of (fun c => (char_classes c).2.2) delimited)).1 delimited] at hres
      obtain ⟨⟨⟩, hread, -⟩ := bind_eq_ok hres
      have hat : SxAt s n _ ((c :: cs) ++ r) := h.skip hv
      exact nulFrom_of_nulBehind hat hread
  · intro hv
    rw [sxParseToken_of h hv, lookingAt, lookingAtHex_of_end (h.skip hv)] at hres
    obtain ⟨what, hlook, -⟩ := bind_eq_ok hres
    obtain ⟨hex, hhex, -⟩ := bind_eq_ok hlook
    obtain ⟨c, hc, -⟩ := bind_eq_ok hhex
    unfold readOctet at hc
    cases hn : s n with
    | none => rw [hn] at hc; cases hc
    | some c => exact ⟨c, rfl⟩

theorem skipSpace_head {c : Octet} {v : List Octet} (hu : skipSpace u = c :: v) :
    isspace c = false := by
  obtain ⟨l, -, -, hstop⟩ := exists_run isspace u
  exact hstop c (by rw [show u.dropWhile isspace = c :: v from hu]; rfl)

/-- An octet that is nothing to the parser. -/
theorem sxParseToken_unknown {c : Octet} {v : List Octet} (h : SxAt s n i u)
    (hu : skipSpace u = c :: v)
    (hx : lookingAtHex s n (n - (c :: v).length) = .ok false) (hc : nextisdelimiter c = false)
    (hdigit : isdigit c = false) (hinit : issyminitch c = false) :
    sxParseToken fuel s n i = .ok ⟨n - (c :: v).length, .unknownInput, .null⟩ := by
  have hlook := lookingAt_of_char (h.skip hu) hx hc
  rw [hdigit, hinit, if_neg Bool.false_ne_true, if_neg Bool.false_ne_true] at hlook
  rw [sxParseToken_of h hu, hlook, ok_bind, sxParseWhat]
  rfl

/-- A `#x` at the end of the text: a number if the octet behind the text is a digit. -/
theorem sxParseToken_lookahead {c : Octet} (h : SxAt s n i u)
    (hu : skipSpace u = [sxChar '#', sxChar 'x']) (hc : s n = some c) :
    (isxdigit c = true → sxParseToken fuel s n i = .ok ⟨n, .success, .integer 0⟩) ∧
      (isxdigit c = false → sxParseToken fuel s n i = .ok ⟨n - 2, .unknownInput, .null⟩) := by
  have hlook := lookingAtHex_of_end (h.skip hu)
  rw [readOctet, hc, ok_bind] at hlook
  refine ⟨fun hx => ?_, fun hx => ?_⟩
  · have hat : SxAt s n _ ([sxChar '#', sxChar 'x'] ++ ([] ++ [])) := h.skip hu
    have hparse := parseInteger_at 16 hat (fun c hc => nomatch hc)
      (fun c => (char_classes c).2.1) (fun c hc => nomatch hc)
    rw [sxParseToken_of h hu, lookingAt, hlook, ok_bind, if_pos hx, ok_bind, sxParseWhat,
      parseHinteger]
    exact congrArg (tokenResult .brokenInteger <$> ·) hparse
  · exact sxParseToken_unknown h hu (hlook.trans (congrArg _ hx)) (by decide) (by decide)
      (by decide)

/-- In front of a `#x`. -/
theorem sxParseToken_outcome_hash {w : List Octet} (h : SxAt s n i u)
    (hu : skipSpace u = sxChar '#' :: sxChar 'x' :: w) (hready : TokenReady s n (skipSpace u)) :
    ∃ res, TokenOutcome s n (skipSpace u) res ∧
      Returns (fun fuel => sxParseToken fuel s n i) res := by
  have hat := h.skip hu
  cases w with
  | nil =>
    -- the octet behind the text
    obtain ⟨c, hc⟩ := hready.lookahead hu
    by_cases hx : isxdigit c = true
    · exact ⟨_, .lookahead hu hc hx, .of_eq fun fuel => (sxParseToken_lookahead h hu hc).1 hx⟩
    · exact ⟨_, .broken rfl, .of_eq fun fuel =>
        (sxParseToken_lookahead h hu hc).2 (Bool.not_eq_true _ ▸ hx)⟩
  | cons c w =>
    by_cases hx : isxdigit c = true
    · obtain ⟨ds, r, hw, hne, hchars, hstop⟩ := exists_run_cons hx w
      rw [hw] at hu
      by_cases hd : Delimited r
      · have ht := SxToken.hinteger hne hchars hd
        rw [← hu] at ht
        exact ⟨_, .token ht, .of_eq fun fuel => (sxParseToken_xdigits h hu hne hchars hstop).1 hd⟩
      · exact ⟨_, .broken rfl, .of_eq fun fuel =>
          (sxParseToken_xdigits h hu hne hchars hstop).2 hd⟩
    · have hlook := (lookingAtHex_of_digit hat).trans (congrArg _ (Bool.not_eq_true _ ▸ hx))
      exact ⟨_, .broken rfl, .of_eq fun fuel =>
        sxParseToken_unknown h hu hlook (by decide) (by decide) (by decide)⟩

/-- **In front of anything but a parenthesis, `sx_parse_token` returns** a token, an error or,
    behind the text, the digit of a number. -/
theorem sxParseToken_outcome {c : Octet} {v : List Octet} (h : SxAt s n i u)
    (hu : skipSpace u = c :: v) (hopen : c ≠ sxChar '(') (hclose : c ≠ sxChar ')')
    (hready : TokenReady s n (skipSpace u)) :
    ∃ res, TokenOutcome s n (skipSpace u) res ∧
      Returns (fun fuel => sxParseToken fuel s n i) res := by
  by_cases hash : ∃ w, c :: v = sxChar '#' :: sxChar 'x' :: w
  · obtain ⟨w, hw⟩ := hash
    exact sxParseToken_outcome_hash h (hu.trans hw) hready
  have hx := lookingAtHex_of_ne (h.skip hu) fun w hw => hash ⟨w, hw⟩
  have hdelim : nextisdelimiter c = false := by
    rw [nextisdelimiter, skipSpace_head hu, beq_eq_false_iff_ne.mpr hopen,
      beq_eq_false_iff_ne.mpr hclose]
    rfl
  by_cases hdigit : isdigit c = true
  · obtain ⟨ds, r, hw, hne, hchars, hstop⟩ := exists_run_cons hdigit v
    rw [hw] at hu
    by_cases hd : Delimited r
    · have ht := SxToken.integer hne hchars hd
      rw [← hu] at ht
      exact ⟨_, .token ht, .of_eq fun fuel => (sxParseToken_digits h hu hne hchars hstop).1 hd⟩
    · exact ⟨_, .broken rfl, .of_eq fun fuel =>
        (sxParseToken_digits h hu hne hchars hstop).2 hd⟩
  · by_cases hinit : issyminitch c = true
    · obtain ⟨cs, hw, hchars, hstop⟩ := exists_run issymch v
      rw [hw] at hu
      generalize v.dropWhile issymch = r at hu hstop
      by_cases hd : Delimited r
      · have ht := SxToken.symbol hinit hchars hd
        rw [← List.cons_append, List.cons_append, ← hu] at ht
        have hnul := hready.symbol _ _ _ ht
        rw [hu] at hnul
        have hat : SxAt s n _ ((c :: cs) ++ r) := h.skip hu
        refine ⟨_, .token ht, (nulBehind_returns hat hnul).after fun fuel hread => ?_⟩
        rw [(sxParseToken_chars h hu hinit hchars hstop).1 hd, hread, ok_bind]
      · exact ⟨_, .broken rfl, .of_eq fun fuel =>
          (sxParseToken_chars h hu hinit hchars hstop).2 hd⟩
    · exact ⟨_, .broken rfl, .of_eq fun fuel => sxParseToken_unknown h hu hx hdelim
        (Bool.not_eq_true _ ▸ hdigit) (Bool.not_eq_true _ ▸ hinit)⟩

end Outcome

end Ufw
