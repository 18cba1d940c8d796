/-
  File:      Ufw/Sx/Parser.lean
  Subject:   THE S-EXPRESSION PARSER AND ITS GRAMMAR: which texts `sx_parse` accepts.

  * `SxReads.result` -- **where the parser reads a part, that is what it returns, or nothing**;
  * `SxLooks.ready` -- it returns nothing unless every token it looks at has what it needs;
  * `sxDatum_outcome` -- with all of that, it returns: what it read, an error, or one of three
    things that are neither;
  * `SxSlip` -- a text the parser accepts and the grammar does not, or not in this way;
  * `acceptsGrammar_iff` -- **the parser accepts exactly its grammar on the texts without a slip.**
-/
import Ufw.Sx.Scanner

namespace Ufw

open Base

/-! ## 1. The two functions -/

/-- The function that reads a part. -/
def sxRun : SxPart → Nat → SxText → Nat → Nat → Exec SxParseResult
  | .datum => sxParse_
  | .rest => sxParseList

section Functions

variable {s : SxText} {n i fuel : Nat} {b : Bool} {part : SxPart} {u v w r : List Octet}
  {node : SxNode} {res : SxParseResult}

/-- Without fuel nothing is returned. -/
theorem sxRun_succ (h : sxRun part fuel s n i = .ok res) : ∃ k, fuel = k + 1 := by
  cases fuel with
  | zero => cases part <;> cases h
  | succ k => exact ⟨k, rfl⟩

theorem sxList_end (hi : n ≤ i) :
    sxParseList (fuel + 1) s n i = .ok ⟨0, .unexpectedEnd, .null⟩ := by
  rw [sxParseList, if_pos hi]
  rfl

/-- The list ends with its first datum, or what was taken for one. -/
theorem sxList_stops {carres : SxParseResult} (hi : i < n) (h : sxParse_ fuel s n i = .ok carres)
    (hstop : (resultIsEmptyListp carres || resultIsError carres) = true) :
    sxParseList (fuel + 1) s n i = .ok carres := by
  rw [sxParseList, if_neg (not_le.mpr hi), h, ok_bind, if_pos hstop]

/-- The list goes on behind its first datum. -/
theorem sxList_goes_on {carres : SxParseResult} (hi : i < n) (h : sxParse_ fuel s n i = .ok carres)
    (hgo : (resultIsEmptyListp carres || resultIsError carres) = false) :
    sxParseList (fuel + 1) s n i = sxParseList fuel s n carres.position >>= fun cdrres =>
      .ok { cdrres with node := .pair carres.node cdrres.node } := by
  rw [sxParseList, if_neg (not_le.mpr hi), h, ok_bind, hgo, if_neg Bool.false_ne_true]

/-- A list that is returned has a first datum that is. -/
theorem sxList_first (hi : i < n) (h : sxParseList (fuel + 1) s n i = .ok res) :
    ∃ carres, sxParse_ fuel s n i = .ok carres := by
  rw [sxParseList, if_neg (not_le.mpr hi)] at h
  obtain ⟨carres, hcar, -⟩ := bind_eq_ok h
  exact ⟨carres, hcar⟩

/-- What is returned in front of a token. -/
theorem sxDatum_of_token {rv : SxParseResult} (h : sxParseToken fuel s n i = .ok rv)
    (hstatus : rv.status ≠ .foundList) :
    sxParse_ (fuel + 1) s n i =
      .ok (if n ≤ i ∧ rv.node.isNull then { rv with status := .unexpectedEnd } else rv) := by
  rw [sxParse_, h, ok_bind, if_neg hstatus]
  split <;> rfl

theorem sxDatum_of_open (h : SxAt s n i u) (hu : skipSpace u = sxChar '(' :: v) :
    sxParse_ (fuel + 1) s n i = sxParseList fuel s n (n - v.length) := by
  rw [sxParse_, sxParseToken_open h hu, ok_bind, if_pos rfl]

theorem sxDatum_of_close (h : SxAt s n i u) (hu : skipSpace u = sxChar ')' :: r) :
    sxParse_ (fuel + 1) s n i = .ok ⟨n - r.length, .success, .emptyList⟩ := by
  rw [sxDatum_of_token (sxParseToken_close h hu) (by simp), if_neg (by simp [SxNode.isNull])]

theorem SxAt.lt (h : SxAt s n i u) (hu : u ≠ []) : i < n := by
  have hend := h.end_eq
  have hpos := List.length_pos_iff.mpr hu
  omega

theorem SxAt.suffix (h : SxAt s n i u) (hr : r <:+ u) : SxAt s n (n - r.length) r := by
  obtain ⟨l, rfl⟩ := hr
  have hat := h.append
  rwa [← hat.pos_eq] at hat

theorem SxAt.behind_open (h : SxAt s n i u) (hu : skipSpace u = sxChar '(' :: v) :
    SxAt s n (n - v.length) v :=
  (h.skip hu).suffix (List.suffix_cons _ v)

theorem SxToken.not_null (h : SxToken b u node r) : node.isNull = false := by
  cases h <;> rfl

theorem ne_nil_of_skipSpace (hu : skipSpace u ≠ []) : u ≠ [] := by
  rintro rfl
  exact hu rfl

theorem SxReads.ne_nil (h : SxReads b part u node r) : u ≠ [] :=
  List.ne_nil_of_length_pos (Nat.zero_lt_of_lt h.length_lt)

/-! ## 2. What is returned -/

/-- **Where the parser reads a part, that is what it returns**, if it returns. -/
theorem SxReads.result (h : SxReads b part u node r) : ∀ {fuel i : Nat} {res : SxParseResult},
    SxAt s n i u → sxRun part fuel s n i = .ok res → res = ⟨n - r.length, .success, node⟩ := by
  induction h with
  | token h =>
    intro fuel i res hat hres
    obtain ⟨fuel, rfl⟩ := sxRun_succ hres
    obtain ⟨rv, hrv, -⟩ := bind_eq_ok hres
    obtain rfl := sxParseToken_result hat h hrv
    rw [sxRun, sxDatum_of_token hrv (by simp), h.not_null, if_neg (by simp)] at hres
    exact (Except.ok.inj hres).symm
  | list paren h ih =>
    intro fuel i res hat hres
    obtain ⟨fuel, rfl⟩ := sxRun_succ hres
    rw [sxRun, sxDatum_of_open hat paren] at hres
    exact ih (hat.behind_open paren) hres
  | @close u r paren =>
    intro fuel i res hat hres
    have hne : u ≠ [] := ne_nil_of_skipSpace (by rw [paren]; exact List.cons_ne_nil _ _)
    obtain ⟨fuel, rfl⟩ := sxRun_succ hres
    obtain ⟨carres, hcar⟩ := sxList_first (hat.lt hne) hres
    have hdatum : sxRun .datum _ _ _ _ = .ok carres := hcar
    obtain ⟨fuel, rfl⟩ := sxRun_succ hdatum
    rw [sxRun, sxList_stops (hat.lt hne) (sxDatum_of_close hat paren) rfl] at hres
    exact (Except.ok.inj hres).symm
  | slip first ih =>
    intro fuel i res hat hres
    obtain ⟨fuel, rfl⟩ := sxRun_succ hres
    obtain ⟨carres, hcar⟩ := sxList_first (hat.lt first.ne_nil) hres
    obtain rfl := ih hat hcar
    rw [sxRun, sxList_stops (hat.lt first.ne_nil) hcar rfl] at hres
    exact (Except.ok.inj hres).symm
  | more first ne_empty h ih ih' =>
    intro fuel i res hat hres
    obtain ⟨fuel, rfl⟩ := sxRun_succ hres
    obtain ⟨carres, hcar⟩ := sxList_first (hat.lt first.ne_nil) hres
    obtain rfl := ih hat hcar
    rw [sxRun, sxList_goes_on (hat.lt first.ne_nil) hcar
      (by simp [resultIsEmptyListp, resultIsError, ne_empty])] at hres
    obtain ⟨cdrres, hcdr, hres⟩ := bind_eq_ok hres
    obtain rfl := ih' (hat.suffix first.suffix) hcdr
    exact (Except.ok.inj hres).symm

/-- Something is there to be looked at. -/
theorem SxLooks.ne_nil (h : SxLooks part u w) : u ≠ [] := by
  induction h with
  | here ne_nil => exact ne_nil_of_skipSpace ne_nil
  | inside paren => exact ne_nil_of_skipSpace (by rw [paren]; exact List.cons_ne_nil _ _)
  | first h ih => exact ih
  | next first => exact first.ne_nil

/-- **Nothing is returned unless every token the parser looks at has what it needs.** -/
theorem SxLooks.ready (h : SxLooks part u w) : ∀ {fuel i : Nat} {res : SxParseResult},
    SxAt s n i u → sxRun part fuel s n i = .ok res → TokenReady s n w := by
  induction h with
  | here ne_nil =>
    intro fuel i res hat hres
    obtain ⟨fuel, rfl⟩ := sxRun_succ hres
    obtain ⟨rv, hrv, -⟩ := bind_eq_ok hres
    exact sxParseToken_ready hat hrv
  | inside paren h ih =>
    intro fuel i res hat hres
    obtain ⟨fuel, rfl⟩ := sxRun_succ hres
    rw [sxRun, sxDatum_of_open hat paren] at hres
    exact ih (hat.behind_open paren) hres
  | first h ih =>
    intro fuel i res hat hres
    obtain ⟨fuel, rfl⟩ := sxRun_succ hres
    obtain ⟨carres, hcar⟩ := sxList_first (hat.lt h.ne_nil) hres
    exact ih hat hcar
  | next first ne_empty h ih =>
    intro fuel i res hat hres
    obtain ⟨fuel, rfl⟩ := sxRun_succ hres
    obtain ⟨carres, hcar⟩ := sxList_first (hat.lt first.ne_nil) hres
    obtain rfl := first.result hat hcar
    rw [sxRun, sxList_goes_on (hat.lt first.ne_nil) hcar
      (by simp [resultIsEmptyListp, resultIsError, ne_empty])] at hres
    obtain ⟨cdrres, hcdr, -⟩ := bind_eq_ok hres
    exact ih (hat.suffix first.suffix) hcdr

end Functions

/-! ## 3. That something is returned -/

/-- What comes of a part: what was read there; three things that are neither read nor an error, a
    closing parenthesis, nothing at all, and a number whose only digit stands behind the text; or an
    error. -/
inductive SxOutcome (s : SxText) (n : Nat) : SxPart → List Octet → SxParseResult → Prop
  | reads {b : Bool} {part : SxPart} {u r : List Octet} {node : SxNode}
      (h : SxReads b part u node r) : SxOutcome s n part u ⟨n - r.length, .success, node⟩
  | stray {u r : List Octet} (paren : skipSpace u = sxChar ')' :: r) :
      SxOutcome s n .datum u ⟨n - r.length, .success, .emptyList⟩
  | blank {u : List Octet} (nothing : skipSpace u = []) (ne_nil : u ≠ []) :
      SxOutcome s n .datum u ⟨n, .success, .null⟩
  | lookahead {u : List Octet} {c : Octet} (hash : skipSpace u = [sxChar '#', sxChar 'x'])
      (hc : s n = some c) (digit : isxdigit c = true) :
      SxOutcome s n .datum u ⟨n, .success, .integer 0⟩
  | error {part : SxPart} {u : List Octet} {res : SxParseResult} (h : resultIsError res = true) :
      SxOutcome s n part u res

/-- A part is returned, whatever it is. -/
def SxTotal (s : SxText) (n i : Nat) (part : SxPart) (u : List Octet) : Prop :=
  ∃ res, SxOutcome s n part u res ∧ Returns (fun fuel => sxRun part fuel s n i) res

/-- Every token the parser looks at has what it needs. -/
def SxReady (s : SxText) (n : Nat) (part : SxPart) (u : List Octet) : Prop :=
  ∀ w, SxLooks part u w → TokenReady s n w

section Total

variable {s : SxText} {n i : Nat} {u : List Octet}

/-- A datum is returned if the rest of every shorter list is. -/
theorem sxDatum_total_of (h : SxAt s n i u) (hready : SxReady s n .datum u)
    (ih : ∀ v i, v.length < u.length → SxAt s n i v → SxReady s n .rest v → SxTotal s n i .rest v) :
    SxTotal s n i .datum u := by
  cases hu : skipSpace u with
  | nil =>
    have htoken : ∀ fuel, sxParseToken fuel s n i = .ok ⟨n, .success, .null⟩ :=
      fun _ => sxParseToken_blank h hu
    by_cases hn : n ≤ i
    · refine ⟨⟨n, .unexpectedEnd, .null⟩, .error rfl, .of_succ fun fuel => ?_⟩
      rw [sxRun, sxDatum_of_token (htoken fuel) (by simp), if_pos ⟨hn, rfl⟩]
    · refine ⟨⟨n, .success, .null⟩, .blank hu ?_, .of_succ fun fuel => ?_⟩
      · rintro rfl
        have hend := h.end_eq
        simp at hend
        omega
      · rw [sxRun, sxDatum_of_token (htoken fuel) (by simp), if_neg fun hc => hn hc.1]
  | cons c v =>
    have hne : skipSpace u ≠ [] := by rw [hu]; exact List.cons_ne_nil c v
    have hi := h.lt (ne_nil_of_skipSpace hne)
    by_cases hopen : c = sxChar '('
    · subst hopen
      have hlen := length_skipSpace_le u
      rw [hu, List.length_cons] at hlen
      obtain ⟨res, hout, hret⟩ := ih v _ hlen (h.behind_open hu) fun w hw =>
        hready w (.inside hu hw)
      refine ⟨res, ?_, hret.step fun fuel => sxDatum_of_open h hu⟩
      cases hout with
      | reads h => exact .reads (.list hu h)
      | error h => exact .error h
    · by_cases hclose : c = sxChar ')'
      · subst hclose
        exact ⟨_, .stray hu, .of_succ fun fuel => sxDatum_of_close h hu⟩
      · obtain ⟨rv, hout, hret⟩ := sxParseToken_outcome h hu hopen hclose (hready _ (.here hne))
        have hstatus : rv.status ≠ .foundList := by
          cases hout with
          | token | lookahead => exact fun he => nomatch he
          | broken herr =>
            intro he
            rw [resultIsError, he] at herr
            cases herr
        refine ⟨rv, ?_, Returns.step_seq (fun fuel hrv => ?_) hret (.of_eq fun _ => rfl)⟩
        · cases hout with
          | token h => exact .reads (.token h)
          | lookahead hv hc digit => exact .lookahead hv hc digit
          | broken h => exact .error h
        · rw [sxRun, sxDatum_of_token hrv hstatus, if_neg fun hc => not_le.mpr hi hc.1]

/-- The rest of a list is returned. -/
theorem sxRest_total (h : SxAt s n i u) (hready : SxReady s n .rest u) : SxTotal s n i .rest u := by
  induction hlen : u.length using Nat.strong_induction_on generalizing u i with
  | _ len ih =>
    subst hlen
    by_cases hu : u = []
    · have hend := h.end_eq
      rw [hu, List.length_nil] at hend
      exact ⟨_, .error rfl, .of_succ fun fuel => sxList_end (by omega)⟩
    have hi := h.lt hu
    obtain ⟨carres, hout, hret⟩ := sxDatum_total_of h (fun w hw => hready w (.first hw))
      fun v i hv hat hr => ih v.length hv hat hr rfl
    -- a first datum that ends the list
    have hstop : (resultIsEmptyListp carres || resultIsError carres) = true →
        Returns (fun fuel => sxRun .rest fuel s n i) carres := fun hs =>
      Returns.step_seq (fun fuel hcar => sxList_stops hi hcar hs) hret (.of_eq fun _ => rfl)
    -- a first datum behind which there is nothing
    have hend : (resultIsEmptyListp carres || resultIsError carres) = false →
        carres.position = n → SxTotal s n i .rest u := fun hs hpos =>
      ⟨_, .error rfl, Returns.step_seq (fun fuel hcar => sxList_goes_on hi hcar hs) hret
        (.of_succ fun fuel => by rw [sxList_end (by omega), ok_bind])⟩
    cases hout with
    | @reads b _ _ v node hreads =>
      by_cases hempty : node = .emptyList
      · exact ⟨_, .reads (.slip (hempty ▸ hreads)), hempty ▸ hstop (by rw [hempty]; rfl)⟩
      · have hgo : (resultIsEmptyListp (⟨n - v.length, .success, node⟩ : SxParseResult) ||
            resultIsError ⟨n - v.length, .success, node⟩) = false := by
          simp [resultIsEmptyListp, resultIsError, hempty]
        obtain ⟨cdrres, hout', hret'⟩ := ih v.length hreads.length_lt (h.suffix hreads.suffix)
          (fun w hw => hready w (.next hreads hempty hw)) rfl
        refine ⟨{ cdrres with node := .pair node cdrres.node }, ?_,
          Returns.step_seq (fun fuel hcar => sxList_goes_on hi hcar hgo) hret
            (hret'.after fun fuel hcdr => ?_)⟩
        · cases hout' with
          | reads h' => exact .reads (.more hreads hempty h')
          | error herr => exact .error herr
        · show (sxRun .rest fuel s n (n - v.length) >>= _) = _
          rw [hcdr, ok_bind]
    | stray paren => exact ⟨_, .reads (.close paren), hstop rfl⟩
    | blank => exact hend rfl rfl
    | lookahead => exact hend rfl rfl
    | error herr => exact ⟨_, .error herr, hstop (by rw [herr, Bool.or_true])⟩

/-- **The parser returns** where every token it looks at has what it needs. -/
theorem sxDatum_total (h : SxAt s n i u) (hready : SxReady s n .datum u) :
    SxTotal s n i .datum u :=
  sxDatum_total_of h hready fun _ _ _ hat hr => sxRest_total hat hr

end Total

/-! ## 4. The texts that are accepted -/

/-- What `sx_parse` makes of what `sx_parse_` returned. -/
def sxFinish (rv : SxParseResult) : SxParseResult :=
  if resultIsError rv then { rv with node := .null } else rv

/-- **A slip**: the parser takes a text, or a part of it, for a datum, and it is none. -/
inductive SxSlip (s : SxText) (n : Nat) (u : List Octet) : Prop
  | blank (nothing : skipSpace u = []) (ne_nil : u ≠ [])
  | stray {r : List Octet} (paren : skipSpace u = sxChar ')' :: r)
  | lookahead {c : Octet} (hash : skipSpace u = [sxChar '#', sxChar 'x']) (hc : s n = some c)
      (digit : isxdigit c = true)
  | inside {r : List Octet} {node : SxNode} (h : SxReads true .datum u node r)

/-- **The parser is right about a text**: it reports success exactly if the text begins with a
    datum, with a node and the position behind the datum, and otherwise an error without a node. -/
def SxAcceptsGrammar (s : SxText) (u : List Octet) : Prop :=
  ∃ res, Returns (fun fuel => sxParse fuel s u.length 0) res ∧
    (∀ r, SxGrammar .datum u r →
      res.status = .success ∧ res.node ≠ .null ∧ res.position = u.length - r.length) ∧
    ((∀ r, ¬SxGrammar .datum u r) → resultIsError res = true ∧ res.node = .null)

section Accepts

variable {s : SxText} {n i fuel : Nat} {b : Bool} {part : SxPart} {u r : List Octet} {node : SxNode}
  {res rv : SxParseResult}

theorem sxParse_of (h : sxParse_ fuel s n i = .ok rv) : sxParse fuel s n i = .ok (sxFinish rv) := by
  rw [sxParse, h, ok_bind]
  rfl

theorem sxParse_inv (h : sxParse fuel s n i = .ok res) :
    ∃ rv, sxParse_ fuel s n i = .ok rv ∧ res = sxFinish rv := by
  obtain ⟨rv, hrv, hres⟩ := bind_eq_ok h
  exact ⟨rv, hrv, (Except.ok.inj hres).symm⟩

theorem sxFinish_success (h : rv.status = .success) : sxFinish rv = rv := by
  rw [sxFinish, resultIsError, h]
  rfl

theorem SxReads.not_null (h : SxReads b part u node r) : node ≠ .null := by
  have hnull : node.isNull = false := by
    induction h with
    | token h => exact h.not_null
    | list paren h ih => exact ih
    | close | slip | more => rfl
  rintro rfl
  cases hnull

/-- The parser does not notice a slip. -/
theorem SxSlip.succeeds (h : SxSlip s n u) (hat : SxAt s n i u)
    (hrv : sxParse_ fuel s n i = .ok rv) : rv.status = .success := by
  have hdatum : sxRun .datum _ _ _ _ = .ok rv := hrv
  obtain ⟨fuel, rfl⟩ := sxRun_succ hdatum
  cases h with
  | blank nothing ne_nil =>
    rw [sxDatum_of_token (sxParseToken_blank hat nothing) (by simp),
      if_neg fun hc => not_le.mpr (hat.lt ne_nil) hc.1] at hrv
    exact Except.ok.inj hrv ▸ rfl
  | stray paren =>
    rw [sxDatum_of_close hat paren] at hrv
    exact Except.ok.inj hrv ▸ rfl
  | lookahead hash hc digit =>
    rw [sxDatum_of_token ((sxParseToken_lookahead hat hash hc).1 digit) (by simp),
      if_neg (by simp [SxNode.isNull])] at hrv
    exact Except.ok.inj hrv ▸ rfl
  | inside h =>
    have hrun : sxRun .datum (fuel + 1) s n i = .ok rv := hrv
    rw [h.result hat hrun]

/-- A `#x` is no token. -/
theorem SxToken.ne_hash (h : SxToken b u node r) : u ≠ [sxChar '#', sxChar 'x'] := by
  intro hu
  cases h with
  | @integer ds r ne_nil chars delimited =>
    obtain ⟨c, ds', rfl⟩ := List.exists_cons_of_ne_nil ne_nil
    obtain rfl := (List.cons.inj hu).1
    exact absurd (chars _ List.mem_cons_self) (by decide)
  | hinteger ne_nil =>
    have hnil := (List.cons.inj (List.cons.inj hu).2).2
    exact ne_nil (List.append_eq_nil_iff.mp hnil).1
  | symbol init =>
    obtain rfl := (List.cons.inj hu).1
    exact absurd init (by decide)

/-- Where the grammar has a datum, the only slip is one inside of it. -/
theorem SxSlip.of_grammar (h : SxSlip s n u) (hg : SxGrammar .datum u r) :
    ∃ v node, SxReads true .datum u node v := by
  have hfirst : ∃ c v, skipSpace u = c :: v ∧ skipSpace u ≠ [sxChar '#', sxChar 'x'] := by
    cases hg with
    | atom ha =>
      obtain ⟨node, htoken⟩ := ha.token
      obtain ⟨c, v, hv, -⟩ := htoken.head
      exact ⟨c, v, hv, htoken.ne_hash⟩
    | list paren =>
      refine ⟨_, _, paren, fun he => ?_⟩
      rw [paren] at he
      exact absurd (List.cons.inj he).1 (by decide)
  obtain ⟨c, v, hv, hhash⟩ := hfirst
  cases h with
  | blank nothing => rw [hv] at nothing; cases nothing
  | stray paren => exact absurd paren hg.ne_close
  | lookahead hash => exact absurd hash hhash
  | inside h => exact ⟨_, _, h⟩

end Accepts

/-- **The parser accepts exactly its grammar** on the texts in which it does not slip, as long as
    every token it looks at has what it needs: a NUL in memory from a symbol on, and an octet behind
    a `#x` at the end of the text. -/
theorem acceptsGrammar_iff (s : SxText) (u : List Octet) (h : SxAt s u.length 0 u) :
    SxAcceptsGrammar s u ↔ ¬SxSlip s u.length u ∧ SxReady s u.length .datum u := by
  constructor
  · intro ⟨res, ⟨fuel, hfuel⟩, hgrammar, hnone⟩
    obtain ⟨rv, hrv, rfl⟩ := sxParse_inv (hfuel fuel (le_refl fuel))
    refine ⟨fun hslip => ?_, fun w hw => hw.ready h hrv⟩
    have hsuccess := hslip.succeeds h hrv
    rw [sxFinish_success hsuccess] at hgrammar hnone
    by_cases hg : ∃ r, SxGrammar .datum u r
    · obtain ⟨r, hr⟩ := hg
      obtain ⟨v, node, hreads⟩ := hslip.of_grammar hr
      have hpos := (hgrammar r hr).2.2
      rw [hreads.result h hrv] at hpos
      -- behind a slip, the parser stops somewhere else
      have hlen := hreads.length_lt
      have hlen' := hr.length_lt
      refine absurd ((hreads.stops_iff hr).mp ?_) (by simp)
      have hpos' : u.length - v.length = u.length - r.length := hpos
      omega
    · have herr := (hnone fun r hr => hg ⟨r, hr⟩).1
      rw [resultIsError, hsuccess] at herr
      cases herr
  · intro ⟨hslip, hready⟩
    obtain ⟨rv, hout, hret⟩ := sxDatum_total h hready
    refine ⟨sxFinish rv, hret.after fun fuel hrv => sxParse_of hrv, ?_⟩
    cases hout with
    | @reads b _ _ r node hreads =>
      have hb : b = false := by
        cases b with
        | false => rfl
        | true => exact absurd (.inside hreads) hslip
      rw [sxFinish_success rfl]
      refine ⟨fun v hv => ⟨rfl, hreads.not_null, ?_⟩, fun hnone => ?_⟩
      · rw [(hreads.stops_iff hv).mpr hb]
      · exact absurd (hreads.grammar hb) (hnone r)
    | stray paren => exact absurd (.stray paren) hslip
    | blank nothing ne_nil => exact absurd (.blank nothing ne_nil) hslip
    | lookahead hash hc digit => exact absurd (.lookahead hash hc digit) hslip
    | error herr =>
      rw [sxFinish, if_pos herr]
      refine ⟨fun v hv => ?_, fun _ => ⟨herr, rfl⟩⟩
      obtain ⟨b, node, r, hreads⟩ := hv.reads
      obtain ⟨fuel, hfuel⟩ := hret
      rw [hreads.result h (hfuel fuel (le_refl fuel))] at herr
      cases herr

/-- The text `(a (7))`. -/
abbrev sxSampleText : List Octet := ['(', 'a', ' ', '(', '7', ')', ')'].map sxChar

theorem acceptsGrammar_iff_sample :
    SxAcceptsGrammar (sxMemory (sxSampleText ++ [0])) sxSampleText ↔
      ¬SxSlip (sxMemory (sxSampleText ++ [0])) sxSampleText.length sxSampleText ∧
        SxReady (sxMemory (sxSampleText ++ [0])) sxSampleText.length .datum sxSampleText :=
  acceptsGrammar_iff _ sxSampleText (sxMemory_at _ _)

/-- **A closing parenthesis without an opening one** is accepted, as an empty list. -/
theorem not_acceptsGrammar :
    ¬ ∀ (s : SxText) (u : List Octet), SxAt s u.length 0 u → SxAcceptsGrammar s u := by
  intro hall
  have hat := sxMemory_at [sxChar ')'] [0]
  obtain ⟨res, ⟨fuel, hret⟩, -, hnone⟩ := hall _ [sxChar ')'] hat
  obtain ⟨rv, hrv, rfl⟩ := sxParse_inv (hret fuel (le_refl fuel))
  have hsuccess := SxSlip.succeeds (.stray (r := []) (by decide)) hat hrv
  obtain ⟨herr, -⟩ := hnone fun r hr => hr.ne_close (v := []) (by decide)
  rw [sxFinish_success hsuccess, resultIsError, hsuccess] at herr
  cases herr

end Ufw
