/-
  File:      Ufw/Sx.lean
  Subject:   THE S-EXPRESSION PARSER (sx.c), with the string copy it uses (compat/strlcpy.c).

  * `SxNode` -- a pointer to a node; `SxText` -- the memory a text is read from;
  * `scanLoop` -- the loop of every scanner: octets are skipped as long as a predicate holds of
    them;
  * `strlcpy` -- copies a symbol, and then goes on to read up to a NUL;
  * `sxParse_`, `sxParseList` -- the two functions that call each other, with a fuel;
  * `sxParse`, `sxParseStringn` -- the functions a program calls.

  Positions are at most the length of the text, so that none of the sums wraps. Memory for the nodes
  is always there: without it the program ends.
-/
import Ufw.Base.Exec
import Ufw.Characters

namespace Ufw

open Base

/-! ## 1. Characters -/

/-- The octet of a character. -/
def sxChar (c : Char) : Octet := BitVec.ofNat 8 c.toNat

/-- `digits` -/
def digits : List Octet :=
  ['0', '1', '2', '3', '4', '5', '6', '7', '8', '9', 'a', 'b', 'c', 'd', 'e', 'f'].map sxChar

/-- `digit2int`: 0 for what is not a digit. -/
def digit2int (c : Octet) : BitVec 64 := BitVec.ofNat 64 ((digits.findIdx? (· == c)).getD 0)

/-- `syminitchtab` -/
def syminitchtab : List Octet :=
  (['a', 'b', 'c', 'd', 'e', 'f', 'g', 'h', 'i', 'j', 'k', 'l', 'm', 'n', 'o', 'p', 'q', 'r', 's',
    't', 'u', 'v', 'w', 'x', 'y', 'z'] ++
  ['A', 'B', 'C', 'D', 'E', 'F', 'G', 'H', 'I', 'J', 'K', 'L', 'M', 'N', 'O', 'P', 'Q', 'R', 'S',
    'T', 'U', 'V', 'W', 'X', 'Y', 'Z'] ++
  ['+', '%', '|', '/', '_', ':', ';', '.', '!', '?', '$', '&', '=', '*', '<', '>', '~']).map sxChar

/-- `issyminitch`: `strchr` finds the NUL behind the table, too. -/
def issyminitch (c : Octet) : Bool := syminitchtab.contains c || c == 0

/-- `issymch` -/
def issymch (c : Octet) : Bool := issyminitch c || isdigit c || c == sxChar '-'

/-- `nextisdelimiter` -/
def nextisdelimiter (c : Octet) : Bool := c == sxChar '(' || c == sxChar ')' || isspace c

/-! ## 2. Nodes and results -/

/-- A `struct sx_node *` -/
inductive SxNode where
  | null
  | symbol (name : List Octet)
  | integer (u64 : BitVec 64)
  | emptyList
  | pair (car cdr : SxNode)
  deriving DecidableEq, Repr

/-- Whether it is the NULL pointer. -/
def SxNode.isNull : SxNode → Bool
  | null => true
  | symbol _ | integer _ | emptyList | pair _ _ => false

/-- `enum sx_status` -/
inductive SxStatus where
  | success
  | foundList
  | brokenInteger
  | brokenSymbol
  | unknownInput
  | unexpectedEnd
  deriving DecidableEq, Repr

/-- `struct sx_parse_result` -/
structure SxParseResult where
  position : Nat
  status : SxStatus
  node : SxNode
  deriving DecidableEq, Repr

/-- `SX_PARSE_RESULT_INIT` -/
def sxParseResultInit : SxParseResult := { position := 0, status := .success, node := .null }

/-- `result_is_empty_listp` -/
def resultIsEmptyListp (res : SxParseResult) : Bool :=
  res.status == .success && res.node == .emptyList

/-- `result_is_error` -/
def resultIsError (res : SxParseResult) : Bool :=
  res.status != .success && res.status != .foundList

/-! ## 3. Reading -/

/-- The memory a text is read from; there may be nothing to read at an index. -/
abbrev SxText := Nat → Option Octet

/-- `s[i]` -/
def readOctet (s : SxText) (i : Nat) : Exec Octet :=
  match s i with
  | some c => .ok c
  | none => .error .fault

/-- The loop of the scanners: the first index, `left` octets at most behind `j`, of an octet of
    which `p` does not hold. -/
def scanLoop (p : Octet → Bool) (s : SxText) : Nat → Nat → Exec Nat
  | 0, j => .ok j
  | left + 1, j => do
    let c ← readOctet s j
    if p c then scanLoop p s left (j + 1) else .ok j

/-- `skip_ws` -/
def skipWs (s : SxText) (n i : Nat) : Exec Nat := scanLoop isspace s (n - i) i

/-- The first loop of `strlcpy`: `left` octets are copied, or those in front of a NUL. -/
def strlcpyCopy (s : SxText) : Nat → Nat → Exec (List Octet × Bool)
  | 0, _ => .ok ([], false)
  | left + 1, src => do
    let c ← readOctet s src
    if c = 0 then .ok ([], true)
    else do
      let (dst, nul) ← strlcpyCopy s left (src + 1)
      .ok (c :: dst, nul)

/-- The second loop of `strlcpy`: the rest of the string is read, up to its NUL. -/
def strlcpyTraverse (s : SxText) : Nat → Nat → Exec Unit
  | 0, _ => .error .outOfFuel
  | fuel + 1, src => do
    let c ← readOctet s src
    if c = 0 then .ok () else strlcpyTraverse s fuel (src + 1)

/-- `strlcpy`: the string that was copied. -/
def strlcpy (fuel : Nat) (s : SxText) (src dsize : Nat) : Exec (List Octet) := do
  let (dst, nul) ← strlcpyCopy s (dsize - 1) src
  if nul then .ok dst
  else do
    strlcpyTraverse s fuel (src + (dsize - 1))
    .ok dst

/-- `sx_make_symboln` -/
def sxMakeSymboln (fuel : Nat) (s : SxText) (i len : Nat) : Exec SxNode := do
  let name ← strlcpy fuel s i (len + 1)
  .ok (.symbol name)

/-! ## 4. Tokens -/

/-- The check behind a token: it is broken off by an octet that is no delimiter. -/
def brokenOff (s : SxText) (n j : Nat) : Exec Bool :=
  if j < n then do
    let c ← readOctet s j
    .ok (!nextisdelimiter c)
  else .ok false

/-- `parse_symbol`: the node, and the position behind it. -/
def parseSymbol (fuel : Nat) (s : SxText) (n i : Nat) : Exec (SxNode × Nat) := do
  let j ← scanLoop issymch s (n - i) i
  if ← brokenOff s n j then .ok (.null, j)
  else do
    let rv ← sxMakeSymboln fuel s i (j - i)
    .ok (rv, min j n)

/-- The second loop of `parse_integer_`: from the last of `count` octets to the first one, at
    `i`. -/
def integerLoop (base : BitVec 64) (s : SxText) (i : Nat) : Nat → BitVec 64 → BitVec 64 →
    Exec (BitVec 64)
  | 0, newi, _ => .ok newi
  | count + 1, newi, mult => do
    let c ← readOctet s (i + count)
    integerLoop base s i count (newi + mult * digit2int c) (mult * base)

/-- `parse_integer_` -/
def parseInteger_ (s : SxText) (n i offset : Nat) (digitpredicate : Octet → Bool)
    (base : BitVec 64) : Exec (SxNode × Nat) := do
  let j ← scanLoop digitpredicate s (n - (i + offset)) (i + offset)
  if ← brokenOff s n j then .ok (.null, j)
  else do
    let newi ← integerLoop base s i (j - i) 0 1
    .ok (.integer newi, min j n)

/-- `parse_integer` -/
def parseInteger (s : SxText) (n i : Nat) : Exec (SxNode × Nat) := parseInteger_ s n i 0 isdigit 10

/-- `parse_hinteger` -/
def parseHinteger (s : SxText) (n i : Nat) : Exec (SxNode × Nat) :=
  parseInteger_ s n i 2 isxdigit 16

/-- `enum sx_what` -/
inductive SxWhat where
  | unknown
  | symbol
  | intDec
  | intHex
  | parenOpen
  | parenClose
  deriving DecidableEq, Repr

/-- The first condition of `looking_at`. The octet two behind `i` need not belong to the text. -/
def lookingAtHex (s : SxText) (n i : Nat) : Exec Bool :=
  if i + 1 < n then do
    let c₀ ← readOctet s i
    if c₀ = sxChar '#' then do
      let c₁ ← readOctet s (i + 1)
      if c₁ = sxChar 'x' then do
        let c₂ ← readOctet s (i + 2)
        .ok (isxdigit c₂)
      else .ok false
    else .ok false
  else .ok false

/-- `looking_at` -/
def lookingAt (s : SxText) (n i : Nat) : Exec SxWhat := do
  if ← lookingAtHex s n i then .ok .intHex
  else do
    let c ← readOctet s i
    .ok <|
      if c = sxChar '(' then .parenOpen
      else if c = sxChar ')' then .parenClose
      else if isdigit c then .intDec
      else if issyminitch c then .symbol
      else .unknown

/-- What `sx_parse_token` makes of a parsed token; `broken` is the status if there is none. -/
def tokenResult (broken : SxStatus) (rv : SxNode × Nat) : SxParseResult :=
  { position := rv.2, status := if rv.1.isNull then broken else .success, node := rv.1 }

/-- The `switch` of `sx_parse_token`. -/
def sxParseWhat (fuel : Nat) (s : SxText) (n j : Nat) : SxWhat → Exec SxParseResult
  | .intDec => tokenResult .brokenInteger <$> parseInteger s n j
  | .intHex => tokenResult .brokenInteger <$> parseHinteger s n j
  | .symbol => tokenResult .brokenSymbol <$> parseSymbol fuel s n j
  | .parenOpen => .ok { sxParseResultInit with status := .foundList, position := j + 1 }
  | .parenClose => .ok { sxParseResultInit with node := .emptyList, position := j + 1 }
  | .unknown => .ok { sxParseResultInit with status := .unknownInput, position := j }

/-- `sx_parse_token` -/
def sxParseToken (fuel : Nat) (s : SxText) (n i : Nat) : Exec SxParseResult := do
  let j ← skipWs s n i
  if j = n then .ok { sxParseResultInit with position := j }
  else do
    let what ← lookingAt s n j
    sxParseWhat fuel s n j what

/-! ## 5. Expressions -/

mutual

/-- `sx_parse_list` -/
def sxParseList : Nat → SxText → Nat → Nat → Exec SxParseResult
  | 0, _, _, _ => .error .outOfFuel
  | fuel + 1, s, n, i =>
    if n ≤ i then .ok { sxParseResultInit with status := .unexpectedEnd }
    else do
      let carres ← sxParse_ fuel s n i
      if resultIsEmptyListp carres || resultIsError carres then .ok carres
      else do
        let cdrres ← sxParseList fuel s n carres.position
        .ok { cdrres with node := .pair carres.node cdrres.node }

/-- `sx_parse_` -/
def sxParse_ : Nat → SxText → Nat → Nat → Exec SxParseResult
  | 0, _, _, _ => .error .outOfFuel
  | fuel + 1, s, n, i => do
    let rv ← sxParseToken fuel s n i
    if rv.status = .foundList then sxParseList fuel s n rv.position
    else if n ≤ i ∧ rv.node.isNull then .ok { rv with status := .unexpectedEnd }
    else .ok rv

end

/-- `sx_parse`: no node is left of an error. -/
def sxParse (fuel : Nat) (s : SxText) (n i : Nat) : Exec SxParseResult := do
  let rv ← sxParse_ fuel s n i
  .ok <| if resultIsError rv then { rv with node := .null } else rv

/-- `sx_parse_stringn` -/
def sxParseStringn (fuel : Nat) (s : SxText) (n : Nat) : Exec SxParseResult := sxParse fuel s n 0

end Ufw
