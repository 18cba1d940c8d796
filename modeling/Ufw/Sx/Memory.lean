/-
  File:      Ufw/Sx/Memory.lean
  Subject:   THE NODES OF AN S-EXPRESSION IN MEMORY: what sx.c allocates, links and frees.

  * `SxPtr`, `SxData`, `SxBlock` -- pointers, nodes, and the three kinds of blocks;
  * `sxNode`, `sxPair` -- a pointer is followed; a NULL pointer, or one to a block that was freed or
    is of another kind, stops the program;
  * `makeNode` … `sxCons` -- the functions of the source, in its order.

  The functions that take the address of a pointer return what they leave in it.
-/
import Ufw.Base.Separation
import Ufw.Sx

namespace Ufw

open Base

/-! ## 1. Blocks -/

/-- The address of a block, or NULL. -/
abbrev SxPtr := Option Nat

/-- What a `struct sx_node` holds: its type, and the member of the union that goes with it. -/
inductive SxData where
  | symbol (symbol : SxPtr)
  | integer (u64 : BitVec 64)
  | pair (pair : SxPtr)
  | emptyList
  deriving DecidableEq, Repr

/-- A block: as `malloc` returns it, a `struct sx_node`, a `struct sx_pair`, or a string. -/
inductive SxBlock where
  | raw
  | node (data : SxData)
  | pair (car cdr : SxPtr)
  | string (s : List Octet)
  deriving DecidableEq, Repr

/-- Programs that work on nodes. -/
abbrev SxM := HeapM SxBlock

/-- `malloc`, `calloc` -/
def sxAlloc (b : SxBlock) : SxM SxPtr := some <$> Heap.alloc b

/-- `*node` -/
def sxNode : SxPtr → SxM SxData
  | none => Heap.stop .fault
  | some a => do
    match ← Heap.read a with
    | .node data => pure data
    | .raw | .pair _ _ | .string _ => Heap.stop .fault

/-- `*pair` -/
def sxPair : SxPtr → SxM (SxPtr × SxPtr)
  | none => Heap.stop .fault
  | some a => do
    match ← Heap.read a with
    | .pair car cdr => pure (car, cdr)
    | .raw | .node _ | .string _ => Heap.stop .fault

/-- A block is given another content. -/
def sxStore : SxPtr → SxBlock → SxM Unit
  | none, _ => Heap.stop .fault
  | some a, b => Heap.write a b

/-- `free`: nothing happens to a NULL pointer. -/
def sxFree : SxPtr → SxM Unit
  | none => pure ()
  | some a => Heap.free a

/-- `node->data.pair` -/
def sxDataPair (node : SxPtr) : SxM SxPtr := do
  match ← sxNode node with
  | .pair pair => pure pair
  | .symbol _ | .integer _ | .emptyList => Heap.stop .fault

/-- `pair->car = car` -/
def sxSetCar (pair car : SxPtr) : SxM Unit := do
  let p ← sxPair pair
  sxStore pair (.pair car p.2)

/-- `pair->cdr = cdr` -/
def sxSetCdr (pair cdr : SxPtr) : SxM Unit := do
  let p ← sxPair pair
  sxStore pair (.pair p.1 cdr)

/-! ## 2. Predicates and selectors -/

/-- The type of a node is `SXT_PAIR`. -/
def SxData.isPair : SxData → Bool
  | pair _ => true
  | symbol _ | integer _ | emptyList => false

/-- The type of a node is `SXT_EMPTY_LIST`. -/
def SxData.isNull : SxData → Bool
  | emptyList => true
  | symbol _ | integer _ | pair _ => false

/-- `sx_is_null` -/
def sxIsNull (node : SxPtr) : SxM Bool := SxData.isNull <$> sxNode node

/-- `sx_is_pair` -/
def sxIsPair (node : SxPtr) : SxM Bool := SxData.isPair <$> sxNode node

/-- `sx_car_unsafe` -/
def sxCarUnsafe (n : SxPtr) : SxM SxPtr := do
  let pair ← sxDataPair n
  let p ← sxPair pair
  pure p.1

/-- `sx_cdr_unsafe` -/
def sxCdrUnsafe (n : SxPtr) : SxM SxPtr := do
  let pair ← sxDataPair n
  let p ← sxPair pair
  pure p.2

/-! ## 3. Making nodes -/

/-- `make_node` -/
def makeNode : SxM SxPtr := sxAlloc .raw

/-- `sx_make_integer` -/
def sxMakeInteger (n : BitVec 64) : SxM SxPtr := do
  let node ← makeNode
  sxStore node (.node (.integer n))
  pure node

/-- `sx_make_empty_list` -/
def sxMakeEmptyList : SxM SxPtr := do
  let node ← makeNode
  sxStore node (.node .emptyList)
  pure node

/-- `sx_make_symbol`: `s` is what stands in front of the NUL. -/
def sxMakeSymbol (s : List Octet) : SxM SxPtr := do
  let node ← makeNode
  let symbol ← sxAlloc (.string [])
  sxStore node (.node (.symbol symbol))
  sxStore symbol (.string s)
  pure node

/-- `make_pair` -/
def makePair : SxM SxPtr := do
  let rv ← makeNode
  let pair ← sxAlloc (.pair none none)
  sxStore rv (.node (.pair pair))
  pure rv

/-! ## 4. The functions of the interface -/

/-- `sx_destroy` -/
def sxDestroy : Nat → SxPtr → SxM SxPtr
  | 0, _ => Heap.stop .outOfFuel
  | _ + 1, none => pure none
  | fuel + 1, some node => do
    let data ← sxNode (some node)
    match data with
    | .pair pair =>
      let p ← sxPair pair
      let car ← sxDestroy fuel p.1
      sxSetCar pair car
      let p ← sxPair pair
      let cdr ← sxDestroy fuel p.2
      sxSetCdr pair cdr
      sxFree pair
      sxStore (some node) (.node (.pair none))
      sxFree (some node)
      pure none
    | .symbol symbol =>
      sxFree symbol
      sxStore (some node) (.node (.symbol none))
      sxFree (some node)
      pure none
    | .integer _ | .emptyList =>
      sxFree (some node)
      pure none

/-- The loop of `sx_cxr`, over the octets of the address from the last one to the first. -/
def sxCxrLoop : List Octet → SxPtr → SxM SxPtr
  | [], ptr => pure ptr
  | c :: addr, ptr => do
    let isPair ← sxIsPair ptr
    if isPair = false then pure none
    else if c = sxChar 'a' then sxCarUnsafe ptr >>= sxCxrLoop addr
    else if c = sxChar 'd' then sxCdrUnsafe ptr >>= sxCxrLoop addr
    else pure none

/-- `sx_cxr` -/
def sxCxr (root : SxPtr) (addr : List Octet) : SxM SxPtr := sxCxrLoop addr.reverse root

/-- `sx_pop`: what it returns, and what it leaves in `*root`. -/
def sxPop (root : SxPtr) : SxM (SxPtr × SxPtr) :=
  if root.isNone then pure (none, root)
  else do
    let isPair ← sxIsPair root
    if isPair = false then pure (root, none)
    else do
      let rest ← sxCdrUnsafe root
      let car ← sxCarUnsafe root
      let pair ← sxDataPair root
      sxFree pair
      sxFree root
      pure (car, rest)

/-- `sx_is_list` -/
def sxIsList : Nat → SxPtr → SxM Bool
  | 0, _ => Heap.stop .outOfFuel
  | fuel + 1, ptr => do
    let isNull ← sxIsNull ptr
    if isNull then pure true
    else do
      let isPair ← sxIsPair ptr
      if isPair = false then pure false
      else sxCdrUnsafe ptr >>= sxIsList fuel

/-- The loop of `sx_append`: the last pair. -/
def sxLastPair : Nat → SxPtr → SxM SxPtr
  | 0, _ => Heap.stop .outOfFuel
  | fuel + 1, ptr => do
    let p ← sxPair ptr
    let isPair ← sxIsPair p.2
    if isPair then sxDataPair p.2 >>= sxLastPair fuel
    else pure ptr

/-- `sx_append` -/
def sxAppend (fuel : Nat) (a b : SxPtr) : SxM SxPtr :=
  if a.isNone || b.isNone then pure none
  else do
    let aNull ← sxIsNull a
    if aNull then do
      let _ ← sxDestroy fuel a
      pure b
    else do
      let bNull ← sxIsNull b
      if bNull then do
        let _ ← sxDestroy fuel b
        pure a
      else do
        let aPair ← sxIsPair a
        let bPair ← sxIsPair b
        if (aPair && bPair) = false then pure none
        else do
          let pair ← sxDataPair a
          let ptr ← sxLastPair fuel pair
          let p ← sxPair ptr
          let cdr ← sxDestroy fuel p.2
          sxSetCdr ptr cdr
          sxSetCdr ptr b
          pure a

variable {τ : Type}

/-- The loop of `sx_foreach`; `arg` is what the callback makes of its second argument. -/
def sxForeachLoop (f : SxPtr → τ → SxM τ) : Nat → SxPtr → τ → SxM τ
  | 0, _, _ => Heap.stop .outOfFuel
  | fuel + 1, ptr, arg => do
    let isPair ← sxIsPair ptr
    if isPair then do
      let car ← sxCarUnsafe ptr
      let arg ← f car arg
      let cdr ← sxCdrUnsafe ptr
      sxForeachLoop f fuel cdr arg
    else pure arg

/-- `sx_foreach` -/
def sxForeach (f : SxPtr → τ → SxM τ) (fuel : Nat) (node : SxPtr) (arg : τ) : SxM τ := do
  let isPair ← sxIsPair node
  if isPair = false then pure arg
  else sxForeachLoop f fuel node arg

/-- `sx_cons` -/
def sxCons (car cdr : SxPtr) : SxM SxPtr := do
  let cons ← makePair
  let pair ← sxDataPair cons
  sxSetCar pair car
  sxSetCdr pair cdr
  pure cons

end Ufw
