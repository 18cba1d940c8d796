/-
  File:      Ufw/RegisterProtocol/Types.lean
  Subject:   REGISTER PROTOCOL: the data of an instance (ufw/register-protocol.h).

  * `RPFrameType`, `RPResponse`, `RPHeader`, `RPFrame` -- frames and their parts;
  * `RPMemory` -- the memory an instance serves, by its access functions;
  * `RegP` -- an instance: its memory, its session, its channel and its allocator.

  `WITH_UINT8_T` is defined, so memories of octets and of 16-bit words exist.
-/
import Ufw.ByteBuffer

namespace Ufw

open Base

/-! ## 1. Frames -/

/-- `RP_IMPLEMENTATION_VERSION` -/
def rpImplementationVersion : BitVec 16 := 0

/-- `RP_OPT_WORD_SIZE_16` -/
def rpOptWordSize16 : BitVec 8 := 1

/-- `RP_OPT_WITH_HEADER_CRC` -/
def rpOptWithHeaderCrc : BitVec 8 := 2

/-- `RP_OPT_WITH_PAYLOAD_CRC` -/
def rpOptWithPayloadCrc : BitVec 8 := 4

/-- `RPFrameType`; a header can also carry a code that no enumerator has. -/
inductive RPFrameType where
  | readRequest
  | readResponse
  | writeRequest
  | writeResponse
  | metaMessage
  | reserved (code : Nat)
  deriving DecidableEq, Repr

namespace RPFrameType

/-- The code of a type in a header. -/
def code : RPFrameType → BitVec 16
  | .readRequest => 0
  | .readResponse => 1
  | .writeRequest => 2
  | .writeResponse => 3
  | .metaMessage => 15
  | .reserved code => BitVec.ofNat 16 code

/-- The type a header's code stands for: the cast to `RPFrameType`. -/
def ofCode (code : BitVec 16) : RPFrameType :=
  match code.toNat with
  | 0 => .readRequest
  | 1 => .readResponse
  | 2 => .writeRequest
  | 3 => .writeResponse
  | 15 => .metaMessage
  | n => .reserved n

end RPFrameType

/-- `RPResponse`; an access function can also return a value that no enumerator has. -/
inductive RPResponse where
  | ack
  | ewordsize
  | epayloadcrc
  | epayloadsize
  | erxoverflow
  | etxoverflow
  | ebusy
  | eunmapped
  | eaccess
  | erange
  | einvalid
  | eio
  | undefined (code : Nat)
  deriving DecidableEq, Repr

/-- The code of a response in a header. -/
def RPResponse.code : RPResponse → BitVec 16
  | .ack => 0
  | .ewordsize => 1
  | .epayloadcrc => 2
  | .epayloadsize => 3
  | .erxoverflow => 4
  | .etxoverflow => 5
  | .ebusy => 6
  | .eunmapped => 7
  | .eaccess => 8
  | .erange => 9
  | .einvalid => 10
  | .eio => 11
  | .undefined code => BitVec.ofNat 16 code

/-- `RP_META_EHEADERENC` -/
def rpMetaEheaderenc : BitVec 16 := 1

/-- `RP_META_EHEADERCRC` -/
def rpMetaEheadercrc : BitVec 16 := 2

/-- `RPFrame.header` -/
structure RPHeader where
  version : BitVec 8
  type : RPFrameType
  options : BitVec 8
  metaRaw : BitVec 32
  sequence : BitVec 16
  address : BitVec 32
  blocksize : BitVec 32
  hdcrc : BitVec 16
  plcrc : BitVec 16
  deriving DecidableEq, Repr

/-- A header in memory nobody has written to yet. No path reads a field before it is set. -/
instance : Inhabited RPHeader where
  default :=
    { version := 0, type := .readRequest, options := 0, metaRaw := 0, sequence := 0, address := 0,
      blocksize := 0, hdcrc := 0, plcrc := 0 }

/-- `RPFrame`, at the front of the block `address`. `memory` is `raw.memory`, the part of the block
    behind it; `payloadData` is the offset of `payload.data` there, in octets. -/
structure RPFrame where
  header : RPHeader
  payloadSize : Nat
  payloadData : Nat
  memory : Mem Octet
  rawSize : Nat
  address : Nat

/-- `RPMaybeFrame` -/
structure RPMaybeFrame where
  errorId : Option Errno
  framesize : Nat
  frame : Option RPFrame

/-! ## 2. Instances -/

/-- `RPBlockAccess` -/
structure RPBlockAccess where
  status : RPResponse
  address : BitVec 32

inductive RPMemoryType where
  | memtype8
  | memtype16
  deriving DecidableEq, Repr

/-- The access functions of a memory of `w`-bit words, over the state of that memory: a read
    answers with the words it stores in its buffer, a write is given the words of its buffer. -/
structure RPAccessors (μ : Type) (w : Nat) where
  read : μ → BitVec 32 → Nat → RPBlockAccess × List (BitVec w) × μ
  write : μ → BitVec 32 → Nat → List (BitVec w) → RPBlockAccess × μ

/-- `RPMemory` -/
inductive RPMemory (μ : Type) where
  | m8 (access : RPAccessors μ 8)
  | m16 (access : RPAccessors μ 16)

/-- `RPMemory.type` -/
def RPMemory.type {μ : Type} : RPMemory μ → RPMemoryType
  | .m8 _ => .memtype8
  | .m16 _ => .memtype16

inductive RPEndpointType where
  | serial
  | tcp
  deriving DecidableEq, Repr

/-- `RegP`; `mem` is the state of the memory its access functions work on. -/
structure RegP (σ τ μ α : Type) where
  memory : RPMemory μ
  mem : μ
  sequence : BitVec 16
  epType : RPEndpointType
  source : Source σ
  sink : Sink τ
  alloc : BlockAllocator α

/-- The size of a word of the memory, in octets. -/
def RPMemoryType.octets : RPMemoryType → Nat
  | .memtype8 => 1
  | .memtype16 => 2

/-! ## 3. An instance over lists -/

/-- An allocator that always has a block of 256 octets. -/
def pageAllocator : BlockAllocator Unit where
  alloc := .slab fun driver => (.ok ⟨0, fun _ => 0⟩, driver)
  free := fun driver _ => driver
  driver := ()
  blocksize := 256
  blocksize_le := by decide

/-- Plain memory: every access is acknowledged. -/
def ramAccess (w : Nat) : RPAccessors (Mem (BitVec w)) w where
  read := fun m address n => ({ status := .ack, address }, m.slice address.toNat n, m)
  write := fun m address _ l => ({ status := .ack, address }, m.store address.toNat l)

/-- An instance that serves plain memory, reads a list of octets and collects what it sends. -/
def ramInstance (epType : RPEndpointType) (source : List Octet) :
    RegP (List Octet) (List Octet) (Mem (BitVec 16)) Unit where
  memory := .m16 (ramAccess 16)
  mem := fun i => BitVec.ofNat 16 i
  sequence := 0
  epType := epType
  source := streamSource source
  sink := collectSink []
  alloc := pageAllocator

end Ufw
