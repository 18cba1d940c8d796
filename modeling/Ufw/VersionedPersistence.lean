/-
  File:      Ufw/VersionedPersistence.lean
  Subject:   VERSIONED PERSISTENCE (vp/core.c, vp/internal.c): a datum on a medium, behind a header
             with its version, its length and two checksums.

  * `Metablock` -- the header; `VpState` -- what the functions change of an instance;
  * `VpAccess` -- the medium behind the two endpoints of an instance, with `VpEndpoints.access` for
    endpoints with a `seek` extension;
  * `maybe` -- the macro the functions leave an operation by that has failed, with its rules;
  * `vpLoad`, `vpFormat`, `vpStore`, `vpMemset`, `vpInvalidate`, `vpSave`, `vpFetch`, `vpUsable` --
    the functions of the source;
  * `payloadSum` -- the checksum of a payload, taken in pieces of 16 octets.
-/
import Ufw.Base.Exec
import Ufw.Base.Memory
import Ufw.BinaryFormat
import Ufw.BitOperations
import Ufw.Endpoints

namespace Ufw

open Base

variable {α β δ σ : Type}

/-! ## 1. The header -/

/-- The words of a `metablock`, in their order; the accessors of the source copy them from and to
    the octets of the block with `bf_ref_u16n` and `bf_set_u16n`. -/
structure Metablock where
  headerChksum : BitVec 16
  version : BitVec 16
  length : BitVec 16
  payloadChksum : BitVec 16
  deriving DecidableEq, Repr

/-- `VP_SIZE_META` -/
def vpSizeMeta : Nat := 8

namespace Metablock

/-- The octets the header checksum covers. -/
def covered (h : Host) (b : Metablock) : List Octet :=
  bfSetN h 2 b.version ++ (bfSetN h 2 b.length ++ bfSetN h 2 b.payloadChksum)

/-- The octets of a `metablock`. -/
def octets (h : Host) (b : Metablock) : List Octet := bfSetN h 2 b.headerChksum ++ b.covered h

/-- A `metablock` that octets were read into. -/
def ofOctets (h : Host) (l : List Octet) : Metablock where
  headerChksum := bfRefN h 16 (l.take 2)
  version := bfRefN h 16 ((l.drop 2).take 2)
  length := bfRefN h 16 ((l.drop 4).take 2)
  payloadChksum := bfRefN h 16 ((l.drop 6).take 2)

@[simp] theorem length_octets (h : Host) (b : Metablock) : (b.octets h).length = vpSizeMeta := by
  simp only [octets, covered, List.length_append, length_bfSetN, vpSizeMeta]

/-- **A header is read as it was written.** -/
@[simp] theorem ofOctets_octets (h : Host) (b : Metablock) : ofOctets h (b.octets h) = b := by
  have hw : ∀ v : BitVec 16, ∃ x y, bfSetN h 2 v = [x, y] := fun v =>
    List.length_eq_two.mp (length_bfSetN h 2 v)
  obtain ⟨a, a', ha⟩ := hw b.headerChksum
  obtain ⟨v, v', hv⟩ := hw b.version
  obtain ⟨l, l', hl⟩ := hw b.length
  obtain ⟨p, p', hp⟩ := hw b.payloadChksum
  have hoctets : b.octets h = [a, a', v, v', l, l', p, p'] := by
    rw [octets, covered, ha, hv, hl, hp]
    rfl
  have hr : ∀ v : BitVec 16, bfRefN h 16 (bfSetN h 2 v) = v := fun v => bfRefN_bfSetN h 2 rfl v
  rw [hoctets]
  show Metablock.mk (bfRefN h 16 [a, a']) (bfRefN h 16 [v, v']) (bfRefN h 16 [l, l'])
    (bfRefN h 16 [p, p']) = b
  rw [← ha, ← hv, ← hl, ← hp, hr, hr, hr, hr]

/-- **A header is written as it was read.** -/
theorem octets_ofOctets (h : Host) {l : List Octet} (hl : l.length = vpSizeMeta) :
    (ofOctets h l).octets h = l := by
  match l, hl with
  | [a, a', v, v', n, n', p, p'], _ =>
    have hw : ∀ x y : Octet, bfSetN h 2 (bfRefN h 16 [x, y]) = [x, y] := fun x y =>
      bfSetN_bfRefN h [x, y] rfl
    show bfSetN h 2 (bfRefN h 16 [a, a']) ++ (bfSetN h 2 (bfRefN h 16 [v, v']) ++
      (bfSetN h 2 (bfRefN h 16 [n, n']) ++ bfSetN h 2 (bfRefN h 16 [p, p']))) = _
    rw [hw, hw, hw, hw]
    rfl

end Metablock

/-! ## 2. Instances -/

/-- What `vp->data.source` and `vp->data.sink` do to the medium behind them: the address of the
    section, and `source_seek`, `source_get_chunk`, `sink_seek` and `sink_put_chunk` on a medium in
    some state. A chunk that is transferred is transferred whole. -/
structure VpAccess (δ : Type) where
  address : BitVec 32
  sourceSeek : δ → Nat → Rc × δ
  sourceGet : Nat → δ → Nat → Exec (Except Errno (List Octet) × δ)
  sinkSeek : δ → Nat → Rc × δ
  sinkPut : Nat → δ → List Octet → Exec (Rc × δ)
  get_whole : ∀ {fuel d n l d'}, sourceGet fuel d n = .ok (.ok l, d') → l.length = n
  put_whole : ∀ {fuel d l n d'}, sinkPut fuel d l = .ok (.ok n, d') → n = l.length

/-- The endpoints of a `struct vp_access`, with their `seek` extensions. The drivers of both work on
    one medium. -/
structure VpEndpoints (δ : Type) where
  source : SourceRun δ
  sourceRetry : EpRetry δ
  sourceSeek : Option (δ → Nat → Rc × δ)
  sink : SinkRun δ
  sinkRetry : EpRetry δ
  sinkSeek : Option (δ → Nat → Rc × δ)

/-- `source_seek`, `sink_seek` -/
def extSeek (seek : Option (δ → Nat → Rc × δ)) (d : δ) (offset : Nat) : Rc × δ :=
  match seek with
  | none => (.error .enotsup, d)
  | some seek => seek d offset

namespace VpEndpoints

/-- `source_get_chunk`, on a medium in some state. -/
def get (e : VpEndpoints δ) (fuel : Nat) (d : δ) (n : Nat) :
    Exec (Except Errno (List Octet) × δ) := do
  let (rc, source) ← sourceGetChunk fuel { run := e.source, retry := e.sourceRetry, driver := d } n
  .ok (rc, source.driver)

/-- `sink_put_chunk`, on a medium in some state. -/
def put (e : VpEndpoints δ) (fuel : Nat) (d : δ) (l : List Octet) : Exec (Rc × δ) := do
  let (rc, sink) ← sinkPutChunk fuel { run := e.sink, retry := e.sinkRetry, driver := d } l
  .ok (rc, sink.driver)

/-- What `source_get_chunk` asserts. -/
theorem get_whole (e : VpEndpoints δ) {fuel : Nat} {d d' : δ} {n : Nat} {l : List Octet}
    (h : e.get fuel d n = .ok (.ok l, d')) : l.length = n := by
  obtain ⟨⟨rc, source⟩, hget, hret⟩ := bind_eq_ok h
  cases hret
  obtain ⟨⟨⟨err, buf⟩, source'⟩, -, hbuf⟩ := bind_eq_ok hget
  obtain ⟨_, hlen, hbuf⟩ := bind_eq_ok hbuf
  obtain ⟨_, _, hbuf⟩ := bind_eq_ok hbuf
  cases err with
  | some e => cases hbuf
  | none =>
    cases hbuf
    by_contra hne
    rw [require_neg hne] at hlen
    cases hlen

/-- What `sink_put_chunk` asserts. -/
theorem put_whole (e : VpEndpoints δ) {fuel : Nat} {d d' : δ} {l : List Octet} {n : Nat}
    (h : e.put fuel d l = .ok (.ok n, d')) : n = l.length := by
  obtain ⟨⟨rc, sink⟩, hput, hret⟩ := bind_eq_ok h
  cases hret
  obtain ⟨⟨⟨err, size⟩, sink'⟩, -, hsize⟩ := bind_eq_ok hput
  obtain ⟨_, hlen, hsize⟩ := bind_eq_ok hsize
  obtain ⟨_, _, hsize⟩ := bind_eq_ok hsize
  cases err with
  | some e => cases hsize
  | none =>
    cases hsize
    by_contra hne
    rw [require_neg hne] at hlen
    cases hlen

/-- **The medium behind two endpoints.** -/
def access (e : VpEndpoints δ) (address : BitVec 32) : VpAccess δ where
  address := address
  sourceSeek := extSeek e.sourceSeek
  sourceGet := e.get
  sinkSeek := extSeek e.sinkSeek
  sinkPut := e.put
  get_whole := e.get_whole
  put_whole := e.put_whole

end VpEndpoints

/-- `struct vp_meta` -/
structure VpMeta where
  length : BitVec 16
  version : BitVec 16

/-- `struct vp_checksum` -/
structure VpChecksum where
  initial : BitVec 16
  process : BitVec 16 → List Octet → BitVec 16

/-- `struct vp_checksum_results` -/
structure VpChecksumResults where
  header : BitVec 16
  payload : BitVec 16

/-- What of a `VersionedPersistence` no function changes. -/
structure VersionedPersistence (δ : Type) where
  data : VpAccess δ
  spec : VpMeta
  chksum : VpChecksum

/-- What of a `VersionedPersistence` the functions change, and the medium behind its endpoints. -/
structure VpState (δ : Type) where
  metablock : Metablock
  state : BitVec 16
  result : VpChecksumResults
  driver : δ

def vpStateMetaCacheActive : BitVec 16 := .twoPow 16 0
def vpStateMetaCacheFromStorage : BitVec 16 := .twoPow 16 1
def vpStateMetaConsistent : BitVec 16 := .twoPow 16 2
def vpStatePayloadConsistent : BitVec 16 := .twoPow 16 3
def vpStatePayloadCompatible : BitVec 16 := .twoPow 16 4
def vpStateLengthCompatible : BitVec 16 := .twoPow 16 5
def vpStateVersionCompatible : BitVec 16 := .twoPow 16 6

/-- The `mask` of `vp_read_meta`. -/
def vpMetaRead : BitVec 16 :=
  vpStateMetaCacheFromStorage ||| vpStateMetaCacheActive ||| vpStateMetaConsistent

/-- `VP_DATA_META`, `VP_DATA_PAYLOAD` -/
def vpDataMeta : BitVec 32 := .twoPow 32 0
def vpDataPayload : BitVec 32 := .twoPow 32 1

/-- `EBADFD` is no error number the rest of the library uses. -/
def ebadfd : Errno := .other 77

/-- `vp_spec_size` -/
def vpSpecSize (vp : VersionedPersistence δ) : Nat := vp.spec.length.toNat + vpSizeMeta

/-- `vp_usable` -/
def vpUsable (s : VpState δ) : Bool :=
  bitIsset s.state (vpStateMetaConsistent ||| vpStatePayloadCompatible ||| vpStatePayloadConsistent)

/-! ## 3. Failing operations -/

/-- `maybe`: an operation that has failed ends the function with its error. -/
def maybe (x : Exec (Except Errno α × σ)) (f : α → σ → Exec (Except Errno β × σ)) :
    Exec (Except Errno β × σ) := do
  match ← x with
  | (.error e, s) => .ok (.error e, s)
  | (.ok a, s) => f a s

section Maybe

variable {f : α → σ → Exec (Except Errno β × σ)} {x : Exec (Except Errno α × σ)} {s : σ}

@[simp] theorem maybe_ok (a : α) (s : σ) : maybe (.ok (.ok a, s)) f = f a s := rfl

@[simp] theorem maybe_error (e : Errno) (s : σ) : maybe (.ok (.error e, s)) f = .ok (.error e, s) :=
  rfl

@[simp] theorem maybe_halt (e : Halt) :
    maybe (.error e : Exec (Except Errno α × σ)) f = .error e := rfl

/-- What is returned, the first part returned. -/
theorem maybe_eq_ok {rc : Except Errno β} {s' : σ} (h : maybe x f = .ok (rc, s')) :
    (∃ e, x = .ok (.error e, s') ∧ rc = .error e) ∨
    ∃ a s, x = .ok (.ok a, s) ∧ f a s = .ok (rc, s') := by
  match x with
  | .error e => cases h
  | .ok (.error e, s) =>
    cases h
    exact .inl ⟨e, rfl, rfl⟩
  | .ok (.ok a, s) => exact .inr ⟨a, s, rfl, h⟩

/-- **A sequence** whose first part succeeds. -/
theorem Returns.maybe {x : Nat → Exec (Except Errno α × σ)}
    {f : Nat → α → σ → Exec (Except Errno β × σ)} {a : α} {s : σ} {r : Except Errno β × σ}
    (hx : Returns x (.ok a, s)) (hf : Returns (fun fuel => f fuel a s) r) :
    Returns (fun fuel => Ufw.maybe (x fuel) (f fuel)) r :=
  Returns.seq (fun fuel h => by rw [h, maybe_ok]) hx hf

end Maybe

/-! ## 4. The code -/

section Code

variable (h : Host) (fuel : Nat) (vp : VersionedPersistence δ) (s : VpState δ)

/-- `source_seek`, on an instance. -/
def vpSourceSeek (n : Nat) : Exec (Rc × VpState δ) :=
  let (rc, driver) := vp.data.sourceSeek s.driver n
  .ok (rc, { s with driver })

/-- `source_get_chunk`, on an instance. -/
def vpSourceGet (n : Nat) : Exec (Except Errno (List Octet) × VpState δ) := do
  let (rc, driver) ← vp.data.sourceGet fuel s.driver n
  .ok (rc, { s with driver })

/-- `sink_seek`, on an instance. -/
def vpSinkSeek (n : Nat) : Exec (Rc × VpState δ) :=
  let (rc, driver) := vp.data.sinkSeek s.driver n
  .ok (rc, { s with driver })

/-- `sink_put_chunk`, on an instance. -/
def vpSinkPut (l : List Octet) : Exec (Rc × VpState δ) := do
  let (rc, driver) ← vp.data.sinkPut fuel s.driver l
  .ok (rc, { s with driver })

/-- The first address of the payload: `vp->data.address + VP_SIZE_META`. -/
def VersionedPersistence.payload : Nat := vp.data.address.toNat + vpSizeMeta

/-- `load_meta_from_spec` -/
def loadMetaFromSpec : VpState δ :=
  { s with
    metablock := { s.metablock with version := vp.spec.version, length := vp.spec.length }
    state := bitClear (bitSet s.state vpStateMetaCacheActive) vpStateMetaCacheFromStorage }

/-- What most functions begin with: an empty cache is filled from the specification. -/
def vpActivate : VpState δ :=
  if bitIsset s.state vpStateMetaCacheActive = false then loadMetaFromSpec vp s else s

/-- `vp_calculate_header_checksum` -/
def vpCalculateHeaderChecksum : VpState δ :=
  let header := vp.chksum.process vp.chksum.initial (s.metablock.covered h)
  { s with result := { s.result with header } }

/-- The size of the buffers in the stack frames of `vp_calculate_payload_checksum` and
    `vp_memset`. -/
def vpPiece (rest : Nat) : Nat := if 16 < rest then 16 else rest

/-- The loop of `vp_calculate_payload_checksum`. -/
def payloadChecksumLoop : Nat → Nat → BitVec 16 → VpState δ →
    Exec (Except Errno (BitVec 16) × VpState δ)
  | 0, _, _, _ => .error .outOfFuel
  | fuel + 1, rest, cs, s =>
    if 0 < rest then
      maybe (vpSourceGet fuel vp s (vpPiece rest)) fun buf s =>
        payloadChecksumLoop fuel (rest - buf.length) (vp.chksum.process cs buf) s
    else .ok (.ok cs, s)

/-- `vp_calculate_payload_checksum` -/
def vpCalculatePayloadChecksum (n : Nat) : Exec (Rc × VpState δ) :=
  maybe (vpSourceSeek vp s vp.payload) fun _ s =>
  maybe (payloadChecksumLoop vp fuel n vp.chksum.initial s) fun payload s =>
  .ok (.ok 0, { s with result := { s.result with payload } })

/-- `vp_read_meta` -/
def vpReadMeta : Exec (Rc × VpState δ) :=
  maybe (vpSourceSeek vp s vp.data.address.toNat) fun _ s =>
  maybe (vpSourceGet fuel vp s vpSizeMeta) fun metablock s =>
  let s := vpCalculateHeaderChecksum h vp { s with metablock := .ofOctets h metablock }
  if s.metablock.headerChksum ≠ s.result.header then
    .ok (.error ebadfd, { s with state := bitClear s.state vpMetaRead })
  else .ok (.ok 0, { s with state := bitSet s.state vpMetaRead })

/-- `vp_verify_payload` -/
def vpVerifyPayload (n : Nat) : Exec (Rc × VpState δ) :=
  maybe (vpCalculatePayloadChecksum fuel vp s n) fun _ s =>
  .ok (if s.metablock.payloadChksum = s.result.payload then .ok 0 else .error .ebadmsg, s)

/-- `vp_store_header` -/
def vpStoreHeader : Exec (Rc × VpState δ) :=
  maybe (vpSinkSeek vp s vp.data.address.toNat) fun _ s =>
  maybe (vpSinkPut fuel vp s (s.metablock.octets h)) fun _ s =>
  .ok (.ok 0, s)

/-- `put_payload_chksum` -/
def putPayloadChksum (cs : BitVec 16) : VpState δ :=
  { s with metablock := { s.metablock with payloadChksum := cs } }

/-- `put_header_chksum` -/
def putHeaderChksum (cs : BitVec 16) : VpState δ :=
  { s with metablock := { s.metablock with headerChksum := cs } }

/-- `vp_update_checksums` -/
def vpUpdateChecksums : Exec (Rc × VpState δ) :=
  maybe (vpCalculatePayloadChecksum fuel vp s s.metablock.length.toNat) fun _ s =>
  let s := vpCalculateHeaderChecksum h vp (putPayloadChksum s s.result.payload)
  let s := vpCalculateHeaderChecksum h vp (putHeaderChksum s s.result.header)
  .ok (.ok 0, s)

/-- `vp_update_meta` -/
def vpUpdateMeta : Exec (Rc × VpState δ) :=
  maybe (vpUpdateChecksums h fuel vp (vpActivate vp s)) fun _ s => vpStoreHeader h fuel vp s

/-- The loop of `vp_memset`. -/
def memsetLoop (c : Octet) : Nat → Nat → VpState δ → Exec (Rc × VpState δ)
  | 0, _, _ => .error .outOfFuel
  | fuel + 1, rest, s =>
    if 0 < rest then
      maybe (vpSinkPut fuel vp s (List.replicate (vpPiece rest) c)) fun m s =>
        memsetLoop c fuel (rest - m) s
    else .ok (.ok 0, s)

/-- `vp_memset`, until the data are written. -/
def vpMemsetData (c : Octet) (offset n : Nat) : Exec (Rc × VpState δ) :=
  let s := vpActivate vp s
  if s.metablock.length.toNat < sizeAdd n offset then .ok (.error .einval, s)
  else
    maybe (vpSinkSeek vp s (sizeAdd vp.payload offset)) fun _ s => memsetLoop vp c fuel n s

/-- `vp_memset` -/
def vpMemset (c : Octet) (offset n : Nat) : Exec (Rc × VpState δ) :=
  maybe (vpMemsetData fuel vp s c offset n) fun _ s => vpUpdateMeta h fuel vp s

/-- `vp_invalidate` -/
def vpInvalidate (parts : BitVec 32) : Exec (Rc × VpState δ) :=
  let s := vpActivate vp s
  if parts = 0 then .ok (.ok 0, s)
  else
    maybe (vpUpdateChecksums h fuel vp s) fun _ s =>
    let s :=
      if bitIsset parts vpDataPayload then
        let s := putPayloadChksum s (s.metablock.payloadChksum ^^^ 0xffff)
        let s := { s with state := bitClear s.state vpStatePayloadConsistent }
        let s := vpCalculateHeaderChecksum h vp s
        putHeaderChksum s s.result.header
      else s
    let s :=
      if bitIsset parts vpDataMeta then
        let s := putHeaderChksum s (s.metablock.headerChksum ^^^ 0xffff)
        { s with state := bitClear s.state vpStateMetaConsistent }
      else s
    vpStoreHeader h fuel vp s

/-- `vp_format` -/
def vpFormat : Exec (Rc × VpState δ) :=
  maybe (vpInvalidate h fuel vp (loadMetaFromSpec vp s) vpDataPayload) fun _ s =>
  vpReadMeta h fuel vp s

/-- `vp_fetch`, once the cache is filled. -/
def vpFetchData (offset n : Nat) : Exec (Except Errno (List Octet) × VpState δ) :=
  if bitIsset s.state (vpStatePayloadConsistent ||| vpStateMetaConsistent) = false then
    .ok (.error .einval, s)
  else if s.metablock.length.toNat < sizeAdd offset n then .ok (.error .efault, s)
  else
    maybe (vpSourceSeek vp s (sizeAdd vp.payload offset)) fun _ s => vpSourceGet fuel vp s n

/-- `vp_fetch` -/
def vpFetch (offset n : Nat) : Exec (Except Errno (List Octet) × VpState δ) :=
  if bitIsset s.state vpStateMetaCacheActive = false then
    maybe (vpReadMeta h fuel vp s) fun _ s => vpFetchData fuel vp s offset n
  else vpFetchData fuel vp s offset n

/-- `vp_store`, until the data are written. -/
def vpStoreData (src : Mem Octet) (offset n : Nat) : Exec (Rc × VpState δ) :=
  let s := vpActivate vp s
  if bitIsset s.state vpStateMetaConsistent = false then .ok (.error .einval, s)
  else if s.metablock.length.toNat < sizeAdd offset n then .ok (.error .efault, s)
  else
    maybe (vpSinkSeek vp s (sizeAdd vp.payload offset)) fun _ s =>
    vpSinkPut fuel vp s (src.slice 0 n)

/-- `vp_store` -/
def vpStore (src : Mem Octet) (offset n : Nat) : Exec (Rc × VpState δ) :=
  maybe (vpStoreData fuel vp s src offset n) fun rc s =>
  maybe (vpUpdateMeta h fuel vp s) fun _ s =>
  .ok (.ok rc, s)

/-- What `vp_load` finds out about the header it has read. -/
def vpCompare : VpState δ :=
  let state := s.state
  let state :=
    if s.metablock.version = vp.spec.version then bitSet state vpStateVersionCompatible else state
  let state :=
    if s.metablock.length = vp.spec.length then
      let state := bitSet state vpStateLengthCompatible
      if bitIsset state vpStateVersionCompatible then bitSet state vpStatePayloadCompatible
      else state
    else state
  { s with state }

/-- `vp_load` -/
def vpLoad : Exec (Rc × VpState δ) :=
  maybe (vpReadMeta h fuel vp { s with state := 0 }) fun _ s =>
  maybe (vpVerifyPayload fuel vp (vpCompare vp s) s.metablock.length.toNat) fun _ s =>
  .ok (.ok 0, { s with state := bitSet s.state vpStatePayloadConsistent })

/-- `vp_save` -/
def vpSave (src : Mem Octet) (n : Nat) : Exec (Rc × VpState δ) :=
  maybe (vpFormat h fuel vp s) fun _ s =>
  maybe (vpStore h fuel vp s src 0 n) fun _ s =>
  vpLoad h fuel vp s

end Code

/-! ## 5. The flags -/

theorem metaRead_flags (x : BitVec 16) :
    bitIsset (bitSet x vpMetaRead) vpStateMetaCacheActive = true ∧
    bitIsset (bitSet x vpMetaRead) vpStateMetaConsistent = true := by
  have hflags : bitIsset (bitSet x vpMetaRead) vpMetaRead = true := bitIsset_bitSet _ _
  rw [vpMetaRead, bitIsset_or, bitIsset_or, Bool.and_eq_true, Bool.and_eq_true] at hflags
  exact ⟨hflags.1.2, hflags.2⟩

theorem vpActivate_of_active {vp : VersionedPersistence δ} {s : VpState δ}
    (h : bitIsset s.state vpStateMetaCacheActive = true) : vpActivate vp s = s := by
  rw [vpActivate, if_neg (by rw [h]; exact Bool.true_eq_false_eq_False)]

/-- Loading the specification into the cache. -/
theorem loadMeta_isset (vp : VersionedPersistence δ) (s : VpState δ) {flag : BitVec 16}
    (h0 : vpStateMetaCacheActive &&& flag = 0) (h1 : vpStateMetaCacheFromStorage &&& flag = 0) :
    bitIsset (loadMetaFromSpec vp s).state flag = bitIsset s.state flag := by
  show bitIsset (bitClear (bitSet s.state _) _) _ = _
  rw [bitIsset_bitClear_of_disjoint _ h1, bitIsset_bitSet_of_disjoint _ h0]

theorem loadMeta_active (vp : VersionedPersistence δ) (s : VpState δ) :
    bitIsset (loadMetaFromSpec vp s).state vpStateMetaCacheActive = true := by
  show bitIsset (bitClear (bitSet s.state _) _) _ = true
  rw [bitIsset_bitClear_of_disjoint _ (by decide), bitIsset_bitSet]

theorem vpActivate_active (vp : VersionedPersistence δ) (s : VpState δ) :
    bitIsset (vpActivate vp s).state vpStateMetaCacheActive = true := by
  unfold vpActivate
  split
  · exact loadMeta_active vp s
  · rename_i hact
    exact Bool.not_eq_false _ ▸ hact

theorem vpActivate_driver (vp : VersionedPersistence δ) (s : VpState δ) :
    (vpActivate vp s).driver = s.driver := by
  unfold vpActivate
  split <;> rfl

theorem vpUsable_iff (s : VpState δ) : vpUsable s = true ↔
    bitIsset s.state vpStateMetaConsistent = true ∧
    bitIsset s.state vpStatePayloadCompatible = true ∧
    bitIsset s.state vpStatePayloadConsistent = true := by
  rw [vpUsable, bitIsset_or, bitIsset_or, Bool.and_eq_true, Bool.and_eq_true, and_assoc]

theorem vpUsable_activate (vp : VersionedPersistence δ) (s : VpState δ) :
    vpUsable (vpActivate vp s) = vpUsable s := by
  unfold vpActivate
  split
  · exact loadMeta_isset vp s (by decide) (by decide)
  · rfl

/-! ## 6. The checksum of a payload -/

/-- In how many pieces a payload is transferred. -/
def vpPieces (n : Nat) : Nat := (n + 15) / 16

/-- A checksum, taken over so many pieces of 16 octets. -/
def piecewise (process : BitVec 16 → List Octet → BitVec 16) :
    Nat → BitVec 16 → List Octet → BitVec 16
  | 0, cs, _ => cs
  | k + 1, cs, l => piecewise process k (process cs (l.take 16)) (l.drop 16)

/-- **The checksum of a payload.** -/
def payloadSum (vp : VersionedPersistence δ) (l : List Octet) : BitVec 16 :=
  piecewise vp.chksum.process (vpPieces l.length) vp.chksum.initial l

/-- The checksum of a header. -/
def headerSum (h : Host) (vp : VersionedPersistence δ) (b : Metablock) : BitVec 16 :=
  vp.chksum.process vp.chksum.initial (b.covered h)

/-- **A header with the checksums of a payload and of its own.** -/
def Metablock.sealed (h : Host) (vp : VersionedPersistence δ) (b : Metablock)
    (payload : BitVec 16) :
    Metablock :=
  { b with
    payloadChksum := payload
    headerChksum := headerSum h vp { b with payloadChksum := payload } }

/-- A header that has its checksums already. -/
theorem Metablock.sealed_of_sums {h : Host} {vp : VersionedPersistence δ} {b : Metablock}
    {payload : BitVec 16} (hh : b.headerChksum = headerSum h vp b)
    (hp : b.payloadChksum = payload) : b.sealed h vp payload = b := by
  rw [← hp]
  unfold Metablock.sealed
  rw [← hh]

theorem vpPieces_pos {n : Nat} (h : 0 < n) : vpPieces n = vpPieces (n - vpPiece n) + 1 := by
  unfold vpPieces vpPiece
  split <;> omega

theorem vpPiece_pos {n : Nat} (h : 0 < n) : 0 < vpPiece n := by
  unfold vpPiece
  split <;> omega

theorem vpPiece_le (n : Nat) : vpPiece n ≤ n ∧ vpPiece n ≤ 16 := by
  unfold vpPiece
  split <;> omega

/-- **A payload in memory, piece by piece.** -/
theorem piecewise_slice (process : BitVec 16 → List Octet → BitVec 16) (m : Mem Octet) (a : Nat)
    {rest : Nat} (h : 0 < rest) (cs : BitVec 16) :
    piecewise process (vpPieces rest) cs (m.slice a rest) =
      piecewise process (vpPieces (rest - vpPiece rest)) (process cs (m.slice a (vpPiece rest)))
        (m.slice (a + vpPiece rest) (rest - vpPiece rest)) := by
  have htake : (m.slice a rest).take 16 = m.slice a (vpPiece rest) := by
    unfold vpPiece
    split
    · exact Mem.slice_take _ _ _ _ (by omega)
    · exact List.take_of_length_le (by rw [Mem.length_slice]; omega)
  have hdrop : (m.slice a rest).drop 16 = m.slice (a + vpPiece rest) (rest - vpPiece rest) := by
    unfold vpPiece
    split
    · exact Mem.slice_drop _ _ _ _ (by omega)
    · rw [Nat.sub_self, Mem.slice_zero]
      exact List.drop_of_length_le (by rw [Mem.length_slice]; omega)
  rw [vpPieces_pos h, piecewise, htake, hdrop]

end Ufw
