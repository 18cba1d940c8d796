/-
  File:      Ufw/LengthPrefix/Failures.lean
  Subject:   LENGTH PREFIX FRAMING of memory with endpoints that come to an end, in builds with and
             without assertions.

  * `flenpMemoryToSinkBuild`, `flenpMemoryFromSourceBuild` -- the code, with the octets that are in
    the memory then; `flenpMemoryToSinkBuild_true`, `flenpMemoryFromSourceBuild_true`: with
    assertions they are `flenpMemoryToSink` and `flenpMemoryFromSource`;
  * `Sendable` -- the payloads a format has a frame for that goes out; `Opens` -- what a stock of
    octets begins with;
  * `flenpMemoryToSinkBuild_outcome` -- **what a sender does**;
  * `decodePrefixBuild_opens`, `decodePrefixBuild_missing`, `flenpMemoryFromSourceBuild_opens` --
    **what a receiver does** with a prefix, without one, and behind it.
-/
import Ufw.Endpoints.Limits
import Ufw.LengthPrefix.Frames

namespace Ufw

open Base

variable {σ τ : Type}

/-! ## 1. The code -/

/-- `decode_prefix` in a build. -/
def decodePrefixBuild (asserts : Bool) (h : Host) (fuel : Nat) (k : LengthPrefixKind)
    (source : Source σ) : Exec (Except Errno Nat × Source σ) :=
  if k = .variable then
    match varintU64FromSource h source with
    | (.error e, _, source) => .ok (.error e, source)
    | (.ok _, len, source) => .ok (.ok len.toNat, source)
  else do
    match ← sourceGetChunkBuild asserts fuel source k.size with
    | (.error e, _, source) => .ok (.error e, source)
    | (.ok _, buf, source) => .ok (k.parse h buf, source)

/-- `flenp_memory_to_sink` in a build. -/
def flenpMemoryToSinkBuild (asserts : Bool) (h : Host) (fuel : Nat) (k : LengthPrefixKind)
    (sink : Sink τ) (buf : List Octet) : Exec (Rc × Sink τ) :=
  match encodePrefix h k buf.length with
  | .error e => .ok (.error e, sink)
  | .ok octets =>
    let numlen := octets.length
    if ssizeMax - numlen < buf.length then .ok (.error .einval, sink)
    else do
      match ← sinkPutChunkBuild asserts fuel sink octets with
      | (.error e, sink) => .ok (.error e, sink)
      | (.ok _, sink) => do
        match ← sinkPutChunkBuild asserts fuel sink buf with
        | (.error e, sink) => .ok (.error e, sink)
        | (.ok 0, sink) => .ok (.ok 0, sink)
        | (.ok _, sink) => .ok (.ok (numlen + buf.length), sink)

/-- `flenp_memory_from_source` in a build, into a memory of `size` octets: the return code, and the
    octets that were written to the memory. -/
def flenpMemoryFromSourceBuild (asserts : Bool) (h : Host) (fuel : Nat) (k : LengthPrefixKind)
    (source : Source σ) (size : Nat) : Exec (Rc × List Octet × Source σ) := do
  match ← decodePrefixBuild asserts h fuel k source with
  | (.error e, source) => .ok (.error e, [], source)
  | (.ok len, source) =>
    if size < len then .ok (.error .enomem, [], source)
    else sourceGetChunkBuild asserts fuel source len

/-! ## 2. Assertions -/

/-- With assertions, a prefix is read as it is there. -/
theorem decodePrefixBuild_true (h : Host) (fuel : Nat) (k : LengthPrefixKind) (source : Source σ) :
    decodePrefixBuild true h fuel k source = decodePrefix h fuel k source := by
  unfold decodePrefixBuild decodePrefix
  rw [← sourceGetChunkBuild_true]
  split
  · rfl
  · cases sourceGetChunkBuild true fuel source k.size with
    | error e => rfl
    | ok r =>
      obtain ⟨rc, buf, source⟩ := r
      cases rc <;> rfl

theorem flenpMemoryToSinkBuild_true (h : Host) (fuel : Nat) (k : LengthPrefixKind) (sink : Sink τ)
    (buf : List Octet) :
    flenpMemoryToSinkBuild true h fuel k sink buf = flenpMemoryToSink h fuel k sink buf := by
  unfold flenpMemoryToSinkBuild
  simp only [sinkPutChunkBuild_true]
  rfl

theorem flenpMemoryFromSourceBuild_true (h : Host) (fuel : Nat) (k : LengthPrefixKind)
    (source : Source σ) (size : Nat) :
    (do
      let (rc, buf, source) ← flenpMemoryFromSourceBuild true h fuel k source size
      .ok (rc.map fun _ => buf, source)) = flenpMemoryFromSource h fuel k source size := by
  unfold flenpMemoryFromSourceBuild flenpMemoryFromSource
  rw [decodePrefixBuild_true]
  cases decodePrefix h fuel k source with
  | error e => rfl
  | ok r =>
    obtain ⟨rc, source⟩ := r
    cases rc with
    | error e => rfl
    | ok len =>
      simp only [ok_bind]
      split
      · rfl
      · exact sourceGetChunkBuild_true fuel source len

/-- What the build with assertions returns, any build returns. -/
theorem flenpMemoryToSink_below (asserts : Bool) (h : Host) (fuel : Nat) (k : LengthPrefixKind)
    (sink : Sink τ) (buf : List Octet) :
    Below (flenpMemoryToSink h fuel k sink buf)
    (flenpMemoryToSinkBuild asserts h fuel k sink buf) := by
  unfold flenpMemoryToSink flenpMemoryToSinkBuild
  cases encodePrefix h k buf.length with
  | error e => exact .refl _
  | ok octets =>
    refine .ite (.refl _) (.bind (sinkPutChunk_below asserts fuel sink octets) fun r => ?_)
    obtain ⟨rc, sink₁⟩ := r
    cases rc with
    | error e => exact .refl _
    | ok m => exact .bind (sinkPutChunk_below asserts fuel sink₁ buf) fun _ => .refl _

/-- A prefix that is read with assertions is read without them. -/
theorem decodePrefixBuild_of_ok (asserts : Bool) {h : Host} {fuel n : Nat} {k : LengthPrefixKind}
    {source source' : Source σ} (hx : decodePrefix h fuel k source = .ok (.ok n, source')) :
    decodePrefixBuild asserts h fuel k source = .ok (.ok n, source') := by
  unfold decodePrefix at hx
  unfold decodePrefixBuild
  split at hx
  · next hk =>
    rw [if_pos hk]
    exact hx
  · next hk =>
    obtain ⟨⟨rc, source₁⟩, hget, hx⟩ := bind_eq_ok hx
    cases rc with
    | error e => cases hx
    | ok buf =>
      rw [if_neg hk, sourceGetChunkBuild_of_ok asserts hget]
      exact hx

/-! ## 3. Sending -/

namespace LengthPrefixKind

variable {h : Host} {k : LengthPrefixKind} {n m : Nat}

/-- How many octets the frame of a payload of `n` octets has. -/
def frameLength (h : Host) (k : LengthPrefixKind) (n : Nat) : Nat := (k.generate h n).length + n

/-- **The payloads that can be sent**: the format has a frame for them, and there is room for it. -/
def Sendable (h : Host) (k : LengthPrefixKind) (room n : Nat) : Prop :=
  k.Fits n ∧ k.frameLength h n ≤ room

instance (h : Host) (k : LengthPrefixKind) (room n : Nat) : Decidable (k.Sendable h room n) :=
  inferInstanceAs (Decidable (_ ∧ _))

theorem length_frame (h : Host) (k : LengthPrefixKind) (l : List Octet) :
    (k.frame h l).length = k.frameLength h l.length := List.length_append

theorem Fits.frameLength_le (hn : k.Fits n) : k.frameLength h n ≤ n + varint64BitMaxOctets := by
  have hpre := (hn.encodes.announces h).length_le
  unfold frameLength
  omega

/-- **What a stock of octets begins with**: a prefix that announces `n` octets, and `rest` behind
    it. -/
def Opens (h : Host) (k : LengthPrefixKind) (stock : List Octet) (n : Nat) (rest : List Octet) :
    Prop :=
  ∃ octets, stock = octets ++ rest ∧ k.Announces h octets n

end LengthPrefixKind

section Sending

variable {h : Host} {k : LengthPrefixKind} {sent : τ → List Octet} {Room : τ → Nat → Prop}
  {ends : Prop} {Report : Errno → Prop} {sink : Sink τ} {l : List Octet} {room : Nat}

/-- What `flenp_memory_to_sink` returns for a payload that is sent. -/
def sentRc (h : Host) (k : LengthPrefixKind) (l : List Octet) : Nat :=
  if l = [] then 0 else k.frameLength h l.length

/-- **A payload that can be sent is sent.** -/
theorem flenpMemoryToSinkBuild_sends (asserts : Bool) (hk : sink.Roomy sent Room)
    (hroom : Room sink.driver room) (hl : k.Sendable h room l.length) :
    ∃ sink', Returns (fun fuel => flenpMemoryToSinkBuild asserts h fuel k sink l)
      (.ok (sentRc h k l), sink') ∧ sink.Sends sent (k.frame h l) sink' := by
  obtain ⟨sink', hret, hs, -⟩ := flenpMemoryToSink_sends h hl.1 hk hroom
    (by rw [LengthPrefixKind.length_frame]; exact hl.2)
  rw [LengthPrefixKind.length_frame] at hret
  exact ⟨sink', hret.below fun fuel => flenpMemoryToSink_below asserts h fuel k sink l, hs⟩

/-- **A payload that does not fit is rejected**, before anything is written. -/
theorem flenpMemoryToSinkBuild_rejects (asserts : Bool) (h : Host) (hl : ¬ k.Fits l.length)
    (sink : Sink τ) : Returns (fun fuel => flenpMemoryToSinkBuild asserts h fuel k sink l)
      (.error .einval, sink) :=
  (Returns.of_eq (flenpMemoryToSink_rejects h hl)).below fun fuel =>
    flenpMemoryToSink_below asserts h fuel k sink l

/-- **A payload that fits, and whose frame there is no room for**: with assertions the program
    stops, without them an error is returned. -/
theorem flenpMemoryToSinkBuild_fails (h : Host) (hk : sink.Limited sent Room ends Report)
    (hends : ends) (hroom : Room sink.driver room) (hl : k.Fits l.length)
    (hlt : room < k.frameLength h l.length) :
    Stops (fun fuel => flenpMemoryToSinkBuild true h fuel k sink l) ∧ ∃ e d', Returns
      (fun fuel => flenpMemoryToSinkBuild false h fuel k sink l)
      (.error e, { sink with driver := d' }) := by
  obtain ⟨henc, hle⟩ := LengthPrefixKind.encodePrefix_fits h hl
  have hfits : ¬ ssizeMax - (k.generate h l.length).length < l.length := by omega
  rcases Nat.lt_or_ge room (k.generate h l.length).length with hshort | hpre
  · -- the prefix does not go out
    obtain ⟨hstops, e, d', hret⟩ := sinkPutChunkBuild_fails hk hends hroom hshort (by omega)
    refine ⟨hstops.part fun fuel hx => ?_, e, d', hret.after fun fuel hx => ?_⟩
    · simp only [flenpMemoryToSinkBuild, henc, if_neg hfits, hx, error_bind]
    · simp only [flenpMemoryToSinkBuild, henc, if_neg hfits, hx, ok_bind]
  · obtain ⟨sink₁, hput, hs₁, hroom₁⟩ :=
      sinkPutChunk_roomy hk.roomy (k.generate h l.length) hroom hpre
      (by omega)
    have hput' := fun asserts => hput.below fun fuel =>
      sinkPutChunk_below asserts fuel sink (k.generate h l.length)
    have hshort : room - (k.generate h l.length).length < l.length := by
      unfold LengthPrefixKind.frameLength at hlt
      omega
    obtain ⟨hstops, e, d', hret⟩ :=
      sinkPutChunkBuild_fails (hk.sends hs₁) hends hroom₁ hshort (by omega)
    obtain ⟨d₁, rfl, -⟩ := hs₁
    refine ⟨.both (fun fuel hx hy => ?_) (hput' true) hstops, e, d',
      .both (fun fuel hx hy => ?_) (hput' false) hret⟩
    · simp only [flenpMemoryToSinkBuild, henc, if_neg hfits, hx, ok_bind, hy, error_bind]
    · simp only [flenpMemoryToSinkBuild, henc, if_neg hfits, hx, ok_bind, hy]

/-- **What a sender does**: the payload is sent, or an error is returned, or an assertion fails. -/
theorem flenpMemoryToSinkBuild_outcome (asserts : Bool) (h : Host) (k : LengthPrefixKind)
    (hk : sink.Limited sent Room ends Report) (hroom : Room sink.driver room)
    (hends : ends ∨ l.length + varint64BitMaxOctets ≤ room) :
    (k.Sendable h room l.length ∧ ∃ sink', Returns
        (fun fuel => flenpMemoryToSinkBuild asserts h fuel k sink l) (.ok (sentRc h k l), sink') ∧
      sink.Sends sent (k.frame h l) sink') ∨
    (¬ k.Sendable h room l.length ∧ (asserts = true → ¬ k.Fits l.length) ∧ ∃ e sink', Returns
        (fun fuel => flenpMemoryToSinkBuild asserts h fuel k sink l) (.error e, sink')) ∨
    ¬ k.Sendable h room l.length ∧ asserts = true ∧ k.Fits l.length ∧
      Stops (fun fuel => flenpMemoryToSinkBuild asserts h fuel k sink l) := by
  by_cases hs : k.Sendable h room l.length
  · exact .inl ⟨hs, flenpMemoryToSinkBuild_sends asserts hk.roomy hroom hs⟩
  · refine .inr ?_
    by_cases hf : k.Fits l.length
    · have hlt : room < k.frameLength h l.length := Nat.not_le.mp fun hle => hs ⟨hf, hle⟩
      have hle : k.frameLength h l.length ≤ l.length + varint64BitMaxOctets := hf.frameLength_le
      obtain ⟨hstops, e, d', hret⟩ := flenpMemoryToSinkBuild_fails h hk
        (hends.resolve_right (by omega)) hroom hf hlt
      cases asserts with
      | true => exact .inr ⟨hs, rfl, hf, hstops⟩
      | false => exact .inl ⟨hs, fun hc => absurd hc Bool.false_ne_true, e, _, hret⟩
    · exact .inl ⟨hs, fun _ => hf, _, sink, flenpMemoryToSinkBuild_rejects asserts h hf sink⟩

end Sending

/-! ## 4. Receiving -/

section Receiving

variable {h : Host} {k : LengthPrefixKind} {Left : σ → List Octet → Prop} {ends : Prop}
  {Report : Errno → Prop} {source : Source σ} {stock rest : List Octet} {n size : Nat}

/-- **A prefix at the beginning of a stock is read**, and nothing behind it. -/
theorem decodePrefixBuild_opens (asserts : Bool) (hs : source.Stocked Left ends Report)
    (hd : Left source.driver stock) (ho : k.Opens h stock n rest) :
    ∃ d', Returns (fun fuel => decodePrefixBuild asserts h fuel k source)
      (.ok n, { source with driver := d' }) ∧ Left d' rest := by
  obtain ⟨octets, rfl, ha⟩ := ho
  obtain ⟨d', hret, hd'⟩ := decodePrefix_announces h hs.lossless hd ha
  exact ⟨d', hret.after fun fuel hx => decodePrefixBuild_of_ok asserts hx, hd'⟩

/-- A decoder of numbers fails where no number ends within the octets it looks at. -/
theorem varintFromSourceLoop_missing (h : Host) (left : Nat) :
    ∀ (i : Nat) (acc : BitVec 64) {source : Source σ} {stock : List Octet},
    source.Stocked Left ends Report → Left source.driver stock → (ends ∨ left ≤ stock.length) →
    (∀ octets rest, stock = octets ++ rest → VarintString octets → left < octets.length) →
    ∃ e acc' d', varintFromSourceLoop h left i acc source =
      (.error e, acc', { source with driver := d' }) := by
  induction left with
  | zero => exact fun i acc source stock _ _ _ _ => ⟨.eilseq, acc, source.driver, rfl⟩
  | succ left ih =>
    intro i acc source stock hs hd hends hno
    cases stock with
    | nil =>
      obtain ⟨e, d', hget⟩ := sourceGetOctet_stocked_nil hs
        (hends.resolve_right (Nat.not_succ_le_zero left)) hd
      exact ⟨e, acc, d', by simp only [varintFromSourceLoop, hget]⟩
    | cons o stock =>
      obtain ⟨d₁, hget, hd₁⟩ := sourceGetOctet_lossless hs.lossless hd
      have hmore : varintDone o = false := by
        by_contra hdone
        have hone := hno [o] stock rfl (.last (Bool.not_eq_false _ ▸ hdone))
        exact absurd hone (Nat.not_lt.mpr (Nat.succ_le_succ (Nat.zero_le left)))
      obtain ⟨e, acc', d', hrest⟩ := ih (i + 1)
        (acc ||| ((o &&& varintDataMask).setWidth 64 <<< (i * varintDataBits))) (hs.driver d₁) hd₁
        (hends.imp id Nat.le_of_succ_le_succ) fun octets rest he hstring =>
          Nat.lt_of_succ_lt_succ (hno (o :: octets) rest (by rw [he]; rfl) (.more hmore hstring))
      exact ⟨e, acc', d', by
        simp only [varintFromSourceLoop, hget, Option.getD_some, hmore, Bool.false_eq_true,
          if_false, hrest]⟩

/-- **Where no length is announced, nothing is received**: the variable format returns an error. -/
theorem decodePrefixBuild_missing (asserts : Bool) (hs : source.Stocked Left ends Report)
    (hd : Left source.driver stock) (hends : ends ∨ varint64BitMaxOctets ≤ stock.length)
    (hno : ∀ n rest, ¬ LengthPrefixKind.variable.Opens h stock n rest) :
    ∃ e d', Returns (fun fuel => decodePrefixBuild asserts h fuel .variable source)
      (.error e, { source with driver := d' }) := by
  obtain ⟨e, acc', d', hloop⟩ := varintFromSourceLoop_missing h varint64BitMaxOctets 0 0
    hs hd hends fun octets rest he hstring => Nat.not_le.mp fun hle =>
      hno (varintValue 0 0 octets).toNat rest ⟨octets, he, hstring, hle, rfl⟩
  refine ⟨e, d', Returns.of_eq fun fuel => ?_⟩
  rw [decodePrefixBuild, if_pos rfl, varintU64FromSource, varintFromSource, hloop]

/-- The other formats are out of octets then. -/
theorem LengthPrefixKind.opens_of_size (h : Host) (hk : k ≠ .variable)
    (hle : k.size ≤ stock.length) :
    ∃ n rest, k.Opens h stock n rest := by
  have hlen : (stock.take k.size).length = k.size := List.length_take_of_le hle
  obtain ⟨n, hn⟩ : ∃ n, k.parse h (stock.take k.size) = .ok n := by
    match k, hk with
    | .octet, _ | .le16Bit, _ | .le32Bit, _ | .be16Bit, _ | .be32Bit, _ => exact ⟨_, rfl⟩
  refine ⟨n, stock.drop k.size, stock.take k.size, (List.take_append_drop _ _).symm, ?_⟩
  match k, hk with
  | .octet, _ | .le16Bit, _ | .le32Bit, _ | .be16Bit, _ | .be32Bit, _ => exact ⟨hlen, hn⟩

theorem decodePrefixBuild_short (h : Host) (hs : source.Stocked Left ends Report) (hends : ends)
    (hd : Left source.driver stock) (hk : k ≠ .variable) (hlt : stock.length < k.size) :
    Stops (fun fuel => decodePrefixBuild true h fuel k source) ∧ ∃ e d', Returns
      (fun fuel => decodePrefixBuild false h fuel k source)
      (.error e, { source with driver := d' }) := by
  have hsize : k.size ≤ ssizeMax := by cases k <;> decide
  obtain ⟨hstops, e, d', hret⟩ := sourceGetChunkBuild_fails hs hends hd hlt hsize
  refine ⟨hstops.part fun fuel hx => ?_, e, d', hret.after fun fuel hx => ?_⟩
  · rw [decodePrefixBuild, if_neg hk, hx, error_bind]
  · rw [decodePrefixBuild, if_neg hk, hx, ok_bind]

/-- Behind a prefix, a receiver into memory asks for a chunk, if that has room. -/
theorem flenpMemoryFromSourceBuild_opens (asserts : Bool) (hs : source.Stocked Left ends Report)
    (hd : Left source.driver stock) (ho : k.Opens h stock n rest) (size : Nat) : ∃ d, Left d rest ∧
      (size < n → Returns (fun fuel => flenpMemoryFromSourceBuild asserts h fuel k source size)
        (.error .enomem, [], { source with driver := d })) ∧
      (n ≤ size → ∀ r, Returns
          (fun fuel => sourceGetChunkBuild asserts fuel { source with driver := d } n) r →
        Returns (fun fuel => flenpMemoryFromSourceBuild asserts h fuel k source size) r) ∧
      (n ≤ size →
        Stops (fun fuel => sourceGetChunkBuild asserts fuel { source with driver := d } n) →
        Stops (fun fuel => flenpMemoryFromSourceBuild asserts h fuel k source size)) := by
  obtain ⟨d, hprefix, hd'⟩ := decodePrefixBuild_opens asserts hs hd ho
  refine ⟨d, hd', fun hlt => hprefix.after fun fuel hx => ?_, fun hle r hget =>
    .both (fun fuel hx hy => ?_) hprefix hget,
    fun hle hstops => .both (fun fuel hx hy => ?_) hprefix
    hstops⟩
  · simp only [flenpMemoryFromSourceBuild, hx, ok_bind, if_pos hlt]
  · simp only [flenpMemoryFromSourceBuild, hx, ok_bind, if_neg (Nat.not_lt.mpr hle), hy]
  · simp only [flenpMemoryFromSourceBuild, hx, ok_bind, if_neg (Nat.not_lt.mpr hle), hy]

/-- No chunk is empty. -/
theorem sourceGetChunkBuild_zero (asserts : Bool) (fuel : Nat) (source : Source σ) :
    sourceGetChunkBuild asserts fuel source 0 = .ok (.error .einval, [], source) := by
  cases asserts <;> rfl

/-- No chunk is larger than what a return code can count. -/
theorem sourceGetChunkBuild_large (source : Source σ) (hn : ssizeMax < n) :
    Stops (fun fuel => sourceGetChunkBuild true fuel source n) ∧ Returns
      (fun fuel => sourceGetChunkBuild false fuel source n) (.error .einval, [], source) := by
  have hmulti :
      ∀ fuel, sourceReadMulti fuel source n = .ok ((some .einval, []), source) := fun fuel =>
    if_pos (.inr hn)
  have hne : ¬([] : List Octet).length = n := fun he => by
    rw [← he] at hn
    exact Nat.not_lt_zero _ hn
  refine ⟨⟨0, fun fuel _ => ?_⟩, Returns.of_eq fun fuel => ?_⟩
  · simp only [sourceGetChunkBuild, hmulti, ok_bind, runtimeAssert_true, require_neg hne,
      error_bind]
  · simp only [sourceGetChunkBuild, hmulti, ok_bind, runtimeAssert_false]

/-- **A payload that is there is received.** -/
theorem sourceGetChunkBuild_payload (asserts : Bool) (hs : source.Stocked Left ends Report)
    (hd : Left source.driver rest) (h0 : 0 < n) (hn : n ≤ ssizeMax) (hle : n ≤ rest.length) :
    ∃ d', Returns (fun fuel => sourceGetChunkBuild asserts fuel source n)
      (.ok n, rest.take n, { source with driver := d' }) := by
  have hlen : (rest.take n).length = n := List.length_take_of_le hle
  rw [← List.take_append_drop n rest] at hd
  obtain ⟨d', hret, -⟩ := sourceGetChunk_lossless hs.lossless hd
    (List.length_pos_iff.mp (hlen.symm ▸ h0)) (hlen.symm ▸ hn)
  rw [hlen] at hret
  refine ⟨d', hret.after fun fuel hx => ?_⟩
  rw [sourceGetChunkBuild_of_ok asserts hx, hlen]

end Receiving

end Ufw
