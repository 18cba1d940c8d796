/-
  File:      Ufw/ByteBuffer/Chunks.lean
  Subject:   BYTE BUFFERS: what a list of chunks answers as a source (`source_from_chunks`), read
             for read, however much each read asks for.

  * `sourceRequest`, `sourceRequests` -- a read of a source, and reads one behind the other;
  * `HandsOut` -- the pieces reads hand out: in order, none of them empty or too long, and none
    missing while there are octets;
  * `sourceRequests_ending` -- **a source that ends hands its octets out so**, and answers
    `-ENODATA` from then on;
  * `sourceFromChunks_ending` -- the source of a list of chunks is one, with its unread octets.
-/
import Ufw.Plumbing.Auxiliary

namespace Ufw

open Base

variable {σ : Type}

/-! ## 1. Reads of a source -/

/-- A read: `source_get_octet`, `source_read`, or `source_get_chunk_atmost`. -/
inductive SourceRequest where
  | octet
  | read (n : Nat)
  | chunkAtmost (n : Nat)

namespace SourceRequest

/-- How much a read asks for. -/
def size : SourceRequest → Nat
  | octet => 1
  | read n => n
  | chunkAtmost n => n

/-- A read that asks for something. `source_get_chunk_atmost` refuses to read more than an `ssize_t`
    can count. -/
def Proper : SourceRequest → Prop
  | octet => True
  | read n => 0 < n
  | chunkAtmost n => 0 < n ∧ n ≤ ssizeMax

end SourceRequest

/-- A read of a source. -/
def sourceRequest (fuel : Nat) (source : Source σ) :
    SourceRequest → Exec (Except Errno (List Octet) × Source σ)
  | .octet => .ok ((sourceGetOctet source).1.map Option.toList, (sourceGetOctet source).2)
  | .read n => .ok (sourceRead source n)
  | .chunkAtmost n => sourceGetChunkAtmost fuel source n

/-- Reads of a source, one behind the other, and their answers. -/
def sourceRequests (fuel : Nat) (source : Source σ) :
    List SourceRequest → Exec (List (Except Errno (List Octet)) × Source σ)
  | [] => .ok ([], source)
  | r :: rs => do
    let (rc, source) ← sourceRequest fuel source r
    let (rcs, source) ← sourceRequests fuel source rs
    .ok (rc :: rcs, source)

/-! ## 2. Octets in pieces -/

/-- **The octets of `left` are handed out in `pieces`, up to `rest`**, to reads that ask for
    `sizes`. The reads that get no piece are the last ones, and there are none while octets are
    left. -/
structure HandsOut (left : List Octet) (sizes : List Nat) (pieces : List (List Octet))
    (rest : List Octet) : Prop where
  count : pieces.length ≤ sizes.length
  fits : ∀ x ∈ pieces.zip sizes, x.1 ≠ [] ∧ x.1.length ≤ x.2
  order : pieces.flatten ++ rest = left
  whole : pieces.length < sizes.length → rest = []

namespace HandsOut

variable {left rest : List Octet} {sizes : List Nat} {pieces : List (List Octet)}

theorem none (left : List Octet) : HandsOut left [] [] left :=
  ⟨le_refl 0, fun _ hx => absurd hx List.not_mem_nil, rfl, fun h => absurd h (Nat.lt_irrefl 0)⟩

theorem empty (sizes : List Nat) : HandsOut [] sizes [] [] :=
  ⟨Nat.zero_le _, fun _ hx => absurd hx List.not_mem_nil, rfl, fun _ => rfl⟩

/-- One piece more, in front of the others. -/
theorem cons {l : List Octet} {n : Nat} (hne : l ≠ []) (hlen : l.length ≤ n)
    (h : HandsOut left sizes pieces rest) :
    HandsOut (l ++ left) (n :: sizes) (l :: pieces) rest := by
  refine ⟨Nat.succ_le_succ h.count, fun x hx => ?_, ?_, fun hlt => ?_⟩
  · rcases List.mem_cons.mp hx with rfl | hx
    · exact ⟨hne, hlen⟩
    · exact h.fits x hx
  · rw [List.flatten_cons, List.append_assoc, h.order]
  · exact h.whole (Nat.lt_of_succ_lt_succ hlt)

theorem ne_nil (h : HandsOut left sizes pieces rest) : ∀ l ∈ pieces, l ≠ [] := by
  intro l hl
  have hfst : (pieces.zip sizes).map Prod.fst = pieces := List.map_fst_zip h.count
  rw [← hfst] at hl
  obtain ⟨x, hx, rfl⟩ := List.mem_map.mp hl
  exact (h.fits x hx).1

/-- Pieces that are not empty have an octet each. -/
theorem length_le_length_flatten (hne : ∀ l ∈ pieces, l ≠ []) :
    pieces.length ≤ pieces.flatten.length := by
  induction pieces with
  | nil => exact le_refl 0
  | cons l pieces ih =>
    have hl := List.length_pos_iff.mpr (hne l List.mem_cons_self)
    have hpieces := ih fun x hx => hne x (List.mem_cons_of_mem l hx)
    rw [List.flatten_cons, List.length_append, List.length_cons]
    omega

/-- No octets, no pieces. -/
theorem of_nil (h : HandsOut [] sizes pieces rest) : pieces = [] ∧ rest = [] := by
  obtain ⟨hflat, hrest⟩ := List.append_eq_nil_iff.mp h.order
  refine ⟨List.eq_nil_iff_forall_not_mem.mpr fun l hl => ?_, hrest⟩
  exact h.ne_nil l hl (List.flatten_eq_nil_iff.mp hflat l hl)

/-- **As many reads as there are octets get all of them.** -/
theorem all (h : HandsOut left sizes pieces rest) (hle : left.length ≤ sizes.length) :
    pieces.flatten = left := by
  have hpieces := length_le_length_flatten h.ne_nil
  have hlen : pieces.flatten.length + rest.length = left.length := by
    rw [← List.length_append, h.order]
  have hrest : rest = [] := by
    by_cases hlt : pieces.length < sizes.length
    · exact h.whole hlt
    · exact List.length_eq_zero_iff.mp (by omega)
  rw [← h.order, hrest, List.append_nil]

end HandsOut

/-! ## 3. Sources that end -/

section Ending

variable {Left : σ → List Octet → Prop} {source : Source σ} {left : List Octet}

/-- While a source has octets, a read hands some out. -/
theorem sourceRequest_octets (h : source.Ending Left) (hd : Left source.driver left)
    (hne : left ≠ []) {r : SourceRequest} (hr : r.Proper) : ∃ l rest d',
      Returns (fun fuel => sourceRequest fuel source r) (.ok l, { source with driver := d' }) ∧
      l ≠ [] ∧ l.length ≤ r.size ∧ left = l ++ rest ∧ Left d' rest := by
  cases r with
  | octet =>
    obtain ⟨o, os, rfl⟩ := List.exists_cons_of_ne_nil hne
    obtain ⟨d', he, hd'⟩ := sourceGetOctet_ending h hd
    refine ⟨[o], os, d', Returns.of_eq fun fuel => ?_, List.cons_ne_nil o [], le_refl 1, rfl, hd'⟩
    rw [sourceRequest, he]
    rfl
  | read n =>
    obtain ⟨l, rest, d', hcall, hl, hle, heq, hd'⟩ :=
      h.run.chunked.octets _ left n hd hne (source.run.asks_chunked hr)
    refine ⟨l, rest, d', Returns.of_eq fun fuel => ?_, hl, hle, heq, hd'⟩
    rw [sourceRequest, sourceRead_eq, hcall]
  | chunkAtmost n =>
    obtain ⟨d', hret, hd'⟩ := sourceGetChunkAtmost_ending h hd hr.1 hr.2
    rw [if_neg hne] at hret
    exact ⟨left.take n, left.drop n, d', hret, take_ne_nil hr.1 hne, List.length_take_le n left,
      (List.take_append_drop n left).symm, hd'⟩

/-- When it has none, a read tells so, and there are none behind it. -/
theorem sourceRequest_ends (h : source.Ending Left) (hd : Left source.driver [])
    {r : SourceRequest} (hr : r.Proper) : ∃ d',
      Returns (fun fuel => sourceRequest fuel source r)
        (.error .enodata, { source with driver := d' }) ∧ Left d' [] := by
  cases r with
  | octet =>
    obtain ⟨d', he, hd'⟩ := sourceGetOctet_ending h hd
    refine ⟨d', Returns.of_eq fun fuel => ?_, hd'⟩
    rw [sourceRequest, he]
    rfl
  | read n =>
    obtain ⟨d', hcall, hd'⟩ := h.run.chunked.ends _ n hd (source.run.asks_chunked hr)
    refine ⟨d', Returns.of_eq fun fuel => ?_, hd'⟩
    rw [sourceRequest, sourceRead_eq, hcall]
  | chunkAtmost n =>
    obtain ⟨d', hret, hd'⟩ := sourceGetChunkAtmost_ending h hd hr.1 hr.2
    exact ⟨d', hret, by rwa [List.drop_nil] at hd'⟩

/-- **Reads of a source that ends** hand out its octets in pieces; the ones behind the last piece
    answer `-ENODATA`. -/
theorem sourceRequests_ending (h : source.Ending Left) (hd : Left source.driver left)
    {rs : List SourceRequest} (hrs : ∀ r ∈ rs, r.Proper) : ∃ pieces rest d',
      Returns (fun fuel => sourceRequests fuel source rs)
        (pieces.map .ok ++ List.replicate (rs.length - pieces.length) (.error .enodata),
          { source with driver := d' }) ∧
      HandsOut left (rs.map SourceRequest.size) pieces rest ∧ Left d' rest := by
  induction rs generalizing source left with
  | nil => exact ⟨[], left, source.driver, Returns.of_eq fun fuel => rfl, .none left, hd⟩
  | cons r rs ih =>
    have hr := hrs r List.mem_cons_self
    have hrs' := fun x hx => hrs x (List.mem_cons_of_mem r hx)
    by_cases hne : left = []
    · -- the source has ended, and stays so
      subst hne
      obtain ⟨d₁, hret, hd₁⟩ := sourceRequest_ends h hd hr
      obtain ⟨pieces, rest, d', hrets, hout, hd'⟩ := ih (h.driver d₁) hd₁ hrs'
      obtain ⟨rfl, rfl⟩ := hout.of_nil
      exact ⟨[], [], d', Returns.bind hret (Returns.bind hrets (Returns.of_eq fun fuel => rfl)),
        .empty _, hd'⟩
    · obtain ⟨l, rest₁, d₁, hret, hl, hle, rfl, hd₁⟩ := sourceRequest_octets h hd hne hr
      obtain ⟨pieces, rest, d', hrets, hout, hd'⟩ := ih (h.driver d₁) hd₁ hrs'
      refine ⟨l :: pieces, rest, d', Returns.bind hret (Returns.bind hrets
        (Returns.of_eq fun fuel => ?_)), hout.cons hl hle, hd'⟩
      rw [List.map_cons, List.length_cons, List.length_cons, Nat.add_sub_add_right,
        List.cons_append]

end Ending

/-! ## 4. Chunks -/

/-- Chunks can be read from any later one on. -/
theorem ByteChunks.Readable.later {c : ByteChunks} (hc : c.Readable) {i : Nat} (hi : c.active ≤ i) :
    ∀ b ∈ c.chunk.drop i, b.Readable :=
  fun b hb => hc b (List.drop_subset_drop_left c.chunk hi hb)

theorem ByteChunks.Readable.read {c : ByteChunks} (hc : c.Readable) {i : Nat} {b : ByteBuffer}
    (hi : c.active ≤ i) (hb : c.chunk[i]? = some b) (n : Nat) :
    (ByteChunks.mk (c.chunk.set i (b.consumed n)) i).Readable := by
  intro x hx
  have hx' : x ∈ b.consumed n :: c.chunk.drop (i + 1) := drop_set_of_getElem? hb _ ▸ hx
  have hbr : b.Readable := hc.later hi b (drop_of_getElem? hb ▸ List.mem_cons_self)
  rcases List.mem_cons.mp hx' with rfl | hx'
  · exact hbr.consumed n
  · exact hc.later (Nat.le_succ_of_le hi) x hx'

/-- **The source of a list of chunks ends**, when it has handed out their unread octets. -/
theorem sourceFromChunks_ending (c : ByteChunks) :
    (sourceFromChunks c).Ending fun d left => d.Readable ∧ d.unread = left where
  init := fun _ hf => nomatch hf
  retry := fun d hd => ⟨d, rfl, hd⟩
  run := {
    octets := fun d left n hd hne hn => by
      obtain ⟨hr, rfl⟩ := hd
      rcases readFromChunksLoop_cases n _ hr rfl with
        ⟨hnil, -⟩ | ⟨i, b, hi, hb, hbne, hun, hread⟩
      · exact absurd hnil hne
      · refine ⟨b.unread.take n, _, _, hread, take_ne_nil hn hbne, List.length_take_le n _, ?_,
          hr.read hi hb n, rfl⟩
        rw [unread_set_consumed hb, ← List.append_assoc, List.take_append_drop, hun]
    ends := fun d n hd _ => by
      obtain ⟨hr, hu⟩ := hd
      rcases readFromChunksLoop_cases n _ hr rfl with
        ⟨-, i, hi, hread⟩ | ⟨i, b, -, -, hbne, hun, -⟩
      · have hdrop : d.chunk.drop i = [] := List.drop_eq_nil_of_le hi
        refine ⟨{ d with active := i }, hread, fun b hb => ?_, ?_⟩
        · exact absurd (hdrop ▸ hb) List.not_mem_nil
        · show (d.chunk.drop i).flatMap ByteBuffer.unread = []
          rw [hdrop, List.flatMap_nil]
      · rw [hu] at hun
        exact absurd (List.append_eq_nil_iff.mp hun.symm).1 hbne }

/-- **Reads of a list of chunks**, whatever they ask for: each hands out something while there are
    unread octets, they come in order and none is lost, and then every read answers `-ENODATA`. -/
theorem sourceFromChunks_handsOut {c : ByteChunks} (hc : c.Readable) {rs : List SourceRequest}
    (hrs : ∀ r ∈ rs, r.Proper) : ∃ pieces c',
      Returns (fun fuel => sourceRequests fuel (sourceFromChunks c) rs)
        (pieces.map .ok ++ List.replicate (rs.length - pieces.length) (.error .enodata),
          sourceFromChunks c') ∧
      HandsOut c.unread (rs.map SourceRequest.size) pieces c'.unread ∧
      (c.unread.length ≤ rs.length → pieces.flatten = c.unread) := by
  obtain ⟨pieces, rest, c', hret, hout, -, rfl⟩ :=
    sourceRequests_ending (sourceFromChunks_ending c) ⟨hc, rfl⟩ hrs
  refine ⟨pieces, c', hret, hout, fun hle => hout.all ?_⟩
  rwa [List.length_map]

/-- Two of four chunks are empty, and the last read finds nothing. -/
theorem sourceFromChunks_handsOut_sample :
    ∃ pieces c',
      Returns (fun fuel => sourceRequests fuel (sourceFromChunks (chunksOf [[], [1, 2], [], [3]]))
          [.read 5, .octet, .chunkAtmost 4])
        (pieces.map .ok ++ List.replicate (3 - pieces.length) (.error .enodata),
          sourceFromChunks c') ∧
      HandsOut (chunksOf [[], [1, 2], [], [3]]).unread [5, 1, 4] pieces c'.unread ∧
      ((chunksOf [[], [1, 2], [], [3]]).unread.length ≤ 3 → pieces.flatten = [1, 2, 3]) :=
  sourceFromChunks_handsOut (chunksOf_valid (by decide)).readable
    (by simp [SourceRequest.Proper, ssizeMax])

end Ufw
