/-
  File:      Ufw/Endpoints/Limits.lean
  Subject:   ENDPOINTS that come to an end: sources that run out of octets, sinks that run out of
             room, and what a transfer of a chunk has moved when they fail.

  * `Source.Stocked` -- a source with some octets, and errors behind them if it ends there;
  * `Sink.Limited` -- a sink with room for some octets, and errors then if it ends there;
  * `sourceReadLoop_stocked`, `sinkWriteLoop_limited` -- **a transfer moves what there is**, and
    fails where that is less than was asked for;
  * `sourceGetChunkBuild`, `sinkPutChunkBuild` -- chunks in a build with or without assertions: with
    them the program stops where a transfer fails (`sinkPutChunkBuild_fails`), without them the
    error is returned, and what was read stays in the memory (`sourceGetChunkBuild_fails`).
-/
import Ufw.Endpoints.Transfers

namespace Ufw

open Base

variable {σ τ : Type}

/-! ## 1. Sources -/

/-- **A driver with a stock of octets**: `Left d l` says that it has `l`. It hands out something
    every time; where it `ends` behind its stock, it has errors of `Report` there, and nothing
    else. -/
structure SourceRun.Stocked (Left : σ → List Octet → Prop) (ends : Prop) (Report : Errno → Prop)
    (run : SourceRun σ) : Prop where
  octets : ∀ d left n, Left d left → left ≠ [] → run.Asks n → (n ≤ left.length ∨ ends) →
    ∃ l rest d', run.call d n = (.ok l, d') ∧ l ≠ [] ∧ l.length ≤ n ∧ left = l ++ rest ∧
      Left d' rest
  fails : ends → ∀ d n, Left d [] → run.Asks n →
    ∃ e d', run.call d n = (.error e, d') ∧ Report e ∧ Left d' []

/-- **A source with a stock of octets.** Its retries, if it has any, do not keep its errors back. -/
structure Source.Stocked (Left : σ → List Octet → Prop) (ends : Prop) (Report : Errno → Prop)
    (source : Source σ) : Prop where
  init : ∀ f, source.retry.init = some f → ∀ d l, Left d l → Left (f d) l
  retry : ends → ∀ d e, Left d [] → Report e → ∃ e' d',
    source.retry.goOn d (.error e) = (.error e', d') ∧ Report e' ∧ Left d' []
  run : source.run.Stocked Left ends Report

section Stocked

variable {Left : σ → List Octet → Prop} {ends : Prop} {Report : Errno → Prop} {source : Source σ}
  {left l rest : List Octet}

theorem SourceRun.Asks.pos {run : SourceRun σ} {n : Nat} (hn : run.Asks n) : 0 < n := by
  cases run with
  | octet run => exact hn ▸ Nat.one_pos
  | chunk run => exact hn

/-- Who asks for something gets something, if there is anything. -/
theorem take_ne_nil {n : Nat} (hn : 0 < n) (hl : left ≠ []) : left.take n ≠ [] := by
  rw [Ne, List.take_eq_nil_iff, not_or]
  exact ⟨hn.ne', hl⟩

/-- Its stock is not lost. -/
theorem Source.Stocked.lossless (h : source.Stocked Left ends Report) : source.Lossless Left where
  init := h.init
  run := fun d left n hd hn hle =>
    h.run.octets d left n hd (List.length_pos_iff.mp (lt_of_lt_of_le hn.pos hle)) hn (.inl hle)

theorem Source.Stocked.driver (h : source.Stocked Left ends Report) (d : σ) :
    ({ source with driver := d } : Source σ).Stocked Left ends Report := ⟨h.init, h.retry, h.run⟩

/-- An octet driver hands out one octet. -/
theorem SourceRun.Stocked.octet {run : σ → Except Errno (Option Octet) × σ}
    (h : (SourceRun.octet run).Stocked Left ends Report) {d : σ} {o : Octet}
    (hd : Left d (o :: left)) : ∃ d', run d = (.ok (some o), d') ∧ Left d' left := by
  obtain ⟨l, rest, d', hcall, hne, hlen, hl, hd'⟩ := h.octets d (o :: left) 1 hd
    (List.cons_ne_nil o left) rfl (.inl (Nat.succ_le_succ (Nat.zero_le _)))
  obtain ⟨o', rfl⟩ : ∃ o', l = [o'] :=
    List.length_eq_one_iff.mp (le_antisymm hlen (List.length_pos_iff.mpr hne))
  obtain ⟨rfl, rfl⟩ : o = o' ∧ left = rest := List.cons_eq_cons.mp hl
  have hcall' : ((run d).1.map Option.toList, (run d).2) = (.ok [o], d') := hcall
  rcases hrun : run d with ⟨rc, d₁⟩
  rw [hrun] at hcall'
  match rc, hcall' with
  | .ok (some _), rfl => exact ⟨_, rfl, hd'⟩

theorem SourceRun.Stocked.octet_fails {run : σ → Except Errno (Option Octet) × σ}
    (h : (SourceRun.octet run).Stocked Left ends Report) (hends : ends) {d : σ} (hd : Left d []) :
    ∃ e d', run d = (.error e, d') ∧ Report e ∧ Left d' [] := by
  obtain ⟨e, d', hcall, he, hd'⟩ := h.fails hends d 1 hd rfl
  have hcall' : ((run d).1.map Option.toList, (run d).2) = (.error e, d') := hcall
  rcases hrun : run d with ⟨rc, d₁⟩
  rw [hrun] at hcall'
  match rc, hcall' with
  | .error _, rfl => exact ⟨_, _, rfl, he, hd'⟩

/-- The adapter of an octet driver fills a request as far as there are octets. -/
theorem sourceAdapt_stocked {run : σ → Except Errno (Option Octet) × σ}
    (h : (SourceRun.octet run).Stocked Left ends Report) (n : Nat) :
    ∀ {d : σ} {left : List Octet} (got : List Octet), Left d left → (n ≤ left.length ∨ ends) →
    got ++ left ≠ [] → (n = 0 → got ≠ []) → ∃ d',
      sourceAdapt run n got d = (.ok (got ++ left.take n), d') ∧ Left d' (left.drop n) := by
  induction n with
  | zero =>
    intro d left got hd _ _ _
    exact ⟨d, by rw [List.take_zero, List.append_nil]; rfl, hd⟩
  | succ n ih =>
    intro d left got hd hends hne _
    cases left with
    | nil =>
      obtain ⟨e, d', hrun, -, hd'⟩ := h.octet_fails (hends.resolve_left (Nat.not_succ_le_zero n)) hd
      rw [List.append_nil] at hne
      refine ⟨d', ?_, hd'⟩
      rw [sourceAdapt, hrun]
      simp only [if_neg hne, List.take_nil, List.append_nil]
    | cons o left =>
      obtain ⟨d₁, hrun, hd₁⟩ := h.octet hd
      obtain ⟨d', hcall, hd'⟩ := ih (got ++ [o]) hd₁ (hends.imp Nat.le_of_succ_le_succ id) (by simp)
        fun _ => by simp
      refine ⟨d', ?_, hd'⟩
      rw [sourceAdapt, hrun]
      simp only [hcall, List.take_succ_cons, List.append_assoc, List.singleton_append]

/-- **Behind its adapter a driver with a stock is a chunk driver with that stock.** -/
theorem SourceRun.Stocked.chunked {run : SourceRun σ} (h : run.Stocked Left ends Report) :
    run.chunked.Stocked Left ends Report := by
  cases run with
  | chunk run => exact h
  | octet run =>
    constructor
    · intro d left n hd hne hn hends
      obtain ⟨d', hcall, hd'⟩ := sourceAdapt_stocked h n [] hd hends hne fun h0 =>
        absurd h0 (Nat.pos_iff_ne_zero.mp hn)
      exact ⟨left.take n, left.drop n, d', hcall, take_ne_nil hn hne, List.length_take_le n left,
        (List.take_append_drop n left).symm, hd'⟩
    · intro hends d n hd hn
      obtain ⟨n, rfl⟩ : ∃ m, n = m + 1 := ⟨n - 1, (Nat.succ_pred_eq_of_pos hn).symm⟩
      obtain ⟨e, d', hrun, he, hd'⟩ := h.octet_fails hends hd
      refine ⟨e, d', ?_, he, hd'⟩
      show sourceAdapt run (n + 1) [] d = _
      rw [sourceAdapt, hrun]
      rfl

/-- **The read loop fills a request as far as there are octets**, and fails where these are
    fewer. -/
theorem sourceReadLoop_stocked {run : SourceRun σ} {retry : EpRetry σ}
    (h : run.chunked.Stocked Left ends Report) (hr : ends → ∀ d e, Left d [] → Report e → ∃ e' d',
      retry.goOn d (.error e) = (.error e', d') ∧ Report e' ∧ Left d' []) (n k : Nat) :
    ∀ {d : σ} {left : List Octet} (got : List Octet), Left d left → (k ≤ left.length ∨ ends) →
    got.length + k = n → ∃ error d',
      Returns (fun fuel => sourceReadLoop n fuel got { run, retry, driver := d })
        ((error, got ++ left.take k), { run, retry, driver := d' }) ∧
      (k ≤ left.length ∧ error = none ∨ left.length < k ∧ ∃ e, error = some e ∧ Report e) ∧
      Left d' (left.drop k) := by
  induction k using Nat.strongRecOn with
  | ind k ih =>
    intro d left got hd hends hn
    rcases Nat.eq_zero_or_pos k with rfl | h0
    · refine ⟨none, d, Returns.of_succ fun fuel => ?_, .inl ⟨Nat.zero_le _, rfl⟩, hd⟩
      rw [sourceReadLoop, if_neg (by omega), List.take_zero, List.append_nil]
    · have hk : n - got.length = k := by omega
      by_cases hne : left = []
      · subst hne
        have hend : ends := hends.resolve_left (Nat.not_le.mpr h0)
        obtain ⟨e, d₁, hcall, he, hd₁⟩ := h.fails hend d k hd (run.asks_chunked h0)
        obtain ⟨e', d', hgo, he', hd'⟩ := hr hend d₁ e hd₁ he
        refine ⟨some e', d', Returns.of_succ fun fuel => ?_, .inr ⟨h0, e', rfl, he'⟩,
          by rwa [List.drop_nil]⟩
        rw [sourceReadLoop, if_pos (by omega), sourceRead_eq, hk]
        simp only [hcall, Except.map, hgo, List.take_nil, List.append_nil]
      · obtain ⟨l, rest, d₁, hcall, hl, hle, rfl, hd₁⟩ :=
          h.octets d left k hd hne (run.asks_chunked h0) hends
        have hpos : 0 < l.length := List.length_pos_iff.mpr hl
        have hlen : (l ++ rest).length = l.length + rest.length := List.length_append
        obtain ⟨error, d', hret, herror, hd'⟩ := ih (k - l.length) (by omega) (got ++ l) hd₁
          (hends.imp (fun hle' => by omega) id) (by rw [List.length_append]; omega)
        rw [List.take_append, List.take_of_length_le hle, ← List.append_assoc]
        refine ⟨error, d', hret.step fun fuel => ?_, ?_, ?_⟩
        · obtain ⟨o, os, rfl⟩ := List.exists_cons_of_ne_nil hl
          rw [sourceReadLoop, if_pos (by omega), sourceRead_eq, hk]
          simp only [hcall, require_pos hle, ok_bind]
        · exact herror.imp (.imp_left fun hc => by omega) (.imp_left fun hc => by omega)
        · rwa [List.drop_append, List.drop_eq_nil_of_le hle, List.nil_append]

/-- A transfer that is more than the stock. -/
theorem sourceReadMulti_fails (h : source.Stocked Left ends Report) (hends : ends)
    (hd : Left source.driver left) {n : Nat} (hlt : left.length < n) (hn : n ≤ ssizeMax) :
    ∃ e d', Returns (fun fuel => sourceReadMulti fuel source n)
      ((some e, left), { source with driver := d' }) := by
  have hstart := h.lossless.start hd
  obtain ⟨error, d', hret, herror, -⟩ := sourceReadLoop_stocked h.run.chunked h.retry n n [] hstart
    (.inr hends) (Nat.zero_add n)
  obtain ⟨hle, -⟩ | ⟨-, e, rfl, -⟩ := herror
  · exact absurd hle (Nat.not_le.mpr hlt)
  · rw [List.nil_append, List.take_of_length_le hlt.le] at hret
    refine ⟨e, d', Returns.congr (fun fuel => ?_) hret⟩
    rw [sourceReadMulti, if_neg (by omega)]
    rfl

/-- An empty stock has no octet. -/
theorem sourceGetOctet_stocked_nil (h : source.Stocked Left ends Report) (hends : ends)
    (hd : Left source.driver []) :
    ∃ e d', sourceGetOctet source = (.error e, { source with driver := d' }) := by
  obtain ⟨e, d', hcall, -, -⟩ := h.run.fails hends _ 1 hd source.run.asks_one
  exact ⟨e, d', by rw [sourceGetOctet_eq, hcall]; rfl⟩

end Stocked

/-! ## 2. Sinks -/

/-- **A driver with room for some octets**: `Room d n` says that it takes `n` more. It takes
    something every time; where it `ends` behind them, it has errors of `Report` then, and nothing
    else. -/
structure SinkRun.Limited (sent : τ → List Octet) (Room : τ → Nat → Prop) (ends : Prop)
    (Report : Errno → Prop) (run : SinkRun τ) : Prop where
  takes : ∀ d n buf, Room d n → 0 < n → run.Asks buf → (buf.length ≤ n ∨ ends) → ∃ m d',
    run.call d buf = .ok (.ok (m + 1), d') ∧ m < buf.length ∧ m < n ∧
      sent d' = sent d ++ buf.take (m + 1) ∧ Room d' (n - (m + 1))
  fails : ends → ∀ d buf, Room d 0 → run.Asks buf → ∃ e d',
    run.call d buf = .ok (.error e, d') ∧ Report e ∧ sent d' = sent d ∧ Room d' 0

/-- **A sink with room for some octets.** Its retries, if it has any, do not keep its errors
    back. -/
structure Sink.Limited (sent : τ → List Octet) (Room : τ → Nat → Prop) (ends : Prop)
    (Report : Errno → Prop) (sink : Sink τ) : Prop where
  init : ∀ f, sink.retry.init = some f → ∀ d, sent (f d) = sent d ∧ ∀ n, Room d n → Room (f d) n
  retry : ends → ∀ d e, Room d 0 → Report e → ∃ e' d',
    sink.retry.goOn d (.error e) = (.error e', d')
  run : sink.run.Limited sent Room ends Report

section Limited

variable {sent : τ → List Octet} {Room : τ → Nat → Prop} {ends : Prop} {Report : Errno → Prop}
  {sink sink' : Sink τ} {n : Nat}

theorem SinkRun.Asks.ne_nil {run : SinkRun τ} {buf : List Octet} (hb : run.Asks buf) :
    buf ≠ [] := by
  cases run with
  | octet run => exact List.length_pos_iff.mp (hb ▸ Nat.one_pos)
  | chunk run => exact hb

/-- There is room for what it takes. -/
theorem Sink.Limited.roomy (h : sink.Limited sent Room ends Report) : sink.Roomy sent Room where
  init := h.init
  run := fun d n buf hd hb hle => by
    obtain ⟨m, d', hcall, hm, -, hs, hd'⟩ := h.run.takes d n buf hd
      (lt_of_lt_of_le (List.length_pos_iff.mpr hb.ne_nil) hle) hb (.inl hle)
    exact ⟨m, d', hcall, hm, hs, hd'⟩

/-- A sink with room may go on behind it as it likes. -/
theorem Sink.Roomy.limited (h : sink.Roomy sent Room) :
    sink.Limited sent Room False fun _ => False where
  init := h.init
  retry := fun hf => hf.elim
  run := by
    refine ⟨fun d n buf hd _ hb hends => ?_, fun hf => hf.elim⟩
    have hle : buf.length ≤ n := hends.resolve_right id
    obtain ⟨m, d', hcall, hm, hs, hd'⟩ := h.run d n buf hd hb hle
    exact ⟨m, d', hcall, hm, lt_of_lt_of_le hm hle, hs, hd'⟩

theorem Sink.Limited.sends {l : List Octet} (h : sink.Limited sent Room ends Report)
    (h1 : sink.Sends sent l sink') : sink'.Limited sent Room ends Report := by
  obtain ⟨d', rfl, -⟩ := h1
  exact ⟨h.init, h.retry, h.run⟩

/-- The adapter of an octet driver passes on what there is room for. -/
theorem sinkAdapt_limited {run : τ → Octet → Exec (Rc × τ)}
    (h : (SinkRun.octet run).Limited sent Room ends Report) (buf : List Octet) :
    ∀ {d : τ} {n : Nat} (put : Nat), Room d n → (buf.length ≤ n ∨ ends) →
    0 < put + min buf.length n →
    ∃ d', sinkAdapt run put buf d = .ok (.ok (put + min buf.length n), d') ∧
      sent d' = sent d ++ buf.take n ∧ Room d' (n - buf.length) := by
  induction buf with
  | nil =>
    intro d n put hd _ _
    exact ⟨d, by rw [List.length_nil, Nat.zero_min]; rfl,
      by rw [List.take_nil, List.append_nil], hd⟩
  | cons o buf ih =>
    intro d n put hd hends hput
    cases n with
    | zero =>
      have hne : put ≠ 0 := by omega
      obtain ⟨e, d', hcall, -, hs, hd'⟩ :=
        h.fails (hends.resolve_left (Nat.not_succ_le_zero _)) d [o] hd rfl
      have hrun : run d o = .ok (.error e, d') := hcall
      refine ⟨d', ?_, by rw [hs, List.take_zero, List.append_nil], by rwa [Nat.zero_sub]⟩
      rw [sinkAdapt, hrun]
      simp only [ok_bind, if_neg hne, Nat.min_zero, Nat.add_zero]
    | succ n =>
      obtain ⟨m, d₁, hcall, hm, -, hs, hd₁⟩ := h.takes d (n + 1) [o] hd (Nat.succ_pos n) rfl
        (.inl (Nat.succ_le_succ (Nat.zero_le n)))
      obtain rfl : m = 0 := Nat.lt_one_iff.mp hm
      have hrun : run d o = .ok (.ok 1, d₁) := hcall
      obtain ⟨d', hrest, hs', hd'⟩ := ih (n := n) (put + 1) hd₁
        (hends.imp Nat.le_of_succ_le_succ id) (by omega)
      have hcount : put + min (o :: buf).length (n + 1) = put + 1 + min buf.length n := by
        rw [List.length_cons]
        omega
      refine ⟨d', ?_, ?_, by rwa [List.length_cons, Nat.add_sub_add_right]⟩
      · rw [hcount, ← hrest, sinkAdapt, hrun]
        rfl
      · rw [hs', hs, List.append_assoc]
        rfl

/-- **Behind its adapter a driver with room is a chunk driver with that room.** -/
theorem SinkRun.Limited.chunked {run : SinkRun τ} (h : run.Limited sent Room ends Report) :
    run.chunked.Limited sent Room ends Report := by
  cases run with
  | chunk run => exact h
  | octet run =>
    constructor
    · intro d n buf hd h0 hb hends
      have hpos : 0 < buf.length := List.length_pos_iff.mpr hb
      obtain ⟨m, hm⟩ : ∃ m, min buf.length n = m + 1 :=
        ⟨min buf.length n - 1, (Nat.succ_pred_eq_of_pos (Nat.lt_min.mpr ⟨hpos, h0⟩)).symm⟩
      obtain ⟨d', hcall, hs, hd'⟩ := sinkAdapt_limited h buf 0 hd hends (by omega)
      have htake : buf.take n = buf.take (m + 1) := by
        rw [List.take_eq_take_min, Nat.min_comm, hm]
      have hleft : n - buf.length = n - (m + 1) := by omega
      rw [Nat.zero_add, hm] at hcall
      exact ⟨m, d', hcall, by omega, by omega, htake ▸ hs, hleft ▸ hd'⟩
    · intro hends d buf hd hb
      obtain ⟨o, rest, rfl⟩ := List.exists_cons_of_ne_nil hb
      obtain ⟨e, d', hcall, he, hs, hd'⟩ := h.fails hends d [o] hd rfl
      have hrun : run d o = .ok (.error e, d') := hcall
      refine ⟨e, d', ?_, he, hs, hd'⟩
      show sinkAdapt run 0 (o :: rest) d = _
      rw [sinkAdapt, hrun]
      rfl

/-- **The write loop fails where there is room for less**, with fewer octets out than it was to
    write. -/
theorem sinkWriteLoop_limited {run : SinkRun τ} {retry : EpRetry τ}
    (h : run.chunked.Limited sent Room ends Report) (hr : ends → ∀ d e, Room d 0 → Report e →
      ∃ e' d', retry.goOn d (.error e) = (.error e', d')) (hends : ends) (total : Nat) :
    ∀ {d : τ} (rest : List Octet), Room d n → n < rest.length → rest.length ≤ total → ∃ e size d',
      Returns (fun fuel => sinkWriteLoop total fuel rest { run, retry, driver := d })
        ((some e, size), { run, retry, driver := d' }) ∧ size < total := by
  induction n using Nat.strongRecOn with
  | ind n ih =>
    intro d rest hd hlt htotal
    have hne : rest ≠ [] := List.length_pos_iff.mp (Nat.zero_lt_of_lt hlt)
    rcases Nat.eq_zero_or_pos n with rfl | h0
    · obtain ⟨e, d₁, hcall, he, -, hd₁⟩ := h.fails hends d rest hd (run.asks_chunked hne)
      obtain ⟨e', d', hgo⟩ := hr hends d₁ e hd₁ he
      refine ⟨e', total - rest.length, d', Returns.of_succ fun fuel => ?_, by omega⟩
      rw [sinkWriteLoop, if_neg hne, sinkWrite_eq, hcall]
      simp only [ok_bind, hgo]
    · obtain ⟨m, d₁, hcall, hm, hmn, -, hd₁⟩ :=
        h.takes d n rest hd h0 (run.asks_chunked hne) (.inr hends)
      obtain ⟨e, size, d', hret, hsize⟩ := ih (n - (m + 1)) (by omega) (rest.drop (m + 1)) hd₁
        (by rw [List.length_drop]; omega) (by rw [List.length_drop]; omega)
      refine ⟨e, size, d', hret.step fun fuel => ?_, hsize⟩
      rw [sinkWriteLoop, if_neg hne, sinkWrite_eq, hcall]
      simp only [ok_bind, require_pos (Nat.succ_le_of_lt hm)]

/-- A transfer that is more than there is room for. -/
theorem sinkWriteMulti_fails (h : sink.Limited sent Room ends Report) (hends : ends)
    (hd : Room sink.driver n) {buf : List Octet} (hlt : n < buf.length)
    (hn : buf.length ≤ ssizeMax) :
    ∃ e size d', Returns (fun fuel => sinkWriteMulti fuel sink buf)
      ((some e, size), { sink with driver := d' }) ∧ size < buf.length := by
  have hstart : Room sink.start n := by
    unfold Sink.start
    cases hi : sink.retry.init with
    | none => exact hd
    | some f => exact (h.init f hi sink.driver).2 n hd
  obtain ⟨e, size, d', hret, hsize⟩ := sinkWriteLoop_limited h.run.chunked h.retry hends buf.length
    buf hstart hlt (le_refl _)
  refine ⟨e, size, d', Returns.congr (fun fuel => ?_) hret, hsize⟩
  rw [sinkWriteMulti, if_neg (by omega), if_neg (by omega)]
  rfl

end Limited

/-- A sink that takes so many octets, and fails then. -/
def limitedSink (room : Nat) : Sink (List Octet × Nat) where
  run := .octet fun
    | (l, 0), _ => .ok (.error .eio, (l, 0))
    | (l, room + 1), o => .ok (.ok 1, (l ++ [o], room))
  retry := epRetryInit
  driver := ([], room)

theorem limitedSink_limited (room : Nat) :
    (limitedSink room).Limited Prod.fst (fun d n => d.2 = n) True (· = .eio) where
  init := fun _ hf => nomatch hf
  retry := by
    rintro - d e - rfl
    exact ⟨_, _, rfl⟩
  run := by
    constructor
    · rintro ⟨l, _ | room⟩ n buf rfl h0 hb -
      · exact absurd h0 (Nat.lt_irrefl 0)
      · obtain ⟨o, rfl⟩ := List.length_eq_one_iff.mp hb
        exact ⟨0, (l ++ [o], room), rfl, Nat.one_pos, Nat.succ_pos room, rfl, rfl⟩
    · rintro - ⟨l, room⟩ buf rfl hb
      exact ⟨.eio, (l, 0), rfl, rfl, rfl, rfl⟩

/-- A stream has a stock, and no data behind it. -/
theorem streamSource_stocked (l : List Octet) :
    (streamSource l).Stocked (fun d left => d = left) True (· = .enodata) where
  init := fun _ hf => nomatch hf
  retry := by
    rintro - d e hd rfl
    exact ⟨.enodata, d, rfl, rfl, hd⟩
  run := by
    constructor
    · rintro (_ | ⟨o, d⟩) left n rfl hne hn -
      · exact absurd rfl hne
      · exact ⟨[o], d, d, rfl, List.cons_ne_nil o [], hn.ge, rfl, rfl⟩
    · rintro - d n rfl hn
      exact ⟨.enodata, [], rfl, rfl, rfl⟩

/-! ## 3. Builds -/

/-- `assert`, in a build with `UFW_WITH_RUNTIME_ASSERT`; without it (`NDEBUG`) nothing is
    checked. -/
def runtimeAssert (asserts : Bool) (b : Prop) [Decidable b] : Exec Unit :=
  require (asserts = true → b)

/-- `source_get_chunk` in a build: the return code, and the octets that are in the memory then.
    Where a driver reports more than it was asked for, there is no telling what a build without
    assertions does: the program stops here as well. -/
def sourceGetChunkBuild (asserts : Bool) (fuel : Nat) (source : Source σ) (n : Nat) :
    Exec (Rc × List Octet × Source σ) := do
  let ((error, buf), source) ← sourceReadMulti fuel source n
  runtimeAssert asserts (buf.length = n)
  runtimeAssert asserts (buf.length ≤ ssizeMax)
  match error with
  | none => .ok (.ok buf.length, buf, source)
  | some e => .ok (.error e, buf, source)

/-- `sink_put_chunk` in a build. -/
def sinkPutChunkBuild (asserts : Bool) (fuel : Nat) (sink : Sink τ) (buf : List Octet) :
    Exec (Rc × Sink τ) := do
  let ((error, size), sink) ← sinkWriteMulti fuel sink buf
  runtimeAssert asserts (size = buf.length)
  runtimeAssert asserts (size ≤ ssizeMax)
  match error with
  | none => .ok (.ok size, sink)
  | some e => .ok (.error e, sink)

section Builds

variable {b : Prop} [Decidable b] {asserts : Bool} {fuel n : Nat} {source : Source σ}
    {sink : Sink τ}

@[simp] theorem runtimeAssert_false (b : Prop) [Decidable b] : runtimeAssert false b = .ok () :=
  require_pos fun h => absurd h Bool.false_ne_true

@[simp] theorem runtimeAssert_true (b : Prop) [Decidable b] : runtimeAssert true b = require b := by
  unfold runtimeAssert require
  simp only [true_imp_iff]

/-- **`sink_put_chunk` is that of the build with assertions.** -/
theorem sinkPutChunkBuild_true (fuel : Nat) (sink : Sink τ) (buf : List Octet) :
    sinkPutChunkBuild true fuel sink buf = sinkPutChunk fuel sink buf := by
  unfold sinkPutChunkBuild
  simp only [runtimeAssert_true]
  rfl

/-- **So is `source_get_chunk`**, which returns the octets it has read. -/
theorem sourceGetChunkBuild_true (fuel : Nat) (source : Source σ) (n : Nat) :
    (do
      let (rc, buf, source) ← sourceGetChunkBuild true fuel source n
      .ok (rc.map fun _ => buf, source)) = sourceGetChunk fuel source n := by
  unfold sourceGetChunkBuild sourceGetChunk
  simp only [runtimeAssert_true]
  cases sourceReadMulti fuel source n with
  | error e => rfl
  | ok r =>
    obtain ⟨⟨error, buf⟩, source⟩ := r
    simp only [ok_bind, bind_assoc]
    cases error <;> rfl

/-- What the build with assertions returns, any build returns. -/
theorem sinkPutChunk_below (asserts : Bool) (fuel : Nat) (sink : Sink τ) (buf : List Octet) :
    Below (sinkPutChunk fuel sink buf) (sinkPutChunkBuild asserts fuel sink buf) := by
  cases asserts with
  | true =>
    rw [sinkPutChunkBuild_true]
    exact .refl _
  | false =>
    intro r hr
    obtain ⟨⟨⟨error, size⟩, sink'⟩, hmulti, hr⟩ := bind_eq_ok hr
    obtain ⟨-, -, hr⟩ := bind_eq_ok hr
    obtain ⟨-, -, hr⟩ := bind_eq_ok hr
    simp only [sinkPutChunkBuild, hmulti, ok_bind, runtimeAssert_false]
    exact hr

/-- A chunk that is read is in the memory. -/
theorem sourceGetChunkBuild_of_ok (asserts : Bool) {fuel n : Nat} {source source' : Source σ}
    {l : List Octet} (h : sourceGetChunk fuel source n = .ok (.ok l, source')) :
    sourceGetChunkBuild asserts fuel source n = .ok (.ok l.length, l, source') := by
  obtain ⟨⟨⟨error, buf⟩, source₁⟩, hmulti, h⟩ := bind_eq_ok h
  obtain ⟨⟨⟩, hn, h⟩ := bind_eq_ok h
  obtain ⟨⟨⟩, hs, h⟩ := bind_eq_ok h
  cases error with
  | some e => cases h
  | none =>
    cases h
    rw [sourceGetChunkBuild, hmulti]
    cases asserts with
    | true => simp only [ok_bind, runtimeAssert_true, hn, hs]
    | false => simp only [ok_bind, runtimeAssert_false]

end Builds

/-! ## 4. Failing transfers -/

section Fails

variable {Left : σ → List Octet → Prop} {sent : τ → List Octet} {Room : τ → Nat → Prop}
  {ends : Prop} {Report : Errno → Prop} {source : Source σ} {sink : Sink τ}

/-- **A chunk that is more than the stock of its source**: with assertions the program stops,
    without them an error is returned, and the stock is in the memory. -/
theorem sourceGetChunkBuild_fails (h : source.Stocked Left ends Report) (hends : ends)
    {left : List Octet} (hd : Left source.driver left) {n : Nat} (hlt : left.length < n)
    (hn : n ≤ ssizeMax) :
    Stops (fun fuel => sourceGetChunkBuild true fuel source n) ∧ ∃ e d', Returns
      (fun fuel => sourceGetChunkBuild false fuel source n)
      (.error e, left, { source with driver := d' }) := by
  obtain ⟨e, d', hret⟩ := sourceReadMulti_fails h hends hd hlt hn
  refine ⟨.after hret fun fuel hx => ?_, e, d', hret.after fun fuel hx => ?_⟩
  · simp only [sourceGetChunkBuild, hx, ok_bind, runtimeAssert_true, require_neg hlt.ne, error_bind]
  · simp only [sourceGetChunkBuild, hx, ok_bind, runtimeAssert_false]

/-- **A chunk that is more than its sink has room for**: with assertions the program stops, without
    them an error is returned. -/
theorem sinkPutChunkBuild_fails (h : sink.Limited sent Room ends Report) (hends : ends) {n : Nat}
    (hd : Room sink.driver n) {buf : List Octet} (hlt : n < buf.length)
    (hn : buf.length ≤ ssizeMax) :
    Stops (fun fuel => sinkPutChunkBuild true fuel sink buf) ∧ ∃ e d', Returns
      (fun fuel => sinkPutChunkBuild false fuel sink buf)
      (.error e, { sink with driver := d' }) := by
  obtain ⟨e, size, d', hret, hsize⟩ := sinkWriteMulti_fails h hends hd hlt hn
  refine ⟨.after hret fun fuel hx => ?_, e, d', hret.after fun fuel hx => ?_⟩
  · simp only [sinkPutChunkBuild, hx, ok_bind, runtimeAssert_true, require_neg hsize.ne, error_bind]
  · simp only [sinkPutChunkBuild, hx, ok_bind, runtimeAssert_false]

end Fails

end Ufw
