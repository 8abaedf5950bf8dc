import S3Rdma.Lib.Prog
import S3Rdma.Server.HandleGet

/-!
# `handle_get` in atomic steps

What `handle_get` does with its slot, access by access: a `pread` writes its bytes into a staging
buffer, and the engine reads the source of an RDMA write byte by byte, each at its own moment between
the `pread`s that run beside it. A request is a program over its two buffers (`transferSteps`), and
other requests may run between any two of its accesses.

Without interruption the program is `transfer` (`transferSteps_run`). The link is in `pread_full`:
what the engine has read at the end are the bytes of the buffer at the moments that `readSource`
takes them from (`preadSteps_run`).
-/

namespace S3Rdma.Server

/-- An RDMA write in progress: its source, and after how many `pread`s each byte is read. -/
structure Engine where
  buf : Bool
  local_off : ℕ
  piece : ℕ
  fetch : ℕ → ℕ

namespace Engine

/-- No RDMA write is in progress. -/
def idle : Engine := ⟨false, 0, 0, fun _ => 0⟩

/-- The engine reads some bytes of its source, one after the other; `got` has the bytes it has. -/
def reads (e : Engine) : List ℕ → (ℕ → UInt8) → Prog Staging (ℕ → UInt8)
  | [], got => pure got
  | i :: is, got => do
    let b ← Prog.look fun st : Staging => st e.buf (e.local_off + i)
    e.reads is fun j => if j = i then b else got j

/-- The engine reads the bytes whose moment has come. -/
def readsAt (e : Engine) (due : ℕ → Bool) (got : ℕ → UInt8) : Prog Staging (ℕ → UInt8) :=
  e.reads ((List.range e.piece).filter fun i => due (e.fetch i)) got

/-- The source, from the bytes that were read. -/
def source (e : Engine) (got : ℕ → UInt8) : Bytes := (List.range e.piece).map got

end Engine

/-- What is left of `pread_full` when it has returned: its result, its calls, and the bytes that
the engine has read meanwhile. -/
structure PreadEnd where
  result : Option ℕ
  events : List Ev
  got : ℕ → UInt8

/-- The end of a run with one more `pread` in front. -/
def PreadEnd.push (r : PreadEnd) (ev : Ev) : PreadEnd := { r with events := ev :: r.events }

/-- `pread_full` beside an RDMA write, from its `t`-th `pread` on. -/
def preadSteps (f : File) (buf : Bool) (count off : ℕ) (e : Engine) :
    List PreadOutcome → ℕ → ℕ → (ℕ → UInt8) → Prog Staging PreadEnd
  | [], total, t, got =>
    if total < count then do
      let m := f.served (count - total) (count - total) (off + total)
      let rest := if m = 0 ∨ total + m = count then []
        else [.pread buf (total + m) (count - (total + m)) (off + (total + m)) (some 0)]
      let got ← e.readsAt (· = t) got
      Prog.change fun st : Staging => st.store buf total (f.slice (off + total) m)
      let got ← e.readsAt (t < ·) got
      pure ⟨some (total + m), .pread buf total (count - total) (off + total) (some m) :: rest, got⟩
    else do
      let got ← e.readsAt (t ≤ ·) got
      pure ⟨some total, [], got⟩
  | o :: os, total, t, got =>
    if total < count then
      match o with
      | .eintr => do
        let got ← e.readsAt (· = t) got
        let r ← preadSteps f buf count off e os total (t + 1) got
        pure (r.push (.pread buf total (count - total) (off + total) none))
      | .error => do
        let got ← e.readsAt (t ≤ ·) got
        pure ⟨none, [.pread buf total (count - total) (off + total) none], got⟩
      | .read n =>
        let m := f.served n (count - total) (off + total)
        if m = 0 then do
          let got ← e.readsAt (t ≤ ·) got
          pure ⟨some total, [.pread buf total (count - total) (off + total) (some 0)], got⟩
        else do
          let got ← e.readsAt (· = t) got
          Prog.change fun st : Staging => st.store buf total (f.slice (off + total) m)
          let r ← preadSteps f buf count off e os (total + m) (t + 1) got
          pure (r.push (.pread buf total (count - total) (off + total) (some m)))
    else do
      let got ← e.readsAt (t ≤ ·) got
      pure ⟨some total, [], got⟩

/-- The variables of the ping-pong loop, without the buffers. -/
structure LoopVars where
  remaining : ℕ
  file_off : ℕ
  remote_off : ℕ
  total_written : ℤ
  cur : Bool
  cur_c : ChunkIO

namespace LoopVars

/-- The variables with the buffers. -/
def withStaging (v : LoopVars) (staging : Staging) : LoopState :=
  { remaining := v.remaining, file_off := v.file_off, remote_off := v.remote_off,
    total_written := v.total_written, cur := v.cur, cur_c := v.cur_c, staging }

/-- The arguments of the RDMA write of the current chunk. -/
def call (v : LoopVars) (source : Bytes) : RdmaCall :=
  { buf := v.cur, local_off := v.cur_c.local_off, piece := v.cur_c.piece,
    remote_off := v.remote_off, file_off := v.file_off, source }

/-- The variables after a pass of the loop. -/
def advance (v : LoopVars) (rdma_n : ℤ) (next_c : ChunkIO) : LoopVars :=
  { remaining := sub64 v.remaining v.cur_c.piece, file_off := add64 v.file_off v.cur_c.piece,
    remote_off := add64 v.remote_off v.cur_c.piece, total_written := v.total_written + rdma_n,
    cur := !v.cur, cur_c := next_c }

/-- The RDMA write of the current chunk. -/
def engine (v : LoopVars) (fetch : ℕ → ℕ) : Engine :=
  ⟨v.cur, v.cur_c.local_off, v.cur_c.piece, fetch⟩

end LoopVars

/-- The body of the ping-pong loop, in its `k`-th pass. -/
def loopSteps (cfg : Config) (f : File) (env : Env) (k : ℕ) (v : LoopVars) :
    Prog Staging ((Outcome ⊕ LoopVars) × List Ev) :=
  let nxt := !v.cur
  let next_file_off := add64 v.file_off v.cur_c.piece
  let next_remaining := sub64 v.remaining v.cur_c.piece
  let e := v.engine (env.fetch k)
  if 0 < next_remaining then
    let next_c := planChunk next_file_off next_remaining cfg.chunk_size cfg.direct_io
    if !env.spawns k then pure (.inl .threw, [])
    else do
      let pr ← preadSteps f nxt next_c.read_len next_c.read_off e (env.preads (k + 1)) 0 0 fun _ => 0
      let c := v.call (e.source pr.got)
      let evs := .rdmaBegin c :: pr.events ++ [.loaded nxt next_c.read_off pr.result]
      match env.rdma k v.cur_c.piece with
      | .throws => pure (.inl .terminated, evs)
      | .returned rdma_n landed =>
        let evs := evs ++ [.rdmaEnd c rdma_n landed]
        if rdma_n < 0 then pure (.inl (.returned 500 none), evs ++ [.release])
        else if !enough pr.result next_c then pure (.inl (.returned 500 none), evs ++ [.release])
        else pure (.inr (v.advance rdma_n next_c), evs)
  else do
    let got ← e.readsAt (fun _ => true) fun _ => 0
    let c := v.call (e.source got)
    match env.rdma k v.cur_c.piece with
    | .throws => pure (.inl .threw, [.rdmaBegin c])
    | .returned rdma_n landed =>
      let evs := [.rdmaBegin c, .rdmaEnd c rdma_n landed]
      if rdma_n < 0 then pure (.inl (.returned 500 none), evs ++ [.release])
      else pure (.inr (v.advance rdma_n ⟨0, 0, 0, 0⟩), evs)

/-- The ping-pong loop from its `k`-th pass on. -/
def pingPongSteps (cfg : Config) (f : File) (env : Env) (is_range : Bool) :
    ℕ → ℕ → LoopVars → Prog Staging (Outcome × List Ev)
  | 0, _, _ => pure (.outOfFuel, [])
  | fuel + 1, k, v =>
    if v.remaining = 0 then
      pure (.returned (if is_range then 206 else 200) (some v.total_written), [.release])
    else do
      let r ← loopSteps cfg f env k v
      match r.1 with
      | .inl o => pure (o, r.2)
      | .inr v => do
        let rest ← pingPongSteps cfg f env is_range fuel (k + 1) v
        pure (rest.1, r.2 ++ rest.2)

/-- `handle_get` from the prefill of the first buffer on. -/
def transferSteps (cfg : Config) (f : File) (env : Env) (offset length : ℕ) (is_range : Bool)
    (remote_base : ℕ) : Prog Staging (Outcome × List Ev) :=
  if cfg.chunk_size = 0 then pure (.returned 500 none, [.release])
  else do
    let cur_c := planChunk offset length cfg.chunk_size cfg.direct_io
    let pr ← preadSteps f false cur_c.read_len cur_c.read_off .idle (env.preads 0) 0 0 fun _ => 0
    let evs := pr.events ++ [.loaded false cur_c.read_off pr.result]
    if !enough pr.result cur_c then pure (.returned 500 none, evs ++ [.release])
    else do
      let r ← pingPongSteps cfg f env is_range (length + 1) 0
        { remaining := length, file_off := offset, remote_off := remote_base, total_written := 0,
          cur := false, cur_c }
      pure (r.1, evs ++ r.2)

/-! ## Without interruption -/

/-- The bytes that the engine has read after a look at some of them. -/
theorem Engine.reads_run (e : Engine) (is : List ℕ) (got : ℕ → UInt8) (st : Staging) :
    (e.reads is got).run st =
      (fun i => if i ∈ is then st e.buf (e.local_off + i) else got i, st) := by
  induction is generalizing got with
  | nil => simp [Engine.reads]
  | cons i is ih =>
    simp only [Engine.reads, Prog.bind_eq, Prog.run_bind, Prog.run_look, ih, List.mem_cons]
    congr 1
    funext j
    by_cases hmem : j ∈ is
    · simp [hmem]
    · by_cases hj : j = i <;> simp [hmem, hj]

/-- The bytes that the engine has after it has read those that are due. -/
def Engine.seen (e : Engine) (due : ℕ → Bool) (st : Staging) (got : ℕ → UInt8) (i : ℕ) : UInt8 :=
  if i < e.piece ∧ due (e.fetch i) = true then st e.buf (e.local_off + i) else got i

/-- The engine reads the bytes that are due, from the buffers as they are. -/
theorem Engine.readsAt_run (e : Engine) (due : ℕ → Bool) (got : ℕ → UInt8) (st : Staging) :
    (e.readsAt due got).run st = (e.seen due st got, st) := by
  rw [Engine.readsAt, Engine.reads_run]
  congr 1
  funext i
  simp [Engine.seen]

/-- What the engine has read after a run of `pread_full` that began with the `t`-th `pread`. -/
def Engine.gotAfter (e : Engine) (r : PreadRun) (t : ℕ) (got : ℕ → UInt8) (i : ℕ) : UInt8 :=
  if i < e.piece ∧ t ≤ e.fetch i then (r.snaps.getD (e.fetch i - t) r.final) e.buf (e.local_off + i)
  else got i

section Moments

variable (e : Engine) (t : ℕ) (got : ℕ → UInt8) (st st' : Staging)

/-- Nothing changes any more: the rest is read at the end. -/
theorem Engine.gotAfter_last (result : Option ℕ) (evs : List Ev) :
    e.gotAfter ⟨result, [st], st, evs⟩ t got = e.seen (t ≤ ·) st got := by
  funext i
  simp only [Engine.gotAfter, Engine.seen, decide_eq_true_eq]
  split_ifs
  · cases e.fetch i - t <;> rfl
  · rfl

/-- A byte is read before a `pread`, or as the rest of the run says. -/
theorem Engine.gotAfter_push (r : PreadRun) (ev : Ev) :
    e.gotAfter (r.push ev st) t got = e.gotAfter r (t + 1) (e.seen (· = t) st got) := by
  funext i
  simp only [Engine.gotAfter, Engine.seen, PreadRun.push, decide_eq_true_eq]
  rcases Nat.lt_trichotomy (e.fetch i) t with hlt | heq | hgt
  · rw [if_neg (by omega), if_neg (by omega), if_neg (by omega)]
  · simp [heq]
  · simp only [show e.fetch i - t = e.fetch i - (t + 1) + 1 by omega, List.getD_cons_succ]
    by_cases hi : i < e.piece
    · rw [if_pos (by omega), if_pos (by omega)]
    · rw [if_neg (by omega), if_neg (by omega), if_neg (by omega)]

end Moments

/-- `pread_full` without interruption: it returns what `preadFull` says, and the engine has read each
byte at its moment. -/
theorem preadSteps_run (f : File) (buf : Bool) (count off : ℕ) (e : Engine)
    (outs : List PreadOutcome) (total t : ℕ) (got : ℕ → UInt8) (st : Staging) :
    (preadSteps f buf count off e outs total t got).run st =
      (⟨(preadFull f buf count off outs total st).result,
        (preadFull f buf count off outs total st).events,
        e.gotAfter (preadFull f buf count off outs total st) t got⟩,
        (preadFull f buf count off outs total st).final) := by
  induction outs generalizing total t got st with
  | nil =>
    unfold preadSteps preadFull
    split_ifs with hlt
    · -- One `pread` with two moments, before and after it.
      generalize f.served (count - total) (count - total) (off + total) = m
      simp only [Prog.bind_eq, Prog.pure_eq, Prog.run_bind, Prog.run_change, Prog.run_ret,
        Engine.readsAt_run]
      generalize st.store buf total (f.slice (off + total) m) = st'
      have hmoments := e.gotAfter_push t got st ⟨none, [st'], st', []⟩ .acquire
      rw [Engine.gotAfter_last] at hmoments
      exact congrArg (fun g => (PreadEnd.mk _ _ g, st')) hmoments.symm
    · simp only [Prog.bind_eq, Prog.pure_eq, Prog.run_bind, Prog.run_ret, Engine.readsAt_run,
        Engine.gotAfter_last]
  | cons o os ih =>
    unfold preadSteps preadFull
    split_ifs with hlt
    · cases o with
      | eintr =>
        simp only [Prog.bind_eq, Prog.pure_eq, Prog.run_bind, Prog.run_ret, Engine.readsAt_run, ih,
          Engine.gotAfter_push, PreadEnd.push]
        rfl
      | error =>
        simp only [Prog.bind_eq, Prog.pure_eq, Prog.run_bind, Prog.run_ret, Engine.readsAt_run,
          Engine.gotAfter_last]
      | read n =>
        dsimp only
        generalize f.served n (count - total) (off + total) = m
        split_ifs with hm
        · simp only [Prog.bind_eq, Prog.pure_eq, Prog.run_bind, Prog.run_ret, Engine.readsAt_run,
            Engine.gotAfter_last]
        · simp only [Prog.bind_eq, Prog.pure_eq, Prog.run_bind, Prog.run_ret, Prog.run_change,
            Engine.readsAt_run, ih, Engine.gotAfter_push, PreadEnd.push]
          rfl
    · simp only [Prog.bind_eq, Prog.pure_eq, Prog.run_bind, Prog.run_ret, Engine.readsAt_run,
        Engine.gotAfter_last]

/-- The source of a write beside `pread_full` is what `readSource` takes from its moments. -/
theorem Engine.source_gotAfter (e : Engine) (r : PreadRun) (got : ℕ → UInt8) :
    e.source (e.gotAfter r 0 got) = readSource r e.fetch e.buf e.local_off e.piece := by
  refine List.map_congr_left fun i hi => ?_
  simp [Engine.gotAfter, List.mem_range.mp hi]

/-- The source of the last write: nothing changes the buffers beside it. -/
theorem Engine.source_seen (e : Engine) (st : Staging) (got : ℕ → UInt8) :
    e.source (e.seen (fun _ => true) st got) =
      readSource ⟨none, [], st, []⟩ e.fetch e.buf e.local_off e.piece := by
  refine List.map_congr_left fun i hi => ?_
  simp [Engine.seen, List.mem_range.mp hi]

/-- A pass of the loop without interruption is `loopBody`. -/
theorem loopSteps_run (cfg : Config) (f : File) (env : Env) (k : ℕ) (v : LoopVars) (st : Staging) :
    loopBody cfg f env k (v.withStaging st) =
      (((loopSteps cfg f env k v).run st).1.1.map id
        (·.withStaging ((loopSteps cfg f env k v).run st).2),
        ((loopSteps cfg f env k v).run st).1.2) := by
  unfold loopBody loopSteps
  by_cases hnext : 0 < sub64 v.remaining v.cur_c.piece
  · -- The write runs beside the `pread`s of the next chunk.
    simp only [LoopVars.withStaging, hnext, if_true]
    cases env.spawns k with
    | false => rfl
    | true =>
      obtain ⟨c, hc⟩ : ∃ c, planChunk (add64 v.file_off v.cur_c.piece)
        (sub64 v.remaining v.cur_c.piece) cfg.chunk_size cfg.direct_io = c := ⟨_, rfl⟩
      obtain ⟨pr, hpr⟩ : ∃ pr, preadFull f (!v.cur) c.read_len c.read_off (env.preads (k + 1)) 0 st
        = pr := ⟨_, rfl⟩
      simp only [Bool.not_true, Bool.false_eq_true, if_false, Prog.bind_eq, Prog.run_bind,
        preadSteps_run, Engine.source_gotAfter, hc, hpr]
      cases env.rdma k v.cur_c.piece with
      | throws => rfl
      | returned rdma_n landed =>
        by_cases hneg : rdma_n < 0
        · simp only [hneg, if_true]
          rfl
        · simp only [hneg, if_false]
          cases enough pr.result c <;> rfl
  · simp only [LoopVars.withStaging, hnext, if_false, Prog.bind_eq, Prog.run_bind,
      Engine.readsAt_run, Engine.source_seen]
    cases env.rdma k v.cur_c.piece with
    | throws => rfl
    | returned rdma_n landed =>
      dsimp only
      split_ifs <;> rfl

/-- The loop without interruption is `pingPong`. -/
theorem pingPongSteps_run (cfg : Config) (f : File) (env : Env) (is_range : Bool) (fuel k : ℕ)
    (v : LoopVars) (st : Staging) :
    ((pingPongSteps cfg f env is_range fuel k v).run st).1 =
      pingPong cfg f env is_range fuel k (v.withStaging st) := by
  induction fuel generalizing k v st with
  | zero => rfl
  | succ fuel ih =>
    unfold pingPongSteps pingPong
    by_cases hdone : v.remaining = 0
    · rw [if_pos hdone, if_pos (show (v.withStaging st).remaining = 0 from hdone)]
      rfl
    · rw [if_neg hdone, if_neg (show ¬ (v.withStaging st).remaining = 0 from hdone)]
      rw [loopSteps_run, Prog.bind_eq, Prog.run_bind]
      obtain ⟨⟨o | v', evs⟩, st'⟩ := (loopSteps cfg f env k v).run st
      · rfl
      · simp only [Prog.bind_eq, Prog.pure_eq, Prog.run_bind, Prog.run_ret, ih]
        rfl

/-- A request without interruption is `transfer`. -/
theorem transferSteps_run (cfg : Config) (f : File) (env : Env) (slot : Staging)
    (offset length : ℕ) (is_range : Bool) (remote_base : ℕ) :
    ((transferSteps cfg f env offset length is_range remote_base).run slot).1 =
      transfer cfg f env slot offset length is_range remote_base := by
  unfold transferSteps transfer
  by_cases hchunk : cfg.chunk_size = 0
  · rw [if_pos hchunk, if_pos hchunk]
    rfl
  · rw [if_neg hchunk, if_neg hchunk]
    simp only [Prog.bind_eq, Prog.run_bind, preadSteps_run]
    generalize planChunk offset length cfg.chunk_size cfg.direct_io = c
    generalize preadFull f false c.read_len c.read_off (env.preads 0) 0 slot = pr
    cases enough pr.result c with
    | false => rfl
    | true =>
      simp only [Bool.not_true, Bool.false_eq_true, if_false, Prog.pure_eq, Prog.run_bind,
        Prog.run_ret, pingPongSteps_run]
      rfl

/-! ## The number of accesses -/

/-- One access for each byte that is read. -/
theorem Engine.reads_cost (e : Engine) (is : List ℕ) (got : ℕ → UInt8) (st : Staging) :
    (e.reads is got).cost st = is.length := by
  induction is generalizing got with
  | nil => rfl
  | cons i is ih =>
    simp only [Engine.reads, Prog.bind_eq, Prog.cost_bind, Prog.cost_look, Prog.run_look, ih,
      List.length_cons]
    exact Nat.add_comm ..

/-- How many accesses `pread_full` and the engine make does not depend on what the buffers hold. -/
theorem preadSteps_cost (f : File) (buf : Bool) (count off : ℕ) (e : Engine)
    (outs : List PreadOutcome) (total t : ℕ) :
    ∃ c, ∀ got st, (preadSteps f buf count off e outs total t got).cost st = c := by
  induction outs generalizing total t with
  | nil =>
    unfold preadSteps
    split_ifs
    · simp only [Prog.bind_eq, Prog.pure_eq, Prog.cost_bind, Prog.cost_ret, Prog.cost_change,
        Engine.readsAt, Engine.reads_cost]
      exact ⟨_, fun _ _ => rfl⟩
    · simp only [Prog.bind_eq, Prog.pure_eq, Prog.cost_bind, Prog.cost_ret, Engine.readsAt,
        Engine.reads_cost]
      exact ⟨_, fun _ _ => rfl⟩
  | cons o os ih =>
    unfold preadSteps
    split_ifs
    · cases o with
      | eintr =>
        obtain ⟨c, hc⟩ := ih total (t + 1)
        simp only [Prog.bind_eq, Prog.pure_eq, Prog.cost_bind, Prog.cost_ret, Engine.readsAt,
          Engine.reads_cost, hc]
        exact ⟨_, fun _ _ => rfl⟩
      | error =>
        simp only [Prog.bind_eq, Prog.pure_eq, Prog.cost_bind, Prog.cost_ret, Engine.readsAt,
          Engine.reads_cost]
        exact ⟨_, fun _ _ => rfl⟩
      | read n =>
        dsimp only
        obtain ⟨c, hc⟩ := ih (total + f.served n (count - total) (off + total)) (t + 1)
        split_ifs
        · simp only [Prog.bind_eq, Prog.pure_eq, Prog.cost_bind, Prog.cost_ret, Engine.readsAt,
            Engine.reads_cost]
          exact ⟨_, fun _ _ => rfl⟩
        · simp only [Prog.bind_eq, Prog.pure_eq, Prog.cost_bind, Prog.cost_ret, Prog.cost_change,
            Engine.readsAt, Engine.reads_cost, hc]
          exact ⟨_, fun _ _ => rfl⟩
    · simp only [Prog.bind_eq, Prog.pure_eq, Prog.cost_bind, Prog.cost_ret, Engine.readsAt,
        Engine.reads_cost]
      exact ⟨_, fun _ _ => rfl⟩

/-- How a pass of the loop ends, and how many accesses it makes, does not depend on the buffers. -/
theorem loopSteps_cost (cfg : Config) (f : File) (env : Env) (k : ℕ) (v : LoopVars) :
    ∃ c o, ∀ st, (loopSteps cfg f env k v).cost st = c ∧
      ((loopSteps cfg f env k v).run st).1.1 = o := by
  unfold loopSteps
  dsimp only
  split_ifs with hnext hspawn
  · exact ⟨_, _, fun _ => ⟨rfl, rfl⟩⟩
  · obtain ⟨n, hn⟩ : ∃ n, planChunk (add64 v.file_off v.cur_c.piece)
      (sub64 v.remaining v.cur_c.piece) cfg.chunk_size cfg.direct_io = n := ⟨_, rfl⟩
    obtain ⟨c, hc⟩ := preadSteps_cost f (!v.cur) n.read_len n.read_off (v.engine (env.fetch k))
      (env.preads (k + 1)) 0 0
    have hres := fun st => (preadFull_indep f (!v.cur) (!v.cur) n.read_len n.read_off
      (env.preads (k + 1)) 0 st fun _ _ => 0).1
    simp only [hn, Prog.bind_eq, Prog.cost_bind, Prog.run_bind, hc, preadSteps_run, hres]
    cases env.rdma k v.cur_c.piece with
    | throws => exact ⟨_, _, fun _ => ⟨rfl, rfl⟩⟩
    | returned rdma_n landed =>
      dsimp only
      split_ifs <;> exact ⟨_, _, fun _ => ⟨rfl, rfl⟩⟩
  · simp only [Prog.bind_eq, Prog.cost_bind, Prog.run_bind, Engine.readsAt_run]
    simp only [Engine.readsAt, Engine.reads_cost]
    cases env.rdma k v.cur_c.piece with
    | throws => exact ⟨_, _, fun _ => ⟨rfl, rfl⟩⟩
    | returned rdma_n landed =>
      dsimp only
      split_ifs <;> exact ⟨_, _, fun _ => ⟨rfl, rfl⟩⟩

/-- How many accesses the loop makes does not depend on the buffers. -/
theorem pingPongSteps_cost (cfg : Config) (f : File) (env : Env) (is_range : Bool) (fuel k : ℕ)
    (v : LoopVars) : ∃ c, ∀ st, (pingPongSteps cfg f env is_range fuel k v).cost st = c := by
  induction fuel generalizing k v with
  | zero => exact ⟨_, fun _ => rfl⟩
  | succ fuel ih =>
    unfold pingPongSteps
    by_cases hdone : v.remaining = 0
    · rw [if_pos hdone]
      exact ⟨_, fun _ => rfl⟩
    · rw [if_neg hdone]
      obtain ⟨c, o, hpass⟩ := loopSteps_cost cfg f env k v
      cases o with
      | inl o =>
        refine ⟨c, fun st => ?_⟩
        obtain ⟨hc, ho⟩ := hpass st
        rw [Prog.bind_eq, Prog.cost_bind, hc]
        generalize (loopSteps cfg f env k v).run st = r at ho ⊢
        rw [ho]
        rfl
      | inr v' =>
        obtain ⟨c', hc'⟩ := ih (k + 1) v'
        refine ⟨c + c', fun st => ?_⟩
        obtain ⟨hc, ho⟩ := hpass st
        rw [Prog.bind_eq, Prog.cost_bind, hc]
        generalize (loopSteps cfg f env k v).run st = r at ho ⊢
        rw [ho]
        dsimp only
        rw [Prog.bind_eq, Prog.cost_bind, hc']
        rfl

/-- How many accesses a transfer makes does not depend on the buffers. -/
theorem transferSteps_cost (cfg : Config) (f : File) (env : Env) (offset length : ℕ)
    (is_range : Bool) (remote_base : ℕ) :
    ∃ c, ∀ st, (transferSteps cfg f env offset length is_range remote_base).cost st = c := by
  unfold transferSteps
  split_ifs
  · exact ⟨_, fun _ => rfl⟩
  · dsimp only
    generalize planChunk offset length cfg.chunk_size cfg.direct_io = n
    obtain ⟨c, hc⟩ := preadSteps_cost f false n.read_len n.read_off .idle (env.preads 0) 0 0
    have hres := fun st => (preadFull_indep f false false n.read_len n.read_off
      (env.preads 0) 0 st fun _ _ => 0).1
    obtain ⟨c', hc'⟩ := pingPongSteps_cost cfg f env is_range (length + 1) 0
      { remaining := length, file_off := offset, remote_off := remote_base, total_written := 0,
        cur := false, cur_c := n }
    simp only [Prog.bind_eq, Prog.cost_bind, hc, preadSteps_run, hres]
    split_ifs
    · exact ⟨_, fun _ => rfl⟩
    · simp only [Prog.cost_bind, hc', Prog.pure_eq, Prog.cost_ret]
      exact ⟨_, fun _ => rfl⟩

end S3Rdma.Server
