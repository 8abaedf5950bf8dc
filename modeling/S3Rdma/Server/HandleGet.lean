import S3Rdma.Common.Base64
import S3Rdma.Common.Util
import S3Rdma.Server.Chunk
import S3Rdma.Server.Staging

/-!
# `handle_get`

The GET handler of `src/server/s3_server.cpp` with its ping-pong loop: the file is read into one
staging buffer while the other is written to the client's memory. The RDMA write of a chunk that is
not the last runs on a thread of its own, beside the `pread`s of the next chunk, and the engine may
read each byte of its source at any moment between the start of that thread and its join.

Everything the handler does not decide itself is an input (`Env`): the outcomes of the `pread`s,
whether a thread can be started, what `handleGetObject` returns for each call, and when each byte of
a source is read. The result is how the call ends and the list of what it did.
-/

namespace S3Rdma.Server

/-- The parts of `S3Server::Config` that `handle_get` reads. -/
structure Config where
  chunk_size : ℕ
  direct_io : Bool

/-- What `get_fd` returns: the file behind the descriptor and the size in the cache. The two agree
unless the file has changed since it was opened. -/
structure FdEntry where
  file : File
  size : ℕ
  size_lt : size < 2^63

/-- One call of `handleGetObject`: it returns `ret` after `landed` bytes of its piece reached the
client's memory, or it throws. -/
inductive RdmaOutcome where
  | returned (ret : ℤ) (landed : ℕ)
  | throws
deriving DecidableEq

/-- The choices of the system around the handler. -/
structure Env where
  /-- The outcomes of the `pread`s of the `k`-th call of `pread_full`. -/
  preads : ℕ → List PreadOutcome
  /-- Whether the thread for the `k`-th RDMA write can be started. -/
  spawns : ℕ → Bool
  /-- The outcome of the `k`-th RDMA write, on a piece of a given length. -/
  rdma : ℕ → ℕ → RdmaOutcome
  /-- After how many `pread`s of the next chunk the engine reads byte `i` of the `k`-th write. -/
  fetch : ℕ → ℕ → ℕ

/-- How a call of `handle_get` ends. -/
inductive Outcome where
  /-- The call returns a status, and sets `bytes_out` or leaves it. -/
  | returned (status : ℕ) (bytes_out : Option ℤ)
  /-- An exception leaves the call. -/
  | threw
  /-- An exception leaves the RDMA thread, which ends the process. -/
  | terminated
  /-- The model's loop was given too few passes; `pingPong_writes` shows that this never happens. -/
  | outOfFuel
deriving DecidableEq

/-- The variables of the ping-pong loop. -/
structure LoopState where
  remaining : ℕ
  file_off : ℕ
  remote_off : ℕ
  total_written : ℤ
  cur : Bool
  cur_c : ChunkIO
  staging : Staging

/-- The test of `nread` against the plan: the data of the chunk is there. -/
def enough (nread : Option ℕ) (c : ChunkIO) : Bool :=
  match nread with
  | none => false
  | some n => add64 c.local_off c.piece ≤ n

/-- What the engine reads from a buffer, each byte at its own moment of a run of `pread_full`. -/
def readSource (r : PreadRun) (fetch : ℕ → ℕ) (buf : Bool) (local_off piece : ℕ) : Bytes :=
  (List.range piece).map fun i => (r.snaps.getD (fetch i) r.final) buf (local_off + i)

/-- The arguments of the RDMA write of the current chunk. -/
def LoopState.call (s : LoopState) (source : Bytes) : RdmaCall :=
  { buf := s.cur, local_off := s.cur_c.local_off, piece := s.cur_c.piece,
    remote_off := s.remote_off, file_off := s.file_off, source }

/-- The variables after a pass of the loop. -/
def LoopState.advance (s : LoopState) (rdma_n : ℤ) (next_c : ChunkIO) (staging : Staging) :
    LoopState :=
  { remaining := sub64 s.remaining s.cur_c.piece, file_off := add64 s.file_off s.cur_c.piece,
    remote_off := add64 s.remote_off s.cur_c.piece, total_written := s.total_written + rdma_n,
    cur := !s.cur, cur_c := next_c, staging }

/-- The body of the ping-pong loop, in its `k`-th pass: how it ends, or the variables after it. -/
def loopBody (cfg : Config) (f : File) (env : Env) (k : ℕ) (s : LoopState) :
    (Outcome ⊕ LoopState) × List Ev :=
  let nxt := !s.cur
  let next_file_off := add64 s.file_off s.cur_c.piece
  let next_remaining := sub64 s.remaining s.cur_c.piece
  if 0 < next_remaining then
    let next_c := planChunk next_file_off next_remaining cfg.chunk_size cfg.direct_io
    if !env.spawns k then (.inl .threw, [])
    else
      let pr := preadFull f nxt next_c.read_len next_c.read_off (env.preads (k + 1)) 0 s.staging
      let c := s.call (readSource pr (env.fetch k) s.cur s.cur_c.local_off s.cur_c.piece)
      let evs := .rdmaBegin c :: pr.events ++ [.loaded nxt next_c.read_off pr.result]
      match env.rdma k s.cur_c.piece with
      | .throws => (.inl .terminated, evs)
      | .returned rdma_n landed =>
        let evs := evs ++ [.rdmaEnd c rdma_n landed]
        if rdma_n < 0 then (.inl (.returned 500 none), evs ++ [.release])
        else if !enough pr.result next_c then (.inl (.returned 500 none), evs ++ [.release])
        else (.inr (s.advance rdma_n next_c pr.final), evs)
  else
    let c := s.call (readSource ⟨none, [], s.staging, []⟩ (env.fetch k) s.cur s.cur_c.local_off
      s.cur_c.piece)
    match env.rdma k s.cur_c.piece with
    | .throws => (.inl .threw, [.rdmaBegin c])
    | .returned rdma_n landed =>
      let evs := [.rdmaBegin c, .rdmaEnd c rdma_n landed]
      if rdma_n < 0 then (.inl (.returned 500 none), evs ++ [.release])
      else (.inr (s.advance rdma_n ⟨0, 0, 0, 0⟩ s.staging), evs)

/-- What a pass of the loop did, followed by the rest of the loop unless the pass was the end. -/
def andThen (r : (Outcome ⊕ LoopState) × List Ev) (rest : LoopState → Outcome × List Ev) :
    Outcome × List Ev :=
  match r.1 with
  | .inl o => (o, r.2)
  | .inr s => ((rest s).1, r.2 ++ (rest s).2)

/-- A pass that was the end is not followed by another. -/
@[simp] theorem andThen_inl (o : Outcome) (evs : List Ev) (rest : LoopState → Outcome × List Ev) :
    andThen (.inl o, evs) rest = (o, evs) := rfl

/-- A pass after which the loop goes on is followed by the rest. -/
@[simp] theorem andThen_inr (s : LoopState) (evs : List Ev)
    (rest : LoopState → Outcome × List Ev) :
    andThen (.inr s, evs) rest = ((rest s).1, evs ++ (rest s).2) := rfl

/-- The ping-pong loop from its `k`-th pass on, and the exit after it. -/
def pingPong (cfg : Config) (f : File) (env : Env) (is_range : Bool) :
    ℕ → ℕ → LoopState → Outcome × List Ev
  | 0, _, _ => (.outOfFuel, [])
  | fuel + 1, k, s =>
    if s.remaining = 0 then
      (.returned (if is_range then 206 else 200) (some s.total_written), [.release])
    else andThen (loopBody cfg f env k s) (pingPong cfg f env is_range fuel (k + 1))

/-- `handle_get` from the prefill of the first buffer on. Each pass of the loop delivers at least
one byte, so `length + 1` passes are enough. -/
def transfer (cfg : Config) (f : File) (env : Env) (slot : Staging) (offset length : ℕ)
    (is_range : Bool) (remote_base : ℕ) : Outcome × List Ev :=
  if cfg.chunk_size = 0 then (.returned 500 none, [.release])
  else
    let cur_c := planChunk offset length cfg.chunk_size cfg.direct_io
    let pr := preadFull f false cur_c.read_len cur_c.read_off (env.preads 0) 0 slot
    let evs := pr.events ++ [.loaded false cur_c.read_off pr.result]
    if !enough pr.result cur_c then (.returned 500 none, evs ++ [.release])
    else
      let r := pingPong cfg f env is_range (length + 1) 0
        { remaining := length, file_off := offset, remote_off := remote_base, total_written := 0,
          cur := false, cur_c, staging := pr.final }
      (r.1, evs ++ r.2)

/-- The window of a request: its offset, its length and whether it came from a `Range` header. A
header that `parse_range` refuses has none. -/
def requestWindow (range_hdr : Bytes) (file_size : ℕ) : Option (ℕ × ℕ × Bool) :=
  if range_hdr = [] then some (0, file_size, false)
  else
    let r := parseRange range_hdr file_size
    if !r.present || !r.valid then none
    else some (r.start, add64 (sub64 r.end_ r.start) 1, true)

/-- The descriptor in a token header: a DC_V1 descriptor contains a colon, its Base64 form does
not. -/
def rdmaDescr (rdma_token_b64 : Bytes) : Bytes :=
  if chr ':' ∈ rdma_token_b64 then rdma_token_b64 else base64Decode rdma_token_b64

/-- `handle_get`, given what `get_fd` returned and the contents of the slot's buffers. -/
def handleGet (cfg : Config) (fd : Option FdEntry) (range_hdr rdma_token_b64 : Bytes)
    (slot : Staging) (env : Env) : Outcome × List Ev :=
  match fd with
  | none => (.returned 404 none, [])
  | some e =>
    match requestWindow range_hdr e.size with
    | none => (.returned 416 none, [])
    | some (offset, length, is_range) =>
      let remote_base := parseRdmaRemoteAddr (rdmaDescr rdma_token_b64)
      if remote_base = 0 then (.returned 500 none, [])
      else
        let r := transfer cfg e.file env slot offset length is_range remote_base
        (r.1, .acquire :: r.2)

end S3Rdma.Server
