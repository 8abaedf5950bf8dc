import S3Rdma.Lib.Tiling
import S3Rdma.Server.HandleGet

/-!
# The transfer, without its buffers

What the ping-pong loop is for: the window is cut into pieces of the chunk size, and the pieces are
written to consecutive remote addresses until one of them fails. `deliver` says just that. It has no
staging buffers and no overlap, and its data are slices of the file.

`transfer_writes` shows that the handler does nothing else: it ends as `deliver` does, after the
same RDMA writes. The proof carries `LoopInv`, which ties the loop's variables to the number of the
chunk and says that the current buffer holds that chunk. It survives a pass because `pread_full`
touches only the other buffer, at every moment at which the engine may read (`readSource_eq`), and
because the test of `nread` covers the whole piece (`holds_of_enough`).
-/

namespace S3Rdma.Server

/-- An RDMA write that ended: where it went, its data, its return value and how much landed. -/
structure Write where
  remote_off : ℕ
  data : Bytes
  ret : ℤ
  landed : ℕ
deriving DecidableEq

/-- The write that an event ends. -/
def Ev.write? : Ev → Option Write
  | .rdmaEnd c ret landed => some ⟨c.remote_off, c.source, ret, landed⟩
  | _ => none

/-- The RDMA writes of a run, in order. -/
def writesOf (evs : List Ev) : List Write := evs.filterMap Ev.write?

/-- A transfer: the configuration, the file, the environment, and the request's window. -/
structure Job where
  cfg : Config
  file : File
  env : Env
  offset : ℕ
  length : ℕ
  is_range : Bool
  remote_base : ℕ
  chunk_pos : 0 < cfg.chunk_size
  window_lt : offset + length < 2^63
  base_lt : remote_base < 2^64

namespace Job

variable (j : Job)

/-- The length of the `k`-th piece. -/
def piece (k : ℕ) : ℕ := pieceAt j.cfg.chunk_size j.length k

/-- The number of pieces. -/
def count : ℕ := pieceCount j.cfg.chunk_size j.length

/-- The plan for the `k`-th piece. -/
def plan (k : ℕ) : ChunkIO :=
  planChunk (j.offset + k * j.cfg.chunk_size) (j.length - k * j.cfg.chunk_size) j.cfg.chunk_size
    j.cfg.direct_io

/-- Does the `k`-th call of `pread_full` return the `k`-th piece? -/
def readOk (k : ℕ) : Bool :=
  enough (preadFull j.file false (j.plan k).read_len (j.plan k).read_off (j.env.preads k) 0
    fun _ _ => 0).result (j.plan k)

/-- The write of the `k`-th piece. -/
def write (k : ℕ) (ret : ℤ) (landed : ℕ) : Write :=
  ⟨(j.remote_base + k * j.cfg.chunk_size) % 2^64,
    j.file.slice (j.offset + k * j.cfg.chunk_size) (j.piece k), ret, landed⟩

/-- The status of a transfer that succeeds. -/
def status : ℕ := if j.is_range then 206 else 200

/-- The last `n` pieces, from the `k`-th on, after `total` bytes were reported written. Every piece
but the last needs a thread for its write, and is followed by the test of the next one's read. -/
def deliver : ℕ → ℕ → ℤ → Outcome × List Write
  | 0, _, total => (.returned j.status (some total), [])
  | n + 1, k, total =>
    if n ≠ 0 ∧ j.env.spawns k = false then (.threw, [])
    else
      match j.env.rdma k (j.piece k) with
      | .throws => (if n = 0 then .threw else .terminated, [])
      | .returned ret landed =>
        if ret < 0 then (.returned 500 none, [j.write k ret landed])
        else if n ≠ 0 ∧ j.readOk (k + 1) = false then (.returned 500 none, [j.write k ret landed])
        else
          let r := deliver n (k + 1) (total + ret)
          (r.1, j.write k ret landed :: r.2)

/-- The whole transfer: the first piece has to be read, and then all pieces are delivered. -/
def run : Outcome × List Write :=
  if j.readOk 0 = false then (.returned 500 none, []) else j.deliver j.count 0 0

end Job

/-- The writes of two runs after each other. -/
theorem writesOf_append (xs ys : List Ev) : writesOf (xs ++ ys) = writesOf xs ++ writesOf ys :=
  List.filterMap_append

/-- The start of a write is not yet a write. -/
@[simp] theorem writesOf_rdmaBegin (c : RdmaCall) : writesOf [.rdmaBegin c] = [] := rfl

/-- The release of the slot writes nothing. -/
@[simp] theorem writesOf_release : writesOf [.release] = [] := rfl

/-- `pread_full` writes nothing. -/
theorem PreadSpec.writesOf_events {f : File} {buf : Bool} {count off : ℕ} {st : Staging}
    {r : PreadRun} (h : PreadSpec f buf count off st r) : writesOf r.events = [] := by
  unfold writesOf
  rw [List.filterMap_eq_nil_iff]
  intro ev hev
  obtain ⟨dst, got, -, rfl⟩ := h.inside ev hev
  rfl

/-- A read that passes the test holds the data of its chunk at the chunk's place in the buffer. -/
theorem holds_of_enough {f : File} {buf : Bool} {st : Staging} {r : PreadRun} {c : ChunkIO}
    (h : PreadSpec f buf c.read_len c.read_off st r) (hok : enough r.result c = true)
    (hlt : c.local_off + c.piece < 2^64) :
    ∀ i, i < c.piece →
      f.bytes[c.read_off + c.local_off + i]? = some (r.final buf (c.local_off + i)) := by
  intro i hi
  cases hr : r.result with
  | none => simp [enough, hr] at hok
  | some n =>
    simp only [enough, hr, add64_eq hlt, decide_eq_true_eq] at hok
    have hh := h.holds n hr (c.local_off + i) (by omega)
    rwa [← Nat.add_assoc] at hh

/-- Whatever the moments at which the engine reads them, the bytes of the buffer that the `pread`s
leave alone are the ones that were there. -/
theorem readSource_eq {f : File} {buf : Bool} {count off : ℕ} {st : Staging} {r : PreadRun}
    (h : PreadSpec f buf count off st r) (fetch : ℕ → ℕ) (local_off piece : ℕ) :
    readSource r fetch (!buf) local_off piece =
      (List.range piece).map fun i => st (!buf) (local_off + i) := by
  unfold readSource
  apply List.map_congr_left
  intro i _
  rw [List.getD_eq_getElem?_getD]
  cases hs : r.snaps[fetch i]? with
  | none => rw [Option.getD_none, h.final_other]
  | some s => rw [Option.getD_some, h.snaps_other s (List.mem_of_getElem? hs)]

/-- A buffer that holds a piece of the file, read out, is that slice of the file. -/
theorem map_range_eq_slice {f : File} {st : ℕ → UInt8} {off local_off piece : ℕ}
    (h : ∀ i, i < piece → f.bytes[off + i]? = some (st (local_off + i))) :
    (List.range piece).map (fun i => st (local_off + i)) = f.slice off piece := by
  apply List.ext_getElem?
  intro i
  by_cases hi : i < piece
  · rw [File.slice_getElem? hi, h i hi]
    simp [hi]
  · have hlen : (f.slice off piece).length ≤ piece := by
      unfold File.slice
      exact List.length_take_le _ _
    rw [List.getElem?_eq_none (by simpa using hi), List.getElem?_eq_none (by omega)]

/-! ## The loop's invariant -/

/-- The loop's variables before the `k`-th pass: what is left, where the loop is in the file and in
the client's memory, and, when there is a `k`-th piece, its plan and its data in the current
buffer. -/
structure LoopInv (j : Job) (k : ℕ) (s : LoopState) : Prop where
  remaining : s.remaining = j.length - k * j.cfg.chunk_size
  file_off : s.file_off = j.offset + min (k * j.cfg.chunk_size) j.length
  remote_off : s.remote_off = (j.remote_base + min (k * j.cfg.chunk_size) j.length) % 2^64
  cur_c : k * j.cfg.chunk_size < j.length → s.cur_c = j.plan k
  holds : k * j.cfg.chunk_size < j.length → ∀ i, i < j.piece k →
    j.file.bytes[j.offset + k * j.cfg.chunk_size + i]? =
      some (s.staging s.cur ((j.plan k).local_off + i))

namespace Job

variable {j : Job} {k : ℕ}

/-- The plan of the `k`-th pass is for the `k`-th piece. -/
theorem plan_piece : (j.plan k).piece = j.piece k := planChunk_piece _ _ _ _

/-- The data of a plan starts in the file where its piece does. -/
theorem plan_read_off_add (hk : k * j.cfg.chunk_size < j.length) :
    (j.plan k).read_off + (j.plan k).local_off = j.offset + k * j.cfg.chunk_size := by
  have hw := j.window_lt
  exact planChunk_read_off_add _ (by omega)

/-- A piece ends inside the window. -/
theorem piece_le (hk : k * j.cfg.chunk_size < j.length) :
    0 < j.piece k ∧ j.piece k ≤ j.cfg.chunk_size ∧ k * j.cfg.chunk_size + j.piece k ≤ j.length := by
  have hc := j.chunk_pos
  unfold piece pieceAt
  omega

/-- The end of a plan's data in the buffer is a word. -/
theorem plan_end_lt (hk : k * j.cfg.chunk_size < j.length) :
    (j.plan k).local_off + (j.plan k).piece < 2^64 := by
  have hr := plan_read_off_add hk
  have hp := piece_le hk
  have hw := j.window_lt
  rw [plan_piece]
  omega

/-- The end of the `k`-th piece, or of the window. -/
theorem min_succ (hk : k * j.cfg.chunk_size < j.length) :
    min ((k + 1) * j.cfg.chunk_size) j.length = k * j.cfg.chunk_size + j.piece k := by
  unfold piece pieceAt
  rw [Nat.succ_mul]
  omega

/-- What is left of the window after the `k`-th piece starts with the next one. -/
theorem sub_piece (hk : k * j.cfg.chunk_size < j.length) :
    j.length - k * j.cfg.chunk_size - j.piece k = j.length - (k + 1) * j.cfg.chunk_size := by
  unfold piece pieceAt
  rw [Nat.succ_mul]
  omega

/-- A call of `pread_full` for the `k`-th plan passes the test exactly when `readOk` says so,
whatever the buffer and its contents. -/
theorem enough_eq_readOk (buf : Bool) (st : Staging) :
    enough (preadFull j.file buf (j.plan k).read_len (j.plan k).read_off (j.env.preads k) 0
      st).result (j.plan k) = j.readOk k := by
  unfold readOk
  rw [(preadFull_indep j.file buf false _ _ _ 0 st fun _ _ => 0).1]

end Job

namespace LoopInv

variable {j : Job} {k : ℕ} {s : LoopState}

/-- The loop's variables hold the `k`-th piece in the `k`-th pass. -/
theorem piece_eq (h : LoopInv j k s) (hk : k * j.cfg.chunk_size < j.length) :
    s.cur_c.piece = j.piece k := by rw [h.cur_c hk, Job.plan_piece]

/-- The file offset in the loop's variables. -/
theorem file_off_eq (h : LoopInv j k s) (hk : k * j.cfg.chunk_size < j.length) :
    s.file_off = j.offset + k * j.cfg.chunk_size := by rw [h.file_off, min_eq_left (by omega)]

/-- The remote offset in the loop's variables. -/
theorem remote_off_eq (h : LoopInv j k s) (hk : k * j.cfg.chunk_size < j.length) :
    s.remote_off = (j.remote_base + k * j.cfg.chunk_size) % 2^64 := by
  rw [h.remote_off, min_eq_left (by omega)]

/-- `next_remaining` is what is left after the `k`-th piece. -/
theorem next_remaining (h : LoopInv j k s) (hk : k * j.cfg.chunk_size < j.length) :
    sub64 s.remaining s.cur_c.piece = j.length - (k + 1) * j.cfg.chunk_size := by
  have hp := Job.piece_le hk
  have hw := j.window_lt
  rw [h.piece_eq hk, h.remaining, sub64_eq (by omega) (by omega), Job.sub_piece hk]

/-- `next_file_off` is the end of the `k`-th piece. -/
theorem next_file_off (h : LoopInv j k s) (hk : k * j.cfg.chunk_size < j.length) :
    add64 s.file_off s.cur_c.piece =
      j.offset + min ((k + 1) * j.cfg.chunk_size) j.length := by
  have hp := Job.piece_le hk
  have hw := j.window_lt
  rw [h.piece_eq hk, h.file_off_eq hk, add64_eq (by omega), Job.min_succ hk]
  omega

/-- The next remote offset is the end of the `k`-th write. -/
theorem next_remote_off (h : LoopInv j k s) (hk : k * j.cfg.chunk_size < j.length) :
    add64 s.remote_off s.cur_c.piece =
      (j.remote_base + min ((k + 1) * j.cfg.chunk_size) j.length) % 2^64 := by
  rw [h.piece_eq hk, h.remote_off_eq hk, add64_add64, Job.min_succ hk]

/-- The plan of the next chunk is made from the loop's variables. -/
theorem next_plan (h : LoopInv j k s) (hk : (k + 1) * j.cfg.chunk_size < j.length) :
    planChunk (add64 s.file_off s.cur_c.piece) (sub64 s.remaining s.cur_c.piece) j.cfg.chunk_size
      j.cfg.direct_io = j.plan (k + 1) := by
  have hk' : k * j.cfg.chunk_size < j.length := by rw [Nat.succ_mul] at hk; omega
  rw [h.next_file_off hk', h.next_remaining hk', min_eq_left (by omega)]
  rfl

/-- The RDMA write of the `k`-th pass. -/
def call (j : Job) (k : ℕ) (s : LoopState) : RdmaCall :=
  s.call (j.file.slice (j.offset + k * j.cfg.chunk_size) (j.piece k))

/-- The `pread_full` of the chunk after the `k`-th, beside the `k`-th write. -/
def prefetch (j : Job) (k : ℕ) (s : LoopState) : PreadRun :=
  preadFull j.file (!s.cur) (j.plan (k + 1)).read_len (j.plan (k + 1)).read_off
    (j.env.preads (k + 1)) 0 s.staging

/-- A prefetch does what `pread_full` does. -/
theorem prefetch_spec (j : Job) (k : ℕ) (s : LoopState) :
    PreadSpec j.file (!s.cur) (j.plan (k + 1)).read_len (j.plan (k + 1)).read_off s.staging
      (prefetch j k s) :=
  preadFull_spec _ _ _ _ _ _ _ (Nat.zero_le _) fun i hi => absurd hi (Nat.not_lt_zero i)

/-- The current buffer, read out, is the `k`-th piece of the file. -/
theorem source_eq (h : LoopInv j k s) (hk : k * j.cfg.chunk_size < j.length) :
    (List.range s.cur_c.piece).map (fun i => s.staging s.cur (s.cur_c.local_off + i)) =
      j.file.slice (j.offset + k * j.cfg.chunk_size) (j.piece k) := by
  rw [h.piece_eq hk, h.cur_c hk]
  exact map_range_eq_slice (h.holds hk)

/-- A pass that is not the last: the write of the current chunk, beside the read of the next. -/
theorem loopBody_mid (h : LoopInv j k s) (hk : (k + 1) * j.cfg.chunk_size < j.length) :
    loopBody j.cfg j.file j.env k s =
      let evs := .rdmaBegin (call j k s) :: (prefetch j k s).events ++
        [.loaded (!s.cur) (j.plan (k + 1)).read_off (prefetch j k s).result]
      if j.env.spawns k = false then (.inl .threw, [])
      else
        match j.env.rdma k (j.piece k) with
        | .throws => (.inl .terminated, evs)
        | .returned ret landed =>
          if ret < 0 ∨ j.readOk (k + 1) = false then
            (.inl (.returned 500 none), evs ++ [.rdmaEnd (call j k s) ret landed] ++ [.release])
          else
            (.inr (s.advance ret (j.plan (k + 1)) (prefetch j k s).final),
              evs ++ [.rdmaEnd (call j k s) ret landed]) := by
  have hk' : k * j.cfg.chunk_size < j.length := by rw [Nat.succ_mul] at hk; omega
  -- Bytes remain after this piece, so the pass spawns the write and reads ahead.
  have hnext : 0 < sub64 s.remaining s.cur_c.piece := by rw [h.next_remaining hk']; omega
  -- The write reads one buffer while `pread_full` fills the other one, so it sends the piece.
  have hsrc : readSource (prefetch j k s) (j.env.fetch k) s.cur s.cur_c.local_off s.cur_c.piece =
      j.file.slice (j.offset + k * j.cfg.chunk_size) (j.piece k) := by
    have hr := readSource_eq (prefetch_spec j k s) (j.env.fetch k) s.cur_c.local_off s.cur_c.piece
    rw [Bool.not_not] at hr
    rw [hr, h.source_eq hk']
  have hok : enough (prefetch j k s).result (j.plan (k + 1)) = j.readOk (k + 1) :=
    Job.enough_eq_readOk _ _
  have hpr : preadFull j.file (!s.cur) (j.plan (k + 1)).read_len (j.plan (k + 1)).read_off
      (j.env.preads (k + 1)) 0 s.staging = prefetch j k s := rfl
  unfold loopBody
  dsimp only
  rw [if_pos hnext, h.next_plan hk, hpr, hsrc, hok, h.piece_eq hk']
  cases j.env.spawns k
  · rfl
  · cases j.env.rdma k (j.piece k) with
    | throws => rfl
    | returned ret landed =>
      cases j.readOk (k + 1) <;> by_cases hneg : ret < 0 <;> simp [hneg, call]

/-- The last pass: the write of the current chunk, on the request's own thread. -/
theorem loopBody_last (h : LoopInv j k s) (hk : k * j.cfg.chunk_size < j.length)
    (hlast : j.length ≤ (k + 1) * j.cfg.chunk_size) :
    loopBody j.cfg j.file j.env k s =
      match j.env.rdma k (j.piece k) with
      | .throws => (.inl .threw, [.rdmaBegin (call j k s)])
      | .returned ret landed =>
        if ret < 0 then
          (.inl (.returned 500 none),
            [.rdmaBegin (call j k s), .rdmaEnd (call j k s) ret landed] ++ [.release])
        else
          (.inr (s.advance ret ⟨0, 0, 0, 0⟩ s.staging),
            [.rdmaBegin (call j k s), .rdmaEnd (call j k s) ret landed]) := by
  have hnext : ¬ 0 < sub64 s.remaining s.cur_c.piece := by rw [h.next_remaining hk]; omega
  have hsrc : readSource ⟨none, [], s.staging, []⟩ (j.env.fetch k) s.cur s.cur_c.local_off
      s.cur_c.piece = j.file.slice (j.offset + k * j.cfg.chunk_size) (j.piece k) :=
    h.source_eq hk
  unfold loopBody
  dsimp only
  rw [if_neg hnext, hsrc, h.piece_eq hk]
  rfl

/-- A pass that goes on keeps the invariant. -/
theorem next (h : LoopInv j k s) (hk : k * j.cfg.chunk_size < j.length) (ret : ℤ) (c : ChunkIO)
    (st : Staging) (hc : (k + 1) * j.cfg.chunk_size < j.length → c = j.plan (k + 1))
    (hst : (k + 1) * j.cfg.chunk_size < j.length → ∀ i, i < j.piece (k + 1) →
      j.file.bytes[j.offset + (k + 1) * j.cfg.chunk_size + i]? =
        some (st (!s.cur) ((j.plan (k + 1)).local_off + i))) :
    LoopInv j (k + 1) (s.advance ret c st) where
  remaining := h.next_remaining hk
  file_off := h.next_file_off hk
  remote_off := h.next_remote_off hk
  cur_c := hc
  holds := hst

/-- A read that passes the test leaves its piece in the other buffer. -/
theorem prefetch_holds (hk : (k + 1) * j.cfg.chunk_size < j.length)
    (hok : j.readOk (k + 1) = true) : ∀ i, i < j.piece (k + 1) →
      j.file.bytes[j.offset + (k + 1) * j.cfg.chunk_size + i]? =
        some ((prefetch j k s).final (!s.cur) ((j.plan (k + 1)).local_off + i)) := by
  have hen : enough (prefetch j k s).result (j.plan (k + 1)) = true := by
    rw [← hok]
    exact Job.enough_eq_readOk _ _
  have hh := holds_of_enough (prefetch_spec j k s) hen (Job.plan_end_lt hk)
  rwa [Job.plan_read_off_add hk, Job.plan_piece] at hh

/-- The write that ends with the `k`-th pass. -/
theorem write_call (h : LoopInv j k s) (hk : k * j.cfg.chunk_size < j.length) (ret : ℤ)
    (landed : ℕ) : (Ev.rdmaEnd (call j k s) ret landed).write? = some (j.write k ret landed) := by
  have hr : (call j k s).remote_off = (j.remote_base + k * j.cfg.chunk_size) % 2^64 :=
    h.remote_off_eq hk
  simp only [Ev.write?, Job.write, hr]
  rfl

/-- A pass whose RDMA write ends adds that write. -/
theorem writesOf_end (h : LoopInv j k s) (hk : k * j.cfg.chunk_size < j.length) {evs : List Ev}
    (hevs : writesOf evs = []) (ret : ℤ) (landed : ℕ) :
    writesOf (evs ++ [.rdmaEnd (call j k s) ret landed]) = [j.write k ret landed] := by
  rw [writesOf_append, hevs]
  simp [writesOf, h.write_call hk]

/-- The next pass has less to do, whatever this one returned. -/
theorem advance_remaining_lt (h : LoopInv j k s) (hk : k * j.cfg.chunk_size < j.length) {fuel : ℕ}
    (hf : s.remaining < fuel + 1) (ret : ℤ) (c : ChunkIO) (st : Staging) :
    (s.advance ret c st).remaining < fuel := by
  have hrem := h.remaining
  have hpos := Job.piece_le hk
  have hn := h.next_remaining hk
  rw [← Job.sub_piece hk] at hn
  change sub64 s.remaining s.cur_c.piece < fuel
  omega

/-- Up to its end, a pass has written nothing. -/
theorem writesOf_overlap (j : Job) (k : ℕ) (s : LoopState) :
    writesOf (.rdmaBegin (call j k s) :: (prefetch j k s).events ++
      [.loaded (!s.cur) (j.plan (k + 1)).read_off (prefetch j k s).result]) = [] := by
  rw [writesOf_append]
  simp only [writesOf, List.filterMap_cons, Ev.write?, List.filterMap_nil, List.append_nil]
  exact (prefetch_spec j k s).writesOf_events

end LoopInv

/-- There is no `k`-th piece once `k` pieces cover the window. -/
theorem Job.count_sub_eq_zero {j : Job} {k : ℕ} (hk : ¬ k * j.cfg.chunk_size < j.length) :
    j.count - k = 0 := by
  have := (lt_pieceCount_iff j.chunk_pos).not.mpr hk
  unfold Job.count
  omega

/-- The `k`-th piece and the pieces after it. -/
theorem Job.count_sub_eq_succ {j : Job} {k : ℕ} (hk : k * j.cfg.chunk_size < j.length) :
    j.count - k = j.count - (k + 1) + 1 := by
  have := (lt_pieceCount_iff j.chunk_pos).mpr hk
  unfold Job.count
  omega

/-- There are pieces left exactly when the next one starts inside the window. -/
theorem Job.count_sub_ne_zero {j : Job} {k : ℕ} (hk : k * j.cfg.chunk_size < j.length) :
    j.count - k ≠ 0 := by
  rw [j.count_sub_eq_succ hk]
  omega

/-- The loop from its `k`-th pass on ends as `deliver` does from the `k`-th piece on, after the
same writes. -/
theorem pingPong_writes {j : Job} (fuel k : ℕ) (s : LoopState) (h : LoopInv j k s)
    (hf : s.remaining < fuel) :
    (pingPong j.cfg j.file j.env j.is_range fuel k s).1 =
        (j.deliver (j.count - k) k s.total_written).1 ∧
      writesOf (pingPong j.cfg j.file j.env j.is_range fuel k s).2 =
        (j.deliver (j.count - k) k s.total_written).2 := by
  -- By induction on the fuel, with the loop's invariant carried from pass to pass.
  induction fuel generalizing k s with
  | zero => omega
  | succ fuel ih =>
    have hrem := h.remaining
    unfold pingPong
    by_cases hk : k * j.cfg.chunk_size < j.length
    · rw [if_neg (by omega), Job.count_sub_eq_succ hk]
      unfold Job.deliver
      have hless := h.advance_remaining_lt hk hf
      -- Is this the last pass? If not, the next chunk is read during the write.
      by_cases hk1 : (k + 1) * j.cfg.chunk_size < j.length
      · have hn := Job.count_sub_ne_zero hk1
        have hov := LoopInv.writesOf_overlap j k s
        rw [h.loopBody_mid hk1]
        dsimp only
        generalize Ev.rdmaBegin (LoopInv.call j k s) :: (LoopInv.prefetch j k s).events ++
          [.loaded (!s.cur) (j.plan (k + 1)).read_off (LoopInv.prefetch j k s).result] = evs at hov ⊢
        cases hsp : j.env.spawns k with
        | false => simp [hn, writesOf]
        | true =>
          cases hrd : j.env.rdma k (j.piece k) with
          | throws => simp [hn, hov]
          | returned ret landed =>
            have hend := h.writesOf_end hk hov ret landed
            -- The write is joined before the read is looked at: its failure comes first.
            by_cases hneg : ret < 0
            · simp only [hneg, true_or, if_true, Bool.true_eq_false, and_false, if_false,
                andThen_inl, writesOf_append _ [.release], hend, writesOf_release, List.append_nil,
                and_self]
            · cases hok : j.readOk (k + 1) with
              | false =>
                simp only [hneg, or_true, if_true, Bool.true_eq_false, and_false, if_false, hn, ne_eq,
                  not_false_eq_true, andThen_inl, writesOf_append _ [.release], hend,
                  writesOf_release, List.append_nil, and_self]
              | true =>
                have hinv := h.next hk ret (j.plan (k + 1)) (LoopInv.prefetch j k s).final
                  (fun _ => rfl) fun hk1 => LoopInv.prefetch_holds hk1 hok
                obtain ⟨ih1, ih2⟩ := ih (k + 1) _ hinv (hless _ _ _)
                simp only [hneg, or_self, Bool.true_eq_false, and_false, if_false, andThen_inr]
                rw [writesOf_append, hend, ih1, ih2]
                exact ⟨rfl, rfl⟩
      · have hn := Job.count_sub_eq_zero hk1
        -- The last pass reads nothing ahead: only the write can fail.
        rw [h.loopBody_last hk (by omega)]
        cases hrd : j.env.rdma k (j.piece k) with
        | throws => simp [hn]
        | returned ret landed =>
          have hend := h.writesOf_end hk (writesOf_rdmaBegin (LoopInv.call j k s)) ret landed
          rw [List.singleton_append] at hend
          by_cases hneg : ret < 0
          · simp only [hneg, if_true, hn, ne_eq, not_true_eq_false, false_and, if_false,
              andThen_inl, writesOf_append _ [.release], hend, writesOf_release, List.append_nil,
              and_self]
          · have hinv := h.next hk ret ⟨0, 0, 0, 0⟩ s.staging (fun hk2 => absurd hk2 hk1)
              fun hk2 => absurd hk2 hk1
            obtain ⟨ih1, ih2⟩ := ih (k + 1) _ hinv (hless _ _ _)
            simp only [hneg, if_false, hn, ne_eq, not_true_eq_false, false_and, andThen_inr]
            rw [writesOf_append, hend, ih1, ih2, hn]
            exact ⟨rfl, rfl⟩
    · rw [if_pos (by omega), Job.count_sub_eq_zero hk]
      exact ⟨rfl, rfl⟩

namespace Job

variable (j : Job)

/-- The `pread_full` of the first piece. -/
def prefill (slot : Staging) : PreadRun :=
  preadFull j.file false (j.plan 0).read_len (j.plan 0).read_off (j.env.preads 0) 0 slot

/-- The prefill and its return. -/
def prefillEvents (slot : Staging) : List Ev :=
  (j.prefill slot).events ++ [.loaded false (j.plan 0).read_off (j.prefill slot).result]

/-- The loop's variables before its first pass. -/
def start (slot : Staging) : LoopState :=
  { remaining := j.length, file_off := j.offset, remote_off := j.remote_base, total_written := 0,
    cur := false, cur_c := j.plan 0, staging := (j.prefill slot).final }

/-- The prefill does what `pread_full` does. -/
theorem prefill_spec (slot : Staging) :
    PreadSpec j.file false (j.plan 0).read_len (j.plan 0).read_off slot (j.prefill slot) :=
  preadFull_spec _ _ _ _ _ _ _ (Nat.zero_le _) fun i hi => absurd hi (Nat.not_lt_zero i)

/-- A transfer is its prefill and then the loop, if the first read passes. -/
theorem transfer_eq (slot : Staging) :
    transfer j.cfg j.file j.env slot j.offset j.length j.is_range j.remote_base =
      if j.readOk 0 = false then (.returned 500 none, j.prefillEvents slot ++ [.release])
      else
        ((pingPong j.cfg j.file j.env j.is_range (j.length + 1) 0 (j.start slot)).1,
          j.prefillEvents slot ++
            (pingPong j.cfg j.file j.env j.is_range (j.length + 1) 0 (j.start slot)).2) := by
  have hplan : planChunk j.offset j.length j.cfg.chunk_size j.cfg.direct_io = j.plan 0 := by
    simp [plan]
  have hpr : preadFull j.file false (j.plan 0).read_len (j.plan 0).read_off (j.env.preads 0) 0
      slot = j.prefill slot := rfl
  have hen : enough (j.prefill slot).result (j.plan 0) = j.readOk 0 := enough_eq_readOk false slot
  unfold transfer
  rw [if_neg (Nat.ne_of_gt j.chunk_pos)]
  dsimp only
  rw [hplan, hpr, hen]
  cases j.readOk 0 <;> rfl

/-- The invariant holds before the first pass. -/
theorem loopInv_start (slot : Staging) (hok : j.readOk 0 = true) :
    LoopInv j 0 (j.start slot) where
  remaining := by simp [start]
  file_off := by simp [start]
  remote_off := by
    rw [Nat.zero_mul, Nat.zero_min, Nat.add_zero, Nat.mod_eq_of_lt j.base_lt]
    rfl
  cur_c := fun _ => rfl
  holds := by
    intro hk
    have hen : enough (j.prefill slot).result (j.plan 0) = true :=
      (enough_eq_readOk false slot).trans hok
    have hh := holds_of_enough (j.prefill_spec slot) hen (plan_end_lt hk)
    rwa [plan_read_off_add hk, plan_piece] at hh

end Job

/-- The handler, from the prefill on, ends as the transfer without buffers does, after the same
writes. -/
theorem transfer_writes (j : Job) (slot : Staging) :
    (transfer j.cfg j.file j.env slot j.offset j.length j.is_range j.remote_base).1 = j.run.1 ∧
      writesOf (transfer j.cfg j.file j.env slot j.offset j.length j.is_range j.remote_base).2 =
        j.run.2 := by
  have hload : writesOf (j.prefillEvents slot) = [] := by
    rw [Job.prefillEvents, writesOf_append, (j.prefill_spec slot).writesOf_events]
    rfl
  rw [j.transfer_eq]
  unfold Job.run
  by_cases hok : j.readOk 0 = false
  · rw [if_pos hok, if_pos hok, writesOf_append, hload]
    exact ⟨rfl, rfl⟩
  · rw [if_neg hok, if_neg hok, writesOf_append, hload]
    exact pingPong_writes (j.length + 1) 0 _ (j.loopInv_start slot (Bool.eq_true_of_not_eq_false hok))
      (Nat.lt_succ_self _)

/-! ## Requests -/

/-- The window of a request lies in the file as the cache has it. -/
theorem requestWindow_le {range_hdr : Bytes} {n offset length : ℕ} {is_range : Bool}
    (hn : n < 2^63) (h : requestWindow range_hdr n = some (offset, length, is_range)) :
    offset + length ≤ n := by
  unfold requestWindow at h
  dsimp only at h
  split_ifs at h with hnil hbad
  · simp only [Option.some.injEq, Prod.mk.injEq] at h
    omega
  · simp only [Bool.or_eq_true, Bool.not_eq_true', not_or, Bool.not_eq_false] at hbad
    obtain ⟨hle, hlt⟩ := parseRange_valid hbad.2
    simp only [Option.some.injEq, Prod.mk.injEq] at h
    obtain ⟨rfl, rfl, -⟩ := h
    rw [sub64_eq (by omega) hle, add64_eq (by omega)]
    omega

/-- The remote address that a token header denotes. -/
def remoteBase (rdma_token_b64 : Bytes) : ℕ := parseRdmaRemoteAddr (rdmaDescr rdma_token_b64)

/-- The transfer that a request with an accepted window asks for. -/
def Job.ofRequest (cfg : Config) (e : FdEntry) (rdma_token_b64 : Bytes) (env : Env)
    {range_hdr : Bytes} {offset length : ℕ} {is_range : Bool} (hc : 0 < cfg.chunk_size)
    (hw : requestWindow range_hdr e.size = some (offset, length, is_range)) : Job :=
  { cfg, file := e.file, env, offset, length, is_range, remote_base := remoteBase rdma_token_b64
    chunk_pos := hc
    window_lt := lt_of_le_of_lt (requestWindow_le e.size_lt hw) e.size_lt
    base_lt := parseRdmaRemoteAddr_lt _ }

/-- `handle_get` on a request with an accepted window and a remote address is that transfer. -/
theorem handleGet_writes (cfg : Config) (e : FdEntry) {range_hdr rdma_token_b64 : Bytes}
    (slot : Staging) (env : Env) {offset length : ℕ} {is_range : Bool} (hc : 0 < cfg.chunk_size)
    (hw : requestWindow range_hdr e.size = some (offset, length, is_range))
    (hb : remoteBase rdma_token_b64 ≠ 0) :
    (handleGet cfg (some e) range_hdr rdma_token_b64 slot env).1 =
        (Job.ofRequest cfg e rdma_token_b64 env hc hw).run.1 ∧
      writesOf (handleGet cfg (some e) range_hdr rdma_token_b64 slot env).2 =
        (Job.ofRequest cfg e rdma_token_b64 env hc hw).run.2 := by
  obtain ⟨h1, h2⟩ := transfer_writes (Job.ofRequest cfg e rdma_token_b64 env hc hw) slot
  unfold handleGet
  dsimp only
  rw [hw]
  dsimp only
  rw [show parseRdmaRemoteAddr (rdmaDescr rdma_token_b64) = remoteBase rdma_token_b64 from rfl,
    if_neg hb]
  exact ⟨h1, h2⟩

end S3Rdma.Server
