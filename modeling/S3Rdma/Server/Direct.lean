import S3Rdma.Server.Delivery

/-!
# `O_DIRECT`

With `direct_io` the planner starts a read at the block below the chunk, rounds its length up to
whole blocks, and cuts it to the chunk size, which is the size of the staging buffer. The cut does
not shorten the piece, so a chunk that does not start at a block may no longer fit behind its
padding. `pread_full` then returns fewer bytes than the plan needs and the request fails, although
the same request on a buffered descriptor succeeds.

The rounding also makes the last read of an object ask for more than the file has. `pread_full`
then repeats `pread` at the end of the file, and unless that is a multiple of the block the kernel
may refuse the call. The descriptor is therefore taken to serve reads at aligned offsets only
(`AlignedReads`), and what it does at the others is left open.

`handleGet_direct_iff` says when the two modes agree: when the first piece and the second, if there
is one, fit behind their padding, and no repeated `pread` at an unaligned end of the file fails. If
both pieces fit, and there are more, then the window and the chunk size are multiples of the block,
and everything fits (`fits_of_two`).
-/

namespace S3Rdma.Server

/-- `parse_size_kib` of `src/server/main.cpp`: a number of KiB that is not `0` and does not
overflow `size_t`, as a number of bytes. -/
def parseSizeKib (s : Bytes) : Option ℕ :=
  match stoull 10 s with
  | none => none
  | some (v, pos) =>
    if pos ≠ s.length ∨ v = 0 then none
    else if v > (2^64 - 1) / 1024 then none
    else some (v * 1024)

/-- An accepted size is positive. -/
theorem parseSizeKib_pos {s : Bytes} {out : ℕ} (h : parseSizeKib s = some out) : 0 < out := by
  unfold parseSizeKib at h
  split at h
  · exact absurd h (by simp)
  · split_ifs at h with hbad hbig
    simp only [Option.some.injEq] at h
    omega

/-- The environment of a request whose threads start and whose writes are whole. -/
structure Env.WritesWhole (env : Env) : Prop where
  spawns : ∀ k, env.spawns k = true
  rdma : ∀ k piece, env.rdma k piece = .returned piece piece

/-- Two runs of `handle_get` end the same way and leave the same bytes at the same remote
addresses. -/
def SameDelivery (r r' : Outcome × List Ev) : Prop :=
  r.1 = r'.1 ∧ ∀ addr, landedAt (writesOf r.2) addr = landedAt (writesOf r'.2) addr

/-- The piece that starts at `start` of a window fits behind its padding in the staging buffer. -/
def Fits (chunk offset length start : ℕ) : Prop :=
  (offset + start) % kAlign + min chunk (length - start) ≤ chunk

instance (chunk offset length start : ℕ) : Decidable (Fits chunk offset length start) :=
  inferInstanceAs (Decidable (_ ≤ _))

/-- When the first piece and the second fit, all do. -/
theorem fits_of_two {chunk offset length : ℕ} (h0 : Fits chunk offset length 0)
    (h1 : chunk < length → Fits chunk offset length chunk) {k : ℕ} (hk : k * chunk < length) :
    Fits chunk offset length (k * chunk) := by
  unfold Fits kAlign at *
  match k with
  | 0 => simpa using h0
  | 1 =>
    rw [Nat.one_mul] at hk ⊢
    exact h1 hk
  | k + 2 =>
    -- The first two pieces are whole, so neither of them leaves room for any padding.
    rw [Nat.add_mul] at hk ⊢
    have hoff : offset % 4096 = 0 := by omega
    have hchunk : chunk % 4096 = 0 := by
      have := h1 (by omega)
      omega
    have hmul : k * chunk % 4096 = 0 := by rw [Nat.mul_mod, hchunk, Nat.mul_zero, Nat.zero_mod]
    omega

/-! ## Reads at aligned offsets -/

/-- The outcomes of the calls that `pread_full` makes for `count` bytes at `off`, from any point of
its loop, when the descriptor serves aligned offsets: there a call is interrupted or returns all the
file has of what was asked for. At other offsets it may do anything. -/
def AlignedReads (f : File) (count off : ℕ) : List PreadOutcome → ℕ → Prop
  | [], _ => True
  | o :: os, total => total < count →
    match o with
    | .eintr => AlignedReads f count off os total
    | .error => (off + total) % kAlign ≠ 0
    | .read n =>
      ((off + total) % kAlign = 0 →
        f.served (count - total) (count - total) (off + total) ≤ n) ∧
      AlignedReads f count off os (total + f.served n (count - total) (off + total))

/-- The calls that were not interrupted. -/
def answered (outs : List PreadOutcome) : List PreadOutcome := outs.filter (· ≠ .eintr)

/-- `pread_full` reads past an end of the file that is not aligned, and the call that it repeats
there fails. -/
def RetryFails (f : File) (count off : ℕ) (outs : List PreadOutcome) : Prop :=
  f.bytes.length < off + count ∧ f.bytes.length % kAlign ≠ 0 ∧
    (answered outs)[1]? = some .error

instance (f : File) (count off : ℕ) (outs : List PreadOutcome) :
    Decidable (RetryFails f count off outs) :=
  inferInstanceAs (Decidable (_ ∧ _ ∧ _))

/-- Once `pread_full` has all that the file has of the bytes asked for, it returns them, unless
there are fewer than that and the next call fails, which it can only at an unaligned end. -/
theorem preadFull_at_end {f : File} {buf : Bool} {count off total : ℕ} (hoff : off < f.bytes.length)
    (htotal : total = min count (f.bytes.length - off)) {outs : List PreadOutcome} (st : Staging)
    (h : AlignedReads f count off outs total) :
    (preadFull f buf count off outs total st).result =
      if f.bytes.length < off + count ∧ f.bytes.length % kAlign ≠ 0 ∧
        (answered outs)[0]? = some .error then none else some total := by
  induction outs with
  | nil =>
    have hserved : f.served (count - total) (count - total) (off + total) = 0 := by
      unfold File.served
      omega
    unfold preadFull
    rw [hserved]
    split_ifs <;> simp_all [answered]
  | cons o os ih =>
    unfold preadFull
    by_cases hlt : total < count
    · rw [if_pos hlt]
      have hend : off + total = f.bytes.length := by omega
      cases o with
      | eintr =>
        exact ih (h hlt)
      | error =>
        have hne : f.bytes.length % kAlign ≠ 0 := hend ▸ h hlt
        rw [if_pos ⟨by omega, hne, rfl⟩]
      | read n =>
        have hserved : f.served n (count - total) (off + total) = 0 := by
          unfold File.served
          omega
        dsimp only
        rw [hserved, if_pos rfl, if_neg]
        rintro ⟨-, -, hhead⟩
        simp [answered] at hhead
    · rw [if_neg hlt, if_neg fun hc => by omega]

/-- A read at an aligned offset inside the file returns what the file has of it, unless the call
repeated at the end of the file fails. -/
theorem preadFull_aligned {f : File} {buf : Bool} {count off : ℕ} (hoff : off < f.bytes.length)
    (hcount : 0 < count) (halign : off % kAlign = 0) {outs : List PreadOutcome} (st : Staging)
    (h : AlignedReads f count off outs 0) :
    (preadFull f buf count off outs 0 st).result =
      if RetryFails f count off outs then none
      else some (min count (f.bytes.length - off)) := by
  induction outs with
  | nil =>
    unfold preadFull File.served
    rw [if_pos hcount, if_neg fun hf => by simp [RetryFails, answered] at hf]
    simp
  | cons o os ih =>
    cases o with
    | eintr =>
      unfold preadFull
      rw [if_pos hcount]
      exact ih (h hcount)
    | error => exact absurd halign (h hcount)
    | read n =>
      -- The first answered call returns everything; what is left is the call at the end.
      obtain ⟨hfull, hrest⟩ := h hcount
      have hserved : f.served n (count - 0) (off + 0) = min count (f.bytes.length - off) := by
        have hn := hfull halign
        unfold File.served at hn ⊢
        omega
      unfold preadFull
      rw [if_pos hcount]
      dsimp only
      rw [hserved, Nat.zero_add] at hrest ⊢
      rw [if_neg (by omega)]
      exact preadFull_at_end hoff rfl _ hrest

/-- The plan of the `k`-th piece of a window with `direct_io`. -/
def directPlan (chunk offset length k : ℕ) : ChunkIO :=
  planChunk (offset + k * chunk) (length - k * chunk) chunk true

/-- The reads of all pieces of a window are at aligned offsets served as `AlignedReads` says. -/
def ServesAligned (f : File) (chunk offset length : ℕ) (preads : ℕ → List PreadOutcome) : Prop :=
  ∀ k, k * chunk < length →
    AlignedReads f (directPlan chunk offset length k).read_len
      (directPlan chunk offset length k).read_off (preads k) 0

/-- The read of the `k`-th piece of a window fails at the end of the file. -/
def PieceRetryFails (f : File) (chunk offset length : ℕ) (preads : ℕ → List PreadOutcome)
    (k : ℕ) : Prop :=
  RetryFails f (directPlan chunk offset length k).read_len
    (directPlan chunk offset length k).read_off (preads k)

namespace Job

variable {j : Job}

/-- An `O_DIRECT` read of a descriptor that serves aligned offsets returns its piece exactly when
the piece fits and the call repeated at the end of the file does not fail. -/
theorem readOk_direct (hd : j.cfg.direct_io = true)
    (hserves : ServesAligned j.file j.cfg.chunk_size j.offset j.length j.env.preads)
    (hfile : j.offset + j.length ≤ j.file.bytes.length) {k : ℕ}
    (hk : k * j.cfg.chunk_size < j.length) :
    j.readOk k = true ↔ Fits j.cfg.chunk_size j.offset j.length (k * j.cfg.chunk_size) ∧
      ¬ PieceRetryFails j.file j.cfg.chunk_size j.offset j.length j.env.preads k := by
  have hw := j.window_lt
  have hc := j.chunk_pos
  have hend := plan_end_lt hk
  have hplan : j.plan k = directPlan j.cfg.chunk_size j.offset j.length k := by
    unfold plan directPlan
    rw [hd]
  have haligned := hserves k hk
  unfold readOk PieceRetryFails
  rw [hplan] at hend ⊢
  unfold directPlan at haligned hend ⊢
  rw [planChunk_direct (by omega)] at haligned hend ⊢
  dsimp only at haligned hend ⊢
  rw [preadFull_aligned (by omega) (by omega) (by unfold kAlign; omega) _ haligned]
  split_ifs with hretry
  · simp [enough, hretry]
  · unfold enough
    dsimp only
    rw [add64_eq hend, decide_eq_true_iff]
    simp only [hretry, not_false_eq_true, and_true]
    unfold Fits kAlign
    omega

/-- The empty object is read in any case: `pread_full` is asked for nothing. -/
theorem readOk_direct_empty (hd : j.cfg.direct_io = true) (ho : j.offset = 0)
    (hl : j.length = 0) : j.readOk 0 = true := by
  have hnone : ∀ outs, (preadFull j.file false 0 0 outs 0 fun _ _ => 0).result = some 0 := by
    intro outs
    cases outs <;> rfl
  unfold readOk plan
  rw [hd, planChunk_direct (by omega), ho, hl]
  simp [enough, add64, hnone]

/-- A transfer that reports a count has read all its pieces. -/
theorem readOk_of_run {status : ℕ} {m : ℤ} (h : j.run.1 = .returned status (some m)) {k : ℕ}
    (hk : k = 0 ∨ k < j.count) : j.readOk k = true := by
  obtain ⟨hfirst, hpass⟩ := passes_of_run h
  cases k with
  | zero => exact hfirst
  | succ k =>
    have hlt : k + 1 < j.count := hk.resolve_left (Nat.succ_ne_zero k)
    exact ((hpass k (Nat.lt_of_succ_lt hlt)).2 hlt).2

/-- With `O_DIRECT` all pieces are read exactly when the first and the second fit, so that all do,
and no call repeated at the end of the file fails. -/
theorem readOk_all_direct_iff (hd : j.cfg.direct_io = true)
    (hserves : ServesAligned j.file j.cfg.chunk_size j.offset j.length j.env.preads)
    (hfile : j.offset + j.length ≤ j.file.bytes.length) (hempty : j.length = 0 → j.offset = 0) :
    (∀ k, k = 0 ∨ k < j.count → j.readOk k = true) ↔
      Fits j.cfg.chunk_size j.offset j.length 0 ∧
        (j.cfg.chunk_size < j.length →
          Fits j.cfg.chunk_size j.offset j.length j.cfg.chunk_size) ∧
        ∀ k, k * j.cfg.chunk_size < j.length →
          ¬ PieceRetryFails j.file j.cfg.chunk_size j.offset j.length j.env.preads k := by
  have hok := fun k hk => readOk_direct (k := k) hd hserves hfile hk
  have hcount : ∀ k, k < j.count ↔ k * j.cfg.chunk_size < j.length := fun k =>
    lt_pieceCount_iff j.chunk_pos
  constructor
  · intro hread
    have hparts := fun k hk => (hok k hk).mp (hread k (.inr ((hcount k).mpr hk)))
    refine ⟨?_, fun h => ?_, fun k hk => (hparts k hk).2⟩
    · by_cases h0 : j.length = 0
      · simp [Fits, h0, hempty h0]
      · simpa using (hparts 0 (by omega)).1
    · simpa using (hparts 1 (by omega)).1
  -- An empty window has one read, which always succeeds.
  · rintro ⟨h0, h1, hretry⟩ k hk
    by_cases hlt : k * j.cfg.chunk_size < j.length
    · exact (hok k hlt).mpr ⟨fits_of_two h0 h1 hlt, hretry k hlt⟩
    · obtain rfl := hk.resolve_right fun h => hlt ((hcount k).mp h)
      have hzero : j.length = 0 := by omega
      exact readOk_direct_empty hd (hempty hzero) hzero

end Job

/-- Only the whole of an empty object is an empty window. -/
theorem requestWindow_empty {range_hdr : Bytes} {n offset : ℕ} {is_range : Bool} (hn : n < 2^63)
    (h : requestWindow range_hdr n = some (offset, 0, is_range)) : offset = 0 := by
  unfold requestWindow at h
  dsimp only at h
  split_ifs at h with hnil hbad
  · simp only [Option.some.injEq, Prod.mk.injEq] at h
    omega
  · simp only [Bool.or_eq_true, Bool.not_eq_true', not_or, Bool.not_eq_false] at hbad
    obtain ⟨hle, hlt⟩ := parseRange_valid hbad.2
    simp only [Option.some.injEq, Prod.mk.injEq] at h
    rw [sub64_eq (by omega) hle, add64_eq (by omega)] at h
    omega

/-- A descriptor without an address fails in both modes. -/
theorem handleGet_no_address {cfg : Config} {e : FdEntry} {range_hdr rdma_token_b64 : Bytes}
    {slot : Staging} {env : Env} {w : ℕ × ℕ × Bool}
    (hwin : requestWindow range_hdr e.size = some w) (hb : remoteBase rdma_token_b64 = 0) :
    handleGet cfg (some e) range_hdr rdma_token_b64 slot env = (.returned 500 none, []) := by
  unfold handleGet
  dsimp only
  rw [hwin]
  obtain ⟨offset, length, is_range⟩ := w
  dsimp only
  exact if_pos hb

/-- On a file that has the window, with every write whole and a descriptor that serves aligned
offsets, `handle_get` with `direct_io` does what it does without exactly when the descriptor has no
address, or the first piece and the second fit behind their padding and no call repeated at an
unaligned end of the file fails. -/
theorem handleGet_direct_iff {s : Bytes} {chunk : ℕ} {e : FdEntry}
    {range_hdr rdma_token_b64 : Bytes} {slot slot' : Staging} {env env' : Env}
    {offset length : ℕ} {is_range : Bool} (hchunk : parseSizeKib s = some chunk)
    (hwin : requestWindow range_hdr e.size = some (offset, length, is_range))
    (hfile : offset + length ≤ e.file.bytes.length)
    (hwhole : env.WritesWhole) (hdirect : ServesAligned e.file chunk offset length env.preads)
    (hwhole' : env'.WritesWhole) (hbuffered : ∀ k, ∀ o ∈ env'.preads k, o.Progress) :
    SameDelivery (handleGet ⟨chunk, true⟩ (some e) range_hdr rdma_token_b64 slot env)
        (handleGet ⟨chunk, false⟩ (some e) range_hdr rdma_token_b64 slot' env') ↔
      remoteBase rdma_token_b64 = 0 ∨
        (Fits chunk offset length 0 ∧ (chunk < length → Fits chunk offset length chunk) ∧
          ∀ k, k * chunk < length →
            ¬ PieceRetryFails e.file chunk offset length env.preads k) := by
  by_cases hb : remoteBase rdma_token_b64 = 0
  · rw [handleGet_no_address hwin hb, handleGet_no_address hwin hb]
    exact ⟨fun _ => .inl hb, fun _ => ⟨rfl, fun _ => rfl⟩⟩
  -- Both requests are jobs; the buffered one always delivers every piece.
  have hc : 0 < chunk := parseSizeKib_pos hchunk
  obtain ⟨hd1, hd2⟩ := handleGet_writes ⟨chunk, true⟩ e slot env hc hwin hb
  obtain ⟨hb1, hb2⟩ := handleGet_writes ⟨chunk, false⟩ e slot' env' hc hwin hb
  have hbrun := Job.run_whole
    (Job.readOk_of_buffered (j := .ofRequest ⟨chunk, false⟩ e rdma_token_b64 env' hc hwin)
      rfl hbuffered hfile) hwhole'.spawns fun k _ => hwhole'.rdma k _
  have hall := Job.readOk_all_direct_iff (j := .ofRequest ⟨chunk, true⟩ e rdma_token_b64 env hc hwin)
    rfl hdirect hfile fun h : length = 0 => requestWindow_empty e.size_lt (h ▸ hwin)
  constructor
  -- The same answer is a success, so the reads of all pieces succeeded.
  · rintro ⟨h1, -⟩
    rw [hd1, hb1, hbrun] at h1
    exact .inr (hall.mp fun k => Job.readOk_of_run h1)
  · intro h
    have hread := hall.mpr (h.resolve_left hb)
    -- Then the direct run delivers every piece too, with the same writes.
    have hdrun := Job.run_whole (j := .ofRequest ⟨chunk, true⟩ e rdma_token_b64 env hc hwin) hread
      hwhole.spawns fun k _ => hwhole.rdma k _
    have hsame : (Job.ofRequest ⟨chunk, true⟩ e rdma_token_b64 env hc hwin).run =
        (Job.ofRequest ⟨chunk, false⟩ e rdma_token_b64 env' hc hwin).run := by
      rw [hdrun, hbrun]
      refine Prod.ext rfl (List.map_congr_left fun k _ => ?_)
      rw [Job.writeAt_whole (hwhole.rdma k _), Job.writeAt_whole (hwhole'.rdma k _)]
      rfl
    unfold SameDelivery
    rw [hd1, hd2, hb1, hb2, hsame]
    exact ⟨rfl, fun _ => rfl⟩

/-- An environment in which nothing fails. -/
def steadyEnv : Env where
  preads _ := []
  spawns _ := true
  rdma _ piece := .returned piece piece
  fetch _ _ := 0

/-- The writes of `steadyEnv` are whole. -/
theorem steadyEnv_whole : steadyEnv.WritesWhole := ⟨fun _ => rfl, fun _ _ => rfl⟩

/-- A file of 5000 bytes, which does not end at a block. -/
def blockAndMore : File := ⟨List.replicate 5000 7, by rw [List.length_replicate]; decide⟩

/-- An environment in which every first call of `pread` serves up to a block, and the next one,
where there is one, does `retry`. -/
def retryEnv (retry : PreadOutcome) : Env := { steadyEnv with preads := fun _ => [.read 4096, retry] }

/-- Aligned offsets are served in `retryEnv`: only the second piece reaches the end of the file,
which is not aligned. -/
theorem retryEnv_servesAligned (retry : PreadOutcome) :
    ServesAligned blockAndMore 4096 0 5000 (retryEnv retry).preads := by
  have hlen : blockAndMore.bytes.length = 5000 := List.length_replicate
  intro k hk
  have hplan : k = 0 ∧ directPlan 4096 0 5000 k = ⟨0, 4096, 0, 4096⟩ ∨
      k = 1 ∧ directPlan 4096 0 5000 k = ⟨4096, 4096, 0, 904⟩ := by
    obtain rfl | rfl : k = 0 ∨ k = 1 := by omega
    · exact .inl ⟨rfl, by decide⟩
    · exact .inr ⟨rfl, by decide⟩
  rcases hplan with ⟨-, hplan⟩ | ⟨-, hplan⟩
  · simp [hplan, retryEnv, AlignedReads, File.served, hlen]
  · cases retry <;> simp [hplan, retryEnv, AlignedReads, File.served, hlen, kAlign]

/-- The whole of 5000 bytes in two chunks of 4 KiB: both modes deliver the same when the call
repeated at the end of the file is interrupted and then returns `0`, and not when it fails. -/
theorem handleGet_direct_retry :
    SameDelivery (handleGet ⟨4096, true⟩ (some (.ofFile blockAndMore)) [] (ascii "1000:0")
        (fun _ _ => 0) (retryEnv .eintr))
      (handleGet ⟨4096, false⟩ (some (.ofFile blockAndMore)) [] (ascii "1000:0")
        (fun _ _ => 0) steadyEnv) ∧
    ¬ SameDelivery (handleGet ⟨4096, true⟩ (some (.ofFile blockAndMore)) [] (ascii "1000:0")
        (fun _ _ => 0) (retryEnv .error))
      (handleGet ⟨4096, false⟩ (some (.ofFile blockAndMore)) [] (ascii "1000:0")
        (fun _ _ => 0) steadyEnv) := by
  have hlen : blockAndMore.bytes.length = 5000 := List.length_replicate
  have hwin : requestWindow [] (FdEntry.ofFile blockAndMore).size = some (0, 5000, false) := by
    rw [show (FdEntry.ofFile blockAndMore).size = 5000 from hlen]
    decide
  have hiff := fun retry => @handleGet_direct_iff (ascii "4") 4096 (.ofFile blockAndMore) []
    (ascii "1000:0") (fun _ _ => 0) (fun _ _ => 0) (retryEnv retry) steadyEnv 0 5000 false
    (by decide) hwin hlen.ge ⟨fun _ => rfl, fun _ _ => rfl⟩ (retryEnv_servesAligned retry)
    steadyEnv_whole fun _ _ h => absurd h List.not_mem_nil
  refine ⟨(hiff .eintr).mpr (.inr ⟨by decide, fun _ => by decide, ?_⟩), fun hsame => ?_⟩
  · rintro k - ⟨-, -, hretry⟩
    simp [retryEnv, answered] at hretry
  · -- The plan of the second piece asks for a block at 4096, and the file ends 904 bytes later.
    have hplan : directPlan 4096 0 5000 1 = ⟨4096, 4096, 0, 904⟩ := by decide
    have hno := ((hiff .error).mp hsame).resolve_left (by decide)
    refine hno.2.2 1 (by decide) ?_
    unfold PieceRetryFails RetryFails
    rw [hplan, show (FdEntry.ofFile blockAndMore).file.bytes.length = 5000 from hlen]
    decide

/-- A file of 1025 bytes. -/
def kibAndOne : File := ⟨List.replicate 1025 7, by rw [List.length_replicate]; decide⟩

/-- With chunks of 1 KiB, bytes 1 to 1024 of that file are delivered from a buffered descriptor and
refused with `O_DIRECT`: the piece does not fit behind its one byte of padding. -/
theorem handleGet_direct_refuses : parseSizeKib (ascii "1") = some 1024 ∧
    (handleGet ⟨1024, false⟩ (some (.ofFile kibAndOne)) (plainRange 1 1024) (ascii "1000:0")
      (fun _ _ => 0) steadyEnv).1 = .returned 206 (some 1024) ∧
    (handleGet ⟨1024, true⟩ (some (.ofFile kibAndOne)) (plainRange 1 1024) (ascii "1000:0")
      (fun _ _ => 0) steadyEnv).1 = .returned 500 none := by
  have hlen : kibAndOne.bytes.length = 1025 := List.length_replicate
  have hwin : requestWindow (plainRange 1 1024) (FdEntry.ofFile kibAndOne).size =
      some (1, 1024, true) := by
    rw [show (FdEntry.ofFile kibAndOne).size = 1025 from hlen]
    decide
  have hbase : remoteBase (ascii "1000:0") ≠ 0 := by decide
  have hc : 0 < 1024 := by decide
  have hserves : ServesAligned kibAndOne 1024 1 1024 steadyEnv.preads := fun _ _ => trivial
  refine ⟨by decide, ?_, ?_⟩
  · have hread := Job.readOk_of_buffered
      (j := .ofRequest ⟨1024, false⟩ (.ofFile kibAndOne) (ascii "1000:0") steadyEnv hc hwin) rfl
      (fun _ _ h => absurd h List.not_mem_nil) hlen.ge
    rw [(handleGet_writes ⟨1024, false⟩ _ _ steadyEnv hc hwin hbase).1,
      Job.run_whole hread steadyEnv_whole.spawns fun k _ => steadyEnv_whole.rdma k _]
    rfl
  · rw [(handleGet_writes ⟨1024, true⟩ _ _ steadyEnv hc hwin hbase).1]
    have hfits := Job.readOk_direct (k := 0)
      (j := .ofRequest ⟨1024, true⟩ (.ofFile kibAndOne) (ascii "1000:0") steadyEnv hc hwin) rfl
      hserves hlen.ge hc
    have hread := Bool.eq_false_iff.mpr fun h =>
      (show ¬ Fits 1024 1 1024 0 by decide) (hfits.mp h).1
    rw [Job.run, if_pos hread]

end S3Rdma.Server
