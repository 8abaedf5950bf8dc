import S3Rdma.Lib.Monitor
import S3Rdma.Server.Deliver

/-!
# The staging buffers are safe

Slots are handed from request to request with whatever their buffers hold. The monitor of this
module watches everything a request does with them: a `pread` stays inside the first `chunk_size`
bytes of a buffer that is not being written out, and the source of an RDMA write lies inside what
the last `pread_full` into its buffer returned in this request, and is the file's bytes.

`handleGet_safe` says that every run is accepted, whatever the environment does and however short
the file has become, and that nothing a request does depends on what its buffers held before. Both
follow from `LoopInv` and the two lemmas about a pass of the loop: one buffer is written out while
the other is read into, and the loop goes on only when the read returned the whole of its piece.
-/

namespace S3Rdma.Server

/-- What the monitor knows: which buffer is being written out, and for each buffer the offset and
the length of what the last `pread_full` into it returned. -/
structure StagingState where
  busy : Option Bool := none
  loaded : Bool → Option (ℕ × ℕ) := fun _ => none

/-- What a request may do with buffers of `chunk` bytes when it sends a file. -/
def stagingMonitor (chunk : ℕ) (file : File) : Monitor StagingState Ev where
  ok m
    | .acquire => True
    | .release => True
    | .pread buf dst count _ _ => dst + count ≤ chunk ∧ m.busy ≠ some buf
    | .loaded _ _ _ => True
    | .rdmaBegin c => m.busy = none ∧
        (∃ off n, m.loaded c.buf = some (off, n) ∧ c.local_off + c.piece ≤ n ∧
          off + c.local_off = c.file_off) ∧
        c.file_off + c.piece ≤ file.bytes.length ∧ c.source = file.slice c.file_off c.piece
    | .rdmaEnd c _ _ => m.busy = some c.buf
  next m
    | .acquire => m
    | .release => m
    -- What a buffer holds is known again when the `pread_full` that reads into it has returned.
    | .pread buf _ _ _ _ => { m with loaded := fun b => if b = buf then none else m.loaded b }
    | .loaded buf off n =>
      { m with loaded := fun b => if b = buf then n.map (off, ·) else m.loaded b }
    | .rdmaBegin c => { m with busy := some c.buf }
    | .rdmaEnd _ _ _ => { m with busy := none }

variable {chunk : ℕ} {file : File}

/-- A `pread_full` that fits the buffer is accepted while that buffer is not being written out, and
changes nothing for the other buffer. -/
theorem PreadSpec.accepts {buf : Bool} {count off : ℕ} {st : Staging} {r : PreadRun}
    (h : PreadSpec file buf count off st r) (hcount : count ≤ chunk) {m : StagingState}
    (hm : m.busy ≠ some buf) :
    (stagingMonitor chunk file).Accepts m r.events ∧
      ((stagingMonitor chunk file).after m r.events).busy = m.busy ∧
      ((stagingMonitor chunk file).after m r.events).loaded (!buf) = m.loaded (!buf) := by
  apply Monitor.accepts_of_invariant
    (I := fun m' : StagingState => m'.busy = m.busy ∧ m'.loaded (!buf) = m.loaded (!buf))
  · rintro m' ⟨hb, hl⟩ ev hev
    obtain ⟨dst, got, hdst, rfl⟩ := h.inside ev hev
    refine ⟨⟨by omega, hb ▸ hm⟩, hb, ?_⟩
    simpa [stagingMonitor] using hl
  · exact ⟨rfl, rfl⟩

/-- Before the `k`-th pass no buffer is being written out, and the current one was loaded with the
`k`-th piece. -/
structure Ready (j : Job) (k : ℕ) (s : LoopState) (m : StagingState) : Prop where
  idle : m.busy = none
  loaded : k * j.cfg.chunk_size < j.length →
    ∃ n, m.loaded s.cur = some ((j.plan k).read_off, n) ∧ (j.plan k).local_off + j.piece k ≤ n

section Pass

variable {j : Job} {k : ℕ} {s : LoopState} {m : StagingState}

/-- A piece that the current buffer holds is in the file. -/
theorem LoopInv.piece_in_file (h : LoopInv j k s) (hk : k * j.cfg.chunk_size < j.length) :
    j.offset + k * j.cfg.chunk_size + j.piece k ≤ j.file.bytes.length := by
  have hp := Job.piece_le hk
  obtain ⟨hlt, -⟩ := List.getElem?_eq_some_iff.mp (h.holds hk (j.piece k - 1) (by omega))
  omega

/-- The write of a pass may start. -/
theorem Ready.begin_ok (hm : Ready j k s m) (h : LoopInv j k s)
    (hk : k * j.cfg.chunk_size < j.length) :
    (stagingMonitor j.cfg.chunk_size j.file).ok m (.rdmaBegin (LoopInv.call j k s)) := by
  obtain ⟨n, hl, hn⟩ := hm.loaded hk
  have hoff : s.file_off = j.offset + k * j.cfg.chunk_size := h.file_off_eq hk
  have hpiece : s.cur_c.piece = j.piece k := h.piece_eq hk
  have hlocal : s.cur_c.local_off = (j.plan k).local_off := by rw [h.cur_c hk]
  refine ⟨hm.idle, ⟨_, n, hl, ?_, ?_⟩, ?_, ?_⟩
  · change s.cur_c.local_off + s.cur_c.piece ≤ n
    rw [hlocal, hpiece]
    exact hn
  · change (j.plan k).read_off + s.cur_c.local_off = s.file_off
    rw [hlocal, hoff, Job.plan_read_off_add hk]
  · change s.file_off + s.cur_c.piece ≤ j.file.bytes.length
    rw [hoff, hpiece]
    exact h.piece_in_file hk
  · change j.file.slice _ _ = j.file.slice s.file_off s.cur_c.piece
    rw [hoff, hpiece]

/-- The read of the next chunk is accepted beside the write of the current one, and ends with the
other buffer loaded. -/
theorem Ready.overlap (hm : Ready j k s m) (h : LoopInv j k s)
    (hk : k * j.cfg.chunk_size < j.length) :
    let evs := .rdmaBegin (LoopInv.call j k s) :: (LoopInv.prefetch j k s).events ++
      [.loaded (!s.cur) (j.plan (k + 1)).read_off (LoopInv.prefetch j k s).result]
    (stagingMonitor j.cfg.chunk_size j.file).Accepts m evs ∧
      ((stagingMonitor j.cfg.chunk_size j.file).after m evs).busy = some s.cur ∧
      ((stagingMonitor j.cfg.chunk_size j.file).after m evs).loaded (!s.cur) =
        (LoopInv.prefetch j k s).result.map ((j.plan (k + 1)).read_off, ·) := by
  have hlen : (j.plan (k + 1)).read_len ≤ j.cfg.chunk_size := planChunk_read_len_le _ _ _ _
  have hbusy : (some s.cur : Option Bool) ≠ some (!s.cur) := by simp
  obtain ⟨hacc, hb, -⟩ := (LoopInv.prefetch_spec j k s).accepts hlen
    (m := { m with busy := some s.cur }) hbusy
  dsimp only
  rw [List.cons_append, Monitor.accepts_cons, Monitor.accepts_append, Monitor.after_cons,
    Monitor.after_append]
  refine ⟨⟨hm.begin_ok h hk, hacc, trivial, trivial⟩, hb, ?_⟩
  exact if_pos rfl

/-- A read that passes the test returned its piece. -/
theorem loaded_of_readOk {r : PreadRun} (hk : k * j.cfg.chunk_size < j.length)
    (hen : enough r.result (j.plan k) = j.readOk k) (hok : j.readOk k = true) :
    ∃ n, r.result = some n ∧ (j.plan k).local_off + j.piece k ≤ n := by
  have hlt := Job.plan_end_lt hk
  rw [hok] at hen
  cases hr : r.result with
  | none => simp [enough, hr] at hen
  | some n =>
    simp only [enough, hr, add64_eq hlt, decide_eq_true_eq] at hen
    rw [Job.plan_piece] at hen
    exact ⟨n, rfl, hen⟩

/-- What a pass does is accepted, and if the loop goes on, it is ready for the next pass. -/
theorem Ready.pass (hm : Ready j k s m) (h : LoopInv j k s)
    (hk : k * j.cfg.chunk_size < j.length) :
    (stagingMonitor j.cfg.chunk_size j.file).Accepts m (loopBody j.cfg j.file j.env k s).2 ∧
      ∀ s', (loopBody j.cfg j.file j.env k s).1 = .inr s' → LoopInv j (k + 1) s' ∧
        Ready j (k + 1) s' ((stagingMonitor j.cfg.chunk_size j.file).after m
          (loopBody j.cfg j.file j.env k s).2) := by
  -- As in the code: with a next chunk the read runs beside the write, without one it does not.
  by_cases hk1 : (k + 1) * j.cfg.chunk_size < j.length
  · obtain ⟨hacc, hbusy, hload⟩ := hm.overlap h hk
    rw [h.loopBody_mid hk1]
    dsimp only at hacc hbusy hload ⊢
    generalize Ev.rdmaBegin (LoopInv.call j k s) :: (LoopInv.prefetch j k s).events ++
      [.loaded (!s.cur) (j.plan (k + 1)).read_off (LoopInv.prefetch j k s).result] = evs
      at hacc hbusy hload ⊢
    have hend : ∀ ret landed, (stagingMonitor j.cfg.chunk_size j.file).Accepts m
        (evs ++ [.rdmaEnd (LoopInv.call j k s) ret landed]) := fun ret landed =>
      Monitor.accepts_append.mpr ⟨hacc, hbusy, trivial⟩
    split_ifs with hspawn
    · exact ⟨trivial, by simp⟩
    · cases j.env.rdma k (j.piece k) with
      | throws => exact ⟨hacc, by simp⟩
      | returned ret landed =>
        dsimp only
        split_ifs with hstop
        · exact ⟨Monitor.accepts_append.mpr ⟨hend ret landed, trivial, trivial⟩, by simp⟩
        · refine ⟨hend ret landed, ?_⟩
          rintro s' ⟨⟩
          have hok : j.readOk (k + 1) = true := by simpa using (not_or.mp hstop).2
          -- The read was long enough, so the other buffer holds the next piece.
          refine ⟨h.next hk ret _ _ (fun _ => rfl) fun hk2 => LoopInv.prefetch_holds hk2 hok, ?_⟩
          rw [Monitor.after_append]
          refine ⟨rfl, fun hk2 => ?_⟩
          obtain ⟨n, hn, hle⟩ := loaded_of_readOk (r := LoopInv.prefetch j k s) hk2
            (Job.enough_eq_readOk _ _) hok
          refine ⟨n, ?_, hle⟩
          rw [hn] at hload
          exact hload
  · rw [h.loopBody_last hk (by omega)]
    have hbegin := hm.begin_ok h hk
    cases j.env.rdma k (j.piece k) with
    | throws => exact ⟨⟨hbegin, trivial⟩, by simp⟩
    | returned ret landed =>
      dsimp only
      split_ifs with hneg
      · exact ⟨⟨hbegin, rfl, trivial, trivial⟩, by simp⟩
      · refine ⟨⟨hbegin, rfl, trivial⟩, ?_⟩
        rintro s' ⟨⟩
        refine ⟨h.next hk ret _ _ (fun hk2 => absurd hk2 hk1) fun hk2 => absurd hk2 hk1, ?_⟩
        exact ⟨rfl, fun hk2 => absurd hk2 hk1⟩

end Pass

/-- What the loop does from its `k`-th pass on is accepted. -/
theorem pingPong_accepts {j : Job} (fuel k : ℕ) (s : LoopState) (m : StagingState)
    (h : LoopInv j k s) (hm : Ready j k s m) :
    (stagingMonitor j.cfg.chunk_size j.file).Accepts m
      (pingPong j.cfg j.file j.env j.is_range fuel k s).2 := by
  induction fuel generalizing k s m with
  | zero => trivial
  | succ fuel ih =>
    have hrem := h.remaining
    unfold pingPong
    by_cases h0 : s.remaining = 0
    · rw [if_pos h0]
      exact ⟨trivial, trivial⟩
    · rw [if_neg h0]
      obtain ⟨hacc, hnext⟩ := hm.pass h (by omega)
      generalize loopBody j.cfg j.file j.env k s = r at hacc hnext
      obtain ⟨o | s', evs⟩ := r
      · exact hacc
      · obtain ⟨h', hm'⟩ := hnext s' rfl
        exact Monitor.accepts_append.mpr ⟨hacc, ih (k + 1) s' _ h' hm'⟩

/-- The loop does the same whatever the buffers hold besides the current piece. -/
theorem pingPong_indep {j : Job} (fuel k : ℕ) (s : LoopState) (st : Staging) (h : LoopInv j k s)
    (h' : LoopInv j k { s with staging := st }) :
    pingPong j.cfg j.file j.env j.is_range fuel k s =
      pingPong j.cfg j.file j.env j.is_range fuel k { s with staging := st } := by
  -- Both loops take the same branch at every pass; the events do not mention the buffers.
  induction fuel generalizing k s st with
  | zero => rfl
  | succ fuel ih =>
    have hrem := h.remaining
    unfold pingPong
    by_cases h0 : s.remaining = 0
    · rw [if_pos h0, if_pos h0]
    · rw [if_neg h0, if_neg h0]
      have hk : k * j.cfg.chunk_size < j.length := by omega
      by_cases hk1 : (k + 1) * j.cfg.chunk_size < j.length
      · rw [h.loopBody_mid hk1, h'.loopBody_mid hk1]
        obtain ⟨hres, hevs⟩ := preadFull_indep j.file (!s.cur) (!s.cur) (j.plan (k + 1)).read_len
          (j.plan (k + 1)).read_off (j.env.preads (k + 1)) 0 s.staging st
        have hres' : (LoopInv.prefetch j k { s with staging := st }).result =
          (LoopInv.prefetch j k s).result := hres.symm
        have hevs' : (LoopInv.prefetch j k { s with staging := st }).events =
          (LoopInv.prefetch j k s).events := hevs.symm
        have hcall : LoopInv.call j k { s with staging := st } = LoopInv.call j k s := rfl
        dsimp only
        rw [hres', hevs', hcall]
        split_ifs with hspawn
        · rfl
        · cases j.env.rdma k (j.piece k) with
          | throws => rfl
          | returned ret landed =>
            dsimp only
            split_ifs with hstop
            · rfl
            · have hok : j.readOk (k + 1) = true := by simpa using (not_or.mp hstop).2
              have hrec := ih (k + 1) (s.advance ret (j.plan (k + 1)) (LoopInv.prefetch j k s).final)
                (LoopInv.prefetch j k { s with staging := st }).final
                (h.next hk ret _ _ (fun _ => rfl) fun hk2 => LoopInv.prefetch_holds hk2 hok)
                (h'.next hk ret _ _ (fun _ => rfl) fun hk2 => LoopInv.prefetch_holds hk2 hok)
              rw [andThen_inr, andThen_inr, hrec]
              rfl
      · rw [h.loopBody_last hk (by omega), h'.loopBody_last hk (by omega)]
        have hcall : LoopInv.call j k { s with staging := st } = LoopInv.call j k s := rfl
        rw [hcall]
        cases j.env.rdma k (j.piece k) with
        | throws => rfl
        | returned ret landed =>
          dsimp only
          split_ifs with hneg
          · rfl
          · have hrec := ih (k + 1) (s.advance ret ⟨0, 0, 0, 0⟩ s.staging) st
              (h.next hk ret _ _ (fun hk2 => absurd hk2 hk1) fun hk2 => absurd hk2 hk1)
              (h'.next hk ret _ _ (fun hk2 => absurd hk2 hk1) fun hk2 => absurd hk2 hk1)
            rw [andThen_inr, andThen_inr, hrec]
            rfl

/-- The prefill is accepted, and leaves the loop ready for its first pass. -/
theorem prefill_accepts (j : Job) (slot : Staging) :
    (stagingMonitor j.cfg.chunk_size j.file).Accepts {} (j.prefillEvents slot) ∧
      (j.readOk 0 = true → Ready j 0 (j.start slot)
        ((stagingMonitor j.cfg.chunk_size j.file).after {} (j.prefillEvents slot))) := by
  have hlen : (j.plan 0).read_len ≤ j.cfg.chunk_size := planChunk_read_len_le _ _ _ _
  obtain ⟨hacc, hb, -⟩ := (j.prefill_spec slot).accepts hlen (m := {}) (by simp)
  unfold Job.prefillEvents
  rw [Monitor.accepts_append, Monitor.after_append]
  refine ⟨⟨hacc, trivial, trivial⟩, fun hok => ⟨hb, fun hk => ?_⟩⟩
  obtain ⟨n, hn, hle⟩ := loaded_of_readOk (r := j.prefill slot) hk
    (Job.enough_eq_readOk false slot) hok
  refine ⟨n, ?_, hle⟩
  change Option.map ((j.plan 0).read_off, ·) (j.prefill slot).result = _
  rw [hn]
  rfl

/-- What the handler does from the prefill on is accepted. -/
theorem transfer_accepts (j : Job) (slot : Staging) :
    (stagingMonitor j.cfg.chunk_size j.file).Accepts {}
      (transfer j.cfg j.file j.env slot j.offset j.length j.is_range j.remote_base).2 := by
  obtain ⟨hacc, hready⟩ := prefill_accepts j slot
  rw [j.transfer_eq]
  split_ifs with hok
  · exact Monitor.accepts_append.mpr ⟨hacc, trivial, trivial⟩
  · have hok' := Bool.eq_true_of_not_eq_false hok
    exact Monitor.accepts_append.mpr
      ⟨hacc, pingPong_accepts _ _ _ _ (j.loopInv_start slot hok') (hready hok')⟩

/-- What the handler does from the prefill on does not depend on the buffers it was given. -/
theorem transfer_indep (j : Job) (slot slot' : Staging) :
    transfer j.cfg j.file j.env slot j.offset j.length j.is_range j.remote_base =
      transfer j.cfg j.file j.env slot' j.offset j.length j.is_range j.remote_base := by
  obtain ⟨hres, hevs⟩ := preadFull_indep j.file false false (j.plan 0).read_len
    (j.plan 0).read_off (j.env.preads 0) 0 slot slot'
  have hpre : j.prefillEvents slot = j.prefillEvents slot' := by
    unfold Job.prefillEvents Job.prefill
    rw [hres, hevs]
  rw [j.transfer_eq, j.transfer_eq, hpre]
  split_ifs with hok
  · rfl
  · have hok' := Bool.eq_true_of_not_eq_false hok
    rw [pingPong_indep _ _ (j.start slot) (j.prefill slot').final (j.loopInv_start slot hok')
      (j.loopInv_start slot' hok')]
    rfl

/-- Every run of `handle_get` uses the staging buffers as the monitor allows, and does the same
whatever they held before the request. -/
theorem handleGet_safe (cfg : Config) (e : FdEntry) (range_hdr rdma_token_b64 : Bytes)
    (slot : Staging) (env : Env) :
    (stagingMonitor cfg.chunk_size e.file).Accepts {}
        (handleGet cfg (some e) range_hdr rdma_token_b64 slot env).2 ∧
      ∀ slot', handleGet cfg (some e) range_hdr rdma_token_b64 slot' env =
        handleGet cfg (some e) range_hdr rdma_token_b64 slot env := by
  unfold handleGet
  dsimp only
  cases hwin : requestWindow range_hdr e.size with
  | none => exact ⟨trivial, fun _ => rfl⟩
  | some w =>
    obtain ⟨offset, length, is_range⟩ := w
    dsimp only
    split_ifs with hb
    · exact ⟨trivial, fun _ => rfl⟩
    · by_cases hc : cfg.chunk_size = 0
      · simp only [transfer, hc, if_true]
        exact ⟨⟨trivial, trivial, trivial⟩, fun _ => trivial⟩
      · have hc' : 0 < cfg.chunk_size := by omega
        refine ⟨⟨trivial, ?_⟩, fun slot' => ?_⟩
        · exact transfer_accepts (.ofRequest cfg e rdma_token_b64 env hc' hwin) slot
        · have hi := transfer_indep (.ofRequest cfg e rdma_token_b64 env hc' hwin) slot' slot
          exact congrArg (fun r => (r.1, Ev.acquire :: r.2)) hi

end S3Rdma.Server
