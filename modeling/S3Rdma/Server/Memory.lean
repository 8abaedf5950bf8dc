import S3Rdma.Server.Delivery

/-!
# The client's memory after a GET

When every RDMA write that returns a count is whole (`Env.Whole`), the status of a GET tells what is
in the client's memory: with 200 or 206 the window of the file stands at the remote address, and
nothing was written anywhere else (`handleGet_landed`). This needs nothing of the reads: a piece that
could not be read ends the request with 500.
-/

namespace S3Rdma.Server

/-- A write that returns a count has put its whole piece at the address it was given. -/
def Env.Whole (env : Env) : Prop :=
  ∀ k piece ret landed, env.rdma k piece = .returned ret landed → 0 ≤ ret →
    ret = piece ∧ landed = piece

/-- After the writes, the `n` bytes from `base` on are those of the file from `offset` on, and no
other byte was written. Addresses wrap at `2^64`. -/
structure Landed (file : File) (offset base n : ℕ) (ws : List Write) : Prop where
  bytes : ∀ p, p < n → ∃ b, file.bytes[offset + p]? = some b ∧
    landedAt ws ((base + p) % 2^64) = some b
  outside : ∀ addr, addr < 2^64 → (∀ p, p < n → addr ≠ (base + p) % 2^64) → landedAt ws addr = none

namespace Job

variable {j : Job}

/-- A transfer fails with 500 and no count, or reports a count with its status. -/
theorem deliver_returned {n k status : ℕ} {total : ℤ} {bytes_out : Option ℤ}
    (h : (j.deliver n k total).1 = .returned status bytes_out) :
    status = 500 ∨ status = j.status ∧ ∃ m, bytes_out = some m := by
  induction n generalizing k total with
  | zero =>
    simp only [deliver, Outcome.returned.injEq] at h
    exact .inr ⟨h.1.symm, _, h.2.symm⟩
  | succ n ih =>
    unfold deliver at h
    by_cases hspawn : n ≠ 0 ∧ j.env.spawns k = false
    · rw [if_pos hspawn] at h
      cases h
    · rw [if_neg hspawn] at h
      cases hrd : j.env.rdma k (j.piece k) with
      | throws =>
        simp only [hrd] at h
        split_ifs at h
      | returned ret landed =>
        simp only [hrd] at h
        split_ifs at h
        · exact .inl (Outcome.returned.inj h).1.symm
        · exact .inl (Outcome.returned.inj h).1.symm
        · exact ih h

/-- A transfer that does not answer with 500 reports a count. -/
theorem run_returned {status : ℕ} {bytes_out : Option ℤ}
    (h : j.run.1 = .returned status bytes_out) (hstatus : status ≠ 500) :
    status = j.status ∧ ∃ m, bytes_out = some m := by
  unfold run at h
  split_ifs at h
  · exact absurd (Outcome.returned.inj h).1.symm hstatus
  · exact (deliver_returned h).resolve_left hstatus

/-- In a transfer that reports a count, writes that are whole whenever they return one. -/
theorem ret_of_whole (hw : j.env.Whole) {k : ℕ} (hp : j.Passes k) :
    j.ret k = j.piece k ∧ j.landed k = j.piece k := by
  have hret := hp.1
  unfold ret landed at *
  cases hrd : j.env.rdma k (j.piece k) with
  | throws => simp [hrd] at hret
  | returned r l =>
    simp only [hrd] at hret ⊢
    exact hw k _ r l hrd hret

/-- No write reaches an address outside of the window. -/
theorem byteAt_outside {k addr : ℕ} (hk : k < j.count) (haddr : addr < 2^64)
    (hl : j.landed k ≤ j.piece k)
    (hout : ∀ p, p < j.length → addr ≠ (j.remote_base + p) % 2^64) :
    (j.writeAt k).byteAt addr = none := by
  have hk' := (lt_pieceCount_iff j.chunk_pos).mp hk
  obtain ⟨-, -, hend⟩ := piece_le hk'
  have hw := j.window_lt
  have hb := j.base_lt
  unfold Write.byteAt writeAt write
  dsimp only
  rw [if_neg]
  intro hlt
  -- The distance from the start of the piece would be a position of the window.
  refine hout (k * j.cfg.chunk_size + sub64 addr ((j.remote_base + k * j.cfg.chunk_size) % 2^64))
    (by omega) ?_
  unfold sub64
  omega

/-- With whole writes, a transfer that reports a count reports the length of the window, and has
put the window into the client's memory and nothing else. -/
theorem run_landed (hw : j.env.Whole) {status : ℕ} {m : ℤ}
    (h : j.run.1 = .returned status (some m)) :
    m = j.length ∧ Landed j.file j.offset j.remote_base j.length j.run.2 := by
  obtain ⟨h0, hpass⟩ := passes_of_run h
  have hret := fun k (hk : k < j.count) => ret_of_whole hw (hpass k hk)
  have hland : ∀ k, k < j.count → j.landed k ≤ j.piece k := fun k hk => (hret k hk).2.le
  rw [run_of_passes h0 hpass] at h ⊢
  refine ⟨?_, fun p hp => ?_, fun addr haddr hout => ?_⟩
  · have hsum : ∑ k ∈ Finset.range j.count, j.ret k = j.length := by
      have hall := (sum_pieceAt j.cfg.chunk_size j.length j.count).trans j.min_count_mul
      rw [Finset.sum_congr rfl fun k hk => (hret k (Finset.mem_range.mp hk)).1, ← Nat.cast_sum]
      exact congrArg Nat.cast hall
    simp only [Outcome.returned.injEq, Option.some.injEq] at h
    rw [← h.2, hsum]
  · obtain ⟨b, hb⟩ := exists_byte_of_passes h0 hpass hp
    refine ⟨b, by rwa [File.slice_getElem? hp] at hb, ?_⟩
    -- The piece of the position is whole, so the position has landed.
    have hc := j.chunk_pos
    have hpq := Nat.div_add_mod p j.cfg.chunk_size
    have hd := Nat.mod_lt p hc
    rw [Nat.mul_comm] at hpq
    have hq : p / j.cfg.chunk_size < j.count := (lt_pieceCount_iff hc).mpr (by omega)
    have hin : p % j.cfg.chunk_size < j.landed (p / j.cfg.chunk_size) := by
      rw [(hret _ hq).2]
      unfold piece pieceAt
      omega
    rw [landedAt_run hland hp, if_pos hin, hb]
  · unfold landedAt
    rw [List.findSome?_eq_none_iff]
    intro w hw
    obtain ⟨k, hk, rfl⟩ := List.mem_map.mp (List.mem_reverse.mp hw)
    exact byteAt_outside (List.mem_range.mp hk) haddr (hland k (List.mem_range.mp hk)) hout

end Job

/-- The statuses of a GET that is refused or fails. -/
theorem handleGet_status {cfg : Config} {fd : Option FdEntry} {range_hdr rdma_token_b64 : Bytes}
    {slot : Staging} {env : Env} {status : ℕ} {bytes_out : Option ℤ}
    (h : (handleGet cfg fd range_hdr rdma_token_b64 slot env).1 = .returned status bytes_out)
    (hstatus : status = 200 ∨ status = 206) :
    ∃ (e : FdEntry) (offset length : ℕ) (is_range : Bool) (hc : 0 < cfg.chunk_size)
      (hw : requestWindow range_hdr e.size = some (offset, length, is_range)),
      fd = some e ∧ remoteBase rdma_token_b64 ≠ 0 ∧ ∃ m, bytes_out = some m ∧
        (Job.ofRequest cfg e rdma_token_b64 env hc hw).run.1 = .returned status (some m) := by
  have hne : status ≠ 404 ∧ status ≠ 416 ∧ status ≠ 500 := by
    rcases hstatus with rfl | rfl <;> decide
  cases fd with
  | none => exact absurd (Outcome.returned.inj h).1.symm hne.1
  | some e =>
    cases hw : requestWindow range_hdr e.size with
    | none =>
      simp only [handleGet, hw] at h
      exact absurd (Outcome.returned.inj h).1.symm hne.2.1
    | some w =>
      obtain ⟨offset, length, is_range⟩ := w
      by_cases hb : remoteBase rdma_token_b64 = 0
      · simp only [handleGet, hw, show parseRdmaRemoteAddr (rdmaDescr rdma_token_b64) = 0 from hb,
          if_true] at h
        exact absurd (Outcome.returned.inj h).1.symm hne.2.2
      · by_cases hc : cfg.chunk_size = 0
        · simp only [handleGet, hw, if_neg (show ¬ parseRdmaRemoteAddr (rdmaDescr rdma_token_b64) = 0
            from hb), transfer, if_pos hc] at h
          exact absurd (Outcome.returned.inj h).1.symm hne.2.2
        · obtain ⟨hrun, -⟩ := handleGet_writes cfg e slot env (Nat.pos_of_ne_zero hc) hw hb
          rw [hrun] at h
          obtain ⟨-, m, rfl⟩ := Job.run_returned h hne.2.2
          exact ⟨e, offset, length, is_range, Nat.pos_of_ne_zero hc, hw, rfl, hb, m, rfl, h⟩

/-- With whole writes, a GET that answers with 200 or 206 reports the length of its window, and has
put the window into the client's memory and nothing else. -/
theorem handleGet_landed {cfg : Config} {fd : Option FdEntry} {range_hdr rdma_token_b64 : Bytes}
    {slot : Staging} {env : Env} {status : ℕ} {bytes_out : Option ℤ} (hw : env.Whole)
    (h : (handleGet cfg fd range_hdr rdma_token_b64 slot env).1 = .returned status bytes_out)
    (hstatus : status = 200 ∨ status = 206) :
    ∃ e offset length is_range, fd = some e ∧
      requestWindow range_hdr e.size = some (offset, length, is_range) ∧
      bytes_out = some (length : ℤ) ∧
      Landed e.file offset (remoteBase rdma_token_b64) length
        (writesOf (handleGet cfg fd range_hdr rdma_token_b64 slot env).2) := by
  obtain ⟨e, offset, length, is_range, hc, hwin, rfl, hb, m, rfl, hrun⟩ := handleGet_status h hstatus
  obtain ⟨hm, hlanded⟩ := Job.run_landed
    (j := .ofRequest cfg e rdma_token_b64 env hc hwin) hw hrun
  obtain ⟨-, hwrites⟩ := handleGet_writes cfg e slot env hc hwin hb
  refine ⟨e, offset, length, is_range, rfl, hwin, congrArg some hm, ?_⟩
  rw [hwrites]
  exact hlanded

end S3Rdma.Server
