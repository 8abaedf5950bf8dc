import S3Rdma.Server.Deliver

/-!
# The return of the slot

`handle_get` takes a slot when the request's window and address are known, and gives it back by hand
at each of its returns. Nothing gives it back when an exception leaves the function: the
construction of the thread for a chunk that is not the last may throw, and so may `handleGetObject`
for the last chunk, which runs on the request's own thread. cpp-httplib catches the exception and
the server goes on, with one slot less.

A pass of the loop gives the slot back exactly if it returns (`loopBody_slot`), and so does a whole
request (`transfer_slot`). Which requests end with an exception is known from the transfer without
buffers (`Job.deliver_threw_iff`).
-/

namespace S3Rdma.Server

/-- The call returned. -/
def Outcome.isReturned : Outcome → Bool
  | .returned _ _ => true
  | _ => false

/-- The slot is taken or given back. -/
def Ev.isSlot : Ev → Bool
  | .acquire => true
  | .release => true
  | _ => false

/-- What a request does with its slot. -/
def slotEvents (evs : List Ev) : List Ev := evs.filter Ev.isSlot

/-- The slot is given back at a return. -/
def releaseOf (o : Outcome) : List Ev := if o.isReturned then [.release] else []

/-! ## The events of a request -/

/-- What is done with the slot in two parts of a request. -/
theorem slotEvents_append (xs ys : List Ev) :
    slotEvents (xs ++ ys) = slotEvents xs ++ slotEvents ys := List.filter_append ..

/-- `pread_full` does nothing with the slot. -/
theorem slotEvents_preadFull (f : File) (buf : Bool) (count off : ℕ) (outs : List PreadOutcome)
    (st : Staging) : slotEvents (preadFull f buf count off outs 0 st).events = [] := by
  have hspec := preadFull_spec f buf count off outs 0 st (Nat.zero_le _)
    fun i hi => absurd hi (Nat.not_lt_zero i)
  unfold slotEvents
  rw [List.filter_eq_nil_iff]
  intro ev hev
  obtain ⟨dst, got, -, rfl⟩ := hspec.inside _ hev
  exact Bool.false_ne_true

/-- A pass of the loop gives the slot back exactly if it returns. -/
theorem loopBody_slot {cfg : Config} {f : File} {env : Env} {k : ℕ} {s : LoopState}
    {r : (Outcome ⊕ LoopState) × List Ev} (h : loopBody cfg f env k s = r) :
    slotEvents r.2 = r.1.elim releaseOf fun _ => [] := by
  unfold loopBody at h
  dsimp only at h
  generalize planChunk (add64 s.file_off s.cur_c.piece) (sub64 s.remaining s.cur_c.piece)
    cfg.chunk_size cfg.direct_io = c at h
  have hpread := slotEvents_preadFull f (!s.cur) c.read_len c.read_off (env.preads (k + 1)) s.staging
  generalize preadFull f (!s.cur) c.read_len c.read_off (env.preads (k + 1)) 0 s.staging = pr
    at h hpread
  unfold slotEvents at hpread ⊢
  cases hrd : env.rdma k s.cur_c.piece with
  | throws =>
    simp only [hrd] at h
    split_ifs at h <;> subst h <;> simp [hpread, Ev.isSlot, releaseOf, Outcome.isReturned]
  | returned rdma_n landed =>
    simp only [hrd] at h
    split_ifs at h <;> subst h <;> simp [hpread, Ev.isSlot, releaseOf, Outcome.isReturned]

/-- The ping-pong loop gives the slot back exactly if it returns. -/
theorem pingPong_slot (cfg : Config) (f : File) (env : Env) (is_range : Bool) (fuel k : ℕ)
    (s : LoopState) :
    slotEvents (pingPong cfg f env is_range fuel k s).2 =
      releaseOf (pingPong cfg f env is_range fuel k s).1 := by
  induction fuel generalizing k s with
  | zero => rfl
  | succ fuel ih =>
    unfold pingPong
    by_cases hdone : s.remaining = 0
    · rw [if_pos hdone]
      rfl
    · rw [if_neg hdone]
      have hbody := loopBody_slot (r := loopBody cfg f env k s) rfl
      generalize loopBody cfg f env k s = r at hbody
      obtain ⟨o | s', evs⟩ := r
      · exact hbody
      · rw [andThen_inr, slotEvents_append, hbody, ih]
        rfl

/-- A transfer gives the slot back exactly if it returns. -/
theorem transfer_slot (cfg : Config) (f : File) (env : Env) (slot : Staging) (offset length : ℕ)
    (is_range : Bool) (remote_base : ℕ) :
    slotEvents (transfer cfg f env slot offset length is_range remote_base).2 =
      releaseOf (transfer cfg f env slot offset length is_range remote_base).1 := by
  unfold transfer
  by_cases hc : cfg.chunk_size = 0
  · rw [if_pos hc]
    rfl
  · rw [if_neg hc]
    dsimp only
    generalize planChunk offset length cfg.chunk_size cfg.direct_io = c
    have hpread := slotEvents_preadFull f false c.read_len c.read_off (env.preads 0) slot
    generalize preadFull f false c.read_len c.read_off (env.preads 0) 0 slot = pr at hpread
    have hevs : slotEvents (pr.events ++ [.loaded false c.read_off pr.result]) = [] := by
      rw [slotEvents_append, hpread]
      rfl
    split_ifs
    · rw [slotEvents_append, hevs]
      rfl
    · rw [slotEvents_append, hevs, List.nil_append]
      exact pingPong_slot ..

/-! ## Exceptions -/

namespace Job

variable (j : Job)

/-- The pass for the `k`-th piece, which is not the last, goes on to the next: its thread starts,
its write succeeds, and the next piece is read. -/
def GoesOn (k : ℕ) : Prop :=
  j.env.spawns k = true ∧ (∃ ret landed, j.env.rdma k (j.piece k) = .returned ret landed ∧ 0 ≤ ret) ∧
    j.readOk (k + 1) = true

/-- An exception leaves the pass for the `k`-th piece, the last of `n` from there on or not. -/
def ThrowsAt (n k : ℕ) : Prop :=
  n ≠ 0 ∧ j.env.spawns k = false ∨ n = 0 ∧ j.env.rdma k (j.piece k) = .throws

/-- An exception leaves the transfer: the first piece is read, and the passes go on until the thread
of one cannot be started, or `handleGetObject` throws in the last. -/
def Throws : Prop :=
  j.readOk 0 = true ∧ ∃ i, i < j.count ∧ (∀ m, m < i → j.GoesOn m) ∧ j.ThrowsAt (j.count - i - 1) i

/-- An exception leaves the last `n` pieces exactly if the passes go on to one that it leaves. -/
theorem deliver_threw_iff (n k : ℕ) (total : ℤ) :
    (j.deliver n k total).1 = .threw ↔
      ∃ i, i < n ∧ (∀ m, m < i → j.GoesOn (k + m)) ∧ j.ThrowsAt (n - i - 1) (k + i) := by
  induction n generalizing k total with
  | zero => simp [deliver]
  | succ n ih =>
    -- Either the first pass throws, or it goes on and a later one does.
    have hsplit : (∃ i, i < n + 1 ∧ (∀ m, m < i → j.GoesOn (k + m)) ∧
        j.ThrowsAt (n + 1 - i - 1) (k + i)) ↔
        j.ThrowsAt n k ∨ j.GoesOn k ∧ ∃ i, i < n ∧ (∀ m, m < i → j.GoesOn (k + 1 + m)) ∧
          j.ThrowsAt (n - i - 1) (k + 1 + i) := by
      constructor
      · rintro ⟨i, hi, hgo, hthrow⟩
        cases i with
        | zero => exact .inl hthrow
        | succ i =>
          refine .inr ⟨hgo 0 (Nat.succ_pos i), i, by omega, fun m hm => ?_, ?_⟩
          · rw [Nat.add_right_comm]
            exact hgo (m + 1) (by omega)
          · rw [Nat.add_right_comm, show n - i - 1 = n + 1 - (i + 1) - 1 by omega]
            exact hthrow
      · rintro (hthrow | ⟨hgo, i, hi, hgo', hthrow⟩)
        · exact ⟨0, Nat.succ_pos n, by simp, hthrow⟩
        · refine ⟨i + 1, by omega, fun m hm => ?_, ?_⟩
          · cases m with
            | zero => exact hgo
            | succ m =>
              rw [← Nat.add_assoc, Nat.add_right_comm]
              exact hgo' m (by omega)
          · rw [← Nat.add_assoc, Nat.add_right_comm, show n + 1 - (i + 1) - 1 = n - i - 1 by omega]
            exact hthrow
    rw [hsplit]
    unfold deliver
    by_cases hn : n = 0
    · -- The last pass runs on the request's own thread.
      subst hn
      cases hrd : j.env.rdma k (j.piece k) with
      | throws => simp [ThrowsAt, hrd]
      | returned ret landed =>
        by_cases hneg : ret < 0
        · simp [ThrowsAt, hrd, hneg]
        · simp [ThrowsAt, hrd, hneg, deliver]
    · cases hsp : j.env.spawns k with
      | false => simp [ThrowsAt, hsp, hn]
      | true =>
        cases hrd : j.env.rdma k (j.piece k) with
        | throws => simp [ThrowsAt, GoesOn, hsp, hrd, hn]
        | returned ret landed =>
          by_cases hneg : ret < 0
          · simp [ThrowsAt, GoesOn, hsp, hrd, hn, hneg]
          · cases hok : j.readOk (k + 1) with
            | false => simp [ThrowsAt, GoesOn, hsp, hrd, hn, hneg, hok]
            | true => simp [ThrowsAt, GoesOn, hsp, hrd, hn, hneg, hok, ih, not_lt.mp hneg]

/-- An exception leaves the transfer exactly when `Throws` says so. -/
theorem run_threw_iff : j.run.1 = .threw ↔ j.Throws := by
  have hdeliver := j.deliver_threw_iff j.count 0 0
  simp only [Nat.zero_add] at hdeliver
  unfold run Throws
  cases j.readOk 0 with
  | false => simp
  | true => simpa using hdeliver

/-- The loop is never out of fuel. -/
theorem deliver_ne_outOfFuel (n k : ℕ) (total : ℤ) : (j.deliver n k total).1 ≠ .outOfFuel := by
  induction n generalizing k total with
  | zero => simp [deliver]
  | succ n ih =>
    unfold deliver
    by_cases hsp : n ≠ 0 ∧ j.env.spawns k = false
    · rw [if_pos hsp]
      simp
    · rw [if_neg hsp]
      cases j.env.rdma k (j.piece k) with
      | throws =>
        dsimp only
        split_ifs <;> simp
      | returned ret landed =>
        dsimp only
        split_ifs
        · simp
        · simp
        · exact ih _ _

/-- A transfer is never out of fuel. -/
theorem run_ne_outOfFuel : j.run.1 ≠ .outOfFuel := by
  unfold run
  split_ifs
  · simp
  · exact j.deliver_ne_outOfFuel _ _ _

end Job

/-! ## Requests -/

/-- A request: what `get_fd` returned for it, its headers, the contents of its slot and what the
system does during it. -/
structure Request where
  fd : Option FdEntry
  range_hdr : Bytes
  rdma_token_b64 : Bytes
  slot : Staging
  env : Env

/-- `handle_get` on a request. -/
def Request.handle (q : Request) (cfg : Config) : Outcome × List Ev :=
  handleGet cfg q.fd q.range_hdr q.rdma_token_b64 q.slot q.env

/-- An exception leaves the transfer that a request asks for. -/
def Request.Throws (q : Request) (cfg : Config) : Prop :=
  ∃ (e : FdEntry) (offset length : ℕ) (is_range : Bool) (hc : 0 < cfg.chunk_size)
    (hw : requestWindow q.range_hdr e.size = some (offset, length, is_range)),
    q.fd = some e ∧ remoteBase q.rdma_token_b64 ≠ 0 ∧
      (Job.ofRequest cfg e q.rdma_token_b64 q.env hc hw).Throws

/-- The slot that was taken, if any, was given back, once and afterwards. -/
def SlotReturned (evs : List Ev) : Prop :=
  slotEvents evs = [] ∨ slotEvents evs = [.acquire, .release]

/-- The number of usable slots after some requests, one after the other. -/
def usableAfter (cfg : Config) (reqs : List Request) (n : ℤ) : ℤ :=
  reqs.foldl (fun n q =>
    n - (slotEvents (q.handle cfg).2).count .acquire + (slotEvents (q.handle cfg).2).count .release) n

section Requests

variable {cfg : Config} {q : Request}

/-- A request takes no slot and returns, or it takes one and gives it back exactly if it returns. -/
theorem handleGet_slot (cfg : Config) (fd : Option FdEntry) (range_hdr rdma_token_b64 : Bytes)
    (slot : Staging) (env : Env) :
    let r := handleGet cfg fd range_hdr rdma_token_b64 slot env
    slotEvents r.2 = [] ∧ r.1.isReturned = true ∨ slotEvents r.2 = .acquire :: releaseOf r.1 := by
  unfold handleGet
  cases fd with
  | none => exact .inl ⟨rfl, rfl⟩
  | some e =>
    dsimp only
    cases requestWindow range_hdr e.size with
    | none => exact .inl ⟨rfl, rfl⟩
    | some w =>
      dsimp only
      split_ifs
      · exact .inl ⟨rfl, rfl⟩
      · refine .inr ?_
        rw [← transfer_slot]
        rfl

/-- A request is refused, or it ends as the transfer that it asks for. -/
theorem Request.handle_cases (q : Request) (cfg : Config) :
    (q.handle cfg).1.isReturned = true ∨
      ∃ (e : FdEntry) (offset length : ℕ) (is_range : Bool) (hc : 0 < cfg.chunk_size)
        (hw : requestWindow q.range_hdr e.size = some (offset, length, is_range)),
        q.fd = some e ∧ remoteBase q.rdma_token_b64 ≠ 0 ∧
          (q.handle cfg).1 = (Job.ofRequest cfg e q.rdma_token_b64 q.env hc hw).run.1 := by
  obtain ⟨fd, range_hdr, rdma_token_b64, slot, env⟩ := q
  cases fd with
  -- Every check in front of the transfer answers by itself.
  | none => exact .inl rfl
  | some e =>
    cases hw : requestWindow range_hdr e.size with
    | none =>
      left
      simp only [Request.handle, handleGet, hw]
      rfl
    | some w =>
      obtain ⟨offset, length, is_range⟩ := w
      by_cases hb : remoteBase rdma_token_b64 = 0
      · left
        have hb' : parseRdmaRemoteAddr (rdmaDescr rdma_token_b64) = 0 := hb
        simp only [Request.handle, handleGet, hw, hb', if_true]
        rfl
      · by_cases hc : 0 < cfg.chunk_size
        · exact .inr ⟨e, offset, length, is_range, hc, hw, rfl, hb,
            (handleGet_writes cfg e slot env hc hw hb).1⟩
        · left
          have hb' : parseRdmaRemoteAddr (rdmaDescr rdma_token_b64) ≠ 0 := hb
          simp only [Request.handle, handleGet, hw, hb', if_false, transfer,
            Nat.eq_zero_of_not_pos hc, if_true]
          rfl

/-- An exception leaves a request exactly if it leaves the transfer that the request asks for. -/
theorem Request.threw_iff : (q.handle cfg).1 = .threw ↔ q.Throws cfg := by
  constructor
  · intro h
    rcases q.handle_cases cfg with hret | ⟨e, offset, length, is_range, hc, hw, hfd, hb, hrun⟩
    · rw [h] at hret
      exact absurd hret Bool.false_ne_true
    · exact ⟨e, offset, length, is_range, hc, hw, hfd, hb, (Job.run_threw_iff _).mp (hrun.symm.trans h)⟩
  · rintro ⟨e, offset, length, is_range, hc, hw, hfd, hb, h⟩
    unfold Request.handle
    rw [hfd, (handleGet_writes cfg e q.slot q.env hc hw hb).1]
    exact (Job.run_threw_iff _).mpr h

/-- A request is never out of fuel. -/
theorem Request.ne_outOfFuel : (q.handle cfg).1 ≠ .outOfFuel := by
  rcases q.handle_cases cfg with hret | ⟨e, offset, length, is_range, hc, hw, -, -, hrun⟩
  · intro h
    rw [h] at hret
    exact absurd hret Bool.false_ne_true
  · rw [hrun]
    exact Job.run_ne_outOfFuel _

/-- What a request that did not end the process does with its slot: the slot is given back, or an
exception leaves the request and it is not. -/
theorem Request.handle_slot (hend : (q.handle cfg).1 ≠ .terminated) :
    SlotReturned (q.handle cfg).2 ∧ ¬ q.Throws cfg ∨
      slotEvents (q.handle cfg).2 = [.acquire] ∧ q.Throws cfg := by
  rw [← Request.threw_iff]
  have hslot := handleGet_slot cfg q.fd q.range_hdr q.rdma_token_b64 q.slot q.env
  change (slotEvents (q.handle cfg).2 = [] ∧ (q.handle cfg).1.isReturned = true) ∨
    slotEvents (q.handle cfg).2 = .acquire :: releaseOf (q.handle cfg).1 at hslot
  unfold SlotReturned
  cases hout : (q.handle cfg).1 with
  | returned status bytes_out =>
    rw [hout] at hslot
    exact .inl ⟨hslot.imp And.left id, by simp⟩
  | threw =>
    rw [hout] at hslot
    exact .inr ⟨hslot.resolve_left fun h => Bool.false_ne_true h.2, rfl⟩
  | terminated => exact absurd hout hend
  | outOfFuel => exact absurd hout Request.ne_outOfFuel

/-- A request takes one usable slot away if it throws, and none otherwise. -/
theorem usableAfter_cons (reqs : List Request) (n : ℤ) (hend : (q.handle cfg).1 ≠ .terminated) :
    (q.Throws cfg → usableAfter cfg (q :: reqs) n = usableAfter cfg reqs (n - 1)) ∧
      (¬ q.Throws cfg → usableAfter cfg (q :: reqs) n = usableAfter cfg reqs n) := by
  have hcons : usableAfter cfg (q :: reqs) n = usableAfter cfg reqs
      (n - (slotEvents (q.handle cfg).2).count .acquire +
        (slotEvents (q.handle cfg).2).count .release) := rfl
  rw [hcons]
  rcases Request.handle_slot hend with ⟨hret | hret, hno⟩ | ⟨hlost, hthrow⟩
  · refine ⟨fun h => absurd h hno, fun _ => ?_⟩
    simp [hret]
  · refine ⟨fun h => absurd h hno, fun _ => ?_⟩
    simp [hret]
  · refine ⟨fun _ => ?_, fun h => absurd hthrow h⟩
    simp [hlost]

/-- Requests never add to the usable slots, and as many are lost as requests are left by an
exception. -/
theorem usableAfter_le {reqs : List Request} (hend : ∀ q ∈ reqs, (q.handle cfg).1 ≠ .terminated)
    (n : ℤ) : usableAfter cfg reqs n ≤ n ∧
      (n ≤ usableAfter cfg reqs n ↔ ∀ q ∈ reqs, ¬ q.Throws cfg) := by
  induction reqs generalizing n with
  | nil => simp [usableAfter]
  | cons q reqs ih =>
    obtain ⟨hlost, hkept⟩ := usableAfter_cons reqs n (hend q List.mem_cons_self)
    have ih := ih fun r hr => hend r (List.mem_cons_of_mem _ hr)
    by_cases hthrow : q.Throws cfg
    · obtain ⟨hle, -⟩ := ih (n - 1)
      rw [hlost hthrow]
      refine ⟨by omega, fun h => by omega, fun h => absurd hthrow (h q List.mem_cons_self)⟩
    · obtain ⟨hle, hiff⟩ := ih n
      rw [hkept hthrow, List.forall_mem_cons]
      exact ⟨hle, by rw [hiff]; simp [hthrow]⟩

end Requests

/-- For requests that have all ended, by a return or by an exception, one after the other: each has
given back the slot it took, once, and no slot is lost, exactly if no exception has left one of the
transfers. -/
theorem handleGet_returns_slot_iff (cfg : Config) (reqs : List Request)
    (hend : ∀ q ∈ reqs, (q.handle cfg).1 ≠ .terminated) (n : ℤ) :
    ((∀ q ∈ reqs, SlotReturned (q.handle cfg).2) ∧ n ≤ usableAfter cfg reqs n) ↔
      ∀ q ∈ reqs, ¬ q.Throws cfg := by
  rw [(usableAfter_le hend n).2]
  refine ⟨And.right, fun h => ⟨fun q hq => ?_, h⟩⟩
  exact ((Request.handle_slot (hend q hq)).resolve_right fun hlost => h q hq hlost.2).1

/-- A GET of three bytes, where every call succeeds but, perhaps, the construction of threads. -/
def threeBytesGet (spawns : Bool) : Request where
  fd := some ⟨threeBytesFile, 3, threeBytesFile.size_lt⟩
  range_hdr := []
  rdma_token_b64 := ascii "1000:0"
  slot _ _ := 0
  env :=
    { preads := fun _ => []
      spawns := fun _ => spawns
      rdma := fun _ piece => .returned piece piece
      fetch := fun _ _ => 0 }

/-- With threads, in chunks of two bytes, the GET of three bytes gives its slot back. -/
theorem handleGet_returns_slot_three_bytes :
    ((threeBytesGet true).handle ⟨2, false⟩).1 = .returned 200 (some 3) ∧
      SlotReturned ((threeBytesGet true).handle ⟨2, false⟩).2 ∧
      1 ≤ usableAfter ⟨2, false⟩ [threeBytesGet true] 1 := by
  have hout : ((threeBytesGet true).handle ⟨2, false⟩).1 = .returned 200 (some 3) := by decide +kernel
  have hend : ∀ q ∈ [threeBytesGet true], (q.handle ⟨2, false⟩).1 ≠ .terminated := by
    simp [hout]
  have hno : ∀ q ∈ [threeBytesGet true], ¬ q.Throws ⟨2, false⟩ := by
    simp [← Request.threw_iff, hout]
  obtain ⟨hret, husable⟩ := (handleGet_returns_slot_iff ⟨2, false⟩ [threeBytesGet true] hend 1).mpr hno
  exact ⟨hout, hret _ List.mem_cons_self, husable⟩

/-- When the thread for its first chunk cannot be constructed, an exception leaves it, and the slot
it took is never given back: of one usable slot, none is left. -/
theorem handleGet_loses_slot :
    ((threeBytesGet false).handle ⟨2, false⟩).1 = .threw ∧
      slotEvents ((threeBytesGet false).handle ⟨2, false⟩).2 = [.acquire] ∧
      usableAfter ⟨2, false⟩ [threeBytesGet false] 1 = 0 := by
  decide +kernel

end S3Rdma.Server
