import S3Rdma.Server.Safety
import S3Rdma.Server.SlotPool
import S3Rdma.Server.SlotReturn
import S3Rdma.Server.Steps

/-!
# Many requests at a time

`S3Server::run` of `src/server/s3_server.cpp` gives each request to a thread of the HTTP server's
pool, which has `min(max_concurrency, 256)` of them. The threads share the slots: each takes one with
`acquire_slot`, uses its two buffers access by access, and gives it back. A step of the system is one
section under the lock of the slot pool, or one access of one request to a buffer, so a run is any
interleaving of these.

Two requests never hold one slot (`Pool.Inv`), so no access of another request changes what the rest
of a request will give: it is what the request gives alone, whatever its slot has held before
(`AsAlone`). A slot is lost when an exception leaves the handler. As there are no more threads than
slots, a thread waits for a slot only after one was lost (`serving_waits_for_lost`), and when none
is, every run comes to an end with all requests answered (`serving_completes`).
-/

namespace S3Rdma.Server

/-- A request that has come in: what `get_fd` returns for it, its headers, and what the system does
during it. -/
structure GetCall where
  fd : Option FdEntry
  range_hdr : Bytes
  rdma_token_b64 : Bytes
  env : Env

namespace GetCall

/-- The request alone, on a slot with some contents. -/
def handle (q : GetCall) (cfg : Config) (slot : Staging) : Outcome × List Ev :=
  handleGet cfg q.fd q.range_hdr q.rdma_token_b64 slot q.env

/-- `handle_get` in steps: it is answered without a slot, or has something to do with one. -/
def steps (q : GetCall) (cfg : Config) :
    (Outcome × List Ev) ⊕ Prog Staging (Outcome × List Ev) :=
  match q.fd with
  | none => .inl (.returned 404 none, [])
  | some e =>
    match requestWindow q.range_hdr e.size with
    | none => .inl (.returned 416 none, [])
    | some (offset, length, is_range) =>
      let remote_base := parseRdmaRemoteAddr (rdmaDescr q.rdma_token_b64)
      if remote_base = 0 then .inl (.returned 500 none, [])
      else .inr do
        let r ← transferSteps cfg e.file q.env offset length is_range remote_base
        pure (r.1, .acquire :: r.2)

/-- The request is not answered without a slot. -/
def NeedsSlot (q : GetCall) (cfg : Config) : Prop := ∃ p, q.steps cfg = .inr p

end GetCall

/-- Where a request is. -/
inductive Work where
  /-- No thread has taken the request yet. -/
  | queued
  /-- In `handle_get`, before `acquire_slot`. -/
  | entered
  | acquiring
  /-- The request has a slot, and this is left to do with it. -/
  | running (p : Prog Staging (Outcome × List Ev))
  /-- In `release_slot`. -/
  | releasing (r : Outcome × List Ev)
  /-- The request has returned or thrown, and its thread is free. -/
  | done (r : Outcome × List Ev)
  /-- `acquire_slot` has thrown. -/
  | failed

/-- The request occupies a thread. -/
def Work.isActive : Work → Bool
  | .entered | .acquiring | .running _ | .releasing _ => true
  | _ => false

/-- What a request does next. -/
inductive Act where
  /-- A thread takes the request. -/
  | start
  /-- The request is answered without a slot. -/
  | refuse
  /-- The thread of the request moves in `acquire_slot` or `release_slot`. -/
  | move (m : Move)
  /-- The request, or its RDMA write, accesses a buffer. -/
  | access
  /-- An exception leaves the handler, or the thread of its RDMA write. -/
  | unwind

/-- The server: the slot pool, with a thread for each request, the contents of the slots, and where
the requests are. -/
structure Serving where
  pool : Pool
  mem : ℕ → Staging
  work : ℕ → Work
  /-- The process has not been ended by an exception. -/
  up : Bool := true

namespace Serving

/-- The request is at a new place. -/
def put (s : Serving) (i : ℕ) (w : Work) : Serving := { s with work := Function.update s.work i w }

/-- How many of the first `n` requests occupy a thread. -/
def active (s : Serving) (n : ℕ) : ℕ :=
  ((Finset.range n).filter fun i => (s.work i).isActive = true).card

end Serving

/-- The size of the HTTP server's thread pool. -/
def workers (max_concurrency : ℕ) : ℕ := min max_concurrency 256

/-- A thread that has got a slot runs, any other is still in `acquire_slot`. -/
def Work.acquired (p : Prog Staging (Outcome × List Ev)) : Option Phase → Work
  | some (.holding _) => .running p
  | _ => .acquiring

/-- Where a request is after a move of its thread, which is in a given phase then. `p` is what the
request does with a slot. -/
def Work.turn (p : Prog Staging (Outcome × List Ev)) (phase : Option Phase) :
    Work → Move → Option Work
  | .entered, .acquire => some (acquired p phase)
  | .acquiring, .created => some (acquired p phase)
  | .acquiring, .spurious => some (acquired p phase)
  | .acquiring, .test => some (acquired p phase)
  | .acquiring, .failed _ => some .failed
  | .running (.ret r), .release => if r.1.isReturned then some (.releasing r) else none
  | .releasing r, .notify _ => some (.done r)
  | _, _ => none

/-- One step of the `i`-th of `n` requests, if it is possible. -/
def Serving.stepOf (cfg : Config) (max_concurrency n : ℕ) (s : Serving) (i : ℕ) (q : GetCall) :
    Act → Option Serving
  | .start =>
    match s.work i with
    | .queued => if s.active n < workers max_concurrency then some (s.put i .entered) else none
    | _ => none
  | .refuse =>
    match s.work i, q.steps cfg with
    | .entered, .inl r => some (s.put i (.done r))
    | _, _ => none
  | .move m =>
    match s.pool.step max_concurrency (i, m), q.steps cfg with
    | some pool, .inr p =>
      ((s.work i).turn p pool.threads[i]? m).map fun w => { s.put i w with pool }
    | _, _ => none
  | .access =>
    match s.work i, s.pool.threads[i]? with
    | .running (.act f k), some (.holding slot) =>
      some { s.put i (.running (k (s.mem slot))) with
        mem := Function.update s.mem slot (f (s.mem slot)) }
    | _, _ => none
  | .unwind =>
    match s.work i with
    | .running (.ret r) =>
      match r.1 with
      | .threw => some (s.put i (.done r))
      -- An exception that leaves the thread of an RDMA write ends the process.
      | .terminated => some { s.put i (.done r) with up := false }
      | _ => none
    | _ => none

/-- One step of the server, if it is possible. -/
def Serving.step (cfg : Config) (max_concurrency : ℕ) (calls : List GetCall) (s : Serving)
    (a : ℕ × Act) : Option Serving :=
  match s.up, calls[a.1]? with
  | true, some q => s.stepOf cfg max_concurrency calls.length a.1 q a.2
  | _, _ => none

/-- Some requests, and slots with any contents. -/
def Serving.initial (n : ℕ) (mem : ℕ → Staging) : Serving :=
  { pool := .initial n, mem, work := fun _ => .queued }

/-! ## A request alone -/

/-- What a request does in steps is what it does alone, on every slot. -/
theorem GetCall.steps_cases (q : GetCall) (cfg : Config) :
    (∃ r, q.steps cfg = .inl r ∧ r.1.isReturned = true ∧ ∀ slot, q.handle cfg slot = r) ∨
      ∃ p, q.steps cfg = .inr p ∧ ∀ slot slot', (p.run slot).1 = q.handle cfg slot' := by
  obtain ⟨fd, range_hdr, rdma_token_b64, env⟩ := q
  unfold GetCall.steps GetCall.handle handleGet
  cases fd with
  | none => exact .inl ⟨_, rfl, rfl, fun _ => rfl⟩
  | some e =>
    dsimp only
    cases hw : requestWindow range_hdr e.size with
    | none => exact .inl ⟨_, rfl, rfl, fun _ => rfl⟩
    | some w =>
      obtain ⟨offset, length, is_range⟩ := w
      dsimp only
      split_ifs with hb
      · exact .inl ⟨_, rfl, rfl, fun _ => rfl⟩
      · refine .inr ⟨_, rfl, fun slot slot' => ?_⟩
        -- The transfer does not depend on what the slot held before.
        have hindep : transfer cfg e.file env slot offset length is_range
            (parseRdmaRemoteAddr (rdmaDescr rdma_token_b64)) =
            transfer cfg e.file env slot' offset length is_range
              (parseRdmaRemoteAddr (rdmaDescr rdma_token_b64)) := by
          by_cases hc : cfg.chunk_size = 0
          · simp only [transfer, hc, if_true]
          · exact transfer_indep
              (.ofRequest cfg e rdma_token_b64 env (Nat.pos_of_ne_zero hc) hw) slot slot'
        simp only [Prog.bind_eq, Prog.pure_eq, Prog.run_bind, Prog.run_ret, transferSteps_run,
          hindep]

/-- What a request does alone does not depend on the contents of its slot. -/
theorem GetCall.handle_indep (q : GetCall) (cfg : Config) (slot slot' : Staging) :
    q.handle cfg slot = q.handle cfg slot' := by
  obtain ⟨r, -, -, halone⟩ | ⟨p, -, halone⟩ := q.steps_cases cfg
  · rw [halone, halone]
  · rw [← halone slot, halone slot slot']

/-! ## What a step does -/

/-- The phases of a thread before and after its move. -/
inductive PhaseTurn (max_concurrency : ℕ) (s : Pool) : Move → Phase → Phase → Prop where
  | take {slot : ℕ} : PhaseTurn max_concurrency s .acquire .idle (.holding slot)
  | grow : PhaseTurn max_concurrency s .acquire .idle .growing
  | wait (slots : s.free = []) (full : max_concurrency ≤ s.total) :
      PhaseTurn max_concurrency s .acquire .idle .waiting
  | create {slot : ℕ} : PhaseTurn max_concurrency s .created .growing (.holding slot)
  | fail {w : Option ℕ} : PhaseTurn max_concurrency s (.failed w) .growing .idle
  | give {slot : ℕ} : PhaseTurn max_concurrency s .release (.holding slot) .notifying
  | leave {w : Option ℕ} : PhaseTurn max_concurrency s (.notify w) .notifying .idle
  | wake : PhaseTurn max_concurrency s .spurious .waiting .woken
  | retake {slot : ℕ} : PhaseTurn max_concurrency s .test .woken (.holding slot)
  | rewait : PhaseTurn max_concurrency s .test .woken .waiting

/-- A thread that does not move itself is where it was, or was woken. -/
def Undisturbed (p p' : Option Phase) : Prop :=
  p' = p ∨ p = some .waiting ∧ p' = some .woken

/-- A move of thread `i` from phase `p` to `p'`. -/
structure Pool.Moved (s s' : Pool) (i : ℕ) (p p' : Phase) : Prop where
  before : s.threads[i]? = some p
  after : s'.threads[i]? = some p'
  length : s'.threads.length = s.threads.length
  others : ∀ j, j ≠ i → Undisturbed s.threads[j]? s'.threads[j]?

section Moves

variable {max_concurrency i : ℕ} {s t s' : Pool} {p p' : Phase} {m : Move}

/-- Only the thread that moves changes its phase. -/
theorem Pool.Moved.of_threads (hp : s.threads[i]? = some p) (ht : s'.threads = s.threads.set i p') :
    s.Moved s' i p p' where
  before := hp
  after := by
    obtain ⟨hi, -⟩ := List.getElem?_eq_some_iff.mp hp
    rw [ht, List.getElem?_set_self hi]
  length := by rw [ht, List.length_set]
  others := by
    intro j hj
    rw [ht, List.getElem?_set_ne hj.symm]
    exact .inl rfl

/-- A notification disturbs no thread but one that waits. -/
theorem Pool.Moved.notified {w : Option ℕ} (hm : s.Moved t i p p') (hp' : p' ≠ .waiting)
    (h : t.notifyOne w = some s') : s.Moved s' i p p' := by
  obtain rfl | ⟨j, hj, rfl⟩ := notifyOne_woken h
  · exact hm
  · have hji : j ≠ i := by
      rintro rfl
      exact hp' (Option.some.inj (hm.after.symm.trans hj))
    refine ⟨hm.before, ?_, (List.length_set ..).trans hm.length, fun l hl => ?_⟩
    · exact (List.getElem?_set_ne hji).trans hm.after
    · have hbefore := hm.others l hl
      by_cases hjl : j = l
      · subst hjl
        have hafter : (t.become j .woken).threads[j]? = some .woken :=
          List.getElem?_set_self (List.getElem?_eq_some_iff.mp hj).1
        rw [hj] at hbefore
        rw [hafter]
        rcases hbefore with heq | ⟨-, habs⟩
        · exact .inr ⟨heq.symm, rfl⟩
        · cases habs
      · have hkeep : (t.become j .woken).threads[l]? = t.threads[l]? := List.getElem?_set_ne hjl
        rw [hkeep]
        exact hbefore

/-- What a move of the pool does to the threads. -/
theorem Pool.step_moved (h : s.step max_concurrency (i, m) = some s') :
    ∃ p p', PhaseTurn max_concurrency s m p p' ∧ s.Moved s' i p p' := by
  unfold Pool.step at h
  dsimp only at h
  cases hp : s.threads[i]? with
  | none => simp [hp] at h
  | some p =>
    rw [hp] at h
    cases p <;> cases m <;> simp only [reduceCtorEq] at h
    case idle.acquire =>
      split at h
      case h_1 slot free hfree =>
        obtain rfl := Option.some.inj h
        exact ⟨_, _, .take, .of_threads hp rfl⟩
      case h_2 hfree =>
        split_ifs at h with hroom
        · obtain rfl := Option.some.inj h
          exact ⟨_, _, .grow, .of_threads hp rfl⟩
        · obtain rfl := Option.some.inj h
          exact ⟨_, _, .wait hfree (not_lt.mp hroom), .of_threads hp rfl⟩
    case growing.created =>
      obtain rfl := Option.some.inj h
      exact ⟨_, _, .create, .of_threads hp rfl⟩
    case growing.failed w =>
      exact ⟨_, _, .fail, (Pool.Moved.of_threads hp rfl).notified (by decide) h⟩
    case waiting.spurious =>
      obtain rfl := Option.some.inj h
      exact ⟨_, _, .wake, .of_threads hp rfl⟩
    case woken.test =>
      split at h
      case h_1 slot free hfree =>
        obtain rfl := Option.some.inj h
        exact ⟨_, _, .retake, .of_threads hp rfl⟩
      case h_2 hfree =>
        obtain rfl := Option.some.inj h
        exact ⟨_, _, .rewait, .of_threads hp rfl⟩
    case holding.release slot =>
      obtain rfl := Option.some.inj h
      exact ⟨_, _, .give, .of_threads hp rfl⟩
    case notifying.notify w =>
      exact ⟨_, _, .leave, (Pool.Moved.of_threads hp rfl).notified (by decide) h⟩

end Moves

/-- The phase of a request's thread and the place of the request, before and after a move. -/
inductive Turn (max_concurrency : ℕ) (s : Pool) (p : Prog Staging (Outcome × List Ev)) :
    Phase → Work → Phase → Work → Prop where
  | take {slot : ℕ} : Turn max_concurrency s p .idle .entered (.holding slot) (.running p)
  | grow : Turn max_concurrency s p .idle .entered .growing .acquiring
  | wait (slots : s.free = []) (full : max_concurrency ≤ s.total) :
      Turn max_concurrency s p .idle .entered .waiting .acquiring
  | create {slot : ℕ} : Turn max_concurrency s p .growing .acquiring (.holding slot) (.running p)
  | fail : Turn max_concurrency s p .growing .acquiring .idle .failed
  | wake : Turn max_concurrency s p .waiting .acquiring .woken .acquiring
  | retake {slot : ℕ} : Turn max_concurrency s p .woken .acquiring (.holding slot) (.running p)
  | rewait : Turn max_concurrency s p .woken .acquiring .waiting .acquiring
  | give {slot : ℕ} {r : Outcome × List Ev} (returned : r.1.isReturned = true) :
      Turn max_concurrency s p (.holding slot) (.running (.ret r)) .notifying (.releasing r)
  | leave {r : Outcome × List Ev} : Turn max_concurrency s p .notifying (.releasing r) .idle (.done r)

/-- What a step does. -/
inductive Serving.Change (cfg : Config) (max_concurrency : ℕ) (calls : List GetCall) (s : Serving) :
    ℕ × Act → Serving → Prop where
  | start {i : ℕ} {q : GetCall} (call : calls[i]? = some q) (work : s.work i = .queued)
      (room : s.active calls.length < workers max_concurrency) :
      Change cfg max_concurrency calls s (i, .start) (s.put i .entered)
  | refuse {i : ℕ} {q : GetCall} {r : Outcome × List Ev} (call : calls[i]? = some q)
      (work : s.work i = .entered) (steps : q.steps cfg = .inl r) :
      Change cfg max_concurrency calls s (i, .refuse) (s.put i (.done r))
  | move {i : ℕ} {q : GetCall} {p : Prog Staging (Outcome × List Ev)} {m : Move} {pool : Pool}
      {ph ph' : Phase} {w : Work} (call : calls[i]? = some q) (steps : q.steps cfg = .inr p)
      (step : s.pool.step max_concurrency (i, m) = some pool) (moved : s.pool.Moved pool i ph ph')
      (phase : PhaseTurn max_concurrency s.pool m ph ph')
      (turn : Turn max_concurrency s.pool p ph (s.work i) ph' w) :
      Change cfg max_concurrency calls s (i, .move m) { s.put i w with pool }
  | access {i slot : ℕ} {q : GetCall} {f : Staging → Staging}
      {k : Staging → Prog Staging (Outcome × List Ev)} (call : calls[i]? = some q)
      (work : s.work i = .running (.act f k)) (phase : s.pool.threads[i]? = some (.holding slot)) :
      Change cfg max_concurrency calls s (i, .access) { s.put i (.running (k (s.mem slot))) with
        mem := Function.update s.mem slot (f (s.mem slot)) }
  | throw {i : ℕ} {q : GetCall} {r : Outcome × List Ev} {up : Bool} (call : calls[i]? = some q)
      (work : s.work i = .running (.ret r)) (thrown : r.1 = .threw ∨ r.1 = .terminated) :
      Change cfg max_concurrency calls s (i, .unwind) { s.put i (.done r) with up }

section Changes

variable {cfg : Config} {max_concurrency : ℕ} {calls : List GetCall} {s s' : Serving}

/-- A move of a thread, with what it means for the request. -/
theorem PhaseTurn.turn {pool : Pool} {p : Prog Staging (Outcome × List Ev)} {m : Move}
    {ph ph' : Phase} {w w' : Work} (h : PhaseTurn max_concurrency pool m ph ph')
    (hw : w.turn p (some ph') m = some w') : Turn max_concurrency pool p ph w ph' w' := by
  cases w with
  | queued => cases h <;> cases hw
  | entered =>
    cases h <;> cases hw
    case entered.take.refl => exact .take
    case entered.grow.refl => exact .grow
    case entered.wait.refl hslots hfull => exact .wait hslots hfull
  | acquiring =>
    cases h <;> cases hw
    case acquiring.create.refl => exact .create
    case acquiring.fail.refl => exact .fail
    case acquiring.wake.refl => exact .wake
    case acquiring.retake.refl => exact .retake
    case acquiring.rewait.refl => exact .rewait
  | running p =>
    cases p with
    | act f k => cases h <;> cases hw
    | ret r =>
      cases h
      case give =>
        obtain ⟨hr, hw⟩ := Option.ite_none_right_eq_some.mp hw
        obtain rfl := Option.some.inj hw
        exact .give hr
      all_goals cases hw
  | releasing r =>
    cases h <;> cases hw
    exact .leave
  | done r => cases h <;> cases hw
  | failed => cases h <;> cases hw

/-- A step of a request is a change. -/
theorem Serving.stepOf_cases {i : ℕ} {q : GetCall} {a : Act} (hq : calls[i]? = some q)
    (h : s.stepOf cfg max_concurrency calls.length i q a = some s') :
    Change cfg max_concurrency calls s (i, a) s' := by
  cases a with
  | start =>
    simp only [stepOf] at h
    split at h
    case h_1 hw =>
      obtain ⟨hroom, h⟩ := Option.ite_none_right_eq_some.mp h
      obtain rfl := Option.some.inj h
      exact .start hq hw hroom
    case h_2 => cases h
  | refuse =>
    simp only [stepOf] at h
    split at h
    case h_1 r hw hr =>
      obtain rfl := Option.some.inj h
      exact .refuse hq hw hr
    case h_2 => cases h
  | move m =>
    simp only [stepOf] at h
    split at h
    case h_1 pool p hpool hp =>
      obtain ⟨w, hturn, hs'⟩ := Option.map_eq_some_iff.mp h
      obtain ⟨ph, ph', hphase, hmoved⟩ := Pool.step_moved hpool
      rw [hmoved.after] at hturn
      exact hs' ▸ .move hq hp hpool hmoved hphase (hphase.turn hturn)
    case h_2 => cases h
  | access =>
    simp only [stepOf] at h
    split at h
    case h_1 f k slot hw hphase =>
      obtain rfl := Option.some.inj h
      exact .access hq hw hphase
    case h_2 => cases h
  | unwind =>
    simp only [stepOf] at h
    split at h
    case h_1 r hw =>
      split at h
      case h_1 hr =>
        obtain rfl := Option.some.inj h
        exact .throw hq hw (.inl hr)
      case h_2 hr =>
        obtain rfl := Option.some.inj h
        exact .throw hq hw (.inr hr)
      case h_3 => cases h
    case h_2 => cases h

/-- A step is a change. -/
theorem Serving.step_cases {a : ℕ × Act} (h : s.step cfg max_concurrency calls a = some s') :
    Change cfg max_concurrency calls s a s' := by
  unfold step at h
  split at h
  case h_1 q _ hq => exact stepOf_cases hq h
  case h_2 => cases h

end Changes

/-! ## A request among others -/

/-- What the place of a request and the phase of its thread say: what it will give, or has given, is
what it gives alone. -/
def AsAlone (cfg : Config) (q : GetCall) (mem : ℕ → Staging) : Work → Phase → Prop
  | .queued, .idle => True
  | .entered, .idle => True
  | .acquiring, .growing => q.NeedsSlot cfg
  | .acquiring, .waiting => q.NeedsSlot cfg
  | .acquiring, .woken => q.NeedsSlot cfg
  | .running p, .holding slot =>
    q.NeedsSlot cfg ∧ ∀ slot', (p.run (mem slot)).1 = q.handle cfg slot'
  | .releasing r, .notifying =>
    q.NeedsSlot cfg ∧ r.1.isReturned = true ∧ ∀ slot', r = q.handle cfg slot'
  | .done r, .idle => r.1.isReturned = true ∧ ∀ slot', r = q.handle cfg slot'
  -- The thread of a request that an exception has left still has the slot.
  | .done r, .holding _ => r.1.isReturned = false ∧ ∀ slot', r = q.handle cfg slot'
  | .failed, .idle => True
  | _, _ => False

/-- The pool is conserved, and every request is where its thread says. -/
structure Serving.Inv (cfg : Config) (max_concurrency : ℕ) (calls : List GetCall) (s : Serving) :
    Prop where
  pool : s.pool.Inv max_concurrency
  length : s.pool.threads.length = calls.length
  alone : ∀ i q, calls[i]? = some q →
    ∃ ph, s.pool.threads[i]? = some ph ∧ AsAlone cfg q s.mem (s.work i) ph

section Isolation

variable {cfg : Config} {max_concurrency : ℕ} {calls : List GetCall} {s s' : Serving} {q : GetCall}
  {mem mem' : ℕ → Staging} {w w' : Work} {ph ph' : Phase}

/-- No slot is held twice. -/
theorem Pool.Inv.slot_unique {pool : Pool} (hi : pool.Inv max_concurrency) {i j slot : ℕ}
    (h : pool.threads[i]? = some (.holding slot)) (h' : pool.threads[j]? = some (.holding slot)) :
    i = j := by
  by_contra hne
  have howners := hi.owners_le slot
  -- Without the first thread the second still counts, so there are two.
  have hset : (pool.threads.set i .idle).countP (fun p => p.slot == some slot) + 1 =
      pool.threads.countP fun p => p.slot == some slot := by
    have hset := @countP_set_add _ (fun p : Phase => p.slot == some slot) _ _ _ Phase.idle h
    rwa [if_pos (by simp [Phase.slot]), if_neg (by simp [Phase.slot])] at hset
  have hother : 0 < (pool.threads.set i .idle).countP fun p => p.slot == some slot :=
    List.countP_pos_iff.mpr ⟨.holding slot,
      List.mem_of_getElem? ((List.getElem?_set_ne hne).trans h'), by simp [Phase.slot]⟩
  simp only [Pool.owners] at howners
  omega

/-- Only the slot that the request holds matters. -/
theorem AsAlone.congr_mem (h : AsAlone cfg q mem w ph)
    (hmem : ∀ slot, ph = .holding slot → mem' slot = mem slot) :
    AsAlone cfg q mem' w ph := by
  cases ph <;> cases w <;> try exact h
  case holding.running slot p =>
    change q.NeedsSlot cfg ∧ ∀ slot', (p.run (mem' slot)).1 = q.handle cfg slot'
    rw [hmem slot rfl]
    exact h

/-- A thread that is woken is still in `acquire_slot`. -/
theorem AsAlone.woken (h : AsAlone cfg q mem w .waiting) : AsAlone cfg q mem w .woken := by
  cases w <;> exact h

/-- A move of its own thread keeps a request as if it were alone. -/
theorem AsAlone.turn {pool : Pool} {p : Prog Staging (Outcome × List Ev)}
    (h : AsAlone cfg q mem w ph) (hp : q.steps cfg = .inr p)
    (hrun : ∀ slot slot', (p.run slot).1 = q.handle cfg slot')
    (hturn : Turn max_concurrency pool p ph w ph' w') : AsAlone cfg q mem w' ph' := by
  cases hturn with
  | take | create | retake => exact ⟨⟨p, hp⟩, fun slot' => hrun _ slot'⟩
  | grow | wait | wake | rewait => exact ⟨p, hp⟩
  | fail => trivial
  | give hr => exact ⟨h.1, hr, h.2⟩
  | leave => exact h.2

/-- The place of one request changes, and nothing else that the others depend on. -/
theorem Serving.Inv.change_one {i : ℕ} (hi : s.Inv cfg max_concurrency calls)
    (hpool : s'.pool.Inv max_concurrency)
    (hlength : s'.pool.threads.length = s.pool.threads.length)
    (hwork : ∀ j, j ≠ i → s'.work j = s.work j)
    (hothers : ∀ j, j ≠ i → Undisturbed s.pool.threads[j]? s'.pool.threads[j]?)
    (hmem : ∀ j slot, j ≠ i → s.pool.threads[j]? = some (.holding slot) → s'.mem slot = s.mem slot)
    (hfits : ∀ q, calls[i]? = some q →
      ∃ ph, s'.pool.threads[i]? = some ph ∧ AsAlone cfg q s'.mem (s'.work i) ph) :
    s'.Inv cfg max_concurrency calls := by
  refine ⟨hpool, hlength.trans hi.length, fun j q hq => ?_⟩
  by_cases hj : j = i
  · subst hj
    exact hfits q hq
  · obtain ⟨ph, hph, hfit⟩ := hi.alone j q hq
    have hfit' : AsAlone cfg q s'.mem (s.work j) ph := hfit.congr_mem fun slot hslot =>
      hmem j slot hj (hslot ▸ hph)
    rw [hwork j hj]
    rcases hothers j hj with hsame | ⟨hwaiting, hwoken⟩
    · exact ⟨ph, hsame.trans hph, hfit'⟩
    · obtain rfl := Option.some.inj (hph.symm.trans hwaiting)
      exact ⟨.woken, hwoken, hfit'.woken⟩

/-- The place of one request changes, and its thread does not. -/
theorem Serving.Inv.put {i : ℕ} (hi : s.Inv cfg max_concurrency calls) (hq : calls[i]? = some q)
    (hfits : ∀ ph, AsAlone cfg q s.mem (s.work i) ph → AsAlone cfg q s.mem w ph) (up : Bool) :
    Serving.Inv cfg max_concurrency calls { s.put i w with up } := by
  refine hi.change_one (i := i) hi.pool rfl (fun j hj => Function.update_of_ne hj ..)
    (fun _ _ => .inl rfl) (fun _ _ _ _ => rfl) fun q' hq' => ?_
  obtain rfl := Option.some.inj (hq.symm.trans hq')
  obtain ⟨ph, hph, hfit⟩ := hi.alone i q hq
  refine ⟨ph, hph, ?_⟩
  change AsAlone cfg q s.mem (Function.update s.work i w i) ph
  rw [Function.update_self]
  exact hfits ph hfit

/-- A change keeps the invariant. -/
theorem Serving.Inv.change (hmax : max_concurrency < 2^32) (hi : s.Inv cfg max_concurrency calls)
    {a : ℕ × Act} (h : Change cfg max_concurrency calls s a s') :
    s'.Inv cfg max_concurrency calls := by
  cases h with
  | @start i q hq hw hroom =>
    refine hi.put hq (fun ph hfit => ?_) s.up
    rw [hw] at hfit
    cases ph <;> exact hfit
  | @refuse i q r hq hw hr =>
    refine hi.put hq (fun ph hfit => ?_) s.up
    rw [hw] at hfit
    obtain ⟨r', hr', hret, halone⟩ | ⟨p, hp, -⟩ := q.steps_cases cfg
    · obtain rfl := Sum.inl.inj (hr.symm.trans hr')
      cases ph with
      | idle => exact ⟨hret, fun slot => (halone slot).symm⟩
      | _ => exact hfit.elim
    · cases hr.symm.trans hp
  | @move i q p m pool ph ph' w hq hp hstep hmoved _ hturn =>
    refine hi.change_one (i := i) (hi.pool.step hmax hstep) hmoved.length
      (fun j hj => Function.update_of_ne hj ..) hmoved.others (fun _ _ _ _ => rfl) fun q' hq' => ?_
    obtain rfl := Option.some.inj (hq.symm.trans hq')
    obtain ⟨ph₀, hph₀, hfit⟩ := hi.alone i q hq
    obtain rfl := Option.some.inj (hph₀.symm.trans hmoved.before)
    refine ⟨ph', hmoved.after, ?_⟩
    change AsAlone cfg q s.mem (Function.update s.work i w i) ph'
    rw [Function.update_self]
    obtain ⟨r, hr, -⟩ | ⟨p', hp', halone⟩ := q.steps_cases cfg
    · cases hr.symm.trans hp
    · obtain rfl := Sum.inr.inj (hp.symm.trans hp')
      exact hfit.turn hp halone hturn
  | @access i slot q f k hq hw hph =>
    -- The slot is this request's own, so the others' slots are as they were.
    refine hi.change_one (i := i) hi.pool rfl (fun j hj => Function.update_of_ne hj ..)
      (fun _ _ => .inl rfl) (fun j slot' hj hslot' => ?_) fun q' hq' => ?_
    · refine Function.update_of_ne ?_ ..
      rintro rfl
      exact hj (hi.pool.slot_unique hslot' hph)
    · obtain rfl := Option.some.inj (hq.symm.trans hq')
      obtain ⟨ph, hph', hfit⟩ := hi.alone i q hq
      obtain rfl := Option.some.inj (hph.symm.trans hph')
      rw [hw] at hfit
      refine ⟨_, hph, ?_⟩
      change AsAlone cfg q (Function.update s.mem slot (f (s.mem slot)))
        (Function.update s.work i (.running (k (s.mem slot))) i) (.holding slot)
      rw [Function.update_self]
      refine ⟨hfit.1, fun slot' => ?_⟩
      rw [Function.update_self, ← Prog.run_act]
      exact hfit.2 slot'
  | @throw i q r up hq hw hthrown =>
    refine hi.put hq (fun ph hfit => ?_) up
    rw [hw] at hfit
    have hret : r.1.isReturned = false := by
      rcases hthrown with hr | hr <;> rw [hr] <;> rfl
    cases ph with
    | holding => exact ⟨hret, hfit.2⟩
    | _ => exact hfit.elim

/-- The invariant of the server holds before the first step. -/
theorem Serving.inv_initial (cfg : Config) (max_concurrency : ℕ) (calls : List GetCall)
    (mem : ℕ → Staging) :
    (Serving.initial calls.length mem).Inv cfg max_concurrency calls where
  pool := S3Rdma.Server.inv_initial _ _
  length := List.length_replicate
  alone := by
    intro i q hq
    refine ⟨.idle, ?_, trivial⟩
    exact List.getElem?_replicate_of_lt (List.getElem?_eq_some_iff.mp hq).1

end Isolation

/-- The result of a request that is done. -/
def Work.result? : Work → Option (Outcome × List Ev)
  | .done r => some r
  | _ => none

/-- Requests do not disturb each other. In every interleaving of any number of requests that share
the slots, a request that is done has done, and gives, exactly what it does and gives alone, on any
slot; and it still has its slot exactly if an exception has left it. -/
theorem serving_isolated {cfg : Config} {max_concurrency : ℕ} (hmax : max_concurrency < 2^32)
    {calls : List GetCall} (mem : ℕ → Staging) {as : List (ℕ × Act)} {s : Serving}
    (hrun : runSteps (Serving.step cfg max_concurrency calls) as (.initial calls.length mem) =
      some s) {i : ℕ} {q : GetCall} (hq : calls[i]? = some q) {r : Outcome × List Ev}
    (hdone : (s.work i).result? = some r) :
    (∀ slot, r = q.handle cfg slot) ∧
      ∃ ph, s.pool.threads[i]? = some ph ∧ (ph.isHolding = true ↔ r.1.isReturned = false) := by
  have hi : s.Inv cfg max_concurrency calls :=
    runSteps_invariant (fun _ _ _ hi h => hi.change hmax (Serving.step_cases h))
      (Serving.inv_initial cfg max_concurrency calls mem) hrun
  obtain ⟨ph, hph, halone⟩ := hi.alone i q hq
  cases hw : s.work i with
  | done r' =>
    rw [hw] at hdone halone
    obtain rfl := Option.some.inj hdone
    cases ph with
    | idle => exact ⟨halone.2, _, hph, by simp [Phase.isHolding, Phase.slot, halone.1]⟩
    | holding slot => exact ⟨halone.2, _, hph, by simp [Phase.isHolding, Phase.slot, halone.1]⟩
    | _ => exact halone.elim
  | _ =>
    rw [hw] at hdone
    cases hdone

/-- A GET of three bytes in which every call succeeds. -/
def threeBytesCall : GetCall where
  fd := some ⟨threeBytesFile, 3, threeBytesFile.size_lt⟩
  range_hdr := []
  rdma_token_b64 := ascii "1000:0"
  env :=
    { preads := fun _ => []
      spawns := fun _ => true
      rdma := fun _ piece => .returned piece piece
      fetch := fun _ _ => 0 }

/-- Two requests for three bytes in chunks of two, access by access in turn. -/
def inTurn : List (ℕ × Act) :=
  [(0, .start), (1, .start), (0, .move .acquire), (1, .move .acquire), (1, .move .created),
    (0, .move .created), (0, .access), (1, .access), (0, .access), (1, .access), (0, .access),
    (1, .access), (0, .access), (1, .access), (0, .access), (0, .move .release),
    (0, .move (.notify none))]

/-- The first is done while the second is still running, and has given what it gives alone. -/
theorem serving_isolated_two_requests :
    ∃ s r, runSteps (Serving.step ⟨2, false⟩ 2 [threeBytesCall, threeBytesCall]) inTurn
        (.initial 2 fun _ _ _ => 7) = some s ∧ (s.work 0).result? = some r ∧
      r.1 = .returned 200 (some 3) ∧ r = threeBytesCall.handle ⟨2, false⟩ fun _ _ => 0 := by
  have hend : (runSteps (Serving.step ⟨2, false⟩ 2 [threeBytesCall, threeBytesCall]) inTurn
      (.initial 2 fun _ _ _ => 7)).bind (fun s => (s.work 0).result?.map (·.1)) =
      some (.returned 200 (some 3)) := by decide +kernel
  obtain ⟨s, hrun, hs⟩ := Option.bind_eq_some_iff.mp hend
  obtain ⟨r, hr, hout⟩ := Option.map_eq_some_iff.mp hs
  exact ⟨s, r, hrun, hr, hout,
    (serving_isolated (by decide) _ hrun (i := 0) rfl hr).1 fun _ _ => 0⟩

end S3Rdma.Server
