import S3Rdma.Server.Serving

/-!
# Every request is answered

The HTTP server has no more threads than there may be slots. A thread that finds no free slot, and no
room for a new one, therefore finds all slots with other threads, one of which has no request any
more: its request was left by an exception, and the slot is lost (`waits_for_lost`). While no slot is
lost, no thread waits, whether `create_slot` fails or not.

Then every step brings some request nearer to its end (`load_lt`), and as long as a request is not
done, some step is possible (`exists_step`).
-/

namespace S3Rdma.Server

variable {cfg : Config} {max_concurrency : ℕ} {calls : List GetCall} {s s' : Serving}

/-! ## Threads and slots -/

/-- As many threads are in some phases as requests are whose threads are. -/
theorem countP_eq_card {α : Type*} (P : α → Bool) (l : List α) :
    l.countP P = ((Finset.range l.length).filter fun i => (l[i]?).any P = true).card := by
  induction l using List.reverseRecOn with
  | nil => rfl
  | append_singleton l a ih =>
    have hlast : (l ++ [a])[l.length]? = some a := by simp
    have hinit : (Finset.range l.length).filter (fun i => ((l ++ [a])[i]?).any P = true) =
        (Finset.range l.length).filter fun i => (l[i]?).any P = true := by
      refine Finset.filter_congr fun i hi => ?_
      rw [List.getElem?_append_left (Finset.mem_range.mp hi)]
    rw [List.countP_append, ih, List.length_append, List.length_singleton, Finset.range_add_one,
      Finset.filter_insert, hinit, hlast]
    by_cases ha : P a = true
    · rw [if_pos (by simpa using ha), Finset.card_insert_of_notMem (by simp)]
      simp [ha]
    · rw [if_neg (by simpa using ha)]
      simp [ha]

/-- The thread has a slot, or is constructing one. -/
def Phase.occupies (p : Phase) : Bool := p.isHolding || p.isGrowing

/-- The slots that are not free are with a thread each. -/
theorem Pool.Inv.occupied {pool : Pool} (hi : pool.Inv max_concurrency) :
    pool.free.length + pool.threads.countP Phase.occupies = pool.total := by
  have hsum : pool.threads.countP Phase.occupies =
      pool.threads.countP Phase.isHolding + pool.growing := by
    unfold Pool.growing
    induction pool.threads with
    | nil => rfl
    | cons p l ih =>
      simp only [List.countP_cons, ih]
      cases p <;> simp [Phase.occupies, Phase.isHolding, Phase.isGrowing, Phase.slot] <;> omega
  have hcount := hi.count
  omega

/-- An exception has left a request. -/
def Serving.Lost (calls : List GetCall) (s : Serving) : Prop :=
  ∃ i q r, calls[i]? = some q ∧ s.work i = .done r ∧ r.1.isReturned = false

/-- The requests whose threads have a slot occupy a thread each, unless one is lost. -/
theorem Serving.Inv.active_of_occupies (hi : s.Inv cfg max_concurrency calls)
    (hlost : ¬ s.Lost calls) {i : ℕ} {ph : Phase} (hph : s.pool.threads[i]? = some ph)
    (hocc : ph.occupies = true) : (s.work i).isActive = true := by
  obtain ⟨hlt, -⟩ := List.getElem?_eq_some_iff.mp hph
  have hq := List.getElem?_eq_getElem (l := calls) (hi.length ▸ hlt)
  obtain ⟨ph', hph', halone⟩ := hi.alone i _ hq
  obtain rfl := Option.some.inj (hph.symm.trans hph')
  cases hw : s.work i with
  | entered | acquiring | running | releasing => rfl
  | queued | failed =>
    rw [hw] at halone
    cases ph <;> first | exact halone.elim | exact absurd hocc (by decide)
  | done r =>
    rw [hw] at halone
    cases ph with
    | holding slot => exact absurd ⟨i, _, r, hq, hw, halone.1⟩ hlost
    | idle => exact absurd hocc (by decide)
    | _ => exact halone.elim

/-- A thread without a slot finds a free one, or room for a new one, unless one is lost. -/
theorem Serving.Inv.room (hi : s.Inv cfg max_concurrency calls) (hlost : ¬ s.Lost calls)
    (hactive : s.active calls.length ≤ workers max_concurrency) {i : ℕ}
    (hph : s.pool.threads[i]? = some .idle) (hw : (s.work i).isActive = true) :
    ¬ (s.pool.free = [] ∧ max_concurrency ≤ s.pool.total) := by
  rintro ⟨hfree, hfull⟩
  have hcount := hi.pool.occupied
  rw [hfree, countP_eq_card, hi.length] at hcount
  -- The threads with a slot are active, and so is the one that looks for a slot.
  have hlt : ((Finset.range calls.length).filter fun j =>
      (s.pool.threads[j]?).any Phase.occupies = true).card < s.active calls.length := by
    refine Finset.card_lt_card (Finset.ssubset_iff_subset_ne.mpr ⟨fun j hj => ?_, fun heq => ?_⟩)
    · obtain ⟨hjn, hocc⟩ := Finset.mem_filter.mp hj
      refine Finset.mem_filter.mpr ⟨hjn, ?_⟩
      cases hph' : s.pool.threads[j]? with
      | none =>
        rw [hph'] at hocc
        exact absurd hocc (by decide)
      | some ph =>
        rw [hph'] at hocc
        exact hi.active_of_occupies hlost hph' hocc
    · have hin : i < calls.length := hi.length ▸ (List.getElem?_eq_some_iff.mp hph).1
      have hmem := heq.symm ▸ Finset.mem_filter.mpr ⟨Finset.mem_range.mpr hin, hw⟩
      have hocc := (Finset.mem_filter.mp hmem).2
      rw [hph] at hocc
      exact absurd hocc (by decide)
  have hworkers : workers max_concurrency ≤ max_concurrency := Nat.min_le_left _ _
  simp only [List.length_nil, Nat.zero_add] at hcount
  omega

/-! ## Waiting -/

/-- Some thread is in `pool_cv_.wait`. -/
def Pool.SomeWait (pool : Pool) : Prop :=
  ∃ (i : ℕ) (ph : Phase), pool.threads[i]? = some ph ∧ ph.inWait = true

/-- At first no thread waits. -/
theorem Pool.not_someWait_initial (n : ℕ) : ¬ (Pool.initial n).SomeWait := by
  rintro ⟨i, ph, hph, hwait⟩
  rw [(List.mem_replicate.mp (List.mem_of_getElem? hph)).2] at hwait
  exact absurd hwait Bool.false_ne_true

/-- A thread waits after a move of the pool only if one did before, or the mover has come to wait. -/
theorem Pool.Moved.someWait {pool pool' : Pool} {i : ℕ} {ph ph' : Phase}
    (h : pool.Moved pool' i ph ph') (hwait : pool'.SomeWait) :
    pool.SomeWait ∨ ph.inWait = false ∧ ph'.inWait = true := by
  obtain ⟨j, phj, hj, hinwait⟩ := hwait
  by_cases hji : j = i
  · subst hji
    obtain rfl := Option.some.inj (h.after.symm.trans hj)
    cases hbefore : ph.inWait with
    | true => exact .inl ⟨j, ph, h.before, hbefore⟩
    | false => exact .inr ⟨rfl, hinwait⟩
  · rcases h.others j hji with hsame | ⟨hwaiting, -⟩
    · exact .inl ⟨j, phj, hsame ▸ hj, hinwait⟩
    · exact .inl ⟨j, .waiting, hwaiting, rfl⟩

/-- The requests fit the HTTP server's threads, and a thread waits only when a slot is lost. -/
structure Serving.Staffed (cfg : Config) (max_concurrency : ℕ) (calls : List GetCall)
    (s : Serving) : Prop where
  inv : s.Inv cfg max_concurrency calls
  active_le : s.active calls.length ≤ workers max_concurrency
  waits : s.pool.SomeWait → s.Lost calls

/-- One more request at most occupies a thread when the place of one has changed. -/
theorem Serving.active_put_le (s : Serving) (i n : ℕ) (w : Work) :
    (s.put i w).active n ≤ s.active n + 1 := by
  refine (Finset.card_le_card fun j hj => ?_).trans (Finset.card_insert_le i _)
  obtain ⟨hjn, hj⟩ := Finset.mem_filter.mp hj
  by_cases hji : j = i
  · exact Finset.mem_insert.mpr (.inl hji)
  · refine Finset.mem_insert_of_mem (Finset.mem_filter.mpr ⟨hjn, ?_⟩)
    rwa [show (s.put i w).work j = s.work j from Function.update_of_ne hji ..] at hj

/-- No more do when that one has occupied a thread before. -/
theorem Serving.active_put_of_active {i : ℕ} (hi : (s.work i).isActive = true) (n : ℕ) (w : Work) :
    (s.put i w).active n ≤ s.active n := by
  refine Finset.card_le_card fun j hj => ?_
  obtain ⟨hjn, hj⟩ := Finset.mem_filter.mp hj
  refine Finset.mem_filter.mpr ⟨hjn, ?_⟩
  by_cases hji : j = i
  · exact hji ▸ hi
  · rwa [show (s.put i w).work j = s.work j from Function.update_of_ne hji ..] at hj

/-- A slot that is lost stays lost when another request goes on. -/
theorem Serving.Lost.put {i : ℕ} {w : Work} (h : s.Lost calls) (hw : (s.work i).result? = none) :
    (s.put i w).Lost calls := by
  obtain ⟨j, q, r, hq, hj, hr⟩ := h
  refine ⟨j, q, r, hq, ?_, hr⟩
  rw [show (s.put i w).work j = s.work j from Function.update_of_ne ?_ .., hj]
  rintro rfl
  rw [hj] at hw
  cases hw

/-- A request whose thread moves occupies a thread, and is not done. -/
theorem Turn.active {pool : Pool} {p : Prog Staging (Outcome × List Ev)} {ph ph' : Phase}
    {w w' : Work} (h : Turn max_concurrency pool p ph w ph' w') :
    w.isActive = true ∧ w.result? = none := by
  cases h <;> exact ⟨rfl, rfl⟩

/-- A change keeps the staff. -/
theorem Serving.Staffed.change (hmax : max_concurrency < 2^32)
    (hs : s.Staffed cfg max_concurrency calls) {a : ℕ × Act}
    (h : Change cfg max_concurrency calls s a s') :
    s'.Staffed cfg max_concurrency calls := by
  have hi' := hs.inv.change hmax h
  cases h with
  | @start i q hq hw hroom =>
    exact ⟨hi', (s.active_put_le i _ _).trans hroom, fun h => (hs.waits h).put (hw ▸ rfl)⟩
  | @refuse i q r hq hw hr =>
    exact ⟨hi', (Serving.active_put_of_active (hw ▸ rfl) _ _).trans hs.active_le,
      fun h => (hs.waits h).put (hw ▸ rfl)⟩
  | @move i q p m pool ph ph' w hq hp hstep hmoved _ hturn =>
    obtain ⟨hact, hres⟩ := hturn.active
    refine ⟨hi', (Serving.active_put_of_active hact _ _).trans hs.active_le, fun hwait => ?_⟩
    have hlost : s.Lost calls := by
      rcases hmoved.someWait hwait with hbefore | ⟨hnot, hcome⟩
      · exact hs.waits hbefore
      · -- The thread itself has come to wait: there was no slot for it.
        by_contra hlost
        have hbefore := hmoved.before
        generalize s.work i = wi at hturn
        cases hturn with
        | wait hfree hfull => exact hs.inv.room hlost hs.active_le hbefore hact ⟨hfree, hfull⟩
        | wake | rewait => exact absurd hnot (by decide)
        | _ => exact absurd hcome Bool.false_ne_true
    exact hlost.put hres
  | @access i slot q f k hq hw hph =>
    exact ⟨hi', (Serving.active_put_of_active (hw ▸ rfl) _ _).trans hs.active_le,
      fun h => (hs.waits h).put (hw ▸ rfl)⟩
  | @throw i q r up hq hw hthrown =>
    exact ⟨hi', (Serving.active_put_of_active (hw ▸ rfl) _ _).trans hs.active_le,
      fun h => (hs.waits h).put (hw ▸ rfl)⟩

/-- At first no request occupies a thread. -/
theorem Serving.staffed_initial (cfg : Config) (max_concurrency : ℕ) (calls : List GetCall)
    (mem : ℕ → Staging) :
    (Serving.initial calls.length mem).Staffed cfg max_concurrency calls where
  inv := Serving.inv_initial ..
  active_le := by simp [Serving.active, Serving.initial, Work.isActive]
  waits hwait := absurd hwait (Pool.not_someWait_initial _)

/-- Every state of a run is staffed. -/
theorem Serving.staffed_of_run (hmax : max_concurrency < 2^32) {mem : ℕ → Staging}
    {as : List (ℕ × Act)}
    (hrun : runSteps (Serving.step cfg max_concurrency calls) as (.initial calls.length mem) =
      some s) : s.Staffed cfg max_concurrency calls :=
  runSteps_invariant (fun _ _ _ hs h => hs.change hmax (Serving.step_cases h))
    (Serving.staffed_initial cfg max_concurrency calls mem) hrun

/-- A thread waits in `acquire_slot` only after an exception has left a request, which still has its
slot then: in every interleaving of any number of requests on the HTTP server's threads, with any
failures of `create_slot`. -/
theorem serving_waits_for_lost (hmax : max_concurrency < 2^32) (mem : ℕ → Staging)
    {as : List (ℕ × Act)}
    (hrun : runSteps (Serving.step cfg max_concurrency calls) as (.initial calls.length mem) =
      some s) {i : ℕ} {ph : Phase} (hph : s.pool.threads[i]? = some ph) (hwait : ph.inWait = true) :
    ∃ j q slot, calls[j]? = some q ∧ s.pool.threads[j]? = some (.holding slot) ∧
      (s.work j).isActive = false ∧ ∀ slot', (q.handle cfg slot').1.isReturned = false := by
  have hs := Serving.staffed_of_run hmax hrun
  obtain ⟨j, q, r, hq, hw, hr⟩ := hs.waits ⟨i, ph, hph, hwait⟩
  obtain ⟨ph', hph', halone⟩ := hs.inv.alone j q hq
  rw [hw] at halone
  cases ph' with
  | holding slot => exact ⟨j, q, slot, hq, hph', hw ▸ rfl, fun slot' => halone.2 slot' ▸ hr⟩
  | idle => exact absurd (halone.1.symm.trans hr) (by decide)
  | _ => exact halone.elim

/-- A GET of three bytes for whose first chunk no thread can be constructed. -/
def threadlessCall : GetCall :=
  { threeBytesCall with env := { threeBytesCall.env with spawns := fun _ => false } }

/-- With one slot, a request that is left by an exception takes it away, and the next one waits. -/
theorem serving_waits_for_lost_one_slot :
    ∃ s, runSteps (Serving.step ⟨2, false⟩ 1 [threadlessCall, threeBytesCall])
        [(0, .start), (0, .move .acquire), (0, .move .created), (0, .access), (0, .unwind),
          (1, .start), (1, .move .acquire)] (.initial 2 fun _ _ _ => 7) = some s ∧
      s.pool.threads[1]? = some .waiting ∧
      ∃ j q slot, [threadlessCall, threeBytesCall][j]? = some q ∧
        s.pool.threads[j]? = some (.holding slot) ∧ (s.work j).isActive = false ∧
        ∀ slot', (q.handle ⟨2, false⟩ slot').1.isReturned = false := by
  have hend : (runSteps (Serving.step ⟨2, false⟩ 1 [threadlessCall, threeBytesCall])
      [(0, .start), (0, .move .acquire), (0, .move .created), (0, .access), (0, .unwind),
        (1, .start), (1, .move .acquire)] (.initial 2 fun _ _ _ => 7)).bind
        (fun s => s.pool.threads[1]?) = some .waiting := by decide +kernel
  obtain ⟨s, hrun, hs⟩ := Option.bind_eq_some_iff.mp hend
  exact ⟨s, hrun, hs, serving_waits_for_lost (by decide) _ hrun hs rfl⟩

/-! ## Steps towards the end -/

/-- How many accesses a request makes to its slot. -/
def GetCall.cost (q : GetCall) (cfg : Config) : ℕ :=
  match q.steps cfg with
  | .inl _ => 0
  | .inr p => p.cost fun _ _ => 0

/-- A request makes as many accesses on every slot. -/
theorem GetCall.cost_eq {q : GetCall} {p : Prog Staging (Outcome × List Ev)}
    (hp : q.steps cfg = .inr p) (slot : Staging) : p.cost slot = q.cost cfg := by
  have hcost : ∃ c, ∀ slot, p.cost slot = c := by
    obtain ⟨fd, range_hdr, rdma_token_b64, env⟩ := q
    cases fd with
    | none => cases hp
    | some e =>
      cases hw : requestWindow range_hdr e.size with
      | none => simp [GetCall.steps, hw] at hp
      | some w =>
        obtain ⟨offset, length, is_range⟩ := w
        simp only [GetCall.steps, hw] at hp
        split_ifs at hp
        obtain ⟨c, hc⟩ := transferSteps_cost cfg e.file env offset length is_range
          (parseRdmaRemoteAddr (rdmaDescr rdma_token_b64))
        obtain rfl := Sum.inr.inj hp
        simp only [Prog.bind_eq, Prog.cost_bind, hc, Prog.pure_eq, Prog.cost_ret]
        exact ⟨_, fun _ => rfl⟩
  obtain ⟨c, hc⟩ := hcost
  unfold GetCall.cost
  rw [hp, hc]
  exact (hc _).symm

/-- How many steps a request has before it at most, when nobody waits. -/
def Work.load (c : ℕ) (mem : ℕ → Staging) : Work → Phase → ℕ
  | .queued, _ => c + 6
  | .entered, _ => c + 5
  | .acquiring, _ => c + 4
  | .running p, .holding slot => p.cost (mem slot) + 3
  | .releasing _, _ => 1
  | _, _ => 0

/-- The load of the `i`-th request. -/
def Serving.loadOf (cfg : Config) (calls : List GetCall) (s : Serving) (i : ℕ) : ℕ :=
  (s.work i).load ((calls[i]?.map fun q => q.cost cfg).getD 0) s.mem
    ((s.pool.threads[i]?).getD .idle)

/-- The load of all requests. -/
def Serving.load (cfg : Config) (calls : List GetCall) (s : Serving) : ℕ :=
  ∑ i ∈ Finset.range calls.length, s.loadOf cfg calls i

/-- A step that brings one request nearer to its end, and leaves the others where they are. -/
theorem Serving.load_lt_of_one {i : ℕ} {q : GetCall} (hq : calls[i]? = some q)
    (hwork : ∀ j, j ≠ i → s'.work j = s.work j)
    (hphase : ∀ j, j ≠ i → s'.pool.threads[j]? = s.pool.threads[j]?)
    (hmem : ∀ j slot, j ≠ i → s.pool.threads[j]? = some (.holding slot) → s'.mem slot = s.mem slot)
    (hlt : s'.loadOf cfg calls i < s.loadOf cfg calls i) :
    s'.load cfg calls < s.load cfg calls := by
  have hother : ∀ j, j ≠ i → s'.loadOf cfg calls j = s.loadOf cfg calls j := by
    intro j hj
    unfold Serving.loadOf
    rw [hwork j hj, hphase j hj]
    cases hph : s.pool.threads[j]? with
    | none => cases s.work j <;> rfl
    | some ph =>
      cases ph with
      | holding slot =>
        cases s.work j with
        | running p => exact congrArg (fun st => p.cost st + 3) (hmem j slot hj hph)
        | _ => rfl
      | _ => cases s.work j <;> rfl
  refine Finset.sum_lt_sum (fun j _ => ?_) ⟨i, ?_, hlt⟩
  · by_cases hj : j = i
    · exact (hj ▸ hlt).le
    · exact (hother j hj).le
  · exact Finset.mem_range.mpr (List.getElem?_eq_some_iff.mp hq).1

/-- A move in which nobody has waited brings the request nearer to its end. -/
theorem Turn.load_lt {pool : Pool} {p : Prog Staging (Outcome × List Ev)} {ph ph' : Phase}
    {w w' : Work} {c : ℕ} (mem : ℕ → Staging) (h : Turn max_concurrency pool p ph w ph' w')
    (hcost : ∀ slot, p.cost slot = c) (hwait : ph.inWait = false) (hwait' : ph'.inWait = false) :
    w'.load c mem ph' < w.load c mem ph := by
  cases h with
  | take | create | retake =>
    simp only [Work.load, hcost]
    omega
  | grow | fail | give | leave =>
    simp only [Work.load]
    omega
  | wait | wake | rewait => exact absurd hwait' (by decide)

/-- Every request returns when it is alone. -/
def AllReturn (cfg : Config) (calls : List GetCall) : Prop :=
  ∀ q ∈ calls, ∀ slot, (q.handle cfg slot).1.isReturned = true

/-- When every request returns, no slot is ever lost. -/
theorem Serving.Inv.not_lost (hi : s.Inv cfg max_concurrency calls) (hret : AllReturn cfg calls) :
    ¬ s.Lost calls := by
  rintro ⟨i, q, r, hq, hw, hr⟩
  obtain ⟨ph, -, halone⟩ := hi.alone i q hq
  have hreturn := hret q (List.mem_of_getElem? hq) fun _ _ => 0
  rw [hw] at halone
  cases ph with
  | holding slot =>
    rw [← halone.2, hr] at hreturn
    cases hreturn
  | idle =>
    rw [halone.1] at hr
    cases hr
  | _ => exact halone.elim

/-- When every request returns, each step brings some request nearer to its end, and the process
goes on. -/
theorem Serving.Staffed.load_lt (hmax : max_concurrency < 2^32) (hret : AllReturn cfg calls)
    (hs : s.Staffed cfg max_concurrency calls) {a : ℕ × Act}
    (h : Change cfg max_concurrency calls s a s') :
    s'.load cfg calls < s.load cfg calls ∧ s'.up = s.up := by
  have hs' := hs.change hmax h
  have hcalm : ∀ {i : ℕ} {ph : Phase}, s.pool.threads[i]? = some ph → ph.inWait = false := by
    intro i ph hph
    by_contra hwait
    exact hs.inv.not_lost hret (hs.waits ⟨i, ph, hph, Bool.eq_true_of_not_eq_false hwait⟩)
  have hcalm' : ∀ {i : ℕ} {ph : Phase}, s'.pool.threads[i]? = some ph → ph.inWait = false := by
    intro i ph hph
    by_contra hwait
    exact hs'.inv.not_lost hret (hs'.waits ⟨i, ph, hph, Bool.eq_true_of_not_eq_false hwait⟩)
  cases h with
  | @start i q hq hw hroom =>
    refine ⟨load_lt_of_one hq (fun j hj => Function.update_of_ne hj ..) (fun _ _ => rfl)
      (fun _ _ _ _ => rfl) ?_, rfl⟩
    simp [loadOf, put, hw, Work.load]
  | @refuse i q r hq hw hr =>
    refine ⟨load_lt_of_one hq (fun j hj => Function.update_of_ne hj ..) (fun _ _ => rfl)
      (fun _ _ _ _ => rfl) ?_, rfl⟩
    simp [loadOf, put, hw, Work.load]
  | @move i q p m pool ph ph' w hq hp hstep hmoved _ hturn =>
    refine ⟨load_lt_of_one hq (fun j hj => Function.update_of_ne hj ..) (fun j hj => ?_)
      (fun _ _ _ _ => rfl) ?_, rfl⟩
    · -- Nobody waits, so nobody is woken.
      rcases hmoved.others j hj with hsame | ⟨hwaiting, -⟩
      · exact hsame
      · exact absurd (hcalm hwaiting) (by decide)
    · have hlt := hturn.load_lt s.mem (GetCall.cost_eq hp) (hcalm hmoved.before)
        (hcalm' hmoved.after)
      simpa [loadOf, put, hq, hmoved.before, hmoved.after] using hlt
  | @access i slot q f k hq hw hph =>
    refine ⟨load_lt_of_one hq (fun j hj => Function.update_of_ne hj ..) (fun _ _ => rfl)
      (fun j slot' hj hslot' => ?_) ?_, rfl⟩
    · refine Function.update_of_ne ?_ ..
      rintro rfl
      exact hj (hs.inv.pool.slot_unique hslot' hph)
    · simp [loadOf, put, hw, hph, Work.load, Prog.cost_act]
  | @throw i q r up hq hw hthrown =>
    -- The request would not return alone either.
    obtain ⟨ph, -, halone⟩ := hs.inv.alone i q hq
    have hreturn := hret q (List.mem_of_getElem? hq) fun _ _ => 0
    rw [hw] at halone
    cases ph with
    | holding slot =>
      rw [← halone.2, Prog.run_ret] at hreturn
      rcases hthrown with hr | hr <;> rw [hr] at hreturn <;> cases hreturn
    | _ => exact halone.elim

/-! ## No dead end -/

/-- The request has come to its end. -/
def Work.isOver : Work → Bool
  | .done _ => true
  | .failed => true
  | _ => false

/-- A move of a request's thread is possible when both the pool and the request allow it. -/
theorem Serving.stepOf_move {n i : ℕ} {q : GetCall} {p : Prog Staging (Outcome × List Ev)} {m : Move}
    {pool : Pool} (hp : q.steps cfg = .inr p)
    (hpool : s.pool.step max_concurrency (i, m) = some pool)
    (hturn : ((s.work i).turn p pool.threads[i]? m).isSome = true) :
    (s.stepOf cfg max_concurrency n i q (.move m)).isSome = true := by
  simp [stepOf, hp, hpool, hturn]

/-- An idle thread can always look for a slot. -/
theorem Pool.exists_acquire {pool : Pool} {i : ℕ} (hph : pool.threads[i]? = some .idle) :
    ∃ pool', pool.step max_concurrency (i, .acquire) = some pool' := by
  unfold Pool.step
  dsimp only
  rw [hph]
  dsimp only
  cases pool.free with
  | cons slot free => exact ⟨_, rfl⟩
  | nil =>
    dsimp only
    split_ifs <;> exact ⟨_, rfl⟩

/-- A request that occupies a thread can go on, when nobody waits and it returns alone. -/
theorem Serving.Staffed.exists_act (hret : AllReturn cfg calls)
    (hs : s.Staffed cfg max_concurrency calls) {i : ℕ} {q : GetCall} (hq : calls[i]? = some q)
    (hactive : (s.work i).isActive = true) :
    ∃ a, (s.stepOf cfg max_concurrency calls.length i q a).isSome = true := by
  have hlost := hs.inv.not_lost hret
  have hcalm : ¬ s.pool.SomeWait := fun hwait => hlost (hs.waits hwait)
  obtain ⟨ph, hph, halone⟩ := hs.inv.alone i q hq
  cases hw : s.work i with
  | queued | done | failed =>
    rw [hw] at hactive
    cases hactive
  | entered =>
    rw [hw] at halone
    cases ph with
    | idle =>
      cases hp : q.steps cfg with
      | inl r => exact ⟨.refuse, by simp [stepOf, hw, hp]⟩
      | inr p =>
        obtain ⟨pool, hpool⟩ : ∃ pool, s.pool.step max_concurrency (i, .acquire) = some pool :=
          Pool.exists_acquire hph
        exact ⟨.move .acquire, stepOf_move hp hpool (by simp [hw, Work.turn])⟩
    | _ => exact halone.elim
  | acquiring =>
    rw [hw] at halone
    cases ph with
    | growing =>
      obtain ⟨p, hp⟩ := halone
      obtain ⟨pool, hpool⟩ : ∃ pool, s.pool.step max_concurrency (i, .created) = some pool := by
        simp only [Pool.step, hph]
        exact ⟨_, rfl⟩
      exact ⟨.move .created, stepOf_move hp hpool (by simp [hw, Work.turn])⟩
    | waiting | woken => exact absurd ⟨i, _, hph, rfl⟩ hcalm
    | _ => exact halone.elim
  | running p =>
    rw [hw] at halone
    cases ph with
    | holding slot =>
      cases p with
      | ret r =>
        obtain ⟨⟨p, hp⟩, hrun⟩ := halone
        have hreturn : r.1.isReturned = true := by
          have hreturn := hret q (List.mem_of_getElem? hq) fun _ _ => 0
          rwa [← hrun, Prog.run_ret] at hreturn
        obtain ⟨pool, hpool⟩ : ∃ pool, s.pool.step max_concurrency (i, .release) = some pool := by
          simp only [Pool.step, hph]
          exact ⟨_, rfl⟩
        exact ⟨.move .release, stepOf_move hp hpool (by simp [hw, Work.turn, hreturn])⟩
      | act f k => exact ⟨.access, by simp [stepOf, hw, hph]⟩
    | _ => exact halone.elim
  | releasing r =>
    rw [hw] at halone
    cases ph with
    | notifying =>
      obtain ⟨⟨p, hp⟩, -⟩ := halone
      have hnone : Phase.waiting ∉ (s.pool.become i .idle).threads := by
        intro hmem
        rcases List.mem_or_eq_of_mem_set hmem with hmem | heq
        · obtain ⟨j, hj⟩ := List.mem_iff_getElem?.mp hmem
          exact hcalm ⟨j, _, hj, rfl⟩
        · cases heq
      have hpool : s.pool.step max_concurrency (i, .notify none) = some (s.pool.become i .idle) := by
        simp only [Pool.step, hph, Pool.notifyOne, if_neg hnone]
      exact ⟨.move (.notify none), stepOf_move hp hpool (by simp [hw, Work.turn])⟩
    | _ => exact halone.elim

/-- While a request is not over, some step is possible. -/
theorem Serving.Staffed.exists_step (hpos : 0 < max_concurrency) (hret : AllReturn cfg calls)
    (hs : s.Staffed cfg max_concurrency calls) (hup : s.up = true) {i : ℕ} {q : GetCall}
    (hq : calls[i]? = some q) (hover : (s.work i).isOver = false) :
    ∃ a, (s.step cfg max_concurrency calls a).isSome = true := by
  have hstep : ∀ {j : ℕ} {q : GetCall} {a : Act}, calls[j]? = some q →
      (s.stepOf cfg max_concurrency calls.length j q a).isSome = true →
      ∃ a, (s.step cfg max_concurrency calls a).isSome = true := by
    intro j q a hq ha
    refine ⟨(j, a), ?_⟩
    simp only [step, hup, hq]
    exact ha
  by_cases hactive : ∃ j q', calls[j]? = some q' ∧ (s.work j).isActive = true
  · obtain ⟨j, q', hq', hj⟩ := hactive
    obtain ⟨a, ha⟩ := hs.exists_act hret hq' hj
    exact hstep hq' ha
  · -- No thread is occupied, so one can take the request.
    have hnone : ∀ j, j < calls.length → (s.work j).isActive = false := by
      intro j hj
      by_contra hact
      exact hactive ⟨j, _, List.getElem?_eq_getElem hj, Bool.eq_true_of_not_eq_false hact⟩
    have hzero : s.active calls.length = 0 := by
      refine Finset.card_eq_zero.mpr (Finset.filter_eq_empty_iff.mpr fun j hj => ?_)
      rw [hnone j (Finset.mem_range.mp hj)]
      exact Bool.false_ne_true
    have hroom : s.active calls.length < workers max_concurrency := by
      rw [hzero]
      exact lt_min hpos (by decide)
    have hqueued : s.work i = .queued := by
      have hact := hnone i (List.getElem?_eq_some_iff.mp hq).1
      cases hw : s.work i with
      | queued => rfl
      | entered | acquiring | running | releasing =>
        rw [hw] at hact
        cases hact
      | done | failed =>
        rw [hw] at hover
        cases hover
    exact hstep (a := .start) hq (by simp [stepOf, hqueued, hroom])

/-- Requests that return alone are all answered. There is a number of steps that no run exceeds,
however the requests are interleaved and whatever the slots hold; and when no step is possible any
more, every request has given what it gives alone, or `create_slot` has failed for it, and all slots
are free again. -/
theorem serving_completes (hpos : 0 < max_concurrency) (hmax : max_concurrency < 2^32)
    (hret : AllReturn cfg calls) :
    ∃ bound, ∀ mem as s,
      runSteps (Serving.step cfg max_concurrency calls) as (.initial calls.length mem) = some s →
      as.length ≤ bound ∧
      ((∀ a, s.step cfg max_concurrency calls a = none) →
        s.pool.free.length = s.pool.total ∧
        ∀ i q, calls[i]? = some q → s.work i = .failed ∨
          ∃ r, s.work i = .done r ∧ ∀ slot, r = q.handle cfg slot) := by
  have hload : ∀ mem, (Serving.initial calls.length mem).load cfg calls =
      (Serving.initial calls.length fun _ _ _ => 0).load cfg calls := fun _ => rfl
  refine ⟨(Serving.initial calls.length fun _ _ _ => 0).load cfg calls, fun mem as s hrun => ?_⟩
  have hlen := runSteps_length_le (I := fun s => s.Staffed cfg max_concurrency calls)
    (fun s a s' hs h => ⟨hs.change hmax (Serving.step_cases h),
      (hs.load_lt hmax hret (Serving.step_cases h)).1⟩)
    (Serving.staffed_initial cfg max_concurrency calls mem) hrun
  rw [hload mem] at hlen
  have hs : s.Staffed cfg max_concurrency calls ∧ s.up = true :=
    runSteps_invariant (I := fun s => s.Staffed cfg max_concurrency calls ∧ s.up = true)
      (fun s a s' hs h => ⟨hs.1.change hmax (Serving.step_cases h),
        (hs.1.load_lt hmax hret (Serving.step_cases h)).2.trans hs.2⟩)
      ⟨Serving.staffed_initial cfg max_concurrency calls mem, rfl⟩ hrun
  refine ⟨by omega, fun hstuck => ?_⟩
  have hover : ∀ i q, calls[i]? = some q → (s.work i).isOver = true := by
    intro i q hq
    by_contra hover
    obtain ⟨a, ha⟩ := hs.1.exists_step hpos hret hs.2 hq (Bool.eq_false_of_not_eq_true hover)
    rw [hstuck a] at ha
    cases ha
  have hend : ∀ i q, calls[i]? = some q → s.pool.threads[i]? = some .idle ∧ (s.work i = .failed ∨
      ∃ r, s.work i = .done r ∧ ∀ slot, r = q.handle cfg slot) := by
    intro i q hq
    obtain ⟨ph, hph, halone⟩ := hs.1.inv.alone i q hq
    have hov := hover i q hq
    cases hw : s.work i with
    | failed =>
      rw [hw] at halone
      cases ph with
      | idle => exact ⟨hph, .inl rfl⟩
      | _ => exact halone.elim
    | done r =>
      rw [hw] at halone
      cases ph with
      | idle => exact ⟨hph, .inr ⟨r, rfl, halone.2⟩⟩
      | holding slot => exact absurd ⟨i, q, r, hq, hw, halone.1⟩ (hs.1.inv.not_lost hret)
      | _ => exact halone.elim
    | _ =>
      rw [hw] at hov
      cases hov
  refine ⟨?_, fun i q hq => (hend i q hq).2⟩
  have hfree : s.pool.threads.countP Phase.occupies = 0 := by
    refine List.countP_eq_zero.mpr fun ph hmem => ?_
    obtain ⟨i, hi⟩ := List.mem_iff_getElem?.mp hmem
    have hlt : i < calls.length := hs.1.inv.length ▸ (List.getElem?_eq_some_iff.mp hi).1
    have hidle := (hend i _ (List.getElem?_eq_getElem hlt)).1
    obtain rfl := Option.some.inj (hi.symm.trans hidle)
    decide
  have hcount := hs.1.inv.pool.occupied
  omega

/-- Two GETs of three bytes return alone, so no interleaving of them goes on for ever. -/
theorem serving_completes_two_requests :
    ∃ bound, ∀ mem as s,
      runSteps (Serving.step ⟨2, false⟩ 2 [threeBytesCall, threeBytesCall]) as (.initial 2 mem) =
        some s → as.length ≤ bound := by
  have hret : AllReturn ⟨2, false⟩ [threeBytesCall, threeBytesCall] := by
    intro q hq slot
    have hq : q = threeBytesCall := by simpa using hq
    rw [hq, GetCall.handle_indep _ _ slot fun _ _ => 0]
    decide +kernel
  obtain ⟨bound, hbound⟩ := serving_completes (show 0 < 2 by decide) (by decide) hret
  exact ⟨bound, fun mem as s hrun => (hbound mem as s hrun).1⟩

end S3Rdma.Server
