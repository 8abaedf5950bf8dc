import S3Rdma.Server.Completion

/-!
# Waiting for a slot that cannot come

A thread of the HTTP server waits in `acquire_slot` only after a slot was lost with a request that
an exception has left (`Server/Completion`). It then needs a slot that still moves: one that is free,
one that a request with a thread holds and will give back, or one under construction. There is one
exactly when fewer slots are lost than `total_slots_` counts.

Three steps can leave a waiting thread without one: it comes when all slots are lost, the exception
that loses the last other slot leaves a request while it waits, or `create_slot` throws for that
slot. The notification of the last case does not help, since a woken thread looks at the free list
only. `serving_not_stranded` says that there are no other ways, and `serving_strands` is a run of
the third kind.
-/

namespace S3Rdma.Server

variable {cfg : Config} {max_concurrency : ℕ} {calls : List GetCall} {s s' : Serving}

namespace Serving

/-- The `i`-th request's thread has a slot. -/
def hasSlot (s : Serving) (i : ℕ) : Bool := (s.pool.threads[i]?).any Phase.isHolding

/-- How many of the first `n` requests hold a slot and occupy a thread of the HTTP server. -/
def held (s : Serving) (n : ℕ) : ℕ :=
  ((Finset.range n).filter fun i => s.hasSlot i = true ∧ (s.work i).isActive = true).card

/-- How many of the first `n` requests hold a slot and have no thread any more: the slots that an
exception took away. -/
def lost (s : Serving) (n : ℕ) : ℕ :=
  ((Finset.range n).filter fun i => s.hasSlot i = true ∧ ¬ (s.work i).isActive = true).card

end Serving

/-- Some thread is in `pool_cv_.wait` exactly when a test of all threads finds one. -/
theorem Pool.someWait_iff {pool : Pool} :
    pool.threads.any Phase.inWait = true ↔ pool.SomeWait := by
  rw [List.any_eq_true]
  constructor
  · rintro ⟨ph, hmem, hwait⟩
    obtain ⟨i, hi⟩ := List.getElem?_of_mem hmem
    exact ⟨i, ph, hi, hwait⟩
  · rintro ⟨i, ph, hi, hwait⟩
    exact ⟨ph, List.mem_of_getElem? hi, hwait⟩

instance (pool : Pool) : Decidable pool.SomeWait := decidable_of_iff _ Pool.someWait_iff

/-- A request calls `acquire_slot`. -/
def Act.acquires : Act → Bool
  | .move .acquire => true
  | _ => false

/-- A slot is given up: `create_slot` throws, or an exception leaves a request. -/
def Act.givesUp : Act → Bool
  | .move (.failed _) => true
  | .unwind => true
  | _ => false

/-- A step leaves a waiting thread something to wait for: no request calls `acquire_slot` when all
slots are lost, and the only slot that is not lost is not given up while a thread waits. -/
def Spares (max_concurrency n : ℕ) (s : Serving) (a : ℕ × Act) : Prop :=
  (a.2.acquires = true → s.lost n < max_concurrency) ∧
    (a.2.givesUp = true ∧ s.pool.SomeWait → s.pool.total ≠ s.lost n + 1)

instance (max_concurrency n : ℕ) (s : Serving) (a : ℕ × Act) :
    Decidable (Spares max_concurrency n s a) :=
  inferInstanceAs (Decidable (_ ∧ _))

/-! ## Lost slots -/

/-- Every slot is free, held by a request with a thread, lost or under construction. -/
theorem Serving.Inv.slots (hi : s.Inv cfg max_concurrency calls) :
    s.pool.free.length + s.held calls.length + s.lost calls.length + s.pool.growing =
      s.pool.total := by
  have hcount := hi.pool.count
  rw [countP_eq_card, hi.length,
    ← Finset.card_filter_add_card_filter_not fun i => (s.work i).isActive = true,
    Finset.filter_filter, Finset.filter_filter] at hcount
  rw [← hcount]
  unfold Serving.held Serving.lost Serving.hasSlot
  omega

/-- A step of one request leaves the others' slots lost or not as they were. -/
theorem Serving.lost_le {i n : ℕ} (hslot : ∀ j, j ≠ i → s'.hasSlot j = s.hasSlot j)
    (hwork : ∀ j, j ≠ i → s'.work j = s.work j) : s'.lost n ≤ s.lost n + 1 := by
  refine (Finset.card_le_card fun j hj => ?_).trans (Finset.card_insert_le i _)
  obtain ⟨hjn, hj⟩ := Finset.mem_filter.mp hj
  by_cases hji : j = i
  · exact Finset.mem_insert.mpr (.inl hji)
  · rw [hslot j hji, hwork j hji] at hj
    exact Finset.mem_insert_of_mem (Finset.mem_filter.mpr ⟨hjn, hj⟩)

/-- If the request still has its thread or has no slot, no slot is lost by its step. -/
theorem Serving.lost_le_of_kept {i n : ℕ} (hslot : ∀ j, j ≠ i → s'.hasSlot j = s.hasSlot j)
    (hwork : ∀ j, j ≠ i → s'.work j = s.work j)
    (hkept : s'.hasSlot i = true → (s'.work i).isActive = true) : s'.lost n ≤ s.lost n := by
  refine Finset.card_le_card fun j hj => ?_
  obtain ⟨hjn, hj⟩ := Finset.mem_filter.mp hj
  by_cases hji : j = i
  · subst hji
    exact absurd (hkept hj.1) hj.2
  · rw [hslot j hji, hwork j hji] at hj
    exact Finset.mem_filter.mpr ⟨hjn, hj⟩

/-- A thread that was woken, or not disturbed, has a slot if it had one. -/
theorem Undisturbed.any_isHolding {p p' : Option Phase} (h : Undisturbed p p') :
    p'.any Phase.isHolding = p.any Phase.isHolding := by
  rcases h with rfl | ⟨rfl, rfl⟩
  · rfl
  · rfl

/-- A request whose thread has moved still occupies it, or has no slot. -/
theorem Turn.kept {pool : Pool} {p : Prog Staging (Outcome × List Ev)} {ph ph' : Phase}
    {w w' : Work} (h : Turn max_concurrency pool p ph w ph' w') :
    ph'.isHolding = true → w'.isActive = true := by
  cases h with
  | take | create | retake | grow | wait | wake | rewait | give => exact fun _ => rfl
  | fail | leave => exact fun h => absurd h Bool.false_ne_true

/-- A request that is queued or has come in has no slot yet. -/
theorem Serving.Inv.no_slot (hi : s.Inv cfg max_concurrency calls) {i : ℕ} {q : GetCall}
    (hq : calls[i]? = some q) (hw : s.work i = .queued ∨ s.work i = .entered) :
    s.hasSlot i = false := by
  obtain ⟨ph, hph, halone⟩ := hi.alone i q hq
  unfold Serving.hasSlot
  rw [hph]
  rcases hw with hw | hw <;> rw [hw] at halone <;> cases ph <;> first | rfl | exact halone.elim

/-- What a move does to `total_slots_`: it grows, shrinks when `create_slot` throws, and stays in
all other cases. -/
theorem Pool.step_total (hmax : max_concurrency < 2^32) {pool pool' : Pool}
    (hi : pool.Inv max_concurrency) {a : ℕ × Move} (h : pool.step max_concurrency a = some pool') :
    pool.total ≤ pool'.total ∨ (∃ w, a.2 = .failed w) ∧ pool.total = pool'.total + 1 := by
  obtain ⟨t, hchange, hwoken⟩ := Server.step_cases h
  have htotal : pool'.total = t.total := by
    obtain rfl | ⟨j, -, rfl⟩ := hwoken
    · rfl
    · rfl
  have hle := hi.total_le
  rw [htotal]
  generalize hm : a.2 = m at hchange
  cases hchange with
  | grow _ _ hroom =>
    have hinc := inc32_eq (n := pool.total) (by omega)
    exact .inl (by simp [Pool.become, hinc])
  | @fail i w hp =>
    have hpos := hi.total_pos hp
    have hdec := dec32_eq hpos (by omega)
    refine .inr ⟨⟨w, rfl⟩, ?_⟩
    simp only [Pool.become, hdec]
    omega
  | _ => exact .inl le_rfl

/-! ## Whole runs -/

/-- While a thread waits, not every slot that is counted is lost. -/
structure Serving.Supplied (cfg : Config) (max_concurrency : ℕ) (calls : List GetCall)
    (s : Serving) : Prop where
  inv : s.Inv cfg max_concurrency calls
  supply : s.pool.SomeWait → s.lost calls.length < s.pool.total

/-- A step of which nothing but the place of one request is seen by the pool. -/
theorem Serving.Supplied.put {i : ℕ} (hs : s.Supplied cfg max_concurrency calls)
    (hi' : s'.Inv cfg max_concurrency calls) (hpool : s'.pool = s.pool)
    (hwork : ∀ j, j ≠ i → s'.work j = s.work j)
    (hkept : s.hasSlot i = true → (s'.work i).isActive = true) :
    s'.Supplied cfg max_concurrency calls := by
  refine ⟨hi', fun hwait => ?_⟩
  have hlost : s'.lost calls.length ≤ s.lost calls.length := by
    refine Serving.lost_le_of_kept (fun j _ => ?_) hwork fun hslot => hkept ?_
    · unfold Serving.hasSlot
      rw [hpool]
    · unfold Serving.hasSlot at hslot ⊢
      rwa [hpool] at hslot
  rw [hpool] at hwait ⊢
  exact hlost.trans_lt (hs.supply hwait)

/-- A move of a thread in the pool that spares the last slot keeps the supply. -/
theorem Serving.Supplied.move (hmax : max_concurrency < 2^32) {i : ℕ} {m : Move} {pool : Pool}
    {p : Prog Staging (Outcome × List Ev)} {ph ph' : Phase} {w : Work}
    (hs : s.Supplied cfg max_concurrency calls)
    (hi' : Serving.Inv cfg max_concurrency calls { s.put i w with pool })
    (hstep : s.pool.step max_concurrency (i, m) = some pool) (hmoved : s.pool.Moved pool i ph ph')
    (hphase : PhaseTurn max_concurrency s.pool m ph ph')
    (hturn : Turn max_concurrency s.pool p ph (s.work i) ph' w)
    (hok : Spares max_concurrency calls.length s (i, .move m)) :
    Serving.Supplied cfg max_concurrency calls { s.put i w with pool } := by
  refine ⟨hi', fun hwait => ?_⟩
  have hlost : Serving.lost { s.put i w with pool } calls.length ≤ s.lost calls.length := by
    refine Serving.lost_le_of_kept (i := i) (fun j hj => (hmoved.others j hj).any_isHolding)
      (fun j hj => Function.update_of_ne hj ..) fun hslot => ?_
    have hw : Serving.work { s.put i w with pool } i = w := Function.update_self ..
    unfold Serving.hasSlot at hslot
    rw [hmoved.after] at hslot
    rw [hw]
    exact hturn.kept hslot
  have htotal := Pool.step_total hmax hs.inv.pool hstep
  change Serving.lost { s.put i w with pool } calls.length < pool.total
  rcases hmoved.someWait hwait with hbefore | ⟨hnot, hcome⟩
  · -- A thread has waited before, so there was a supply, and not its last slot is given up.
    have hsupply := hs.supply hbefore
    rcases htotal with hle | ⟨⟨w', rfl⟩, hless⟩
    · omega
    · have hmore : s.pool.total ≠ s.lost calls.length + 1 := hok.2 ⟨rfl, hbefore⟩
      omega
  · -- The thread comes to wait: the pool is full, and not all of it is lost.
    cases hphase with
    | wait hfree hfull =>
      have hroom : s.lost calls.length < max_concurrency := hok.1 rfl
      rcases htotal with hle | ⟨⟨w', habs⟩, -⟩
      · omega
      · cases habs
    | _ => first | exact absurd hcome Bool.false_ne_true | exact absurd hnot (by decide)

/-- A step that spares the last slot keeps the supply. -/
theorem Serving.Supplied.change (hmax : max_concurrency < 2^32)
    (hs : s.Supplied cfg max_concurrency calls) {a : ℕ × Act}
    (hok : Spares max_concurrency calls.length s a)
    (h : Change cfg max_concurrency calls s a s') : s'.Supplied cfg max_concurrency calls := by
  have hi' := hs.inv.change hmax h
  cases h with
  | @start i q hq hw hroom =>
    refine hs.put hi' rfl (fun j hj => Function.update_of_ne hj ..) fun hslot => ?_
    exact absurd (hslot.symm.trans (hs.inv.no_slot hq (.inl hw))) (by decide)
  | @refuse i q r hq hw hr =>
    refine hs.put hi' rfl (fun j hj => Function.update_of_ne hj ..) fun hslot => ?_
    exact absurd (hslot.symm.trans (hs.inv.no_slot hq (.inr hw))) (by decide)
  | @move i q p m pool ph ph' w hq hp hstep hmoved hphase hturn =>
    exact hs.move hmax hi' hstep hmoved hphase hturn hok
  | @access i slot q f k hq hw hph =>
    refine hs.put hi' rfl (fun j hj => Function.update_of_ne hj ..) fun _ => ?_
    change (Function.update s.work i _ i).isActive = true
    rw [Function.update_self]
    rfl
  | @throw i q r up hq hw hthrown =>
    refine ⟨hi', fun hwait => ?_⟩
    -- One more slot is lost, and there was another one.
    have hlost : Serving.lost { s.put i (.done r) with up } calls.length ≤
        s.lost calls.length + 1 :=
      Serving.lost_le (i := i) (fun _ _ => rfl) fun j hj => Function.update_of_ne hj ..
    have hsupply := hs.supply hwait
    have hmore : s.pool.total ≠ s.lost calls.length + 1 := hok.2 ⟨rfl, hwait⟩
    change Serving.lost { s.put i (.done r) with up } calls.length < s.pool.total
    omega

/-- In every run of the server of which each step spares the last slot, no request is stranded: when
one is blocked in `pool_cv_.wait` and no other has been woken and is still to test the free list,
there is a slot that is free, held by a request with a thread, or under construction. -/
theorem serving_not_stranded (hmax : max_concurrency < 2^32) (mem : ℕ → Staging)
    {as : List (ℕ × Act)}
    (hrun : runSteps (Serving.step cfg max_concurrency calls) as (.initial calls.length mem) =
      some s)
    (hok : MeetsAlong (Serving.step cfg max_concurrency calls)
      (Spares max_concurrency calls.length) as (.initial calls.length mem)) :
    Phase.waiting ∈ s.pool.threads ∧ Phase.woken ∉ s.pool.threads →
      0 < s.pool.free.length + s.held calls.length + s.pool.growing := by
  rintro ⟨hwaiting, -⟩
  have hstart : (Serving.initial calls.length mem).Supplied cfg max_concurrency calls :=
    ⟨Serving.inv_initial .., fun hwait => absurd hwait (Pool.not_someWait_initial _)⟩
  have hs : s.Supplied cfg max_concurrency calls :=
    runSteps_invariant_of (fun _ _ _ hs hok hstep => hs.change hmax hok (Serving.step_cases hstep))
      hstart hok hrun
  obtain ⟨i, hi⟩ := List.getElem?_of_mem hwaiting
  have hsupply := hs.supply ⟨i, _, hi, rfl⟩
  have hslots := hs.inv.slots
  omega

/-- With two slots allowed, the first request is left by an exception and takes its slot away, the
second is constructing the other slot, and the third waits. -/
def untilThirdWaits : List (ℕ × Act) :=
  [(0, .start), (0, .move .acquire), (0, .move .created), (0, .access), (0, .unwind),
    (1, .start), (1, .move .acquire), (2, .start), (2, .move .acquire)]

/-- The third request of `untilThirdWaits` has the slot under construction to wait for. -/
theorem serving_not_stranded_growing :
    ∃ s, runSteps (Serving.step ⟨2, false⟩ 2 [threadlessCall, threeBytesCall, threeBytesCall])
        untilThirdWaits (.initial 3 fun _ _ _ => 7) = some s ∧
      (Phase.waiting ∈ s.pool.threads ∧ Phase.woken ∉ s.pool.threads) ∧ s.lost 3 = 1 ∧
      0 < s.pool.free.length + s.held 3 + s.pool.growing := by
  have hend : (runSteps (Serving.step ⟨2, false⟩ 2
      [threadlessCall, threeBytesCall, threeBytesCall]) untilThirdWaits
      (.initial 3 fun _ _ _ => 7)).map (fun s => (s.pool.threads, s.lost 3)) =
      some ([.holding 0, .growing, .waiting], 1) := by decide +kernel
  obtain ⟨s, hrun, hs⟩ := Option.map_eq_some_iff.mp hend
  have hthreads := congrArg Prod.fst hs
  have hwaits : Phase.waiting ∈ s.pool.threads ∧ Phase.woken ∉ s.pool.threads := by
    simp only at hthreads
    rw [hthreads]
    decide
  exact ⟨s, hrun, hwaits, congrArg Prod.snd hs,
    serving_not_stranded (by decide) _ hrun (by decide +kernel) hwaits⟩

/-- After `untilThirdWaits` the construction of the second request fails. The third is woken, finds
the free list empty and waits again: no slot is free, with a request that has a thread, or under
construction, and the process is up. -/
theorem serving_strands :
    (runSteps (Serving.step ⟨2, false⟩ 2 [threadlessCall, threeBytesCall, threeBytesCall])
      (untilThirdWaits ++ [(1, .move (.failed (some 2))), (2, .move .test)])
      (.initial 3 fun _ _ _ => 7)).map (fun s =>
        (decide (Phase.waiting ∈ s.pool.threads ∧ Phase.woken ∉ s.pool.threads), s.up,
          s.pool.free.length + s.held 3 + s.pool.growing)) = some (true, true, 0) := by
  decide +kernel

end S3Rdma.Server
