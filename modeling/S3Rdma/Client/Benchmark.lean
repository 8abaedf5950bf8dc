import Mathlib.Algebra.BigOperators.Group.Finset.Basic
import Mathlib.Algebra.Order.BigOperators.Group.Finset
import Mathlib.Logic.Function.Basic
import S3Rdma.Client.Dump
import S3Rdma.Lib.Runs

/-!
# The benchmark with several threads

`main` of `src/client/main.cpp` from the registration of the buffers to the exit: the main thread
registers `N` buffers, warms up, starts `N` workers, waits until all of them are ready, lets them go,
tells them to stop when the time is over, joins them, reports and deregisters the buffers. A state
(`Bench`) has a program counter for each thread, the atomics `ready`, `go` and `stop`, and the GETs
that every worker has made so far. The threads run in any order, and a GET returns anything.

`Bench.Inv` ties the atomics, the registrations and the workers to the place of the main thread.
From it: no GET is under way before all workers are ready or on a buffer that is not registered
(`benchmark_safe`), the results and the exit status are those of the GETs that were made
(`benchmark_results`), and after `stop` a worker begins at most one more GET, which it does if it had
read `stop` just before, and the program ends (`benchmark_ends`).

The atomics are sequentially consistent here. The loads of `stop` are relaxed in the source, so "after
`stop`" is counted for each worker from where its loads see the store.
-/

namespace S3Rdma.Client

/-! ## The program -/

/-- Where a worker is: not created, before it counts itself ready, in the loop on `go`, before it
reads `stop`, after it has read that it goes on, in a GET, or at its end. -/
inductive WorkerPc where
  | unborn
  | born
  | spinning
  | looping
  | continuing
  | fetching (g : Get)
  | ended
deriving DecidableEq

/-- A worker; `got` records its GETs with what they returned. -/
structure Worker where
  pc : WorkerPc := .unborn
  iter : ℕ := 0
  r : ThreadResult := {}
  got : List (Get × ℤ) := []

/-- Where the main thread is. -/
inductive MainPc where
  | registering (t : ℕ)
  | warming (i : ℕ)
  | warmFetching (i : ℕ)
  | spawning (t : ℕ)
  | awaiting
  | starting
  | sleeping
  | joining (t : ℕ)
  | reporting
  | deregistering (t : ℕ)
  | exited (status : ℕ)
  | aborted
deriving DecidableEq

/-- The program. -/
structure Bench where
  main : MainPc := .registering 0
  workers : ℕ → Worker := fun _ => {}
  ready : ℕ := 0
  go : Bool := false
  stop : Bool := false
  registered : ℕ → Bool := fun _ => false
  /-- `grand_total` and `grand_iters`. -/
  reported : Option (ℤ × ℕ) := none

/-- What happens next: a step of the main thread, a call in it that fails, the return of a GET of the
warm-up, a step of a worker, or the return of its GET. -/
inductive BenchAct where
  | main
  | mainFails
  | warmReturns
  | worker (t : ℕ)
  | getReturns (t : ℕ) (n : ℤ)

section Program

variable (N range_size : ℕ) (objs : List ObjDesc)

/-- The sums of `report_results` over the first threads. -/
def grandTotals (results : ℕ → ThreadResult) : ℕ → ℤ × ℕ
  | 0 => (0, 0)
  | t + 1 =>
    let sums := grandTotals results t
    if !(results t).ok then sums
    else (sums.1 + (results t).total_bytes, sums.2 + (results t).iters)

/-- `any_fail`. -/
def anyFail (results : ℕ → ThreadResult) : Bool := (List.range N).any fun t => !(results t).ok

namespace Bench

variable (b : Bench)

/-- The next step of the main thread, if it is neither over nor waits. -/
def mainStep : Option Bench :=
  match b.main with
  | .registering t =>
    if t < N then
      some { b with registered := Function.update b.registered t true, main := .registering (t + 1) }
    else some { b with main := .warming 0 }
  | .warming i =>
    if i < objs.length then some { b with main := .warmFetching i }
    else some { b with main := .spawning 0 }
  | .warmFetching _ => none
  | .spawning t =>
    if t < N then
      some { b with
        workers := Function.update b.workers t { b.workers t with pc := .born }
        main := .spawning (t + 1) }
    else some { b with main := .awaiting }
  | .awaiting => if b.ready < N then none else some { b with main := .starting }
  | .starting => some { b with go := true, main := .sleeping }
  | .sleeping => some { b with stop := true, main := .joining 0 }
  | .joining t =>
    if t < N then
      if (b.workers t).pc = .ended then some { b with main := .joining (t + 1) } else none
    else some { b with main := .reporting }
  | .reporting =>
    some { b with
      reported := some (grandTotals (fun t => (b.workers t).r) N), main := .deregistering 0 }
  | .deregistering t =>
    if t < N then
      some { b with
        registered := Function.update b.registered t false, main := .deregistering (t + 1) }
    else
      some { b with main := .exited (if anyFail N fun t => (b.workers t).r then 1 else 0) }
  | .exited _ => none
  | .aborted => none

/-- The program is running. -/
def up : Bool :=
  match b.main with
  | .exited _ | .aborted => false
  | _ => true

/-- A worker at another place. -/
def put (t : ℕ) (w : Worker) : Bench := { b with workers := Function.update b.workers t w }

/-- The next step of a worker. -/
def workerStep (t : ℕ) : Option Bench :=
  let w := b.workers t
  match w.pc with
  | .unborn => none
  | .born => some { b.put t { w with pc := .spinning } with ready := b.ready + 1 }
  | .spinning => if b.go then some (b.put t { w with pc := .looping }) else none
  | .looping =>
    if b.stop then some (b.put t { w with pc := .ended })
    else some (b.put t { w with pc := .continuing })
  | .continuing => some (b.put t { w with pc := .fetching (getOf range_size (objAt objs w.iter)) })
  | .fetching _ => none
  | .ended => none

/-- The GET of a worker returns. -/
def getReturns (t : ℕ) (n : ℤ) : Option Bench :=
  let w := b.workers t
  match w.pc with
  | .fetching g =>
    if n < 0 then
      some (b.put t { w with pc := .ended, r := { w.r with ok := false }, got := w.got ++ [(g, n)] })
    else
      some (b.put t { w with
        pc := .looping
        iter := w.iter + 1
        r := { w.r with total_bytes := w.r.total_bytes + n, iters := w.iter + 1 }
        got := w.got ++ [(g, n)] })
  | _ => none

/-- A step of the program. -/
def step (a : BenchAct) : Option Bench :=
  if !b.up then none
  else
    match a with
    | .main => b.mainStep N objs
    | .mainFails =>
      match b.main with
      -- `CUOBJ_CHECK` aborts; a thread that cannot be created ends the program.
      | .registering t => if t < N then some { b with main := .aborted } else none
      | .spawning t => if t < N then some { b with main := .aborted } else none
      | _ => none
    | .warmReturns =>
      match b.main with
      | .warmFetching i => some { b with main := .warming (i + 1) }
      | _ => none
    | .worker t => b.workerStep range_size objs t
    | .getReturns t n => b.getReturns t n

end Bench

end Program

/-! ## What the place of the main thread says -/

/-- A worker has counted itself ready. -/
def WorkerPc.arrived : WorkerPc → Bool
  | .unborn | .born => false
  | _ => true

/-- A worker has not been let go. -/
def WorkerPc.held : WorkerPc → Bool
  | .unborn | .born | .spinning => true
  | _ => false

namespace MainPc

/-- The buffers that are registered. -/
def registers (N : ℕ) : MainPc → ℕ → Bool
  | .registering t, u => u < t
  | .deregistering t, u => t ≤ u && u < N
  | .exited _, _ => false
  | _, u => u < N

/-- The number of workers that exist. -/
def spawned (N : ℕ) : MainPc → ℕ
  | .registering _ | .warming _ | .warmFetching _ => 0
  | .spawning t => t
  | _ => N

/-- The main thread has seen all workers ready. -/
def allReady : MainPc → Bool
  | .registering _ | .warming _ | .warmFetching _ | .spawning _ | .awaiting | .aborted => false
  | _ => true

/-- The main thread has let the workers go. -/
def started : MainPc → Bool
  | .starting => false
  | pc => pc.allReady

/-- The main thread has told the workers to stop. -/
def stopped : MainPc → Bool
  | .sleeping => false
  | pc => pc.started

/-- The number of workers that have been joined. -/
def joined (N : ℕ) : MainPc → ℕ
  | .joining t => t
  | .reporting | .deregistering _ | .exited _ => N
  | _ => 0

/-- The index of its loop. -/
def index : MainPc → ℕ
  | .registering t | .spawning t | .joining t | .deregistering t => t
  | _ => 0

/-- The main thread has reported the totals. -/
def hasReported : MainPc → Bool
  | .deregistering _ | .exited _ => true
  | _ => false

/-- What a place says of the buffers, the atomics and the number of workers. -/
def view (N : ℕ) (pc : MainPc) : (ℕ → Bool) × Bool × Bool × ℕ :=
  (pc.registers N, pc.started, pc.stopped, pc.spawned N)

/-- Before the workers are ready none is joined and nothing is reported. -/
theorem early (N : ℕ) {pc : MainPc} (h : pc.allReady = false) :
    pc.joined N = 0 ∧ pc.hasReported = false ∧ ∀ status, pc ≠ .exited status := by
  cases pc <;> simp_all [allReady, joined, hasReported]

/-- The workers are told to stop after they were ready. -/
theorem allReady_of_stopped {pc : MainPc} (h : pc.stopped = true) : pc.allReady = true := by
  cases pc <;> simp_all [stopped, started, allReady]

/-- A buffer that is not registered after the workers were let go belongs to a program that has
joined them all. -/
theorem joined_of_released {N : ℕ} {pc : MainPc} (hgo : pc.started = true) {t : ℕ} (ht : t < N)
    (hreg : pc.registers N t = false) : pc.joined N = N := by
  cases pc with
  | deregistering | exited => rfl
  | registering | warming | warmFetching | spawning | awaiting | starting | aborted => cases hgo
  | sleeping | joining | reporting => simp [registers, ht] at hreg

end MainPc

section Invariant

variable {N range_size : ℕ} {objs : List ObjDesc} {b b' : Bench} {a : BenchAct}

/-- What one step makes of a worker, and whether it counts itself ready. -/
inductive WorkerTurn (range_size : ℕ) (objs : List ObjDesc) (b : Bench) (w : Worker) :
    Worker → ℕ → Prop
  | arrive : w.pc = .born → WorkerTurn range_size objs b w { w with pc := .spinning } 1
  | start : w.pc = .spinning → b.go = true →
      WorkerTurn range_size objs b w { w with pc := .looping } 0
  | stop : w.pc = .looping → b.stop = true →
      WorkerTurn range_size objs b w { w with pc := .ended } 0
  | goOn : w.pc = .looping → b.stop = false →
      WorkerTurn range_size objs b w { w with pc := .continuing } 0
  | fetch : w.pc = .continuing → WorkerTurn range_size objs b w
      { w with pc := .fetching (getOf range_size (objAt objs w.iter)) } 0
  | fail {g : Get} {n : ℤ} : w.pc = .fetching g → n < 0 → WorkerTurn range_size objs b w
      { w with pc := .ended, r := { w.r with ok := false }, got := w.got ++ [(g, n)] } 0
  | deliver {g : Get} {n : ℤ} : w.pc = .fetching g → 0 ≤ n → WorkerTurn range_size objs b w
      { w with
        pc := .looping
        iter := w.iter + 1
        r := { w.r with total_bytes := w.r.total_bytes + n, iters := w.iter + 1 }
        got := w.got ++ [(g, n)] } 0

/-- What one step of the main thread does. -/
inductive MainTurn (N : ℕ) (objs : List ObjDesc) (b : Bench) : Bench → Prop
  | register {t : ℕ} : b.main = .registering t → t < N → MainTurn N objs b
      { b with registered := Function.update b.registered t true, main := .registering (t + 1) }
  | beginWarmUp {t : ℕ} : b.main = .registering t → N ≤ t →
      MainTurn N objs b { b with main := .warming 0 }
  | warm {i : ℕ} : b.main = .warming i → i < objs.length →
      MainTurn N objs b { b with main := .warmFetching i }
  | warmed {i : ℕ} : b.main = .warmFetching i → MainTurn N objs b { b with main := .warming (i + 1) }
  | beginSpawning {i : ℕ} : b.main = .warming i → MainTurn N objs b { b with main := .spawning 0 }
  | spawn {t : ℕ} : b.main = .spawning t → t < N → MainTurn N objs b
      { b with
        workers := Function.update b.workers t { b.workers t with pc := .born }
        main := .spawning (t + 1) }
  | await {t : ℕ} : b.main = .spawning t → N ≤ t → MainTurn N objs b { b with main := .awaiting }
  | seeReady : b.main = .awaiting → N ≤ b.ready → MainTurn N objs b { b with main := .starting }
  | letGo : b.main = .starting → MainTurn N objs b { b with go := true, main := .sleeping }
  | tellStop : b.main = .sleeping → MainTurn N objs b { b with stop := true, main := .joining 0 }
  | join {t : ℕ} : b.main = .joining t → t < N → (b.workers t).pc = .ended →
      MainTurn N objs b { b with main := .joining (t + 1) }
  | joinedAll {t : ℕ} : b.main = .joining t → N ≤ t → MainTurn N objs b { b with main := .reporting }
  | report : b.main = .reporting → MainTurn N objs b
      { b with
        reported := some (grandTotals (fun t => (b.workers t).r) N), main := .deregistering 0 }
  | deregister {t : ℕ} : b.main = .deregistering t → t < N → MainTurn N objs b
      { b with
        registered := Function.update b.registered t false, main := .deregistering (t + 1) }
  | exit {t : ℕ} : b.main = .deregistering t → N ≤ t → MainTurn N objs b
      { b with main := .exited (if anyFail N fun t => (b.workers t).r then 1 else 0) }

/-- The cases of `mainStep`. -/
theorem Bench.mainStep_cases (h : b.mainStep N objs = some b') : MainTurn N objs b b' := by
  unfold Bench.mainStep at h
  split at h
  · rename_i hmain
    split_ifs at h with ht
    · exact Option.some.inj h ▸ .register hmain ht
    · exact Option.some.inj h ▸ .beginWarmUp hmain (not_lt.mp ht)
  · rename_i hmain
    split_ifs at h with hi
    · exact Option.some.inj h ▸ .warm hmain hi
    · exact Option.some.inj h ▸ .beginSpawning hmain
  · cases h
  · rename_i hmain
    split_ifs at h with ht
    · exact Option.some.inj h ▸ .spawn hmain ht
    · exact Option.some.inj h ▸ .await hmain (not_lt.mp ht)
  · rename_i hmain
    split_ifs at h with hready
    exact Option.some.inj h ▸ .seeReady hmain (not_lt.mp hready)
  · exact Option.some.inj h ▸ .letGo ‹_›
  · exact Option.some.inj h ▸ .tellStop ‹_›
  · rename_i hmain
    split_ifs at h with ht hended
    · exact Option.some.inj h ▸ .join hmain ht hended
    · exact Option.some.inj h ▸ .joinedAll hmain (not_lt.mp ht)
  · exact Option.some.inj h ▸ .report ‹_›
  · rename_i t hmain
    by_cases ht : t < N
    · rw [if_pos ht] at h
      exact Option.some.inj h ▸ .deregister hmain ht
    · rw [if_neg ht] at h
      exact Option.some.inj h ▸ .exit hmain (not_lt.mp ht)
  · cases h
  · cases h

/-- A step is one of a worker or of the main thread, or ends the program. -/
theorem Bench.step_cases (h : b.step N range_size objs a = some b') :
    b.up = true ∧
      ((∃ t w' k, WorkerTurn range_size objs b (b.workers t) w' k ∧
          b' = { b.put t w' with ready := b.ready + k }) ∨
        MainTurn N objs b b' ∨ b.main.allReady = false ∧ b' = { b with main := .aborted }) := by
  unfold Bench.step at h
  by_cases hup : b.up = true
  · refine ⟨hup, ?_⟩
    rw [hup, Bool.not_true, if_neg (by decide)] at h
    cases a with
    | main => exact .inr (.inl (mainStep_cases h))
    | mainFails =>
      refine .inr (.inr ?_)
      dsimp only at h
      split at h
      · rename_i hmain
        split_ifs at h
        exact ⟨by rw [hmain]; rfl, (Option.some.inj h).symm⟩
      · rename_i hmain
        split_ifs at h
        exact ⟨by rw [hmain]; rfl, (Option.some.inj h).symm⟩
      · cases h
    | warmReturns =>
      dsimp only at h
      split at h
      · rename_i i hmain
        exact .inr (.inl (Option.some.inj h ▸ .warmed hmain))
      · cases h
    | worker t =>
      dsimp only [Bench.workerStep] at h
      split at h
      · cases h
      · rename_i hpc
        exact .inl ⟨t, _, 1, .arrive hpc, (Option.some.inj h).symm⟩
      · rename_i hpc
        split_ifs at h with hgo
        exact .inl ⟨t, _, 0, .start hpc hgo, (Option.some.inj h).symm⟩
      · rename_i hpc
        split_ifs at h with hstop
        · exact .inl ⟨t, _, 0, .stop hpc hstop, (Option.some.inj h).symm⟩
        · exact .inl ⟨t, _, 0, .goOn hpc (Bool.eq_false_of_not_eq_true hstop),
            (Option.some.inj h).symm⟩
      · rename_i hpc
        exact .inl ⟨t, _, 0, .fetch hpc, (Option.some.inj h).symm⟩
      · cases h
      · cases h
    | getReturns t n =>
      dsimp only [Bench.getReturns] at h
      split at h
      · rename_i g hpc
        split_ifs at h with hn
        · exact .inl ⟨t, _, 0, .fail hpc hn, (Option.some.inj h).symm⟩
        · exact .inl ⟨t, _, 0, .deliver hpc (not_lt.mp hn), (Option.some.inj h).symm⟩
      · cases h
  · simp [hup] at h

/-- The GETs of a worker go through the objects in turn, all of them but perhaps the last have
succeeded, and its result is made of them. -/
structure Worker.Fine (range_size : ℕ) (objs : List ObjDesc) (w : Worker) : Prop where
  gets : w.got.map Prod.fst =
    (List.range w.got.length).map fun k => getOf range_size (objAt objs k)
  front : ∀ p ∈ w.got.dropLast, 0 ≤ p.2
  ok : w.r.ok = w.got.all fun p => 0 ≤ p.2
  iter : w.iter = w.got.countP fun p => 0 ≤ p.2
  iters : w.r.iters = w.iter
  total : w.r.total_bytes = (w.got.map fun p => max p.2 0).sum
  running : w.pc ≠ .ended → w.r.ok = true
  next : ∀ g, w.pc = .fetching g → g = getOf range_size (objAt objs w.iter)

/-- A worker that is not at its end has only had GETs that succeeded. -/
theorem Worker.Fine.all_nonneg {w : Worker} (h : w.Fine range_size objs) (hpc : w.pc ≠ .ended) :
    (∀ p ∈ w.got, 0 ≤ p.2) ∧ w.iter = w.got.length := by
  have hall : ∀ p ∈ w.got, 0 ≤ p.2 := by simpa using h.ok.symm.trans (h.running hpc)
  refine ⟨hall, h.iter.trans (List.countP_eq_length.mpr ?_)⟩
  simpa using hall

/-- A step keeps the account of a worker right. -/
theorem WorkerTurn.fine {w w' : Worker} {k : ℕ} (h : WorkerTurn range_size objs b w w' k)
    (hw : w.Fine range_size objs) : w'.Fine range_size objs := by
  cases h with
  | arrive hpc | start hpc _ | goOn hpc _ =>
    exact { hw with running := fun _ => hw.running (by simp [hpc]), next := by simp }
  | stop hpc _ => exact { hw with running := by simp, next := by simp }
  | fetch hpc =>
    exact { hw with
      running := fun _ => hw.running (by simp [hpc])
      next := fun g hg => (WorkerPc.fetching.inj hg).symm }
  | @fail g n hpc hn =>
    obtain ⟨hall, hiter⟩ := hw.all_nonneg (by simp [hpc])
    have hg := hw.next g hpc
    exact
      { gets := by simp [List.range_succ, hw.gets, hg, hiter]
        front := by simpa using hall
        ok := by simp [hn]
        iter := by simp [hw.iter, hn]
        iters := hw.iters
        total := by simp [hw.total, hn.le]
        running := by simp
        next := by simp }
  | @deliver g n hpc hn =>
    obtain ⟨hall, hiter⟩ := hw.all_nonneg (by simp [hpc])
    have hg := hw.next g hpc
    have hok := hw.running (by simp [hpc])
    exact
      { gets := by simp [List.range_succ, hw.gets, hg, hiter]
        front := by simpa using hall
        ok := by simp [← hw.ok, hok, hn]
        iter := by simp [hw.iter, hn]
        iters := rfl
        total := by simp [hw.total, hn]
        running := fun _ => hok
        next := by simp }

/-- The state of a program that has not been aborted. -/
structure Bench.Inv (N range_size : ℕ) (objs : List ObjDesc) (b : Bench) : Prop where
  registered : ∀ u, b.registered u = b.main.registers N u
  go : b.go = b.main.started
  stop : b.stop = b.main.stopped
  index_le : b.main.index ≤ N
  unborn : ∀ u, (b.workers u).pc = .unborn ↔ b.main.spawned N ≤ u
  ready : b.ready = ((Finset.range N).filter fun u => (b.workers u).pc.arrived).card
  arrived : b.main.allReady = true → ∀ u, u < N → (b.workers u).pc.arrived = true
  held : b.main.started = false → ∀ u, (b.workers u).pc.held = true
  joined : ∀ u, u < b.main.joined N → (b.workers u).pc = .ended
  fine : ∀ u, (b.workers u).Fine range_size objs
  reported : b.main.hasReported = true →
    b.reported = some (grandTotals (fun t => (b.workers t).r) N)
  status : ∀ status, b.main = .exited status →
    status = if anyFail N fun t => (b.workers t).r then 1 else 0

namespace Bench.Inv

/-- The invariant holds before the first step. -/
theorem initial : ({} : Bench).Inv N range_size objs where
  registered u := by simp [MainPc.registers]
  go := rfl
  stop := rfl
  index_le := Nat.zero_le N
  unborn u := by simp [MainPc.spawned]
  ready := by simp [WorkerPc.arrived]
  arrived h := by cases h
  held _ u := rfl
  joined u h := absurd h (Nat.not_lt_zero u)
  fine u := ⟨rfl, by simp, rfl, rfl, rfl, rfl, fun _ => rfl, by simp⟩
  reported h := by cases h
  status s h := by cases h

/-- A worker that takes a step exists and has not been joined. -/
theorem turn_exists (hb : b.Inv N range_size objs) {t k : ℕ} {w' : Worker}
    (h : WorkerTurn range_size objs b (b.workers t) w' k) :
    t < b.main.spawned N ∧ b.main.joined N ≤ t := by
  have hpc : (b.workers t).pc ≠ .unborn ∧ (b.workers t).pc ≠ .ended := by
    cases h <;> simp [*]
  refine ⟨?_, ?_⟩
  · by_contra hle
    exact hpc.1 ((hb.unborn t).mpr (not_lt.mp hle))
  · by_contra hlt
    exact hpc.2 (hb.joined t (not_le.mp hlt))

/-- A worker is among those that are ready after every step of it, and was before unless the step
counts it. -/
theorem turn_ready {t k : ℕ} {w' : Worker} (h : WorkerTurn range_size objs b (b.workers t) w' k) :
    w'.pc.arrived = true ∧ (b.workers t).pc.arrived = decide (k = 0) := by
  cases h <;> simp [*, WorkerPc.arrived]

/-- No more than `N` workers have been created. -/
theorem spawned_le (hb : b.Inv N range_size objs) : b.main.spawned N ≤ N := by
  have h := hb.index_le
  cases hmain : b.main with
  | spawning t =>
    rw [hmain] at h
    exact h
  | _ => simp [MainPc.spawned]

/-- The workers that are ready, after a step of one of them. -/
theorem card_arrived {t k : ℕ} {w' : Worker} (ht : t < N)
    (h : WorkerTurn range_size objs b (b.workers t) w' k) :
    ((Finset.range N).filter fun u => (Function.update b.workers t w' u).pc.arrived).card =
      ((Finset.range N).filter fun u => (b.workers u).pc.arrived).card + k := by
  obtain ⟨hafter, hbefore⟩ := turn_ready h
  have hsplit : ∀ f : ℕ → Worker, ((Finset.range N).filter fun u => (f u).pc.arrived).card =
      (if (f t).pc.arrived then 1 else 0) +
        (((Finset.range N).erase t).filter fun u => (f u).pc.arrived).card := by
    intro f
    rw [← Finset.insert_erase (Finset.mem_range.mpr ht), Finset.filter_insert]
    split_ifs
    · rw [Finset.card_insert_of_notMem (by simp), Nat.add_comm]
      simp
    · simp
  rw [hsplit, hsplit b.workers, Function.update_self, hafter]
  have hrest : (((Finset.range N).erase t).filter fun u =>
      (Function.update b.workers t w' u).pc.arrived) =
        ((Finset.range N).erase t).filter fun u => (b.workers u).pc.arrived := by
    refine Finset.filter_congr fun u hu => ?_
    rw [Function.update_of_ne (Finset.ne_of_mem_erase hu)]
  have hk : k = 0 ∨ k = 1 := by cases h <;> simp
  rw [hrest, hbefore]
  rcases hk with rfl | rfl <;> simp [Nat.add_comm]

/-- A step of a worker keeps the invariant. -/
theorem worker (hb : b.Inv N range_size objs) {t k : ℕ} {w' : Worker}
    (h : WorkerTurn range_size objs b (b.workers t) w' k) :
    ({ b.put t w' with ready := b.ready + k } : Bench).Inv N range_size objs := by
  obtain ⟨hexists, hjoined⟩ := hb.turn_exists h
  have ht : t < N := hexists.trans_le hb.spawned_le
  obtain ⟨harrived, -⟩ := turn_ready h
  -- Once all are joined, no worker takes a step.
  have hrunning : b.main.joined N ≠ N := by omega
  exact
    { registered := hb.registered
      go := hb.go
      stop := hb.stop
      index_le := hb.index_le
      unborn := fun u => by
        by_cases hu : u = t
        · subst hu
          have hpc : w'.pc ≠ .unborn := fun hpc => by rw [hpc] at harrived; cases harrived
          simp [Bench.put, hpc, hexists]
        · simpa [Bench.put, hu] using hb.unborn u
      ready := (congrArg (· + k) hb.ready).trans (card_arrived ht h).symm
      arrived := fun hall u hu => by
        by_cases hut : u = t
        · subst hut
          simpa [Bench.put] using harrived
        · simpa [Bench.put, hut] using hb.arrived hall u hu
      held := fun hgo u => by
        by_cases hut : u = t
        · subst hut
          have hheld := hb.held hgo u
          have hgo' : b.go = false := hb.go.trans hgo
          cases h <;> simp_all [Bench.put, WorkerPc.held]
        · simpa [Bench.put, hut] using hb.held hgo u
      joined := fun u hu => by
        have hut : u ≠ t := by rintro rfl; exact absurd hu (not_lt.mpr hjoined)
        simpa [Bench.put, hut] using hb.joined u hu
      fine := fun u => by
        by_cases hut : u = t
        · subst hut
          simpa [Bench.put] using h.fine (hb.fine u)
        · simpa [Bench.put, hut] using hb.fine u
      reported := fun hrep => by
        cases hmain : b.main <;> simp_all [Bench.put, MainPc.hasReported, MainPc.joined]
      status := fun status hmain => by
        simp_all [Bench.put, MainPc.joined] }

/-- A step that leaves the workers alone keeps the invariant, if it holds at the place where the
main thread is then. -/
theorem of_workers (hb : b.Inv N range_size objs) (hworkers : b'.workers = b.workers)
    (hready : b'.ready = b.ready) (hreg : ∀ u, b'.registered u = b'.main.registers N u)
    (hgo : b'.go = b'.main.started) (hstop : b'.stop = b'.main.stopped) (hindex : b'.main.index ≤ N)
    (hspawned : b'.main.spawned N = b.main.spawned N)
    (hheld : b'.main.started = false → b.main.started = false)
    (hall : b'.main.allReady = true → ∀ u, u < N → (b.workers u).pc.arrived = true)
    (hjoined : ∀ u, u < b'.main.joined N → (b.workers u).pc = .ended)
    (hreported : b'.main.hasReported = true →
      b'.reported = some (grandTotals (fun t => (b.workers t).r) N))
    (hstatus : ∀ status, b'.main = .exited status →
      status = if anyFail N fun t => (b.workers t).r then 1 else 0) :
    b'.Inv N range_size objs := by
  rw [← hworkers] at hall hjoined hreported hstatus
  exact
    { registered := hreg
      go := hgo
      stop := hstop
      index_le := hindex
      unborn := by rw [hworkers, hspawned]; exact hb.unborn
      ready := by rw [hworkers, hready]; exact hb.ready
      arrived := hall
      held := fun h => by rw [hworkers]; exact hb.held (hheld h)
      joined := hjoined
      fine := by rw [hworkers]; exact hb.fine
      reported := hreported
      status := hstatus }

/-- The invariant is kept when the main thread goes to a place at which the buffers, the flags and
the workers are to be the same. -/
theorem relocate (hb : b.Inv N range_size objs) {pc : MainPc} (hview : pc.view N = b.main.view N)
    (hindex : pc.index ≤ N)
    (hall : pc.allReady = true → ∀ u, u < N → (b.workers u).pc.arrived = true)
    (hjoined : ∀ u, u < pc.joined N → (b.workers u).pc = .ended)
    (hreported : pc.hasReported = true → b.main.hasReported = true)
    (hstatus : ∀ status, pc = .exited status →
      status = if anyFail N fun t => (b.workers t).r then 1 else 0) :
    ({ b with main := pc } : Bench).Inv N range_size objs := by
  simp only [MainPc.view, Prod.mk.injEq] at hview
  obtain ⟨hreg, hgo, hstop, hspawned⟩ := hview
  exact hb.of_workers rfl rfl (fun u => (hb.registered u).trans (congrFun hreg u).symm)
    (hb.go.trans hgo.symm) (hb.stop.trans hstop.symm) hindex hspawned (fun h => hgo ▸ h) hall hjoined
    (fun h => hb.reported (hreported h)) hstatus

/-- The invariant is kept when the main thread goes on before the workers are ready. -/
theorem relocate_early (hb : b.Inv N range_size objs) {pc : MainPc}
    (hview : pc.view N = b.main.view N) (hindex : pc.index ≤ N) (hearly : pc.allReady = false) :
    ({ b with main := pc } : Bench).Inv N range_size objs := by
  obtain ⟨hjoined, hreported, hexited⟩ := MainPc.early N hearly
  exact hb.relocate hview hindex (by simp [hearly]) (by simp [hjoined]) (by simp [hreported])
    fun status h => absurd h (hexited status)

/-- All workers are ready once their count has been reached. -/
theorem arrived_of_ready (hb : b.Inv N range_size objs) (hready : N ≤ b.ready) (u : ℕ) (hu : u < N) :
    (b.workers u).pc.arrived = true := by
  have hcard : ((Finset.range N).filter fun u => (b.workers u).pc.arrived) = Finset.range N := by
    refine Finset.eq_of_subset_of_card_le (Finset.filter_subset _ _) ?_
    rw [← hb.ready, Finset.card_range]
    exact hready
  have hmem : u ∈ Finset.range N := Finset.mem_range.mpr hu
  rw [← hcard] at hmem
  exact (Finset.mem_filter.mp hmem).2

/-- A step of the main thread keeps the invariant. -/
theorem main (hb : b.Inv N range_size objs) (h : MainTurn N objs b b') :
    b'.Inv N range_size objs := by
  have hindex := hb.index_le
  have hreg := hb.registered
  cases h with
  | @register t hmain hlt =>
    refine hb.of_workers rfl rfl (fun u => ?_) (by rw [hb.go, hmain]; rfl)
      (by rw [hb.stop, hmain]; rfl) hlt (by rw [hmain]; rfl) (fun _ => by rw [hmain]; rfl)
      (by simp [MainPc.allReady]) (by simp [MainPc.joined]) (by simp [MainPc.hasReported]) (by simp)
    by_cases hu : u = t
    · subst hu
      simp [MainPc.registers]
    · have hlt_iff : u < t ↔ u < t + 1 := by omega
      simp [hu, hb.registered u, hmain, MainPc.registers, hlt_iff]
  | @beginWarmUp t hmain hle =>
    rw [hmain] at hindex
    obtain rfl : t = N := le_antisymm hindex hle
    exact hb.relocate_early (by rw [hmain]; rfl) (Nat.zero_le _) rfl
  | warm hmain _ | warmed hmain | beginSpawning hmain =>
    exact hb.relocate_early (by rw [hmain]; rfl) (Nat.zero_le _) rfl
  | @spawn t hmain hlt =>
    have hnew : (b.workers t).pc = .unborn := (hb.unborn t).mpr (by rw [hmain]; exact le_rfl)
    exact
      { registered := fun u => by rw [hb.registered u, hmain]; rfl
        go := by rw [hb.go, hmain]; rfl
        stop := by rw [hb.stop, hmain]; rfl
        index_le := hlt
        unborn := fun u => by
          have hold := hb.unborn u
          rw [hmain] at hold
          by_cases hu : u = t
          · subst hu
            simp [MainPc.spawned]
          · have hle_iff : t ≤ u ↔ t + 1 ≤ u := by omega
            simpa [hu, MainPc.spawned, hle_iff] using hold
        ready := by
          refine hb.ready.trans (congrArg Finset.card (Finset.filter_congr fun u _ => ?_))
          by_cases hu : u = t
          · subst hu
            simp [hnew, WorkerPc.arrived]
          · simp [hu]
        arrived := by simp [MainPc.allReady]
        held := fun _ u => by
          have hold := hb.held (by rw [hmain]; rfl) u
          by_cases hu : u = t
          · subst hu
            simp [WorkerPc.held]
          · simpa [hu] using hold
        joined := by simp [MainPc.joined]
        fine := fun u => by
          by_cases hu : u = t
          · subst hu
            have hold := hb.fine u
            simpa using
              { hold with
                running := fun _ => hold.running (by simp [hnew])
                next := by simp }
          · simpa [hu] using hb.fine u
        reported := by simp [MainPc.hasReported]
        status := by simp }
  | @await t hmain hle =>
    rw [hmain] at hindex
    obtain rfl : t = N := le_antisymm hindex hle
    exact hb.relocate_early (by rw [hmain]; rfl) (Nat.zero_le _) rfl
  | seeReady hmain hle =>
    exact hb.relocate (by rw [hmain]; rfl) (Nat.zero_le _) (fun _ => hb.arrived_of_ready hle)
      (by simp [MainPc.joined]) (by simp [MainPc.hasReported]) (by simp)
  | letGo hmain =>
    exact hb.of_workers rfl rfl (fun u => by rw [hb.registered u, hmain]; rfl) rfl
      (by rw [hb.stop, hmain]; rfl) (Nat.zero_le _) (by rw [hmain]; rfl)
      (by simp [MainPc.started, MainPc.allReady]) (fun _ => hb.arrived (by rw [hmain]; rfl))
      (by simp [MainPc.joined]) (by simp [MainPc.hasReported]) (by simp)
  | tellStop hmain =>
    exact hb.of_workers rfl rfl (fun u => by rw [hb.registered u, hmain]; rfl)
      (by rw [hb.go, hmain]; rfl) rfl (Nat.zero_le _) (by rw [hmain]; rfl)
      (by simp [MainPc.started, MainPc.allReady]) (fun _ => hb.arrived (by rw [hmain]; rfl))
      (by simp [MainPc.joined]) (by simp [MainPc.hasReported]) (by simp)
  | @join t hmain hlt hended =>
    refine hb.relocate (by rw [hmain]; rfl) hlt (fun _ => hb.arrived (by rw [hmain]; rfl)) ?_
      (by simp [MainPc.hasReported]) (by simp)
    intro u hu
    rcases Nat.lt_succ_iff_lt_or_eq.mp hu with hu | rfl
    · exact hb.joined u (by rw [hmain]; exact hu)
    · exact hended
  | @joinedAll t hmain hle =>
    exact hb.relocate (by rw [hmain]; rfl) (Nat.zero_le _) (fun _ => hb.arrived (by rw [hmain]; rfl))
      (fun u hu => hb.joined u (by rw [hmain]; exact lt_of_lt_of_le hu hle))
      (by simp [MainPc.hasReported]) (by simp)
  | report hmain =>
    exact hb.of_workers rfl rfl (fun u => by rw [hb.registered u, hmain]; simp [MainPc.registers])
      (by rw [hb.go, hmain]; rfl) (by rw [hb.stop, hmain]; rfl) (Nat.zero_le _) (by rw [hmain]; rfl)
      (by simp [MainPc.started, MainPc.allReady]) (fun _ => hb.arrived (by rw [hmain]; rfl))
      (fun u hu => hb.joined u (by rw [hmain]; exact hu)) (fun _ => rfl) (by simp)
  | @deregister t hmain hlt =>
    refine hb.of_workers rfl rfl (fun u => ?_) (by rw [hb.go, hmain]; rfl)
      (by rw [hb.stop, hmain]; rfl) hlt (by rw [hmain]; rfl)
      (by simp [MainPc.started, MainPc.allReady]) (fun _ => hb.arrived (by rw [hmain]; rfl))
      (fun u hu => hb.joined u (by rw [hmain]; exact hu))
      (fun _ => hb.reported (by rw [hmain]; rfl)) (by simp)
    by_cases hu : u = t
    · subst hu
      simp [MainPc.registers]
    · have hle_iff : t ≤ u ↔ t + 1 ≤ u := by omega
      simp [hu, hb.registered u, hmain, MainPc.registers, hle_iff]
  | @exit t hmain hle =>
    refine hb.of_workers rfl rfl (fun u => ?_) (by rw [hb.go, hmain]; rfl)
      (by rw [hb.stop, hmain]; rfl) (Nat.zero_le _) (by rw [hmain]; rfl)
      (by simp [MainPc.started, MainPc.allReady]) (fun _ => hb.arrived (by rw [hmain]; rfl))
      (fun u hu => hb.joined u (by rw [hmain]; exact hu))
      (fun _ => hb.reported (by rw [hmain]; rfl)) (fun status h => (MainPc.exited.inj h).symm)
    have hover : ¬ (t ≤ u ∧ u < N) := by omega
    simpa [hb.registered u, hmain, MainPc.registers] using hover

/-- The invariant holds of every state that is reached, unless the program has been aborted before
the workers were let go. -/
theorem of_run {as : List BenchAct} (hrun : runSteps (Bench.step N range_size objs) as {} = some b) :
    b.main = .aborted ∧ b.stop = false ∨ b.Inv N range_size objs := by
  refine runSteps_invariant
    (I := fun b => b.main = .aborted ∧ b.stop = false ∨ b.Inv N range_size objs)
    (fun b a b' hb h => ?_) (.inr initial) hrun
  obtain ⟨hup, hturn⟩ := Bench.step_cases h
  rcases hb with ⟨haborted, -⟩ | hb
  · simp [Bench.up, haborted] at hup
  · rcases hturn with ⟨t, w', k, hturn, rfl⟩ | hturn | ⟨hearly, rfl⟩
    · exact .inr (hb.worker hturn)
    · exact .inr (hb.main hturn)
    · refine .inl ⟨rfl, hb.stop.trans ?_⟩
      cases hmain : b.main <;> simp_all [MainPc.allReady, MainPc.stopped, MainPc.started]

/-- A GET of a worker is under way only after all workers have been let go and before they are
joined. -/
theorem fetching (hb : b.Inv N range_size objs) {t : ℕ} {g : Get}
    (hpc : (b.workers t).pc = .fetching g) :
    b.main.started = true ∧ t < N ∧ b.main.joined N ≤ t := by
  refine ⟨?_, ?_, ?_⟩
  · by_contra hgo
    have hheld := hb.held (Bool.eq_false_of_not_eq_true hgo) t
    rw [hpc] at hheld
    cases hheld
  · by_contra ht
    have hunborn := (hb.unborn t).mpr (hb.spawned_le.trans (not_lt.mp ht))
    rw [hpc] at hunborn
    cases hunborn
  · by_contra hlt
    have hended := hb.joined t (not_le.mp hlt)
    rw [hpc] at hended
    cases hended

end Bench.Inv

/-! ## What holds along a run -/

/-- A worker fetches only when its buffer is registered, every worker is ready and the warm-up is
over. The warm-up fetches when all buffers are registered and no worker exists. A buffer is
deregistered only when all workers are at their end. -/
theorem benchmark_safe {as : List BenchAct}
    (hrun : runSteps (Bench.step N range_size objs) as {} = some b) (hup : b.main ≠ .aborted) :
    (∀ t g, (b.workers t).pc = .fetching g → t < N ∧ b.registered t = true ∧
      (∀ i, b.main ≠ .warmFetching i) ∧ ∀ u, u < N → (b.workers u).pc.arrived = true) ∧
    (∀ i, b.main = .warmFetching i →
      (∀ u, u < N → b.registered u = true) ∧ ∀ u, (b.workers u).pc = .unborn) ∧
    (b.stop = true → ∀ t, t < N → b.registered t = false →
      ∀ u, u < N → (b.workers u).pc = .ended) := by
  obtain ⟨haborted, -⟩ | hb := Bench.Inv.of_run hrun
  · exact absurd haborted hup
  refine ⟨fun t g hpc => ?_, fun i hmain => ⟨fun u hu => ?_, fun u => ?_⟩, fun hstop t ht hreg => ?_⟩
  · obtain ⟨hgo, ht, hjoined⟩ := hb.fetching hpc
    have hready : b.main.allReady = true := by
      cases hmain : b.main <;> simp_all [MainPc.started, MainPc.allReady]
    refine ⟨ht, ?_, fun i hmain => ?_, hb.arrived hready⟩
    · by_contra hreg
      have hall := MainPc.joined_of_released hgo ht
        ((hb.registered t).symm.trans (Bool.eq_false_of_not_eq_true hreg))
      omega
    · rw [hmain] at hgo
      cases hgo
  · rw [hb.registered u, hmain]
    simpa [MainPc.registers] using hu
  · exact (hb.unborn u).mpr (by rw [hmain]; exact Nat.zero_le u)
  · have hgo : b.main.started = true := by
      rw [hb.stop] at hstop
      cases hmain : b.main <;> simp_all [MainPc.stopped, MainPc.started, MainPc.allReady]
    have hall := MainPc.joined_of_released hgo ht ((hb.registered t).symm.trans hreg)
    exact fun u hu => hb.joined u (by rwa [hall])

/-- A run of two threads up to the first GET of the second. -/
def twoThreads : List BenchAct :=
  List.replicate 4 .main ++ [.warmReturns] ++ List.replicate 4 .main ++
    [.worker 1, .worker 0, .main, .main, .worker 1, .worker 1, .worker 1]

/-- In the run of two threads, the GET of the second worker runs on a registered buffer. -/
theorem benchmark_safe_two_threads :
    ∃ b g, runSteps (Bench.step 2 0 [⟨[1], 3⟩]) twoThreads {} = some b ∧
      (b.workers 1).pc = .fetching g ∧ b.registered 1 = true := by
  have hstate : (runSteps (Bench.step 2 0 [⟨[1], 3⟩]) twoThreads {}).map
      (fun b => (b.main, (b.workers 1).pc)) =
        some (.sleeping, .fetching (getOf 0 ⟨[1], 3⟩)) := by decide +kernel
  obtain ⟨b, hrun, hb⟩ := Option.map_eq_some_iff.mp hstate
  obtain ⟨hmain, hpc⟩ := Prod.mk.inj hb
  have hsafe := (benchmark_safe hrun (by simp [hmain])).1 1 _ hpc
  exact ⟨b, _, hrun, hpc, hsafe.2.1⟩

/-- The totals of a report are sums over the threads that are still fine. -/
theorem grandTotals_eq (results : ℕ → ThreadResult) (n : ℕ) :
    grandTotals results n =
      (∑ t ∈ (Finset.range n).filter fun t => (results t).ok, (results t).total_bytes,
        ∑ t ∈ (Finset.range n).filter fun t => (results t).ok, (results t).iters) := by
  induction n with
  | zero => rfl
  | succ n ih =>
    rw [grandTotals, ih, Finset.range_add_one, Finset.filter_insert]
    cases hok : (results n).ok with
    | true => simp [add_comm]
    | false => simp

/-- When the program exits, every worker is at its end and its result is that of its GETs, which
went through the objects in turn up to the first that failed. The exit status is 1 exactly if a GET
has failed, and the report sums the GETs of the workers without one. -/
theorem benchmark_results {as : List BenchAct}
    (hrun : runSteps (Bench.step N range_size objs) as {} = some b) {status : ℕ}
    (hexit : b.main = .exited status) :
    (∀ t, t < N → (b.workers t).pc = .ended ∧ (b.workers t).Fine range_size objs) ∧
    (status = if ∃ t, t < N ∧ ∃ p ∈ (b.workers t).got, p.2 < 0 then 1 else 0) ∧
    b.reported = some
      (∑ t ∈ (Finset.range N).filter fun t => ∀ p ∈ (b.workers t).got, 0 ≤ p.2,
          ((b.workers t).got.map Prod.snd).sum,
        ∑ t ∈ (Finset.range N).filter fun t => ∀ p ∈ (b.workers t).got, 0 ≤ p.2,
          (b.workers t).got.length) := by
  obtain ⟨haborted, -⟩ | hb := Bench.Inv.of_run hrun
  · rw [hexit] at haborted
    cases haborted
  have hok : ∀ t, (b.workers t).r.ok = true ↔ ∀ p ∈ (b.workers t).got, 0 ≤ p.2 := fun t => by
    rw [(hb.fine t).ok]
    simp
  refine ⟨fun t ht => ⟨hb.joined t (by rw [hexit]; exact ht), hb.fine t⟩, ?_, ?_⟩
  · rw [hb.status status hexit]
    have hfail : anyFail N (fun t => (b.workers t).r) = true ↔
        ∃ t, t < N ∧ ∃ p ∈ (b.workers t).got, p.2 < 0 := by
      unfold anyFail
      rw [List.any_eq_true]
      refine exists_congr fun t => and_congr List.mem_range ?_
      rw [Bool.not_eq_true', ← Bool.not_eq_true, hok]
      push Not
      rfl
    simp only [hfail]
  · rw [hb.reported (by rw [hexit]; rfl), grandTotals_eq]
    simp only [hok]
    -- In a thread that is fine, what counts is every GET.
    have hsum : ∀ t ∈ (Finset.range N).filter fun t => ∀ p ∈ (b.workers t).got, 0 ≤ p.2,
        (b.workers t).r.total_bytes = ((b.workers t).got.map Prod.snd).sum ∧
          (b.workers t).r.iters = (b.workers t).got.length := by
      intro t ht
      have hall := (Finset.mem_filter.mp ht).2
      refine ⟨?_, ?_⟩
      · rw [(hb.fine t).total]
        exact congrArg List.sum (List.map_congr_left fun p hp => max_eq_left (hall p hp))
      · rw [(hb.fine t).iters, (hb.fine t).iter, List.countP_eq_length]
        simpa using hall
    rw [Finset.sum_congr rfl fun t ht => (hsum t ht).1, Finset.sum_congr rfl fun t ht => (hsum t ht).2]

/-- A run of two threads: the GET of the second fails, the first delivers three bytes twice. -/
def oneFailure : List BenchAct :=
  twoThreads ++ [.worker 0, .worker 0, .worker 0, .getReturns 0 3, .getReturns 1 (-1), .worker 0,
    .worker 0, .main, .getReturns 0 3, .worker 0] ++ List.replicate 7 .main

/-- The run `oneFailure` exits with 1 and reports the two GETs of the first thread. -/
theorem benchmark_results_one_failure :
    ∃ b, runSteps (Bench.step 2 0 [⟨[1], 3⟩]) oneFailure {} = some b ∧ b.main = .exited 1 ∧
      (1 = if ∃ t : ℕ, t < 2 ∧ ∃ p ∈ (b.workers t).got, p.2 < 0 then 1 else 0) ∧
      b.reported = some (6, 2) ∧
      b.reported = some
        (∑ t ∈ (Finset.range 2).filter fun t => ∀ p ∈ (b.workers t).got, 0 ≤ p.2,
            ((b.workers t).got.map Prod.snd).sum,
          ∑ t ∈ (Finset.range 2).filter fun t => ∀ p ∈ (b.workers t).got, 0 ≤ p.2,
            (b.workers t).got.length) := by
  have hstate : (runSteps (Bench.step 2 0 [⟨[1], 3⟩]) oneFailure {}).map
      (fun b => (b.main, b.reported)) = some (.exited 1, some (6, 2)) := by decide +kernel
  obtain ⟨b, hrun, hb⟩ := Option.map_eq_some_iff.mp hstate
  obtain ⟨hmain, hreported⟩ := Prod.mk.inj hb
  obtain ⟨-, hstatus, hsums⟩ := benchmark_results hrun hmain
  exact ⟨b, hrun, hmain, hstatus, hreported, hsums⟩

/-! ## The end of a run -/

/-- Until the program is over, a step is possible. -/
theorem Bench.Inv.exists_step (hb : b.Inv N range_size objs) (hup : b.up = true) :
    ∃ a, (b.step N range_size objs a).isSome = true := by
  have hmain_step : (b.mainStep N objs).isSome = true →
      ∃ a, (b.step N range_size objs a).isSome = true :=
    fun h => ⟨.main, by simpa [Bench.step, hup] using h⟩
  have hworker : ∀ t, (b.workerStep range_size objs t).isSome = true →
      ∃ a, (b.step N range_size objs a).isSome = true :=
    fun t h => ⟨.worker t, by simpa [Bench.step, hup] using h⟩
  cases hmain : b.main with
  | warmFetching i => exact ⟨.warmReturns, by simp [Bench.step, hup, hmain]⟩
  | awaiting =>
    by_cases hready : b.ready < N
    · -- A worker that has not counted itself is about to.
      obtain ⟨t, ht, hpc⟩ : ∃ t, t < N ∧ (b.workers t).pc.arrived = false := by
        by_contra hall
        push Not at hall
        have hcard : ((Finset.range N).filter fun u => (b.workers u).pc.arrived) =
            Finset.range N := by
          refine Finset.filter_true_of_mem fun u hu => ?_
          simpa using hall u (Finset.mem_range.mp hu)
        rw [hb.ready, hcard, Finset.card_range] at hready
        exact lt_irrefl N hready
      have hborn : (b.workers t).pc = .born := by
        have hunborn := (hb.unborn t).not.mpr (by rw [hmain]; exact not_le.mpr ht)
        cases hw : (b.workers t).pc <;> simp_all [WorkerPc.arrived]
      exact hworker t (by simp [Bench.workerStep, hborn])
    · exact hmain_step (by simp [Bench.mainStep, hmain, hready])
  | joining t =>
    by_cases ht : t < N
    · have harrived := hb.arrived (by rw [hmain]; rfl) t ht
      have hgo : b.go = true := by rw [hb.go, hmain]; rfl
      cases hpc : (b.workers t).pc with
      | ended => exact hmain_step (by simp [Bench.mainStep, hmain, ht, hpc])
      | fetching g => exact ⟨.getReturns t 0, by simp [Bench.step, hup, Bench.getReturns, hpc]⟩
      | spinning => exact hworker t (by simp [Bench.workerStep, hpc, hgo])
      | looping =>
        refine hworker t ?_
        simp only [Bench.workerStep, hpc]
        split <;> rfl
      | continuing => exact hworker t (by simp [Bench.workerStep, hpc])
      | unborn | born => rw [hpc] at harrived; cases harrived
    · exact hmain_step (by simp [Bench.mainStep, hmain, ht])
  | exited | aborted => simp [Bench.up, hmain] at hup
  | registering | warming | spawning | deregistering =>
    refine hmain_step ?_
    simp only [Bench.mainStep, hmain]
    split <;> rfl
  | starting | sleeping | reporting => exact hmain_step (by simp [Bench.mainStep, hmain])

/-- The steps that the main thread still has to take once it has told the workers to stop. -/
def MainPc.load (N : ℕ) : MainPc → ℕ
  | .joining t => (N - t) + N + 3
  | .reporting => N + 2
  | .deregistering t => (N - t) + 1
  | _ => 0

/-- The steps that a worker still has to take once `stop` is set. -/
def WorkerPc.load : WorkerPc → ℕ
  | .continuing => 3
  | .spinning | .fetching _ => 2
  | .looping => 1
  | _ => 0

/-- The steps that the main thread and the workers still have to take once `stop` is set. -/
def Bench.load (N : ℕ) (b : Bench) : ℕ :=
  b.main.load N + ∑ t ∈ Finset.range N, (b.workers t).pc.load

/-- The worker is in a GET. -/
def WorkerPc.isFetching : WorkerPc → Bool
  | .fetching _ => true
  | _ => false

/-- How many GETs a worker has begun. -/
def Worker.begun (w : Worker) : ℕ := w.got.length + w.pc.isFetching.toNat

/-- How many GETs a worker has begun or is about to begin, since it has read that it goes on. -/
def Worker.committed (w : Worker) : ℕ := w.begun + if w.pc = .continuing then 1 else 0

/-- A worker that has read `stop` commits itself to no other GET. -/
theorem WorkerTurn.committed {w w' : Worker} {k : ℕ} (h : WorkerTurn range_size objs b w w' k)
    (hstop : b.stop = true) : w'.committed = w.committed := by
  cases h with
  | goOn _ hno =>
    rw [hstop] at hno
    cases hno
  | arrive hpc | start hpc _ | stop hpc _ | fetch hpc | fail hpc _ | deliver hpc _ =>
    simp [Worker.committed, Worker.begun, WorkerPc.isFetching, hpc]

/-- After `stop`, a step leaves less to do, and commits no worker to another GET. -/
theorem Bench.Inv.after_stop (hb : b.Inv N range_size objs) (hstop : b.stop = true)
    (h : b.step N range_size objs a = some b') :
    b'.Inv N range_size objs ∧ b'.stop = true ∧ b'.load N < b.load N ∧
      ∀ t, (b'.workers t).committed = (b.workers t).committed := by
  have hmain : b.main.stopped = true := hb.stop.symm.trans hstop
  obtain ⟨hup, ⟨t, w', k, hturn, rfl⟩ | hturn | ⟨hearly, rfl⟩⟩ := Bench.step_cases h
  · have ht : t < N := (hb.turn_exists hturn).1.trans_le hb.spawned_le
    refine ⟨hb.worker hturn, hstop, ?_, fun u => ?_⟩
    · have hlt : w'.pc.load < (b.workers t).pc.load := by
        have harrived := hb.arrived (MainPc.allReady_of_stopped hmain) t ht
        cases hturn <;> simp_all [WorkerPc.load, WorkerPc.arrived]
      refine Nat.add_lt_add_left (Finset.sum_lt_sum (fun u _ => ?_) ⟨t, by simpa using ht, ?_⟩) _
      · by_cases hu : u = t
        · subst hu
          simpa [Bench.put] using hlt.le
        · simp [Bench.put, hu]
      · simpa [Bench.put] using hlt
    · by_cases hu : u = t
      · subst hu
        simpa [Bench.put] using hturn.committed hstop
      · simp [Bench.put, hu]
  · have hinv := hb.main hturn
    cases hturn with
    | join | joinedAll | report | deregister | exit =>
      refine ⟨hinv, hstop, ?_, fun _ => rfl⟩
      simp only [Bench.load, MainPc.load, *]
      omega
    | _ => simp_all [MainPc.stopped, MainPc.started, MainPc.allReady]
  · rw [MainPc.allReady_of_stopped hmain] at hearly
    cases hearly

/-- From every state of a run the program can go on until it is over. Once the workers are told to
stop, a worker begins one more GET at most, and only if it had read before that it goes on; the
number of steps is bounded, and the program ends by its exit. -/
theorem benchmark_ends {as : List BenchAct}
    (hrun : runSteps (Bench.step N range_size objs) as {} = some b) :
    (b.up = true → ∃ a, (b.step N range_size objs a).isSome = true) ∧
    (b.stop = true → ∀ as' b', runSteps (Bench.step N range_size objs) as' b = some b' →
      as'.length ≤ b.load N ∧
      (∀ t, (b'.workers t).begun ≤
        (b.workers t).begun + if (b.workers t).pc = .continuing then 1 else 0) ∧
      ((∀ a, b'.step N range_size objs a = none) → ∃ status, b'.main = .exited status)) := by
  refine ⟨fun hup => ?_, fun hstop as' b' hrun' => ?_⟩
  · obtain ⟨haborted, -⟩ | hb := Bench.Inv.of_run hrun
    · simp [Bench.up, haborted] at hup
    · exact hb.exists_step hup
  · obtain ⟨-, hno⟩ | hb := Bench.Inv.of_run hrun
    · rw [hstop] at hno
      cases hno
    have hlen := runSteps_length_le (I := fun b => b.Inv N range_size objs ∧ b.stop = true)
      (fun c a c' hc h => ⟨⟨(hc.1.after_stop hc.2 h).1, (hc.1.after_stop hc.2 h).2.1⟩,
        (hc.1.after_stop hc.2 h).2.2.1⟩) ⟨hb, hstop⟩ hrun'
    obtain ⟨hb', hstop', hcommitted⟩ := runSteps_invariant
      (I := fun c => c.Inv N range_size objs ∧ c.stop = true ∧
        ∀ t, (c.workers t).committed = (b.workers t).committed)
      (fun c a c' hc h => by
        obtain ⟨hinv, hst, -, hsame⟩ := hc.1.after_stop hc.2.1 h
        exact ⟨hinv, hst, fun t => (hsame t).trans (hc.2.2 t)⟩) ⟨hb, hstop, fun _ => rfl⟩ hrun'
    refine ⟨by omega, fun t => ?_, fun hstuck => ?_⟩
    · have hle : (b'.workers t).begun ≤ (b'.workers t).committed := Nat.le_add_right _ _
      rw [hcommitted t] at hle
      exact hle
    have hup' : b'.up = false := by
      by_contra hup'
      obtain ⟨a, ha⟩ := hb'.exists_step (Bool.eq_true_of_not_eq_false hup')
      rw [hstuck a] at ha
      cases ha
    have hstopped : b'.main.stopped = true := hb'.stop.symm.trans hstop'
    cases hmain : b'.main with
    | exited status => exact ⟨status, rfl⟩
    | aborted =>
      rw [hmain] at hstopped
      cases hstopped
    | _ => simp [Bench.up, hmain] at hup'

/-- The run of two threads, stopped while the second is in its first GET and the first has read that
it goes on: the first begins one GET at most, the second none, and what is left is bounded. -/
theorem benchmark_ends_two_threads :
    ∃ b, runSteps (Bench.step 2 0 [⟨[1], 3⟩]) (twoThreads ++ [.worker 0, .worker 0, .main]) {} =
        some b ∧
      ∀ as b', runSteps (Bench.step 2 0 [⟨[1], 3⟩]) as b = some b' →
        as.length ≤ b.load 2 ∧ (b'.workers 0).begun ≤ 1 ∧ (b'.workers 1).begun ≤ 1 := by
  have hstate : (runSteps (Bench.step 2 0 [⟨[1], 3⟩])
      (twoThreads ++ [.worker 0, .worker 0, .main]) {}).map (fun b => (b.stop,
        (b.workers 0).pc, (b.workers 0).begun, (b.workers 1).pc, (b.workers 1).begun)) =
      some (true, .continuing, 0, .fetching (getOf 0 ⟨[1], 3⟩), 1) := by decide +kernel
  obtain ⟨b, hrun, hb⟩ := Option.map_eq_some_iff.mp hstate
  simp only [Prod.mk.injEq] at hb
  obtain ⟨hstop, hpc0, hbegun0, hpc1, hbegun1⟩ := hb
  refine ⟨b, hrun, fun as b' hrun' => ?_⟩
  obtain ⟨hlen, hbegun, -⟩ := (benchmark_ends hrun).2 hstop as b' hrun'
  refine ⟨hlen, ?_, ?_⟩
  · simpa [hpc0, hbegun0] using hbegun 0
  · simpa [hpc1, hbegun1] using hbegun 1

end Invariant

end S3Rdma.Client
