import S3Rdma.Lib.Runs
import S3Rdma.Lib.Tickets
import Mathlib.Data.List.Nodup

/-!
# The slot pool

`acquire_slot` and `release_slot` of `src/server/s3_server.cpp`, for any number of threads. A
section under `pool_mu_` is one step. A new slot is created outside the lock, so a thread that grows
the pool takes one step to claim the slot in `total_slots_` and another to have it, or to give the
claim back when `create_slot` throws. `pool_cv_` is modelled with its wait queue: a notification
wakes one of the threads that wait, if there is one, a thread may wake by itself, and a thread that
has woken tests the free list before it goes on or waits again.

Every step changes the phase of one thread and moves at most one slot (`Change`), and a notification
changes nothing but who is awake (`Woken`). The number of free, held and claimed slots is therefore
`total_slots_` throughout (`Pool.Inv`). The test of a woken thread looks at the free list only, and
not at the room that a failed growth has left; `Server/Stranding` says when a thread of the HTTP
server waits for ever because of that.
-/

namespace S3Rdma.Server

/-- Where a thread is. -/
inductive Phase where
  /-- Outside of both functions, without a slot. -/
  | idle
  /-- In `create_slot`, without the lock. -/
  | growing
  /-- Blocked in `pool_cv_.wait`. -/
  | waiting
  /-- Woken in `pool_cv_.wait`, before it has tested the free list. -/
  | woken
  /-- Between `acquire_slot` and `release_slot`. -/
  | holding (slot : ℕ)
  /-- In `release_slot`, after it has pushed its slot and before it notifies. -/
  | notifying
deriving DecidableEq

/-- What a thread does next. A notification names the thread that it wakes, if there is one. -/
inductive Move where
  | acquire
  | created
  | failed (woken : Option ℕ)
  | release
  | notify (woken : Option ℕ)
  | spurious
  | test
deriving DecidableEq

/-- The pool and its threads. Slots are numbered in the order of their creation. -/
structure Pool where
  /-- `pool_`, its back first. -/
  free : List ℕ := []
  /-- `total_slots_`. -/
  total : ℕ := 0
  /-- How many slots have been created. -/
  created : ℕ := 0
  threads : List Phase
deriving DecidableEq

/-- `++` and `--` on a `uint32_t`. -/
def inc32 (n : ℕ) : ℕ := (n + 1) % 2^32

def dec32 (n : ℕ) : ℕ := (n + (2^32 - 1)) % 2^32

/-- A truth value as a number. -/
theorem toNat_eq_ite (b : Bool) : b.toNat = if b = true then 1 else 0 := by
  cases b
  · rfl
  · rfl

/-- A count of slots does not wrap around below `2^32`. -/
theorem inc32_eq {n : ℕ} (h : n + 1 < 2^32) : inc32 n = n + 1 := Nat.mod_eq_of_lt h

theorem dec32_eq {n : ℕ} (hpos : 0 < n) (h : n < 2^32) : dec32 n = n - 1 := by
  unfold dec32
  omega

/-- A thread changes its phase. -/
def Pool.become (s : Pool) (i : ℕ) (p : Phase) : Pool := { s with threads := s.threads.set i p }

/-- `pool_cv_.notify_one`. -/
def Pool.notifyOne (s : Pool) : Option ℕ → Option Pool
  | none => if Phase.waiting ∈ s.threads then none else some s
  | some j => if s.threads[j]? = some .waiting then some (s.become j .woken) else none

/-- One step of thread `i`, if it is possible. -/
def Pool.step (max_concurrency : ℕ) (s : Pool) (a : ℕ × Move) : Option Pool :=
  let i := a.1
  match s.threads[i]?, a.2 with
  | some .idle, .acquire =>
    match s.free with
    | slot :: free => some ({ s with free }.become i (.holding slot))
    | [] =>
      if s.total < max_concurrency then some ({ s with total := inc32 s.total }.become i .growing)
      else some (s.become i .waiting)
  | some .growing, .created =>
    some ({ s with created := s.created + 1 }.become i (.holding s.created))
  | some .growing, .failed w => ({ s with total := dec32 s.total }.become i .idle).notifyOne w
  | some (.holding slot), .release =>
    some ({ s with free := slot :: s.free }.become i .notifying)
  | some .notifying, .notify w => (s.become i .idle).notifyOne w
  | some .waiting, .spurious => some (s.become i .woken)
  | some .woken, .test =>
    match s.free with
    | slot :: free => some ({ s with free }.become i (.holding slot))
    | [] => some (s.become i .waiting)
  | _, _ => none

/-- Any number of threads, and no slot. -/
def Pool.initial (n : ℕ) : Pool := { threads := List.replicate n .idle }

/-- The slot that a thread holds. -/
def Phase.slot : Phase → Option ℕ
  | .holding slot => some slot
  | _ => none

/-- The slots that are held. -/
def Pool.held (s : Pool) : List ℕ := s.threads.filterMap Phase.slot

/-- The thread is constructing a slot. -/
def Phase.isGrowing : Phase → Bool
  | .growing => true
  | _ => false

/-- The number of slots under construction. -/
def Pool.growing (s : Pool) : ℕ := s.threads.countP Phase.isGrowing

/-- The thread is in `pool_cv_.wait`. -/
def Phase.inWait : Phase → Bool
  | .waiting => true
  | .woken => true
  | _ => false

/-! ## What a step does -/

/-- The change of one thread, and of the slot it moves. -/
inductive Change (max_concurrency : ℕ) (s : Pool) : Move → Pool → Prop where
  | take {i slot : ℕ} {free : List ℕ} {p : Phase} {m : Move} (thread : s.threads[i]? = some p)
      (phase : p = .idle ∨ p = .woken) (slots : s.free = slot :: free) :
      Change max_concurrency s m ({ s with free }.become i (.holding slot))
  | grow {i : ℕ} (thread : s.threads[i]? = some .idle) (slots : s.free = [])
      (room : s.total < max_concurrency) :
      Change max_concurrency s .acquire ({ s with total := inc32 s.total }.become i .growing)
  | wait {i : ℕ} {p : Phase} {m : Move} (thread : s.threads[i]? = some p) (slots : s.free = [])
      (phase : p = .idle ∧ max_concurrency ≤ s.total ∨ p = .woken) :
      Change max_concurrency s m (s.become i .waiting)
  | create {i : ℕ} (thread : s.threads[i]? = some .growing) :
      Change max_concurrency s .created
        ({ s with created := s.created + 1 }.become i (.holding s.created))
  | fail {i : ℕ} {w : Option ℕ} (thread : s.threads[i]? = some .growing) :
      Change max_concurrency s (.failed w) ({ s with total := dec32 s.total }.become i .idle)
  | give {i slot : ℕ} (thread : s.threads[i]? = some (.holding slot)) :
      Change max_concurrency s .release ({ s with free := slot :: s.free }.become i .notifying)
  | leave {i : ℕ} {w : Option ℕ} (thread : s.threads[i]? = some .notifying) :
      Change max_concurrency s (.notify w) (s.become i .idle)
  | wake {i : ℕ} (thread : s.threads[i]? = some .waiting) :
      Change max_concurrency s .spurious (s.become i .woken)

/-- A notification has woken one of the threads that wait, or there was none. -/
def Woken (t s' : Pool) : Prop :=
  s' = t ∨ ∃ j, t.threads[j]? = some .waiting ∧ s' = t.become j .woken

/-- A notification wakes a thread, or nothing happens. -/
theorem notifyOne_woken {t s' : Pool} {w : Option ℕ} (h : t.notifyOne w = some s') : Woken t s' := by
  cases w with
  | none =>
    simp only [Pool.notifyOne] at h
    split_ifs at h
    exact .inl (Option.some.inj h).symm
  | some j =>
    simp only [Pool.notifyOne] at h
    split_ifs at h with hj
    exact .inr ⟨j, hj, (Option.some.inj h).symm⟩

/-- A step is a change, and a notification in some cases. -/
theorem step_cases {max_concurrency : ℕ} {s s' : Pool} {a : ℕ × Move}
    (h : s.step max_concurrency a = some s') :
    ∃ t, Change max_concurrency s a.2 t ∧ Woken t s' := by
  obtain ⟨i, m⟩ := a
  unfold Pool.step at h
  dsimp only at h
  cases hp : s.threads[i]? with
  | none => simp [hp] at h
  | some p =>
    rw [hp] at h
    -- Every other pair of a phase and a move is refused.
    cases p <;> cases m <;> simp only [reduceCtorEq] at h
    case idle.acquire =>
      split at h
      case h_1 slot free hfree =>
        exact ⟨_, .take hp (.inl rfl) hfree, .inl (Option.some.inj h).symm⟩
      case h_2 hfree =>
        split_ifs at h with hroom
        · exact ⟨_, .grow hp hfree hroom, .inl (Option.some.inj h).symm⟩
        · exact ⟨_, .wait hp hfree (.inl ⟨rfl, not_lt.mp hroom⟩), .inl (Option.some.inj h).symm⟩
    case growing.created => exact ⟨_, .create hp, .inl (Option.some.inj h).symm⟩
    case growing.failed w => exact ⟨_, .fail hp, notifyOne_woken h⟩
    case waiting.spurious => exact ⟨_, .wake hp, .inl (Option.some.inj h).symm⟩
    case woken.test =>
      split at h
      case h_1 slot free hfree =>
        exact ⟨_, .take hp (.inr rfl) hfree, .inl (Option.some.inj h).symm⟩
      case h_2 hfree => exact ⟨_, .wait hp hfree (.inr rfl), .inl (Option.some.inj h).symm⟩
    case holding.release slot => exact ⟨_, .give hp, .inl (Option.some.inj h).symm⟩
    case notifying.notify w => exact ⟨_, .leave hp, notifyOne_woken h⟩

/-! ## Conservation -/

/-- The thread holds a slot. -/
def Phase.isHolding (p : Phase) : Bool := p.slot.isSome

/-- As many slots are held as threads hold one. -/
theorem Pool.length_held (s : Pool) : s.held.length = s.threads.countP Phase.isHolding := by
  rw [Pool.held, List.length_filterMap_eq_countP]
  rfl

/-- How often a slot is free or held. -/
def Pool.owners (s : Pool) (x : ℕ) : ℕ :=
  s.free.count x + s.threads.countP fun p => p.slot == some x

/-- Every slot that is claimed in `total_slots_` is free, held or under construction, and no slot is
so twice. -/
structure Pool.Inv (max_concurrency : ℕ) (s : Pool) : Prop where
  count : s.free.length + s.threads.countP Phase.isHolding + s.growing = s.total
  total_le : s.total ≤ max_concurrency
  owners_le : ∀ x, s.owners x ≤ 1
  /-- Slots that are not created yet are nowhere. -/
  fresh : ∀ x, s.created ≤ x → s.owners x = 0

section Conservation

variable {max_concurrency : ℕ} {s t s' : Pool} {m : Move}

/-- A thread goes from phase `p` to phase `q`: the invariant is kept if the slots are counted as
before, and only new slots get an owner. -/
theorem Pool.Inv.become {i total created : ℕ} {free : List ℕ} {p q : Phase}
    (hi : s.Inv max_concurrency) (hp : s.threads[i]? = some p)
    (hcount : free.length + q.isHolding.toNat + q.isGrowing.toNat + s.total =
      s.free.length + p.isHolding.toNat + p.isGrowing.toNat + total)
    (hle : total ≤ max_concurrency) (hcreated : s.created ≤ created)
    (howners : ∀ x, free.count x + (q.slot == some x).toNat =
      s.free.count x + (p.slot == some x).toNat + (decide (s.created ≤ x ∧ x < created)).toNat) :
    Pool.Inv max_concurrency ⟨free, total, created, s.threads.set i q⟩ := by
  -- Counts over the threads change by what one thread contributes before and after.
  have hset : ∀ P : Phase → Bool, (s.threads.set i q).countP P + (P p).toNat =
      s.threads.countP P + (P q).toNat := by
    intro P
    have hset := @countP_set_add _ P _ _ _ q hp
    simpa only [toNat_eq_ite] using hset
  have howner : ∀ x, Pool.owners ⟨free, total, created, s.threads.set i q⟩ x =
      s.owners x + (decide (s.created ≤ x ∧ x < created)).toNat := by
    intro x
    have hthreads := hset fun p => p.slot == some x
    have hfree := howners x
    simp only [Pool.owners]
    omega
  refine ⟨?_, hle, fun x => ?_, fun x hx => ?_⟩
  · have hholding := hset Phase.isHolding
    have hgrowing := hset Phase.isGrowing
    have hbefore := hi.count
    simp only [Pool.growing] at hbefore ⊢
    omega
  · rw [howner]
    -- A new slot had no owner; an old one has as many as before.
    by_cases hx : s.created ≤ x ∧ x < created
    · rw [hi.fresh x hx.1, Nat.zero_add]
      exact Bool.toNat_le _
    · rw [decide_eq_false hx]
      exact hi.owners_le x
  · have hx' : ¬ (s.created ≤ x ∧ x < created) := fun h => absurd h.2 (not_lt.mpr hx)
    rw [howner, decide_eq_false hx', hi.fresh x (hcreated.trans hx)]
    rfl

/-- A slot under construction is claimed. -/
theorem Pool.Inv.total_pos (hi : s.Inv max_concurrency) {i : ℕ} (h : s.threads[i]? = some .growing) :
    0 < s.total := by
  have hpos : 0 < s.growing :=
    List.countP_pos_iff.mpr ⟨_, List.mem_of_getElem? h, rfl⟩
  have hcount := hi.count
  omega

/-- A change keeps the invariant. -/
theorem Pool.Inv.change (hmax : max_concurrency < 2^32) (hi : s.Inv max_concurrency)
    (h : Change max_concurrency s m t) : t.Inv max_concurrency := by
  -- Only `create` makes a slot; in the other cases no slot is new.
  have hnone : ∀ x, ¬ (s.created ≤ x ∧ x < s.created) := fun x hx => absurd hx.1 (not_le.mpr hx.2)
  have hle := hi.total_le
  cases h with
  | @take i slot free p _ hp hphase hfree =>
    refine hi.become hp ?_ hle le_rfl fun x => ?_
    · rcases hphase with rfl | rfl <;>
        simp [hfree, Phase.isHolding, Phase.slot, Phase.isGrowing, Nat.add_comm]
    · rcases hphase with rfl | rfl <;>
        simp [hfree, Phase.slot, hnone, List.count_cons, toNat_eq_ite]
  | @grow i hp hfree hroom =>
    -- The claim is made below the limit, so the counter does not wrap.
    have hinc := inc32_eq (n := s.total) (by omega)
    refine hi.become hp ?_ (hinc ▸ hroom) le_rfl fun x => ?_
    · simp [hinc, Phase.isHolding, Phase.slot, Phase.isGrowing]
      omega
    · simp [Phase.slot, hnone]
  | @wait i p _ hp hfree hphase =>
    refine hi.become hp ?_ hle le_rfl fun x => ?_
    · rcases hphase with ⟨rfl, -⟩ | rfl <;> simp [Phase.isHolding, Phase.slot, Phase.isGrowing]
    · rcases hphase with ⟨rfl, -⟩ | rfl <;> simp [Phase.slot, hnone]
  | @create i hp =>
    refine hi.become hp ?_ hle (Nat.le_succ _) fun x => ?_
    · simp [Phase.isHolding, Phase.slot, Phase.isGrowing]
    · have hx : s.created ≤ x ∧ x < s.created + 1 ↔ s.created = x := by omega
      simp only [hx]
      simp [Phase.slot, toNat_eq_ite]
  | @fail i w hp =>
    -- The claim is given back; it was counted, so the counter does not go below 0.
    have hpos := hi.total_pos hp
    have hdec := dec32_eq hpos (by omega)
    refine hi.become hp ?_ (hdec ▸ (Nat.sub_le _ _).trans hle) le_rfl fun x => ?_
    · simp [hdec, Phase.isHolding, Phase.slot, Phase.isGrowing]
      omega
    · simp [Phase.slot, hnone]
  | @give i slot hp =>
    refine hi.become hp ?_ hle le_rfl fun x => ?_
    · simp [Phase.isHolding, Phase.slot, Phase.isGrowing]
    · simp [Phase.slot, hnone, List.count_cons, toNat_eq_ite]
  | @leave i w hp =>
    exact hi.become hp (by simp [Phase.isHolding, Phase.slot, Phase.isGrowing]) hle le_rfl
      fun x => by simp [Phase.slot, hnone]
  | @wake i hp =>
    exact hi.become hp (by simp [Phase.isHolding, Phase.slot, Phase.isGrowing]) hle le_rfl
      fun x => by simp [Phase.slot, hnone]

/-- A notification keeps the invariant, as a thread that wakes by itself does. -/
theorem Pool.Inv.woken (hmax : max_concurrency < 2^32) (hi : t.Inv max_concurrency)
    (h : Woken t s') : s'.Inv max_concurrency := by
  obtain rfl | ⟨j, hj, rfl⟩ := h
  · exact hi
  · exact hi.change hmax (.wake hj)

/-- A step keeps the invariant. -/
theorem Pool.Inv.step (hmax : max_concurrency < 2^32) {a : ℕ × Move} (hi : s.Inv max_concurrency)
    (h : s.step max_concurrency a = some s') : s'.Inv max_concurrency := by
  obtain ⟨t, hchange, hwoken⟩ := step_cases h
  exact (hi.change hmax hchange).woken hmax hwoken

/-- The invariant of the pool holds at the start. -/
theorem inv_initial (max_concurrency n : ℕ) : (Pool.initial n).Inv max_concurrency := by
  have hidle : ∀ P : Phase → Bool, P .idle = false → (List.replicate n Phase.idle).countP P = 0 := by
    intro P hP
    simp [List.countP_replicate, hP]
  refine ⟨?_, Nat.zero_le _, fun x => ?_, fun x _ => ?_⟩
  · simp [Pool.initial, Pool.growing, hidle Phase.isHolding rfl, hidle Phase.isGrowing rfl]
  · simp [Pool.initial, Pool.owners, hidle (fun p => p.slot == some x) rfl]
  · simp [Pool.initial, Pool.owners, hidle (fun p => p.slot == some x) rfl]

end Conservation

/-- The slot pool is conserved: in every state that any number of threads can reach, the free slots,
the held slots and the slots under construction are as many as `total_slots_`, which is at most
`max_concurrency`, and no slot is free and held or held by two threads. So at most `max_concurrency`
threads hold a slot. -/
theorem slotPool_conserved {max_concurrency : ℕ} (hmax : max_concurrency < 2^32) (n : ℕ)
    {as : List (ℕ × Move)} {s : Pool}
    (hrun : runSteps (Pool.step max_concurrency) as (.initial n) = some s) :
    s.free.length + s.held.length + s.growing = s.total ∧ s.total ≤ max_concurrency ∧
      (s.free ++ s.held).Nodup ∧ s.held.length ≤ max_concurrency := by
  have hi : s.Inv max_concurrency :=
    runSteps_invariant (fun _ _ _ hi h => hi.step hmax h) (inv_initial _ n) hrun
  have hheld := s.length_held
  have hcount := hi.count
  have hle := hi.total_le
  refine ⟨by omega, hle, ?_, by omega⟩
  rw [List.nodup_iff_count_le_one]
  intro x
  rw [List.count_append, Pool.held, List.count_filterMap]
  exact hi.owners_le x

/-- Two threads and one slot: the first creates it and gives it back, and the second, which waited
for it, has it. -/
theorem slotPool_conserved_two_threads :
    ∃ s, runSteps (Pool.step 1) [(0, .acquire), (1, .acquire), (0, .created), (0, .release),
        (0, .notify (some 1)), (1, .test)] (.initial 2) = some s ∧
      s.free.length + s.held.length + s.growing = s.total ∧ s.total ≤ 1 ∧
      (s.free ++ s.held).Nodup ∧ s.held.length ≤ 1 := by
  have hrun : runSteps (Pool.step 1) [(0, .acquire), (1, .acquire), (0, .created), (0, .release),
      (0, .notify (some 1)), (1, .test)] (.initial 2) =
      some ⟨[], 1, 1, [.idle, .holding 0]⟩ := by decide
  exact ⟨_, hrun, slotPool_conserved (by decide) 2 hrun⟩

end S3Rdma.Server
