import S3Rdma.Probe.GuardWitness

/-!
# The counters of a context fit an `int`

The counters of `RigContext` are of type `std::atomic<int>`. A call increments each of them at most
once, so none is greater than the number of calls: what is counted, and the calls that can still be
counted, are together no more than the calls that have entered (`System.Tallied`). A context is
called at most `INT_MAX` times, so nothing wraps around (`System.Reachable.fits`).
-/

namespace S3Rdma.Probe

/-- The messages that were counted, of any kind. -/
def RigContext.messages (x : RigContext) : ℤ :=
  x.http_attempts + x.partial_messages + x.tokenless_messages

/-- The message of a call at this point can still be counted. -/
def Pc.mayCount : Pc → Bool
  | .entered | .gating | .building | .submitting | .latching | .exchanging | .counting => true
  | _ => false

/-- The response to a call at this point can still be counted. -/
def Pc.mayRespond : Pc → Bool
  | .takingBack | .refused | .comparing _ _ | .clearing | .tookBack | .recording => true
  | pc => pc.mayCount

/-- What a step of a call does to the counters of messages and responses: none goes down, and what a
call counts it cannot count again. -/
structure Counts (x : RigContext) (c : Call) (x' : RigContext) (c' : Call) : Prop where
  http_attempts : x.http_attempts ≤ x'.http_attempts
  partial_messages : x.partial_messages ≤ x'.partial_messages
  tokenless_messages : x.tokenless_messages ≤ x'.tokenless_messages
  responses : x.responses ≤ x'.responses
  messages_once : x'.messages + (if c'.pc.mayCount then 1 else 0) ≤
    x.messages + if c.pc.mayCount then 1 else 0
  responses_once : x'.responses + (if c'.pc.mayRespond then 1 else 0) ≤
    x.responses + if c.pc.mayRespond then 1 else 0

section Step

variable {P : Platform} {u : RigSetup} {now : ℤ} {x x' : RigContext} {c c' : Call} {m : Move}

/-- A step that leaves these counters alone. -/
theorem Counts.same (hx : x'.http_attempts = x.http_attempts ∧
      x'.partial_messages = x.partial_messages ∧ x'.tokenless_messages = x.tokenless_messages ∧
      x'.responses = x.responses)
    (hcount : c'.pc.mayCount = true → c.pc.mayCount = true)
    (hrespond : c'.pc.mayRespond = true → c.pc.mayRespond = true) : Counts x c x' c' := by
  obtain ⟨h₁, h₂, h₃, h₄⟩ := hx
  refine ⟨h₁.ge, h₂.ge, h₃.ge, h₄.ge, ?_, ?_⟩
  · rw [RigContext.messages, h₁, h₂, h₃, ← RigContext.messages]
    split_ifs <;> simp_all
  · rw [h₄]
    split_ifs <;> simp_all

/-- What one step of a call does to the counters. -/
theorem act_counts (h : act P u now x c m = some (x', c')) : Counts x c x' c' := by
  unfold act at h
  cases hpc : c.pc <;> rw [hpc] at h <;> cases m <;> dsimp only at h <;>
    try simp only [reduceCtorEq] at h
  case building.build =>
    obtain ⟨c₁, hbuild, heq⟩ := Option.map_eq_some_iff.mp h
    obtain ⟨rfl, rfl⟩ := Prod.mk.inj heq
    exact .same ⟨rfl, rfl, rfl, rfl⟩ (fun _ => by rw [hpc]; rfl) (fun _ => by rw [hpc]; rfl)
  case exchanging.reply =>
    obtain ⟨c₁, hrecv, heq⟩ := Option.map_eq_some_iff.mp h
    obtain ⟨rfl, rfl⟩ := Prod.mk.inj heq
    exact .same ⟨rfl, rfl, rfl, rfl⟩ (fun _ => by rw [hpc]; rfl) (fun _ => by rw [hpc]; rfl)
  case counting.next =>
    obtain ⟨res, -, heq⟩ := Option.map_eq_some_iff.mp h
    obtain ⟨rfl, rfl⟩ := Prod.mk.inj heq
    unfold countMessage
    split_ifs <;> constructor <;> simp [RigContext.messages, Pc.mayCount, Pc.mayRespond, hpc] <;> omega
  case recording.next =>
    obtain ⟨res, -, heq⟩ := Option.map_eq_some_iff.mp h
    obtain ⟨rfl, rfl⟩ := Prod.mk.inj heq
    split_ifs <;> constructor <;> simp [RigContext.messages, Pc.mayCount, Pc.mayRespond, hpc]
  -- The other steps count nothing, and a call does not go back.
  all_goals
    (try split at h) <;> (try split at h) <;> try split at h
    all_goals
      first
      | obtain ⟨rfl, rfl⟩ := Prod.mk.inj (Option.some.inj h)
        refine .same ⟨rfl, rfl, rfl, rfl⟩ ?_ ?_ <;> rw [hpc] <;>
          simp only [Pc.mayCount, Pc.mayRespond, Bool.false_eq_true, IsEmpty.forall_iff, imp_self]
      | cases h

end Step

/-! ## The counters of a run -/

section System

variable {P : Platform} {u : RigSetup} {s s' : System} {a : ℤ × Action}

/-- A call enters only while there is room for it in `invocations`. -/
theorem enter_lt (h : Probe.step P u s a = some s') {thread : ℕ} {rdma : Option Bytes} {size : ℕ}
    {offset : ℤ} (ha : a.2 = .enter thread rdma size offset) : s.ctx.invocations < INT_MAX := by
  unfold Probe.step at h
  rw [ha] at h
  dsimp only at h
  split_ifs at h with hclock hroom
  exact hroom.1

/-- Every counter is a number of calls. -/
structure System.Tallied (s : System) : Prop where
  invocations : s.ctx.invocations = s.calls.length
  le_max : s.ctx.invocations ≤ INT_MAX
  active : s.ctx.active = s.calls.countP fun c => !c.done
  http_attempts : 0 ≤ s.ctx.http_attempts
  partial_messages : 0 ≤ s.ctx.partial_messages
  tokenless_messages : 0 ≤ s.ctx.tokenless_messages
  responses : 0 ≤ s.ctx.responses
  messages_le : s.ctx.messages + s.calls.countP (·.pc.mayCount) ≤ s.calls.length
  responses_le : s.ctx.responses + s.calls.countP (·.pc.mayRespond) ≤ s.calls.length

/-- A call that enters is counted by `invocations` and `active`, and may be counted by the others. -/
theorem System.Tallied.enter (h : s.Tallied) (hlt : s.ctx.invocations < INT_MAX) (thread : ℕ)
    (rdma : Option Bytes) (size : ℕ) (offset clock : ℤ) :
    System.Tallied ⟨s.ctx.enter, s.calls ++ [s.ctx.newCall thread rdma size offset], clock⟩ := by
  obtain ⟨hinv, -, hactive, hhttp, hpartial, htokenless, hresponses, hmessages, hresponded⟩ := h
  have hmayCount : (s.ctx.newCall thread rdma size offset).pc.mayCount = true := rfl
  have hmayRespond : (s.ctx.newCall thread rdma size offset).pc.mayRespond = true := rfl
  have hdone : (s.ctx.newCall thread rdma size offset).done = false := rfl
  refine ⟨?_, Int.add_one_le_iff.mpr hlt, ?_, hhttp, hpartial, htokenless, hresponses, ?_, ?_⟩
  · show s.ctx.invocations + 1 = _
    rw [hinv, List.length_append, List.length_singleton]
    norm_cast
  · show s.ctx.active + 1 = _
    rw [hactive, List.countP_append, List.countP_singleton, hdone]
    norm_cast
  · show s.ctx.messages + _ ≤ _
    rw [List.countP_append, List.countP_singleton, hmayCount, List.length_append,
      List.length_singleton, if_pos rfl]
    omega
  · show s.ctx.responses + _ ≤ _
    rw [List.countP_append, List.countP_singleton, hmayRespond, List.length_append,
      List.length_singleton, if_pos rfl]
    omega

/-- A step of a call keeps the counters within the number of calls. -/
theorem System.Tallied.act {i : ℕ} {m : Move} {now : ℤ} {c c' : Call} {x' : RigContext}
    (h : s.Tallied) (hc : s.calls[i]? = some c) (hact : Probe.act P u now s.ctx c m = some (x', c')) :
    System.Tallied ⟨x', s.calls.set i c', now⟩ := by
  have hframe := act_frame hact
  have hcounts := act_counts hact
  have hcount := countP_set_add (p := fun d : Call => d.pc.mayCount) (b := c') hc
  have hrespond := countP_set_add (p := fun d : Call => d.pc.mayRespond) (b := c') hc
  have hmessages := hcounts.messages_once
  have hresponses := hcounts.responses_once
  have hbefore := h.messages_le
  have hbefore' := h.responses_le
  refine ⟨?_, ?_, hframe.active hc h.active, h.http_attempts.trans hcounts.http_attempts,
    h.partial_messages.trans hcounts.partial_messages,
    h.tokenless_messages.trans hcounts.tokenless_messages, h.responses.trans hcounts.responses,
    ?_, ?_⟩
  · rw [List.length_set]
    exact hframe.invocations.trans h.invocations
  · exact hframe.invocations.trans_le h.le_max
  · rw [List.length_set]
    dsimp only at hcount hmessages ⊢
    split_ifs at hcount hmessages <;> omega
  · rw [List.length_set]
    dsimp only at hrespond hresponses ⊢
    split_ifs at hrespond hresponses <;> omega

/-- A step of the system keeps the counters within the number of calls. -/
theorem System.Tallied.step (h : s.Tallied) (hstep : Probe.step P u s a = some s') :
    s'.Tallied := by
  rcases step_cases hstep with
    ⟨thread, rdma, size, offset, ha, rfl⟩ | ⟨i, m, c, x', c', -, hc, hact, rfl⟩
  · exact h.enter (enter_lt hstep ha) thread rdma size offset a.1
  · exact h.act hc hact

/-- A counter has a value of type `int` that is not negative. -/
def IsCount (n : ℤ) : Prop := 0 ≤ n ∧ n ≤ INT_MAX

/-- In every state that a context can reach, no counter has left the range of an `int`. -/
theorem System.Reachable.fits (h : s.Reachable P u) :
    ∀ n ∈ [s.ctx.invocations, s.ctx.active, s.ctx.http_attempts, s.ctx.partial_messages,
      s.ctx.tokenless_messages, s.ctx.responses, s.ctx.submitted, s.ctx.completed], IsCount n := by
  have hcounted := h.inv.counted
  obtain ⟨clock, as, hrun⟩ := h
  have hinitial : (System.initial clock).Tallied :=
    ⟨rfl, (by decide : (0 : ℤ) ≤ INT_MAX), rfl, le_rfl, le_rfl, le_rfl, le_rfl, le_rfl, le_rfl⟩
  obtain ⟨hinv, hmax, hactive, hhttp, hpartial, htokenless, hresponses, hmessages, hresponded⟩ :=
    runSteps_invariant (fun _ _ _ hs hstep => System.Tallied.step hs hstep) hinitial hrun
  have hle : ∀ p : Call → Bool, s.calls.countP p ≤ s.calls.length := fun p => List.countP_le_length
  have hactive' := hle fun c => !c.done
  have hheld := (s.calls.map Call.ticket).countP_le_length (p := Ticket.held)
  have hcredited := (s.calls.map Call.ticket).countP_le_length (p := (· == .credited))
  rw [List.length_map] at hheld hcredited
  have hsubmitted := hcounted.submitted_eq
  have hcompleted := hcounted.completed_eq
  unfold RigContext.messages at hmessages
  simp only [List.forall_mem_cons, List.not_mem_nil, IsEmpty.forall_iff, implies_true, and_true,
    IsCount]
  omega

end System

end S3Rdma.Probe
