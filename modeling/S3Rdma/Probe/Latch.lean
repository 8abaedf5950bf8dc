import S3Rdma.Probe.Gate

/-!
# The latch for an unknown completion

`unknown` is to keep every later call from sending once a request may have had an effect without a
receipt. It is set by each submission, and cleared by a call that has taken its submission back or
has completed it. The comparison of the counters and the store that clears the flag are two steps,
and so are the credit and its store: a call that submits in between sets the flag, and the store
then clears it although that submission is open. So the latch fails (`rigCallback_latch_cleared`).

It holds in every run in which the flag is cleared only while the two counters are equal. Then an
open submission keeps the flag set (`System.Latched`), because an open ticket makes the counters
differ (`Counted.completed_lt`), and a call that enters is stopped (`Call.Barred`).
-/

namespace S3Rdma.Probe

/-- A call sent something and returned without an acceptable receipt. A call that threw when it had
received an acceptable one is not counted here, although its submission stays open too. -/
def Call.Lost (u : RigSetup) (c : Call) : Prop :=
  c.emitted = true ∧ c.done = true ∧ c.accepted u = false

instance (u : RigSetup) (c : Call) : Decidable (c.Lost u) := inferInstanceAs (Decidable (_ ∧ _))

/-- The call that an action moves. -/
def System.mover (s : System) (a : ℤ × Action) : Option Call :=
  match a.2 with
  | .enter _ _ _ _ => none
  | .move i _ => s.calls[i]?

/-- A step that clears `unknown` is taken while the counters are equal. -/
def ClearsWhenEqual (s : System) (a : ℤ × Action) : Prop :=
  ∀ c ∈ s.mover a, c.pc = .clearing ∨ c.pc = .releasing → s.ctx.submitted = s.ctx.completed

instance (s : System) (a : ℤ × Action) : Decidable (ClearsWhenEqual s a) :=
  inferInstanceAs (Decidable (∀ c ∈ s.mover a, _ → _))

/-! ## An open submission keeps the flag set -/

section Latched

variable {P : Platform} {u : RigSetup} {s s' : System} {a : ℤ × Action}

/-- The ticket of a call is open: it may have been used, and is not credited. -/
def Call.Open (c : Call) : Prop :=
  c.ticket.held = true ∧ c.ticket ≠ .credited ∧ c.pc ≠ .latching

/-- The flag is set as long as there is an open ticket. -/
def System.Latched (s : System) : Prop := ∀ c ∈ s.calls, c.Open → s.ctx.unknown = true

/-- A call that emitted and was not accepted has an open ticket when it has returned. -/
theorem Call.Lost.open {c : Call} (hlost : c.Lost u) (hok : c.Ok u) : c.Open := by
  obtain ⟨hemitted, hdone, hnot⟩ := hlost
  refine ⟨hok.emitted_held hemitted, ?_, ?_⟩
  · intro hcredited
    have hacc := hok.sole_accepted (by rw [hcredited]; rfl)
    exact absurd (hnot.symm.trans hacc) (by decide)
  · intro hpc
    rw [Call.done, hpc] at hdone
    exact absurd hdone (by decide)

/-- There is no open ticket when the counters are equal. -/
theorem System.Inv.not_open (hinv : s.Inv u) (heq : s.ctx.submitted = s.ctx.completed) {c : Call}
    (hc : c ∈ s.calls) : ¬ c.Open := by
  rintro ⟨hheld, hnot, -⟩
  obtain ⟨i, hi⟩ := List.mem_iff_getElem?.mp (List.mem_map_of_mem (f := Call.ticket) hc)
  have hlt := hinv.counted.completed_lt hi hheld hnot
  omega

/-- A step keeps the flag set, if it clears it only while the counters are equal. -/
theorem System.Latched.step (hlatched : s.Latched) (hinv : s.Inv u) (hmeets : ClearsWhenEqual s a)
    (h : Probe.step P u s a = some s') : s'.Latched := by
  rcases step_cases h with
    ⟨thread, rdma, size, offset, -, rfl⟩ | ⟨i, m, c, x', c', ha, hc, hact, rfl⟩
  · intro d hd hopen
    rcases List.mem_append.mp hd with hd | hd
    · exact hlatched d hd hopen
    · rw [List.mem_singleton.mp hd] at hopen
      exact absurd hopen.1 Bool.false_ne_true
  · have hmem := List.mem_of_getElem? hc
    have heffect := (act_spec (hinv.calls_ok c hmem) hact).2
    intro d hd hopen
    show x'.unknown = true
    -- Either another call's ticket is open, as it was before, or that of the call that moves.
    have hbefore : x'.unknown = s.ctx.unknown → (d = c' → c.Open) → x'.unknown = true := by
      intro hsame hmoved
      rw [hsame]
      rcases List.mem_or_eq_of_mem_set hd with hd | rfl
      · exact hlatched d hd hopen
      · exact hlatched c hmem (hmoved rfl)
    cases heffect with
    | quiet hticket _ _ hsame hpc _ =>
      refine hbefore hsame fun hdc => ?_
      rw [hdc] at hopen
      exact ⟨hticket ▸ hopen.1, hticket ▸ hopen.2.1, hpc⟩
    | take _ _ hpc' _ _ hsame => exact hbefore hsame fun hdc => absurd (hdc ▸ hpc') hopen.2.2
    | latch _ _ _ hset => exact hset
    | giveBack _ hafter _ _ hsame =>
      refine hbefore hsame fun hdc => ?_
      rw [Call.Open, hdc, hafter] at hopen
      exact absurd hopen.1 (by decide)
    | pass hb _ hpc _ _ _ hsame =>
      exact hbefore hsame fun _ => ⟨by rw [hb]; rfl, by rw [hb]; decide, hpc⟩
    | credit _ hafter _ _ hsame =>
      refine hbefore hsame fun hdc => ?_
      rw [Call.Open, hdc, hafter] at hopen
      exact absurd rfl hopen.2.1
    | clear hpc hticket _ _ =>
      -- The counters are equal, so that no ticket was open, and none is now.
      have hmover : c ∈ s.mover a := by rw [System.mover, ha]; exact hc
      have heq := hmeets c hmover hpc
      have hpc₀ : c.pc ≠ .latching := by rcases hpc with hpc | hpc <;> simp [hpc]
      rcases List.mem_or_eq_of_mem_set hd with hd | rfl
      · exact absurd hopen (hinv.not_open heq hd)
      · exact absurd ⟨hticket ▸ hopen.1, hticket ▸ hopen.2.1, hpc₀⟩ (hinv.not_open heq hmem)

end Latched

/-! ## What a step leaves as it is -/

/-- What a call takes with it from the entry section. -/
structure Entry where
  thread : ℕ
  rdma : Option Bytes
  size : ℕ
  offset : ℤ
  invocation : ℤ
  entered_while_active : Bool
  recorded_thread : ℕ

/-- The entry of a call. -/
def Call.entry (c : Call) : Entry where
  thread := c.thread
  rdma := c.rdma
  size := c.size
  offset := c.offset
  invocation := c.at_.invocation
  entered_while_active := c.at_.entered_while_active
  recorded_thread := c.at_.thread

section Frame

variable {P : Platform} {u : RigSetup} {now : ℤ} {x x' : RigContext} {c c' : Call} {m : Move}

/-- What a step of a call leaves as it is, and how the call leaves or is recorded. -/
structure Frame (x : RigContext) (c : Call) (x' : RigContext) (c' : Call) : Prop where
  not_done : c.done = false
  entry : c'.entry = c.entry
  invocations : x'.invocations = x.invocations
  stays : c'.done = false → x'.active = x.active
  leaves : c'.done = true → x'.active = x.active - 1
  attempts : x'.attempts = x.attempts ∨ x'.attempts = x.attempts ++ [c.at_] ∧
    ∃ rc last, c.pc = .pushing rc last ∧
      c' = { c with pc := if last then .leaving rc else .checking rc }

/-- Building the headers stays within the call. -/
theorem build_entry {time : ℤ} (h : c.build P u time = some c') :
    c'.entry = c.entry ∧ c'.done = false := by
  unfold Call.build at h
  split at h
  · split at h <;>
    · obtain rfl := Option.some.inj h
      exact ⟨rfl, rfl⟩
  · exact absurd h (by simp)

/-- The return of `raw_http_get` stays within the call. -/
theorem receive_entry {net : Network} (h : c.receive u net = some c') :
    c'.entry = c.entry ∧ c'.done = false := by
  unfold Call.receive at h
  split at h
  · split_ifs at h <;>
    · obtain rfl := Option.some.inj h
      exact ⟨rfl, rfl⟩
  · exact absurd h (by simp)

/-- Counting a message stays within the call. -/
theorem countMessage_active (res : RawResponse) (x : RigContext) :
    (countMessage res x).invocations = x.invocations ∧ (countMessage res x).active = x.active ∧
      (countMessage res x).attempts = x.attempts := by
  unfold countMessage
  split_ifs <;> exact ⟨rfl, rfl, rfl⟩

/-- A step that neither leaves the call nor pushes a record. -/
theorem Frame.within (hdone : c.done = false) (hdone' : c'.done = false) (hentry : c'.entry = c.entry)
    (hx : x'.invocations = x.invocations ∧ x'.active = x.active ∧ x'.attempts = x.attempts) :
    Frame x c x' c' where
  not_done := hdone
  entry := hentry
  invocations := hx.1
  stays _ := hx.2.1
  leaves h := absurd (hdone'.symm.trans h) (by decide)
  attempts := .inl hx.2.2

/-- Looking at the receipt completes the record. -/
theorem recordReceipt_eq (proto : ProtocolOptions) (size : ℕ) (res : RawResponse) (a : Attempt) :
    ∃ response http_status reply count_present declared natural_return completion_candidate,
      recordReceipt u proto size res a = { a with
        response, http_status, reply, count_present, declared, natural_return, completion_candidate
        qualified_complete := completionAuthority (viewReceipt res size) proto u.expected size } := by
  unfold recordReceipt
  dsimp only
  split_ifs <;> exact ⟨_, _, _, _, _, _, _, rfl⟩

/-- One step of a call leaves its entry and the other shared variables as `Frame` says. -/
theorem act_frame (h : act P u now x c m = some (x', c')) : Frame x c x' c' := by
  unfold act at h
  cases hpc : c.pc <;> rw [hpc] at h <;> cases m <;> dsimp only at h <;>
    try simp only [reduceCtorEq] at h
  all_goals have hdone : c.done = false := by rw [Call.done, hpc]
  case building.build =>
    obtain ⟨c₁, hbuild, heq⟩ := Option.map_eq_some_iff.mp h
    obtain ⟨rfl, rfl⟩ := Prod.mk.inj heq
    obtain ⟨hentry, hdone'⟩ := build_entry hbuild
    exact .within hdone hdone' hentry ⟨rfl, rfl, rfl⟩
  case exchanging.reply =>
    obtain ⟨c₁, hrecv, heq⟩ := Option.map_eq_some_iff.mp h
    obtain ⟨rfl, rfl⟩ := Prod.mk.inj heq
    obtain ⟨hentry, hdone'⟩ := receive_entry hrecv
    exact .within hdone hdone' hentry ⟨rfl, rfl, rfl⟩
  case counting.next =>
    obtain ⟨res, -, heq⟩ := Option.map_eq_some_iff.mp h
    obtain ⟨rfl, rfl⟩ := Prod.mk.inj heq
    exact .within hdone rfl rfl (countMessage_active res x)
  case recording.next =>
    obtain ⟨res, -, heq⟩ := Option.map_eq_some_iff.mp h
    obtain ⟨rfl, rfl⟩ := Prod.mk.inj heq
    refine .within hdone rfl rfl ?_
    split_ifs <;> exact ⟨rfl, rfl, rfl⟩
  case reading.next =>
    split at h
    · rename_i proto res _ _
      obtain ⟨rfl, rfl⟩ := Prod.mk.inj (Option.some.inj h)
      refine .within hdone rfl ?_ ⟨rfl, rfl, rfl⟩
      obtain ⟨_, _, _, _, _, _, _, hrecord⟩ := recordReceipt_eq (u := u) proto c.size res c.at_
      rw [hrecord]
      rfl
    · exact absurd h (by simp)
  case pushing.next rc last =>
    obtain ⟨rfl, rfl⟩ := Prod.mk.inj (Option.some.inj h)
    refine ⟨hdone, rfl, rfl, fun _ => rfl, ?_, .inr ⟨rfl, rc, last, hpc, rfl⟩⟩
    cases last <;> nofun
  case leaving.next rc =>
    obtain ⟨rfl, rfl⟩ := Prod.mk.inj (Option.some.inj h)
    exact ⟨hdone, rfl, rfl, nofun, fun _ => rfl, .inl rfl⟩
  -- The other steps stay within the call.
  all_goals
    (try split at h) <;> (try split at h) <;> try split at h
    all_goals
      first
      | obtain ⟨rfl, rfl⟩ := Prod.mk.inj (Option.some.inj h)
        exact .within hdone rfl rfl ⟨rfl, rfl, rfl⟩
      | cases h

end Frame

/-! ## A call that is stopped -/

/-- The call has sent nothing, and is on its way to return `-ENOTSUP` if the flag is set when it
looks at it. -/
def Call.Barred (c : Call) : Prop :=
  c.emitted = false ∧ 1 ≤ c.at_.invocation ∧
    match c.pc with
    | .entered | .gating => True
    | .ending rc last | .pushing rc last => rc = -ENOTSUP ∧ last = true
    | .leaving rc | .returned rc => rc = -ENOTSUP
    | _ => False

/-- How many steps of its own a stopped call has to go. -/
def Pc.toGo : Pc → ℕ
  | .entered => 5
  | .gating => 4
  | .ending _ _ => 3
  | .pushing _ _ => 2
  | .leaving _ => 1
  | _ => 0

section Barred

variable {P : Platform} {u : RigSetup} {now : ℤ} {x x' : RigContext} {c c' : Call} {m : Move}

/-- While the guard or the flag is set, a step of a stopped call brings it nearer to its end. -/
theorem Call.Barred.act (hb : c.Barred) (hset : (u.guard || x.unknown) = true)
    (h : Probe.act P u now x c m = some (x', c')) :
    c'.Barred ∧ x'.unknown = x.unknown ∧ c'.pc.toGo < c.pc.toGo := by
  obtain ⟨hemitted, hinvocation, hpcs⟩ := hb
  -- A barred call can only be at these points, and from each it goes on towards its return.
  cases hpc : c.pc <;> simp only [hpc] at hpcs
  case entered =>
    cases m <;> simp only [Probe.act, hpc, reduceCtorEq] at h
    split_ifs at h <;> obtain ⟨rfl, rfl⟩ := Prod.mk.inj (Option.some.inj h)
    · exact ⟨⟨hemitted, hinvocation, rfl⟩, rfl, show 1 < 5 by decide⟩
    · exact ⟨⟨hemitted, hinvocation, trivial⟩, rfl, Nat.lt_succ_self 4⟩
  case gating =>
    cases m <;> simp only [Probe.act, hpc, reduceCtorEq] at h
    rw [if_pos ⟨hinvocation, hset⟩] at h
    obtain ⟨rfl, rfl⟩ := Prod.mk.inj (Option.some.inj h)
    exact ⟨⟨hemitted, hinvocation, rfl, rfl⟩, rfl, Nat.lt_succ_self 3⟩
  case ending =>
    cases m <;> simp only [Probe.act, hpc, reduceCtorEq] at h
    obtain ⟨rfl, rfl⟩ := Prod.mk.inj (Option.some.inj h)
    exact ⟨⟨hemitted, hinvocation, hpcs⟩, rfl, Nat.lt_succ_self 2⟩
  case pushing =>
    obtain ⟨rfl, rfl⟩ := hpcs
    cases m <;> simp only [Probe.act, hpc, reduceCtorEq] at h <;>
    · obtain ⟨rfl, rfl⟩ := Prod.mk.inj (Option.some.inj h)
      exact ⟨⟨hemitted, hinvocation, rfl⟩, rfl, Nat.lt_succ_self 1⟩
  case leaving =>
    cases m <;> simp only [Probe.act, hpc, reduceCtorEq] at h
    obtain ⟨rfl, rfl⟩ := Prod.mk.inj (Option.some.inj h)
    exact ⟨⟨hemitted, hinvocation, hpcs⟩, rfl, Nat.lt_succ_self 0⟩
  case returned => cases m <;> simp only [Probe.act, hpc, reduceCtorEq] at h

/-- A stopped call is never blocked, and it has returned when it has no step to go. -/
theorem Call.Barred.next (hb : c.Barred) (P : Platform) (u : RigSetup) (now : ℤ) (x : RigContext) :
    c.pc = .returned (-ENOTSUP) ∨ ∃ x' c', Probe.act P u now x c .next = some (x', c') := by
  obtain ⟨-, -, hpcs⟩ := hb
  cases hpc : c.pc <;> simp only [hpc] at hpcs
  case returned => exact .inl (by rw [hpcs])
  all_goals
    right
    simp only [Probe.act, hpc]
    try split_ifs
    all_goals exact ⟨_, _, rfl⟩

end Barred

section Latch

variable {P : Platform} {u : RigSetup} {s s' s₁ s₂ : System} {a : ℤ × Action}

/-- By its own steps, a stopped call returns `-ENOTSUP`. -/
theorem Call.Barred.returns {j : ℕ} (n : ℕ) {c : Call} (hb : c.Barred) (hle : c.pc.toGo ≤ n)
    (hc : s.calls[j]? = some c) (hunk : s.ctx.unknown = true) :
    ∃ k s' c', k ≤ n ∧
      runSteps (Probe.step P u) (List.replicate k (s.clock, .move j .next)) s = some s' ∧
      s'.calls[j]? = some c' ∧ c'.emitted = false ∧ c'.pc = .returned (-ENOTSUP) := by
  induction n generalizing s c with
  | zero =>
    rcases hb.next P u s.clock s.ctx with hpc | ⟨x', c', hact⟩
    · exact ⟨0, s, c, le_rfl, rfl, hc, hb.1, hpc⟩
    · have hlt := (hb.act (by rw [hunk, Bool.or_true]) hact).2.2
      omega
  | succ n ih =>
    rcases hb.next P u s.clock s.ctx with hpc | ⟨x', c', hact⟩
    · exact ⟨0, s, c, Nat.zero_le _, rfl, hc, hb.1, hpc⟩
    · obtain ⟨hb', hsame, hlt⟩ := hb.act (by rw [hunk, Bool.or_true]) hact
      have hlen : j < s.calls.length := (List.getElem?_eq_some_iff.mp hc).1
      have hstep : Probe.step P u s (s.clock, .move j .next) =
          some ⟨x', s.calls.set j c', s.clock⟩ := by
        simp [Probe.step, hc, hact]
      have hc' : (s.calls.set j c')[j]? = some c' := List.getElem?_set_self hlen
      obtain ⟨k, s', d, hk, hrun, hd⟩ := ih (s := ⟨x', s.calls.set j c', s.clock⟩) hb'
        (by omega) hc' (hsame.trans hunk)
      exact ⟨k + 1, s', d, by omega, runSteps_cons_eq_some.mpr ⟨_, hstep, hrun⟩, hd⟩

/-- What holds after a call was lost, when there were `n` calls: the lost call is there, and those
that have entered since are stopped. -/
structure System.AfterLoss (u : RigSetup) (n : ℕ) (s : System) : Prop where
  inv : s.Inv u
  latched : s.Latched
  lost : ∃ c ∈ s.calls, c.Lost u
  invocations : 1 ≤ s.ctx.invocations
  barred : ∀ (j : ℕ) (c : Call), n ≤ j → s.calls[j]? = some c → c.Barred

/-- The flag is set after a call was lost. -/
theorem System.AfterLoss.unknown {n : ℕ} (h : s.AfterLoss u n) : s.ctx.unknown = true := by
  obtain ⟨c, hc, hlost⟩ := h.lost
  exact h.latched c hc (hlost.open (h.inv.calls_ok c hc))

/-- A step keeps what holds after a call was lost. -/
theorem System.AfterLoss.step {n : ℕ} (h : s.AfterLoss u n) (hmeets : ClearsWhenEqual s a)
    (hstep : Probe.step P u s a = some s') : s'.AfterLoss u n := by
  have hunk := h.unknown
  have hinv' := h.inv.step hstep
  have hlatched' := h.latched.step h.inv hmeets hstep
  have hbarred' : ∀ (j : ℕ) (c : Call), n ≤ j → s'.calls[j]? = some c → c.Barred :=
    step_calls_from hstep h.barred (fun _ _ _ _ _ => ⟨rfl, h.invocations, trivial⟩)
      fun c m x' c' hb hact => (hb.act (by rw [hunk, Bool.or_true]) hact).1
  obtain ⟨d, hd, hlost⟩ := h.lost
  rcases step_cases hstep with
    ⟨thread, rdma, size, offset, -, rfl⟩ | ⟨i, m, c, x', c', -, hc, hact, rfl⟩
  · refine ⟨hinv', hlatched', ⟨d, List.mem_append_left _ hd, hlost⟩, ?_, hbarred'⟩
    have hpos := h.invocations
    show 1 ≤ s.ctx.invocations + 1
    omega
  · refine ⟨hinv', hlatched', ?_, ?_, hbarred'⟩
    · obtain ⟨k, hk⟩ := List.mem_iff_getElem?.mp hd
      -- A lost call is done and makes no further move, so it is not the one that moved.
      have hne : i ≠ k := by
        rintro rfl
        obtain rfl := Option.some.inj (hc.symm.trans hk)
        exact absurd ((act_frame hact).not_done.symm.trans hlost.2.1) (by decide)
      exact ⟨d, List.mem_of_getElem? ((List.getElem?_set_ne hne).trans hk), hlost⟩
    · show 1 ≤ x'.invocations
      rw [(act_frame hact).invocations]
      exact h.invocations

/-- The invocations are the calls that have entered. -/
theorem invocations_eq_length {clock : ℤ} {as : List (ℤ × Action)}
    (hrun : runSteps (Probe.step P u) as (.initial clock) = some s) :
    s.ctx.invocations = s.calls.length := by
  refine runSteps_invariant (I := fun s => s.ctx.invocations = s.calls.length) ?_ rfl hrun
  intro s a s' hlen hstep
  rcases step_cases hstep with
    ⟨thread, rdma, size, offset, -, rfl⟩ | ⟨i, m, c, x', c', -, -, hact, rfl⟩
  · show s.ctx.invocations + 1 = ((s.calls ++ [_]).length : ℤ)
    rw [List.length_append, List.length_singleton, hlen]
    norm_cast
  · show x'.invocations = ((s.calls.set i c').length : ℤ)
    rw [List.length_set, (act_frame hact).invocations, hlen]

/-- What holds when a call is lost in a run that clears the flag only while the counters are
equal. -/
theorem afterLoss {clock : ℤ} {as : List (ℤ × Action)}
    (hmeets : MeetsAlong (Probe.step P u) ClearsWhenEqual as (.initial clock))
    (hrun : runSteps (Probe.step P u) as (.initial clock) = some s)
    (hlost : ∃ c ∈ s.calls, c.Lost u) : s.AfterLoss u s.calls.length := by
  have hinv : s.Inv u ∧ s.Latched :=
    runSteps_invariant_of (I := fun s => s.Inv u ∧ s.Latched)
      (fun _ _ _ h hC hstep => ⟨h.1.step hstep, h.2.step h.1 hC hstep⟩)
      ⟨System.inv_initial clock, fun _ hc => absurd hc List.not_mem_nil⟩ hmeets hrun
  refine ⟨hinv.1, hinv.2, hlost, ?_, ?_⟩
  · obtain ⟨c, hc, -⟩ := hlost
    have hpos := List.length_pos_of_mem hc
    rw [invocations_eq_length hrun]
    omega
  · intro j c hj hc
    rw [List.getElem?_eq_none hj] at hc
    exact absurd hc (by simp)

/-- The latch, in every run in which the flag is cleared only while the counters are equal: when a
call has sent something and has returned without an accepted receipt, a call that enters later sends
nothing; if it has returned, it has returned `-ENOTSUP`, and it does so by at most five steps of its
own. -/
theorem rigCallback_latch {clock : ℤ} {as₁ as₂ : List (ℤ × Action)}
    (hmeets : MeetsAlong (Probe.step P u) ClearsWhenEqual (as₁ ++ as₂) (.initial clock))
    (hrun₁ : runSteps (Probe.step P u) as₁ (.initial clock) = some s₁)
    (hlost : ∃ c ∈ s₁.calls, c.Lost u)
    (hrun₂ : runSteps (Probe.step P u) as₂ s₁ = some s₂) {j : ℕ} {c : Call}
    (hj : s₁.calls.length ≤ j) (hc : s₂.calls[j]? = some c) :
    c.emitted = false ∧ (∀ rc, c.pc = .returned rc → rc = -ENOTSUP) ∧
      ∃ k s₃ c₃, k ≤ 5 ∧
        runSteps (Probe.step P u) (List.replicate k (s₂.clock, .move j .next)) s₂ = some s₃ ∧
        s₃.calls[j]? = some c₃ ∧ c₃.emitted = false ∧ c₃.pc = .returned (-ENOTSUP) := by
  obtain ⟨hmeets₁, hmeets₂⟩ := hmeets.of_append hrun₁
  have hafter : s₂.AfterLoss u s₁.calls.length :=
    runSteps_invariant_of (I := fun s => s.AfterLoss u s₁.calls.length)
      (fun _ _ _ h hC hstep => h.step hC hstep) (afterLoss hmeets₁ hrun₁ hlost) hmeets₂ hrun₂
  have hbarred := hafter.barred j c hj hc
  refine ⟨hbarred.1, ?_, ?_⟩
  · intro rc hpc
    have hpcs := hbarred.2.2
    simp only [hpc] at hpcs
    exact hpcs
  · have htogo : c.pc.toGo ≤ 5 := by cases c.pc <;> simp [Pc.toGo]
    exact hbarred.returns 5 htogo hc hafter.unknown

end Latch

/-- A call loses the answer to its request. -/
def loseAnswer (i : ℕ) : List (ℤ × Action) :=
  goOn i 2 ++ [(0, .move i .accept),
    (0, .move i (.reply { sends := fiveBytesNet.sends, recvs := [] }))] ++ goOn i 9

/-- A call takes its submission back and another one then loses an answer. -/
def lostRun : List (ℤ × Action) :=
  enterAndBuild 0 ++ findNoConnection 0 ++ goOn 0 11 ++ enterAndBuild 1 ++ loseAnswer 1

/-- The state after the second call has lost its answer. -/
def lostState : System := fiveBytesRun lostRun (.initial 0)

/-- The next call enters, and is not yet stopped. -/
def nextEnters : List (ℤ × Action) := [(0, .enter 2 (some (ascii "7f0a")) 7 0)]

/-- The call that enters next returns `-ENOTSUP`. -/
theorem rigCallback_latch_next_call :
    (fiveBytesRun nextEnters lostState).calls.length = 3 ∧
      ∃ k s₃ c₃, k ≤ 5 ∧ runSteps (step unsignedPlatform fiveBytesSetup)
          (List.replicate k ((fiveBytesRun nextEnters lostState).clock, .move 2 .next))
          (fiveBytesRun nextEnters lostState) = some s₃ ∧
        s₃.calls[2]? = some c₃ ∧ c₃.emitted = false ∧ c₃.pc = .returned (-ENOTSUP) := by
  -- Both runs are evaluated once, for all that is asked of them.
  obtain ⟨hmeets, hsome₁, hsome₂, hlost, hlength, hthree⟩ :
      MeetsAlong (step unsignedPlatform fiveBytesSetup) ClearsWhenEqual (lostRun ++ nextEnters)
        (.initial 0) ∧
      (runSteps (step unsignedPlatform fiveBytesSetup) lostRun (.initial 0)).isSome ∧
      (runSteps (step unsignedPlatform fiveBytesSetup) nextEnters lostState).isSome ∧
      (∃ c ∈ lostState.calls, c.Lost fiveBytesSetup) ∧ lostState.calls.length ≤ 2 ∧
      (fiveBytesRun nextEnters lostState).calls.length = 3 := by decide +kernel
  have hcall : (fiveBytesRun nextEnters lostState).calls[2]? =
      some ((fiveBytesRun nextEnters lostState).calls.get ⟨2, by rw [hthree]; decide⟩) :=
    List.getElem?_eq_getElem _
  exact ⟨hthree, (rigCallback_latch hmeets (fiveBytesRun_eq hsome₁) hlost (fiveBytesRun_eq hsome₂)
    hlength hcall).2.2⟩

/-- Two calls have passed the test of the flag. The first finds no connection, takes its submission
back and sees equal counters; before it clears the flag, the second submits and loses the answer. -/
def overtakenRun : List (ℤ × Action) :=
  enterAndBuild 0 ++ enterAndBuild 1 ++ findNoConnection 0 ++ goOn 0 1 ++ loseAnswer 1

/-- The first call clears the flag, and a third one enters and sends. -/
def clearedRun : List (ℤ × Action) :=
  goOn 0 1 ++ enterAndBuild 2 ++ goOn 2 2 ++ [(0, .move 2 .accept)]

/-- The latch does not hold in every run: a call sends that entered after one was lost, without the
guard. -/
theorem rigCallback_latch_cleared :
    fiveBytesSetup.guard = false ∧
      ∃ s₁ s₂, runSteps (step unsignedPlatform fiveBytesSetup) overtakenRun (.initial 0) = some s₁ ∧
        (∃ c ∈ s₁.calls, c.Lost fiveBytesSetup) ∧
        runSteps (step unsignedPlatform fiveBytesSetup) clearedRun s₁ = some s₂ ∧
        s₁.calls.length = 2 ∧ ∃ c, s₂.calls[2]? = some c ∧ c.emitted = true := by
  obtain ⟨hsome₁, hlost, hsome₂, hlength, hcall⟩ :
      (runSteps (step unsignedPlatform fiveBytesSetup) overtakenRun (.initial 0)).isSome ∧
      (∃ c ∈ (fiveBytesRun overtakenRun (.initial 0)).calls, c.Lost fiveBytesSetup) ∧
      (runSteps (step unsignedPlatform fiveBytesSetup) clearedRun
        (fiveBytesRun overtakenRun (.initial 0))).isSome ∧
      (fiveBytesRun overtakenRun (.initial 0)).calls.length = 2 ∧
      (fiveBytesRun clearedRun (fiveBytesRun overtakenRun (.initial 0))).calls[2]?.map Call.emitted =
        some true := by decide +kernel
  exact ⟨rfl, _, _, fiveBytesRun_eq hsome₁, hlost, fiveBytesRun_eq hsome₂, hlength,
    Option.map_eq_some_iff.mp hcall⟩

end S3Rdma.Probe
