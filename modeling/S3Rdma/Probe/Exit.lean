import S3Rdma.Probe.Complete
import S3Rdma.Probe.Concurrent
import S3Rdma.Probe.Main
import S3Rdma.Probe.Operations

/-!
# The exit experiment

`--exp exit` is run by two processes. The parent polls for the end of a child for a limited time,
and kills it after that. The child issues one GET and, if it is known to be complete, leaves the
process with the registration alive.

What the parent does with its child is `exit_parent`: it waits for it, and signals it, only as long
as it has not reaped it, since afterwards the number may belong to another process; it ends after a
bounded number of polls; and its verdict is the one that goes with how the child ended. For the two
processes together, `exit_pass` says what the exit status 0 of the parent means: the child has left
by a return from `main`, its only GET was complete, all records of both were written, and the arena
and its registration had not been released.
-/

namespace S3Rdma.Probe

/-! ## Computations of a process -/

section Prog

variable {P : Platform} {env : ProcEnv P} {α β : Type} {p : Proc} {f : α → Prog β}
  {R : β → Proc → Prop} {E : Halt → Proc → Prop}

/-- A part of an experiment, and what follows it. -/
theorem rig_bind {m : Rig α} {Q : α → World → Prop} {E' : Stop → World → Prop}
    (hm : Ensures m p.world Q E') (hf : ∀ a w, Q a w → Ensures (f a) { p with world := w } R E)
    (hE : ∀ s w, E' s w → E (.stop s) { p with world := w }) : Ensures (rig m >>= f) p R E := by
  cases hrun : m p.world with
  | ok a w =>
    have hrig : rig m p = .ok a { p with world := w } := by rw [rig, hrun]
    exact Ensures.run_bind hrig (hf a w (hm.of_ok hrun))
  | error s w =>
    have hrig : rig m p = .error (.stop s) { p with world := w } := by rw [rig, hrun]
    refine Ensures.bind (Q := fun _ _ => False) ?_ fun _ _ h => h.elim
    rw [Ensures, hrig]
    exact hE s w (hm.of_error hrun)

/-- A part of an experiment, at the end of a function of the process. -/
theorem rig_spec {m : Rig α} {Q : α → World → Prop} {E' : Stop → World → Prop}
    {R : α → Proc → Prop} (hm : Ensures m p.world Q E')
    (hQ : ∀ a w, Q a w → R a { p with world := w })
    (hE : ∀ s w, E' s w → E (.stop s) { p with world := w }) : Ensures (rig m) p R E := by
  unfold Ensures at hm
  unfold Ensures rig
  cases hrun : m p.world with
  | ok a w =>
    rw [hrun] at hm
    exact hQ a w hm
  | error s w =>
    rw [hrun] at hm
    exact hE s w hm

/-- An answer, and what follows it. -/
theorem see_bind {answer : Proc → α} {event : α → ProcEvent}
    (h : Ensures (f (answer p)) (p.note (event (answer p))) R E) :
    Ensures (see answer event >>= f) p R E :=
  Ensures.run_bind rfl h

/-- The state after a record was built. -/
def Proc.recorded (p : Proc) (r : ProcRec) (written : Bool) : Proc where
  world := { p.world with jsonl_output_failed := p.world.jsonl_output_failed || !written }
  events := p.events ++ [.printed r (.ok written)]

/-- A record is written, or is lost with the flag set, or cannot be built. -/
theorem record_bind {r : ProcRec} {f : Unit → Prog β}
    (hf : ∀ written, Ensures (f ()) (p.recorded r written) R E)
    (hE : ∀ e, E (.stop (.thrown e)) (p.note (.printed r (.error e)))) :
    Ensures (record env r >>= f) p R E := by
  unfold record
  rw [bind_assoc]
  cases hprint : env.print p with
  | error e =>
    have hrun : try_ env.print (.printed r) p =
        .error (.stop (.thrown e)) (p.note (.printed r (.error e))) := by rw [try_, hprint]
    refine Ensures.bind (Q := fun _ _ => False) ?_ fun _ _ h => h.elim
    rw [Ensures, hrun]
    exact hE e
  | ok written =>
    have hrun : try_ env.print (.printed r) p =
        .ok written (p.note (.printed r (.ok written))) := by rw [try_, hprint]
    refine Ensures.run_bind hrun ?_
    cases written with
    | true =>
      have hrecorded : p.recorded r true = p.note (.printed r (.ok true)) := by
        simp [Proc.recorded, Proc.note]
      exact hrecorded ▸ hf true
    | false =>
      have hlatch : rig latchFailed (p.note (.printed r (.ok false))) =
          .ok () (p.recorded r false) := by
        have hflag : p.recorded r false = ⟨{ p.world with jsonl_output_failed := true },
            p.events ++ [.printed r (.ok false)]⟩ := by simp [Proc.recorded]
        rw [hflag]
        rfl
      exact Ensures.run_bind hlatch (hf false)

/-- `finish` returns 3, or the exit status of the verdict if nothing was lost. -/
theorem finish_returns {env : Env P} {v : Verdict} {d : Bytes} {w : World} :
    Ensures (finish env v d) w
      (fun c w' => c = 3 ∨ (c = verdictExit v ∧ w.jsonl_output_failed = false ∧
        w' = w.note (.printed (.result v d false) (.ok true)))) fun s _ => s.Thrown := by
  show Ensures (emit env (.result
    (if w.jsonl_output_failed && v = .pass then .inconclusive else v) d
    w.jsonl_output_failed) >>= _) w _ _
  refine Ensures.bind ((emit_spec _ w).mono (fun _ _ h => h) ?_) ?_
  · rintro _ _ ⟨e, rfl, -⟩
    exact ⟨e, rfl⟩
  · rintro _ _ ⟨written, rfl⟩
    show (if (w.jsonl_output_failed || !written) = true then (3 : ℤ) else _) = 3 ∨ _
    cases hfailed : w.jsonl_output_failed with
    | true => exact .inl rfl
    | false =>
      cases written with
      | false => exact .inl rfl
      | true =>
        refine .inr ⟨rfl, rfl, ?_⟩
        simp [World.note, hfailed]

/-- Every record of the process was written. -/
def Proc.AllWritten (p : Proc) : Prop :=
  NoneLost p.world.log ∧ ∀ r x, ProcEvent.printed r x ∈ p.events → x = .ok true

/-- Every record was written as long as the flag is not set. -/
def Proc.Kept (p : Proc) : Prop := p.world.jsonl_output_failed = false → p.AllWritten

/-- A record of the process keeps the account of the records. -/
theorem Proc.Kept.recorded (h : p.Kept) (r : ProcRec) (written : Bool) :
    (p.recorded r written).Kept := by
  intro hfailed
  simp only [Proc.recorded, Bool.or_eq_false_iff, Bool.not_eq_false'] at hfailed
  obtain ⟨hlog, hevents⟩ := h hfailed.1
  refine ⟨hlog, fun r' x hmem => ?_⟩
  rcases List.mem_append.mp hmem with hmem | hmem
  · exact hevents r' x hmem
  · obtain ⟨-, rfl⟩ := ProcEvent.printed.inj (List.mem_singleton.mp hmem)
    rw [hfailed.2]

/-- An event that is no record keeps the account of the records. -/
theorem Proc.Kept.note (h : p.Kept) {e : ProcEvent} (he : ∀ r x, e ≠ .printed r x) :
    (p.note e).Kept := by
  intro hfailed
  obtain ⟨hlog, hevents⟩ := h hfailed
  refine ⟨hlog, fun r x hmem => ?_⟩
  rcases List.mem_append.mp hmem with hmem | hmem
  · exact hevents r x hmem
  · exact absurd (List.mem_singleton.mp hmem).symm (he r x)

/-- A verdict at the end: exit status 0 is a pass with all records written. -/
theorem finish_end {v : Verdict} {d : Bytes} (h : p.Kept) :
    Ensures (rig (finish env.rig v d)) p
      (fun c p' => p'.events = p.events ∧ (c = 3 ∨ c = verdictExit v) ∧
        (c = 0 → v = .pass ∧ p'.AllWritten))
      fun halt p' => halt ≠ .fuel ∧ p'.events = p.events := by
  refine rig_spec finish_returns (fun c w hc => ⟨rfl, ?_, fun hzero => ?_⟩)
    fun _ _ _ => ⟨by simp, rfl⟩
  · exact hc.imp_right And.left
  · rcases hc with rfl | ⟨rfl, hfailed, rfl⟩
    · exact absurd hzero (by decide)
    · have hpass : v = .pass := by
        cases v <;> first | rfl | exact absurd hzero (by decide)
      obtain ⟨hlog, hevents⟩ := h hfailed
      refine ⟨hpass, fun r x hmem => ?_, hevents⟩
      rcases List.mem_append.mp hmem with hmem | hmem
      · exact hlog r x hmem
      · exact (Event.printed.inj (List.mem_singleton.mp hmem)).2

end Prog

/-! ## The parent -/

/-- There is a child, and the parent has not reaped it. -/
def Unreaped (es : List ProcEvent) : Prop :=
  (∃ pid, 0 ≤ pid ∧ .fork pid ∈ es) ∧ ∀ status, .waited (.reaped status) ∉ es

/-- What the parent may do next. It forks once, waits for a child that it has not reaped, and kills
it once, when the deadline has passed. -/
def ParentAllowed (deadline_s : ℕ) (before : List ProcEvent) : ProcEvent → Prop
  | .fork _ => ∀ pid, .fork pid ∉ before
  | .waited _ => Unreaped before
  | .killed _ => Unreaped before ∧ (∀ errno, .killed errno ∉ before) ∧
      ∃ t0 t : ℤ, .clock t0 ∈ before ∧ .clock t ∈ before ∧ t0 + deadline_s * 1000000000 ≤ t
  | _ => True

/-- The parent has done only what it may do. -/
def ParentSafe (deadline_s : ℕ) (es : List ProcEvent) : Prop :=
  (Monitor.history (ParentAllowed deadline_s)).Accepts [] es

/-- The clock goes on, and a sleep of 20 ms takes its time. -/
structure ProcEnv.Steady {P : Platform} (env : ProcEnv P) : Prop where
  monotone : ∀ (p : Proc) (t : ℤ), .clock t ∈ p.events → t ≤ env.clock p
  sleeps : ∀ (p : Proc) es t w, p.events = es ++ [.clock t, .waited w, .slept] →
    t + 20000000 ≤ env.clock p

/-- An event of a polling loop. -/
def ProcEvent.isPoll : ProcEvent → Bool
  | .clock _ | .waited _ | .slept => true
  | _ => false

/-- What has been seen when a polling loop ends. -/
def Polled.Seen (until_ : ℤ) (es : List ProcEvent) : Polled → Prop
  | .reaped status => .waited (.reaped status) ∈ es
  | .failed errno => .waited (.failed errno) ∈ es ∧ errno ≠ EINTR
  | .late => Unreaped es ∧ ∃ t, .clock t ∈ es ∧ until_ ≤ t

/-- What a polling loop has done. -/
structure PollDone (deadline_s : ℕ) (until_ : ℤ) (p : Proc) (out : Polled) (p' : Proc) : Prop where
  safe : ParentSafe deadline_s p'.events
  world : p'.world = p.world
  events : ∃ es, p'.events = p.events ++ es ∧ ∀ e ∈ es, ProcEvent.isPoll e = true
  seen : out.Seen until_ p'.events

section Parent

variable {P : Platform} {env : ProcEnv P} {o : Options} {deadline_s : ℕ} {p p' : Proc}
  {e : ProcEvent} {until_ : ℤ}

/-- An event that is allowed keeps the parent safe. -/
theorem ParentSafe.note {es : List ProcEvent} (h : ParentSafe deadline_s es)
    (he : ParentAllowed deadline_s es e) : ParentSafe deadline_s (es ++ [e]) :=
  Monitor.history_accepts_concat.mpr ⟨h, he⟩

/-- A child is not reaped by an event that does not say so. -/
theorem Unreaped.note {es : List ProcEvent} (h : Unreaped es)
    (he : ∀ status, e ≠ .waited (.reaped status)) : Unreaped (es ++ [e]) := by
  obtain ⟨⟨pid, hpid, hmem⟩, hnot⟩ := h
  refine ⟨⟨pid, hpid, List.mem_append_left _ hmem⟩, fun status hmem => ?_⟩
  rcases List.mem_append.mp hmem with hmem | hmem
  · exact hnot status hmem
  · exact he status (List.mem_singleton.mp hmem).symm

/-- Polling with one more turn in front is polling. -/
theorem PollDone.after {out : Polled} {es : List ProcEvent}
    (h : PollDone deadline_s until_ { p with events := p.events ++ es } out p')
    (hes : ∀ e ∈ es, ProcEvent.isPoll e = true) : PollDone deadline_s until_ p out p' := by
  obtain ⟨es', hevents, hes'⟩ := h.events
  refine ⟨h.safe, h.world, ⟨es ++ es', by rw [hevents, List.append_assoc], fun e he => ?_⟩, h.seen⟩
  rcases List.mem_append.mp he with he | he
  · exact hes e he
  · exact hes' e he

/-- What has happened before a polling loop has still happened. -/
theorem PollDone.mem {out : Polled} (h : PollDone deadline_s until_ p out p') (he : e ∈ p.events) :
    e ∈ p'.events := by
  obtain ⟨es, hevents, -⟩ := h.events
  rw [hevents]
  exact List.mem_append_left _ he

/-- An event that is none of the polling has happened before it. -/
theorem PollDone.mem_before {out : Polled} (h : PollDone deadline_s until_ p out p')
    (he : e ∈ p'.events) (hno : e.isPoll = false) : e ∈ p.events := by
  obtain ⟨es, hevents, hes⟩ := h.events
  rw [hevents, List.mem_append] at he
  exact he.resolve_right fun hmem => absurd (hno.symm.trans (hes e hmem)) (by decide)

/-- Polling emits no record. -/
theorem PollDone.kept {out : Polled} (h : PollDone deadline_s until_ p out p') (hkept : p.Kept) :
    p'.Kept := by
  intro hfailed
  rw [h.world] at hfailed
  obtain ⟨hlog, hrecords⟩ := hkept hfailed
  exact ⟨h.world ▸ hlog, fun r x hmem => hrecords r x (h.mem_before hmem rfl)⟩

/-- A polling loop. Its fuel is spent only if it has taken more turns than there are sleeps in the
time. -/
theorem poll_spec (fuel : ℕ) (hsafe : ParentSafe deadline_s p.events) (hchild : Unreaped p.events) :
    Ensures (poll env until_ fuel) p (PollDone deadline_s until_ p) fun halt p' =>
      halt = .fuel ∧ ParentSafe deadline_s p'.events ∧
        (env.Steady → ∀ (low : ℤ) (k : ℕ), low ≤ env.clock p → until_ ≤ low + 20000000 * k →
          fuel ≤ k) := by
  induction fuel generalizing p with
  | zero => exact ⟨rfl, hsafe, fun _ _ k _ _ => Nat.zero_le k⟩
  | succ fuel ih =>
    have hsafe₁ := hsafe.note (e := .clock (env.clock p)) trivial
    have hchild₁ : Unreaped (p.events ++ [.clock (env.clock p)]) := hchild.note (by simp)
    refine see_bind (Ensures.ite (fun hlate => ?_) fun hearly => ?_)
    · exact ⟨hsafe₁, rfl, ⟨_, rfl, by simp [ProcEvent.isPoll]⟩, hchild₁, _,
        by simp [Proc.note], hlate⟩
    refine see_bind ?_
    set w := env.wait (p.note (.clock (env.clock p)))
    have hsafe₂ := hsafe₁.note (e := .waited w) hchild₁
    -- After a sleep it goes on as before, later.
    have hagain : (∀ status, w ≠ .reaped status) →
        Ensures (happen .slept >>= fun _ => poll env until_ fuel)
          ((p.note (.clock (env.clock p))).note (.waited w)) (PollDone deadline_s until_ p)
          fun halt p' => halt = .fuel ∧ ParentSafe deadline_s p'.events ∧
            (env.Steady → ∀ (low : ℤ) (k : ℕ), low ≤ env.clock p → until_ ≤ low + 20000000 * k →
              fuel + 1 ≤ k) := by
      intro hw
      have hchild₂ :=
        (hchild₁.note (e := .waited w) (by simpa using hw)).note (e := .slept) (by simp)
      refine Ensures.modify_bind ((ih (hsafe₂.note (e := .slept) trivial) hchild₂).mono ?_ ?_)
      · intro out p' h
        have hlog : p.events ++ [.clock (env.clock p)] ++ [.waited w] ++ [.slept] =
            p.events ++ [.clock (env.clock p), .waited w, .slept] := by simp
        have hall : ∀ e ∈ [ProcEvent.clock (env.clock p), .waited w, .slept],
            ProcEvent.isPoll e = true := by simp [ProcEvent.isPoll]
        refine PollDone.after ?_ hall
        rw [← hlog]
        exact h
      · rintro halt p' ⟨rfl, hsafe', hspent⟩
        refine ⟨rfl, hsafe', fun hsteady low k hlow hk => ?_⟩
        have hlater := hsteady.sleeps
          (((p.note (.clock (env.clock p))).note (.waited w)).note .slept) p.events (env.clock p) w
          (by simp [Proc.note])
        obtain ⟨k, rfl⟩ : ∃ k', k = k' + 1 := Nat.exists_eq_succ_of_ne_zero (by rintro rfl; omega)
        have := hspent hsteady (env.clock p + 20000000) k hlater (by push_cast at hk; omega)
        omega
    have hone : ∀ e ∈ [ProcEvent.clock (env.clock p), .waited w], ProcEvent.isPoll e = true := by
      simp [ProcEvent.isPoll]
    have hlog : ((p.note (.clock (env.clock p))).note (.waited w)).events =
        p.events ++ [.clock (env.clock p), .waited w] := by simp [Proc.note]
    cases hw : w with
    | reaped status =>
      rw [hw] at hsafe₂ hlog hone
      exact ⟨hsafe₂, rfl, ⟨_, hlog, hone⟩, by simp [Polled.Seen, Proc.note]⟩
    | failed errno =>
      rw [hw] at hsafe₂ hlog hone hagain
      refine Ensures.ite (fun hne => ?_) fun _ => hagain (by simp)
      exact ⟨hsafe₂, rfl, ⟨_, hlog, hone⟩, by simp [Proc.note], hne⟩
    | running =>
      rw [hw] at hagain
      exact hagain (by simp)

/-- How the parent ends: with the verdict on a child that it has reaped in time, with FAIL after it
has killed it, or with 3; and with 0 only if no record was lost. -/
structure ParentEnd (o : Options) (code : ℤ) (p : Proc) : Prop where
  safe : ParentSafe o.deadline_s p.events
  verdict : code = 3 ∨ (code = 1 ∧ ∃ errno, .killed errno ∈ p.events) ∨
    ∃ status, .waited (.reaped status) ∈ p.events ∧ (∀ errno, .killed errno ∉ p.events) ∧
      code = verdictExit (exitVerdict o.abrupt status).1
  written : code = 0 → p.AllWritten

/-- The parent was stopped: it was safe so far, and its fuel has run out only if there was less of
it than polls in the time. -/
def ParentStopped (env : ProcEnv P) (o : Options) (fuel : ℕ) (halt : Halt) (p : Proc) : Prop :=
  ParentSafe o.deadline_s p.events ∧
    (halt = .fuel → env.Steady → fuel ≤ 50 * o.deadline_s + 250)

/-- A verdict that the parent may give ends it as `ParentEnd` says. -/
theorem finish_parent {v : Verdict} {d : Bytes} {fuel : ℕ} (hkept : p.Kept)
    (hsafe : ParentSafe o.deadline_s p.events)
    (hv : v = .envError ∨ (v = .fail ∧ ∃ errno, .killed errno ∈ p.events) ∨
      ∃ status, .waited (.reaped status) ∈ p.events ∧ (∀ errno, .killed errno ∉ p.events) ∧
        v = (exitVerdict o.abrupt status).1) :
    Ensures (rig (finish env.rig v d)) p (ParentEnd o) (ParentStopped env o fuel) := by
  refine (finish_end hkept).mono ?_ ?_
  · rintro code p' ⟨hevents, hcode, hzero⟩
    refine ⟨hevents ▸ hsafe, ?_, fun h => (hzero h).2⟩
    rw [hevents]
    rcases hcode with rfl | rfl
    · exact .inl rfl
    · rcases hv with rfl | ⟨rfl, hkilled⟩ | ⟨status, hreaped, hnot, rfl⟩
      · exact .inl rfl
      · exact .inr (.inl ⟨rfl, hkilled⟩)
      · exact .inr (.inr ⟨status, hreaped, hnot, rfl⟩)
  · rintro halt p' ⟨hne, hevents⟩
    exact ⟨hevents ▸ hsafe, fun h => absurd h hne⟩

/-- A record of the parent, and what follows it. -/
theorem record_parent {r : ProcRec} {f : Unit → Prog ℤ} {fuel : ℕ}
    (hsafe : ParentSafe o.deadline_s p.events)
    (hf : ∀ written,
      Ensures (f ()) (p.recorded r written) (ParentEnd o) (ParentStopped env o fuel)) :
    Ensures (record env r >>= f) p (ParentEnd o) (ParentStopped env o fuel) :=
  record_bind hf fun _ => ⟨hsafe.note trivial, by simp⟩

/-- The parent kills a child that is late, and ends as `ParentEnd` says. -/
theorem exitLate_spec {fuel : ℕ} (hkept : p.Kept) (hsafe : ParentSafe o.deadline_s p.events)
    (hlate : ParentAllowed o.deadline_s p.events (.killed (env.kill p))) :
    Ensures (exitLate env fuel) p (ParentEnd o) (ParentStopped env o fuel) := by
  have hsafe₁ := hsafe.note hlate
  have hchild₁ : Unreaped (p.events ++ [.killed (env.kill p)]) := hlate.1.note (by simp)
  refine see_bind (see_bind ?_)
  set now := env.clock (p.note (.killed (env.kill p)))
  set p₂ := (p.note (.killed (env.kill p))).note (.clock now) with hp₂
  have hkept₂ : p₂.Kept := (hkept.note (by simp)).note (by simp)
  have hsafe₂ : ParentSafe o.deadline_s p₂.events := hsafe₁.note (e := .clock now) trivial
  have hkilled : .killed (env.kill p) ∈ p₂.events := by simp [hp₂, Proc.note]
  refine Ensures.bind ((poll_spec fuel hsafe₂ (hchild₁.note (e := .clock now) (by simp))).mono
    (fun _ _ h => h) ?_) ?_
  · rintro halt p' ⟨rfl, hsafe', hspent⟩
    refine ⟨hsafe', fun _ hsteady => ?_⟩
    have hnow : now ≤ env.clock p₂ := hsteady.monotone p₂ now (by simp [hp₂, Proc.note])
    have := hspent hsteady now 250 hnow (by push_cast; omega)
    omega
  · intro out p' hdone
    have hkept' := hdone.kept hkept₂
    have hkilled' := hdone.mem hkilled
    have hend {r : ProcRec} {d : Bytes} : Ensures (record env r >>= fun _ =>
        rig (finish env.rig .fail d)) p' (ParentEnd o) (ParentStopped env o fuel) := by
      refine record_parent hdone.safe fun written => ?_
      exact finish_parent (hkept'.recorded r written) (hdone.safe.note trivial)
        (.inr (.inl ⟨rfl, _, List.mem_append_left _ hkilled'⟩))
    cases out <;> exact hend

/-- The parent, when nothing but records has happened before. -/
theorem expExit_spec {fuel : ℕ} (hkept : p.Kept) (hsafe : ParentSafe o.deadline_s p.events)
    (hrecords : ∀ e ∈ p.events, ∃ r x, e = .printed r x) :
    Ensures (expExit env o fuel) p (ParentEnd o) (ParentStopped env o fuel) := by
  -- Nothing of what matters has happened before.
  have hnot : ∀ e, (∀ r x, e ≠ ProcEvent.printed r x) → e ∉ p.events := by
    intro e he hmem
    obtain ⟨r, x, heq⟩ := hrecords e hmem
    exact he r x heq
  have hsafe₁ := hsafe.note (e := .readlink (env.readlink p)) trivial
  have hkept₁ : (p.note (.readlink (env.readlink p))).Kept := hkept.note (by simp)
  refine see_bind (Ensures.ite (fun _ => finish_parent hkept₁ hsafe₁ (.inl rfl)) fun _ => ?_)
  refine see_bind (see_bind ?_)
  set p₁ := p.note (.readlink (env.readlink p)) with hp₁
  set t0 := env.clock p₁
  set pid := env.fork (p₁.note (.clock t0))
  set p₃ := (p₁.note (.clock t0)).note (.fork pid) with hp₃
  have hevents : p₃.events = p.events ++ [.readlink (env.readlink p), .clock t0, .fork pid] := by
    simp [hp₃, hp₁, Proc.note]
  have hkept₃ : p₃.Kept := (hkept₁.note (by simp)).note (by simp)
  have hsafe₃ : ParentSafe o.deadline_s p₃.events := by
    refine (hsafe₁.note (e := .clock t0) trivial).note (e := .fork pid) fun pid' hmem => ?_
    simp only [List.mem_append, List.mem_singleton, reduceCtorEq, or_false] at hmem
    exact hnot _ (by simp) hmem
  have hunkilled : ∀ errno, .killed errno ∉ p₃.events := by
    intro errno hmem
    rw [hevents] at hmem
    simp only [List.mem_append, List.mem_cons, List.not_mem_nil, reduceCtorEq, or_false] at hmem
    exact hnot _ (by simp) hmem
  have hclock : .clock t0 ∈ p₃.events := by simp [hevents]
  refine Ensures.ite (fun _ => finish_parent hkept₃ hsafe₃ (.inl rfl)) fun hpid => ?_
  have hchild : Unreaped p₃.events := by
    refine ⟨⟨pid, not_lt.mp hpid, by simp [hevents]⟩, fun status hmem => ?_⟩
    rw [hevents] at hmem
    simp only [List.mem_append, List.mem_cons, List.not_mem_nil, reduceCtorEq, or_false] at hmem
    exact hnot _ (by simp) hmem
  refine Ensures.bind ((poll_spec fuel hsafe₃ hchild).mono (fun _ _ h => h) ?_) ?_
  · rintro halt p' ⟨rfl, hsafe', hspent⟩
    refine ⟨hsafe', fun _ hsteady => ?_⟩
    have := hspent hsteady t0 (50 * o.deadline_s) (hsteady.monotone p₃ t0 hclock)
      (by push_cast; omega)
    omega
  · intro out p' hdone
    have hkept' := hdone.kept hkept₃
    have hunkilled' : ∀ errno, .killed errno ∉ p'.events := fun errno hmem =>
      hunkilled errno (hdone.mem_before hmem rfl)
    have hseen := hdone.seen
    cases out with
    | failed errno => exact finish_parent hkept' hdone.safe (.inl rfl)
    | late =>
      obtain ⟨hchild', t, ht, hle⟩ := hseen
      exact exitLate_spec hkept' hdone.safe ⟨hchild', hunkilled', t0, t, hdone.mem hclock, ht, hle⟩
    | reaped status =>
      refine record_parent hdone.safe fun written => ?_
      refine finish_parent (hkept'.recorded _ written) (hdone.safe.note trivial)
        (.inr (.inr ⟨status, List.mem_append_left _ hseen, fun errno hmem => ?_, rfl⟩))
      rcases List.mem_append.mp hmem with hmem | hmem
      · exact hunkilled' errno hmem
      · exact absurd (List.mem_singleton.mp hmem) (by simp)

end Parent

/-! ## The child -/

/-- The event takes something away from the arena or the sessions, or gives them up. -/
def Event.isRelease : Event → Bool
  | .deregistered _ | .retained | .destroyed => true
  | _ => false

/-- The arena and the sessions are there as long as the process is. -/
def Alive (log : List Event) : Prop := ∀ e ∈ log, Event.isRelease e = false

/-- The only GET of the child was complete, with one request that was sent and whose receipt was
accepted; and the memory is registered and nothing was released. -/
structure ExitReady (P : Platform) (o : Options) (log : List Event) : Prop where
  get : ∃ s r c, .returned exitTag (exitSetup o) s r ∈ log ∧ s.Reachable P (exitSetup o) ∧
    s.calls = [c] ∧ c.emitted = true ∧ c.accepted (exitSetup o) = true ∧
    r = ⟨signed64 o.slot_bytes, true⟩
  only : ∀ t, .issued t ∈ log → t = exitTag
  settled : AllSettled log
  registered : .registered (.ok 0) ∈ log
  alive : Alive log

/-- What the exit status 0 of the child means: it was ready to leave, all records were written, and
it has left by `_exit` exactly if it was told to. -/
structure ChildEnd (P : Platform) (o : Options) (p : Proc) : Prop
    extends ExitReady P o p.world.log where
  written : p.AllWritten
  left : .exit_ ∈ p.events ↔ o.abrupt = true

section Child

variable {P : Platform} {env : ProcEnv P} {o : Options} {p : Proc} {w w' : World}

/-- The exit status of the child: 0 with what it means, or one of those that its parent knows. -/
def ChildCode (P : Platform) (o : Options) (code : ℤ) (p : Proc) : Prop :=
  code = 0 ∧ ChildEnd P o p ∨ code = 1 ∨ code = 3 ∨ code = 5

/-- What has become of the world: nothing was released, the flag was not reset, and if a record was
lost this is noted. -/
structure Onward (w w' : World) : Prop where
  alive : Alive w.log → Alive w'.log
  failed : w'.jsonl_output_failed = false → w.jsonl_output_failed = false
  kept : Kept w → Kept w'

/-- One stretch of the process after another. -/
theorem Onward.trans {w₁ : World} (h₁ : Onward w w₁) (h₂ : Onward w₁ w') : Onward w w' :=
  ⟨fun h => h₂.alive (h₁.alive h), fun h => h₁.failed (h₂.failed h), fun h => h₂.kept (h₁.kept h)⟩

/-- An event that releases nothing and is no record. -/
theorem Onward.note {e : Event} (he : e.isRelease = false) (hrecord : ∀ r x, e ≠ .printed r x)
    (hlog : w'.log = w.log ++ [e]) (hflag : w'.jsonl_output_failed = w.jsonl_output_failed) :
    Onward w w' where
  alive h e' he' := by
    rw [hlog, List.mem_append, List.mem_singleton] at he'
    rcases he' with he' | rfl
    · exact h e' he'
    · exact he
  failed h := hflag ▸ h
  kept h := h.note hrecord hlog hflag

/-- A record leaves what is alive alive, and notes its failure. -/
theorem Onward.emit (r : Rec) (written : Bool) :
    Onward w { w.note (.printed r (.ok written)) with
      jsonl_output_failed := w.jsonl_output_failed || !written } where
  alive h e he := by
    rcases List.mem_append.mp he with he | he
    · exact h e he
    · rw [List.mem_singleton.mp he]
      rfl
  failed h := (Bool.or_eq_false_iff.mp h).1
  kept h := h.emit written

/-- The fixture is made as far as the GET needs it: no GET has taken place meanwhile. -/
structure Prepared (w w' : World) : Prop extends Onward w w' where
  gets : Extends w w'

/-- A setup in which nothing happens. -/
theorem Prepared.refl (w : World) : Prepared w w := ⟨⟨id, id, id⟩, (Quiet.refl w).toExtends⟩

/-- One part of the setup after another. -/
theorem Prepared.trans {w₁ : World} (h₁ : Prepared w w₁) (h₂ : Prepared w₁ w') : Prepared w w' :=
  ⟨h₁.toOnward.trans h₂.toOnward, h₁.gets.trans h₂.gets⟩

/-- An event of the setup releases nothing and is none of a GET. -/
theorem Prepared.note {e : Event} (he : e.isRelease = false) (hget : e.isGet = false)
    (hrecord : ∀ r x, e ≠ .printed r x) (hlog : w'.log = w.log ++ [e])
    (hflag : w'.jsonl_output_failed = w.jsonl_output_failed) : Prepared w w' :=
  ⟨.note he hrecord hlog hflag, .note hlog hget⟩

/-- Looking up the visibility is part of a setup. -/
theorem readVisibility_prepared {env : Env P} (mode : BufferMode) :
    Ensures (readVisibility env mode) w (fun _ w' => Prepared w w') fun _ _ => False := by
  cases mode with
  | host => exact Ensures.pure (.refl w)
  | gpu =>
    exact Ensures.run_bind rfl (Ensures.pure
      (.note (e := .attribute (env.ordering w.log)) rfl rfl (by simp) rfl rfl))

/-- Making the sessions and the arena is part of a setup. -/
theorem construct_prepared {env : Env P} :
    Ensures (construct env) w (fun _ w' => Prepared w w') fun _ _ => True := by
  unfold Ensures construct
  cases env.construct w.log with
  | error e => trivial
  | ok _ => exact .note (e := .constructed (.ok ())) rfl rfl (by simp) rfl rfl

/-- Registering the arena is part of a setup. -/
theorem registerMemory_prepared {env : Env P} :
    Ensures (registerMemory env) w (fun rc w' => Prepared w w' ∧ .registered (.ok rc) ∈ w'.log)
      fun _ _ => True := by
  unfold registerMemory
  refine Ensures.bind (Q := fun rc w' => w' = w.note (.registered (.ok rc))) ?_ ?_
  · unfold Ensures ask
    cases env.register w.log with
    | error e => trivial
    | ok rc => rfl
  · rintro rc _ rfl
    refine Ensures.modify_bind (Ensures.pure ⟨?_, by simp [World.note]⟩)
    exact .note (e := .registered (.ok rc)) rfl rfl (by simp) rfl rfl

/-- The records of the attempts are part of a setup. -/
theorem emitAttempts_prepared {env : Env P} (x : RigContext) :
    Ensures (emitAttempts env x) w (fun _ w' => Prepared w w') fun _ _ => True := by
  refine Ensures.forM (I := fun _ w' => Prepared w w') (.refl w) fun _ _ _ w₁ _ h => ?_
  refine (emit_spec _ w₁).mono ?_ fun _ _ _ => trivial
  rintro _ _ ⟨written, rfl⟩
  exact h.trans ⟨.emit _ written, .note (e := .printed .attempt (.ok written)) rfl rfl⟩

/-- What a GET on the calling thread leaves. -/
theorem sdkGet_returns {env : Env P} (t : GetTag) (u : RigSetup) :
    Ensures (sdkGet env t u) w
      (fun g w' => ∃ s, s.Reachable P u ∧ (∀ c ∈ s.calls, c.done = true) ∧ g.1 = s.ctx ∧
        w'.log = w.log ++ [.issued t, .returned t u s g.2] ∧ Onward w w') fun _ _ => False := by
  refine Ensures.modify_bind ?_
  have hissued : Onward w (w.note (.issued t)) :=
    .note (e := .issued t) rfl (by simp) rfl rfl
  refine ⟨_, (env.get (w.note (.issued t)).log u).reachable,
    (env.get (w.note (.issued t)).log u).quiet, rfl, List.append_assoc _ _ _, hissued.trans ?_⟩
  exact .note (e := .returned t u _ _) rfl (by simp) rfl rfl

/-- What a GET that `exp_exit_child` takes for complete has done. -/
theorem knownComplete_spec {s : System} {r : SdkReturn} (hreach : s.Reachable P (exitSetup o))
    (hquiet : ∀ c ∈ s.calls, c.done = true) (h : knownComplete o (s.ctx, r) = true) :
    r = ⟨signed64 o.slot_bytes, true⟩ ∧ Settled s r ∧
      ∃ c, s.calls = [c] ∧ c.emitted = true ∧ c.accepted (exitSetup o) = true := by
  simp only [knownComplete, Bool.and_eq_true, decide_eq_true_eq, Bool.not_eq_true',
    Option.any_eq_true] at h
  obtain ⟨⟨⟨⟨⟨⟨hpresent, hvalue⟩, hunknown⟩, hlost⟩, hone⟩, -⟩, b, hb, hq⟩ := h
  have hmem : b ∈ s.ctx.attempts := List.mem_of_mem_head? hb
  obtain ⟨c, hcalls, hemitted, hacc, hsubmitted, hcompleted⟩ :=
    hreach.sole_complete hquiet hone hunknown hmem hq
  refine ⟨?_, .inr ⟨by rw [hsubmitted, hcompleted], hunknown, hlost, hpresent⟩, c, hcalls, hemitted,
    hacc⟩
  rw [← hvalue, ← hpresent]

/-- The account of the records is kept along a stretch of the process. -/
theorem Proc.Kept.of_onward (hkept : p.Kept) (h : Onward p.world w) :
    { p with world := w }.Kept := by
  intro hfailed
  have hbefore := h.failed hfailed
  obtain ⟨-, hevents⟩ := hkept hbefore
  exact ⟨h.kept (fun h => (hkept h).1) hfailed, hevents⟩

/-- The child is ready after a complete GET. -/
theorem ExitReady.of_complete {w₁ w₂ w₃ : World} {s : System} {r : SdkReturn}
    (hnone : NoGets w₁.log) (halive : Alive w₃.log) (hregistered : .registered (.ok 0) ∈ w₁.log)
    (hreach : s.Reachable P (exitSetup o)) (hquiet : ∀ c ∈ s.calls, c.done = true)
    (hlog : w₂.log = w₁.log ++ [.issued exitTag, .returned exitTag (exitSetup o) s r])
    (hext : Extends w₂ w₃) (hcomplete : knownComplete o (s.ctx, r) = true) :
    ExitReady P o w₃.log := by
  obtain ⟨hr, hsettled, c, hcalls, hemitted, haccepted⟩ :=
    knownComplete_spec hreach hquiet hcomplete
  refine ⟨⟨s, r, c, hext.subset ?_, hreach, hcalls, hemitted, haccepted, hr⟩, fun t ht => ?_,
    (hnone.allSettled.returned hlog hsettled).of_extends hext, hext.subset ?_, halive⟩
  · simp [hlog]
  · have ht := hext.mem_of_isGet rfl ht
    simp only [hlog, List.mem_append, List.mem_cons, Event.issued.injEq, reduceCtorEq,
      List.not_mem_nil, or_false] at ht
    exact ht.resolve_left fun ht => absurd (hnone _ ht) Bool.false_ne_true.symm
  · rw [hlog]
    exact List.mem_append_left _ hregistered

/-- The child leaves, and its status says whether a record was lost. -/
theorem leave_spec (hkept : p.Kept) (hready : ExitReady P o p.world.log)
    (hexit : .exit_ ∉ p.events) :
    Ensures (do
      let status : ℤ := if ← outputFailed then 5 else 0
      if o.abrupt then happen .exit_
      return status) p (ChildCode P o) fun _ _ => True := by
  have hrun : outputFailed p = .ok p.world.jsonl_output_failed p := rfl
  refine Ensures.run_bind hrun ?_
  cases hfailed : p.world.jsonl_output_failed with
  | true => exact Ensures.ite (fun _ => .inr (.inr (.inr rfl))) fun _ => .inr (.inr (.inr rfl))
  | false =>
    have hwritten := hkept hfailed
    refine Ensures.ite (fun habrupt => .inl ⟨rfl, hready, ?_, ?_⟩)
      fun hreturn => .inl ⟨rfl, hready, hwritten, ?_⟩
    · refine ⟨hwritten.1, fun r x hmem => hwritten.2 r x ?_⟩
      simpa [Proc.note] using hmem
    · simp [Proc.note, habrupt]
    · simp [hexit, hreturn]

/-- The child, when nothing has happened but records that leave the flag right. -/
theorem expExitChild_spec (hkept : p.Kept) (halive : Alive p.world.log) (hnone : NoGets p.world.log)
    (hexit : .exit_ ∉ p.events) :
    Ensures (expExitChild env o) p (ChildCode P o) fun _ _ => True := by
  unfold expExitChild
  cases validateGeometry o 1 with
  | error why => exact .inr (.inr (.inl rfl))
  | ok g =>
    refine rig_bind (readVisibility_prepared o.mode) (fun vis w₁ h₁ => ?_) fun _ _ h => h.elim
    refine Ensures.ite (fun _ => .inr (.inr (.inl rfl))) fun _ => ?_
    refine rig_bind construct_prepared (fun _ w₂ h₂ => ?_) fun _ _ _ => trivial
    refine rig_bind registerMemory_prepared (fun rc w₃ h₃ => ?_) fun _ _ _ => trivial
    obtain ⟨h₃, hregistered⟩ := h₃
    refine Ensures.ite (fun _ => .inr (.inr (.inl rfl))) fun hrc => ?_
    obtain rfl : rc = 0 := not_not.mp hrc
    have hbefore := (h₁.trans h₂).trans h₃
    refine rig_bind (sdkGet_returns exitTag (exitSetup o)) (fun run w₄ h₄ => ?_) fun _ _ h => h.elim
    obtain ⟨s, hreach, hquiet, hctx, hlog, h₄⟩ := h₄
    refine rig_bind (emitAttempts_prepared run.1) (fun _ w₅ h₅ => ?_) fun _ _ _ => trivial
    have honward := (hbefore.toOnward.trans h₄).trans h₅.toOnward
    refine record_bind (fun written => ?_) fun _ => trivial
    refine Ensures.ite (fun _ => ?_) fun hcomplete => ?_
    · refine Ensures.run_bind rfl (Ensures.pure ?_)
      split
      · exact .inr (.inr (.inr rfl))
      · exact .inr (.inl rfl)
    have hcomplete : knownComplete o (s.ctx, run.2) = true := by
      rw [← hctx]
      simpa using hcomplete
    have hready : ExitReady P o w₅.log := .of_complete (hnone.of_extends hbefore.gets)
      (honward.alive halive) hregistered hreach hquiet hlog h₅.gets hcomplete
    refine record_bind (fun written' => ?_) fun _ => trivial
    refine leave_spec (((hkept.of_onward honward).recorded _ written).recorded _ written') hready ?_
    simpa [Proc.recorded] using hexit

end Child

/-! ## The command line of the child -/

/-- `--child` is a flag without a value. -/
theorem plainFlags_child :
    plainFlags.lookup (ascii "--child") = some fun o => { o with child := true } := by
  have hbefore : ∀ f ∈ plainFlags.take 1, (ascii "--child" != f.1) = true := by decide +kernel
  exact List.lookup_eq_some_iff.mpr ⟨plainFlags.take 1, plainFlags.drop 2, rfl, hbefore⟩

/-- A flag without a value is none with one. -/
theorem valueFlags_of_plain {a : Bytes} {set : Options → Options}
    (h : plainFlags.lookup a = some set) : valueFlags.lookup a = none := by
  have hdisjoint : ∀ a ∈ plainFlags.map Prod.fst, a ∉ valueFlags.map Prod.fst := by decide +kernel
  obtain ⟨before, after, hflags, -⟩ := List.lookup_eq_some_iff.mp h
  have hmem : a ∈ plainFlags.map Prod.fst := by simp [hflags]
  refine List.lookup_eq_none_iff.mpr fun f hf => bne_iff_ne.mpr ?_
  rintro rfl
  exact hdisjoint _ hmem (List.mem_map_of_mem hf)

/-- A flag without a value, and what follows it. -/
theorem parseFlags_plain {a : Bytes} {set : Options → Options} (h : plainFlags.lookup a = some set)
    (rest : List Bytes) (o : Options) : parseFlags (a :: rest) o = parseFlags rest (set o) := by
  cases rest with
  | nil => simp [parseFlags, h]
  | cons v rest => rw [parseFlags, valueFlags_of_plain h, h]

/-- A flag with its value, and what follows it. -/
theorem parseFlags_value {a : Bytes} {set : Bytes → Options → Option Options}
    (h : valueFlags.lookup a = some set) (v : Bytes) (rest : List Bytes) (o : Options) :
    parseFlags (a :: v :: rest) o = (set v o).bind (parseFlags rest) := by
  rw [parseFlags, h]

/-- The child is given the same options, and `--child`. -/
theorem parseFlags_child {args : List Bytes} {o₀ o : Options} (h : parseFlags args o₀ = some o) :
    parseFlags (args ++ [ascii "--child"]) o₀ = some { o with child := true } := by
  -- A flag takes one argument or two, so the induction is on the number of arguments.
  induction hn : args.length using Nat.strong_induction_on generalizing args o₀ with
  | _ n ih =>
    subst hn
    rcases args with - | ⟨a, args⟩
    · obtain rfl : o₀ = o := Option.some.inj h
      exact parseFlags_plain plainFlags_child [] o₀
    cases hplain : plainFlags.lookup a with
    | some set =>
      rw [parseFlags_plain hplain] at h
      rw [List.cons_append, parseFlags_plain hplain]
      exact ih args.length (by simp) h rfl
    | none =>
      rcases args with - | ⟨v, rest⟩
      · simp [parseFlags, hplain] at h
      cases hvalue : valueFlags.lookup a with
      | none => simp [parseFlags, hplain, hvalue] at h
      | some set =>
        rw [parseFlags_value hvalue] at h
        obtain ⟨o₁, hset, h⟩ := Option.bind_eq_some_iff.mp h
        rw [List.cons_append, List.cons_append, parseFlags_value hvalue, hset, Option.bind_some]
        exact ih rest.length (by simp) h rfl

/-- The command line of the child is accepted if that of the parent is. -/
theorem parseArgs_child {args : List Bytes} {o : Options} (h : parseArgs args = some o) :
    parseArgs (args ++ [ascii "--child"]) = some { o with child := true } := by
  unfold parseArgs at h ⊢
  obtain ⟨o', hflags, h⟩ := Option.bind_eq_some_iff.mp h
  rw [parseFlags_child hflags]
  -- The checks after the loop do not look at `child`.
  simp only [Option.bind_eq_bind, Option.bind_some]
  split_ifs at h ⊢ <;> simp_all

/-! ## The two processes -/

section Main

variable {P : Platform} {env : ProcEnv P} {o : Options} {args : List Bytes} {fuel : ℕ}

/-- At first nothing has been lost. -/
theorem Proc.Kept.start : Proc.start.Kept :=
  fun _ => ⟨by simp [NoneLost, Proc.start], by simp [Proc.start]⟩

/-- `main` with a command line that is accepted. -/
theorem main_spec {Q : ℤ → Proc → Prop} {E : Halt → Proc → Prop} (hargs : parseArgs args = some o)
    (herror : ∀ why, Ensures (rig (finish env.rig .envError why)) .start Q E)
    (hok : ∀ proto, finishProtocolOptions env.getenv o.proto = .ok proto →
      Ensures (mainWith env { o with proto } fuel) .start Q E) :
    Ensures (main env args fuel) .start Q E := by
  simp only [main, hargs]
  cases hproto : finishProtocolOptions env.getenv o.proto with
  | error why => exact herror why
  | ok proto => exact hok proto hproto

/-- `main` runs `exp_exit`. -/
theorem mainWith_parent (proto : ProtocolOptions) (hexp : o.exp = ascii "exit")
    (hchild : o.child = false) :
    Ensures (mainWith env { o with proto } fuel) .start (ParentEnd o)
      (ParentStopped env o fuel) := by
  have hsafe : ParentSafe o.deadline_s Proc.start.events := trivial
  refine record_parent hsafe fun written => ?_
  rw [if_pos ⟨hexp, hchild⟩]
  refine (expExit_spec (o := { o with proto }) (Proc.Kept.start.recorded _ written)
    (hsafe.note trivial) fun e he => ⟨_, _, List.mem_singleton.mp he⟩).mono ?_ fun _ _ h => h
  exact fun _ _ h => ⟨h.safe, h.verdict, h.written⟩

/-- A child that cannot be set up exits with 3. -/
theorem finish_child {p : Proc} {why : Bytes} (hkept : p.Kept) :
    Ensures (rig (finish env.rig .envError why)) p (fun code _ => code = 3) fun _ _ => True := by
  refine (finish_end hkept).mono ?_ fun _ _ _ => trivial
  rintro code p' ⟨-, rfl | rfl, -⟩ <;> rfl

/-- `main` runs `exp_exit_child`. -/
theorem mainWith_child (hexp : o.exp = ascii "exit") (hchild : o.child = true) :
    Ensures (mainWith env o fuel) .start (ChildCode P o) fun _ _ => True := by
  have hnames : ascii "exit" ≠ ascii "attr" ∧ (!deviceExperiments.contains (ascii "exit")) ≠ true ∧
      ascii "exit" ≠ ascii "reg" ∧ ascii "exit" ≠ ascii "diag" ∧ ascii "exit" ≠ ascii "rt-guard" ∧
      ascii "exit" ≠ ascii "c" := by decide +kernel
  rw [← hexp] at hnames
  obtain ⟨hattr, hdevice, hreg, hdiag, hguard, hc⟩ := hnames
  have hdispatch : dispatch env o = expExitChild env o := by
    rw [dispatch, if_neg hreg, if_neg hdiag, if_neg hguard, if_neg hc]
  have hfinish {p : Proc} {why : Bytes} (hkept : p.Kept) :
      Ensures (rig (finish env.rig .envError why)) p (ChildCode P o) fun _ _ => True :=
    (finish_child hkept).mono (fun _ _ h => .inr (.inr (.inl h))) fun _ _ h => h
  refine record_bind (fun written => ?_) fun _ => trivial
  have hkept := Proc.Kept.start.recorded .env written
  rw [if_neg (by simp [hchild]), if_neg hattr, if_neg hdevice, hdispatch]
  cases precheck o with
  | some why => exact hfinish hkept
  | none =>
    refine see_bind (Ensures.ite (fun _ => hfinish (hkept.note (by simp))) fun _ => ?_)
    refine Ensures.handle (expExitChild_spec (hkept.note (by simp)) ?_ .nil ?_) ?_
      fun _ _ _ _ => trivial
    · simp [Alive, Proc.note, Proc.recorded, Proc.start]
    · simp [Proc.note, Proc.recorded, Proc.start]
    · -- An exception ends the child with 3, after a line that is no record.
      intro halt p _ k hk
      cases halt with
      | fuel => cases hk
      | stop s =>
        cases s with
        | returned _ => cases hk
        | thrown e =>
          obtain rfl := Option.some.inj hk
          exact .inr (.inr (.inl rfl))

/-- The verdict is a pass only for a child that has exited with zero, and not abruptly. -/
theorem exitVerdict_pass {abrupt : Bool} {status : WaitStatus}
    (h : verdictExit (exitVerdict abrupt status).1 = 0) : status = .exited 0 ∧ abrupt = false := by
  unfold exitVerdict at h
  split at h
  all_goals try exact absurd h (by decide)
  split at h
  · exact absurd h (by decide)
  · rename_i habrupt
    exact ⟨rfl, Bool.not_eq_true _ ▸ habrupt⟩

/-- The exit status 0 of the parent goes with a child that has returned 0. -/
theorem ParentEnd.of_zero {p : Proc} (h : ParentEnd o 0 p) :
    .waited (.reaped (.exited 0)) ∈ p.events ∧ o.abrupt = false := by
  rcases h.verdict with hcode | ⟨hcode, -⟩ | ⟨status, hreaped, -, hverdict⟩
  · exact absurd hcode (by decide)
  · exact absurd hcode (by decide)
  · obtain ⟨rfl, habrupt⟩ := exitVerdict_pass hverdict.symm
    exact ⟨hreaped, habrupt⟩

/-- What the exit status of the child says. -/
theorem main_child (hargs : parseArgs args = some o) (hexp : o.exp = ascii "exit")
    (hchild : o.child = true) :
    Ensures (main env args fuel) .start
      (fun code p => (∃ proto, finishProtocolOptions env.getenv o.proto = .ok proto ∧
        ChildCode P { o with proto } code p) ∨ code = 3) fun _ _ => True := by
  refine main_spec hargs (fun why => ?_) fun proto hproto => ?_
  · exact (finish_child .start).mono (fun _ _ h => .inr h) fun _ _ h => h
  · have h : Ensures (mainWith env { o with proto } fuel) .start (ChildCode P { o with proto })
        fun _ _ => True := mainWith_child hexp hchild
    exact h.mono (fun _ _ h => .inl ⟨proto, hproto, h⟩) fun _ _ h => h

/-- The exit status of a child that was reaped. -/
def ProcEvent.exitCode : ProcEvent → Option ℕ
  | .waited (.reaped (.exited code)) => some code
  | _ => none

/-- A command line of the experiment. -/
def exitArgs : List Bytes :=
  [ascii "--exp", ascii "exit", ascii "--server", ascii "h:80", ascii "--bucket", ascii "b",
    ascii "--object", ascii "o", ascii "--mode", ascii "host", ascii "--slot-bytes", ascii "5",
    ascii "--guard", ascii "1", ascii "--token-encoding", ascii "verbatim", ascii "--deadline-s",
    ascii "1"]

/-- The time goes on with the sleeps. -/
def tick (t : ℤ) : ProcEvent → ℤ
  | .clock now => max t now
  | .slept => t + 20000000
  | _ => t

/-- An environment in which everything goes well, with a child of which `waitpid` says always the
same. -/
def exitEnv (wait : Waited) : ProcEnv plainPlatform where
  rig := pairEnv
  getenv _ := none
  strerror _ := []
  print _ := .ok true
  setDevice _ := true
  attributes _ := (none, none)
  malloc _ := true
  session _ := .ok ()
  readlink _ := true
  clock p := p.events.foldl tick 0
  fork _ := 1
  wait _ := wait
  kill _ := 0

/-- The time that the clock shows does not go back. -/
theorem foldl_tick_ge (es : List ProcEvent) (t : ℤ) :
    t ≤ es.foldl tick t ∧ ∀ now, .clock now ∈ es → now ≤ es.foldl tick t := by
  induction es generalizing t with
  | nil => simp
  | cons e es ih =>
    obtain ⟨hge, hmem⟩ := ih (tick t e)
    have htick : t ≤ tick t e := by cases e <;> simp [tick]
    refine ⟨htick.trans hge, fun now h => ?_⟩
    rcases List.mem_cons.mp h with rfl | h
    · exact (le_max_right t now).trans hge
    · exact hmem now h

/-- The clock of the environment is steady. -/
theorem exitEnv_steady (wait : Waited) : (exitEnv wait).Steady where
  monotone p t ht := (foldl_tick_ge p.events 0).2 t ht
  sleeps p es t w h := by
    have hclock : (exitEnv wait).clock p = max (es.foldl tick 0) t + 20000000 := by
      simp [exitEnv, h, tick]
    rw [hclock]
    exact add_le_add_left (le_max_right _ _) _

/-- The command line of the exit experiment is accepted, for the parent and with a deadline of a
second. -/
theorem exitArgs_accepted :
    ((parseArgs exitArgs).isSome = true ∧ (optionsOf exitArgs).exp = ascii "exit") ∧
      (optionsOf exitArgs).child = false ∧ (optionsOf exitArgs).deadline_s = 1 := by decide +kernel

/-- The options of the command line of the exit experiment. -/
theorem parseArgs_exitArgs : parseArgs exitArgs = some (optionsOf exitArgs) :=
  (Option.getD_of_ne_none (Option.isSome_iff_ne_none.mp exitArgs_accepted.1.1) _).symm

-- A run on given options is not to be evaluated but by the kernel.
attribute [local irreducible] Ensures optionsOf

/-- **What the parent does with its child.** It waits for it, and kills it, only as long as it has
not reaped it, and kills it at most once and only after the deadline. It returns the exit status of
the verdict on a child that it has reaped in time, `1` if it has killed it, or `3`; and `0` only if
every record was written. Its loops end: with a steady clock, 50 polls for each second of the
deadline and 250 more are enough. -/
theorem exit_parent (hargs : parseArgs args = some o) (hexp : o.exp = ascii "exit")
    (hchild : o.child = false) :
    Ensures (main env args fuel) .start (ParentEnd o) (ParentStopped env o fuel) := by
  refine main_spec hargs (fun why => ?_) fun proto _ => mainWith_parent proto hexp hchild
  exact finish_parent .start trivial (.inl rfl)

/-- A child that hangs does not keep its parent from ending. -/
theorem exit_parent_hanging :
    Ensures (main (exitEnv .running) exitArgs 301) .start (ParentEnd (optionsOf exitArgs))
      fun halt p => halt ≠ .fuel ∧ ParentSafe 1 p.events := by
  have hdeadline : (optionsOf exitArgs).deadline_s = 1 := exitArgs_accepted.2.2
  refine (exit_parent parseArgs_exitArgs exitArgs_accepted.1.2 exitArgs_accepted.2.1).mono
    (fun _ _ h => h) fun halt p h => ⟨fun hfuel => ?_, hdeadline ▸ h.1⟩
  have hle := h.2 hfuel (exitEnv_steady _)
  rw [hdeadline] at hle
  exact absurd hle (by decide)

/-- **What a pass of the exit experiment says of both processes.** The parent has returned `0`, and
`waitpid` tells how the child has ended: by `_exit(127)` when it could not be executed, or with what
its `main` returned. Then the child was not told to leave abruptly, and has returned `0` from
`main`; its one GET is complete, nothing was deregistered or destroyed, and every record of both
processes was written. -/
theorem exit_pass {cenv : ProcEnv P} {fuel' : ℕ} {p : Proc} (hargs : parseArgs args = some o)
    (hexp : o.exp = ascii "exit") (hchild : o.child = false)
    (hpass : main env args fuel .start = .ok 0 p)
    (hwait : ∀ code : ℕ, .waited (.reaped (.exited code)) ∈ p.events → code = 127 ∨
      ∃ v p', main cenv (args ++ [ascii "--child"]) fuel' .start = .ok v p' ∧ v % 256 = code) :
    o.abrupt = false ∧ p.AllWritten ∧
      ∃ proto p', main cenv (args ++ [ascii "--child"]) fuel' .start = .ok 0 p' ∧
        finishProtocolOptions cenv.getenv o.proto = .ok proto ∧
        ChildEnd P { o with proto, child := true } p' ∧ .exit_ ∉ p'.events := by
  have hparent : ParentEnd o 0 p := by
    have hmain : Ensures (main env args fuel) .start (ParentEnd o) (ParentStopped env o fuel) :=
      main_spec hargs (fun _ => finish_parent .start trivial (.inl rfl))
        fun proto _ => mainWith_parent proto hexp hchild
    exact hmain.of_ok hpass
  obtain ⟨hreaped, habrupt⟩ := hparent.of_zero
  refine ⟨habrupt, hparent.written rfl, ?_⟩
  obtain ⟨v, p', hrun, hv⟩ := (hwait 0 hreaped).resolve_left (by decide)
  -- Of the exit statuses of the child only 0 is 0 for `waitpid`.
  rcases (main_child (parseArgs_child hargs) hexp rfl).of_ok hrun with
    ⟨proto, hproto, ⟨rfl, hend⟩ | rfl | rfl | rfl⟩ | rfl
  · refine ⟨proto, p', hrun, hproto, hend, fun hmem => ?_⟩
    exact absurd (habrupt.symm.trans (hend.left.mp hmem)) Bool.false_ne_true
  all_goals exact absurd hv (by decide)

/-- The exit status of a process, and those of its children. -/
def statusOf (m : Prog ℤ) : Option (ℤ × List ℕ) :=
  match m .start with
  | .ok code p => some (code, p.events.filterMap ProcEvent.exitCode)
  | .error _ _ => none

/-- A process that ends with an exit status. -/
theorem exists_of_statusOf {m : Prog ℤ} {code : ℤ} {codes : List ℕ}
    (h : statusOf m = some (code, codes)) :
    ∃ p, m .start = .ok code p ∧
      ∀ c : ℕ, .waited (.reaped (.exited c)) ∈ p.events → c ∈ codes := by
  unfold statusOf at h
  split at h
  · rename_i code' p hrun
    obtain ⟨rfl, rfl⟩ := Prod.mk.inj (Option.some.inj h)
    exact ⟨p, hrun, fun c hc => List.mem_filterMap.mpr ⟨_, hc, rfl⟩⟩
  · exact absurd h (by simp)

/-- In an environment in which everything goes well, both processes return `0`. -/
theorem exit_pass_well :
    ∃ p p' proto, main (exitEnv (.reaped (.exited 0))) exitArgs 301 .start = .ok 0 p ∧
      p.AllWritten ∧
      ChildEnd plainPlatform { optionsOf exitArgs with proto, child := true } p' := by
  have hstatus : statusOf (main (exitEnv (.reaped (.exited 0))) exitArgs 301) = some (0, [0]) ∧
      statusOf (main (exitEnv .running) (exitArgs ++ [ascii "--child"]) 0) = some (0, []) := by
    decide +kernel
  obtain ⟨p, hrun, hcodes⟩ := exists_of_statusOf hstatus.1
  obtain ⟨p', hrun', -⟩ := exists_of_statusOf hstatus.2
  have hwait : ∀ c : ℕ, .waited (.reaped (.exited c)) ∈ p.events → c = 127 ∨
      ∃ v p', main (exitEnv .running) (exitArgs ++ [ascii "--child"]) 0 .start = .ok v p' ∧
        v % 256 = c := by
    intro c hc
    obtain rfl := List.mem_singleton.mp (hcodes c hc)
    exact .inr ⟨0, p', hrun', rfl⟩
  obtain ⟨-, hwritten, proto, p'', -, -, hend, -⟩ :=
    exit_pass parseArgs_exitArgs exitArgs_accepted.1.2 exitArgs_accepted.2.1 hrun hwait
  exact ⟨p, p'', proto, hrun, hwritten, hend⟩

end Main

end S3Rdma.Probe
