import S3Rdma.Lib.Monitor
import S3Rdma.Probe.Experiments

/-!
# The conduct of an experiment

A GET that may not be over can still write to the arena. So the arena is to be read, poisoned,
deregistered and destroyed only at times that `Allowed` says; a log in which every event was allowed
when it happened is accepted by the monitor `usage`.

`Conduct` is what every operation of the experiments keeps: the log so far is accepted, the flags of
the fixture agree with the log, and every verdict that was given had its grounds. What the grounds
are is a parameter (`Rules`), which each experiment chooses. Most operations do nothing of interest
(`Harmless`); for each of the others there is one lemma that says what it does.
-/

namespace S3Rdma.Probe

/-! ## What may be done with the arena -/

/-- The GET is over and cannot write any more: it sent nothing, or all that it submitted has
completed, with nothing unknown and no record lost, and the SDK has returned. -/
def Settled (s : System) (r : SdkReturn) : Prop :=
  s.emissions = 0 ∨ (s.ctx.completed = s.ctx.submitted ∧ s.ctx.unknown = false ∧
    s.ctx.evidence_lost = false ∧ r.present = true)

/-- A GET has returned, and is settled. -/
def SettledIn (log : List Event) (t : GetTag) : Prop :=
  ∃ u s r, Event.returned t u s r ∈ log ∧ Settled s r

/-- All GETs that were issued are settled. -/
def AllSettled (log : List Event) : Prop := ∀ t, Event.issued t ∈ log → SettledIn log t

/-- What may happen next. The landings are read, and cells are poisoned, when all GETs so far are
settled; a GET is issued when those are settled that are not of its own round; the memory is
deregistered once, when all GETs are settled; and the arena and the sessions are destroyed only
after a deregistration that returned `0`, or without a registration, and never after they were
retained. -/
def Allowed (before : List Event) : Event → Prop
  | .read _ _ _ => AllSettled before
  | .poisoned _ _ => AllSettled before
  | .issued t => ∀ t', .issued t' ∈ before →
      SettledIn before t' ∨ (0 ≤ t.iteration ∧ t'.iteration = t.iteration)
  | .deregistered _ => AllSettled before ∧ ∀ rc, .deregistered rc ∉ before
  | .destroyed => .retained ∉ before ∧
      (.deregistered 0 ∈ before ∨ .registered (.ok 0) ∉ before)
  | _ => True

/-- The monitor of the arena. -/
def usage : Monitor (List Event) Event where
  ok := Allowed
  next before e := before ++ [e]

/-- Every event of the log was allowed when it happened. -/
def Safe (log : List Event) : Prop := usage.Accepts [] log

/-- What has happened is the state of the monitor. -/
theorem usage_after (before log : List Event) : usage.after before log = before ++ log := by
  induction log generalizing before with
  | nil => simp
  | cons e log ih =>
    rw [Monitor.after_cons, ih]
    simp [usage]

/-- An allowed event keeps the log safe. -/
theorem Safe.note {log : List Event} {e : Event} (h : Safe log) (he : Allowed log e) :
    Safe (log ++ [e]) := by
  refine Monitor.accepts_append.mpr ⟨h, ?_, trivial⟩
  rw [usage_after, List.nil_append]
  exact he

/-- A GET that is settled stays settled in a longer log. -/
theorem SettledIn.mono {log log' : List Event} {t : GetTag} (h : SettledIn log t)
    (hsub : log ⊆ log') : SettledIn log' t := by
  obtain ⟨u, s, r, hmem, hset⟩ := h
  exact ⟨u, s, r, hsub hmem, hset⟩

/-! ## Rules and conduct -/

/-- The event is one of a GET. -/
def Event.isGet : Event → Bool
  | .issued _ | .returned _ _ _ _ => true
  | _ => false

/-- What an experiment has to keep to: what must have happened before it gives a verdict, where some
verdicts need nothing, and which GETs there may be. -/
structure Rules where
  grounds : Verdict → List Event → Prop
  gets : List Event → Prop
  grounds_mono : ∀ {v log log'}, log ⊆ log' → grounds v log → grounds v log'
  grounds_inconclusive : ∀ log, grounds .inconclusive log
  grounds_envError : ∀ log, grounds .envError log
  gets_mono : ∀ {log es}, (∀ e ∈ es, Event.isGet e = false) → gets log → gets (log ++ es)

/-- What every operation keeps. -/
structure Conduct (R : Rules) (w : World) : Prop where
  safe : Safe w.log
  retained_mem : .retained ∈ w.log → w.fixture.retained = true
  deregistered_mem : ∀ rc, .deregistered rc ∈ w.log →
    w.fixture.released = true ∨ w.fixture.retained = true
  registered_mem : .registered (.ok 0) ∈ w.log →
    w.fixture.registered = true ∨ w.fixture.released = true
  verdicts : ∀ v d f r, .printed (.result v d f) r ∈ w.log → R.grounds v w.log
  fallbacks : ∀ v, .fallback v ∈ w.log → R.grounds v w.log
  gets : R.gets w.log

/-- No record was lost. -/
def NoneLost (log : List Event) : Prop := ∀ r x, .printed r x ∈ log → x = .ok true

/-- No record was lost as long as the flag is not set. -/
def Kept (w : World) : Prop := w.jsonl_output_failed = false → NoneLost w.log

/-- No GET has taken place meanwhile. -/
def Extends (w w' : World) : Prop :=
  ∃ es, w'.log = w.log ++ es ∧ ∀ e ∈ es, Event.isGet e = false

/-- No GET has taken place so far. -/
def NoGets (log : List Event) : Prop := ∀ e ∈ log, Event.isGet e = false

section Extends

variable {w w₁ w₂ w' : World} {e : Event}

/-- The log is extended without a GET, and then again. -/
theorem Extends.trans (h₁ : Extends w w₁) (h₂ : Extends w₁ w₂) : Extends w w₂ := by
  obtain ⟨es₁, hlog₁, hes₁⟩ := h₁
  obtain ⟨es₂, hlog₂, hes₂⟩ := h₂
  refine ⟨es₁ ++ es₂, by rw [hlog₂, hlog₁, List.append_assoc], fun e he => ?_⟩
  rcases List.mem_append.mp he with he | he
  · exact hes₁ e he
  · exact hes₂ e he

/-- What has happened before is still in the log. -/
theorem Extends.subset (h : Extends w w') : w.log ⊆ w'.log := by
  obtain ⟨es, hlog, -⟩ := h
  rw [hlog]
  exact List.subset_append_left _ _

/-- An event of a GET in the extended log was in the log before. -/
theorem Extends.mem_of_isGet (h : Extends w w') (he : e.isGet = true) (hmem : e ∈ w'.log) :
    e ∈ w.log := by
  obtain ⟨es, hlog, hes⟩ := h
  rw [hlog, List.mem_append] at hmem
  exact hmem.resolve_right fun hmem => absurd ((hes e hmem).symm.trans he) Bool.false_ne_true

/-- Without a new GET all stay settled. -/
theorem AllSettled.of_extends (h : AllSettled w.log) (hext : Extends w w') : AllSettled w'.log := by
  intro t ht
  exact (h t (hext.mem_of_isGet rfl ht)).mono hext.subset

/-- No GET has taken place at first. -/
theorem NoGets.nil : NoGets [] := fun _ he => absurd he List.not_mem_nil

/-- Nothing is outstanding where no GET was issued. -/
theorem NoGets.allSettled {log : List Event} (h : NoGets log) : AllSettled log :=
  fun _ ht => absurd (h _ ht) Bool.false_ne_true.symm

/-- No GET has taken place when the log is extended without one. -/
theorem NoGets.of_extends (h : NoGets w.log) (hext : Extends w w') : NoGets w'.log := by
  obtain ⟨es, hlog, hes⟩ := hext
  intro e he
  rw [hlog, List.mem_append] at he
  exact he.elim (h e) (hes e)

end Extends

/-! ## Quiet events -/

/-- An event that is none of those that conduct is about. -/
def Event.quiet : Event → Bool
  | .printed (.result _ _ _) _ => false
  | .printed _ _ => true
  | .allocated _ | .attribute _ | .clock _ | .constructed _ | .callbackMax _ | .spawnFailed _ => true
  | _ => false

/-- Only quiet events have happened. -/
structure Quiet (w w' : World) : Prop where
  fixture : w'.fixture = w.fixture
  arena : w'.arena = w.arena
  threads : w'.threads = w.threads
  tally : w'.tally = w.tally
  log : ∃ es, w'.log = w.log ++ es ∧ ∀ e ∈ es, Event.quiet e = true

/-- Only quiet events have happened, and if a record was lost this is noted. -/
structure Calm (w w' : World) : Prop extends Quiet w w' where
  kept : Kept w → Kept w'

section Quiet

variable {R : Rules} {w w₁ w₂ w' : World} {e : Event}

/-- The world is quiet while nothing happens. -/
theorem Quiet.refl (w : World) : Quiet w w := ⟨rfl, rfl, rfl, rfl, [], by simp, by simp⟩

/-- Quiet events after quiet events are quiet. -/
theorem Quiet.trans (h₁ : Quiet w w₁) (h₂ : Quiet w₁ w₂) : Quiet w w₂ := by
  obtain ⟨es₁, hlog₁, hes₁⟩ := h₁.log
  obtain ⟨es₂, hlog₂, hes₂⟩ := h₂.log
  refine ⟨h₂.fixture.trans h₁.fixture, h₂.arena.trans h₁.arena, h₂.threads.trans h₁.threads,
    h₂.tally.trans h₁.tally, es₁ ++ es₂, by rw [hlog₂, hlog₁, List.append_assoc], fun e he => ?_⟩
  rcases List.mem_append.mp he with he | he
  · exact hes₁ e he
  · exact hes₂ e he

/-- The world is calm while nothing happens. -/
theorem Calm.refl (w : World) : Calm w w := ⟨.refl w, id⟩

/-- Calm after calm is calm. -/
theorem Calm.trans (h₁ : Calm w w₁) (h₂ : Calm w₁ w₂) : Calm w w₂ :=
  ⟨h₁.toQuiet.trans h₂.toQuiet, fun h => h₂.kept (h₁.kept h)⟩

/-- An event that is quiet leaves the world quiet. -/
theorem Quiet.note (he : e.quiet = true) (failed : Bool) :
    Quiet w { w.note e with jsonl_output_failed := failed } :=
  ⟨rfl, rfl, rfl, rfl, [e], rfl, by simp [he]⟩

/-- A quiet event is none of a GET. -/
theorem isGet_of_quiet (he : e.quiet = true) : e.isGet = false := by
  cases e <;> first | rfl | exact absurd he Bool.false_ne_true

/-- A quiet event is always allowed. -/
theorem allowed_of_quiet {before : List Event} (he : e.quiet = true) : Allowed before e := by
  cases e <;> trivial

/-- Quiet events extend the log without a GET. -/
theorem Quiet.toExtends (h : Quiet w w') : Extends w w' := by
  obtain ⟨es, hlog, hes⟩ := h.log
  exact ⟨es, hlog, fun e he => isGet_of_quiet (hes e he)⟩

/-- An event that is not quiet happened before. -/
theorem Quiet.mem (h : Quiet w w') (he : e.quiet = false) (hmem : e ∈ w'.log) : e ∈ w.log := by
  obtain ⟨es, hlog, hes⟩ := h.log
  rw [hlog, List.mem_append] at hmem
  refine hmem.resolve_right fun hmem => ?_
  exact absurd (he.symm.trans (hes e hmem)) (by decide)

/-- Quiet events leave the log safe. -/
theorem Safe.quiet {log es : List Event} (h : Safe log) (hes : ∀ e ∈ es, Event.quiet e = true) :
    Safe (log ++ es) := by
  refine Monitor.accepts_append.mpr ⟨h, ?_⟩
  exact (Monitor.accepts_of_invariant (I := fun _ => True)
    (fun _ _ e he => ⟨allowed_of_quiet (hes e he), trivial⟩) trivial).1

/-- Quiet events keep the conduct. -/
theorem Conduct.quiet (h : Conduct R w) (hq : Quiet w w') : Conduct R w' := by
  have hsub := hq.toExtends.subset
  obtain ⟨es, hlog, hes⟩ := hq.log
  have hgets : R.gets w'.log := by
    rw [hlog]
    exact R.gets_mono (fun e he => isGet_of_quiet (hes e he)) h.gets
  refine ⟨hlog ▸ h.safe.quiet hes, ?_, ?_, ?_, ?_, ?_, hgets⟩
  · rw [hq.fixture]
    exact fun hmem => h.retained_mem (hq.mem rfl hmem)
  · rw [hq.fixture]
    exact fun rc hmem => h.deregistered_mem rc (hq.mem rfl hmem)
  · rw [hq.fixture]
    exact fun hmem => h.registered_mem (hq.mem rfl hmem)
  · exact fun v d f r hmem => R.grounds_mono hsub (h.verdicts v d f r (hq.mem rfl hmem))
  · exact fun v hmem => R.grounds_mono hsub (h.fallbacks v (hq.mem rfl hmem))

end Quiet

/-! ## Operations that do nothing of interest -/

/-- The function has ended by an exception. -/
def Stop.Thrown (s : Stop) : Prop := ∃ e, s = .thrown e

/-- The function has ended early, with the conduct kept and not with the exit status `0`. -/
def Left (R : Rules) (s : Stop) (w : World) : Prop := Conduct R w ∧ s ≠ .returned 0

/-- An exception is not the exit status `0`. -/
theorem Conduct.left {R : Rules} {s : Stop} {w : World} (h : Conduct R w) (hs : s.Thrown) :
    Left R s w := by
  obtain ⟨e, rfl⟩ := hs
  exact ⟨h, nofun⟩

/-- However a computation ends, only quiet events happen in it. -/
def Harmless {α : Type} (m : Rig α) : Prop :=
  ∀ w, Ensures m w (fun _ w' => Calm w w') fun s w' => s.Thrown ∧ Quiet w w'

section Harmless

variable {P : Platform} {env : Env P} {R : Rules} {α β : Type} {m : Rig α} {f : α → Rig β}
  {w w₀ : World} {Q : β → World → Prop}

/-- To return a value is harmless. -/
theorem Harmless.pure (a : α) : Harmless (Pure.pure a) := fun w => Ensures.pure (Calm.refl w)

/-- A harmless computation after another is harmless. -/
theorem Harmless.bind (hm : Harmless m) (hf : ∀ a, Harmless (f a)) : Harmless (m >>= f) := by
  intro w
  refine Ensures.bind (Q := fun _ w' => Calm w w') (hm w) fun a w₁ h₁ => ?_
  refine (hf a w₁).mono (fun _ _ h₂ => h₁.trans h₂) ?_
  exact fun s w₂ h₂ => ⟨h₂.1, h₁.toQuiet.trans h₂.2⟩

/-- A loop of harmless computations is harmless. -/
theorem Harmless.forM {g : β → Rig PUnit} (hg : ∀ x, Harmless (g x)) (xs : List β) :
    Harmless (xs.forM g) := by
  induction xs with
  | nil => exact .pure _
  | cons x xs ih => exact (hg x).bind fun _ => ih

/-- A harmless operation, and what follows it; `w₀` is a state from which only quiet events have led
here. -/
theorem Harmless.andThen (hm : Harmless m) (hc : Conduct R w₀) (h₀ : Calm w₀ w)
    (hf : ∀ a w', Calm w₀ w' → Ensures (f a) w' Q (Left R)) : Ensures (m >>= f) w Q (Left R) := by
  refine Ensures.bind (Q := fun _ w' => Calm w w') ?_ fun a w' h => hf a w' (h₀.trans h)
  exact (hm w).mono (fun _ _ h => h) fun s w' h =>
    (hc.quiet (h₀.toQuiet.trans h.2)).left h.1

/-- An answer that is not a record is harmless. -/
theorem harmless_look {answer : List Event → α} {event : α → Event}
    (hquiet : ∀ a, (event a).quiet = true) (hrecord : ∀ a r x, event a ≠ .printed r x) :
    Harmless (look answer event) := by
  intro w
  show Calm w (w.note (event (answer w.log)))
  refine ⟨.note (hquiet _) _, fun hkept hfailed r x hmem => ?_⟩
  rcases List.mem_append.mp hmem with hmem | hmem
  · exact hkept hfailed r x hmem
  · exact absurd (List.mem_singleton.mp hmem).symm (hrecord _ r x)

/-- An allocation is harmless. -/
theorem harmless_alloc : Harmless (ask env.alloc .allocated) := by
  intro w
  unfold Ensures ask
  cases env.alloc w.log with
  | ok a =>
    refine ⟨.note rfl _, fun hkept hfailed r x hmem => ?_⟩
    rcases List.mem_append.mp hmem with hmem | hmem
    · exact hkept hfailed r x hmem
    · exact absurd (List.mem_singleton.mp hmem) (by simp)
  | error e => exact ⟨⟨e, rfl⟩, .note rfl _⟩

/-- A record is written, or is lost with the flag set, or cannot be built. -/
theorem emit_spec (r : Rec) (w : World) :
    Ensures (emit env r) w
      (fun _ w' => ∃ written, w' = { w.note (.printed r (.ok written)) with
        jsonl_output_failed := w.jsonl_output_failed || !written })
      fun s w' => ∃ e, s = .thrown e ∧ w' = w.note (.printed r (.error e)) := by
  refine Ensures.bind (Q := fun written w' => w' = w.note (.printed r (.ok written))) ?_ ?_
  · unfold Ensures ask
    cases env.print w.log with
    | ok written => exact rfl
    | error e => exact ⟨e, rfl, rfl⟩
  · rintro (_ | _) _ rfl
    · exact ⟨false, by simp [World.note]⟩
    · exact ⟨true, by simp [World.note]⟩

/-- A record that was written, or is lost with the flag set, keeps the flag right. -/
theorem Kept.emit {r : Rec} (h : Kept w) (written : Bool) :
    Kept { w.note (.printed r (.ok written)) with
      jsonl_output_failed := w.jsonl_output_failed || !written } := by
  intro hfailed r' x hmem
  simp only [Bool.or_eq_false_iff, Bool.not_eq_false'] at hfailed
  rcases List.mem_append.mp hmem with hmem | hmem
  · exact h hfailed.1 r' x hmem
  · obtain ⟨-, rfl⟩ := Event.printed.inj (List.mem_singleton.mp hmem)
    rw [hfailed.2]

/-- A record that is not a result is harmless. -/
theorem harmless_emit {r : Rec} (hr : ∀ x, (Event.printed r x).quiet = true) :
    Harmless (emit env r) := by
  intro w
  refine (emit_spec r w).mono ?_ ?_
  · rintro _ _ ⟨written, rfl⟩
    exact ⟨.note (hr _) _, fun h => h.emit written⟩
  · rintro _ _ ⟨e, rfl, rfl⟩
    exact ⟨⟨e, rfl⟩, .note (hr _) _⟩

/-- The records of the attempts are harmless. -/
theorem harmless_emitAttempts (x : RigContext) : Harmless (emitAttempts env x) :=
  .forM (fun _ => harmless_emit fun _ => rfl) _

/-- Asking for the callback capacity is harmless. -/
theorem harmless_callbackMax :
    Harmless (look (orMinusOne env.callbackMax) Event.callbackMax) :=
  harmless_look (fun _ => rfl) nofun

/-- The query of the visibility is harmless. -/
theorem harmless_readVisibility (mode : BufferMode) : Harmless (readVisibility env mode) := by
  cases mode with
  | host => exact .pure _
  | gpu => exact (harmless_look (fun _ => rfl) nofun).bind fun _ => .pure _

/-- A report does not throw. -/
theorem report_spec {m : Rig Unit} (hm : Harmless m) (w : World) :
    Ensures (report m) w (fun _ w' => Calm w w') fun _ _ => False := by
  refine Ensures.handle (hm w) ?_ ?_
  · rintro _ w' ⟨⟨e, rfl⟩, hq⟩ k hk
    obtain rfl := Option.some.inj hk
    show Calm w { w' with jsonl_output_failed := true }
    exact ⟨⟨hq.fixture, hq.arena, hq.threads, hq.tally, hq.log⟩, fun _ => nofun⟩
  · rintro _ w' ⟨⟨e, rfl⟩, -⟩ hnone
    exact absurd hnone (by simp)

end Harmless

/-! ## Verdicts and the fixture -/

section Fixture

variable {P : Platform} {env : Env P} {R : Rules} {w w' : World} {e : Event} {v : Verdict}
  {d : Bytes}

/-- An allowed event keeps the conduct, if the flags of the fixture go with it and a verdict has its
grounds. -/
theorem Conduct.step (hc : Conduct R w) (hlog : w'.log = w.log ++ [e]) (hallowed : Allowed w.log e)
    (hretained : e = .retained ∨ w.fixture.retained = true → w'.fixture.retained = true)
    (hderegistered : (∃ rc, e = .deregistered rc) ∨ w.fixture.released = true ∨
      w.fixture.retained = true → w'.fixture.released = true ∨ w'.fixture.retained = true)
    (hregistered : e = .registered (.ok 0) ∨ w.fixture.registered = true ∨
      w.fixture.released = true → w'.fixture.registered = true ∨ w'.fixture.released = true)
    (hverdict : ∀ v d f r, e = .printed (.result v d f) r → R.grounds v w.log)
    (hfallback : ∀ v, e = .fallback v → R.grounds v w.log) (hgets : R.gets w'.log) :
    Conduct R w' := by
  -- Every clause is about events of the log: the old ones are as before, the new one is `e`.
  have hsub : w.log ⊆ w'.log := hlog ▸ List.subset_append_left _ _
  have hcases : ∀ {e'}, e' ∈ w'.log → e' ∈ w.log ∨ e = e' := by
    intro e' hmem
    rw [hlog, List.mem_append, List.mem_singleton] at hmem
    exact hmem.imp_right Eq.symm
  refine ⟨hlog ▸ hc.safe.note hallowed, ?_, ?_, ?_, ?_, ?_, hgets⟩
  · intro hmem
    exact hretained ((hcases hmem).symm.imp_right hc.retained_mem)
  · intro rc hmem
    exact hderegistered ((hcases hmem).symm.imp (fun h => ⟨rc, h⟩) (hc.deregistered_mem rc))
  · intro hmem
    exact hregistered ((hcases hmem).symm.imp_right hc.registered_mem)
  · intro v d f r hmem
    refine R.grounds_mono hsub ?_
    rcases hcases hmem with hmem | rfl
    · exact hc.verdicts v d f r hmem
    · exact hverdict v d f r rfl
  · intro v hmem
    refine R.grounds_mono hsub ?_
    rcases hcases hmem with hmem | rfl
    · exact hc.fallbacks v hmem
    · exact hfallback v rfl

/-- An event that is none of a GET extends the log. -/
theorem Extends.note (hlog : w'.log = w.log ++ [e]) (hget : e.isGet = false) : Extends w w' :=
  ⟨[e], hlog, by simpa using hget⟩

/-- The rule about GETs still holds when the log is extended without one. -/
theorem Conduct.gets_extends (hc : Conduct R w) (h : Extends w w') : R.gets w'.log := by
  obtain ⟨es, hlog, hes⟩ := h
  rw [hlog]
  exact R.gets_mono hes hc.gets

/-- A result with its grounds keeps the conduct. -/
theorem Conduct.result (hc : Conduct R w) (hv : R.grounds v w.log) (f failed : Bool)
    (x : Except Exn Bool) :
    Conduct R { w.note (.printed (.result v d f) x) with jsonl_output_failed := failed } := by
  refine hc.step rfl trivial (by simp [World.note]) (by simp [World.note]) (by simp [World.note])
    ?_ nofun (hc.gets_extends (.note rfl rfl))
  intro v' d' f' r' h
  obtain ⟨rfl, -, -⟩ := Rec.result.inj (Event.printed.inj h).1
  exact hv

/-- `finish` gives a verdict that has its grounds. The exit status is `0` only for a pass, with all
records written. -/
theorem finish_spec (hc : Conduct R w) (hv : R.grounds v w.log) :
    Ensures (finish env v d) w
      (fun c w' => Conduct R w' ∧ Extends w w' ∧ (c = 0 → v = .pass ∧ (Kept w → NoneLost w'.log)))
      fun s w' => s.Thrown ∧ Conduct R w' ∧ R.grounds v w'.log := by
  -- What is printed has its grounds, since a pass without all records becomes inconclusive.
  obtain ⟨v', hv', hgrounds⟩ : ∃ v', (if w.jsonl_output_failed && v = .pass then .inconclusive
      else v) = v' ∧ R.grounds v' w.log := by
    refine ⟨_, rfl, ?_⟩
    split_ifs
    · exact R.grounds_inconclusive _
    · exact hv
  show Ensures (emit env (.result (if w.jsonl_output_failed && v = .pass then .inconclusive else v) d
    w.jsonl_output_failed) >>= _) w _ _
  rw [hv']
  refine Ensures.bind ((emit_spec _ w).mono (fun _ _ h => h) ?_) ?_
  · rintro _ _ ⟨e, rfl, rfl⟩
    exact ⟨⟨e, rfl⟩, hc.result hgrounds _ _ _, R.grounds_mono (List.subset_append_left _ _) hv⟩
  · rintro _ _ ⟨written, rfl⟩
    refine ⟨hc.result hgrounds _ _ _, .note rfl rfl, fun hzero => ?_⟩
    change (if (w.jsonl_output_failed || !written) = true then (3 : ℤ) else verdictExit v') = 0
      at hzero
    split_ifs at hzero with hfailed
    · exact absurd hzero (by decide)
    have hpass : v' = .pass := by
      cases v' <;> first | rfl | exact absurd hzero (by decide)
    subst hpass
    have hvpass : v = .pass := by
      by_contra hne
      split_ifs at hv'
      exact hne hv'
    exact ⟨hvpass, fun hkept => hkept.emit written (Bool.eq_false_iff.mpr hfailed)⟩

/-- Keeping the graph keeps the conduct. -/
theorem Conduct.retainNow (hc : Conduct R w) : Conduct R w.retainNow := by
  unfold World.retainNow
  split_ifs
  · exact hc
  · refine hc.step rfl trivial (by simp [World.note]) (by simp [World.note]) ?_ nofun nofun
      (hc.gets_extends (.note rfl rfl))
    simp [World.note]

/-- What has happened before `retain_now` is still in the log. -/
theorem retainNow_subset (w : World) : w.log ⊆ w.retainNow.log := by
  unfold World.retainNow
  split_ifs
  · exact fun _ h => h
  · exact List.subset_append_left _ _

/-- `retain` keeps the graph and gives a verdict that is not a pass. -/
theorem retain_spec (hc : Conduct R w) (hv : R.grounds v w.log) (hpass : v ≠ .pass) :
    Ensures (retain env v d) w (fun c w' => Conduct R w' ∧ c ≠ 0)
      fun s w' => s.Thrown ∧ Conduct R w' ∧ R.grounds v w'.log := by
  have hc₁ := hc.retainNow
  have hemit : Harmless (emit env .landing) := harmless_emit fun _ => rfl
  have hgrounds : ∀ w', Quiet w.retainNow w' → R.grounds v w'.log := fun w' hq =>
    R.grounds_mono (List.Subset.trans (retainNow_subset w) hq.toExtends.subset) hv
  refine Ensures.modify_bind (Ensures.bind ((hemit w.retainNow).mono (fun _ _ h => h) fun s w' h =>
    ⟨h.1, hc₁.quiet h.2, hgrounds w' h.2⟩) ?_)
  intro _ w₂ hcalm
  refine (finish_spec (hc₁.quiet hcalm.toQuiet) (hgrounds w₂ hcalm.toQuiet)).mono ?_ fun _ _ h => h
  exact fun c w' h => ⟨h.1, fun hzero => hpass (h.2.2 hzero).1⟩

/-- `terminal_fallback` gives the verdict, if it is not a pass. -/
theorem terminalFallback_spec (hc : Conduct R w) (hv : R.grounds v w.log) :
    Ensures (terminalFallback v) w (fun c w' => Conduct R w' ∧ c ≠ 0) fun _ _ => False := by
  show Conduct R ({ w with jsonl_output_failed := true }.note _) ∧ (3 : ℤ) ≠ 0
  refine ⟨hc.step rfl trivial (by simp [World.note]) (by simp [World.note]) (by simp [World.note])
    nofun ?_ (hc.gets_extends (.note rfl rfl)), by decide⟩
  intro v' h
  obtain rfl := Event.fallback.inj h
  split_ifs
  · exact R.grounds_inconclusive _
  · exact hv

/-- A verdict whose report fails is given by the fallback, with an exit status that is not zero. -/
theorem catchAll_fallback_spec {m : Rig ℤ} {Q : ℤ → World → Prop}
    (hm : Ensures m w Q fun s w' => s.Thrown ∧ Conduct R w' ∧ R.grounds v w'.log)
    (hQ : ∀ c w', Conduct R w' → c ≠ 0 → Q c w') :
    Ensures (catchAll m (terminalFallback v)) w Q fun _ _ => False := by
  refine Ensures.handle hm ?_ ?_
  · rintro _ w' ⟨⟨e, rfl⟩, hc, hv⟩ k hk
    obtain rfl := Option.some.inj hk
    exact (terminalFallback_spec hc hv).mono (fun c w' h => hQ c w' h.1 h.2) fun _ _ h => h
  · rintro _ w' ⟨⟨e, rfl⟩, -⟩ hnone
    exact absurd hnone (by simp)

/-- The flags of the fixture may be set as long as they agree with the log. -/
theorem Conduct.setFixture (hc : Conduct R w) (fx : Fixture)
    (hretained : w.fixture.retained = true → fx.retained = true)
    (hderegistered : w.fixture.released = true ∨ w.fixture.retained = true →
      fx.released = true ∨ fx.retained = true)
    (hregistered : w.fixture.registered = true ∨ w.fixture.released = true →
      fx.registered = true ∨ fx.released = true) : Conduct R { w with fixture := fx } where
  safe := hc.safe
  retained_mem h := hretained (hc.retained_mem h)
  deregistered_mem rc h := hderegistered (hc.deregistered_mem rc h)
  registered_mem h := hregistered (hc.registered_mem h)
  verdicts := hc.verdicts
  fallbacks := hc.fallbacks
  gets := hc.gets

/-- The conduct depends on the log and on the flags of the fixture. -/
theorem Conduct.congr (hc : Conduct R w) (hlog : w'.log = w.log) (hfixture : w'.fixture = w.fixture) :
    Conduct R w' := by
  obtain ⟨safe, retained_mem, deregistered_mem, registered_mem, verdicts, fallbacks, gets⟩ := hc
  rw [← hlog] at safe retained_mem deregistered_mem registered_mem verdicts fallbacks gets
  rw [← hfixture] at retained_mem deregistered_mem registered_mem
  exact ⟨safe, retained_mem, deregistered_mem, registered_mem, verdicts, fallbacks, gets⟩

/-- The memory may be deregistered when all GETs are settled and the fixture was not released. -/
theorem Conduct.allowed_deregistered (hc : Conduct R w) (hset : AllSettled w.log)
    (hreleased : w.fixture.released = false) (hretained : w.fixture.retained = false) (rc : ℤ) :
    Allowed w.log (.deregistered rc) := by
  refine ⟨hset, fun rc' hmem => ?_⟩
  rcases hc.deregistered_mem rc' hmem with h | h
  · exact absurd (hreleased.symm.trans h) (by decide)
  · exact absurd (hretained.symm.trans h) (by decide)

/-- A deregistration that failed, after which the graph is kept. -/
theorem Conduct.deregisterFailed (hc : Conduct R w) (hset : AllSettled w.log)
    (hreleased : w.fixture.released = false) (hretained : w.fixture.retained = false) (rc : ℤ) :
    Conduct R (w.note (.deregistered rc)).retainNow := by
  have hkeep : Conduct R { w with fixture := { w.fixture with retained := true } } :=
    hc.setFixture _ (fun _ => rfl) (fun _ => .inr rfl) id
  have hnote : Conduct R ({ w with fixture := { w.fixture with retained := true } }.note
      (.deregistered rc)) :=
    hkeep.step rfl (hc.allowed_deregistered hset hreleased hretained rc) (fun _ => rfl)
      (fun _ => .inr rfl) (by simp [World.note]) nofun nofun (hkeep.gets_extends (.note rfl rfl))
  unfold World.retainNow
  rw [if_neg (by simp [World.note, hretained])]
  exact hnote.step rfl trivial (fun _ => rfl) (fun _ => .inr rfl) (by simp [World.note]) nofun nofun
    (hnote.gets_extends (.note rfl rfl))

/-- All is destroyed, after a deregistration that returned `0` or without a registration. -/
theorem Conduct.destroyed (hc : Conduct R w) (hreleased : w.fixture.released = true)
    (hretained : w.fixture.retained = false)
    (hmem : .deregistered 0 ∈ w.log ∨ .registered (.ok 0) ∉ w.log) : Conduct R (w.note .destroyed) := by
  refine hc.step rfl ⟨fun h => ?_, hmem⟩ (by simp [World.note]) (fun _ => .inl hreleased)
    (fun _ => .inr hreleased) nofun nofun (hc.gets_extends (.note rfl rfl))
  exact absurd (hretained.symm.trans (hc.retained_mem h)) (by decide)

/-- What `release` has done: the memory was deregistered with `0`, if it was registered, and all was
destroyed; or it was not. -/
structure ReleaseDone (R : Rules) (w : World) (released : Bool) (w' : World) : Prop where
  conduct : Conduct R w'
  kept : Kept w → Kept w'
  tally : w'.tally = w.tally
  log : Extends w w'
  ok : released = true → w.fixture.registered = true → .deregistered 0 ∈ w'.log
  failed : released = false → w.fixture.released = true ∨ w.fixture.retained = true ∨
    ∃ rc, rc ≠ 0 ∧ .deregistered rc ∈ w'.log

/-- Something other than a record leaves the flag right. -/
theorem Kept.note (h : Kept w) (he : ∀ r x, e ≠ .printed r x) (hlog : w'.log = w.log ++ [e])
    (hfailed : w'.jsonl_output_failed = w.jsonl_output_failed) : Kept w' := by
  intro hfalse r x hmem
  rw [hlog, List.mem_append, List.mem_singleton] at hmem
  rcases hmem with hmem | hmem
  · exact h (hfailed ▸ hfalse) r x hmem
  · exact absurd hmem.symm (he r x)

/-- Nothing that is quiet depends on the fixture. -/
theorem Quiet.setFixture (h : Quiet w w') (fx : Fixture) :
    Quiet { w with fixture := fx } { w' with fixture := fx } :=
  ⟨rfl, h.arena, h.threads, h.tally, h.log⟩

/-- The end of `release` when the memory is deregistered, with the world before its report. -/
theorem release_end (hc : Conduct R { w with fixture := { w.fixture with
      registered := false, released := true } }) (hretained : w.fixture.retained = false)
    (hmem : .deregistered 0 ∈ w.log ∨ .registered (.ok 0) ∉ w.log) :
    Ensures (do
        catchAll (emit env .deregister) latchFailed
        if (0 : ℤ) ≠ 0 then return false
        else
          modify fun w => { w with fixture := { w.fixture with registered := false, released := true } }
          modify fun w => w.note .destroyed
          return true) w
      (fun released w' => released = true ∧ Conduct R w' ∧ (Kept w → Kept w') ∧
        w'.tally = w.tally ∧ Extends w w') fun _ _ => False := by
  refine Ensures.bind (report_spec (harmless_emit fun _ => rfl) w) fun _ w₁ hcalm => ?_
  have hext : Extends w ({ w₁ with fixture := { w₁.fixture with
      registered := false, released := true } }.note .destroyed) :=
    hcalm.toExtends.trans (.note rfl rfl)
  refine ⟨rfl, ?_, fun hkept => ?_, hcalm.tally, hext⟩
  · have hq := hcalm.toQuiet.setFixture { w.fixture with registered := false, released := true }
    have hc₁ := hc.quiet hq
    rw [← hcalm.fixture] at hc₁
    refine hc₁.destroyed rfl (by rw [hcalm.fixture]; exact hretained) ?_
    refine hmem.imp (fun h => hcalm.toExtends.subset h) fun h hmem' => h ?_
    exact hcalm.toQuiet.mem rfl hmem'
  · exact (hcalm.kept hkept).note (e := .destroyed) nofun rfl rfl

/-- `release` deregisters once, and destroys or keeps what the fixture owns. -/
theorem release_spec (hc : Conduct R w) (hset : AllSettled w.log) :
    Ensures (release env) w (ReleaseDone R w) fun _ _ => False := by
  refine Ensures.get_bind ?_
  refine Ensures.ite (fun hdone => ?_) fun hdone => ?_
  -- Already released or retained: nothing is done again.
  · refine Ensures.pure ⟨hc, id, rfl, ⟨[], by simp, by simp⟩, nofun, fun _ => ?_⟩
    rcases Bool.or_eq_true_iff.mp hdone with h | h
    · exact .inl h
    · exact .inr (.inl h)
  · rw [Bool.not_eq_true, Bool.or_eq_false_iff] at hdone
    obtain ⟨hreleased, hretained⟩ := hdone
    have hreleasing : Conduct R { w with fixture := { w.fixture with
        registered := false, released := true } } :=
      hc.setFixture _ id (fun _ => .inl rfl) fun _ => .inr rfl
    -- A fixture whose registration failed has nothing to deregister.
    by_cases hregistered : w.fixture.registered = true
    · rw [if_pos hregistered]
      refine Ensures.bind (Q := fun drc w' => w' = w.note (.deregistered drc)) rfl ?_
      rintro drc _ rfl
      have hnote : Extends w (w.note (.deregistered drc)) := .note rfl rfl
      have hmem : .deregistered drc ∈ (w.note (.deregistered drc)).log :=
        List.mem_append_right _ (List.mem_singleton_self _)
      have hkept : Kept w → Kept (w.note (.deregistered drc)) := fun h =>
        h.note (e := .deregistered drc) nofun rfl rfl
      -- The code of `deregister` decides: destroy on 0, keep the memory otherwise.
      refine Ensures.ite (fun hzero => ?_) fun hzero => ?_
      · subst hzero
        have hc₁ : Conduct R { w.note (.deregistered 0) with fixture := { w.fixture with
            registered := false, released := true } } :=
          hreleasing.step rfl (hc.allowed_deregistered hset hreleased hretained 0)
            (by simp) (fun _ => .inl rfl) (fun _ => .inr rfl) nofun nofun
            (hreleasing.gets_extends (.note rfl rfl))
        refine (release_end hc₁ hretained (.inl hmem)).mono ?_ fun _ _ h => h
        rintro _ w' ⟨rfl, hc', hk, htally, hext⟩
        exact ⟨hc', fun h => hk (hkept h), htally, hnote.trans hext, fun _ _ => hext.subset hmem,
          nofun⟩
      · refine Ensures.modify_bind ?_
        have hc₁ := hc.deregisterFailed hset hreleased hretained drc
        have hretain : (w.note (.deregistered drc)).retainNow =
            { w.note (.deregistered drc) with
              fixture := { w.fixture with retained := true } }.note .retained := by
          rw [World.retainNow, if_neg (by simp [World.note, hretained])]
          rfl
        refine Ensures.bind (report_spec (harmless_emit fun _ => rfl) _) fun _ w₂ hcalm => ?_
        rw [if_pos hzero]
        have hext : Extends (w.note (.deregistered drc)) w₂ := by
          refine Extends.trans ?_ hcalm.toExtends
          rw [hretain]
          exact .note rfl rfl
        refine Ensures.pure ⟨hc₁.quiet hcalm.toQuiet, fun h => hcalm.kept ?_, ?_, hnote.trans hext,
          nofun, fun _ => .inr (.inr ⟨drc, hzero, hext.subset hmem⟩)⟩
        · rw [hretain]
          exact (hkept h).note (e := .retained) nofun rfl rfl
        · rw [hcalm.tally, hretain]
          rfl
    · rw [if_neg hregistered]
      refine (release_end hreleasing hretained (.inr fun hmem => ?_)).mono ?_ fun _ _ h => h
      · rcases hc.registered_mem hmem with h | h
        · exact hregistered h
        · exact absurd (hreleased.symm.trans h) (by decide)
      · rintro _ w' ⟨rfl, hc', hk, htally, hext⟩
        exact ⟨hc', hk, htally, hext, fun _ h => absurd h hregistered, nofun⟩

end Fixture

end S3Rdma.Probe
