import S3Rdma.Probe.Conduct

/-!
# What the operations of an experiment do

For each operation from which the experiments are put together, one lemma says what it does when the
conduct was kept so far: how the log goes on, and that the conduct is kept, however it ends. An
experiment is then walked through from one operation to the next. Between them it is `Ready`, and
where it is left early, `Left` holds.

A GET may be over without being settled. What the probe tests before it goes on, on the outcome of a
GET, is stronger (`Settled.of_unknown`, `Settled.of_hold`).
-/

namespace S3Rdma.Probe

variable {P : Platform} {env : Env P} {R : Rules} {w w₀ w' : World} {α β : Type}

/-! ## Leaving early -/

section Exits

variable {m : Rig α} {k : Bytes → Rig α} {Q : α → World → Prop} {v : Verdict} {d d' : Bytes}

/-- A function is left with an exit status other than `0`. -/
theorem returning_spec {m : Rig ℤ} (h : Ensures m w (fun c w' => Conduct R w' ∧ c ≠ 0)
    fun s w' => s.Thrown ∧ Conduct R w') : Ensures (returning m) w Q (Left R) := by
  refine Ensures.bind (h.mono (fun _ _ h => h) fun s w' h => h.2.left h.1) fun c w' h => ?_
  exact Ensures.throw ⟨h.1, fun hzero => h.2 (Stop.returned.inj hzero)⟩

/-- A verdict that is not a pass gives an exit status that is not zero. -/
theorem finish_exit (hc : Conduct R w) (hv : R.grounds v w.log) (hpass : v ≠ .pass) :
    Ensures (finish env v d) w (fun c w' => Conduct R w' ∧ c ≠ 0)
      fun s w' => s.Thrown ∧ Conduct R w' :=
  (finish_spec hc hv).mono (fun _ _ h => ⟨h.1, fun hzero => hpass (h.2.2 hzero).1⟩)
    fun _ _ h => ⟨h.1, h.2.1⟩

/-- The graph is kept, and a verdict is given that is not a pass. -/
theorem retain_exit (hc : Conduct R w) (hv : R.grounds v w.log) (hpass : v ≠ .pass) :
    Ensures (retain env v d) w (fun c w' => Conduct R w' ∧ c ≠ 0)
      fun s w' => s.Thrown ∧ Conduct R w' :=
  (retain_spec hc hv hpass).mono (fun _ _ h => h) fun _ _ h => ⟨h.1, h.2.1⟩

/-- The fixture is released or kept, and a verdict is given that is not a pass. -/
theorem releaseOrRetain_spec (hc : Conduct R w) (hset : AllSettled w.log) (hv : R.grounds v w.log)
    (hpass : v ≠ .pass) :
    Ensures (releaseOrRetain env v d d') w (fun c w' => Conduct R w' ∧ c ≠ 0)
      fun s w' => s.Thrown ∧ Conduct R w' := by
  refine Ensures.bind ((release_spec hc hset).mono (fun _ _ h => h) fun _ _ h => h.elim) ?_
  intro released w₁ hdone
  have hv₁ := R.grounds_mono hdone.log.subset hv
  refine Ensures.ite (fun _ => ?_) fun _ => ?_
  · exact finish_exit hdone.conduct hv₁ hpass
  · exact retain_exit hdone.conduct hv₁ hpass

/-- An exception is caught where the conduct is kept. -/
theorem catchStd_spec (hm : Ensures m w Q (Left R))
    (hk : ∀ what w', Conduct R w' → Ensures (k what) w' Q (Left R)) :
    Ensures (catchStd m k) w Q (Left R) := by
  refine Ensures.handle hm ?_ fun _ _ h _ => h
  rintro (_ | (what | _)) w' hleft k' hk'
  · exact absurd hk' (by simp)
  · obtain rfl := Option.some.inj hk'
    exact hk what w' hleft.1
  · exact absurd hk' (by simp)

/-- The call of a function: an early `return` is its end. -/
theorem function_spec {m : Rig ℤ} {Q : ℤ → World → Prop} {E : Stop → World → Prop}
    (hm : Ensures m w Q E) (hreturned : ∀ c w', E (.returned c) w' → Q c w') :
    Ensures (function m) w Q E := by
  refine Ensures.handle hm ?_ fun _ _ h _ => h
  rintro (c | e) w' h k hk
  · obtain rfl := Option.some.inj hk
    exact Ensures.pure (hreturned c w' h)
  · exact absurd hk (by simp)

end Exits

/-! ## The fixture -/

/-- The state in which an experiment goes on: the memory is registered, no worker is running, all
GETs are settled, and if a record was lost this is noted. -/
structure Ready (R : Rules) (w : World) : Prop where
  conduct : Conduct R w
  settled : AllSettled w.log
  fixture : w.fixture = { registered := true }
  threads : w.threads = []
  kept : Kept w

/-- An experiment stays ready while only quiet events happen. -/
theorem Ready.calm (h : Ready R w) (hcalm : Calm w w') : Ready R w' where
  conduct := h.conduct.quiet hcalm.toQuiet
  settled := h.settled.of_extends hcalm.toExtends
  fixture := hcalm.fixture.trans h.fixture
  threads := hcalm.threads.trans h.threads
  kept := hcalm.kept h.kept

/-- The variables of the rounds may change. -/
theorem Ready.setTally (h : Ready R w) (tally : Tally) : Ready R { w with tally } where
  conduct := h.conduct.congr rfl rfl
  settled := h.settled
  fixture := h.fixture
  threads := h.threads
  kept := h.kept

/-- The destructor keeps the conduct. -/
theorem Conduct.destruct (hc : Conduct R w) : Conduct R w.destruct := by
  unfold World.destruct
  split_ifs
  · exact hc
  · exact hc.retainNow

/-- The scope of a fixture. It is destructed however the body ends. -/
theorem withFixture_spec {m : Rig α} {Q : α → World → Prop} (hc : Conduct R w)
    (hfixture : w.fixture = {})
    (hm : ∀ w', Calm w w' → Ensures m w' (fun a w'' => Q a w''.destruct) (Left R)) :
    Ensures (withFixture env m) w Q (Left R) := by
  refine Ensures.bind (Q := fun _ w' => Calm w w') ?_ fun _ w' hcalm => ?_
  · unfold Ensures construct
    cases env.construct w.log with
    | ok _ => exact ⟨.note rfl _, fun h => h.note (e := .constructed (.ok ())) nofun rfl rfl⟩
    | error e =>
      -- Nothing was registered yet.
      have hc₁ : Conduct R (w.note (.constructed (.error e))) :=
        hc.quiet (.note (e := .constructed (.error e)) rfl w.jsonl_output_failed)
      refine (hc₁.step (e := .destroyed) rfl ⟨fun h => ?_, .inr fun h => ?_⟩ (by simp [World.note])
        (by simp [World.note]) (by simp [World.note]) nofun nofun
        (hc₁.gets_extends (.note rfl rfl))).left ⟨e, rfl⟩
      · have := hc₁.retained_mem h
        simp [World.note, hfixture] at this
      · have := hc₁.registered_mem h
        simp [World.note, hfixture] at this
  · exact Ensures.always ((hm w' hcalm).mono (fun _ _ h => h) fun s w'' h => ⟨h.1.destruct, h.2⟩)

/-- Qualifying the visibility is calm, or leaves the experiment. -/
theorem qualifyVisibility_spec {o : Options} (hc : Conduct R w) :
    Ensures (qualifyVisibility env o) w (fun _ w' => Calm w w') (Left R) := by
  refine (harmless_readVisibility o.mode).andThen hc (.refl w) fun vis w₁ h₁ => ?_
  refine (harmless_emit fun _ => rfl).andThen hc h₁ fun _ w₂ h₂ => ?_
  refine Ensures.ite (fun _ => Ensures.pure h₂) fun _ => ?_
  exact returning_spec (finish_exit (hc.quiet h₂.toQuiet) (R.grounds_envError _) nofun)

/-- `register_memory`, on a fixture that is new. -/
theorem registerMemory_spec (hc : Conduct R w) (hfixture : w.fixture = {}) :
    Ensures (registerMemory env) w
      (fun rc w' => Conduct R w' ∧ w' = { w.note (.registered (.ok rc)) with
        fixture := { registered := rc = 0 } }) (Left R) := by
  refine Ensures.bind (Q := fun rc w' => w' = w.note (.registered (.ok rc))) ?_ ?_
  · unfold Ensures ask
    cases env.register w.log with
    | ok rc => exact rfl
    | error e =>
      refine (hc.step (e := .registered (.error e)) rfl trivial (by simp [World.note])
        (by simp [World.note]) (by simp [World.note]) (by simp) (by simp)
        (hc.gets_extends (.note rfl rfl))).left ⟨e, rfl⟩
  · rintro rc _ rfl
    refine ⟨hc.step (e := .registered (.ok rc)) rfl trivial (by simp [hfixture])
      (by simp [hfixture]) (fun h => .inl (by simpa [hfixture] using h)) (by simp) (by simp)
      (hc.gets_extends (.note rfl rfl)), ?_⟩
    simp [World.note, hfixture]

/-- The registration: the experiment goes on when it has succeeded. -/
theorem registration_spec (hc : Conduct R w) (hset : AllSettled w.log) (hfixture : w.fixture = {})
    (hthreads : w.threads = []) (hkept : Kept w) :
    Ensures (registration env) w
      (fun _ w' => Ready R w' ∧ Extends w w' ∧ w'.tally = w.tally) (Left R) := by
  refine Ensures.bind (registerMemory_spec hc hfixture) ?_
  rintro reg w₁ ⟨hc₁, rfl⟩
  refine (harmless_emit fun _ => rfl).andThen hc₁ (.refl _) fun _ w₂ hcalm => ?_
  have hext : Extends w w₂ := Extends.trans (.note rfl rfl) hcalm.toExtends
  have hc₂ := hc₁.quiet hcalm.toQuiet
  refine Ensures.ite (fun hzero => ?_) fun _ => ?_
  · refine Ensures.pure ⟨⟨hc₂, hset.of_extends hext, ?_, hcalm.threads.trans hthreads, ?_⟩, hext,
      hcalm.tally⟩
    · rw [hcalm.fixture]
      simp [hzero]
    · exact hcalm.kept (hkept.note (e := .registered (.ok reg)) nofun rfl rfl)
  · refine Ensures.bind ((release_spec hc₂ (hset.of_extends hext)).mono (fun _ _ h => h)
      fun _ _ h => h.elim) fun _ w₃ hdone => ?_
    exact returning_spec (finish_exit hdone.conduct (R.grounds_envError _) nofun)

/-! ## The memory -/

section Memory

variable {e : Event} {t : GetTag} {c : Cell} {nonce : UInt32} {off len landed : ℕ}

/-- An event that is about the memory or a GET. -/
def Event.plain : Event → Bool
  | .poisoned _ _ | .issued _ | .returned _ _ _ _ | .read _ _ _ => true
  | _ => false

/-- An event that is about the memory or a GET keeps the conduct if it is allowed. -/
theorem Conduct.plain (hc : Conduct R w) (hlog : w'.log = w.log ++ [e]) (he : e.plain = true)
    (hfixture : w'.fixture = w.fixture) (hallowed : Allowed w.log e) (hgets : R.gets w'.log) :
    Conduct R w' := by
  have hne : ∀ e', Event.plain e' = false → e ≠ e' := by
    rintro e' he' rfl
    exact Bool.false_ne_true (he'.symm.trans he)
  refine hc.step hlog hallowed ?_ ?_ ?_ ?_ ?_ hgets
  · rw [hfixture]
    exact fun h => h.resolve_left (hne _ rfl)
  · rw [hfixture]
    exact fun h => h.resolve_left fun ⟨rc, hrc⟩ => hne _ rfl hrc
  · rw [hfixture]
    exact fun h => h.resolve_left (hne _ rfl)
  · exact fun v d f r h => absurd h (hne _ rfl)
  · exact fun v h => absurd h (hne _ rfl)

/-- The log goes on with an event that is not a record. -/
theorem Ready.plain (h : Ready R w) (hlog : w'.log = w.log ++ [e]) (he : e.plain = true)
    (hget : e.isGet = false) (hallowed : Allowed w.log e) (hfixture : w'.fixture = w.fixture)
    (hthreads : w'.threads = w.threads) (hfailed : w'.jsonl_output_failed = w.jsonl_output_failed) :
    Ready R w' where
  conduct := h.conduct.plain hlog he hfixture hallowed (h.conduct.gets_extends (.note hlog hget))
  settled := h.settled.of_extends (.note hlog hget)
  fixture := hfixture.trans h.fixture
  threads := hthreads.trans h.threads
  kept := h.kept.note (fun _ _ hr => by subst hr; exact Bool.false_ne_true he) hlog hfailed

/-- `poison_cell`, when all GETs are settled. If it throws, they still are. -/
theorem poisonCell_spec (h : Ready R w) :
    Ensures (poisonCell env c nonce) w
      (fun _ w' => Ready R w' ∧ w' = { w with
        arena := writeSpan w.arena c.base (poisonPattern c.size nonce) }.note (.poisoned c (.ok ())))
      fun s w' => s.Thrown ∧ Ready R w' := by
  unfold Ensures poisonCell
  cases env.write w.log with
  | ok _ =>
    refine ⟨h.plain (e := .poisoned c (.ok ())) rfl rfl rfl h.settled rfl rfl rfl, ?_⟩
    rfl
  | error e =>
    exact ⟨⟨e, rfl⟩, h.plain (e := .poisoned c (.error e)) rfl rfl rfl h.settled rfl rfl rfl⟩

/-- `read_span`, when all GETs are settled. -/
theorem readSpan_spec (h : Ready R w) :
    Ensures (readSpan env t off len) w
      (fun bytes w' => Ready R w' ∧ bytes = spanAt w.arena off len ∧
        w' = w.note (.read t off (.ok bytes)))
      fun s w' => s.Thrown ∧ Ready R w' ∧ w'.tally = w.tally ∧ Extends w w' := by
  unfold Ensures readSpan
  cases env.read w.log with
  | ok _ =>
    exact ⟨h.plain (e := .read t off (.ok (spanAt w.arena off len))) rfl rfl rfl h.settled rfl rfl rfl,
      rfl, rfl⟩
  | error e =>
    exact ⟨⟨e, rfl⟩, h.plain (e := .read t off (.error e)) rfl rfl rfl h.settled rfl rfl rfl, rfl,
      .note (e := .read t off (.error e)) rfl rfl⟩

/-- What is seen of the landing of a GET: the digest of its bytes, and whether the poison in the
rest of its cell is intact, both of what was read from the arena. -/
structure Landing (P : Platform) (arena : ℕ → UInt8) (t : GetTag) (c : Cell) (landed : ℕ)
    (nonce : UInt32) (x : Bytes × Bool) (log : List Event) : Prop where
  landing : .read t c.payload (.ok (spanAt arena c.payload landed)) ∈ log
  whole : .read t c.base (.ok (spanAt arena c.base c.size)) ∈ log
  digest : x.1 = sha256Hex P (spanAt arena c.payload landed)
  outside : x.2 = poisonIntact c landed nonce (spanAt arena c.base c.size)

/-- The landing of a GET is read, when all GETs are settled. -/
theorem readLanding_spec (h : Ready R w) :
    Ensures (readLanding env t c landed nonce) w
      (fun x w' => Ready R w' ∧ w'.tally = w.tally ∧ Extends w w' ∧
        Landing P w.arena t c landed nonce x w'.log)
      fun s w' => s.Thrown ∧ Ready R w' ∧ w'.tally = w.tally ∧ Extends w w' := by
  refine Ensures.bind (readSpan_spec h) ?_
  rintro _ _ ⟨h₁, rfl, rfl⟩
  have hext : Extends w (w.note (.read t c.payload (.ok (spanAt w.arena c.payload landed)))) :=
    .note rfl rfl
  refine Ensures.bind (Q := fun outside w' => Ready R w' ∧ w'.tally = w.tally ∧ Extends w w' ∧
    Landing P w.arena t c landed nonce (digestOf P (spanAt w.arena c.payload landed), outside) w'.log)
    ?_ fun _ _ h => Ensures.pure h
  refine Ensures.bind ((readSpan_spec h₁).mono (fun _ _ h => h) fun s w' h =>
    ⟨h.1, h.2.1, h.2.2.1, hext.trans h.2.2.2⟩) ?_
  rintro _ _ ⟨h₂, rfl, rfl⟩
  refine Ensures.pure ⟨h₂, rfl, hext.trans (.note rfl rfl), ?_, ?_, rfl, rfl⟩
  · simp [World.note]
  · simp [World.note]

end Memory

/-! ## GETs -/

section Gets

variable {u : RigSetup} {s : System} {r : SdkReturn} {t : GetTag}

/-- A GET whose completion is not unknown is settled. -/
theorem Settled.of_unknown (h : Run.unknown (s.ctx, r) = false) : Settled s r := by
  simp only [Run.unknown, ne_eq, decide_not, Bool.or_eq_false_iff, Bool.not_eq_false',
    decide_eq_true_eq] at h
  exact .inr ⟨h.2, h.1.1.1, h.1.1.2, h.1.2⟩

/-- A GET that is not held is settled: if nothing was submitted, nothing was sent. -/
theorem Settled.of_hold (hreach : s.Reachable P u) (h : Run.hold (s.ctx, r) = false) :
    Settled s r := by
  rcases Bool.and_eq_false_iff.mp h with hnone | hunknown
  · have hinv := hreach.inv
    have hle : s.emissions ≤ (s.calls.map Call.ticket).countP Ticket.held := by
      rw [List.countP_map]
      exact List.countP_mono_left fun c hc => (hinv.calls_ok c hc).emitted_held
    have hsubmitted := hinv.counted.submitted_eq
    have hnone' : ¬ 0 < s.ctx.submitted := of_decide_eq_false hnone
    exact .inl (by omega)
  · exact .of_unknown hunknown

/-- All GETs are settled when those are that were issued before, and the one that has returned. -/
theorem AllSettled.returned (hset : AllSettled w.log)
    (hlog : w'.log = w.log ++ [.issued t, .returned t u s r]) (h : Settled s r) :
    AllSettled w'.log := by
  intro t' ht'
  rw [hlog] at ht' ⊢
  simp only [List.mem_append, List.mem_cons, List.not_mem_nil, or_false, reduceCtorEq,
    Event.issued.injEq] at ht'
  rcases ht' with ht' | rfl
  · exact (hset t' ht').mono (List.subset_append_left _ _)
  · exact ⟨u, s, r, by simp, h⟩

/-- What a GET on the calling thread has done. -/
structure GetDone (P : Platform) (R : Rules) (t : GetTag) (u : RigSetup) (w : World) (g : Run)
    (s : System) (w' : World) : Prop where
  conduct : Conduct R w'
  reachable : s.Reachable P u
  ctx : g.1 = s.ctx
  log : w'.log = w.log ++ [.issued t, .returned t u s g.2]
  arena : s.emissions = 0 → w'.arena = w.arena
  fixture : w'.fixture = w.fixture
  threads : w'.threads = w.threads
  tally : w'.tally = w.tally
  kept : Kept w → Kept w'

/-- A GET on the calling thread, when all GETs before are settled. -/
theorem sdkGet_spec (hc : Conduct R w) (hset : AllSettled w.log)
    (hissued : R.gets (w.log ++ [.issued t]))
    (hreturned : ∀ s r, R.gets (w.log ++ [.issued t] ++ [.returned t u s r])) :
    Ensures (sdkGet env t u) w (fun g w' => ∃ s, GetDone P R t u w g s w') fun _ _ => False := by
  have hc₁ : Conduct R (w.note (.issued t)) :=
    hc.plain (e := .issued t) rfl rfl rfl (fun t' ht' => .inl (hset t' ht')) hissued
  refine Ensures.modify_bind ?_
  show ∃ s, GetDone P R t u w _ s _
  set g := env.get (w.note (.issued t)).log u with hg
  refine ⟨g.s, ?_, g.reachable, rfl, ?_, fun hzero => ?_, rfl, rfl, rfl, fun hkept => ?_⟩
  · exact hc₁.plain (e := .returned t u g.s (sdkReturn g.value)) rfl rfl rfl trivial (hreturned _ _)
  · simp [World.note]
  · exact env.unsent _ g.s w.arena hzero
  · have hkept₁ : Kept (w.note (.issued t)) := hkept.note (e := .issued t) (by simp) rfl rfl
    exact hkept₁.note (e := .returned t u g.s (sdkReturn g.value)) (by simp) rfl rfl

/-! ### Workers -/

/-- Some workers have been joined: the end of each worker's GET is in the log, in their order. -/
structure JoinDone (R : Rules) (w : World) (threads : List (GetTag × RigSetup))
    (gs : List (System × SdkReturn)) (runs : List Run) (w' : World) : Prop where
  conduct : Conduct R w'
  runs : runs = gs.map fun g => (g.1.ctx, g.2)
  length : threads.length = gs.length
  log : w'.log = w.log ++ List.zipWith (fun t g => .returned t.1 t.2 g.1 g.2) threads gs
  fixture : w'.fixture = w.fixture
  threads : w'.threads = []
  tally : w'.tally = w.tally
  kept : Kept w → Kept w'

/-- Joining the workers brings all their GETs to an end. -/
theorem joinAll_spec (hgets : ∀ log, R.gets log) (hc : Conduct R w) :
    Ensures (joinAll env) w (fun runs w' => ∃ gs, JoinDone R w w.threads gs runs w')
      fun _ _ => False := by
  refine Ensures.get_bind (Ensures.modify_bind ?_)
  refine Ensures.foldlM (I := fun done runs w' => ∃ gs, JoinDone R w done gs runs w') ?_ ?_
  · exact ⟨[], hc.congr rfl rfl, rfl, rfl, (List.append_nil _).symm, rfl, rfl, rfl, id⟩
  · rintro done x rest runs w₁ - ⟨gs, h⟩
    show ∃ gs, JoinDone R w (done ++ [x]) gs _ _
    set g := env.get w₁.log x.2 with hg
    refine ⟨gs ++ [(g.s, sdkReturn g.value)], ?_, ?_, ?_, ?_, h.fixture, h.threads, h.tally,
      fun hkept => ?_⟩
    · exact h.conduct.plain (e := .returned x.1 x.2 g.s (sdkReturn g.value)) rfl rfl rfl trivial
        (hgets _)
    · rw [h.runs, List.map_append]
      rfl
    · simp [h.length]
    · rw [List.zipWith_append h.length, ← List.append_assoc, ← h.log]
      rfl
    · exact (h.kept hkept).note (e := .returned x.1 x.2 g.s (sdkReturn g.value)) nofun rfl rfl

section JoinDone

variable {threads : List (GetTag × RigSetup)} {gs : List (System × SdkReturn)} {runs : List Run}
  {i : ℕ}

/-- The GET of each worker that was joined has returned. -/
theorem JoinDone.of_thread (h : JoinDone R w threads gs runs w') (hi : threads[i]? = some (t, u)) :
    ∃ s r, runs[i]? = some (s.ctx, r) ∧ .returned t u s r ∈ w'.log := by
  have hlt : i < gs.length := by
    rw [← h.length]
    exact (List.getElem?_eq_some_iff.mp hi).1
  obtain ⟨g, hg⟩ : ∃ g, gs[i]? = some g := ⟨gs[i], List.getElem?_eq_getElem hlt⟩
  refine ⟨g.1, g.2, by rw [h.runs, List.getElem?_map, hg]; rfl, ?_⟩
  rw [h.log]
  refine List.mem_append_right _ (List.mem_of_getElem? (i := i) ?_)
  rw [List.getElem?_zipWith, hi, hg]

/-- A GET that is over was over before, or is that of a worker. -/
theorem JoinDone.of_returned (h : JoinDone R w threads gs runs w')
    (hmem : .returned t u s r ∈ w'.log) : .returned t u s r ∈ w.log ∨
      ∃ i : ℕ, threads[i]? = some (t, u) ∧ runs[i]? = some (s.ctx, r) := by
  rw [h.log] at hmem
  refine (List.mem_append.mp hmem).imp_right fun hmem => ?_
  obtain ⟨i, hi⟩ := List.mem_iff_getElem?.mp hmem
  rw [List.getElem?_zipWith] at hi
  split at hi
  · rename_i x g hx hg
    obtain ⟨rfl, rfl, rfl, rfl⟩ := Event.returned.inj (Option.some.inj hi)
    exact ⟨i, hx, by rw [h.runs, List.getElem?_map, hg]; rfl⟩
  · exact absurd hi (by simp)

/-- What has happened before is still in the log. -/
theorem JoinDone.subset (h : JoinDone R w threads gs runs w') : w.log ⊆ w'.log := by
  rw [h.log]
  exact List.subset_append_left _ _

/-- All GETs are settled, if those are that were not given to a worker, and none of the workers' is
unknown. -/
theorem JoinDone.allSettled (h : JoinDone R w threads gs runs w')
    (hissued : ∀ t, .issued t ∈ w.log → SettledIn w.log t ∨ ∃ u, (t, u) ∈ threads)
    (hknown : ∀ g ∈ runs, Run.unknown g = false) : AllSettled w'.log := by
  intro t ht
  have hbefore : .issued t ∈ w.log := by
    rw [h.log] at ht
    refine (List.mem_append.mp ht).resolve_right fun hmem => ?_
    obtain ⟨i, hi⟩ := List.mem_iff_getElem?.mp hmem
    rw [List.getElem?_zipWith] at hi
    split at hi <;> simp at hi
  rcases hissued t hbefore with hsettled | ⟨u, hthread⟩
  · exact hsettled.mono h.subset
  · obtain ⟨i, hi⟩ := List.mem_iff_getElem?.mp hthread
    obtain ⟨s, r, hrun, hmem⟩ := h.of_thread hi
    exact ⟨u, s, r, hmem, .of_unknown (hknown _ (List.mem_of_getElem? hrun))⟩

end JoinDone

end Gets

end S3Rdma.Probe
