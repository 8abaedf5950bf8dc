import S3Rdma.Probe.Operations

/-!
# The experiment with one GET

`exp_single_get` without the guard (`--exp diag`) gives the verdict PASS when there was one
callback, the SDK returned the expected length, the landing has the digest that was given, and the
poison around it is intact. The landing is poisoned before the GET, with a poison that has another
digest, and only a request of which the socket has accepted a byte can change it. So a pass means a
delivery (`Grounds`), unless the landing is empty (`Hollow`): with no byte expected, nothing needs
to change.
-/

namespace S3Rdma.Probe

/-! ## Poison that is read back -/

section Poison

variable {arena : ℕ → UInt8} {base off len : ℕ} {bytes : Bytes}

/-- A poison pattern is as long as it is asked to be. -/
@[simp]
theorem length_poisonPattern (len : ℕ) (nonce : UInt32) : (poisonPattern len nonce).length = len := by
  suffices h : ∀ n x, (poisonLoop n x).length = n from h len _
  intro n
  induction n with
  | zero => exact fun _ => rfl
  | succ n ih => exact fun x => congrArg (· + 1) (ih _)

/-- Bytes that were written are read back. -/
theorem spanAt_writeSpan (h : off + len ≤ bytes.length) :
    spanAt (writeSpan arena base bytes) (base + off) len = (bytes.drop off).take len := by
  refine List.ext_getElem (by simp [spanAt]; omega) fun i hi _ => ?_
  have hlen : i < len := by simpa [spanAt] using hi
  have hbytes : off + i < bytes.length := by omega
  simp [spanAt, writeSpan, Nat.add_assoc, hbytes]

end Poison

/-! ## What a pass is based on -/

/-- The verdict is based on nothing that was delivered: no byte is expected, the digest that is
given is that of the empty landing, and the case is not declared to be unknown. -/
def Hollow (P : Platform) (o : Options) : Prop :=
  o.expected_given = true ∧ o.expected_bytes = 0 ∧ o.expect_sha ≠ [] ∧
    o.expect_sha = sha256Hex P [] ∧ o.neg_class ≠ .unknown

instance (P : Platform) (o : Options) : Decidable (Hollow P o) :=
  inferInstanceAs (Decidable (_ ∧ _))

/-- One request message had bytes accepted by the socket, and its receipt was accepted. -/
def Delivered (u : RigSetup) (s : System) : Prop :=
  s.emissions = 1 ∧ ∀ c ∈ s.calls, c.emitted = true → c.accepted u = true

/-- The event is the end of a GET. -/
def Event.isReturned : Event → Bool
  | .returned _ _ _ _ => true
  | _ => false

/-- What a pass without the guard is based on. -/
def Grounds (P : Platform) (o : Options) (log : List Event) : Prop :=
  Hollow P o ∨ ∀ g, validateGeometry o 1 = .ok g →
    ∃ s r, .returned singleTag (singleSetup o g false) s r ∈ log ∧
      Delivered (singleSetup o g false) s

/-- The rules of the experiment: a pass without the guard has its grounds, and there is one GET. -/
def singleRules (P : Platform) (o : Options) (guard : Bool) : Rules where
  grounds v log := v = .pass → guard = false → Grounds P o log
  gets log := log.countP Event.isReturned ≤ 1
  grounds_mono hsub h hv hguard := by
    refine (h hv hguard).imp_right fun hdelivered g hg => ?_
    obtain ⟨s, r, hmem, hs⟩ := hdelivered g hg
    exact ⟨s, r, hsub hmem, hs⟩
  grounds_inconclusive _ := nofun
  grounds_envError _ := nofun
  gets_mono {log es} hes h := by
    have hnone : es.countP Event.isReturned = 0 := by
      refine List.countP_eq_zero.mpr fun e he hreturned => ?_
      have hget := hes e he
      cases e <;> first | exact Bool.false_ne_true hreturned | exact Bool.false_ne_true hget.symm
    rw [List.countP_append, hnone]
    exact h

section Walk

-- The lengths that the code compares are not to be evaluated.
attribute [local irreducible] signed64

variable {P : Platform} {env : Env P} {o : Options} {guard : Bool} {g : Geometry} {cell : Cell}
  {nonce : UInt32} {w : World}

/-- No verdict but a pass needs grounds. -/
theorem grounds_of_ne_pass {v : Verdict} {log : List Event} (hv : v ≠ .pass) :
    (singleRules P o guard).grounds v log :=
  fun h => absurd h hv

/-- The experiment up to its GET: the cell is poisoned, and not with the digest that is given. -/
theorem singlePrepare_spec (hc : Conduct (singleRules P o guard) w) (hfixture : w.fixture = {})
    (hthreads : w.threads = []) (hkept : Kept w) (hnone : NoGets w.log) :
    Ensures (singlePrepare env o g cell nonce) w
      (fun _ w' => Ready (singleRules P o guard) w' ∧ NoGets w'.log ∧
        (∃ arena, w'.arena = writeSpan arena cell.base (poisonPattern cell.size nonce)) ∧
        ¬ (0 < g.expected ∧ o.expect_sha ≠ [] ∧
          payloadPoisonDigest P cell g.expected nonce = o.expect_sha))
      (Left (singleRules P o guard)) := by
  refine Ensures.bind (registration_spec hc hnone.allSettled hfixture hthreads hkept) ?_
  rintro _ w₁ ⟨hready, hext, -⟩
  refine harmless_callbackMax.andThen hready.conduct (.refl w₁) fun cap w₂ h₂ => ?_
  refine (harmless_emit fun _ => rfl).andThen hready.conduct h₂ fun _ w₃ h₃ => ?_
  have hready₃ := hready.calm h₃
  refine Ensures.ite (fun _ => ?_) fun _ => ?_
  · refine Ensures.bind (Q := fun _ _ => False) ?_ fun _ _ h => h.elim
    exact returning_spec (releaseOrRetain_spec hready₃.conduct hready₃.settled
      (Rules.grounds_envError _ _) nofun)
  refine Ensures.bind (Q := fun _ w' => Ready (singleRules P o guard) w' ∧ Extends w w' ∧
    ∃ arena, w'.arena = writeSpan arena cell.base (poisonPattern cell.size nonce)) ?_ ?_
  · -- Where the poison cannot be written, all is still settled, so the fixture may be released.
    refine Ensures.handle (poisonCell_spec hready₃ |>.mono ?_ fun _ _ h => h) ?_ ?_
    · rintro _ w₄ ⟨h₄, hw₄⟩
      refine ⟨h₄, (hext.trans h₃.toExtends).trans ?_, w₃.arena, by rw [hw₄]; rfl⟩
      exact .note (e := .poisoned cell (.ok ())) (by rw [hw₄]; rfl) rfl
    · rintro (_ | (what | _)) w₄ ⟨-, h₄⟩ k hk
      · exact absurd hk (by simp)
      · obtain rfl := Option.some.inj hk
        exact returning_spec (releaseOrRetain_spec h₄.conduct h₄.settled
          (Rules.grounds_envError _ _) nofun)
      · exact absurd hk (by simp)
    · exact fun s w₄ h _ => h.2.conduct.left h.1
  · rintro _ w₄ ⟨h₄, hext₄, harena⟩
    refine Ensures.ite (fun _ => ?_) fun hcollides => ?_
    · exact returning_spec (finish_exit h₄.conduct (Rules.grounds_envError _ _) nofun)
    · exact Ensures.pure ⟨h₄, hnone.of_extends hext₄, harena, hcollides⟩

/-- The GET, when no other was issued: it is settled where the landing is read. -/
theorem singleGet_spec {u : RigSetup} (h : Ready (singleRules P o guard) w)
    (hnone : NoGets w.log) :
    Ensures (singleGet env o u) w
      (fun get w' => Ready (singleRules P o guard) w' ∧ o.neg_class ≠ .unknown ∧
        ∃ s, s.Reachable P u ∧ Settled s get.2 ∧ .returned singleTag u s get.2 ∈ w'.log ∧
          (s.emissions = 0 → w'.arena = w.arena))
      (Left (singleRules P o guard)) := by
  refine (harmless_emit fun _ => rfl).andThen h.conduct (.refl w) fun _ w₁ h₁ => ?_
  have hready := h.calm h₁
  -- No GET has returned before, so this one is the first.
  have hcount : w₁.log.countP Event.isReturned = 0 :=
    List.countP_eq_zero.mpr fun e he hreturned =>
      absurd (hnone.of_extends h₁.toExtends e he) (by cases e <;> simp_all [Event.isReturned, Event.isGet])
  refine Ensures.bind ((sdkGet_spec hready.conduct hready.settled ?_ ?_).mono (fun _ _ h => h)
    fun _ _ h => h.elim) ?_
  · show List.countP _ _ ≤ 1
    simp [hcount, Event.isReturned]
  · intro s r
    show List.countP _ _ ≤ 1
    simp [hcount, Event.isReturned]
  rintro get w₂ ⟨s, hdone⟩
  refine (harmless_emitAttempts _).andThen hdone.conduct (.refl w₂) fun _ w₃ h₃ => ?_
  refine (harmless_emit fun _ => rfl).andThen hdone.conduct h₃ fun _ w₄ h₄ => ?_
  refine Ensures.ite (fun _ => ?_) fun hgate => ?_
  · refine Ensures.bind (Q := fun _ _ => False) ?_ fun _ _ h => h.elim
    exact returning_spec (retain_exit (hdone.conduct.quiet h₄.toQuiet)
      (Rules.grounds_inconclusive _ _) nofun)
  rw [not_or, Bool.not_eq_true] at hgate
  -- The gate was passed: the GET is known, hence settled.
  have hsettled : Settled s get.2 := .of_hold hdone.reachable (by rw [← hdone.ctx]; exact hgate.2)
  have hready₂ : Ready (singleRules P o guard) w₂ :=
    ⟨hdone.conduct, hready.settled.returned hdone.log hsettled, hdone.fixture.trans hready.fixture,
      hdone.threads.trans hready.threads, hdone.kept hready.kept⟩
  refine Ensures.pure ⟨hready₂.calm h₄, hgate.1, s, hdone.reachable, hsettled, ?_, fun hzero => ?_⟩
  · refine h₄.toExtends.subset ?_
    rw [hdone.log]
    simp
  · rw [h₄.arena, hdone.arena hzero, h₁.arena]

/-- The landing is read, and the fixture is released. -/
theorem singleRead_spec (h : Ready (singleRules P o guard) w) :
    Ensures (singleRead env g cell nonce) w
      (fun x w' => Conduct (singleRules P o guard) w' ∧ w.log ⊆ w'.log ∧
        x.1 = sha256Hex P (spanAt w.arena cell.payload g.expected))
      (Left (singleRules P o guard)) := by
  refine Ensures.bind (Q := fun x w' => Ready (singleRules P o guard) w' ∧ Extends w w' ∧
    x.1 = sha256Hex P (spanAt w.arena cell.payload g.expected)) ?_ ?_
  · refine catchStd_spec ((readLanding_spec h).mono ?_ fun s w' h => h.2.1.conduct.left h.1) ?_
    · exact fun x w' h => ⟨h.1, h.2.2.1, h.2.2.2.digest⟩
    · exact fun what w' hc => returning_spec (retain_exit hc (Rules.grounds_envError _ _) nofun)
  rintro x w₁ ⟨h₁, hext, hdigest⟩
  refine (harmless_emit fun _ => rfl).andThen h₁.conduct (.refl w₁) fun _ w₂ h₂ => ?_
  have hready₂ := h₁.calm h₂
  refine Ensures.bind ((release_spec hready₂.conduct hready₂.settled).mono (fun _ _ h => h)
    fun _ _ h => h.elim) fun released w₃ hdone => ?_
  have hsub := List.Subset.trans (hext.trans h₂.toExtends).subset hdone.log.subset
  refine Ensures.ite (fun _ => Ensures.pure ⟨hdone.conduct, hsub, hdigest⟩) fun _ => ?_
  refine Ensures.bind (Q := fun _ _ => False) ?_ fun _ _ h => h.elim
  exact returning_spec (retain_exit hdone.conduct (grounds_of_ne_pass nofun) nofun)

/-- A verdict that has its grounds keeps the conduct. -/
theorem finish_conduct {R : Rules} {v : Verdict} {d : Bytes} (hc : Conduct R w)
    (hv : R.grounds v w.log) :
    Ensures (finish env v d) w (fun _ w' => Conduct R w') fun s w' => s.Thrown ∧ Conduct R w' :=
  (finish_spec hc hv).mono (fun _ _ h => h.1) fun _ _ h => ⟨h.1, h.2.1⟩

/-- The verdict with the guard needs no grounds. -/
theorem guardVerdict_spec {get : Run} {landing_poison digest_checked digest_ok outside_ok : Bool}
    (hc : Conduct (singleRules P o true) w) :
    Ensures (guardVerdict env get landing_poison digest_checked digest_ok outside_ok) w
      (fun _ w' => Conduct (singleRules P o true) w')
      fun s w' => s.Thrown ∧ Conduct (singleRules P o true) w' := by
  have hfinish : ∀ w, Conduct (singleRules P o true) w → ∀ v d, Ensures (finish env v d) w
      (fun _ w' => Conduct (singleRules P o true) w')
      fun s w' => s.Thrown ∧ Conduct (singleRules P o true) w' :=
    fun w hc v d => finish_conduct hc fun _ h => nomatch h
  unfold guardVerdict
  refine Ensures.ite (fun _ => hfinish w hc _ _) fun _ => ?_
  refine Ensures.ite (fun _ => hfinish w hc _ _) fun _ => ?_
  refine Ensures.bind (((harmless_emit fun _ => rfl) w).mono (fun _ _ h => hc.quiet h.toQuiet)
    fun s w' h => ⟨h.1, hc.quiet h.2⟩) fun _ w₁ hc₁ => ?_
  split_ifs <;> exact hfinish w₁ hc₁ _ _

/-- The verdict without the guard: for a pass, the landing has the digest that is given. -/
theorem deliveryVerdict_spec {get : Run} {digest_checked digest_ok outside_ok : Bool}
    (hc : Conduct (singleRules P o guard) w)
    (hpass : digest_ok = true → (singleRules P o guard).grounds .pass w.log) :
    Ensures (deliveryVerdict env g get digest_checked digest_ok outside_ok) w
      (fun _ w' => Conduct (singleRules P o guard) w')
      fun s w' => s.Thrown ∧ Conduct (singleRules P o guard) w' := by
  refine Ensures.ite (fun _ => finish_conduct hc (grounds_of_ne_pass nofun)) fun _ => ?_
  refine Ensures.ite (fun hok => finish_conduct hc (hpass ?_)) fun _ =>
    finish_conduct hc (grounds_of_ne_pass nofun)
  simp only [Bool.and_eq_true] at hok
  exact hok.1.2

/-- A landing that has the digest that is given has the grounds of a pass: what is settled was
delivered, or has sent nothing, and then the landing is what it was poisoned with. -/
theorem grounds_of_digest {s : System} {r : SdkReturn} {arena : ℕ → UInt8}
    (hg : validateGeometry o 1 = .ok g)
    (hcollides : ¬ (0 < g.expected ∧ o.expect_sha ≠ [] ∧
      payloadPoisonDigest P (makeCell 0 o.guard o.slot_bytes) g.expected nonce = o.expect_sha))
    (hclass : o.neg_class ≠ .unknown) (hreach : s.Reachable P (singleSetup o g false))
    (hsettled : Settled s r) (hmem : .returned singleTag (singleSetup o g false) s r ∈ w.log)
    (harena : s.emissions = 0 → ∃ before, arena = writeSpan before
      (makeCell 0 o.guard o.slot_bytes).base
      (poisonPattern (makeCell 0 o.guard o.slot_bytes).size nonce))
    (hgiven : o.expect_sha ≠ [])
    (hdigest : sha256Hex P (spanAt arena (makeCell 0 o.guard o.slot_bytes).payload g.expected) =
      o.expect_sha) : Grounds P o w.log := by
  -- Was a byte sent? If not, the landing still has its poison, whose digest is refused unless the
  -- landing is empty.
  by_cases hzero : s.emissions = 0
  · left
    obtain ⟨hone, hfits, hexpected, hempty⟩ := validateGeometry_ok hg
    obtain ⟨before, rfl⟩ := harena hzero
    have hpoison : o.expect_sha =
        payloadPoisonDigest P (makeCell 0 o.guard o.slot_bytes) g.expected nonce := by
      rw [← hdigest, makeCell_eq hone hfits, spanAt_writeSpan (by simp; omega)]
      rfl
    have hexp : g.expected = 0 := by
      by_contra hne
      exact hcollides ⟨Nat.pos_of_ne_zero hne, hgiven, hpoison.symm⟩
    refine ⟨(hempty.mp hexp).1, (hempty.mp hexp).2, hgiven, ?_, hclass⟩
    rw [hpoison, hexp]
    rfl
  · right
    intro g' hg'
    obtain rfl := Except.ok.inj (hg.symm.trans hg')
    have hcomplete := (hsettled.resolve_left hzero).1
    obtain ⟨hle, haccepted⟩ := hreach.inv.emissions_of_eq hcomplete
    exact ⟨s, r, hmem, by omega, haccepted⟩

/-- The experiment while its fixture lives. -/
theorem singleBody_spec (hg : validateGeometry o 1 = .ok g)
    (hc : Conduct (singleRules P o guard) w) (hfixture : w.fixture = {}) (hthreads : w.threads = [])
    (hkept : Kept w) (hnone : NoGets w.log) :
    Ensures (singleBody env o guard g (makeCell 0 o.guard o.slot_bytes) nonce) w
      (fun _ w' => Conduct (singleRules P o guard) w') (Left (singleRules P o guard)) := by
  refine Ensures.bind (singlePrepare_spec hc hfixture hthreads hkept hnone) ?_
  rintro _ w₁ ⟨h₁, hnone₁, harena₁, hcollides⟩
  refine Ensures.bind (singleGet_spec h₁ hnone₁) ?_
  rintro get w₂ ⟨h₂, hclass, s, hreach, hsettled, hmem, harena₂⟩
  refine Ensures.bind (singleRead_spec h₂) ?_
  rintro ⟨digest, outside⟩ w₃ ⟨hc₃, hsub, hdigest⟩
  -- What is left is the verdict, which only the digest of the landing can make a pass.
  refine Ensures.mono (E := fun s w' => s.Thrown ∧ Conduct (singleRules P o guard) w') ?_
    (fun _ _ h => h) fun s w' h => h.2.left h.1
  refine Ensures.ite (fun _ => finish_conduct hc₃ (grounds_of_ne_pass nofun)) fun _ => ?_
  refine Ensures.ite (fun hguard => ?_) fun hguard => ?_
  · subst hguard
    exact guardVerdict_spec hc₃
  · rw [Bool.not_eq_true] at hguard
    subst hguard
    refine deliveryVerdict_spec hc₃ fun hok => ?_
    simp only [ne_eq, decide_not, Bool.and_eq_true, Bool.not_eq_true', decide_eq_false_iff_not,
      decide_eq_true_eq] at hok
    refine fun _ _ => grounds_of_digest hg hcollides hclass hreach hsettled (hsub hmem) ?_ hok.1
      (hdigest.symm.trans hok.2)
    exact fun hzero => (harena₂ hzero).symm ▸ harena₁

/-- The state of the process before an experiment. -/
def World.start (failed : Bool) : World := { jsonl_output_failed := failed }

/-- Nothing has happened before an experiment. -/
theorem conduct_start {R : Rules} (hgets : R.gets []) (failed : Bool) :
    Conduct R (.start failed) where
  safe := trivial
  retained_mem := nofun
  deregistered_mem := nofun
  registered_mem := nofun
  verdicts := nofun
  fallbacks := nofun
  gets := hgets

/-- However the experiment ends, the conduct was kept. -/
theorem expSingleGet_conduct (env : Env P) (o : Options) (guard failed : Bool) :
    Ensures (expSingleGet env o guard) (.start failed)
      (fun _ w => Conduct (singleRules P o guard) w) fun _ w => Conduct (singleRules P o guard) w := by
  have hc : Conduct (singleRules P o guard) (.start failed) := conduct_start (Nat.zero_le _) failed
  refine Ensures.mono (E := Left (singleRules P o guard)) ?_ (fun _ _ h => h) fun _ _ h => h.1
  refine function_spec ?_ fun _ _ h => h.1
  cases hg : validateGeometry o 1 with
  | error why =>
    exact (finish_conduct hc (Rules.grounds_envError _ _)).mono (fun _ _ h => h)
      fun s w' h => h.2.left h.1
  | ok g =>
    refine Ensures.bind (qualifyVisibility_spec hc) fun _ w₁ h₁ => ?_
    refine (harmless_look (fun _ => rfl) nofun).andThen hc h₁ fun now w₂ h₂ => ?_
    refine withFixture_spec (hc.quiet h₂.toQuiet) h₂.fixture fun w₃ h₃ => ?_
    have hcalm := h₂.trans h₃
    refine (singleBody_spec hg (hc.quiet hcalm.toQuiet) hcalm.fixture hcalm.threads
      (hcalm.kept nofun) (NoGets.nil.of_extends hcalm.toExtends)).mono ?_ fun _ _ h => h
    exact fun _ _ h => h.destruct

end Walk

/-! ## A pass without a delivery -/

section Null

attribute [local irreducible] signed64

variable {P : Platform} {o : Options} {g : Geometry}

/-- The callback is called once, without a descriptor, and returns at once. -/
def nullSteps : List (ℤ × Action) :=
  [(0, .enter 0 none 0 0), (0, .move 0 .next), (0, .move 0 .next)]

/-- The call without a descriptor, after it has returned. -/
def nullCall : Call where
  thread := 0
  rdma := none
  size := 0
  offset := 0
  pc := .returned (-ENOTSUP)
  at_ := { invocation := 0, entered_while_active := false, thread := 0 }

/-- The context after the call without a descriptor: nothing was submitted. -/
def nullState : System where
  ctx := { invocations := 1 }
  calls := [nullCall]

/-- Every context can come to the state after a call without a descriptor. -/
theorem nullState_reachable (P : Platform) (u : RigSetup) : nullState.Reachable P u :=
  ⟨0, nullSteps, rfl⟩

/-- An environment in which everything goes well, but the SDK gives its callback no descriptor and
returns `0`. -/
def nullEnv (P : Platform) : Env P where
  print _ := .ok true
  alloc _ := .ok ()
  ordering _ := some 200
  clock _ := 0
  construct _ := .ok ()
  register _ := .ok 0
  callbackMax _ := .ok (2^63)
  deregister _ := .ok 0
  write _ := .ok ()
  read _ := .ok ()
  spawn _ := .ok ()
  get _ u := ⟨nullState, nullState_reachable P u, by decide, some 0⟩
  deliver _ _ arena := arena
  unsent _ _ _ _ := rfl
  memory _ _ := 0

/-- A callback capacity of `2^63` is not below any request. -/
theorem not_lt_signed64 (n : ℕ) : ¬ (2^63 : ℤ) < signed64 n := by
  have h := Int.bmod_lt (x := (n : ℤ)) (m := 2^64) (by decide)
  unfold signed64
  omega

/-- Poison that was not touched is intact. -/
theorem poisonIntact_writeSpan {arena : ℕ → UInt8} {c : Cell} {landed : ℕ} {nonce : UInt32} :
    poisonIntact c landed nonce
      (spanAt (writeSpan arena c.base (poisonPattern c.size nonce)) c.base c.size) = true := by
  have hspan : spanAt (writeSpan arena c.base (poisonPattern c.size nonce)) (c.base + 0) c.size =
      poisonPattern c.size nonce := by
    rw [spanAt_writeSpan (by simp)]
    simp
  rw [Nat.add_zero] at hspan
  simp [poisonIntact, hspan]

/-- The verdict of the run was PASS. -/
def GavePass (log : List Event) : Prop := ∃ d f x, .printed (.result .pass d f) x ∈ log

/-- No GET has sent anything. -/
def Unsent (log : List Event) : Prop := ∀ t u s r, .returned t u s r ∈ log → s.emissions = 0

/-- Something happens that is not the end of a GET. -/
theorem Unsent.note {log : List Event} {e : Event} (h : Unsent log) (he : e.isReturned = false) :
    Unsent (log ++ [e]) := by
  intro t u s r hmem
  rcases List.mem_append.mp hmem with hmem | hmem
  · exact h t u s r hmem
  · obtain rfl := List.mem_singleton.mp hmem
    exact absurd he Bool.false_ne_true.symm

/-- A state of the process in that environment, after the poison. -/
def poisonedWorld (c : Cell) (nonce : UInt32) (fixture : Fixture) (log : List Event) : World where
  jsonl_output_failed := false
  fixture := fixture
  arena := writeSpan (fun _ => 0) c.base (poisonPattern c.size nonce)
  log := log

section Run

variable {c : Cell} {nonce : UInt32} {l : List Event}

/-- In the null environment, the experiment comes to its GET with a poisoned cell. -/
theorem singlePrepare_null (hexp : g.expected = 0) (hl : Unsent l) :
    Ensures (singlePrepare (nullEnv P) o g c nonce) { jsonl_output_failed := false, log := l }
      (fun _ w => ∃ l', w = poisonedWorld c nonce { registered := true } l' ∧ Unsent l')
      fun _ _ => False := by
  refine Ensures.run_bind rfl (Ensures.run_bind rfl (Ensures.run_bind rfl ?_))
  refine Ensures.ite (fun hcap => absurd hcap (not_lt_signed64 _)) fun _ => ?_
  refine Ensures.run_bind rfl ?_
  refine Ensures.ite (fun h => absurd h.1 (by omega)) fun _ => Ensures.pure ⟨_, rfl, ?_⟩
  exact ((((hl.note rfl).note rfl).note rfl).note rfl).note rfl

/-- In the null environment, the GET returns and the gate is open. -/
theorem singleGet_null {u : RigSetup} (hclass : o.neg_class ≠ .unknown) (hl : Unsent l) :
    Ensures (singleGet (nullEnv P) o u) (poisonedWorld c nonce { registered := true } l)
      (fun get w => get = (nullState.ctx, ⟨0, true⟩) ∧
        ∃ l', w = poisonedWorld c nonce { registered := true } l' ∧ Unsent l')
      fun _ _ => False := by
  refine Ensures.run_bind rfl (Ensures.run_bind rfl (Ensures.run_bind rfl (Ensures.run_bind rfl ?_)))
  have hopen : ¬ Run.hold (nullState.ctx, ⟨0, true⟩) = true := by decide
  refine Ensures.ite (fun h => absurd h (not_or.mpr ⟨hclass, hopen⟩)) fun _ => ?_
  refine Ensures.pure ⟨rfl, _, rfl, ?_⟩
  have hreturned : Unsent (l ++ [.printed .getBegin (.ok true)] ++ [.issued singleTag] ++
      [.returned singleTag u nullState ⟨0, true⟩]) := by
    intro t u' s r hmem
    rcases List.mem_append.mp hmem with hmem | hmem
    · exact (hl.note rfl).note (e := .issued singleTag) rfl t u' s r hmem
    · obtain ⟨-, -, rfl, -⟩ := Event.returned.inj (List.mem_singleton.mp hmem)
      rfl
  exact hreturned.note rfl

/-- The landing is empty, the poison is intact, and the fixture is released. -/
theorem singleRead_null (hexp : g.expected = 0) (hl : Unsent l) :
    Ensures (singleRead (nullEnv P) g c nonce) (poisonedWorld c nonce { registered := true } l)
      (fun x w => x = (sha256Hex P [], true) ∧
        ∃ l', w = poisonedWorld c nonce { released := true } l' ∧ Unsent l')
      fun _ _ => False := by
  refine Ensures.run_bind rfl (Ensures.run_bind rfl (Ensures.run_bind rfl ?_))
  refine Ensures.pure ⟨?_, _, rfl, ?_⟩
  · refine Prod.ext ?_ poisonIntact_writeSpan
    show sha256Hex P (spanAt _ c.payload g.expected) = _
    rw [hexp]
    rfl
  · exact (((((hl.note rfl).note rfl).note rfl).note rfl).note rfl).note rfl

/-- With no byte expected the experiment passes, and nothing was sent. -/
theorem singleBody_null (hg : validateGeometry o 1 = .ok g) (hh : Hollow P o) (hl : Unsent l) :
    Ensures (singleBody (nullEnv P) o false g c nonce) { jsonl_output_failed := false, log := l }
      (fun _ w => GavePass w.destruct.log ∧ Unsent w.destruct.log) fun _ _ => False := by
  obtain ⟨hgiven, hbytes, hsha, hempty, hclass⟩ := hh
  have hexp : g.expected = 0 := (validateGeometry_ok hg).2.2.2.mpr ⟨hgiven, hbytes⟩
  refine Ensures.bind (singlePrepare_null hexp hl) ?_
  rintro _ _ ⟨l₁, rfl, hl₁⟩
  refine Ensures.bind (singleGet_null hclass hl₁) ?_
  rintro _ _ ⟨rfl, l₂, rfl, hl₂⟩
  refine Ensures.bind (singleRead_null hexp hl₂) ?_
  rintro _ _ ⟨rfl, l₃, rfl, hl₃⟩
  have hlength : signed64 g.expected = 0 := by
    rw [hexp]
    unfold signed64
    decide
  refine Ensures.ite nofun fun _ => Ensures.ite nofun fun _ => ?_
  refine Ensures.ite (fun h => absurd h (by simp [hsha])) fun _ => ?_
  refine Ensures.ite (fun _ => ?_) fun h => absurd ?_ h
  · exact ⟨⟨ascii "delivered", false, .ok true, List.mem_append_right _ (List.mem_singleton_self _)⟩,
      hl₃.note rfl⟩
  · simp [hsha, hempty.symm, hlength, nullState]

/-- The visibility is qualified in either mode. -/
theorem qualifyVisibility_null :
    Ensures (qualifyVisibility (nullEnv P) o) (.start false)
      (fun _ w => ∃ l, w = { jsonl_output_failed := false, log := l } ∧ Unsent l)
      fun _ _ => False := by
  have hl : Unsent [] := fun _ _ _ _ hmem => absurd hmem List.not_mem_nil
  unfold qualifyVisibility
  cases o.mode with
  | host => exact ⟨_, rfl, hl.note rfl⟩
  | gpu => exact ⟨_, rfl, (hl.note rfl).note rfl⟩

/-- The whole experiment in that environment. -/
theorem expSingleGet_null (hg : validateGeometry o 1 = .ok g) (hh : Hollow P o) :
    Ensures (expSingleGet (nullEnv P) o false) (.start false)
      (fun _ w => GavePass w.log ∧ Unsent w.log) fun _ _ => False := by
  refine function_spec ?_ fun _ _ h => h.elim
  rw [hg]
  refine Ensures.bind qualifyVisibility_null ?_
  rintro _ _ ⟨l, rfl, hl⟩
  refine Ensures.run_bind rfl (Ensures.run_bind rfl (Ensures.always ?_))
  exact singleBody_null hg hh ((hl.note rfl).note rfl)

end Run

end Null

/-! ## The verdict PASS -/

section Pass

-- A run on given options is not to be evaluated.
attribute [local irreducible] Ensures

variable {P : Platform} {o : Options} {g : Geometry}

/-- There was one GET, of which one request message had bytes accepted by the socket, and its
receipt was accepted by the completion authority for the expected length. -/
def ProvenDelivery (o : Options) (g : Geometry) (log : List Event) : Prop :=
  ∃ s r, log.filter Event.isReturned = [.returned singleTag (singleSetup o g false) s r] ∧
    Delivered (singleSetup o g false) s

/-- Where no GET has sent anything there was no delivery. -/
theorem Unsent.not_provenDelivery {log : List Event} (h : Unsent log) : ¬ ProvenDelivery o g log := by
  rintro ⟨s, r, hfilter, hone, -⟩
  have hmem : .returned singleTag (singleSetup o g false) s r ∈ log.filter Event.isReturned := by
    rw [hfilter]
    exact List.mem_singleton_self _
  have hzero := h _ _ _ _ (List.mem_filter.mp hmem).1
  omega

/-- In the environment of `nullEnv` a pass is not based on a delivery. -/
theorem expSingleGet_hollow (hg : validateGeometry o 1 = .ok g) (hh : Hollow P o) :
    Ensures (expSingleGet (nullEnv P) o false) (.start false)
      (fun _ w => GavePass w.log ∧ Unsent w.log ∧ ¬ ProvenDelivery o g w.log) fun _ _ => False :=
  (expSingleGet_null hg hh).mono (fun _ _ h => ⟨h.1, h.2, h.2.not_provenDelivery⟩) fun _ _ h => h

/-- A pass of `diag` means a proven delivery, in every environment, unless no byte is expected and
the digest that is given is that of the empty landing. -/
theorem diag_pass_iff (hg : validateGeometry o 1 = .ok g) :
    (∀ (env : Env P) (failed : Bool), Ensures (expSingleGet env o false) (.start failed)
      (fun _ w => GavePass w.log → ProvenDelivery o g w.log)
      fun _ w => GavePass w.log → ProvenDelivery o g w.log) ↔ ¬ Hollow P o := by
  constructor
  -- With such options an environment that sends nothing reaches a pass.
  · intro hall hh
    refine Ensures.elim (Ensures.and (hall (nullEnv P) false) (expSingleGet_hollow hg hh)) ?_
      fun _ _ h => h.2
    rintro _ w ⟨hproven, hpass, -, hnot⟩
    exact hnot (hproven hpass)
  · intro hh env failed
    have hpass : ∀ w, Conduct (singleRules P o false) w → GavePass w.log →
        ProvenDelivery o g w.log := by
      rintro w hc ⟨d, f, x, hmem⟩
      obtain ⟨s, r, hreturned, hdelivered⟩ :=
        (hc.verdicts .pass d f x hmem rfl rfl).resolve_left hh g hg
      refine ⟨s, r, ?_, hdelivered⟩
      -- At most one GET has returned, so the delivery is that of the only one.
      have hle : (w.log.filter Event.isReturned).length ≤ 1 := by
        rw [← List.countP_eq_length_filter]
        exact hc.gets
      have hin : _ ∈ w.log.filter Event.isReturned := List.mem_filter.mpr ⟨hreturned, rfl⟩
      obtain ⟨e, he⟩ := List.length_eq_one_iff.mp
        (le_antisymm hle (List.length_pos_of_mem hin))
      rw [he] at hin ⊢
      rw [List.mem_singleton.mp hin]
    exact (expSingleGet_conduct env o false failed).mono (fun _ => hpass) fun _ => hpass

/-- The digest of the empty landing, as the `--expect-sha` of a command line. -/
def emptySha : Bytes := ascii "e3b0c44298fc1c149afbf4c8996fb92427ae41e4649b934ca495991b7852b855"

/-- A platform whose digest of the empty landing is that of SHA-256. -/
def emptyShaPlatform : Platform where
  hmac _ _ := []
  sha256 b := if b = [] then [0xe3, 0xb0, 0xc4, 0x42, 0x98, 0xfc, 0x1c, 0x14, 0x9a, 0xfb, 0xf4, 0xc8,
    0x99, 0x6f, 0xb9, 0x24, 0x27, 0xae, 0x41, 0xe4, 0x64, 0x9b, 0x93, 0x4c, 0xa4, 0x95, 0x99, 0x1b,
    0x78, 0x52, 0xb8, 0x55] else []
  gmtime _ := .midnight 1970 0 1

/-- A command line with the digest of the empty landing. -/
def emptyShaArgs : List Bytes :=
  [ascii "--exp", ascii "diag", ascii "--bucket", ascii "b", ascii "--object", ascii "o",
    ascii "--expect-sha", emptySha]

/-- A command line with the digest of the empty landing, and no byte expected. -/
def hollowArgs : List Bytes := emptyShaArgs ++ [ascii "--expected-bytes", ascii "0"]

/-- What `parse_args` makes of a command line that it accepts. -/
def optionsOf (args : List Bytes) : Options := (parseArgs args).getD {}

/-- The length of the request is expected without `--expected-bytes`, so that a pass means a
delivery. -/
theorem diag_pass_iff_nonempty :
    validateGeometry (optionsOf emptyShaArgs) 1 = .ok ⟨8519680, 8519680, 8388608⟩ ∧
      ∀ (env : Env emptyShaPlatform) (failed : Bool),
        Ensures (expSingleGet env (optionsOf emptyShaArgs) false) (.start failed)
          (fun _ w => GavePass w.log →
            ProvenDelivery (optionsOf emptyShaArgs) ⟨8519680, 8519680, 8388608⟩ w.log)
          fun _ w => GavePass w.log →
            ProvenDelivery (optionsOf emptyShaArgs) ⟨8519680, 8519680, 8388608⟩ w.log := by
  have hg : validateGeometry (optionsOf emptyShaArgs) 1 = .ok ⟨8519680, 8519680, 8388608⟩ := by
    decide +kernel
  exact ⟨hg, (diag_pass_iff hg).mpr (by decide +kernel)⟩

/-- With no byte expected, a callback without a descriptor and a returned `0` give the verdict PASS,
and there is no request message. -/
theorem diag_pass_hollow :
    parseArgs hollowArgs = some (optionsOf hollowArgs) ∧
      validateGeometry (optionsOf hollowArgs) 1 = .ok ⟨8519680, 8519680, 0⟩ ∧
      Ensures (expSingleGet (nullEnv emptyShaPlatform) (optionsOf hollowArgs) false) (.start false)
        (fun _ w => GavePass w.log ∧ Unsent w.log ∧
          ¬ ProvenDelivery (optionsOf hollowArgs) ⟨8519680, 8519680, 0⟩ w.log)
        fun _ _ => False := by
  have hargs : (parseArgs hollowArgs).isSome := by decide +kernel
  have hg : validateGeometry (optionsOf hollowArgs) 1 = .ok ⟨8519680, 8519680, 0⟩ := by
    decide +kernel
  have hh : Hollow emptyShaPlatform (optionsOf hollowArgs) := by decide +kernel
  exact ⟨(Option.getD_of_ne_none (Option.isSome_iff_ne_none.mp hargs) _).symm, hg,
    expSingleGet_hollow hg hh⟩

end Pass

end S3Rdma.Probe
