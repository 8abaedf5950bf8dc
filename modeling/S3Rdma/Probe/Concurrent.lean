import S3Rdma.Probe.SingleGet

/-!
# The experiment with concurrent GETs

`exp_concurrent` returns the exit status `0` only if every GET of every round was as it should be,
and gives the verdict FAIL only if a slot has shown a fault, under an overlap in its round, that is
not the probe's own, or if the deregistration has failed. What "as it should be" and "a fault" mean
is said on the log of the run alone (`SlotGood`, `Fault`).

The rounds are walked through with an invariant (`Between`) that says this of all rounds so far. In
a round there are two passes: the first counts the GETs that have failed without a look at their
landings, the second reads the landings. An exception in the second leaves what was counted so far,
so a round that has failed is told from one that could not be observed by the count alone
(`Judged`).
-/

namespace S3Rdma.Probe

/-! ## What the verdicts say -/

section Claims

variable (P : Platform) (o : Options) (log : List Event) (ref : List Bytes)

/-- The poison in the rest of the cell of a slot was not touched. -/
def Untouched (k : ℕ) (nonce : UInt32) (whole : Bytes) : Prop :=
  ∀ i < (slotCell o k).size, i < o.guard ∨ o.guard + o.slot_bytes ≤ i →
    whole.getD i 0 = (poisonPattern (slotCell o k).size nonce).getD i 0

/-- The digests of the landings of the reference pass. -/
structure References : Prop where
  length : ref.length = o.slots
  read : ∀ (k : ℕ) (d : Bytes), ref[k]? = some d → ∃ bytes,
    .read ⟨-1, k⟩ (slotCell o k).payload (.ok bytes) ∈ log ∧ bytes.length = o.slot_bytes ∧
      d = sha256Hex P bytes

/-- The GET of a slot in a round was as it should be. -/
structure SlotGood (it k : ℕ) (s : System) (r : SdkReturn) : Prop where
  sdk_return : r = ⟨o.slot_bytes, true⟩
  one_callback : s.ctx.invocations = 1
  qualified : s.ctx.attempts.head?.any Attempt.qualified_complete = true
  evidence : s.ctx.evidence_lost = false
  landing : ∃ bytes, .read ⟨it, k⟩ (slotCell o k).payload (.ok bytes) ∈ log ∧
    bytes.length = o.slot_bytes ∧ ref[k]? = some (sha256Hex P bytes)
  poison : ∃ whole, .read ⟨it, k⟩ (slotCell o k).base (.ok whole) ∈ log ∧
    whole.length = (slotCell o k).size ∧ Untouched o k (roundNonce it) whole

/-- The GET of a slot in a round has shown a fault. -/
inductive Fault (it k : ℕ) (s : System) (r : SdkReturn) : Prop where
  | sdkReturn (present : r.present = true) (value : r.value ≠ o.slot_bytes)
  | callbacks (invocations : s.ctx.invocations ≠ 1)
  | receipt (unqualified : s.ctx.attempts.head?.any Attempt.qualified_complete = false)
  | digest (bytes : Bytes) (read : .read ⟨it, k⟩ (slotCell o k).payload (.ok bytes) ∈ log)
      (length : bytes.length = o.slot_bytes) (ne : ref[k]? ≠ some (sha256Hex P bytes))
  | poison (whole : Bytes) (read : .read ⟨it, k⟩ (slotCell o k).base (.ok whole) ∈ log)
      (length : whole.length = (slotCell o k).size) (touched : ¬ Untouched o k (roundNonce it) whole)

/-- The GETs of a round, by their slots. -/
structure RoundRuns (it : ℕ) (runs : List Run) : Prop where
  length : runs.length = o.slots
  returned : ∀ (k : ℕ) (g : Run), runs[k]? = some g →
    ∃ s, .returned ⟨it, k⟩ (slotSetup o k) s g.2 ∈ log ∧ g.1 = s.ctx

/-- Some GETs of a round have overlapped. -/
def Overlapped (it : ℕ) : Prop :=
  ∃ runs : List Run, RoundRuns o log it runs ∧ 2 ≤ roundMax (runs.map Prod.fst)

/-- A round in which a slot has shown a fault that is not the probe's own. -/
structure FaultyRound (it : ℕ) (runs : List Run) : Prop where
  references : References P o log ref
  round : it < o.iterations
  gets : RoundRuns o log it runs
  fault : ∃ (k : ℕ) (s : System) (r : SdkReturn), runs[k]? = some (s.ctx, r) ∧
    .returned ⟨it, k⟩ (slotSetup o k) s r ∈ log ∧ s.ctx.evidence_lost = false ∧
    s.ctx.local_failure = false ∧ Fault P o log ref it k s r

/-- What the verdict FAIL is based on: the deregistration has failed, or there is a round with an
overlap in which a slot has shown a fault that is not the probe's own. -/
def FailGrounds : Prop :=
  (∃ rc, rc ≠ 0 ∧ .deregistered rc ∈ log) ∨
    ∃ (ref : List Bytes) (it : ℕ) (runs : List Run), FaultyRound P o log ref it runs ∧
      2 ≤ roundMax (runs.map Prod.fst)

/-- In each of some rounds there was a GET for each slot, and all GETs of rounds were as they should
be. -/
structure GoodRounds (n : ℕ) : Prop where
  returned : ∀ it < n, ∀ k < o.slots, ∃ (s : System) (r : SdkReturn),
    .returned ⟨it, k⟩ (slotSetup o k) s r ∈ log
  good : ∀ (it k : ℕ) (u : RigSetup) (s : System) (r : SdkReturn),
    .returned ⟨it, k⟩ u s r ∈ log → SlotGood P o log ref it k s r

/-- What the exit status `0` says. -/
structure PassFacts : Prop where
  none_lost : NoneLost log
  deregistered : .deregistered 0 ∈ log
  overlap : ∃ it < o.iterations, Overlapped o log it
  rounds : ∃ ref : List Bytes, References P o log ref ∧ ref.Nodup ∧
    (∀ (k : ℕ) (d : Bytes), ref[k]? = some d → d ≠ payloadPoisonDigest P (slotCell o k) o.slot_bytes 1) ∧
    GoodRounds P o log ref o.iterations

/-- The verdict of the run was FAIL. -/
def GaveFail : Prop :=
  (∃ d f x, .printed (.result .fail d f) x ∈ log) ∨ .fallback .fail ∈ log

end Claims

/-! ### A longer log says no less -/

section Mono

variable {P : Platform} {o : Options} {log log' : List Event} {ref : List Bytes} {it k n : ℕ}
  {runs : List Run} {s : System} {r : SdkReturn} {w w' : World}

theorem References.mono (h : References P o log ref) (hsub : log ⊆ log') :
    References P o log' ref := by
  refine ⟨h.length, fun k d hd => ?_⟩
  obtain ⟨bytes, hread, hbytes⟩ := h.read k d hd
  exact ⟨bytes, hsub hread, hbytes⟩

theorem SlotGood.mono (h : SlotGood P o log ref it k s r) (hsub : log ⊆ log') :
    SlotGood P o log' ref it k s r := by
  obtain ⟨bytes, hbytes, hlanding⟩ := h.landing
  obtain ⟨whole, hwhole, hpoison⟩ := h.poison
  exact ⟨h.sdk_return, h.one_callback, h.qualified, h.evidence, ⟨bytes, hsub hbytes, hlanding⟩,
    ⟨whole, hsub hwhole, hpoison⟩⟩

theorem Fault.mono (h : Fault P o log ref it k s r) (hsub : log ⊆ log') :
    Fault P o log' ref it k s r := by
  cases h with
  | sdkReturn present value => exact .sdkReturn present value
  | callbacks invocations => exact .callbacks invocations
  | receipt unqualified => exact .receipt unqualified
  | digest bytes read length ne => exact .digest bytes (hsub read) length ne
  | poison whole read length touched => exact .poison whole (hsub read) length touched

theorem RoundRuns.mono (h : RoundRuns o log it runs) (hsub : log ⊆ log') :
    RoundRuns o log' it runs := by
  refine ⟨h.length, fun k g hg => ?_⟩
  obtain ⟨s, hmem, hs⟩ := h.returned k g hg
  exact ⟨s, hsub hmem, hs⟩

theorem Overlapped.mono (h : Overlapped o log it) (hsub : log ⊆ log') : Overlapped o log' it := by
  obtain ⟨runs, hruns, hmax⟩ := h
  exact ⟨runs, hruns.mono hsub, hmax⟩

theorem FaultyRound.mono (h : FaultyRound P o log ref it runs) (hsub : log ⊆ log') :
    FaultyRound P o log' ref it runs := by
  obtain ⟨k, s, r, hrun, hmem, hevidence, hlocal, hfault⟩ := h.fault
  exact ⟨h.references.mono hsub, h.round, h.gets.mono hsub, k, s, r, hrun, hsub hmem, hevidence,
    hlocal, hfault.mono hsub⟩

theorem FailGrounds.mono (h : FailGrounds P o log) (hsub : log ⊆ log') : FailGrounds P o log' := by
  rcases h with ⟨rc, hrc, hmem⟩ | ⟨ref, it, runs, hfaulty, hmax⟩
  · exact .inl ⟨rc, hrc, hsub hmem⟩
  · exact .inr ⟨ref, it, runs, hfaulty.mono hsub, hmax⟩

/-- Good rounds stay good while no GET takes place. -/
theorem GoodRounds.of_extends (h : GoodRounds P o w.log ref n) (hext : Extends w w') :
    GoodRounds P o w'.log ref n := by
  refine ⟨fun it hit k hk => ?_, fun it k u s r hmem => ?_⟩
  · obtain ⟨s, r, hmem⟩ := h.returned it hit k hk
    exact ⟨s, r, hext.subset hmem⟩
  · exact (h.good it k u s r (hext.mem_of_isGet rfl hmem)).mono hext.subset

end Mono

/-- The rules of the experiment: the verdict FAIL has its grounds. -/
def concurrentRules (P : Platform) (o : Options) : Rules where
  grounds v log := v = .fail → FailGrounds P o log
  gets _ := True
  grounds_mono hsub h hv := (h hv).mono hsub
  grounds_inconclusive _ := nofun
  grounds_envError _ := nofun
  gets_mono _ _ := trivial

/-! ## What is seen of a slot -/

section Slot

-- The lengths that the code compares are not to be evaluated.
attribute [local irreducible] signed64

variable {P : Platform} {env : Env P} {o : Options} {g : Geometry} {log : List Event}
  {ref : List Bytes} {it k : ℕ} {s : System} {r : SdkReturn} {w : World} {nonce : UInt32}
  {arena : ℕ → UInt8} {d : Bytes} {outside : Bool}

/-- With an accepted geometry a slot is much smaller. -/
theorem slot_bytes_lt (hg : validateGeometry o o.slots = .ok g) :
    o.guard + o.slot_bytes < 2^63 := by
  obtain ⟨hslots, hfits, -⟩ := validateGeometry_ok hg
  have hcell : o.slot_bytes + o.guard * 2 ≤ (o.slot_bytes + o.guard * 2) * o.slots :=
    Nat.le_mul_of_pos_right _ hslots
  have hmax : kMaxReg < 2^63 := by decide
  omega

/-- `poison_intact_outside` says whether the poison was touched. -/
theorem poisonIntact_iff (hg : validateGeometry o o.slots = .ok g) {whole : Bytes} :
    poisonIntact (slotCell o k) o.slot_bytes nonce whole = true ↔ Untouched o k nonce whole := by
  have hlt := slot_bytes_lt hg
  have hadd : add64 o.guard o.slot_bytes = o.guard + o.slot_bytes := by
    unfold add64
    omega
  have hguard : (slotCell o k).guard = o.guard := rfl
  simp only [poisonIntact, hguard, hadd, Untouched, List.all_eq_true, List.mem_range,
    Bool.or_eq_true, Bool.and_eq_true, decide_eq_true_eq, beq_iff_eq]
  refine forall₂_congr fun i _ => ⟨fun h hout => h.resolve_left (by omega), fun h => ?_⟩
  by_cases hin : o.guard ≤ i ∧ i < o.guard + o.slot_bytes
  · exact .inl hin
  · exact .inr (h (by omega))

/-- A GET that is good as far as it can be seen without its landing. -/
theorem nativeOk_iff (hg : validateGeometry o o.slots = .ok g) :
    nativeOk o (s.ctx, r) = true ↔ r = ⟨o.slot_bytes, true⟩ ∧ s.ctx.invocations = 1 ∧
      s.ctx.attempts.head?.any Attempt.qualified_complete = true := by
  have hlt := slot_bytes_lt hg
  obtain ⟨value, present⟩ := r
  simp only [nativeOk, signed64_eq (show o.slot_bytes < 2^63 by omega), Bool.and_eq_true,
    decide_eq_true_eq, SdkReturn.mk.injEq]
  tauto

/-- A GET that has failed without a look at its landing has a fault. -/
theorem Fault.of_nativeOk (hg : validateGeometry o o.slots = .ok g)
    (h : nativeOk o (s.ctx, r) = false) (hpresent : r.present = true) :
    Fault P o log ref it k s r := by
  by_cases hvalue : r.value = o.slot_bytes
  · by_cases hone : s.ctx.invocations = 1
    · refine .receipt (Bool.eq_false_iff.mpr fun hqualified => ?_)
      have hok := (nativeOk_iff hg).mpr ⟨by rw [← hvalue, ← hpresent], hone, hqualified⟩
      exact Bool.false_ne_true (h.symm.trans hok)
    · exact .callbacks hone
  · exact .sdkReturn hpresent hvalue

/-- A GET that returns what it should, and whose landing is as it should be, is good. -/
theorem SlotGood.of_landing (hg : validateGeometry o o.slots = .ok g)
    (hnative : nativeOk o (s.ctx, r) = true) (hevidence : s.ctx.evidence_lost = false)
    (h : Landing P arena ⟨it, k⟩ (slotCell o k) o.slot_bytes (roundNonce it) (d, true) log)
    (hd : ref[k]? = some d) : SlotGood P o log ref it k s r := by
  obtain ⟨hreturn, hone, hqualified⟩ := (nativeOk_iff hg).mp hnative
  refine ⟨hreturn, hone, hqualified, hevidence, ⟨_, h.landing, by simp [spanAt], ?_⟩,
    ⟨_, h.whole, by simp [spanAt], (poisonIntact_iff hg).mp h.outside.symm⟩⟩
  rw [hd, ← h.digest]

/-- A landing that is not as it should be is a fault. -/
theorem Fault.of_landing (hg : validateGeometry o o.slots = .ok g)
    (h : Landing P arena ⟨it, k⟩ (slotCell o k) o.slot_bytes (roundNonce it) (d, outside) log)
    (hbad : outside = false ∨ ref[k]? ≠ some d) : Fault P o log ref it k s r := by
  rcases hbad with rfl | hd
  · refine .poison _ h.whole (by simp [spanAt]) fun huntouched => ?_
    exact Bool.false_ne_true (h.outside.trans ((poisonIntact_iff hg).mpr huntouched))
  · refine .digest _ h.landing (by simp [spanAt]) ?_
    rw [← h.digest]
    exact hd

/-- `slot_ok`, when all GETs are settled. -/
theorem slotOk_spec {t : GetTag} {get : Run} {R : Rules} (h : Ready R w) :
    Ensures (slotOk env o t k get nonce) w
      (fun x w' => Ready R w' ∧ w'.tally = w.tally ∧ Extends w w' ∧
        x.1 = (nativeOk o get && x.2.2) ∧
        Landing P w.arena t (slotCell o k) o.slot_bytes nonce x.2 w'.log)
      fun s w' => s.Thrown ∧ Ready R w' ∧ w'.tally = w.tally ∧ Extends w w' := by
  refine Ensures.bind (readLanding_spec h) ?_
  rintro ⟨d, outside⟩ w₁ ⟨h₁, htally, hext, hlanding⟩
  exact Ensures.pure ⟨h₁, htally, hext, rfl, hlanding⟩

end Slot

/-! ## The reference pass -/

section Reference

attribute [local irreducible] signed64

variable {P : Platform} {env : Env P} {o : Options} {ref : List Bytes} {k : ℕ} {w w' : World}

/-- A verdict other than FAIL needs no grounds. -/
theorem grounds_of_ne_fail {v : Verdict} {log : List Event} (hv : v ≠ .fail) :
    (concurrentRules P o).grounds v log :=
  fun h => absurd h hv

/-- No GET of a round has returned. -/
def NoRounds (log : List Event) : Prop :=
  ∀ (it k : ℕ) (u : RigSetup) (s : System) (r : SdkReturn), .returned ⟨it, k⟩ u s r ∉ log

/-- What holds between two GETs of the reference pass, with the digests so far. -/
structure Referenced (P : Platform) (o : Options) (ref : List Bytes) (w : World) : Prop where
  ready : Ready (concurrentRules P o) w
  read : ∀ (k : ℕ) (d : Bytes), ref[k]? = some d → (∃ bytes,
    .read ⟨-1, k⟩ (slotCell o k).payload (.ok bytes) ∈ w.log ∧ bytes.length = o.slot_bytes ∧
      d = sha256Hex P bytes) ∧ d ≠ payloadPoisonDigest P (slotCell o k) o.slot_bytes 1
  none : NoRounds w.log

/-- Where the range is split, the element is the number of those before it. -/
theorem range_split {n k : ℕ} {done rest : List ℕ} (h : List.range n = done ++ k :: rest) :
    k = done.length ∧ k < n := by
  have hk : (List.range n)[done.length]? = some k := by
    rw [h, List.getElem?_append_right (le_refl _), Nat.sub_self]
    rfl
  obtain ⟨hlt, heq⟩ := List.getElem?_eq_some_iff.mp hk
  rw [List.getElem_range] at heq
  rw [List.length_range] at hlt
  exact ⟨heq.symm, heq ▸ hlt⟩

/-- The callback capacity is sufficient at each slot. -/
theorem capacities_spec (h : Ready (concurrentRules P o) w) :
    Ensures (capacities env o) w (fun _ w' => Calm w w') (Left (concurrentRules P o)) := by
  refine Ensures.forM (I := fun _ w' => Calm w w') (.refl w) fun _ _ _ w₁ _ h₁ => ?_
  refine harmless_callbackMax.andThen h.conduct h₁ fun cap w₂ h₂ => ?_
  refine (harmless_emit fun _ => rfl).andThen h.conduct h₂ fun _ w₃ h₃ => ?_
  have hready := h.calm h₃
  refine Ensures.ite (fun _ => ?_) fun _ => Ensures.pure h₃
  exact returning_spec (releaseOrRetain_spec hready.conduct hready.settled
    (Rules.grounds_envError _ _) nofun)

/-- The reference GET of a slot adds the digest of the slot. -/
theorem referenceSlot_spec (h : Referenced P o ref w) :
    Ensures (referenceSlot env o ref ref.length) w
      (fun ref' w' => Referenced P o ref' w' ∧ ref'.length = ref.length + 1)
      (Left (concurrentRules P o)) := by
  obtain ⟨hready, hread, hnone⟩ := h
  refine Ensures.bind ((poisonCell_spec hready).mono (fun _ _ h => h)
    fun s w' h => h.2.conduct.left h.1) ?_
  rintro _ w₁ ⟨h₁, hw₁⟩
  have hext₁ : Extends w w₁ :=
    .note (e := .poisoned (slotCell o ref.length) (.ok ())) (by rw [hw₁]; rfl) rfl
  refine harmless_alloc.andThen h₁.conduct (.refl w₁) fun _ w₂ h₂ => ?_
  have hready₂ := h₁.calm h₂
  have hext₂ := hext₁.trans h₂.toExtends
  refine Ensures.bind ((sdkGet_spec hready₂.conduct hready₂.settled trivial
    fun _ _ => trivial).mono (fun _ _ h => h) fun _ _ h => h.elim) ?_
  rintro get w₃ ⟨s, hdone⟩
  refine (harmless_emitAttempts _).andThen hdone.conduct (.refl w₃) fun _ w₄ h₄ => ?_
  refine (harmless_emit fun _ => rfl).andThen hdone.conduct h₄ fun _ w₅ h₅ => ?_
  refine Ensures.ite (fun _ => ?_) fun hknown => ?_
  · refine Ensures.bind (Q := fun _ _ => False) ?_ fun _ _ h => h.elim
    exact returning_spec (retain_exit (hdone.conduct.quiet h₅.toQuiet)
      (Rules.grounds_inconclusive _ _) nofun)
  rw [Bool.not_eq_true] at hknown
  have hsettled : Settled s get.2 := .of_unknown (by rw [← hdone.ctx]; exact hknown)
  have hready₃ : Ready (concurrentRules P o) w₃ :=
    ⟨hdone.conduct, hready₂.settled.returned hdone.log hsettled,
      hdone.fixture.trans hready₂.fixture, hdone.threads.trans hready₂.threads,
      hdone.kept hready₂.kept⟩
  have hready₅ := hready₃.calm h₅
  refine Ensures.ite (fun _ => ?_) fun _ => ?_
  · refine Ensures.bind (Q := fun _ _ => False) ?_ fun _ _ h => h.elim
    exact returning_spec (releaseOrRetain_spec hready₅.conduct hready₅.settled
      (Rules.grounds_envError _ _) nofun)
  refine Ensures.bind ((slotOk_spec hready₅).mono (fun _ _ h => h)
    fun s w' h => h.2.1.conduct.left h.1) ?_
  rintro ⟨ok, d, outside⟩ w₆ ⟨hready₆, -, hext₆, -, hlanding⟩
  refine (harmless_emit fun _ => rfl).andThen hready₆.conduct (.refl w₆) fun _ w₇ h₇ => ?_
  have hready₇ := hready₆.calm h₇
  refine Ensures.ite (fun _ => ?_) fun hok => ?_
  · refine Ensures.bind (Q := fun _ _ => False) ?_ fun _ _ h => h.elim
    exact returning_spec (releaseOrRetain_spec hready₇.conduct hready₇.settled
      (Rules.grounds_envError _ _) nofun)
  have hext : Extends w₃ w₇ := (h₅.toExtends.trans hext₆).trans h₇.toExtends
  have hsub : w.log ⊆ w₇.log := by
    refine List.Subset.trans hext₂.subset (List.Subset.trans ?_ hext.subset)
    rw [hdone.log]
    exact List.subset_append_left _ _
  refine Ensures.pure ⟨⟨hready₇, fun k d' hd' => ?_, fun it k u s' r' hmem => ?_⟩, by simp⟩
  · rcases Nat.lt_or_ge k ref.length with hk | hk
    · rw [List.getElem?_append_left hk] at hd'
      obtain ⟨⟨bytes, hmem, hbytes⟩, hpoison⟩ := hread k d' hd'
      exact ⟨⟨bytes, hsub hmem, hbytes⟩, hpoison⟩
    · -- The new digest is the last one.
      rw [List.getElem?_append_right hk] at hd'
      have hlast : k = ref.length := by
        have := (List.getElem?_eq_some_iff.mp hd').1
        simp only [List.length_singleton] at this
        omega
      subst hlast
      rw [Nat.sub_self] at hd'
      obtain rfl := Option.some.inj hd'
      refine ⟨⟨_, h₇.toExtends.subset hlanding.landing, by simp [spanAt], hlanding.digest⟩, ?_⟩
      intro hpoison
      exact hok (by simp [hpoison])
  · have hmem₃ := hext.mem_of_isGet rfl hmem
    rw [hdone.log] at hmem₃
    simp only [List.mem_append, List.mem_cons, List.not_mem_nil, or_false, reduceCtorEq, false_or,
      Event.returned.injEq, GetTag.mk.injEq] at hmem₃
    rcases hmem₃ with hmem₂ | ⟨⟨hit, -⟩, -⟩
    · exact hnone it k u s' r' (hext₂.mem_of_isGet rfl hmem₂)
    · omega

/-- The reference pass leaves a digest for each slot. -/
theorem referencePass_spec (h : Ready (concurrentRules P o) w) (hnone : NoGets w.log) :
    Ensures (referencePass env o) w
      (fun ref w' => Referenced P o ref w' ∧ ref.length = o.slots) (Left (concurrentRules P o)) := by
  refine harmless_alloc.andThen h.conduct (.refl w) fun _ w₁ h₁ => ?_
  refine catchStd_spec ?_ fun what w' hc =>
    returning_spec (retain_exit hc (Rules.grounds_envError _ _) nofun)
  refine Ensures.mono (Q := fun ref w' => Referenced P o ref w' ∧
    ref.length = (List.range o.slots).length) ?_ (fun ref w' h => ?_) fun _ _ h => h
  · refine Ensures.foldlM (I := fun done ref w' => Referenced P o ref w' ∧ ref.length = done.length)
      ⟨⟨h.calm h₁, nofun, fun it k u s r hmem => ?_⟩, rfl⟩ ?_
    · exact absurd (hnone.of_extends h₁.toExtends _ hmem) Bool.false_ne_true.symm
    · rintro done k rest ref w₂ hrange ⟨href, hlength⟩
      obtain ⟨rfl, -⟩ := range_split hrange
      rw [← hlength]
      refine (referenceSlot_spec href).mono (fun ref' w' h => ⟨h.1, ?_⟩) fun _ _ h => h
      rw [h.2, hlength, List.length_append]
      rfl
  · rw [List.length_range] at h
    exact h

/-- If no two digests are equal, the list has no duplicates. -/
theorem nodup_of_equalPair (h : equalPair ref = false) : ref.Nodup := by
  induction ref with
  | nil => exact List.nodup_nil
  | cons d ds ih =>
    obtain ⟨hd, hds⟩ := Bool.or_eq_false_iff.mp h
    refine List.nodup_cons.mpr ⟨fun hmem => ?_, ih hds⟩
    exact Bool.false_ne_true (hd.symm.trans (List.contains_iff_mem.mpr hmem))

end Reference

/-! ## The GETs of a round -/

section Gets

attribute [local irreducible] signed64

variable {P : Platform} {env : Env P} {o : Options} {g : Geometry} {ref : List Bytes} {it : ℕ}
  {runs : List Run} {w w' : World}

/-- What holds between two rounds, of which some are over. -/
structure Between (P : Platform) (o : Options) (ref : List Bytes) (it : ℕ) (w : World) : Prop where
  ready : Ready (concurrentRules P o) w
  references : References P o w.log ref
  rounds : GoodRounds P o w.log ref it
  overlap : 2 ≤ w.tally.max_overlap → ∃ it' < it, Overlapped o w.log it'
  failures : w.tally.failures = 0

/-- What holds in a round when its GETs are over and none is unknown. -/
structure InRound (P : Platform) (o : Options) (ref : List Bytes) (it : ℕ) (runs : List Run)
    (w : World) : Prop where
  ready : Ready (concurrentRules P o) w
  references : References P o w.log ref
  gets : RoundRuns o w.log it runs
  known : ∀ g ∈ runs, Run.unknown g = false
  before : ∀ it' < it, ∀ k < o.slots, ∃ (s : System) (r : SdkReturn),
    .returned ⟨it', k⟩ (slotSetup o k) s r ∈ w.log
  good : ∀ (it' k : ℕ) (u : RigSetup) (s : System) (r : SdkReturn),
    .returned ⟨it', k⟩ u s r ∈ w.log →
      SlotGood P o w.log ref it' k s r ∨ (it' = it ∧ runs[k]? = some (s.ctx, r))
  overlap : 2 ≤ w.tally.max_overlap → ∃ it' < it + 1, Overlapped o w.log it'

/-- What holds inside a round is kept while no GET takes place. -/
theorem InRound.of_extends (h : InRound P o ref it runs w)
    (hready : Ready (concurrentRules P o) w') (hext : Extends w w')
    (hmax : w'.tally.max_overlap = w.tally.max_overlap) : InRound P o ref it runs w' where
  ready := hready
  references := h.references.mono hext.subset
  gets := h.gets.mono hext.subset
  known := h.known
  before it' hit' k hk := by
    obtain ⟨s, r, hmem⟩ := h.before it' hit' k hk
    exact ⟨s, r, hext.subset hmem⟩
  good it' k u s r hmem :=
    (h.good it' k u s r (hext.mem_of_isGet rfl hmem)).imp_left fun h => h.mono hext.subset
  overlap hlt := by
    obtain ⟨it', hit', hoverlap⟩ := h.overlap (hmax ▸ hlt)
    exact ⟨it', hit', hoverlap.mono hext.subset⟩

/-- The cells of a round are poisoned without a GET. -/
theorem poisonRound_spec (h : Ready (concurrentRules P o) w) :
    Ensures (poisonRound env o ref it) w
      (fun _ w' => Ready (concurrentRules P o) w' ∧ Extends w w' ∧ w'.tally = w.tally)
      (Left (concurrentRules P o)) := by
  refine catchStd_spec ?_ fun what w' hc =>
    returning_spec (retain_exit hc (Rules.grounds_envError _ _) nofun)
  refine Ensures.forM (I := fun _ w' => Ready (concurrentRules P o) w' ∧ Extends w w' ∧
    w'.tally = w.tally) ⟨h, ⟨[], by simp, by simp⟩, rfl⟩ ?_
  rintro done k rest w₁ - ⟨h₁, hext, htally⟩
  refine Ensures.ite (fun _ => ?_) fun _ => ?_
  · refine Ensures.bind (Q := fun _ _ => False) ?_ fun _ _ h => h.elim
    exact returning_spec (retain_exit h₁.conduct (Rules.grounds_inconclusive _ _) nofun)
  refine Ensures.bind ((poisonCell_spec h₁).mono (fun _ _ h => h)
    fun s w' h => h.2.conduct.left h.1) ?_
  rintro _ w₂ ⟨h₂, hw₂⟩
  have hext₂ : Extends w₁ w₂ :=
    .note (e := .poisoned (slotCell o k) (.ok ())) (by rw [hw₂]; rfl) rfl
  refine (harmless_alloc w₂).mono (fun _ w₃ h₃ => ?_) fun s w₃ h₃ =>
    (h₂.conduct.quiet h₃.2).left h₃.1
  refine ⟨h₂.calm h₃, (hext.trans hext₂).trans h₃.toExtends, ?_⟩
  rw [h₃.tally, hw₂]
  exact htally

/-- Some workers of a round have been created. -/
structure Spawned (P : Platform) (o : Options) (it : ℕ) (ks : List ℕ) (w w' : World) : Prop where
  conduct : Conduct (concurrentRules P o) w'
  threads : w'.threads = ks.map fun k => (⟨it, k⟩, slotSetup o k)
  fixture : w'.fixture = w.fixture
  tally : w'.tally = w.tally
  kept : Kept w → Kept w'
  subset : w.log ⊆ w'.log
  returned : ∀ t u s r, .returned t u s r ∈ w'.log → .returned t u s r ∈ w.log
  issued : ∀ t, .issued t ∈ w'.log → SettledIn w'.log t ∨ ∃ u, (t, u) ∈ w'.threads

/-- A worker is created, or cannot be. Before, only GETs of the same round may be running. -/
theorem spawn_spec {ks : List ℕ} {k : ℕ} (h : Spawned P o it ks w w') :
    Ensures (spawn env ⟨it, k⟩ (slotSetup o k)) w' (fun _ => Spawned P o it (ks ++ [k]) w)
      fun s w'' => s.Thrown ∧ Conduct (concurrentRules P o) w'' := by
  unfold Ensures spawn
  cases env.spawn w'.log with
  | error e =>
    exact ⟨⟨e, rfl⟩, h.conduct.quiet (.note (e := .spawnFailed e) rfl w'.jsonl_output_failed)⟩
  | ok _ =>
    refine ⟨h.conduct.plain (e := .issued ⟨it, k⟩) rfl rfl rfl ?_ trivial, ?_, h.fixture, h.tally,
      fun hkept => (h.kept hkept).note (e := .issued ⟨it, k⟩) nofun rfl rfl,
      List.Subset.trans h.subset (List.subset_append_left _ _), fun t u s r hmem => ?_,
      fun t ht => ?_⟩
    -- A GET that is still running is one of this round's workers.
    · intro t' ht'
      refine (h.issued t' ht').imp_right fun hthread => ⟨Int.natCast_nonneg _, ?_⟩
      obtain ⟨u, hu⟩ := hthread
      rw [h.threads, List.mem_map] at hu
      obtain ⟨k', -, hk'⟩ := hu
      rw [← (Prod.mk.inj hk').1]
    · show w'.threads ++ [_] = _
      rw [h.threads, List.map_append]
      rfl
    · refine h.returned t u s r ((List.mem_append.mp hmem).resolve_right fun hnew => ?_)
      exact absurd (List.mem_singleton.mp hnew) (by simp)
    · rcases List.mem_append.mp ht with ht | hnew
      · refine (h.issued t ht).imp (fun hsettled => hsettled.mono (List.subset_append_left _ _)) ?_
        rintro ⟨u, hu⟩
        exact ⟨u, List.mem_append_left _ hu⟩
      · obtain rfl := Event.issued.inj (List.mem_singleton.mp hnew)
        exact .inr ⟨slotSetup o k, List.mem_append_right _ (List.mem_singleton_self _)⟩

/-- A worker is created for each slot of a round, or the experiment is left. -/
theorem spawnRound_spec (h : Ready (concurrentRules P o) w) :
    Ensures (spawnRound env o it) w (fun _ => Spawned P o it (List.range o.slots) w)
      (Left (concurrentRules P o)) := by
  refine Ensures.handle (E := fun s w' => s.Thrown ∧ Conduct (concurrentRules P o) w') ?_ ?_ ?_
  · refine Ensures.forM (I := fun done => Spawned P o it done w) ?_ fun _ _ _ _ _ h => spawn_spec h
    exact ⟨h.conduct, h.threads, rfl, rfl, id, fun _ h => h, fun _ _ _ _ h => h,
      fun t ht => .inl (h.settled t ht)⟩
  · rintro _ w₁ ⟨⟨e, rfl⟩, hc⟩ k hk
    obtain rfl := Option.some.inj hk
    refine Ensures.bind ((joinAll_spec (fun _ => trivial) hc).mono (fun _ _ h => h)
      fun _ _ h => h.elim) ?_
    rintro runs w₂ ⟨gs, hdone⟩
    exact returning_spec (retain_exit hdone.conduct (Rules.grounds_envError _ _) nofun)
  · rintro _ w₁ ⟨⟨e, rfl⟩, -⟩ hnone
    exact absurd hnone (by simp)

/-- The GETs of the workers that are joined are those of the round. -/
theorem JoinDone.roundRuns {w₁ w₂ : World} {gs : List (System × SdkReturn)}
    (h : JoinDone (concurrentRules P o) w₁ w₁.threads gs runs w₂)
    (hthreads : w₁.threads = (List.range o.slots).map fun k => (⟨it, k⟩, slotSetup o k)) :
    RoundRuns o w₂.log it runs := by
  have hlength : runs.length = o.slots := by
    rw [h.runs, List.length_map, ← h.length, hthreads, List.length_map, List.length_range]
  refine ⟨hlength, fun k get hget => ?_⟩
  have hk : k < o.slots := hlength ▸ (List.getElem?_eq_some_iff.mp hget).1
  have hthread : w₁.threads[k]? = some (⟨it, k⟩, slotSetup o k) := by
    rw [hthreads, List.getElem?_map, List.getElem?_range hk]
    rfl
  obtain ⟨s, r, hrun, hmem⟩ := h.of_thread hthread
  obtain rfl := Option.some.inj (hget.symm.trans hrun)
  exact ⟨s, hmem, rfl⟩

/-- A round that left a completion unknown has the grounds for the verdict that is chosen. -/
theorem grounds_unknownVerdict (hg : validateGeometry o o.slots = .ok g) (hit : it < o.iterations)
    {log : List Event} (href : References P o log ref) (hruns : RoundRuns o log it runs) :
    (concurrentRules P o).grounds (unknownVerdict o runs (roundMax (runs.map Prod.fst))) log := by
  intro hfail
  unfold unknownVerdict at hfail
  split_ifs at hfail with hobserved
  obtain ⟨hany, hmax⟩ := hobserved
  obtain ⟨get, hmem, hget⟩ := List.any_eq_true.mp hany
  obtain ⟨k, hk⟩ := List.mem_iff_getElem?.mp hmem
  obtain ⟨s, hreturned, hctx⟩ := hruns.returned k get hk
  simp only [observedFailure, Bool.and_eq_true, Bool.not_eq_true', Bool.or_eq_false_iff,
    decide_eq_true_eq] at hget
  obtain ⟨⟨⟨hevidence, hlocal⟩, hpresent⟩, hvalue⟩ := hget
  have hlt := slot_bytes_lt hg
  rw [signed64_eq (by omega)] at hvalue
  rw [hctx] at hevidence hlocal
  refine .inr ⟨ref, it, runs, ⟨href, hit, hruns, k, s, get.2, ?_, hreturned, hevidence, hlocal,
    .sdkReturn hpresent hvalue⟩, hmax⟩
  rw [hk, ← hctx]

/-- The records of a round are harmless. -/
theorem harmless_reportRound (runs : List Run) : Harmless (reportRound env runs) := by
  refine .bind (.forM (fun get => ?_) runs) fun _ => harmless_emit fun _ => rfl
  exact (harmless_emitAttempts _).bind fun _ => harmless_emit fun _ => rfl

/-- The GETs of a round: the round goes on when none of them is unknown. -/
theorem roundGets_spec (hg : validateGeometry o o.slots = .ok g) (hit : it < o.iterations)
    (h : Between P o ref it w) :
    Ensures (roundGets env o ref it) w
      (fun runs w' => InRound P o ref it runs w' ∧ w'.tally.failures = 0 ∧
        w'.tally.observer_failed = false)
      (Left (concurrentRules P o)) := by
  refine Ensures.modify_bind ?_
  have h₀ := h.ready.setTally { w.tally with local_in_round := false, observer_failed := false }
  refine harmless_alloc.andThen h₀.conduct (.refl _) fun _ w₁ h₁ => ?_
  refine Ensures.bind (poisonRound_spec (h₀.calm h₁)) ?_
  rintro _ w₂ ⟨h₂, hext₂, htally₂⟩
  refine Ensures.bind (spawnRound_spec h₂) fun _ w₃ hspawned => ?_
  refine Ensures.bind ((joinAll_spec (fun _ => trivial) hspawned.conduct).mono (fun _ _ h => h)
    fun _ _ h => h.elim) ?_
  rintro runs w₄ ⟨gs, hdone⟩
  -- Up to here no GET but those of the round has returned.
  have hext : Extends { w with tally := _ } w₂ := h₁.toExtends.trans hext₂
  have hsub₄ : w.log ⊆ w₄.log :=
    List.Subset.trans hext.subset (List.Subset.trans hspawned.subset hdone.subset)
  have hruns := hdone.roundRuns hspawned.threads
  have htally₄ : w₄.tally = { w.tally with local_in_round := false, observer_failed := false } := by
    rw [hdone.tally, hspawned.tally, htally₂, h₁.tally]
  refine harmless_alloc.andThen hdone.conduct (.refl w₄) fun _ w₅ h₅ => ?_
  refine Ensures.modify_bind ?_
  have hc₅ : Conduct (concurrentRules P o) { w₅ with tally := { w₅.tally with
      max_overlap := max w₅.tally.max_overlap (roundMax (runs.map Prod.fst)) } } :=
    (hdone.conduct.quiet h₅.toQuiet).congr rfl rfl
  refine (harmless_reportRound runs).andThen hc₅ (.refl _) fun _ w₆ h₆ => ?_
  have hext₆ : Extends w₄ w₆ := by
    obtain ⟨es, hlog, hes⟩ := h₆.toExtends
    exact h₅.toExtends.trans ⟨es, hlog, hes⟩
  have href₆ := h.references.mono (List.Subset.trans hsub₄ hext₆.subset)
  have hruns₆ := hruns.mono hext₆.subset
  refine Ensures.ite (fun _ => ?_) fun hknown => ?_
  · refine Ensures.bind (Q := fun _ _ => False) ?_ fun _ _ h => h.elim
    have hgrounds := grounds_unknownVerdict hg hit href₆ hruns₆
    refine returning_spec ((catchAll_fallback_spec (retain_spec (hc₅.quiet h₆.toQuiet) hgrounds ?_)
      fun c w' hc hne => ⟨hc, hne⟩).mono (fun _ _ h => h) fun _ _ h => h.elim)
    unfold unknownVerdict
    split_ifs <;> exact nofun
  have hunknown : ∀ get ∈ runs, Run.unknown get = false := by
    simpa using hknown
  have hready₄ : Ready (concurrentRules P o) w₄ := by
    refine ⟨hdone.conduct, hdone.allSettled hspawned.issued hunknown, ?_, hdone.threads, ?_⟩
    · rw [hdone.fixture, hspawned.fixture, h₂.fixture]
    · exact hdone.kept (hspawned.kept h₂.kept)
  have hready₆ := ((hready₄.calm h₅).setTally _).calm h₆
  have hmax : w₆.tally.max_overlap = max w.tally.max_overlap (roundMax (runs.map Prod.fst)) := by
    rw [h₆.tally]
    show max w₅.tally.max_overlap _ = _
    rw [h₅.tally, htally₄]
  refine Ensures.pure ⟨⟨hready₆, href₆, hruns₆, hunknown, fun it' hit' k hk => ?_,
    fun it' k u s r hmem => ?_, fun hlt => ?_⟩, ?_, ?_⟩
  · obtain ⟨s, r, hmem⟩ := h.rounds.returned it' hit' k hk
    exact ⟨s, r, hext₆.subset (hsub₄ hmem)⟩
  · rcases hdone.of_returned (hext₆.mem_of_isGet rfl hmem) with hbefore | ⟨i, hthread, hrun⟩
    · left
      have hw := hext.mem_of_isGet rfl (hspawned.returned _ _ _ _ hbefore)
      exact (h.rounds.good it' k u s r hw).mono (List.Subset.trans hsub₄ hext₆.subset)
    · right
      rw [hspawned.threads, List.getElem?_map, Option.map_eq_some_iff] at hthread
      obtain ⟨k', hk', htag⟩ := hthread
      obtain ⟨hlt, rfl⟩ := List.getElem?_eq_some_iff.mp hk'
      simp only [List.getElem_range, Prod.mk.injEq, GetTag.mk.injEq, Nat.cast_inj] at htag
      obtain ⟨⟨rfl, rfl⟩, -⟩ := htag
      exact ⟨rfl, hrun⟩
  · rw [hmax] at hlt
    rcases le_max_iff.mp hlt with hold | hnew
    · obtain ⟨it', hit', hoverlap⟩ := h.overlap hold
      exact ⟨it', by omega, hoverlap.mono (List.Subset.trans hsub₄ hext₆.subset)⟩
    · exact ⟨it, by omega, runs, hruns₆, hnew⟩
  · rw [h₆.tally]
    show w₅.tally.failures = 0
    rw [h₅.tally, htally₄]
    exact h.failures
  · rw [h₆.tally]
    show w₅.tally.observer_failed = false
    rw [h₅.tally, htally₄]

end Gets

/-! ## The two passes -/

section Passes

attribute [local irreducible] signed64

variable {P : Platform} {env : Env P} {o : Options} {g : Geometry} {ref : List Bytes} {it : ℕ}
  {runs : List Run} {w w' : World}

/-- The GET has failed as far as it can be seen without its landing, and not because of the
probe. -/
def nativeFail (o : Options) (get : Run) : Bool := !(get.1.local_failure || nativeOk o get)

/-- A fault of a slot of the round, with its GET. -/
theorem InRound.faulty (h : InRound P o ref it runs w) (hit : it < o.iterations) {k : ℕ} {get : Run}
    (hk : runs[k]? = some get) (hlocal : get.1.local_failure = false)
    (hfault : ∀ s r, get = (s.ctx, r) → Fault P o w.log ref it k s r) :
    FaultyRound P o w.log ref it runs := by
  obtain ⟨s, hmem, hctx⟩ := h.gets.returned k get hk
  obtain ⟨x, r⟩ := get
  obtain rfl : x = s.ctx := hctx
  have hknown := h.known _ (List.mem_of_getElem? hk)
  simp only [Run.unknown, Bool.or_eq_false_iff] at hknown
  exact ⟨h.references, hit, h.gets, k, s, r, hk, hmem, hknown.1.1.2, hlocal, hfault s r rfl⟩

/-- The SDK call of a GET that is known has returned. -/
theorem InRound.present (h : InRound P o ref it runs w) {get : Run} (hget : get ∈ runs) :
    get.2.present = true := by
  have hknown := h.known get hget
  simp only [Run.unknown, Bool.or_eq_false_iff, Bool.not_eq_false'] at hknown
  exact hknown.1.2

/-- The first pass counts the GETs that failed as far as it can be seen without their landings. -/
theorem passOne_spec (h : InRound P o ref it runs w) (hzero : w.tally.failures = 0) :
    Ensures (passOne env o runs) w
      (fun native_fail w' => InRound P o ref it runs w' ∧ native_fail = runs.map (nativeFail o) ∧
        (w'.tally.failures = 0 ↔ ∀ get ∈ runs, nativeFail o get = false) ∧
        w'.tally.observer_failed = w.tally.observer_failed) fun _ _ => False := by
  -- The failure count is 0 exactly while no slot that was gone through has failed.
  refine Ensures.foldlM (I := fun done native_fail w' => InRound P o ref it runs w' ∧
    native_fail = done.map (nativeFail o) ∧
    (w'.tally.failures = 0 ↔ ∀ get ∈ done, nativeFail o get = false) ∧
    w'.tally.observer_failed = w.tally.observer_failed) ⟨h, rfl, by simpa using hzero, rfl⟩ ?_
  rintro done get rest native_fail w₁ - ⟨h₁, rfl, hfailures, hobserver⟩
  refine Ensures.ite (fun hok => ?_) fun hok => ?_
  · have hget : nativeFail o get = false := by simp [nativeFail, hok]
    refine Ensures.pure ⟨h₁, by simp [hget], ?_, hobserver⟩
    rw [hfailures, List.forall_mem_append, List.forall_mem_singleton]
    exact ⟨fun hall => ⟨hall, hget⟩, And.left⟩
  · have hget : nativeFail o get = true := by simpa [nativeFail] using hok
    refine Ensures.modify_bind ?_
    refine Ensures.bind (report_spec (harmless_emit fun _ => rfl) _) fun _ w₂ hcalm => ?_
    refine Ensures.pure ⟨?_, by simp [hget], ?_, ?_⟩
    · refine h₁.of_extends ((h₁.ready.setTally _).calm hcalm) hcalm.toExtends ?_
      rw [hcalm.tally]
    · rw [hcalm.tally]
      refine ⟨nofun, fun hall => ?_⟩
      have hnot := hall get (List.mem_append_right _ (List.mem_singleton_self get))
      exact absurd (hnot.symm.trans hget) Bool.false_ne_true
    · rw [hcalm.tally]
      exact hobserver

/-- What holds in the second pass, with the slots that it has gone through. -/
structure Passing (P : Platform) (o : Options) (ref : List Bytes) (it : ℕ) (runs : List Run)
    (done : List ((Run × Bool) × ℕ)) (w : World) : Prop where
  inRound : InRound P o ref it runs w
  observed : w.tally.observer_failed = false
  faulty : w.tally.failures ≠ 0 → FaultyRound P o w.log ref it runs
  native : w.tally.failures = 0 → ∀ get ∈ runs, nativeFail o get = false
  noted : w.tally.failures = 0 → ∀ x ∈ done, x.1.1.1.local_failure = true →
    w.tally.local_in_round = true
  good : w.tally.failures = 0 → ∀ x ∈ done, x.1.1.1.local_failure = false →
    ∀ s r, x.1.1 = (s.ctx, r) → SlotGood P o w.log ref it x.2 s r

/-- The second pass was left by an exception. -/
def PassLeft (P : Platform) (o : Options) (ref : List Bytes) (it : ℕ) (runs : List Run) (s : Stop)
    (w : World) : Prop :=
  s.Thrown ∧ Conduct (concurrentRules P o) w ∧
    (w.tally.failures ≠ 0 → FaultyRound P o w.log ref it runs)

section Passing

variable {done : List ((Run × Bool) × ℕ)} {get : Run} {k : ℕ}

/-- No GET has taken place and nothing was counted. -/
theorem Passing.of_extends (h : Passing P o ref it runs done w)
    (hready : Ready (concurrentRules P o) w') (hext : Extends w w') (htally : w'.tally = w.tally) :
    Passing P o ref it runs done w' where
  inRound := h.inRound.of_extends hready hext (by rw [htally])
  observed := by rw [htally]; exact h.observed
  faulty hne := (h.faulty (htally ▸ hne)).mono hext.subset
  native hzero := h.native (htally ▸ hzero)
  noted hzero y hy hlocal := by rw [htally]; exact h.noted (htally ▸ hzero) y hy hlocal
  good hzero y hy hlocal s r heq := (h.good (htally ▸ hzero) y hy hlocal s r heq).mono hext.subset

/-- The record of a slot keeps what holds in the second pass. -/
theorem Passing.emit (h : Passing P o ref it runs done w) :
    Ensures (emit env .slot) w (fun _ => Passing P o ref it runs done) (PassLeft P o ref it runs) := by
  refine (harmless_emit (fun _ => rfl) w).mono (fun _ w' hcalm => ?_) fun s w' hq => ?_
  · exact h.of_extends (h.inRound.ready.calm hcalm) hcalm.toExtends hcalm.tally
  · refine ⟨hq.1, h.inRound.ready.conduct.quiet hq.2, fun hne => ?_⟩
    exact (h.faulty (hq.2.tally ▸ hne)).mono hq.2.toExtends.subset

/-- The second pass goes through one more slot. -/
theorem passTwoSlot_spec (hg : validateGeometry o o.slots = .ok g) (hit : it < o.iterations)
    (h : Passing P o ref it runs done w) (hrun : runs[k]? = some get) :
    Ensures (passTwoSlot env o ref it k get (nativeFail o get)) w
      (fun _ => Passing P o ref it runs (done ++ [((get, nativeFail o get), k)]))
      (PassLeft P o ref it runs) := by
  refine Ensures.ite (fun hlocal => ?_) fun hlocal => ?_
  · -- A failure of the probe's own is noted, and not counted.
    refine Ensures.modify_bind (Passing.emit ?_)
    refine ⟨h.inRound.of_extends (h.inRound.ready.setTally _) ⟨[], by simp, by simp⟩ rfl, h.observed,
      h.faulty, h.native, fun _ _ _ _ => rfl, fun hzero y hy hy' => ?_⟩
    rcases List.mem_append.mp hy with hy | hy
    · exact h.good hzero y hy hy'
    · obtain rfl := List.mem_singleton.mp hy
      exact absurd (hy'.symm.trans hlocal) Bool.false_ne_true
  rw [Bool.not_eq_true] at hlocal
  refine Ensures.bind ((slotOk_spec h.inRound.ready).mono (fun _ _ h => h) fun s w' h' => ?_) ?_
  · obtain ⟨hthrown, hready, htally, hext⟩ := h'
    have h₁ := h.of_extends hready hext htally
    exact ⟨hthrown, hready.conduct, h₁.faulty⟩
  rintro ⟨ok, d, outside⟩ w₁ ⟨hready, htally, hext, hok, hlanding⟩
  obtain rfl : ok = (nativeOk o get && outside) := hok
  have h₁ := h.of_extends hready hext htally
  have hk : k < ref.length := by
    rw [h₁.inRound.references.length, ← h₁.inRound.gets.length]
    exact (List.getElem?_eq_some_iff.mp hrun).1
  have href : ref.getD k [] = d ↔ ref[k]? = some d := by
    rw [List.getD_eq_getElem?_getD, List.getElem?_eq_getElem hk]
    simp
  refine Ensures.ite (fun hbad => ?_) fun hgood => ?_
  · -- The landing is not as it should be: the slot is counted.
    simp only [Bool.and_eq_true, Bool.not_eq_true', Bool.and_eq_false_iff] at hbad
    have hok : nativeOk o get = true := by
      have := hbad.2
      simpa [nativeFail, hlocal] using this
    have hfaulty : FaultyRound P o w₁.log ref it runs := by
      refine h₁.inRound.faulty hit hrun hlocal fun s r heq => .of_landing hg hlanding ?_
      rcases hbad.1 with (hnot | hout) | hd
      · exact absurd (hnot.symm.trans hok) Bool.false_ne_true
      · exact .inl hout
      · exact .inr fun hsome => of_decide_eq_false hd (href.mpr hsome).symm
    refine Ensures.modify_bind (Passing.emit ?_)
    exact ⟨h₁.inRound.of_extends (h₁.inRound.ready.setTally _) ⟨[], by simp, by simp⟩ rfl,
      h₁.observed, fun _ => hfaulty, nofun, nofun, nofun⟩
  · refine Passing.emit ⟨h₁.inRound, h₁.observed, h₁.faulty, h₁.native, fun hzero y hy hy' => ?_,
      fun hzero y hy hy' s r heq => ?_⟩
    · rcases List.mem_append.mp hy with hy | hy
      · exact h₁.noted hzero y hy hy'
      · obtain rfl := List.mem_singleton.mp hy
        exact absurd (hlocal.symm.trans hy') Bool.false_ne_true
    · rcases List.mem_append.mp hy with hy | hy
      · exact h₁.good hzero y hy hy' s r heq
      obtain rfl := List.mem_singleton.mp hy
      -- Nothing was counted, so the GET is good without its landing, and the landing is good.
      have hnf := h₁.native hzero get (List.mem_of_getElem? hrun)
      have hok : nativeOk o get = true := by simpa [nativeFail, hlocal] using hnf
      rw [hnf] at hgood
      simp only [hok, Bool.true_and, Bool.not_false, Bool.and_true, Bool.not_eq_true',
        Bool.not_eq_false, Bool.and_eq_true, decide_eq_true_eq] at hgood
      obtain ⟨rfl, hd⟩ := hgood
      obtain rfl : get = (s.ctx, r) := heq
      have hknown := h₁.inRound.known _ (List.mem_of_getElem? hrun)
      simp only [Run.unknown, Bool.or_eq_false_iff] at hknown
      exact .of_landing hg hok hknown.1.1.2 hlanding (href.mp hd.symm)

/-- The slots of the second pass are those of the round. -/
theorem mem_passTwo {x : (Run × Bool) × ℕ} :
    x ∈ (runs.zip (runs.map (nativeFail o))).zipIdx ↔
      runs[x.2]? = some x.1.1 ∧ x.1.2 = nativeFail o x.1.1 := by
  rw [List.mem_zipIdx_iff_getElem?, ← List.map_prod_left_eq_zip, List.getElem?_map,
    Option.map_eq_some_iff]
  constructor
  · rintro ⟨get, hget, hx⟩
    rw [← hx]
    exact ⟨hget, rfl⟩
  · rintro ⟨hget, hx⟩
    exact ⟨x.1.1, hget, Prod.ext rfl hx.symm⟩

end Passing

/-- What is known after the two passes. If failures were counted, the round is faulty; if none were
and the landings could be observed, then all slots are good but those at which the probe has
failed. -/
structure Judged (P : Platform) (o : Options) (ref : List Bytes) (it : ℕ) (runs : List Run)
    (w : World) : Prop where
  conduct : Conduct (concurrentRules P o) w
  faulty : w.tally.failures ≠ 0 → FaultyRound P o w.log ref it runs
  observed : w.tally.failures = 0 → w.tally.observer_failed = false → InRound P o ref it runs w
  good : w.tally.failures = 0 → w.tally.observer_failed = false → w.tally.local_in_round = false →
    ∀ (k : ℕ) (s : System) (r : SdkReturn), runs[k]? = some (s.ctx, r) →
      SlotGood P o w.log ref it k s r

/-- The second pass judges the round. -/
theorem passTwo_spec (hg : validateGeometry o o.slots = .ok g) (hit : it < o.iterations)
    (h : Passing P o ref it runs [] w) :
    Ensures (passTwo env o ref it runs (runs.map (nativeFail o))) w
      (fun _ => Judged P o ref it runs) fun _ _ => False := by
  refine Ensures.handle (E := PassLeft P o ref it runs) ?_ ?_ ?_
  -- The loop over the slots; when it ends, every slot without a local fault is good.
  · refine (Ensures.forM (I := fun done => Passing P o ref it runs done) h ?_).mono
      (fun _ w' h => ⟨h.inRound.ready.conduct, h.faulty, fun _ _ => h.inRound, ?_⟩) fun _ _ h => h
    · rintro done ⟨⟨get, native_fail⟩, k⟩ rest w₁ hlist h₁
      have hmem : ((get, native_fail), k) ∈ (runs.zip (runs.map (nativeFail o))).zipIdx := by
        rw [hlist]
        exact List.mem_append_right _ List.mem_cons_self
      obtain ⟨hget, hnative⟩ := mem_passTwo.mp hmem
      obtain rfl : native_fail = nativeFail o get := hnative
      exact passTwoSlot_spec hg hit h₁ hget
    · intro hzero _ hnone k s r hrun
      have hmem : (((s.ctx, r), nativeFail o (s.ctx, r)), k) ∈
          (runs.zip (runs.map (nativeFail o))).zipIdx := mem_passTwo.mpr ⟨hrun, rfl⟩
      refine h.good hzero _ hmem (Bool.eq_false_iff.mpr fun hlocal => ?_) s r rfl
      exact Bool.false_ne_true (hnone.symm.trans (h.noted hzero _ hmem hlocal))
  -- An exception is caught here and makes the observer fail, whatever it was.
  · rintro (c | (what | _)) w₁ ⟨-, hc, hfaulty⟩ k hk
    · exact absurd hk (by simp)
    · obtain rfl := Option.some.inj hk
      refine Ensures.modify_bind ?_
      refine (report_spec (harmless_emit fun _ => rfl) _).mono (fun _ w₂ hcalm => ?_) fun _ _ h => h
      have hc₁ : Conduct (concurrentRules P o) { w₁ with tally := { w₁.tally with
        observer_failed := true } } := hc.congr rfl rfl
      have hobserver : w₂.tally.observer_failed = true := by rw [hcalm.tally]
      refine ⟨hc₁.quiet hcalm.toQuiet, fun hne => ?_, fun _ hnot => ?_, fun _ hnot => ?_⟩
      · rw [hcalm.tally] at hne
        exact (hfaulty hne).mono hcalm.toExtends.subset
      · exact absurd (hnot.symm.trans hobserver) Bool.false_ne_true
      · exact absurd (hnot.symm.trans hobserver) Bool.false_ne_true
    · obtain rfl := Option.some.inj hk
      exact ⟨hc.congr rfl rfl, hfaulty, fun _ h => absurd h Bool.false_ne_true.symm,
        fun _ h => absurd h Bool.false_ne_true.symm⟩
  · rintro (c | (what | _)) w₁ ⟨⟨e, he⟩, -⟩ hnone
    · exact absurd he (by simp)
    · exact absurd hnone (by simp)
    · exact absurd hnone (by simp)

end Passes

/-! ## The rounds and the verdict -/

section Rounds

attribute [local irreducible] signed64

variable {P : Platform} {env : Env P} {o : Options} {g : Geometry} {ref : List Bytes} {it : ℕ}
  {w w' : World}

/-- A round has failed, and the rounds were left. -/
structure Failed (P : Platform) (o : Options) (w : World) : Prop where
  conduct : Conduct (concurrentRules P o) w
  failures : w.tally.failures ≠ 0
  fail : 2 ≤ w.tally.failing_round_overlap → FailGrounds P o w.log

/-- A round is good, or has failed, or leaves the experiment. -/
theorem round_spec (hg : validateGeometry o o.slots = .ok g) (hit : it < o.iterations)
    (h : Between P o ref it w) :
    Ensures (round env o ref it) w
      (fun _ w' => Between P o ref (it + 1) w' ∨ Failed P o w') (Left (concurrentRules P o)) := by
  refine Ensures.bind (roundGets_spec hg hit h) ?_
  rintro runs w₁ ⟨h₁, hzero₁, hobserver₁⟩
  -- The two passes over the round, the first one on the native results alone.
  refine harmless_alloc.andThen h₁.ready.conduct (.refl w₁) fun _ w₂ hcalm => ?_
  have h₂ : InRound P o ref it runs w₂ :=
    h₁.of_extends (h₁.ready.calm hcalm) hcalm.toExtends (by rw [hcalm.tally])
  rw [← hcalm.tally] at hzero₁ hobserver₁
  refine Ensures.bind ((passOne_spec h₂ hzero₁).mono (fun _ _ h => h) fun _ _ h => h.elim) ?_
  rintro _ w₃ ⟨h₃, rfl, hnative, hobserver₃⟩
  have hpassing : Passing P o ref it runs [] w₃ := by
    refine ⟨h₃, hobserver₃.trans hobserver₁, fun hne => ?_, hnative.mp,
      fun _ _ hx => absurd hx List.not_mem_nil, fun _ _ hx => absurd hx List.not_mem_nil⟩
    have hsome := mt hnative.mpr hne
    push Not at hsome
    obtain ⟨get, hmem, hget⟩ := hsome
    obtain ⟨k, hk⟩ := List.mem_iff_getElem?.mp hmem
    simp only [nativeFail, ne_eq, Bool.not_eq_false', Bool.not_eq_true, Bool.or_eq_false_iff] at hget
    refine h₃.faulty hit hk hget.1 fun s r heq => ?_
    subst heq
    exact .of_nativeOk hg hget.2 (h₃.present hmem)
  refine Ensures.bind ((passTwo_spec hg hit hpassing).mono (fun _ _ h => h) fun _ _ h => h.elim) ?_
  intro _ w₄ hjudged
  -- The verdict on the round: faults first, then a failed observer, then a local fault.
  refine Ensures.get_bind ?_
  refine Ensures.ite (fun hne => ?_) fun hzero => ?_
  · refine Or.inr ⟨hjudged.conduct.congr rfl rfl, hne, fun hmax => ?_⟩
    exact .inr ⟨ref, it, runs, hjudged.faulty hne, hmax⟩
  rw [not_not] at hzero
  refine Ensures.ite (fun _ => ?_) fun hobserver => ?_
  · exact returning_spec (retain_exit hjudged.conduct (Rules.grounds_envError _ _) nofun)
  rw [Bool.not_eq_true] at hobserver
  have h₄ := hjudged.observed hzero hobserver
  refine Ensures.ite (fun _ => ?_) fun hlocal => ?_
  · refine (harmless_emit fun _ => rfl).andThen h₄.ready.conduct (.refl w₄) fun _ w₅ hcalm₅ => ?_
    have hready₅ := h₄.ready.calm hcalm₅
    exact returning_spec (releaseOrRetain_spec hready₅.conduct hready₅.settled
      (Rules.grounds_envError _ _) nofun)
  rw [Bool.not_eq_true] at hlocal
  -- A good round: its slots join those of the rounds before it.
  have hgood := hjudged.good hzero hobserver hlocal
  refine Ensures.pure (.inl ⟨h₄.ready, h₄.references, ⟨fun it' hit' k hk => ?_, ?_⟩, h₄.overlap, hzero⟩)
  · rcases Nat.lt_succ_iff_lt_or_eq.mp hit' with hlt | rfl
    · exact h₄.before it' hlt k hk
    · rw [← h₄.gets.length] at hk
      obtain ⟨s, hmem, -⟩ := h₄.gets.returned k runs[k] (List.getElem?_eq_getElem hk)
      exact ⟨s, _, hmem⟩
  · intro it' k u s r hmem
    rcases h₄.good it' k u s r hmem with hslot | ⟨rfl, hrun⟩
    · exact hslot
    · exact hgood k s r hrun

/-- The rounds: all are good, or one has failed. -/
theorem rounds_spec (hg : validateGeometry o o.slots = .ok g) {n : ℕ}
    (hit : it + n = o.iterations) (h : Between P o ref it w) :
    Ensures (rounds env o ref n it) w
      (fun _ w' => Between P o ref o.iterations w' ∨ Failed P o w')
      (Left (concurrentRules P o)) := by
  induction n generalizing it w with
  | zero =>
    obtain rfl : it = o.iterations := by omega
    exact Ensures.pure (.inl h)
  | succ n ih =>
    refine Ensures.bind (round_spec hg (by omega) h) fun _ w₁ h₁ => ?_
    refine Ensures.get_bind (Ensures.ite (fun hzero => ?_) fun hne => ?_)
    · exact ih (by omega) (h₁.resolve_right fun hfailed => hfailed.failures hzero)
    · exact Ensures.pure (.inr (h₁.resolve_left fun hbetween => hne hbetween.failures))

/-- The end of the experiment: the conduct is kept, and for the exit status `0` all was good. -/
theorem conclude_spec
    (hnodup : ref.Nodup) (hpoison : ∀ (k : ℕ) (d : Bytes), ref[k]? = some d →
      d ≠ payloadPoisonDigest P (slotCell o k) o.slot_bytes 1)
    (h : Between P o ref o.iterations w ∨ Failed P o w) :
    Ensures (conclude env) w
      (fun c w' => Conduct (concurrentRules P o) w' ∧ (c = 0 → PassFacts P o w'.log))
      fun _ _ => False := by
  have hc : Conduct (concurrentRules P o) w := h.elim (fun h => h.ready.conduct) Failed.conduct
  -- Where the graph is kept, the exit status is not `0`.
  have hkeep : ∀ {w₁ v d}, Conduct (concurrentRules P o) w₁ →
      (concurrentRules P o).grounds v w₁.log → v ≠ .pass →
      Ensures (catchAll (retain env v d) (terminalFallback v)) w₁
        (fun c w' => Conduct (concurrentRules P o) w' ∧ (c = 0 → PassFacts P o w'.log))
        fun _ _ => False := fun hc₁ hv hpass =>
    catchAll_fallback_spec ((retain_spec hc₁ hv hpass).mono
      (fun _ _ h => ⟨h.1, fun hzero => absurd hzero h.2⟩) fun _ _ h => h)
      fun _ _ hc hne => ⟨hc, fun hzero => absurd hzero hne⟩
  refine Ensures.get_bind ?_
  refine Ensures.bind (report_spec (harmless_emit fun _ => rfl) w) fun _ w₁ hcalm => ?_
  have hc₁ := hc.quiet hcalm.toQuiet
  refine Ensures.ite (fun hne => ?_) fun hzero => ?_
  · have hfailed := h.resolve_left fun hbetween => hne hbetween.failures
    have hverdict : finalVerdict w.tally =
        if 2 ≤ w.tally.failing_round_overlap then .fail else .inconclusive := if_pos hne
    rw [hverdict]
    refine hkeep hc₁ (fun hfail => (hfailed.fail ?_).mono hcalm.toExtends.subset) ?_
    · by_contra hlt
      rw [if_neg hlt] at hfail
      exact absurd hfail (by simp)
    · split_ifs <;> exact nofun
  have hbetween := h.resolve_right fun hfailed => hzero hfailed.failures
  have hready₁ := hbetween.ready.calm hcalm
  refine Ensures.bind (release_spec hready₁.conduct hready₁.settled) fun released w₂ hdone => ?_
  refine Ensures.ite (fun hreleased => ?_) fun hreleased => ?_
  · have hverdict : finalVerdict w.tally =
        if w.tally.max_overlap < 2 then .inconclusive else .pass := if_neg hzero
    refine catchAll_fallback_spec ((finish_spec hdone.conduct (grounds_of_ne_fail ?_)).mono
      (fun c w₃ h₃ => ⟨h₃.1, fun hexit => ?_⟩) fun _ _ h => h)
      fun _ _ hc hne => ⟨hc, fun hexit => absurd hexit hne⟩
    · rw [hverdict]
      split_ifs <;> exact nofun
    · obtain ⟨hpass, hnone⟩ := h₃.2.2 hexit
      have hext : Extends w w₃ := (hcalm.toExtends.trans hdone.log).trans h₃.2.1
      have hoverlap : 2 ≤ w.tally.max_overlap := by
        by_contra hlt
        rw [hverdict, if_pos (by omega)] at hpass
        exact absurd hpass (by simp)
      obtain ⟨it, hit, hit'⟩ := hbetween.overlap hoverlap
      refine ⟨hnone (hdone.kept hready₁.kept), h₃.2.1.subset (hdone.ok hreleased ?_),
        ⟨it, hit, hit'.mono hext.subset⟩, ref, hbetween.references.mono hext.subset, hnodup, hpoison,
        hbetween.rounds.of_extends hext⟩
      rw [hready₁.fixture]
  · refine hkeep hdone.conduct (fun _ => ?_) nofun
    have hfailed := hdone.failed (Bool.eq_false_iff.mpr hreleased)
    rw [hready₁.fixture] at hfailed
    simp only [Bool.false_eq_true, false_or] at hfailed
    exact .inl hfailed

/-- The experiment while its fixture lives. -/
theorem concurrentBody_spec (hg : validateGeometry o o.slots = .ok g)
    (hc : Conduct (concurrentRules P o) w) (hfixture : w.fixture = {}) (hthreads : w.threads = [])
    (hkept : Kept w) (hnone : NoGets w.log) :
    Ensures (concurrentBody env o) w
      (fun c w' => Conduct (concurrentRules P o) w' ∧ (c = 0 → PassFacts P o w'.log))
      (Left (concurrentRules P o)) := by
  refine Ensures.bind (registration_spec hc hnone.allSettled hfixture hthreads hkept) ?_
  rintro _ w₁ ⟨h₁, hext₁, -⟩
  refine Ensures.bind (capacities_spec h₁) fun _ w₂ h₂ => ?_
  refine Ensures.bind (referencePass_spec (h₁.calm h₂)
    (hnone.of_extends (hext₁.trans h₂.toExtends))) ?_
  rintro ref w₃ ⟨href, hlength⟩
  refine Ensures.ite (fun _ => ?_) fun hequal => ?_
  · refine Ensures.bind (Q := fun _ _ => False) ?_ fun _ _ h => h.elim
    exact returning_spec (releaseOrRetain_spec href.ready.conduct href.ready.settled
      (Rules.grounds_inconclusive _ _) nofun)
  refine Ensures.modify_bind ?_
  -- Before round 0 no GET of a round was issued, so the invariant is about the references.
  have hbetween : Between P o ref 0 { w₃ with tally := {} } := by
    refine ⟨href.ready.setTally _, ⟨hlength, fun k d hd => (href.read k d hd).1⟩,
      ⟨fun _ h => absurd h (Nat.not_lt_zero _), fun it k u s r hmem => ?_⟩, fun h => ?_, rfl⟩
    · exact absurd hmem (href.none it k u s r)
    · exact absurd h (show ¬ (2 : ℤ) ≤ 0 by decide)
  refine Ensures.bind (rounds_spec hg (Nat.zero_add _) hbetween) fun _ w₄ h₄ => ?_
  refine (conclude_spec (nodup_of_equalPair (Bool.eq_false_iff.mpr hequal))
    (fun k d hd => (href.read k d hd).2) h₄).mono (fun _ _ h => h) fun _ _ h => h.elim

/-- Nothing is lost by the destructor of the fixture. -/
theorem PassFacts.destruct (h : PassFacts P o w.log) : PassFacts P o w.destruct.log := by
  unfold World.destruct World.retainNow
  split_ifs
  · exact h
  · exact h
  · have hext : Extends w ({ w with fixture := { w.fixture with retained := true } }.note .retained) :=
      .note rfl rfl
    obtain ⟨it, hit, hoverlap⟩ := h.overlap
    obtain ⟨ref, href, hnodup, hpoison, hrounds⟩ := h.rounds
    refine ⟨fun r x hmem => ?_, hext.subset h.deregistered, ⟨it, hit, hoverlap.mono hext.subset⟩, ref,
      href.mono hext.subset, hnodup, hpoison, hrounds.of_extends hext⟩
    refine h.none_lost r x ((List.mem_append.mp hmem).resolve_right fun hnew => ?_)
    exact absurd (List.mem_singleton.mp hnew) (by simp)

/-- However the experiment ends, the conduct was kept, and for the exit status `0` all was good. -/
theorem expConcurrent_conduct (env : Env P) (o : Options) (failed : Bool) :
    Ensures (expConcurrent env o) (.start failed)
      (fun c w => Conduct (concurrentRules P o) w ∧ (c = 0 → PassFacts P o w.log))
      fun _ w => Conduct (concurrentRules P o) w := by
  have hc : Conduct (concurrentRules P o) (.start failed) := conduct_start trivial failed
  refine Ensures.mono (E := Left (concurrentRules P o)) ?_ (fun _ _ h => h) fun _ _ h => h.1
  refine function_spec ?_ fun c w h => ⟨h.1, fun hzero => absurd (congrArg Stop.returned hzero) h.2⟩
  cases hg : validateGeometry o o.slots with
  | error why =>
    exact (finish_exit hc (Rules.grounds_envError _ _) nofun).mono
      (fun _ _ h => ⟨h.1, fun hzero => absurd hzero h.2⟩) fun s w' h => h.2.left h.1
  | ok g =>
    refine Ensures.ite (fun _ => ?_) fun _ => ?_
    · refine Ensures.bind (Q := fun _ _ => False) ?_ fun _ _ h => h.elim
      exact returning_spec (finish_exit hc (Rules.grounds_envError _ _) nofun)
    refine Ensures.bind (qualifyVisibility_spec hc) fun _ w₁ h₁ => ?_
    refine withFixture_spec (hc.quiet h₁.toQuiet) h₁.fixture fun w₂ h₂ => ?_
    have hcalm := h₁.trans h₂
    refine (concurrentBody_spec hg (hc.quiet hcalm.toQuiet) hcalm.fixture hcalm.threads
      (hcalm.kept ?_) (NoGets.nil.of_extends hcalm.toExtends)).mono ?_ fun _ _ h => h
    · exact fun _ _ _ hmem => absurd hmem List.not_mem_nil
    · exact fun c w h => ⟨h.1.destruct, fun hzero => (h.2 hzero).destruct⟩

/-- Soundness of the verdict of `exp_concurrent`. If it returns the exit status `0`, no record was
lost, the reference digests are distinct and not those of the poison, every GET of every round was
as it should be, some round had an overlap, and the deregistration returned `0`. If its verdict is
FAIL, the deregistration has failed, or in a round with an overlap a slot has shown a fault that is
not the probe's own. -/
theorem expConcurrent_verdict (env : Env P) (o : Options) (failed : Bool) :
    Ensures (expConcurrent env o) (.start failed)
      (fun c w => (c = 0 → PassFacts P o w.log) ∧ (GaveFail w.log → FailGrounds P o w.log))
      fun _ w => GaveFail w.log → FailGrounds P o w.log := by
  have hfail : ∀ w, Conduct (concurrentRules P o) w → GaveFail w.log → FailGrounds P o w.log := by
    rintro w hc (⟨d, f, x, hmem⟩ | hmem)
    · exact hc.verdicts .fail d f x hmem rfl
    · exact hc.fallbacks .fail hmem rfl
  exact (expConcurrent_conduct env o failed).mono (fun c w h => ⟨h.2, hfail w h.1⟩) fun _ => hfail

/-- No read, reuse or release of memory that may still be written: in every run of either
experiment, whatever the environment does, every event was allowed when it happened. -/
theorem experiments_safe (env : Env P) (o : Options) (guard failed : Bool) :
    Ensures (expSingleGet env o guard) (.start failed) (fun _ w => Safe w.log)
        (fun _ w => Safe w.log) ∧
      Ensures (expConcurrent env o) (.start failed) (fun _ w => Safe w.log) fun _ w => Safe w.log :=
  ⟨(expSingleGet_conduct env o guard failed).mono (fun _ _ h => h.safe) fun _ _ h => h.safe,
    (expConcurrent_conduct env o failed).mono (fun _ _ h => h.1.safe) fun _ _ h => h.safe⟩

end Rounds

/-! ### A run with the exit status `0` -/

section Pair

/-- A platform whose digest of a landing is the landing. -/
def plainPlatform : Platform where
  hmac _ _ := []
  sha256 b := b
  gmtime _ := .midnight 1970 0 1

/-- One round with two slots of five bytes. -/
def pairOptions : Options where
  exp := ascii "c"
  host := ascii "h"
  bucket := ascii "b"
  object := ascii "o"
  mode := .host
  slot_bytes := 5
  guard := 1
  slots := 2
  iterations := 1
  proto := { token_encoding := .verbatim }

/-- The callback is called once and gets the receipt, and returns at a later time. -/
def deliverSteps : List (ℤ × Action) :=
  (0, .enter 0 (some (ascii "7f0a")) 5 0) :: goOn 0 2 ++ [(0, .move 0 (.build 0))] ++ goOn 0 2 ++
    [(0, .move 0 .accept), (0, .move 0 (.reply fiveBytesNet))] ++
    List.replicate 11 (1, .move 0 .next)

/-- The GET in which the callback is called once and gets the receipt. -/
def deliverGet (P : Platform) (u : RigSetup) : Get P u :=
  match h : runSteps (step P u) deliverSteps (.initial 0) with
  | some s =>
    if hquiet : ∀ c ∈ s.calls, c.done = true then ⟨s, ⟨0, deliverSteps, h⟩, hquiet, some 5⟩
    else (nullEnv P).get [] u
  | none => (nullEnv P).get [] u

/-- The event is a poisoning. -/
def Event.isPoisoned : Event → Bool
  | .poisoned _ _ => true
  | _ => false

/-- An environment in which everything goes well. The two payloads are different, and the poison
around them, of the reference pass or of the round, is left as it is. -/
def pairEnv : Env plainPlatform where
  print _ := .ok true
  alloc _ := .ok ()
  ordering _ := none
  clock _ := 0
  construct _ := .ok ()
  register _ := .ok 0
  callbackMax _ := .ok 5
  deregister _ := .ok 0
  write _ := .ok ()
  read _ := .ok ()
  spawn _ := .ok ()
  get _ u := deliverGet _ u
  deliver log s arena i :=
    if s.emissions = 0 then arena i
    else if 1 ≤ i % 7 ∧ i % 7 < 6 then if i < 7 then 65 else 66
    else (poisonPattern 7 (if log.countP Event.isPoisoned ≤ 2 then 1 else 2)).getD (i % 7) 0
  unsent _ _ _ h := funext fun _ => if_pos h
  memory _ _ := 0

/-- The exit status of a run, if it does not end by an exception. -/
def exitOf (m : Rig ℤ) (w : World) : Option ℤ :=
  match m w with
  | .ok c _ => some c
  | .error _ _ => none

/-- A run with an exit status ends in some world. -/
theorem exists_of_exitOf {m : Rig ℤ} {w : World} {c : ℤ} (h : exitOf m w = some c) :
    ∃ w', m w = .ok c w' := by
  unfold exitOf at h
  split at h
  · rename_i c' w' hrun
    obtain rfl := Option.some.inj h
    exact ⟨w', hrun⟩
  · exact absurd h (by simp)

-- A run on given options is not to be evaluated but by the kernel.
attribute [local irreducible] Ensures

/-- In the environment in which everything goes well, the experiment returns `0`. -/
theorem expConcurrent_verdict_pair :
    ∃ w, expConcurrent pairEnv pairOptions (.start false) = .ok 0 w ∧
      PassFacts plainPlatform pairOptions w.log := by
  have hexit : exitOf (expConcurrent pairEnv pairOptions) (.start false) = some 0 := by
    decide +kernel
  obtain ⟨w, hrun⟩ := exists_of_exitOf hexit
  exact ⟨w, hrun, ((expConcurrent_verdict pairEnv pairOptions false).of_ok hrun).1 rfl⟩

end Pair

end S3Rdma.Probe
