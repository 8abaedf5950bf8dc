import S3Rdma.Scope.Outcome

/-!
# From the runs of the scope probe to the outcome

`decide` and `main` of `src/probe/tools/map_scope_outcome.py`, on the logs of any number of runs of
the probe. The mapper finds for every case the verdict of the last result that was logged for it
(`caseVerdict_logs`), and a verdict of PASS was logged by a run that has seen the bytes of the
object land between intact guards, by one callback, in place of the poison (`run_pass`).

`mapOutcome_runs` puts the two together: what each outcome says of the runs. `STOP` does not say
that all candidates have failed, as its text does: a base address or a second session may have
passed.
-/

namespace S3Rdma.Scope

open Json (word)

/-! ## The mapper -/

/-- The outcomes. -/
inductive Outcome where
  | one
  | two
  | three
  | stop
  | inconclusive
deriving DecidableEq

/-- What `%s` makes of a verdict and of a dictionary of verdicts. -/
structure PyFormat where
  str : Json → Text
  dict : List (Text × Json) → Text

/-- `v in ("INCONCLUSIVE", "ENV_ERROR", None)`. -/
def nonDecisive (v : Json) : Bool :=
  isText (word "INCONCLUSIVE") v || isText (word "ENV_ERROR") v ||
    match v with
    | .null => true
    | _ => false

/-- The cases that decide about `STOP`. -/
def decidingCases : List Case := [.i0, .s0, .si, .r, .p]

/-- `decide`. -/
def decideOutcome (F : PyFormat) (verdicts : Case → Json) : Outcome × Text :=
  if !isText (word "PASS") (verdicts .b0) then
    (.inconclusive, word "B0 health baseline is not PASS (" ++ F.str (verdicts .b0) ++
      word "); no scope conclusion")
  else if isText (word "PASS") (verdicts .si) then
    (.one, word "SI (cross-instance interior landing) PASS: session-independent " ++
      word "+ interior-capable [serial only; concurrency+lifecycle UNVERIFIED]")
  else if isText (word "PASS") (verdicts .r) then
    (.two, word "SI not PASS but R (re-register per instance) PASS: register per " ++
      word "instance, record startup cost [serial only]")
  else if isText (word "PASS") (verdicts .p) then
    (.three, word "SI/R not PASS but P (disjoint slices) PASS: per-instance disjoint " ++
      word "registered slices [serial only]")
  else
    let deciding := decidingCases.map fun c => (points c.text, verdicts c)
    if deciding.any (nonDecisive ·.2) then
      (.inconclusive, word "B0 clean but a deciding case is non-decisive (" ++ F.dict deciding ++
        word "); cannot map to STOP without clean failures")
    else
      (.stop, word "B0 PASS but I0/S0/SI/R/P all cleanly FAIL: Sirius arena/interior shape " ++
        word "not viable on this product/SDK [serial measurement]")

/-- What each outcome says of the last verdicts of the cases: the baseline has passed and the first
of `si`, `r` and `p` that has; or none of them has, and all deciding cases have a clean verdict. -/
def Outcome.Says (v : Case → Option Verdict) : Outcome → Prop
  | .one => v .b0 = some .Pass ∧ v .si = some .Pass
  | .two => v .b0 = some .Pass ∧ v .si ≠ some .Pass ∧ v .r = some .Pass
  | .three =>
    v .b0 = some .Pass ∧ v .si ≠ some .Pass ∧ v .r ≠ some .Pass ∧ v .p = some .Pass
  | .stop =>
    v .b0 = some .Pass ∧ (∀ c ∈ [Case.si, .r, .p], v c = some .Fail) ∧
      ∀ c ∈ [Case.i0, .s0], v c = some .Pass ∨ v c = some .Fail
  | .inconclusive =>
    v .b0 ≠ some .Pass ∨
      (∀ c ∈ [Case.si, .r, .p], v c ≠ some .Pass) ∧
        ∃ c ∈ decidingCases, v c ≠ some .Pass ∧ v c ≠ some .Fail

/-- What the mapper does: it complains about its arguments, ends with an exception, or prints the
verdicts, the outcome and the reason. -/
inductive Mapped where
  | usage
  | raised (e : PyError)
  | printed (verdicts : Case → Json) (outcome : Outcome) (reason : Text)

/-- The verdicts of `main`, in the order of `CASES`. -/
def verdictsOf (by_case : List (Json × Text)) : Except PyError (Case → Json) := do
  let b0 ← caseVerdict (linesOf by_case (points Case.b0.text))
  let i0 ← caseVerdict (linesOf by_case (points Case.i0.text))
  let s0 ← caseVerdict (linesOf by_case (points Case.s0.text))
  let si ← caseVerdict (linesOf by_case (points Case.si.text))
  let r ← caseVerdict (linesOf by_case (points Case.r.text))
  let p ← caseVerdict (linesOf by_case (points Case.p.text))
  let m ← caseVerdict (linesOf by_case (points Case.m.text))
  return fun
    | .b0 => b0
    | .i0 => i0
    | .s0 => s0
    | .si => si
    | .r => r
    | .p => p
    | .m => m

/-- `main` without `--selftest`, on the contents of the files that it is given. -/
def mapOutcome (F : PyFormat) (files : List Bytes) : Mapped :=
  if files = [] then .usage
  else
    match load files >>= verdictsOf with
    | .error e => .raised e
    | .ok verdicts =>
      let decided := decideOutcome F verdicts
      .printed verdicts decided.1 decided.2

/-! ## What a PASS says -/

/-- The bytes of the object have landed: one callback, the count, intact guards, and the digest that
was asked for, which is not the one of the poison. -/
structure LandingProven (P : Platform) (o : Options) (g : GetAnswer) : Prop where
  callbacks : g.callbacks.countP (·.2.isBegin) = 1
  rc : g.rc = longLong o.xfer
  lead : ∀ b ∈ g.lead, b = kGuardByte
  trail : ∀ b ∈ g.trail, b = kGuardByte
  digest : hex (P.sha256 g.payload) = o.expect_sha
  fresh : g.payload ≠ makePoison o.xfer

/-- The bytes of the object have landed by the request of case `m`, which has a status and no
callback. -/
structure ManualProven (P : Platform) (o : Options) (m : ManualAnswer) : Prop where
  status : ∃ reply, m.response = some (200, reply) ∨ m.response = some (206, reply)
  lead : ∀ b ∈ m.lead, b = kGuardByte
  trail : ∀ b ∈ m.trail, b = kGuardByte
  digest : hex (P.sha256 m.payload) = o.expect_sha
  fresh : m.payload ≠ makePoison o.xfer

/-- The landings of a case: by the client that has registered the arena, by a second one, or by
both. -/
def Landings (P : Platform) (o : Options) (a : Answers) : Prop :=
  match o.exp with
  | .b0 | .i0 => LandingProven P o a.getA
  | .s0 | .si => LandingProven P o a.getB
  | .r | .p => a.registerB.rc = 0 ∧ LandingProven P o a.getA ∧ LandingProven P o a.getB
  | .m => ManualProven P o a.manual

/-- What the passed run of a case has seen. -/
structure Passed (P : Platform) (o : Options) (a : Answers) : Prop where
  head : (headObject a.head).ok = true ∧ (o.xfer : ℤ) ≤ (headObject a.head).size
  sha : o.expect_sha ≠ []
  visible : (readVisibility o.mode a.ordering).trustworthy = true
  registered : a.registerA.rc = 0
  landed : Landings P o a

/-- A PASS among the events implies `Q`. -/
def PassSays (Q : Prop) (es : List Event) : Prop :=
  ∀ detail diagnostic_only, .result .Pass detail diagnostic_only ∈ es → Q

section PassSays

variable {Q : Prop} {es es' : List Event}

/-- What a PASS among the events implies is kept when an event that is not a result is put in front.
-/
theorem PassSays.cons {e : Event} (h : PassSays Q es) (he : e.isResult = false) :
    PassSays Q (e :: es) := by
  intro detail diagnostic_only hmem
  rcases List.mem_cons.mp hmem with rfl | hmem
  · cases he
  · exact h _ _ hmem

/-- What a PASS among the events implies is kept when inner events are put in front. -/
theorem PassSays.append (h : PassSays Q es') (hes : ∀ e ∈ es, e.isInner = true) :
    PassSays Q (es ++ es') := by
  intro detail diagnostic_only hmem
  rcases List.mem_append.mp hmem with hmem | hmem
  · cases hes _ hmem
  · exact h _ _ hmem

/-- A result alone implies what its PASS implies. -/
theorem passSays_result {v : Verdict} {detail : Bytes} {diagnostic_only : Bool}
    (h : v = .Pass → Q) : PassSays Q [.result v detail diagnostic_only] := by
  intro _ _ hmem
  obtain ⟨rfl, -, -⟩ := Event.result.inj (List.mem_singleton.mp hmem)
  exact h rfl

end PassSays

section

variable {P : Platform} {o : Options} {a : Answers} {vis : Visibility}

/-- A slot passes only after all its checks. -/
theorem slotVerdict_pass {g : GetResult} {digest_match guards_intact : Bool}
    (h : (slotVerdict o vis g digest_match guards_intact).verdict = .Pass) :
    g.callbacks = 1 ∧ g.rc = longLong o.xfer ∧ digest_match = true ∧ guards_intact = true ∧
      vis.trustworthy = true ∧ o.expect_sha ≠ [] := by
  unfold slotVerdict at h
  split_ifs at h
  simp_all

/-- What the check of a slot has seen when it passes, if the poison has another digest. -/
theorem verifySlot_pass {who : Who} {slot : Slot} {origin : ℕ} {g : GetAnswer}
    (hpoison : ¬ (o.expect_sha ≠ [] ∧ sha256Hex P (makePoison o.xfer) = o.expect_sha))
    (h : (verifySlot P o vis who slot g (issueGet o who slot origin g).2).2.verdict = .Pass) :
    LandingProven P o g ∧ vis.trustworthy = true ∧ o.expect_sha ≠ [] := by
  obtain ⟨hcalls, hrc, hdigest, hguards, hvis, hsha⟩ := slotVerdict_pass h
  unfold issueGet at hcalls hrc
  -- A GET that is refused has no callback.
  split_ifs at hcalls hrc
  have hhex : hex (P.sha256 g.payload) = o.expect_sha := by simpa [hsha] using hdigest
  rw [Bool.and_eq_true] at hguards
  refine ⟨⟨hcalls, hrc, ?_, ?_, hhex, ?_⟩, hvis, hsha⟩
  · simpa using hguards.1
  · simpa using hguards.2
  · rintro hpay
    exact hpoison ⟨hsha, by rw [sha256Hex, ← hpay, hhex]⟩

/-- A fold passes only if all slots do. -/
theorem foldVerdicts_pass {A B : SlotVerdict} (hA : A.verdict ≠ .EnvError) (hB : B.verdict ≠ .EnvError)
    (h : (foldVerdicts [A, B]).verdict = .Pass) : A.verdict = .Pass ∧ B.verdict = .Pass := by
  cases hva : A.verdict <;> cases hvb : B.verdict <;>
    simp_all [foldVerdicts, List.find?]

/-- A slot is never an error of the environment. -/
theorem verifySlot_ne_envError (who : Who) (slot : Slot) (answer : GetAnswer) (g : GetResult) :
    (verifySlot P o vis who slot answer g).2.verdict ≠ .EnvError := by
  unfold verifySlot slotVerdict
  dsimp only
  split_ifs <;> simp

variable (hpoison : ¬ (o.expect_sha ≠ [] ∧ sha256Hex P (makePoison o.xfer) = o.expect_sha))

include hpoison

/-- What a PASS of a serial case says. -/
theorem runSerial_pass (L : Layout) (arena_bytes : ℕ) {g : GetAnswer}
    (hg : g = if o.exp = .s0 ∨ o.exp = .si then a.getB else a.getA) :
    PassSays (a.registerA.rc = 0 ∧ vis.trustworthy = true ∧ o.expect_sha ≠ [] ∧
        LandingProven P o g) (runSerial P o a vis L arena_bytes) := by
  unfold runSerial
  refine PassSays.cons ?_ rfl
  split
  · exact passSays_result (by simp)
  · next hreg =>
    refine PassSays.cons ?_ rfl
    split
    · exact passSays_result (by simp)
    · split
      · exact passSays_result (by simp)
      · next slot _ =>
        have hserial : ∀ who answer, PassSays (vis.trustworthy = true ∧ o.expect_sha ≠ [] ∧
            LandingProven P o answer) (serialResult o (serialGet P o vis who slot answer).2) := by
          intro who answer
          unfold serialResult
          split_ifs
          · exact passSays_result (by simp)
          · refine passSays_result fun h => ?_
            obtain ⟨hproven, hvis, hsha⟩ := verifySlot_pass hpoison h
            exact ⟨hvis, hsha, hproven⟩
        subst hg
        dsimp only
        split_ifs with hB
        · exact PassSays.append (fun d x h => ⟨not_not.mp hreg, hserial _ _ d x h⟩)
            (serialGet_spec P o vis _ _ _).1
        · exact PassSays.append (fun d x h => ⟨not_not.mp hreg, hserial _ _ d x h⟩)
            (serialGet_spec P o vis _ _ _).1

/-- What a PASS of two GETs says. -/
theorem bothGets_pass (sa sb : Slot) (origin : ℕ) :
    PassSays (vis.trustworthy = true ∧ o.expect_sha ≠ [] ∧ LandingProven P o a.getA ∧
        LandingProven P o a.getB) (bothGets P o a vis sa sb origin) := by
  have hA := verifySlot_spec P o vis .A sa a.getA (issueGet o .A sa 0 a.getA).2
  have hB := verifySlot_spec P o vis .B sb a.getB (issueGet o .B sb origin a.getB).2
  unfold bothGets
  refine PassSays.append (passSays_result fun h => ?_) fun e he => ?_
  · obtain ⟨hpassA, hpassB⟩ := foldVerdicts_pass (verifySlot_ne_envError _ _ _ _)
      (verifySlot_ne_envError _ _ _ _) h
    obtain ⟨hprovenA, hvis, hsha⟩ := verifySlot_pass hpoison hpassA
    exact ⟨hvis, hsha, hprovenA, (verifySlot_pass hpoison hpassB).1⟩
  · simp only [List.mem_append] at he
    rcases he with ((he | he) | he) | he
    · exact issueGet_inner _ _ _ _ _ e he
    · exact issueGet_inner _ _ _ _ _ e he
    · exact hA.1 e he
    · exact hB.1 e he

/-- What a PASS of case `r` says. -/
theorem runR_pass (L : Layout) (arena_bytes : ℕ) :
    PassSays (a.registerA.rc = 0 ∧ a.registerB.rc = 0 ∧ vis.trustworthy = true ∧
        o.expect_sha ≠ [] ∧ LandingProven P o a.getA ∧ LandingProven P o a.getB)
      (runR P o a vis L arena_bytes) := by
  unfold runR
  refine PassSays.cons (PassSays.cons ?_ rfl) rfl
  split
  · exact passSays_result (by simp)
  · next hreg =>
    push Not at hreg
    refine PassSays.cons ?_ rfl
    split
    · exact passSays_result (by simp)
    · split
      · exact fun d x h => ⟨hreg.1, hreg.2, bothGets_pass hpoison _ _ 0 d x h⟩
      · exact passSays_result (by simp)

/-- What a PASS of case `p` says. -/
theorem runP_pass (L : Layout) (arena : Arena) :
    PassSays (a.registerA.rc = 0 ∧ a.registerB.rc = 0 ∧ vis.trustworthy = true ∧
        o.expect_sha ≠ [] ∧ LandingProven P o a.getA ∧ LandingProven P o a.getB)
      (runP P o a vis L arena) := by
  unfold runP
  refine PassSays.cons (PassSays.cons ?_ rfl) rfl
  split
  · exact passSays_result (by simp)
  · next hreg =>
    push Not at hreg
    refine PassSays.cons ?_ rfl
    split
    · exact passSays_result (by simp)
    · refine PassSays.cons ?_ rfl
      split
      · exact passSays_result (by simp)
      · exact fun d x h => ⟨hreg.1, hreg.2, bothGets_pass hpoison _ _ _ d x h⟩

/-- What a PASS of the request of case `m` says. -/
theorem manualGet_pass :
    PassSays (vis.trustworthy = true ∧ o.expect_sha ≠ [] ∧ ManualProven P o a.manual)
      (manualGet P o a vis) := by
  unfold manualGet
  split
  · exact passSays_result (by simp)
  · dsimp only
    refine PassSays.cons (PassSays.cons (passSays_result fun h => ?_) rfl) rfl
    unfold manualVerdict at h
    split_ifs at h with hstatus hvis hguards hsha hmatch
    have hhex : hex (P.sha256 a.manual.payload) = o.expect_sha := by simpa [hsha] using hmatch
    rw [Bool.not_eq_true', ← Bool.not_eq_true, not_not, Bool.and_eq_true] at hguards
    refine ⟨by simpa using hvis, hsha, ?_⟩
    cases hresponse : a.manual.response with
    | none => simp [hresponse] at hstatus
    | some response =>
      obtain ⟨status, reply⟩ := response
      have hok : status = 200 ∨ status = 206 := by simpa [hresponse] using hstatus
      refine ⟨⟨reply, by rcases hok with rfl | rfl <;> simp [hresponse]⟩, by simpa using hguards.1,
        by simpa using hguards.2, hhex, fun hpay => ?_⟩
      exact hpoison ⟨hsha, by rw [sha256Hex, ← hpay, hhex]⟩

/-- What a PASS of case `m` says. -/
theorem runM_pass (L : Layout) (arena_bytes : ℕ) :
    PassSays (a.registerA.rc = 0 ∧ vis.trustworthy = true ∧ o.expect_sha ≠ [] ∧
        ManualProven P o a.manual) (runM P o a vis L arena_bytes) := by
  unfold runM
  refine PassSays.cons ?_ rfl
  split
  · exact passSays_result (by simp)
  · next hreg =>
    split
    · exact passSays_result (by simp)
    · refine PassSays.cons ?_ rfl
      split
      · exact fun d x h => ⟨not_not.mp hreg, manualGet_pass hpoison d x h⟩
      · exact passSays_result (by simp)

/-- What a PASS of any case says. -/
theorem runCase_pass (L : Layout) (arena : Arena) :
    PassSays (a.registerA.rc = 0 ∧ vis.trustworthy = true ∧ o.expect_sha ≠ [] ∧ Landings P o a)
      (runCase P o a vis L arena) := by
  intro detail diagnostic_only hmem
  unfold runCase at hmem
  unfold Landings
  cases hexp : o.exp with
  | b0 | i0 | s0 | si =>
    rw [hexp] at hmem
    exact runSerial_pass hpoison L _ (by rw [hexp]; rfl) _ _ hmem
  | r =>
    rw [hexp] at hmem
    obtain ⟨hA, hB, hvis, hsha, hlanded⟩ := runR_pass hpoison L _ _ _ hmem
    exact ⟨hA, hvis, hsha, hB, hlanded⟩
  | p =>
    rw [hexp] at hmem
    obtain ⟨hA, hB, hvis, hsha, hlanded⟩ := runP_pass hpoison L arena _ _ hmem
    exact ⟨hA, hvis, hsha, hB, hlanded⟩
  | m =>
    rw [hexp] at hmem
    exact runM_pass hpoison L _ _ _ hmem

omit hpoison in
/-- What a PASS after the HEAD request says. -/
theorem runSized_pass :
    PassSays (a.registerA.rc = 0 ∧ vis.trustworthy = true ∧ o.expect_sha ≠ [] ∧ Landings P o a)
      (runSized P o a vis) := by
  unfold runSized
  split
  · exact passSays_result (by simp)
  · split
    · exact passSays_result (by simp)
    · next hpoison =>
      split
      · exact passSays_result (by simp)
      · exact PassSays.cons (runCase_pass hpoison _ _) rfl

end

/-- A run logs PASS only if its case has seen the bytes of the object land. -/
theorem run_pass (P : Platform) (o : Options) (a : Answers) :
    PassSays (Passed P o a) (run P o a) := by
  unfold run
  split
  · exact passSays_result (by simp)
  · refine PassSays.cons (PassSays.cons (PassSays.cons ?_ rfl) rfl) rfl
    split
    · exact passSays_result (by simp)
    · next hok =>
      split
      · exact passSays_result (by simp)
      · next hsize =>
        intro detail diagnostic_only hmem
        -- A clipped GET has no digest to compare with, so the size is the one that was asked for.
        obtain ⟨hreg, hvis, hsha, hlanded⟩ := runSized_pass _ _ hmem
        have hsize : ¬ (headObject a.head).size < o.xfer := fun h => hsize ⟨h, hsha⟩
        simp only [if_neg hsize] at hlanded
        exact ⟨⟨by simpa using hok, not_lt.mp hsize⟩, hsha, hvis, hreg, hlanded⟩

/-! ## The mapper on the logs of some runs -/

/-- A run of the probe, and the number of events that it has logged when it ends or is ended. -/
structure LoggedRun where
  o : Options
  a : Answers
  n : ℕ

namespace LoggedRun

variable (P : Platform)

/-- What a run has logged. -/
def events (r : LoggedRun) : List Event := (run P r.o r.a).take r.n

/-- The log of a run. -/
def file (r : LoggedRun) : Bytes := log r.o.exp (r.events P)

/-- The texts from outside in the log of a run are UTF-8. -/
def Utf8Inputs (r : LoggedRun) : Prop :=
  ∀ e ∈ r.events P, ∀ t ∈ e.inputs r.a.head, Utf8.Valid t

/-- The events that some runs have logged for a case. -/
def eventsOf (runs : List LoggedRun) (c : Case) : List Event :=
  (runs.filter (·.o.exp = c)).flatMap (events P)

/-- The last verdict for a case. -/
def lastOf (runs : List LoggedRun) (c : Case) : Option Verdict :=
  ((eventsOf P runs c).filterMap Event.verdict?).getLast?

end LoggedRun

section Logs

variable {P : Platform} {runs : List LoggedRun}

/-- The fields of a log whose texts from outside are UTF-8 can be read. -/
theorem LoggedRun.Utf8Inputs.fields_valid {r : LoggedRun} (h : r.Utf8Inputs P) :
    ∀ e ∈ r.events P, ∀ f ∈ e.fields, f.v.Valid := by
  intro e he
  refine (fields_valid_iff e).mpr ?_
  rcases run_events he with hinner | rfl | ⟨v, detail, diagnostic_only, rfl, hdetail⟩
  · rw [← inputs_eq_externals hinner r.a.head]
    exact h e he
  · exact List.forall_mem_singleton.mpr ((valid_headObject r.a.head).mpr (h _ he))
  · -- The detail of a result is a word of the source, or it was logged with the HEAD request.
    refine List.forall_mem_singleton.mpr ?_
    rcases hdetail with hascii | ⟨rfl, hlogged⟩
    · exact Utf8.valid_ascii hascii
    · exact (valid_headObject r.a.head).mpr (h _ hlogged)

/-- All lines of all logs are loaded, each with the tag of its case. -/
theorem load_logs (h : ∀ r ∈ runs, r.Utf8Inputs P) :
    load (runs.map (LoggedRun.file P)) = .ok (runs.flatMap fun r =>
      (r.events P).map fun e => (.str (points r.o.exp.text), Json.objectText (e.members r.o.exp))) := by
  induction runs with
  | nil => rfl
  | cons r runs ih =>
    rw [List.forall_mem_cons] at h
    obtain ⟨text, htext, hlines⟩ := fileLines_log h.1.fields_valid r.o.exp
    rw [List.map_cons, load, LoggedRun.file, htext]
    dsimp only
    rw [hlines, loadLines_log h.1.fields_valid, ih h.2]
    rfl

/-- The tags of the cases are different. -/
theorem isText_case (c d : Case) : isText (points c.text) (.str (points d.text)) = decide (d = c) := by
  cases c <;> cases d <;> rfl

/-- The mapper finds the last verdict of a case. -/
theorem caseVerdict_logs (h : ∀ r ∈ runs, r.Utf8Inputs P) (c : Case) :
    caseVerdict (linesOf (runs.flatMap fun r => (r.events P).map fun e =>
      (.str (points r.o.exp.text), Json.objectText (e.members r.o.exp))) (points c.text)) =
        .ok (lastVerdict (LoggedRun.eventsOf P runs c)) := by
  have hlines : linesOf (runs.flatMap fun r => (r.events P).map fun e =>
      (.str (points r.o.exp.text), Json.objectText (e.members r.o.exp))) (points c.text) =
        (LoggedRun.eventsOf P runs c).map fun e => Json.objectText (e.members c) := by
    clear h
    induction runs with
    | nil => rfl
    | cons r runs ih =>
      rw [List.flatMap_cons, linesOf, List.filter_append, List.map_append]
      rw [linesOf] at ih
      rw [ih, LoggedRun.eventsOf, LoggedRun.eventsOf, List.filter_cons, List.filter_map]
      by_cases hc : r.o.exp = c
      · subst hc
        simp [Function.comp_def, isText_case]
      · simp [Function.comp_def, isText_case, hc]
  rw [hlines]
  refine verdictFrom_log (fun e he => ?_) c .null
  obtain ⟨r, hr, he⟩ := List.mem_flatMap.mp he
  exact (h r (List.mem_of_mem_filter hr)).fields_valid e he

/-- A verdict of PASS was logged by a run that has passed. -/
theorem LoggedRun.passed_of_lastOf {c : Case} (h : LoggedRun.lastOf P runs c = some .Pass) :
    ∃ r ∈ runs, r.o.exp = c ∧ Passed P r.o r.a := by
  obtain ⟨e, he, hverdict⟩ := List.mem_filterMap.mp (List.mem_of_getLast? h)
  obtain ⟨r, hr, he⟩ := List.mem_flatMap.mp he
  obtain ⟨hr, hc⟩ := List.mem_filter.mp hr
  cases e with
  | result v detail diagnostic_only =>
    obtain rfl : v = .Pass := Option.some.inj hverdict
    exact ⟨r, hr, by simpa using hc, run_pass P r.o r.a _ _ (List.mem_of_mem_take he)⟩
  | _ => cases hverdict

/-- The mapper takes the last verdict for PASS, or for decisive, exactly if it is. -/
theorem isText_lastVerdict (es : List Event) :
    isText (word "PASS") (lastVerdict es) =
        decide ((es.filterMap Event.verdict?).getLast? = some .Pass) ∧
      nonDecisive (lastVerdict es) =
        !decide ((es.filterMap Event.verdict?).getLast? = some .Pass ∨
          (es.filterMap Event.verdict?).getLast? = some .Fail) := by
  unfold lastVerdict
  cases (es.filterMap Event.verdict?).getLast? with
  | none => decide
  | some v => cases v <;> decide

/-- The mapper prints its decision about the last verdicts. -/
theorem mapOutcome_eq (F : PyFormat) (hne : runs ≠ []) (h : ∀ r ∈ runs, r.Utf8Inputs P) :
    mapOutcome F (runs.map (LoggedRun.file P)) =
      .printed (fun c => lastVerdict (LoggedRun.eventsOf P runs c))
        (decideOutcome F fun c => lastVerdict (LoggedRun.eventsOf P runs c)).1
        (decideOutcome F fun c => lastVerdict (LoggedRun.eventsOf P runs c)).2 := by
  have hverdicts : load (runs.map (LoggedRun.file P)) >>= verdictsOf =
      .ok fun c => lastVerdict (LoggedRun.eventsOf P runs c) := by
    rw [load_logs h]
    change verdictsOf _ = _
    simp only [verdictsOf, caseVerdict_logs h]
    refine congrArg Except.ok (funext fun c => ?_)
    cases c <;> rfl
  unfold mapOutcome
  rw [if_neg (by simpa using hne), hverdicts]

/-- Every outcome but `INCONCLUSIVE` says that the baseline has passed. -/
theorem Outcome.Says.baseline {v : Case → Option Verdict} {o : Outcome} (h : o.Says v)
    (ho : o ≠ .inconclusive) : v .b0 = some .Pass := by
  cases o with
  | inconclusive => exact absurd rfl ho
  | one | two | three | stop => exact h.1

/-- `decide` gives an outcome exactly when the last verdicts are as the outcome says. -/
theorem decideOutcome_iff (F : PyFormat) {verdicts : Case → Json} {v : Case → Option Verdict}
    (hpass : ∀ c, isText (word "PASS") (verdicts c) = decide (v c = some .Pass))
    (hdecisive : ∀ c, nonDecisive (verdicts c) = !decide (v c = some .Pass ∨ v c = some .Fail))
    (o : Outcome) : (decideOutcome F verdicts).1 = o ↔ o.Says v := by
  unfold decideOutcome
  simp only [hpass]
  by_cases hb0 : v .b0 = some .Pass
  · by_cases hsi : v .si = some .Pass
    · cases o <;> simp [Outcome.Says, hb0, hsi]
    by_cases hr : v .r = some .Pass
    · cases o <;> simp [Outcome.Says, hb0, hsi, hr]
    by_cases hp : v .p = some .Pass
    · cases o <;> simp [Outcome.Says, hb0, hsi, hr, hp]
    -- Only now do the failures of the others count.
    cases o <;>
      simp [Outcome.Says, hb0, hsi, hr, hp, decidingCases, hdecisive] <;>
      grind
  · cases o <;> simp [Outcome.Says, hb0]

/-- The mapper on the logs of any number of runs, complete or cut off, whose texts from outside are
UTF-8. Its verdicts are the last ones that were logged, and its outcome is the one whose condition
on them holds. An outcome of 1, 2 or 3 rests on a run of the baseline and a run of `si`, `r` or `p`
that have seen the bytes of the object land. `STOP` rests on the baseline and on the last runs of
`si`, `r` and `p` having failed, while those of `i0` and `s0` may have passed. -/
theorem mapOutcome_runs (F : PyFormat) (hne : runs ≠ []) (h : ∀ r ∈ runs, r.Utf8Inputs P) :
    ∃ verdicts outcome reason,
      mapOutcome F (runs.map (LoggedRun.file P)) = .printed verdicts outcome reason ∧
      (∀ c, verdicts c = (LoggedRun.lastOf P runs c).elim .null fun v => .str (points v.text)) ∧
      (∀ o, outcome = o ↔ o.Says (LoggedRun.lastOf P runs)) ∧
      (outcome ≠ .inconclusive → ∃ r ∈ runs, r.o.exp = .b0 ∧ Passed P r.o r.a) ∧
      (outcome = .one → ∃ r ∈ runs, r.o.exp = .si ∧ Passed P r.o r.a) ∧
      (outcome = .two → ∃ r ∈ runs, r.o.exp = .r ∧ Passed P r.o r.a) ∧
      (outcome = .three → ∃ r ∈ runs, r.o.exp = .p ∧ Passed P r.o r.a) := by
  have hiff := decideOutcome_iff F (v := LoggedRun.lastOf P runs)
    (fun c => (isText_lastVerdict (LoggedRun.eventsOf P runs c)).1)
    (fun c => (isText_lastVerdict (LoggedRun.eventsOf P runs c)).2)
  refine ⟨_, _, _, mapOutcome_eq F hne h, fun _ => rfl, hiff, fun ho => ?_, fun ho => ?_,
    fun ho => ?_, fun ho => ?_⟩
  · exact LoggedRun.passed_of_lastOf (((hiff _).mp rfl).baseline ho)
  · exact LoggedRun.passed_of_lastOf ((hiff .one).mp ho).2
  · exact LoggedRun.passed_of_lastOf ((hiff .two).mp ho).2.2
  · exact LoggedRun.passed_of_lastOf ((hiff .three).mp ho).2.2.2

end Logs

/-- The baseline and case `si` with everything going well. -/
def wellRuns : List LoggedRun :=
  [⟨{ strayOptions with bucket := ascii "b" }, strayAnswers, 20⟩,
    ⟨{ strayOptions with bucket := ascii "b", exp := .si }, strayAnswers, 20⟩]

/-- The logs of a baseline and of a case `si` that pass give the outcome 1. -/
theorem mapOutcome_runs_well :
    ∃ verdicts reason, mapOutcome ⟨fun _ => [], fun _ => []⟩
        (wellRuns.map (LoggedRun.file firstBytePlatform)) = .printed verdicts .one reason ∧
      verdicts .b0 = .str (points Verdict.Pass.text) ∧
      verdicts .si = .str (points Verdict.Pass.text) := by
  have hinputs : ∀ r ∈ wellRuns, r.Utf8Inputs firstBytePlatform := by
    unfold LoggedRun.Utf8Inputs
    decide +kernel
  have hlast : LoggedRun.lastOf firstBytePlatform wellRuns .b0 = some .Pass ∧
      LoggedRun.lastOf firstBytePlatform wellRuns .si = some .Pass := by decide +kernel
  obtain ⟨verdicts, outcome, reason, hprinted, hverdicts, hiff, -⟩ :=
    mapOutcome_runs ⟨fun _ => [], fun _ => []⟩ (by decide) hinputs
  obtain rfl : outcome = .one := (hiff .one).mpr hlast
  exact ⟨verdicts, reason, hprinted, by rw [hverdicts, hlast.1]; rfl,
    by rw [hverdicts, hlast.2]; rfl⟩

end S3Rdma.Scope
