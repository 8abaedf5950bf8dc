import Mathlib.Data.List.Sort
import S3Rdma.Common.Util
import S3Rdma.Probe.GuardWitness
import S3Rdma.Probe.Rig

/-!
# The experiments

`exp_single_get` and `exp_concurrent` of `src/probe/rig_probe_main.cpp`. The first issues one GET,
reads its landing when the GET left nothing open, and gives a verdict on it. The second has one
verified reference for each slot and then rounds of concurrent GETs, whose landings are compared
with the references; it stops at the first round that fails, and what it says depends on whether the
GETs of that round have overlapped.
-/

namespace S3Rdma.Probe

/-- `EPERM`. -/
def EPERM : ℤ := 1

/-- The GET left its completion unknown, or a record of it was lost. -/
def Run.unknown (g : Run) : Bool :=
  g.1.unknown || g.1.evidence_lost || !g.2.present || g.1.completed ≠ g.1.submitted

section Env

variable {P : Platform} (env : Env P) (o : Options)

/-- The fixture is released, or kept if it cannot be, and a verdict is given. -/
def releaseOrRetain (v : Verdict) (released retained : Bytes) : Rig ℤ := do
  if ← release env then finish env v released else retain env v retained

/-- The visibility of the landings is qualified, with which both experiments begin. -/
def qualifyVisibility : Rig Unit := do
  let vis ← readVisibility env o.mode
  emit env .visibility
  unless vis.trustworthy do
    returning (finish env .envError (ascii "GPU visibility not qualified: " ++ vis.name))

/-- The registration of the arena in both experiments. -/
def registration : Rig Unit := do
  let reg ← registerMemory env
  emit env .register
  unless reg = 0 do
    let _ ← release env
    returning (finish env .envError (ascii "registration failed"))

/-- The digest of the landing of a GET, and whether the poison around it is intact. -/
def readLanding (t : GetTag) (c : Cell) (landed : ℕ) (nonce : UInt32) : Rig (Bytes × Bool) := do
  let landing ← readSpan env t c.payload landed
  return (digestOf P landing, ← poisonIntactOutside env t c landed nonce)

/-! ## One GET -/

/-- The context of the GET of `exp_single_get`. -/
def singleSetup (g : Geometry) (guard : Bool) : RigSetup where
  proto := some o.proto
  host := o.host
  port := o.port
  path := ascii "/" ++ o.bucket ++ ascii "/" ++ o.object
  range := plainRange o.windowStart o.windowEnd
  expected := g.expected
  guard := guard
  first_return := if o.guard_mode = .enotsup then -ENOTSUP else -EPERM

/-- The one GET of `exp_single_get`. -/
def singleTag : GetTag := ⟨-1, -1⟩

/-- `observed_class`. -/
def observedClass (x : RigContext) : Bytes :=
  if x.unknown then ascii "unknown"
  else if x.http_attempts = 0 then ascii "no-emission"
  else ascii "known-complete"

/-- The joint hold: something was submitted and may not be over. -/
def Run.hold (g : Run) : Bool := 0 < g.1.submitted && g.unknown

/-- The registration, the capacity and the poison of the one cell. -/
def singlePrepare (g : Geometry) (cell : Cell) (nonce : UInt32) : Rig Unit := do
  registration env
  let cap ← look (orMinusOne env.callbackMax) .callbackMax
  emit env .callbackMax
  if cap < signed64 (o.windowEnd - o.windowStart + 1) then
    returning (releaseOrRetain env .envError
      (ascii "callback capacity below the request: one-callback profile not available")
      (ascii "callback capacity below the request; release failed"))
  catchStd (poisonCell env cell nonce) fun what =>
    returning (releaseOrRetain env .envError (ascii "poison production failed: " ++ what)
      (ascii "poison production failed; release failed"))
  if 0 < g.expected ∧ o.expect_sha ≠ [] ∧
      payloadPoisonDigest P cell g.expected nonce = o.expect_sha then
    returning (finish env .envError (ascii "poison collides with --expect-sha"))

/-- The GET, and the gate before its landing. -/
def singleGet (u : RigSetup) : Rig Run := do
  emit env .getBegin
  let get ← sdkGet env singleTag u
  emitAttempts env get.1
  emit env .getEnd
  if o.neg_class = .unknown ∨ get.hold then
    returning (retain env .inconclusive (ascii "completion unknown (" ++ observedClass get.1 ++
      ascii "): landing not read, resources retained"))
  return get

/-- The landing is read, and the fixture is released. -/
def singleRead (g : Geometry) (cell : Cell) (nonce : UInt32) : Rig (Bytes × Bool) := do
  let observed ← catchStd (readLanding env singleTag cell g.expected nonce) fun what =>
    returning (retain env .envError (ascii "landing read failed: " ++ what))
  emit env .landing
  unless ← release env do
    returning (retain env .fail (ascii "deregistration failed; arena retained"))
  return observed

/-- The verdict with the guard. -/
def guardVerdict (get : Run) (landing_poison digest_checked digest_ok outside_ok : Bool) : Rig ℤ :=
  let w := guardWitness (get.1.attempts.map Attempt.guardAttempt)
  if !get.1.attempts.head?.any Attempt.injection_applied then
    finish env .inconclusive
      (ascii "first transfer not qualified complete; guard not exercised")
  else if get.1.invocations < 2 then
    finish env .inconclusive (if landing_poison
      then ascii "no re-entry; landing_unchanged_poison_after_injected_return"
      else ascii "guard not exercised: the library did not re-invoke the callback")
  else do
    emit env .guardWitness
    if 1 < get.1.http_attempts then
      finish env .fail (ascii "more than one request message for one GET")
    else if get.2.present ∧ 0 ≤ get.2.value then
      finish env .fail (ascii "cuObjGet returned success after injected failure")
    else if !outside_ok then
      finish env .fail (ascii "guard corruption after the completed transfer")
    else if !w.ok then
      finish env .inconclusive (ascii "re-entry witness not established: " ++ w.why)
    else if landing_poison then
      finish env .inconclusive
        (ascii "re-entry witnessed; landing_unchanged_poison_after_injected_return")
    else if !digest_checked then
      finish env .inconclusive (ascii "re-entry witnessed; no integrity witness supplied")
    else if !digest_ok then
      finish env .inconclusive
        (ascii "re-entry witnessed; landing did not match the independent object digest")
    else
      finish env .pass (ascii "ordered re-entry of the same request; one complete token-bearing " ++
        ascii "message; negative SDK return; landing verified (capture is the independent cross-check)")

/-- The verdict without the guard. -/
def deliveryVerdict (g : Geometry) (get : Run) (digest_checked digest_ok outside_ok : Bool) : Rig ℤ :=
  let one_cb := decide (get.1.invocations = 1)
  let rc_ok := get.2.present && decide (get.2.value = signed64 g.expected)
  if !digest_checked then
    finish env .inconclusive (ascii "observed; no integrity witness supplied (--expect-sha)")
  else if one_cb && rc_ok && digest_ok && outside_ok then finish env .pass (ascii "delivered")
  else
    finish env .fail ((if one_cb then [] else ascii "callbacks!=1 ") ++
      (if rc_ok then [] else ascii "rc!=expected ") ++ (if digest_ok then [] else ascii "digest ") ++
      (if outside_ok then [] else ascii "poison-outside "))

/-- The body of `exp_single_get` while its fixture lives. -/
def singleBody (guard : Bool) (g : Geometry) (cell : Cell) (nonce : UInt32) : Rig ℤ := do
  singlePrepare env o g cell nonce
  let get ← singleGet env o (singleSetup o g guard)
  let (digest, outside_ok) ← singleRead env g cell nonce
  let digest_checked := decide (o.expect_sha ≠ [])
  let digest_ok := digest_checked && digest = o.expect_sha
  let landing_poison := decide (0 < g.expected ∧ digest = payloadPoisonDigest P cell g.expected nonce)
  if get.1.evidence_lost then
    finish env .inconclusive (ascii "evidence incomplete (a callback record was lost)")
  else if guard then guardVerdict env get landing_poison digest_checked digest_ok outside_ok
  else deliveryVerdict env g get digest_checked digest_ok outside_ok

/-- `exp_single_get`. -/
def expSingleGet (guard : Bool) : Rig ℤ := function do
  match validateGeometry o 1 with
  | .error why => finish env .envError why
  | .ok g => do
    qualifyVisibility env o
    let now ← look env.clock .clock
    withFixture env (singleBody env o guard g (makeCell 0 o.guard o.slot_bytes)
      (UInt32.ofNat (now % 2^32).toNat))

/-! ## Concurrent GETs -/

/-- The range of the request of a slot. -/
def rangeFor (k : ℕ) : Bytes :=
  let a := if o.objects = [] then k * o.slot_bytes % 2^64 else 0
  plainRange a (sub64 (add64 a o.slot_bytes) 1)

/-- The context of a GET of `exp_concurrent`. -/
def slotSetup (k : ℕ) : RigSetup where
  proto := some o.proto
  host := o.host
  port := o.port
  path := ascii "/" ++ o.bucket ++ ascii "/" ++
    (if o.objects = [] then o.object else o.objects.getD k [])
  range := rangeFor o k
  expected := o.slot_bytes

/-- The cell of a slot. -/
def slotCell (k : ℕ) : Cell := makeCell k o.guard o.slot_bytes

/-- `release_or_retain`. -/
def releaseOrRetainAll (v : Verdict) (d : Bytes) : Rig ℤ :=
  releaseOrRetain env v d (d ++ ascii "; release failed; graph retained")

/-- The callback capacity at each slot. -/
def capacities : Rig Unit := (List.range o.slots).forM fun _ => do
  let cap ← look (orMinusOne env.callbackMax) .callbackMax
  emit env .callbackMax
  if cap < signed64 o.slot_bytes then
    returning (releaseOrRetainAll env .envError
      (ascii "callback capacity below S at a slot pointer"))

/-- What can be seen of a GET without a look at its landing is as it should be. -/
def nativeOk (g : Run) : Bool :=
  g.2.present && decide (g.2.value = signed64 o.slot_bytes) && decide (g.1.invocations = 1) &&
    g.1.attempts.head?.any Attempt.qualified_complete

/-- `slot_ok`: the result, the digest of the landing and whether the poison around it is intact. -/
def slotOk (t : GetTag) (k : ℕ) (g : Run) (nonce : UInt32) : Rig (Bool × Bytes × Bool) := do
  let (d, outside) ← readLanding env t (slotCell o k) o.slot_bytes nonce
  return (nativeOk o g && outside, d, outside)

/-- The reference GET of a slot. -/
def referenceSlot (ref : List Bytes) (k : ℕ) : Rig (List Bytes) := do
  poisonCell env (slotCell o k) 1
  ask env.alloc .allocated
  let get ← sdkGet env ⟨-1, k⟩ (slotSetup o k)
  emitAttempts env get.1
  emit env .referenceReturn
  if get.unknown then
    returning (retain env .inconclusive
      (ascii "reference GET left completion unknown; graph retained"))
  if get.1.local_failure then
    returning (releaseOrRetainAll env .envError
      (ascii "probe-origin failure during the reference pass (not a backend finding)"))
  let (ok, d, _) ← slotOk env o ⟨-1, k⟩ k get 1
  emit env .reference
  if !ok || d = payloadPoisonDigest P (slotCell o k) o.slot_bytes 1 then
    returning (releaseOrRetainAll env .envError
      (ascii "reference GET for slot " ++ decimal k ++ ascii " not verified"))
  return ref ++ [d]

/-- The reference pass. -/
def referencePass : Rig (List Bytes) := do
  ask env.alloc .allocated
  catchStd ((List.range o.slots).foldlM (referenceSlot env o) []) fun what =>
    returning (retain env .envError (ascii "reference pass failed: " ++ what))

/-- Two digests of the list are equal. -/
def equalPair : List Bytes → Bool
  | [] => false
  | d :: ds => ds.contains d || equalPair ds

/-! ### A round -/

/-- The nonce of a round. -/
def roundNonce (it : ℕ) : UInt32 := 2 + UInt32.ofNat it

/-- The poison of the cells of a round. -/
def poisonRound (ref : List Bytes) (it : ℕ) : Rig Unit :=
  catchStd ((List.range o.slots).forM fun k => do
      if payloadPoisonDigest P (slotCell o k) o.slot_bytes (roundNonce it) = ref.getD k [] then
        returning (retain env .inconclusive (ascii "round poison collides with a reference payload"))
      poisonCell env (slotCell o k) (roundNonce it)
      ask env.alloc .allocated)
    fun what => returning (retain env .envError (ascii "poison production failed: " ++ what))

/-- The workers of a round are created, each with its GET. -/
def spawnRound (it : ℕ) : Rig Unit :=
  catchAll ((List.range o.slots).forM fun k => spawn env ⟨it, k⟩ (slotSetup o k)) do
    let _ ← joinAll env
    returning (retain env .envError (ascii "worker thread creation failed; graph retained"))

/-- The time from the first begin to the last end of the attempts of a context. -/
def hull : List Attempt → Option (ℤ × ℤ)
  | [] => none
  | a :: as => some (as.foldl (fun b a => min b a.t_begin) a.t_begin,
      as.foldl (fun e a => max e a.t_end) a.t_end)

/-- The begin and the end of each context that was entered. -/
def overlapEvents (ctxs : List RigContext) : List (ℤ × ℤ) :=
  ctxs.flatMap fun x =>
    match hull x.attempts with
    | none => []
    | some (b, e) => [(b, 1), (e, -1)]

/-- The order of the events: by time, and ends before begins. -/
def eventLe (x y : ℤ × ℤ) : Prop := x.1 < y.1 ∨ (x.1 = y.1 ∧ x.2 ≤ y.2)

instance : DecidableRel eventLe := fun _ _ => inferInstanceAs (Decidable (_ ∨ _))

/-- The most that a running count of the events reaches. -/
def sweep (ev : List (ℤ × ℤ)) : ℤ :=
  (ev.foldl (fun s e => (s.1 + e.2, max s.2 (s.1 + e.2))) ((0, 0) : ℤ × ℤ)).2

/-- `round_max`. -/
def roundMax (ctxs : List RigContext) : ℤ := sweep ((overlapEvents ctxs).insertionSort eventLe)

/-- The records of a round. -/
def reportRound (runs : List Run) : Rig Unit := do
  runs.forM fun g => do
    emitAttempts env g.1
    emit env .slotReturn
  emit env .round

/-- The GET has returned a wrong length, and not because of the probe. -/
def observedFailure (g : Run) : Bool :=
  !(g.1.evidence_lost || g.1.local_failure) && g.2.present &&
    decide (g.2.value ≠ signed64 o.slot_bytes)

/-- The verdict on a round that left a completion unknown. -/
def unknownVerdict (runs : List Run) (round_max : ℤ) : Verdict :=
  if runs.any (observedFailure o) ∧ 2 ≤ round_max then .fail else .inconclusive

/-- The text of the verdict on a round that left a completion unknown. -/
def unknownWhy (runs : List Run) (round_max : ℤ) : Bytes :=
  if runs.any (observedFailure o) ∧ 2 ≤ round_max then
    ascii "a GET returned short/negative under witnessed overlap; graph retained"
  else if runs.any (observedFailure o) then
    ascii "observed short/negative return without witnessed overlap (G8 INCONCLUSIVE); graph retained"
  else if runs.any fun g => g.1.evidence_lost || g.1.local_failure then
    ascii "probe evidence failure (record lost); not a backend finding; graph retained"
  else ascii "a GET left completion unknown; no reuse; graph retained"

/-- A change of the variables of the rounds. -/
def tally (f : Tally → Tally) : Rig Unit := modify fun w => { w with tally := f w.tally }

/-- The first pass over the GETs of a round, without a read: which have failed already. -/
def passOne (runs : List Run) : Rig (List Bool) :=
  runs.foldlM (fun native_fail g =>
    if g.1.local_failure || nativeOk o g then return native_fail ++ [false]
    else do
      tally fun t => { t with failures := t.failures + 1 }
      report (emit env .slotNativeFailure)
      return native_fail ++ [true]) []

/-- The second pass at a slot. -/
def passTwoSlot (ref : List Bytes) (it k : ℕ) (g : Run) (native_fail : Bool) : Rig Unit := do
  if g.1.local_failure then
    tally fun t => { t with local_in_round := true }
    emit env .slot
  else
    let (ok, d, _) ← slotOk env o ⟨it, k⟩ k g (roundNonce it)
    if !(ok && d = ref.getD k []) && !native_fail then
      tally fun t => { t with failures := t.failures + 1 }
    emit env .slot

/-- The second pass over the GETs of a round, with a look at their landings. -/
def passTwo (ref : List Bytes) (it : ℕ) (runs : List Run) (native_fail : List Bool) : Rig Unit :=
  handle ((runs.zip native_fail).zipIdx.forM fun x =>
      passTwoSlot env o ref it x.2 x.1.1 x.1.2) fun
    | .thrown (.std _) => some do
      tally fun t => { t with observer_failed := true }
      report (emit env .observerFailure)
    | .thrown .other => some do
      tally fun t => { t with observer_failed := true }
      latchFailed
    | .returned _ => none

/-- The GETs of a round and what is seen of them before their landings. -/
def roundGets (ref : List Bytes) (it : ℕ) : Rig (List Run) := do
  tally fun t => { t with local_in_round := false, observer_failed := false }
  ask env.alloc .allocated
  poisonRound env o ref it
  spawnRound env o it
  let runs ← joinAll env
  ask env.alloc .allocated
  tally fun t => { t with max_overlap := max t.max_overlap (roundMax (runs.map Prod.fst)) }
  reportRound env runs
  if runs.any Run.unknown then
    let selected := unknownVerdict o runs (roundMax (runs.map Prod.fst))
    returning (catchAll (retain env selected (unknownWhy o runs (roundMax (runs.map Prod.fst))))
      (terminalFallback selected))
  return runs

/-- A round. -/
def round (ref : List Bytes) (it : ℕ) : Rig Unit := do
  let runs ← roundGets env o ref it
  ask env.alloc .allocated
  let native_fail ← passOne env o runs
  passTwo env o ref it runs native_fail
  let t := (← get).tally
  if t.failures ≠ 0 then
    tally fun t => { t with failing_round_overlap := roundMax (runs.map Prod.fst) }
  else if t.observer_failed then
    returning (retain env .envError (ascii
      "landing observation failed; no independent failure established; graph retained"))
  else if t.local_in_round then
    emit env .roundProbeFailure
    returning (releaseOrRetainAll env .envError
      (ascii "probe-origin failure in a concurrent round (not a backend finding)"))

/-- The rounds, up to the first that fails. -/
def rounds (ref : List Bytes) : ℕ → ℕ → Rig Unit
  | 0, _ => pure ()
  | n + 1, it => do
    round env o ref it
    if (← get).tally.failures = 0 then rounds ref n (it + 1)

/-! ### The verdict -/

/-- The verdict that the rounds lead to. -/
def finalVerdict (t : Tally) : Verdict :=
  if t.failures ≠ 0 then if 2 ≤ t.failing_round_overlap then .fail else .inconclusive
  else if t.max_overlap < 2 then .inconclusive
  else .pass

/-- The text of the verdict after the last round. -/
def finalDetail (t : Tally) : Bytes :=
  if t.failures ≠ 0 then
    if 2 ≤ t.failing_round_overlap then
      ascii "per-slot correctness failure under witnessed overlap; graph retained"
    else
      ascii "per-slot correctness failure without witnessed overlap (G8 INCONCLUSIVE); graph retained"
  else if t.max_overlap < 2 then ascii "no overlap witnessed (max_overlap < 2)"
  else ascii "overlap witnessed; all slots correct against the serial references"

/-- The end of `exp_concurrent`. -/
def conclude : Rig ℤ := do
  let t := (← get).tally
  report (emit env .summary)
  if t.failures ≠ 0 then
    catchAll (retain env (finalVerdict t) (finalDetail t)) (terminalFallback (finalVerdict t))
  else if ← release env then
    catchAll (finish env (finalVerdict t) (finalDetail t)) (terminalFallback (finalVerdict t))
  else
    catchAll (retain env .fail (ascii "deregistration failed; graph retained"))
      (terminalFallback .fail)

/-- The body of `exp_concurrent` while its fixture lives. -/
def concurrentBody : Rig ℤ := do
  registration env
  capacities env o
  let ref ← referencePass env o
  if equalPair ref then
    returning (releaseOrRetainAll env .inconclusive
      (ascii "slot payloads are not distinguishable (equal reference digests)"))
  tally fun _ => {}
  rounds env o ref o.iterations 0
  conclude env

/-- `exp_concurrent`. -/
def expConcurrent : Rig ℤ := function do
  match validateGeometry o o.slots with
  | .error why => finish env .envError why
  | .ok _ => do
    if o.objects ≠ [] ∧ o.objects.length ≠ o.slots then
      returning (finish env .envError (ascii "--objects count must equal --slots"))
    qualifyVisibility env o
    withFixture env (concurrentBody env o)

end Env

end S3Rdma.Probe
