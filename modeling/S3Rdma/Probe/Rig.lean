import S3Rdma.Lib.Ensures
import S3Rdma.Probe.Gate
import S3Rdma.Probe.Options

/-!
# What the experiments of the rig probe are made of

The helpers of `src/probe/rig_probe_main.cpp` that the experiments call: reporting (`report`,
`finish`, `terminal_fallback`), the fixture that owns the arena and the sessions (`Fixture`), a GET
through the SDK (`Session::get`), and the poisoning and reading of cells.

An experiment is a computation (`Rig`) on the state of the process (`World`). It is left early by a
`return` or by an exception (`Stop`), and a handler of the source catches only exceptions. The
environment decides what the code does not: what is printed, what throws, what CUDA and the SDK
return, and what a GET does to its context and to the arena. It decides by all that has happened
before, which is kept in a log of events. Whatever can throw next to an operation is taken to be
that operation's exception.

A GET is over when its callbacks are: its outcome is a state that the callbacks of its context can
reach and in which all of them have returned. That the arena is changed by a GET only if the socket
has accepted a byte of some request of it is an assumption about the environment (`Env.unsent`): the
SDK writes by itself, and what it writes is not in the source.
-/

namespace S3Rdma.Probe

/-! ## The state of the process -/

/-- A C++ exception: a `std::exception` with its text, or another one. -/
inductive Exn where
  | std (what : Bytes)
  | other

/-- How a function is left before its end. -/
inductive Stop where
  | returned (code : ℤ)
  | thrown (e : Exn)

/-- `Verdict`. -/
inductive Verdict where
  | pass
  | fail
  | inconclusive
  | envError
deriving DecidableEq

/-- `verdict_exit`. -/
def verdictExit : Verdict → ℤ
  | .pass => 0
  | .fail => 1
  | .inconclusive => 4
  | .envError => 3

/-- A record, by its event. The fields of a record are not read again, so that only those of the
result are kept. -/
inductive Rec where
  | visibility
  | register
  | callbackMax
  | getBegin
  | attempt
  | getEnd
  | landing
  | deregister
  | guardWitness
  | referenceReturn
  | reference
  | slotReturn
  | round
  | slotNativeFailure
  | slot
  | observerFailure
  | roundProbeFailure
  | summary
  | result (verdict : Verdict) (detail : Bytes) (evidence_output_failed : Bool)

/-- `SdkReturn`. -/
structure SdkReturn where
  value : ℤ := -1
  /-- False when the SDK threw. -/
  present : Bool := false

/-- Which GET it is: its round, or `-1` outside of the rounds, and its slot. -/
structure GetTag where
  iteration : ℤ
  slot : ℤ
deriving DecidableEq

/-- What has happened. -/
inductive Event where
  /-- A record could not be built, or was written and flushed or not. -/
  | printed (r : Rec) (result : Except Exn Bool)
  /-- The line that `terminal_fallback` prints. -/
  | fallback (v : Verdict)
  | allocated (result : Except Exn Unit)
  | attribute (value : Option ℤ)
  | clock (now : ℤ)
  | constructed (result : Except Exn Unit)
  | registered (result : Except Exn ℤ)
  | callbackMax (rc : ℤ)
  | poisoned (c : Cell) (result : Except Exn Unit)
  | issued (get : GetTag)
  | spawnFailed (e : Exn)
  | returned (get : GetTag) (u : RigSetup) (s : System) (r : SdkReturn)
  | read (get : GetTag) (off : ℕ) (result : Except Exn Bytes)
  | deregistered (rc : ℤ)
  | retained
  /-- The sessions and the arena are destroyed. -/
  | destroyed

/-- `Fixture`: its flags. -/
structure Fixture where
  registered : Bool := false
  released : Bool := false
  retained : Bool := false

/-- The variables of `exp_concurrent` that are changed where an exception can be caught. -/
structure Tally where
  max_overlap : ℤ := 0
  failing_round_overlap : ℤ := 0
  failures : ℕ := 0
  local_in_round : Bool := false
  observer_failed : Bool := false

/-- The state of the process. -/
structure World where
  jsonl_output_failed : Bool
  fixture : Fixture := {}
  arena : ℕ → UInt8 := fun _ => 0
  /-- The workers that are running, each with its GET. -/
  threads : List (GetTag × RigSetup) := []
  tally : Tally := {}
  log : List Event := []

/-- A GET that is over. -/
structure Get (P : Platform) (u : RigSetup) where
  s : System
  reachable : s.Reachable P u
  quiet : ∀ c ∈ s.calls, c.done = true
  /-- What `cuObjGet` has returned, unless it threw. -/
  value : Option ℤ

/-- The environment, which answers by what has happened before. -/
structure Env (P : Platform) where
  print : List Event → Except Exn Bool
  alloc : List Event → Except Exn Unit
  ordering : List Event → Option ℤ
  clock : List Event → ℤ
  construct : List Event → Except Exn Unit
  register : List Event → Except Exn ℤ
  callbackMax : List Event → Except Exn ℤ
  deregister : List Event → Except Exn ℤ
  write : List Event → Except Exn Unit
  read : List Event → Except Exn Unit
  spawn : List Event → Except Exn Unit
  get : List Event → (u : RigSetup) → Get P u
  /-- The arena after a GET, by what it was before. -/
  deliver : List Event → System → (ℕ → UInt8) → ℕ → UInt8
  /-- A GET changes the arena only if the socket has accepted a byte of some request of it. -/
  unsent : ∀ log (s : System) arena, s.emissions = 0 → deliver log s arena = arena
  /-- The arena after a write that failed. -/
  memory : List Event → ℕ → UInt8

/-- A computation of the probe. -/
abbrev Rig := EStateM Stop World

/-- Something happens. -/
def World.note (w : World) (e : Event) : World := { w with log := w.log ++ [e] }

/-- The environment answers. -/
def look {α : Type} (answer : List Event → α) (event : α → Event) : Rig α := fun w =>
  .ok (answer w.log) (w.note (event (answer w.log)))

/-- The environment answers or throws. -/
def ask {α : Type} (answer : List Event → Except Exn α) (event : Except Exn α → Event) : Rig α :=
  fun w =>
    match answer w.log with
    | .ok a => .ok a (w.note (event (.ok a)))
    | .error e => .error (.thrown e) (w.note (event (.error e)))

/-- The SDK answers; if it throws, the session's wrapper returns `-1`. -/
def orMinusOne (answer : List Event → Except Exn ℤ) (log : List Event) : ℤ :=
  match answer log with
  | .ok rc => rc
  | .error _ => -1

/-! ## Leaving a function -/

/-- `return` of a value that is computed first. -/
def returning {α : Type} (m : Rig ℤ) : Rig α := do throw (.returned (← m))

/-- The call of a function with a body. -/
def function (m : Rig ℤ) : Rig ℤ :=
  handle m fun
    | .returned code => some (pure code)
    | .thrown _ => none

/-- `catch (const std::exception& e)`. -/
def catchStd {α : Type} (m : Rig α) (k : Bytes → Rig α) : Rig α :=
  handle m fun
    | .thrown (.std what) => some (k what)
    | _ => none

/-- `catch (...)`. -/
def catchAll {α : Type} (m : Rig α) (k : Rig α) : Rig α :=
  handle m fun
    | .thrown _ => some k
    | .returned _ => none

section Env

variable {P : Platform} (env : Env P)

/-! ## Reporting -/

/-- `jsonl_output_failed() = true`. -/
def latchFailed : Rig Unit := modify fun w => { w with jsonl_output_failed := true }

/-- A record is built and emitted. -/
def emit (r : Rec) : Rig Unit := do
  let written ← ask env.print (.printed r)
  unless written do latchFailed

/-- `report`. -/
def report (m : Rig Unit) : Rig Unit := catchAll m latchFailed

/-- `terminal_fallback`. -/
def terminalFallback (v : Verdict) : Rig ℤ := do
  latchFailed
  modify fun w => w.note (.fallback (if v = .pass then .inconclusive else v))
  return 3

/-- `finish`. -/
def finish (v : Verdict) (detail : Bytes) : Rig ℤ := do
  let failed := (← get).jsonl_output_failed
  let v := if failed && v = .pass then .inconclusive else v
  emit env (.result v detail failed)
  return if (← get).jsonl_output_failed then 3 else verdictExit v

/-- `emit_attempts`. -/
def emitAttempts (x : RigContext) : Rig Unit := x.attempts.forM fun _ => emit env .attempt

/-! ## The fixture -/

/-- `Fixture::retain_now`. -/
def World.retainNow (w : World) : World :=
  if w.fixture.retained then w
  else { w with fixture := { w.fixture with retained := true } }.note .retained

/-- `Fixture::~Fixture`. -/
def World.destruct (w : World) : World := if w.fixture.released then w else w.retainNow

/-- `Fixture::Fixture`. If it throws, the members that were constructed are destroyed. -/
def construct : Rig Unit := fun w =>
  match env.construct w.log with
  | .ok _ => .ok () (w.note (.constructed (.ok ())))
  | .error e => .error (.thrown e) ((w.note (.constructed (.error e))).note .destroyed)

/-- The scope of a fixture. -/
def withFixture {α : Type} (m : Rig α) : Rig α := do
  construct env
  always m World.destruct

/-- `Fixture::register_memory`. -/
def registerMemory : Rig ℤ := do
  let rc ← ask env.register .registered
  modify fun w => { w with fixture := { w.fixture with registered := rc = 0 } }
  return rc

/-- `Fixture::release`. -/
def release : Rig Bool := do
  let fx := (← get).fixture
  if fx.released || fx.retained then return false
  else
    let drc ← if fx.registered then look (orMinusOne env.deregister) .deregistered else pure 0
    unless drc = 0 do modify World.retainNow
    catchAll (emit env .deregister) latchFailed
    if drc ≠ 0 then return false
    else
      modify fun w => { w with fixture := { w.fixture with registered := false, released := true } }
      modify fun w => w.note .destroyed
      return true

/-- `Fixture::retain`. -/
def retain (v : Verdict) (why : Bytes) : Rig ℤ := do
  modify World.retainNow
  emit env .landing
  finish env v why

/-! ## GETs -/

/-- The outcome of a GET as the probe sees it. -/
abbrev Run := RigContext × SdkReturn

/-- What `Session::get` returns. -/
def sdkReturn (value : Option ℤ) : SdkReturn :=
  match value with
  | some value => ⟨value, true⟩
  | none => {}

/-- A GET that was issued comes to its end. -/
def await (t : GetTag) (u : RigSetup) : Rig Run := fun w =>
  let g := env.get w.log u
  let r := sdkReturn g.value
  .ok (g.s.ctx, r) ({ w with arena := env.deliver w.log g.s w.arena }.note (.returned t u g.s r))

/-- A GET on the calling thread. -/
def sdkGet (t : GetTag) (u : RigSetup) : Rig Run := do
  modify fun w => w.note (.issued t)
  await env t u

/-- A worker is created, with its GET. -/
def spawn (t : GetTag) (u : RigSetup) : Rig Unit := fun w =>
  match env.spawn w.log with
  | .ok _ => .ok () ({ w with threads := w.threads ++ [(t, u)] }.note (.issued t))
  | .error e => .error (.thrown e) (w.note (.spawnFailed e))

/-- The workers are joined, in their order. -/
def joinAll : Rig (List Run) := do
  let threads := (← get).threads
  modify fun w => { w with threads := [] }
  threads.foldlM (fun runs t => return runs ++ [← await env t.1 t.2]) []

/-! ## The memory of the arena -/

/-- The loop of `poison_pattern`. -/
def poisonLoop : ℕ → UInt32 → Bytes
  | 0, _ => []
  | n + 1, x =>
    let x := x * 1664525 + 1013904223
    ((x >>> 24).toUInt8 ^^^ 0xA5) :: poisonLoop n x

/-- `poison_pattern`. -/
def poisonPattern (len : ℕ) (nonce : UInt32) : Bytes := poisonLoop len (0x9E3779B9 ^^^ nonce)

/-- The arena after bytes were written at an offset. -/
def writeSpan (arena : ℕ → UInt8) (off : ℕ) (bytes : Bytes) : ℕ → UInt8 := fun i =>
  if off ≤ i ∧ i < off + bytes.length then bytes.getD (i - off) 0 else arena i

/-- The bytes of the arena at an offset. -/
def spanAt (arena : ℕ → UInt8) (off len : ℕ) : Bytes := (List.range len).map fun i => arena (off + i)

/-- `poison_cell`. -/
def poisonCell (c : Cell) (nonce : UInt32) : Rig Unit := fun w =>
  match env.write w.log with
  | .ok _ =>
    .ok () ({ w with arena := writeSpan w.arena c.base (poisonPattern c.size nonce) }.note
      (.poisoned c (.ok ())))
  | .error e =>
    .error (.thrown e) ({ w with arena := env.memory w.log }.note (.poisoned c (.error e)))

/-- `read_span`, in the landing of a GET. -/
def readSpan (t : GetTag) (off len : ℕ) : Rig Bytes := fun w =>
  match env.read w.log with
  | .ok _ => .ok (spanAt w.arena off len) (w.note (.read t off (.ok (spanAt w.arena off len))))
  | .error e => .error (.thrown e) (w.note (.read t off (.error e)))

/-- The loop of `poison_intact_outside`, over what was read. -/
def poisonIntact (c : Cell) (landed : ℕ) (nonce : UInt32) (whole : Bytes) : Bool :=
  let expect := poisonPattern c.size nonce
  (List.range c.size).all fun i =>
    (c.guard ≤ i && i < add64 c.guard landed) || whole.getD i 0 == expect.getD i 0

/-- `poison_intact_outside`. -/
def poisonIntactOutside (t : GetTag) (c : Cell) (landed : ℕ) (nonce : UInt32) : Rig Bool :=
  return poisonIntact c landed nonce (← readSpan env t c.base c.size)

/-- `digest_of`. -/
def digestOf (P : Platform) (v : Bytes) : Bytes := sha256Hex P v

/-- `payload_poison_digest`. -/
def payloadPoisonDigest (P : Platform) (c : Cell) (n : ℕ) (nonce : UInt32) : Bytes :=
  sha256Hex P (((poisonPattern c.size nonce).drop c.guard).take n)

/-! ## The GPU's visibility -/

/-- `Visibility`. -/
structure Visibility where
  name : Bytes := ascii "unknown"
  trustworthy : Bool := false

/-- What `cudaDevAttrGPUDirectRDMAWritesOrdering` says, if it can be queried. -/
def visibilityOf (ordering : Option ℤ) : Visibility :=
  match ordering with
  | none => { name := ascii "query_failed" }
  | some value =>
    if value = 200 then ⟨ascii "all_devices", true⟩
    else if value = 100 then ⟨ascii "owner", true⟩
    else if value = 0 then { name := ascii "none" }
    else {}

/-- `read_visibility`. -/
def readVisibility (mode : BufferMode) : Rig Visibility :=
  match mode with
  | .host => pure ⟨ascii "host_na", true⟩
  | .gpu => return visibilityOf (← look env.ordering .attribute)

end Env

end S3Rdma.Probe
