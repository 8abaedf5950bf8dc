import S3Rdma.Probe.Experiments

/-!
# The rig probe as a process

`main` of `src/probe/rig_probe_main.cpp` and the experiments that are about the process itself:
`exp_attr`, `exp_reg`, and `exp_exit`, which runs the probe again as a child (`exp_exit_child`) and
waits for its end.

The state of a process (`Proc`) is that of the experiments, with a log of what else it has done. An
experiment of `Experiments.lean` is run as a part of it (`rig`). The parent's polling loop has fuel,
and to run out of it is an end of its own (`Halt.fuel`).
-/

namespace S3Rdma.Probe

/-! ## The state of a process -/

/-- How a child has ended. -/
inductive WaitStatus where
  | exited (code : ℕ)
  | signaled (signal : ℕ)
deriving DecidableEq

/-- What `waitpid` returns with `WNOHANG`: the child has not ended, has ended, or there is an
error. -/
inductive Waited where
  | running
  | reaped (status : WaitStatus)
  | failed (errno : ℤ)
deriving DecidableEq

/-- A record that is not one of the experiments'. Of the fields those are kept that say what became
of the GET and of the child. -/
inductive ProcRec where
  | env
  | attr
  | childGet (known_complete : Bool)
  | childExit
  | parent (deadline_hit : Bool) (status : Option WaitStatus)

/-- What else has happened in a process. -/
inductive ProcEvent where
  | printed (r : ProcRec) (result : Except Exn Bool)
  /-- The line that `main` prints for an exception. -/
  | uncaught
  | setDevice (ok : Bool)
  /-- What the two attributes are, as far as they can be queried. -/
  | attributes (ordering flush : Option ℤ)
  /-- The block of `exp_reg` and its client. -/
  | malloc (ok : Bool)
  | session (result : Except Exn Unit)
  | freed
  | leaked
  | closed
  /-- `_exit`. -/
  | exit_
  /-- The system calls of the parent; `kill` has an `errno`, or `0`. -/
  | readlink (ok : Bool)
  | clock (now : ℤ)
  | fork (pid : ℤ)
  | waited (w : Waited)
  | slept
  | killed (errno : ℤ)

/-- The state of a process. -/
structure Proc where
  world : World
  events : List ProcEvent := []

/-- What ends a computation of a process early. -/
inductive Halt where
  | stop (s : Stop)
  | fuel

/-- A computation of a process. -/
abbrev Prog := EStateM Halt Proc

/-- The environment of a process, which answers by what has happened before. -/
structure ProcEnv (P : Platform) where
  rig : Env P
  getenv : Bytes → Option Bytes
  strerror : ℤ → Bytes
  print : Proc → Except Exn Bool
  setDevice : Proc → Bool
  attributes : Proc → Option ℤ × Option ℤ
  malloc : Proc → Bool
  session : Proc → Except Exn Unit
  readlink : Proc → Bool
  clock : Proc → ℤ
  fork : Proc → ℤ
  wait : Proc → Waited
  kill : Proc → ℤ

/-- Something happens. -/
def Proc.note (p : Proc) (e : ProcEvent) : Proc := { p with events := p.events ++ [e] }

/-- An event of the process. -/
def happen (e : ProcEvent) : Prog Unit := modify fun p => p.note e

/-- The environment answers. -/
def see {α : Type} (answer : Proc → α) (event : α → ProcEvent) : Prog α := fun p =>
  .ok (answer p) (p.note (event (answer p)))

/-- The environment answers or throws. -/
def try_ {α : Type} (answer : Proc → Except Exn α) (event : Except Exn α → ProcEvent) : Prog α :=
  fun p =>
    match answer p with
    | .ok a => .ok a (p.note (event (.ok a)))
    | .error e => .error (.stop (.thrown e)) (p.note (event (.error e)))

/-- A part of an experiment. -/
def rig {α : Type} (m : Rig α) : Prog α := fun p =>
  match m p.world with
  | .ok a w => .ok a { p with world := w }
  | .error s w => .error (.stop s) { p with world := w }

section Env

variable {P : Platform} (env : ProcEnv P) (o : Options)

/-- A record is built and emitted. -/
def record (r : ProcRec) : Prog Unit := do
  let written ← try_ env.print (.printed r)
  unless written do rig latchFailed

/-- The flag of the reports. -/
def outputFailed : Prog Bool := return (← get).world.jsonl_output_failed

/-! ## Attributes and registration -/

/-- `exp_attr`. -/
def expAttr : Prog ℤ := do
  let (ordering, flush) ← see env.attributes fun a => .attributes a.1 a.2
  record env .attr
  if ordering.isSome && flush.isSome then rig (finish env.rig .pass (ascii "attributes recorded"))
  else rig (finish env.rig .envError (ascii "attribute query incomplete"))

/-- The size of the block of `exp_reg`. -/
def regBytes : Option ℕ :=
  if o.slot_bytes = 0 ∨ o.slot_bytes > kSsizeMax ∨ o.slots = 0 ∨ o.slots > 256 then none
  else (checkedMul o.slots o.slot_bytes).filter (· ≤ kMaxReg)

/-- The text for a block that has none. -/
def regWhy : Bytes := ascii "W*S invalid or exceeds CUOBJ_MAX_MEMORY_REG_SIZE"

/-- `Session::~Session`. -/
def Proc.closeSession (leaked : Bool) (p : Proc) : Proc := if leaked then p else p.note .closed

/-- The client has been leaked. -/
def ProcEvent.isLeaked : ProcEvent → Bool
  | .leaked => true
  | _ => false

/-- `exp_reg` while its session lives. -/
def regBody : Prog ℤ := do
  let rc ← rig (ask env.rig.register .registered)
  rig (emit env.rig .register)
  if rc ≠ 0 then
    happen .freed
    rig (finish env.rig .fail (ascii "registration of a dedicated cudaMalloc block refused"))
  else
    let at_base ← rig (look (orMinusOne env.rig.callbackMax) .callbackMax)
    let at_last ← rig (look (orMinusOne env.rig.callbackMax) .callbackMax)
    rig (emit env.rig .callbackMax)
    let drc ← rig (look (orMinusOne env.rig.deregister) .deregistered)
    unless drc = 0 do happen .leaked
    rig (emit env.rig .deregister)
    if drc ≠ 0 then
      rig (finish env.rig .fail (ascii "deregistration failed; block and client retained"))
    else
      happen .freed
      if signed64 o.slot_bytes ≤ at_base ∧ signed64 o.slot_bytes ≤ at_last then
        rig (finish env.rig .pass
          (ascii "capacity supports S without splitting; retry behaviour is measured separately"))
      else
        rig (finish env.rig .fail
          (ascii "callback size below S: construction refused for this S"))

/-- `exp_reg`. -/
def expReg : Prog ℤ := do
  if (regBytes o).isNone then rig (finish env.rig .envError regWhy)
  else if !(← see env.malloc .malloc) then
    rig (finish env.rig .envError (ascii "cudaMalloc failed"))
  else
    try_ env.session .session
    always (regBody env o) fun p => p.closeSession (p.events.any ProcEvent.isLeaked)

/-! ## The child -/

/-- The context of the GET of `exp_exit_child`. -/
def exitSetup : RigSetup where
  proto := some o.proto
  host := o.host
  port := o.port
  path := ascii "/" ++ o.bucket ++ ascii "/" ++ o.object
  range := plainRange 0 (o.slot_bytes - 1)
  expected := o.slot_bytes

/-- The one GET of `exp_exit_child`. -/
def exitTag : GetTag := ⟨-1, 0⟩

/-- `complete`. -/
def knownComplete (g : Run) : Bool :=
  g.2.present && g.2.value = signed64 o.slot_bytes && !g.1.unknown && !g.1.evidence_lost &&
    g.1.invocations = 1 && g.1.attempts.length = 1 &&
    g.1.attempts.head?.any Attempt.qualified_complete

/-- `exp_exit_child`. Its fixture is never destroyed. -/
def expExitChild : Prog ℤ :=
  match validateGeometry o 1 with
  | .error _ => return 3
  | .ok _ => do
    let vis ← rig (readVisibility env.rig o.mode)
    if !vis.trustworthy then return 3
    else
      rig (construct env.rig)
      let rc ← rig (registerMemory env.rig)
      if rc ≠ 0 then return 3
      else
        let run ← rig (sdkGet env.rig exitTag (exitSetup o))
        rig (emitAttempts env.rig run.1)
        record env (.childGet (knownComplete o run))
        if !knownComplete o run then return if ← outputFailed then 5 else 1
        else
          record env .childExit
          let status := if ← outputFailed then 5 else 0
          if o.abrupt then happen .exit_
          return status

/-! ## The parent -/

/-- `EINTR`. -/
def EINTR : ℤ := 4

/-- How a polling loop ends: by a child that was reaped, an error, or because the time is over. -/
inductive Polled where
  | reaped (status : WaitStatus)
  | failed (errno : ℤ)
  | late

/-- The polling loops of `exp_exit`. -/
def poll (until_ : ℤ) : ℕ → Prog Polled
  | 0 => throw .fuel
  | fuel + 1 => do
    let now ← see env.clock .clock
    if until_ ≤ now then return .late
    else
      match ← see env.wait .waited with
      | .reaped status => return .reaped status
      | .failed errno =>
        if errno ≠ EINTR then return .failed errno
        else
          happen .slept
          poll until_ fuel
      | .running =>
        happen .slept
        poll until_ fuel

/-- The verdict on a child that has ended in time. -/
def exitVerdict (abrupt : Bool) : WaitStatus → Verdict × Bytes
  | .exited 127 => (.envError, ascii "child exec failed")
  | .exited 3 => (.envError, ascii "child could not set up (see stderr)")
  | .exited 1 => (.inconclusive, ascii "child GET not known-complete; no exit claim")
  | .exited 5 => (.inconclusive, ascii "child evidence output failed; exit path not qualified")
  | .exited 0 =>
    if abrupt then
      (.inconclusive, ascii "abrupt-exit observation (not normal-exit qualification)")
    else
      (.pass, ascii
        "normal return with retained graph, exit 0; run the post-run health check separately")
  | _ => (.fail, ascii "child crashed or failed on the exit path")

/-- `exp_exit` after the deadline. -/
def exitLate (fuel : ℕ) : Prog ℤ := do
  let _ ← see env.kill .killed
  let now ← see env.clock .clock
  match ← poll env (now + 5000000000) fuel with
  | .reaped status =>
    record env (.parent true (some status))
    rig (finish env.rig .fail
      (ascii "child did not exit within the deadline (killed; abnormal evidence)"))
  | _ =>
    record env (.parent true none)
    rig (finish env.rig .fail
      (ascii "child did not exit and could not be reaped; unresolved (pid recorded)"))

/-- `exp_exit`, in the parent. -/
def expExit (fuel : ℕ) : Prog ℤ := do
  if !(← see env.readlink .readlink) then
    rig (finish env.rig .envError (ascii "cannot resolve /proc/self/exe"))
  else
    let t0 ← see env.clock .clock
    let pid ← see env.fork .fork
    if pid < 0 then rig (finish env.rig .envError (ascii "fork failed"))
    else
      match ← poll env (t0 + o.deadline_s * 1000000000) fuel with
      | .failed errno =>
        rig (finish env.rig .envError (ascii "waitpid failed: " ++ env.strerror errno))
      | .late => exitLate env fuel
      | .reaped status =>
        record env (.parent false (some status))
        rig (finish env.rig (exitVerdict o.abrupt status).1 (exitVerdict o.abrupt status).2)

/-! ## The program -/

/-- The experiments that `main` runs with a device. -/
def dispatch : Prog ℤ :=
  if o.exp = ascii "reg" then expReg env o
  else if o.exp = ascii "diag" then rig (expSingleGet env.rig o false)
  else if o.exp = ascii "rt-guard" then rig (expSingleGet env.rig o true)
  else if o.exp = ascii "c" then rig (expConcurrent env.rig o)
  else expExitChild env o

/-- The names of the experiments that use the device. -/
def deviceExperiments : List Bytes :=
  [ascii "reg", ascii "diag", ascii "rt-guard", ascii "c", ascii "exit"]

/-- What `main` checks before it uses the device; `none` when there is nothing to object to. -/
def precheck : Option Bytes :=
  if o.exp = ascii "reg" then if (regBytes o).isNone then some regWhy else none
  else
    match validateGeometry o (if o.exp = ascii "c" then o.slots else 1) with
    | .error why => some why
    | .ok _ => none

/-- `main` after the command line has been read. -/
def mainWith (fuel : ℕ) : Prog ℤ := do
  record env .env
  if o.exp = ascii "exit" ∧ o.child = false then expExit env o fuel
  else if o.exp = ascii "attr" then expAttr env
  else if !deviceExperiments.contains o.exp then return 2
  else
    match precheck o with
    | some why => rig (finish env.rig .envError why)
    | none =>
      if !(← see env.setDevice .setDevice) then
        rig (finish env.rig .envError (ascii "cudaSetDevice(0) failed"))
      else
        handle (dispatch env o) fun
          | .stop (.thrown _) => some do
            happen .uncaught
            return 3
          | _ => none

/-- `main`, of the arguments after the program's name. -/
def main (args : List Bytes) (fuel : ℕ) : Prog ℤ :=
  match parseArgs args with
  | none => return 2
  | some o =>
    match finishProtocolOptions env.getenv o.proto with
    | .error why => rig (finish env.rig .envError why)
    | .ok proto => mainWith env { o with proto } fuel

/-- A process before it has done anything. -/
def Proc.start : Proc where
  world := { jsonl_output_failed := false }

end Env

end S3Rdma.Probe
