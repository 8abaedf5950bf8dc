import S3Rdma.Common.CompletionAuthority
import S3Rdma.Lib.Runs
import S3Rdma.Lib.Tickets

/-!
# The rig probe's callback

`rig_callback` and `rig_callback_impl` of `src/probe/rig_probe_main.cpp`. The SDK calls the callback
any number of times for one GET, and from several threads at once. A call is a thread that runs
through its program points (`Pc`); between two points it makes one access to the shared counters and
flags of its `RigContext`. A step of the system is one such access, by any call, so a run is an
interleaving.

The environment decides what the code does not: when a call enters and with which arguments, what
the clocks say, what the network does, which allocation fails, and in which order the two operands
of a comparison are loaded. The counters of the source are of type `std::atomic<int>` and are
integers here: a call enters only while fewer than `INT_MAX` have, and then no counter leaves the
range of an `int` (`S3Rdma/Probe/Counters.lean`).

Two history variables are carried along that the code does not have: whether the socket has accepted
a byte of the call's request, and the ticket that the call holds in the sense of
`S3Rdma/Lib/Tickets.lean`.
-/

namespace S3Rdma.Probe

/-- `ENOTSUP` on Linux. -/
def ENOTSUP : ℤ := 95

/-- The largest `int`. -/
def INT_MAX : ℤ := 2^31 - 1

/-- `kMaxHead`. -/
def kMaxHead : ℕ := 64 * 1024

/-- `kMaxBody`. -/
def kMaxBody : ℕ := 64 * 1024

/-- A `size_t` cast to a signed type of the same width. -/
def signed64 (n : ℕ) : ℤ := (n : ℤ).bmod (2^64)

/-- A length that fits in a signed word. -/
theorem signed64_eq {n : ℕ} (h : n < 2^63) : signed64 n = n := by
  unfold signed64
  rw [Int.bmod_eq_of_le (by omega) (by omega)]

/-- The part of `RigContext` that is set before the GET and not changed by it. -/
structure RigSetup where
  /-- The options; the pointer may be null. -/
  proto : Option ProtocolOptions
  host : Bytes
  port : ℤ := 8080
  path : Bytes
  range : Bytes
  expected : ℕ
  guard : Bool := false
  first_return : ℤ := 0

/-- `Attempt`: the record of a call, without the fields that are only printed. -/
structure Attempt where
  invocation : ℤ := 0
  t_begin : ℤ := 0
  t_end : ℤ := 0
  guarded : Bool := false
  http_attempt : Bool := false
  response : Bool := false
  http_status : ℕ := 0
  /-- `reply_kind` and `reply_code`, once there is a response. -/
  reply : Option RdmaReply := none
  count_present : Bool := false
  declared : ℤ := 0
  request_partial : Bool := false
  entered_while_active : Bool := false
  thread : ℕ := 0
  probe_failure : Bool := false
  cb_size : ℤ := 0
  cb_offset : ℤ := 0
  natural_return : ℤ := 0
  returned : ℤ := 0
  injection_applied : Bool := false
  qualified_complete : Bool := false
  completion_candidate : Bool := false
deriving DecidableEq

/-- The part of `RigContext` that the calls share and change. -/
structure RigContext where
  invocations : ℤ := 0
  http_attempts : ℤ := 0
  partial_messages : ℤ := 0
  tokenless_messages : ℤ := 0
  active : ℤ := 0
  local_failure : Bool := false
  submitted : ℤ := 0
  completed : ℤ := 0
  responses : ℤ := 0
  unknown : Bool := false
  evidence_lost : Bool := false
  attempts : List Attempt := []
deriving DecidableEq

/-- Where a call is: before which access to the shared state. -/
inductive Pc where
  /-- After the entry section. -/
  | entered
  /-- Before `ctx->guard || ctx->unknown.load()`. -/
  | gating
  /-- Before the target and the headers are built. -/
  | building
  /-- The target and the headers could not be built. -/
  | failing
  /-- Before `submitted.fetch_add(1)`. -/
  | submitting
  /-- Before `unknown.store(true)`. -/
  | latching
  /-- In `raw_http_get`. -/
  | exchanging
  /-- `raw_http_get` threw `std::invalid_argument`. -/
  | refused
  /-- Before `submitted.fetch_sub(1)`. -/
  | takingBack
  /-- In `submitted.load() == completed.load()`, with what was loaded. -/
  | comparing (submitted completed : Option ℤ)
  /-- Before `unknown.store(false)` of a submission that was taken back. -/
  | clearing
  /-- After that. -/
  | tookBack
  /-- Before the counters of messages. -/
  | counting
  /-- Before the receipt is looked at. -/
  | recording
  /-- Before the record is completed from the receipt. -/
  | reading
  /-- Before `qualified_complete && submitted.load() == 1`. -/
  | qualifying
  /-- Before `completed.fetch_add(1)`. -/
  | completing
  /-- Before `unknown.store(false)` of a completed submission. -/
  | releasing
  /-- Before the return value is chosen. -/
  | finishing
  /-- Before the record is closed, with the value to return and whether nothing is checked after
  `push`. -/
  | ending (rc : ℤ) (last : Bool)
  /-- Before `push`. -/
  | pushing (rc : ℤ) (last : Bool)
  /-- Before `evidence_lost.load()`. -/
  | checking (rc : ℤ)
  /-- In the handler of `rig_callback`, with what was loaded. -/
  | catching (submitted completed : Option ℤ)
  /-- Before `unknown.store(true)` of that handler. -/
  | catchLatching
  /-- Before `evidence_lost.store(true)` of that handler. -/
  | catchLosing
  /-- Before the destructor of `Leave`. -/
  | leaving (rc : ℤ)
  | returned (rc : ℤ)
deriving DecidableEq

/-- A call: its arguments, its local variables, and what has happened to it. -/
structure Call where
  thread : ℕ
  /-- The descriptor; the pointer may be null. -/
  rdma : Option Bytes
  size : ℕ
  offset : ℤ
  pc : Pc := .entered
  at_ : Attempt
  target : Bytes := []
  headers : HeaderList := []
  res : Option RawResponse := none
  /-- The socket has accepted a byte of the request. -/
  emitted : Bool := false
  ticket : Ticket := .none

/-- What the environment lets a call do next. -/
inductive Move where
  /-- The next step of the code. -/
  | next
  /-- The headers are built, at this time of day. -/
  | build (time : ℤ)
  /-- An allocation fails: in the building of the headers, or in `push`. -/
  | fail
  /-- The socket accepts bytes of the request. -/
  | accept
  /-- `raw_http_get` returns. -/
  | reply (net : Network)
  /-- An operand of a comparison is loaded. -/
  | loadSubmitted
  | loadCompleted
  /-- An exception leaves `rig_callback_impl`. -/
  | throw

/-- `http_host_header(ctx->host, ctx->port)`. -/
def RigSetup.hostHeader (u : RigSetup) : Bytes := httpHostHeader u.host u.port

/-- The receipt of a call was accepted by the completion authority. -/
def Call.accepted (u : RigSetup) (c : Call) : Bool :=
  match u.proto, c.res with
  | some proto, some res => completionAuthority (viewReceipt res c.size) proto u.expected c.size
  | _, _ => false

/-- `completion_candidate`. -/
def completionCandidate (a : Attempt) (proto : ProtocolOptions) (expected requested : ℕ) : Bool :=
  if !a.response || (a.http_status ≠ 200 && a.http_status ≠ 206) then false
  else
    match a.reply with
    | some (.code code) =>
      if !a.count_present || a.declared < 0 || a.declared ≠ expected then false
      else
        match proto.token_encoding with
        | .base64 => code = 200 ∧ expected = requested
        | .verbatim => code = a.http_status
    | _ => false

/-- The value that the callback returns for a response by itself. -/
def naturalReturn (proto : ProtocolOptions) (v : ReceiptView) (reply : RdmaReply) (size : ℕ) : ℤ :=
  if v.present ∧ (v.status = 200 ∨ v.status = 206) then
    match proto.token_encoding with
    | .base64 => signed64 size
    | .verbatim => if reply = .code v.status ∧ 0 ≤ v.declared then v.declared else -ENOTSUP
  else -ENOTSUP

/-- The record of a call when its receipt has been looked at. -/
def recordReceipt (u : RigSetup) (proto : ProtocolOptions) (size : ℕ) (res : RawResponse)
    (a : Attempt) : Attempt :=
  let view := viewReceipt res size
  let reply := parseRdmaReply (if 0 < view.reply_count then some view.reply_raw else none)
  let a := if view.present then
      { a with
        response := true, http_status := view.status, reply := some reply,
        count_present := decide (0 < view.count_count), declared := view.declared }
    else a
  { a with
    natural_return := naturalReturn proto view reply size
    completion_candidate := completionCandidate a proto u.expected size
    qualified_complete := completionAuthority view proto u.expected size }

/-! ## The steps of a call -/

section Steps

variable (P : Platform) (u : RigSetup)

/-- The request of a call as `raw_http_get` builds it. -/
def Call.request (c : Call) : Except Bytes (Bytes × Bool) :=
  buildRequest u.hostHeader c.target c.headers

/-- The target and the headers of a call, built at a time of day. -/
def Call.build (c : Call) (time : ℤ) : Option Call :=
  match c.rdma, u.proto with
  | some desc, some proto =>
    match controlPlaneHeaders P proto (ascii "GET") u.hostHeader u.path u.range
        (encodeRdmaToken desc proto.token_encoding) time with
    | .ok headers =>
      some { c with target := controlPlaneTarget proto u.path, headers, pc := .submitting }
    | .error _ => some { c with pc := .failing }
  | _, _ => none

/-- `raw_http_get` returns to a call. -/
def Call.receive (c : Call) (net : Network) : Option Call :=
  match rawHttpGet u.hostHeader c.target c.headers kMaxHead kMaxBody net with
  | .ok (res, _) =>
    if c.emitted = decide (0 < res.request_bytes) then
      some { c with
        res := some res
        at_ := { c.at_ with request_partial := res.request_partial }
        pc := if !res.request_sent && !res.request_partial then .takingBack else .counting }
    else none
  | .error _ => none

/-- The counters of messages. -/
def countMessage (res : RawResponse) (x : RigContext) : RigContext :=
  if res.request_sent && res.token_bearing then { x with http_attempts := x.http_attempts + 1 }
  else if res.request_sent then { x with tokenless_messages := x.tokenless_messages + 1 }
  else { x with partial_messages := x.partial_messages + 1 }

/-- What a call does next, at a time of the clock: the access to the shared state at its program
point, and what follows up to the next access. -/
def act (now : ℤ) (x : RigContext) (c : Call) (m : Move) : Option (RigContext × Call) :=
  match c.pc, m with
  | .entered, .next =>
    if c.rdma.isNone || u.proto.isNone then some (x, { c with pc := .leaving (-ENOTSUP) })
    else
      some (x, { c with
        pc := .gating
        at_ := { c.at_ with t_begin := now, cb_size := signed64 c.size, cb_offset := c.offset } })
  | .gating, .next =>
    if 1 ≤ c.at_.invocation ∧ (u.guard || x.unknown) then
      some (x, { c with pc := .ending (-ENOTSUP) true, at_ := { c.at_ with guarded := true } })
    else some (x, { c with pc := .building })
  | .building, .build time => (c.build P u time).map fun c => (x, c)
  | .building, .fail => some (x, { c with pc := .failing })
  | .failing, .next =>
    some ({ x with local_failure := true },
      { c with pc := .ending (-ENOTSUP) true, at_ := { c.at_ with probe_failure := true } })
  | .submitting, .next =>
    some ({ x with submitted := x.submitted + 1 }, { c with pc := .latching, ticket := .taken })
  | .latching, .next => some ({ x with unknown := true }, { c with pc := .exchanging })
  | .exchanging, .accept =>
    match c.request u with
    | .ok _ => some (x, { c with emitted := true })
    | .error _ => none
  | .exchanging, .reply net => (c.receive u net).map fun c => (x, c)
  | .exchanging, .next =>
    match c.request u with
    | .ok _ => none
    | .error _ => some (x, { c with pc := .refused })
  | .refused, .next =>
    some ({ x with local_failure := true },
      { c with pc := .takingBack, at_ := { c.at_ with probe_failure := true } })
  | .takingBack, .next =>
    some ({ x with submitted := x.submitted - 1 },
      { c with pc := .comparing none none, ticket := .none })
  | .comparing submitted completed, .loadSubmitted =>
    if submitted.isNone then some (x, { c with pc := .comparing (some x.submitted) completed })
    else none
  | .comparing submitted completed, .loadCompleted =>
    if completed.isNone then some (x, { c with pc := .comparing submitted (some x.completed) })
    else none
  | .comparing submitted completed, .next =>
    if submitted.isNone || completed.isNone then none
    else some (x, { c with pc := if submitted = completed then .clearing else .tookBack })
  | .clearing, .next => some ({ x with unknown := false }, { c with pc := .tookBack })
  | .tookBack, .next =>
    match c.res with
    | none => some (x, { c with pc := .ending (-ENOTSUP) true })
    | some res =>
      if res.transport_error then
        some ({ x with local_failure := true },
          { c with pc := .recording, at_ := { c.at_ with probe_failure := true } })
      else some (x, { c with pc := .recording })
  | .counting, .next => c.res.map fun res =>
    (countMessage res x, { c with
      pc := .recording
      at_ := { c.at_ with http_attempt := res.request_sent && res.token_bearing } })
  | .recording, .next => c.res.map fun res =>
    (if (viewReceipt res c.size).present then { x with responses := x.responses + 1 } else x,
      { c with pc := .reading })
  | .reading, .next =>
    match u.proto, c.res with
    | some proto, some res =>
      some (x, { c with pc := .qualifying, at_ := recordReceipt u proto c.size res c.at_ })
    | _, _ => none
  | .qualifying, .next =>
    if c.at_.qualified_complete ∧ x.submitted = 1 then
      some (x, { c with pc := .completing, ticket := .passed })
    else some (x, { c with pc := .finishing })
  | .completing, .next =>
    some ({ x with completed := x.completed + 1 }, { c with pc := .releasing, ticket := .credited })
  | .releasing, .next => some ({ x with unknown := false }, { c with pc := .finishing })
  | .finishing, .next =>
    if u.guard ∧ c.at_.invocation = 0 ∧ c.at_.qualified_complete then
      some (x, { c with
        pc := .ending u.first_return false, at_ := { c.at_ with injection_applied := true } })
    else some (x, { c with pc := .ending c.at_.natural_return false })
  | .ending rc last, .next =>
    some (x, { c with pc := .pushing rc last, at_ := { c.at_ with returned := rc, t_end := now } })
  | .pushing rc last, .next =>
    some ({ x with attempts := x.attempts ++ [c.at_] },
      { c with pc := if last then .leaving rc else .checking rc })
  | .pushing rc last, .fail =>
    some ({ x with evidence_lost := true },
      { c with pc := if last then .leaving rc else .checking rc })
  | .checking rc, .next =>
    some (x, { c with pc := .leaving (if x.evidence_lost then -ENOTSUP else rc) })
  -- What can throw here is an allocation, or `raw_http_get` after it has written.
  | .failing, .throw => some (x, { c with pc := .catching none none })
  | .exchanging, .throw => some (x, { c with pc := .catching none none })
  | .refused, .throw => some (x, { c with pc := .catching none none })
  | .recording, .throw => some (x, { c with pc := .catching none none })
  | .reading, .throw => some (x, { c with pc := .catching none none })
  | .catching submitted completed, .loadSubmitted =>
    if submitted.isNone then some (x, { c with pc := .catching (some x.submitted) completed })
    else none
  | .catching submitted completed, .loadCompleted =>
    if completed.isNone then some (x, { c with pc := .catching submitted (some x.completed) })
    else none
  | .catching submitted completed, .next =>
    match submitted, completed with
    | some submitted, some completed =>
      some (x, { c with pc := if completed < submitted then .catchLatching else .catchLosing })
    | _, _ => none
  | .catchLatching, .next => some ({ x with unknown := true }, { c with pc := .catchLosing })
  | .catchLosing, .next =>
    some ({ x with evidence_lost := true }, { c with pc := .leaving (-ENOTSUP) })
  | .leaving rc, .next => some ({ x with active := x.active - 1 }, { c with pc := .returned rc })
  | _, _ => none

/-! ## The callbacks of a context -/

/-- A context with all the calls that have entered, and the clock. -/
structure System where
  ctx : RigContext := {}
  calls : List Call := []
  clock : ℤ := 0

/-- A call enters, or one that has entered goes on. -/
inductive Action where
  | enter (thread : ℕ) (rdma : Option Bytes) (size : ℕ) (offset : ℤ)
  | move (i : ℕ) (m : Move)

/-- The call has returned. -/
def Call.done (c : Call) : Bool :=
  match c.pc with
  | .returned _ => true
  | _ => false

/-- The entry section. -/
def RigContext.enter (x : RigContext) : RigContext :=
  { x with invocations := x.invocations + 1, active := x.active + 1 }

/-- A call as it leaves the entry section. -/
def RigContext.newCall (x : RigContext) (thread : ℕ) (rdma : Option Bytes) (size : ℕ) (offset : ℤ) :
    Call where
  thread := thread
  rdma := rdma
  size := size
  offset := offset
  at_ := { invocation := x.invocations, entered_while_active := 0 < x.active, thread := thread }

/-- A step of the system, at a time that is not before the clock. A thread runs one call at a time,
and a context is called at most `INT_MAX` times: the next call would make `invocations` wrap
around. -/
def step (s : System) (a : ℤ × Action) : Option System :=
  if a.1 < s.clock then none
  else
    match a.2 with
    | .enter thread rdma size offset =>
      if s.ctx.invocations < INT_MAX ∧ s.calls.all (fun c => c.done || c.thread != thread) then
        some ⟨s.ctx.enter, s.calls ++ [s.ctx.newCall thread rdma size offset], a.1⟩
      else none
    | .move i m =>
      match s.calls[i]? with
      | none => none
      | some c => (act P u a.1 s.ctx c m).map fun r => ⟨r.1, s.calls.set i r.2, a.1⟩

end Steps

end S3Rdma.Probe
