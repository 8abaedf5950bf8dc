import S3Rdma.Common.RawHttp
import S3Rdma.Lib.Ensures
import S3Rdma.Lib.Monitor
import S3Rdma.Lib.Decimal

/-!
# The exchange with its system calls

`raw_http_get` of `src/common/raw_http.hpp` once more, with the calls it makes: the clock, the
resolver, and for each socket `socket`, `setsockopt`, `connect`, `send`, `recv` and `close`. A
`Kernel` decides what they return, by all the calls before, which are kept in a log. What throws for
want of memory is left out. The loops have fuel, because only the clock ends them against a peer that
sends a byte at a time or a call that is interrupted again and again.
-/

namespace S3Rdma.Socket

/-! ## System calls -/

/-- An entry of the list of `getaddrinfo`. -/
structure Address where
  ai_family : ℤ
  ai_socktype : ℤ
  ai_protocol : ℤ
  ai_addr : Bytes
deriving DecidableEq

/-- `timeval`. -/
structure Timeval where
  tv_sec : ℤ
  tv_usec : ℤ
deriving DecidableEq

/-- `SO_RCVTIMEO` and `SO_SNDTIMEO`. -/
inductive TimeoutOption where
  | receive
  | send
deriving DecidableEq

/-- A system call, with what it returned. -/
inductive Sys where
  /-- `Clock::now`, in nanoseconds. -/
  | now (t : ℤ)
  /-- `getaddrinfo` with `AI_NUMERICHOST`. -/
  | numericHost (addrs : Option (List Address))
  /-- The thread of the resolver is created, or `std::thread` throws. -/
  | thread (result : Except Bytes Unit)
  /-- The result of the resolver: an error, or addresses, if it was there before the deadline. -/
  | resolved (result : Option (Except ℤ (List Address)))
  | socket (a : Address) (fd : ℤ)
  | setsockopt (fd : ℤ) (option : TimeoutOption) (tv : Timeval) (errno : Option ℤ)
  | connect (fd : ℤ) (a : Address) (errno : Option ℤ)
  /-- `send` of some bytes, and `errno` after it. -/
  | send (fd : ℤ) (bytes : Bytes) (n errno : ℤ)
  /-- `recv`: an `errno`, or the bytes that came. -/
  | recv (fd : ℤ) (result : Except ℤ Bytes)
  | close (fd : ℤ)

/-- What the calls return. -/
structure Kernel where
  now : List Sys → ℤ
  numericHost : List Sys → Bytes → Bytes → Option (List Address)
  thread : List Sys → Except Bytes Unit
  resolve : List Sys → Bytes → Bytes → Option (Except ℤ (List Address))
  socket : List Sys → Address → ℤ
  setsockopt : List Sys → Option ℤ
  connect : List Sys → Option ℤ
  send : List Sys → Bytes → ℤ × ℤ
  recv : List Sys → Except ℤ Bytes
  strerror : ℤ → Bytes
  gai_strerror : ℤ → Bytes
  /-- No more is accepted than was given. -/
  send_le : ∀ log bytes, (send log bytes).1 ≤ bytes.length

/-- How an exchange ends without a receipt. -/
inductive Halt where
  | threw (what : Bytes)
  /-- Not of the source: a loop has used up its fuel. -/
  | fuel
deriving DecidableEq

/-- A computation that makes system calls. -/
abbrev Exchange := EStateM Halt (List Sys)

/-- A system call. -/
def syscall {α : Type} (answer : List Sys → α) (event : α → Sys) : Exchange α := fun log =>
  .ok (answer log) (log ++ [event (answer log)])

/-- `EINTR`, `EAGAIN` (which is also `EWOULDBLOCK`) and `ETIMEDOUT`. -/
def EINTR : ℤ := 4

@[inherit_doc EINTR]
def EAGAIN : ℤ := 11

@[inherit_doc EINTR]
def ETIMEDOUT : ℤ := 110

/-! ## Budgets -/

/-- `Budget`. -/
inductive Budget where
  | ready
  | expired
  | optionError (err : ℤ)

section Kernel

variable (K : Kernel)

/-- `Clock::now`. -/
def clock : Exchange ℤ := syscall K.now .now

/-- `setsockopt` of a timeout. -/
def setTimeout (fd : ℤ) (option : TimeoutOption) (tv : Timeval) : Exchange (Option ℤ) :=
  syscall K.setsockopt (.setsockopt fd option tv)

/-- The remaining time, in microseconds, as a `timeval` that does not mean "no timeout". -/
def remaining (left : ℤ) : Timeval :=
  let tv : Timeval := ⟨left.tdiv 1000000, left.tmod 1000000⟩
  if tv.tv_sec = 0 ∧ tv.tv_usec = 0 then { tv with tv_usec := 1 } else tv

/-- `arm_remaining_timeout`. -/
def armRemainingTimeout (fd deadline : ℤ) : Exchange Budget := do
  let now ← clock K
  let left := (deadline - now).tdiv 1000
  if left ≤ 0 then return .expired
  else
    match ← setTimeout K fd .receive (remaining left) with
    | some err => return .optionError err
    | none =>
      match ← setTimeout K fd .send (remaining left) with
      | some err => return .optionError err
      | none => return .ready

/-- `io_error`. -/
def ioError (op phase : Bytes) (err deadline : ℤ) : Exchange Bytes := do
  if err = EAGAIN ∨ err = ETIMEDOUT then
    let now ← clock K
    if deadline ≤ now then
      return ascii "deadline exceeded during " ++ phase ++ ascii " (socket timeout)"
    else return op ++ ascii ": " ++ K.strerror err
  else return op ++ ascii ": " ++ K.strerror err

/-- `budget_error`. -/
def budgetError (b : Budget) (phase : Bytes) : Bytes :=
  match b with
  | .expired => ascii "deadline exceeded during " ++ phase
  | .optionError err =>
    ascii "socket timeout option failed during " ++ phase ++ ascii ": " ++ K.strerror err
  | .ready => ascii "socket timeout option failed during " ++ phase ++ ascii ": " ++ K.strerror 0

/-- `~Fd` of a socket. -/
def closeFd (fd : ℤ) : Exchange Unit := syscall (fun _ => ()) fun _ => .close fd

/-! ## The connection -/

/-- The addresses of the host, or why there are none. -/
def resolveHost (host service : Bytes) : Exchange (Except Bytes (List Address)) := do
  match ← syscall (K.numericHost · host service) .numericHost with
  | some addrs => return .ok addrs
  | none =>
    match ← syscall K.thread .thread with
    | .error what => throw (.threw what)
    | .ok _ =>
      match ← syscall (K.resolve · host service) .resolved with
      | none => return .error (ascii "deadline exceeded during resolution " ++
          ascii "(resolver task abandoned; it frees its own result)")
      | some (.error rc) => return .error (ascii "getaddrinfo: " ++ K.gai_strerror rc)
      | some (.ok addrs) => return .ok addrs

/-- The loop over the addresses: the connected socket, or `-1`, and the text of the last error. -/
def connectLoop (deadline : ℤ) : List Address → Bytes → Exchange (ℤ × Bytes)
  | [], error => return (-1, error)
  | a :: as, error => do
    let cand ← syscall (K.socket · a) (.socket a)
    if cand < 0 then connectLoop deadline as error
    else
      match ← armRemainingTimeout K cand deadline with
      | .ready =>
        match ← syscall K.connect (.connect cand a) with
        | some errno =>
          closeFd cand
          connectLoop deadline as (ascii "connect: " ++ K.strerror errno)
        | none => return (cand, [])
      | b =>
        closeFd cand
        return (-1, budgetError K b (ascii "connect"))

/-! ## The loops on the connection -/

/-- The send loop from `off` on: how many bytes were accepted, and why it gave up. -/
def sendLoop (fd deadline : ℤ) (req : Bytes) : ℕ → ℕ → Exchange (ℕ × Option Bytes)
  | 0, _ => throw .fuel
  | fuel + 1, off =>
    if off < req.length then do
      match ← armRemainingTimeout K fd deadline with
      | .ready =>
        let (n, errno) ← syscall (K.send · (req.drop off)) fun r => .send fd (req.drop off) r.1 r.2
        if n < 0 ∧ errno = EINTR then sendLoop fd deadline req fuel off
        else if n ≤ 0 then
          let error ← ioError K (ascii "send") (ascii "send") errno deadline
          return (off, some error)
        else sendLoop fd deadline req fuel (off + n.toNat)
      | b => return (off, some (budgetError K b (ascii "send")))
    else return (off, none)

/-- What one turn of a receive loop has brought: nothing yet, some bytes, of which there are none at
the end of the stream, or an error. -/
inductive Turn where
  | again
  | came (bytes : Bytes)
  | failed (error : Bytes)

/-- One turn of a receive loop. -/
def recvTurn (fd deadline : ℤ) (phase : Bytes) : Exchange Turn := do
  match ← armRemainingTimeout K fd deadline with
  | .ready =>
    match ← syscall K.recv (.recv fd) with
    | .error errno =>
      if errno = EINTR then return .again
      else
        let error ← ioError K (ascii "recv") phase errno deadline
        return .failed error
    | .ok bytes => return .came bytes
  | b => return .failed (budgetError K b phase)

/-- What a receive loop has read: the bytes, whether they were cut, whether the stream had ended, and
why it gave up. -/
structure Read where
  bytes : Bytes
  truncated : Bool := false
  eof : Bool := false
  error : Option Bytes := none

/-- The loop that receives the head. -/
def recvHeadLoop (fd deadline : ℤ) (max_head : ℕ) : ℕ → Bytes → Exchange Read
  | 0, _ => throw .fuel
  | fuel + 1, buf =>
    if findSub CRLFCRLF buf = none ∧ buf.length < max_head then do
      match ← recvTurn K fd deadline (ascii "receive") with
      | .again => recvHeadLoop fd deadline max_head fuel buf
      | .failed error => return { bytes := buf, error := some error }
      | .came more =>
        if more = [] then return { bytes := buf, eof := true }
        else recvHeadLoop fd deadline max_head fuel (buf ++ more)
    else return { bytes := buf }

/-- The body is cut at `max_body` bytes. -/
def capBody (max_body : ℕ) (body : Bytes) : Bytes × Bool :=
  if max_body < body.length then (body.take max_body, true) else (body, false)

/-- The loop that receives the body. -/
def recvBodyLoop (fd deadline : ℤ) (r : RawResponse) (max_body : ℕ) : ℕ → Bytes × Bool → Exchange Read
  | 0, _ => throw .fuel
  | fuel + 1, (body, truncated) =>
    if truncated then return { bytes := body, truncated }
    else if r.bodyDone body.length then return { bytes := body }
    else do
      match ← recvTurn K fd deadline (ascii "body") with
      | .again => recvBodyLoop fd deadline r max_body fuel (body, false)
      | .failed error => return { bytes := body, error := some error }
      | .came more =>
        if more = [] then return { bytes := body, eof := true }
        else recvBodyLoop fd deadline r max_body fuel (capBody max_body (body ++ more))

/-! ## The exchange -/

/-- The receipt after the loop for the body. -/
def concludeBody (r : RawResponse) (b : Read) : RawResponse :=
  let size := b.bytes.length
  let r := { r with
    body_truncated := b.truncated, body_octets := size,
    transport_error := r.transport_error || b.error.isSome, error := b.error.getD r.error }
  match r.framing with
  | .contentLength => { r with
      body_content := size,
      message_complete := b.error.isNone && !b.truncated && decide (0 ≤ r.content_length) &&
        decide ((size : ℤ) = r.content_length) }
  | .closeDelimited => { r with
      body_content := size, message_complete := b.eof && b.error.isNone && !b.truncated }
  | _ => { r with message_complete := false }

/-- What is received once the request is sent. -/
def receiveAll (fd deadline : ℤ) (fuel max_head max_body : ℕ) (r : RawResponse) :
    Exchange RawResponse := do
  let h ← recvHeadLoop K fd deadline max_head fuel []
  match (findSub CRLFCRLF h.bytes).filter (· + 4 ≤ max_head) with
  | none =>
    let cap : Bool := (findSub CRLFCRLF h.bytes).isSome || decide (max_head ≤ h.bytes.length)
    return { r with
      head_bytes := h.bytes.take max_head, transport_error := true,
      error := h.error.getD (if cap then ascii "response head exceeds cap"
        else ascii "connection closed before end of head") }
  | some head_end =>
    let r := parseHead
      { r with head_complete := true, head_bytes := h.bytes.take (head_end + 4) }
    if r.head_malformed then return r
    else
      let r := classifyFraming r
      let body := capBody max_body (h.bytes.drop (head_end + 4))
      if h.eof then return concludeBody r { bytes := body.1, truncated := body.2, eof := true }
      else return concludeBody r (← recvBodyLoop K fd deadline r max_body fuel body)

/-- The exchange on a connected socket. -/
def converse (fd deadline : ℤ) (fuel : ℕ) (req : Bytes) (max_head max_body : ℕ) (r : RawResponse) :
    Exchange RawResponse := do
  let (off, error) ← sendLoop K fd deadline req fuel 0
  let r := { r with request_bytes := off }
  if off < req.length then
    return { r with
      transport_error := true, request_partial := decide (0 < off), error := error.getD [] }
  else receiveAll K fd deadline fuel max_head max_body { r with request_sent := true }

/-- `raw_http_get`. -/
def rawHttpGet (fuel : ℕ) (host : Bytes) (port : ℕ) (host_header target : Bytes)
    (headers : HeaderList) (max_head max_body : ℕ) (deadline_s : ℤ) : Exchange RawResponse :=
  match buildRequest host_header target headers with
  | .error what => throw (.threw what)
  | .ok (req, token_bearing) => do
    let start ← clock K
    let deadline := start + deadline_s * 1000000000
    let r : RawResponse := { token_bearing }
    match ← resolveHost K host (decimal port) with
    | .error error => return { r with transport_error := true, error }
    | .ok addrs =>
      let (sock, error) ← connectLoop K deadline addrs []
      if sock < 0 then
        return { r with
          transport_error := true, error := if error = [] then ascii "no usable address" else error }
      else
        let r ← converse K sock deadline fuel req max_head max_body r
        closeFd sock
        return r

end Kernel

end S3Rdma.Socket
