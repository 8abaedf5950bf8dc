import S3Rdma.Common.SigV4

/-!
# The byte-preserving HTTP exchange

`src/common/raw_http.hpp`: one request message is validated and written, and one response message is
read, with its head kept as it came and its framing checked. The network is an input: whether the
connection was made, what each `send` accepted, and what each `recv` returned. Both loops are
bounded by a deadline, so a list of outcomes that ends stands for a deadline that expires.
-/

namespace S3Rdma

/-- `RawField`: a field of the response head. -/
structure RawField where
  name : Bytes
  lower_name : Bytes
  value : Bytes
  line : Bytes
deriving DecidableEq

/-- The framing of a response message. `unset` is the empty text before it is classified. -/
inductive Framing where
  | unset
  | contentLength
  | chunkedUnqualified
  | closeDelimited
  | invalid
deriving DecidableEq

/-- `RawResponse`. -/
structure RawResponse where
  request_sent : Bool := false
  request_partial : Bool := false
  token_bearing : Bool := false
  request_bytes : ℕ := 0
  head_complete : Bool := false
  head_malformed : Bool := false
  head_bytes : Bytes := []
  status : ℕ := 0
  http_version : Bytes := []
  reason : Bytes := []
  fields : List RawField := []
  framing : Framing := .unset
  content_length : ℤ := -1
  body_octets : ℕ := 0
  body_content : ℕ := 0
  body_truncated : Bool := false
  message_complete : Bool := false
  transport_error : Bool := false
  error : Bytes := []
deriving DecidableEq

/-- `RawResponse::count`. -/
def RawResponse.count (r : RawResponse) (lower_name : Bytes) : ℕ :=
  r.fields.countP fun f => f.lower_name == lower_name

/-- `RawResponse::first`. -/
def RawResponse.first (r : RawResponse) (lower_name : Bytes) : Option RawField :=
  r.fields.find? fun f => f.lower_name == lower_name

/-! ## The request -/

/-- `is_tchar`: the bytes of a field name. -/
def isTchar (c : UInt8) : Bool :=
  isUpper c || isLower c || isDigit c || (c != 0 && (ascii "!#$%&'*+-.^_`|~").contains c)

/-- `is_pchar_or_delim`: the bytes of a request target. -/
def isPcharOrDelim (c : UInt8) : Bool :=
  isUpper c || isLower c || isDigit c || (c != 0 && (ascii "-._~%!$&'()*+,;=:@/?").contains c)

/-- `valid_field_value`: no control byte but the tab, and no DEL. -/
def validFieldValue (v : Bytes) : Bool := v.all fun c => !((c < 32 && c != HT) || c == 127)

/-- The field names that `build_request` reserves. -/
def reservedNames : List Bytes :=
  [ascii "host", ascii "connection", ascii "content-length", ascii "transfer-encoding"]

/-- A field as it is written. -/
def fieldText (h : Bytes × Bytes) : Bytes := h.1 ++ ascii ": " ++ h.2 ++ CRLF

/-- The caller's fields as `build_request` writes them, and whether one carries a token. -/
def buildFields : HeaderList → Except Bytes (Bytes × Bool)
  | [] => .ok ([], false)
  | h :: hs =>
    let lname := lower h.1
    if h.1 = [] then .error (ascii "empty field name")
    else if !h.1.all isTchar then .error (ascii "invalid field name")
    else if lname ∈ reservedNames then
      .error (ascii "reserved header supplied by the caller: " ++ lname)
    else if !validFieldValue h.2 then .error (ascii "invalid field value for " ++ lname)
    else do
      let (text, token_bearing) ← buildFields hs
      return (fieldText h ++ text, (lname == ascii "x-amz-rdma-token" && !h.2.isEmpty) || token_bearing)

theorem buildFields_nil : buildFields [] = .ok ([], false) := rfl

theorem buildFields_cons (h : Bytes × Bytes) (hs : HeaderList) :
    buildFields (h :: hs) =
      if h.1 = [] then .error (ascii "empty field name")
      else if !h.1.all isTchar then .error (ascii "invalid field name")
      else if lower h.1 ∈ reservedNames then
        .error (ascii "reserved header supplied by the caller: " ++ lower h.1)
      else if !validFieldValue h.2 then .error (ascii "invalid field value for " ++ lower h.1)
      else do
        let (text, token_bearing) ← buildFields hs
        return (fieldText h ++ text,
          (lower h.1 == ascii "x-amz-rdma-token" && !h.2.isEmpty) || token_bearing) := rfl

/-- `build_request`: the message and `token_bearing`, or the text of the exception. -/
def buildRequest (host_header target : Bytes) (headers : HeaderList) : Except Bytes (Bytes × Bool) :=
  if target.head? ≠ some (chr '/') then .error (ascii "request target must be origin-form")
  else if !target.all isPcharOrDelim then
    .error (ascii "request target contains bytes that require encoding")
  else if host_header.isEmpty || !validFieldValue host_header || host_header.contains SP then
    .error (ascii "invalid Host value")
  else do
    let (fields, token_bearing) ← buildFields headers
    return (ascii "GET " ++ target ++ ascii " HTTP/1.1" ++ CRLF ++ ascii "Host: " ++ host_header ++
      CRLF ++ fields ++ ascii "Connection: close" ++ CRLF ++ CRLF, token_bearing)

/-! ## The response head -/

/-- The status line that `parse_head` accepts: the version, the status and the reason. -/
def parseStatusLine (line : Bytes) : Option (Bytes × ℕ × Bytes) :=
  let at_ := fun i => line.getD i 0
  if line.length < 13 ∨ ¬ (ascii "HTTP/1.").isPrefixOf line ∨ ¬ isDigit (at_ 7) ∨ at_ 8 ≠ SP ∨
      at_ 12 ≠ SP ∨ ¬ isDigit (at_ 9) ∨ ¬ isDigit (at_ 10) ∨ ¬ isDigit (at_ 11) then none
  else some (line.take 8,
    decimalDigit (at_ 9) * 100 + decimalDigit (at_ 10) * 10 + decimalDigit (at_ 11), line.drop 13)

/-- A field line that `parse_head` accepts. -/
def parseFieldLine (line : Bytes) : Option RawField :=
  if line.head? = some SP ∨ line.head? = some HT then none
  else
    match line.idxOf? (chr ':') with
    | none => none
    | some colon =>
      let name := line.take colon
      let value := trimBlanks (line.drop (colon + 1))
      if colon = 0 ∨ ¬ name.all isTchar ∨ ¬ validFieldValue value then none
      else some { name, lower_name := lower name, value, line }

/-- The field lines up to the empty line: the fields before the first that is not accepted, and
whether the empty line was reached. -/
def parseFieldLines : List Bytes → List RawField × Bool
  | [] => ([], false)
  | line :: lines =>
    if line = [] then ([], true)
    else
      match parseFieldLine line with
      | none => ([], false)
      | some f => (f :: (parseFieldLines lines).1, (parseFieldLines lines).2)

/-- `parse_head`, on the lines of the head, of a response that has no fields and is not malformed
yet. -/
def parseHead (r : RawResponse) : RawResponse :=
  match crlfLines r.head_bytes with
  | [] => { r with head_malformed := true }
  | line :: lines =>
    match parseStatusLine line with
    | none => { r with head_malformed := true }
    | some (http_version, status, reason) =>
      if !validFieldValue reason then { r with http_version, status, reason, head_malformed := true }
      else
        let (fields, done) := parseFieldLines lines
        { r with http_version, status, reason, fields, head_malformed := !done }

/-- `parse_decimal`: one to eighteen digits. -/
def parseDecimal (s : Bytes) : Option ℕ :=
  if s.isEmpty || 18 < s.length then none else if s.all isDigit then some (decimalValue s) else none

/-- The value that all `Content-Length` fields agree on. -/
def agreedLength : List RawField → Option ℕ → Option ℕ
  | [], v => v
  | f :: fs, v =>
    if f.lower_name = ascii "content-length" then
      match parseDecimal f.value with
      | none => none
      | some x => if v.any (x ≠ ·) then none else agreedLength fs (some x)
    else agreedLength fs v

/-- `classify_framing`. -/
def classifyFraming (r : RawResponse) : RawResponse :=
  let te := r.count (ascii "transfer-encoding")
  let cl := r.count (ascii "content-length")
  if te > 0 then
    let chunked := (r.first (ascii "transfer-encoding")).any fun f => lower f.value == ascii "chunked"
    { r with framing := if te = 1 ∧ chunked ∧ cl = 0 then .chunkedUnqualified else .invalid }
  else if cl = 0 then { r with framing := .closeDelimited }
  else
    match agreedLength r.fields none with
    | none => { r with framing := .invalid }
    | some v => { r with framing := .contentLength, content_length := v }

/-! ## The exchange -/

/-- Why a socket operation gives up: the deadline has passed, the timeout option cannot be set, or
the call fails, with `timed_out` when that is the socket's timeout after the deadline. The texts are
those of `strerror`. -/
inductive Fault where
  | expired
  | optionError (text : Bytes)
  | io (timed_out : Bool) (text : Bytes)
deriving DecidableEq

/-- `budget_error` and `io_error`. -/
def Fault.error (op phase : Bytes) : Fault → Bytes
  | .expired => ascii "deadline exceeded during " ++ phase
  | .optionError text => ascii "socket timeout option failed during " ++ phase ++ ascii ": " ++ text
  | .io true _ => ascii "deadline exceeded during " ++ phase ++ ascii " (socket timeout)"
  | .io false text => op ++ ascii ": " ++ text

/-- One turn of the send loop: so many bytes are accepted, at most those that are left. -/
inductive SendEvent where
  | accepted (n : ℕ) (pos : 0 < n)
  | eintr
  | fault (f : Fault)

/-- One turn of a receive loop: so many bytes arrive, none at the end of the stream. -/
inductive RecvEvent where
  | recv (bytes : Bytes)
  | eintr
  | fault (f : Fault)
deriving DecidableEq

/-- What the network does with an exchange. -/
structure Network where
  /-- Why no connection was made, if so. -/
  connect_error : Option Bytes := none
  sends : List SendEvent
  recvs : List RecvEvent

/-- The send loop from `off` on: how many bytes were accepted, and why it gave up. -/
def sendLoop (size : ℕ) : List SendEvent → ℕ → ℕ × Option Bytes
  | [], off =>
    if off < size then (off, some (Fault.expired.error (ascii "send") (ascii "send"))) else (off, none)
  | ev :: evs, off =>
    if off < size then
      match ev with
      | .accepted n _ => sendLoop size evs (off + min n (size - off))
      | .eintr => sendLoop size evs off
      | .fault f => (off, some (f.error (ascii "send") (ascii "send")))
    else (off, none)

/-- A receive loop when it ends: what it has read, whether the stream had ended, why it gave up, and
the turns it did not take. -/
structure Received where
  bytes : Bytes
  eof : Bool
  error : Option Bytes
  rest : List RecvEvent
deriving DecidableEq

/-- The loop that receives the head, when no end of a head has been found in `buf` yet. -/
def recvHead (max_head : ℕ) : List RecvEvent → Bytes → Received
  | [], buf =>
    if buf.length < max_head then
      ⟨buf, false, some (Fault.expired.error (ascii "recv") (ascii "receive")), []⟩
    else ⟨buf, false, none, []⟩
  | ev :: evs, buf =>
    if buf.length < max_head then
      match ev with
      | .eintr => recvHead max_head evs buf
      | .fault f => ⟨buf, false, some (f.error (ascii "recv") (ascii "receive")), evs⟩
      | .recv bytes =>
        if bytes = [] then ⟨buf, true, none, evs⟩
        else
          match findSub CRLFCRLF (buf ++ bytes) with
          | some _ => ⟨buf ++ bytes, false, none, evs⟩
          | none => recvHead max_head evs (buf ++ bytes)
    else ⟨buf, false, none, ev :: evs⟩

/-- The loop that receives the body. It ends when `done` says so of the number of bytes, and when
there are more than `max_body`. -/
def recvBody (done : ℕ → Bool) (max_body : ℕ) : List RecvEvent → Bytes → Received
  | [], body =>
    if max_body < body.length ∨ done body.length then ⟨body, false, none, []⟩
    else ⟨body, false, some (Fault.expired.error (ascii "recv") (ascii "body")), []⟩
  | ev :: evs, body =>
    if max_body < body.length ∨ done body.length then ⟨body, false, none, ev :: evs⟩
    else
      match ev with
      | .eintr => recvBody done max_body evs body
      | .fault f => ⟨body, false, some (f.error (ascii "recv") (ascii "body")), evs⟩
      | .recv bytes =>
        if bytes = [] then ⟨body, true, none, evs⟩ else recvBody done max_body evs (body ++ bytes)

/-- The declared length has been received. -/
def RawResponse.bodyDone (r : RawResponse) (size : ℕ) : Bool :=
  r.framing = .contentLength ∧ 0 ≤ r.content_length ∧ r.content_length ≤ size

/-- The response after its body loop: at most `max_body` bytes are kept, and the message is complete
when its framing says so. -/
def finishBody (r : RawResponse) (max_body : ℕ) (b : Received) : RawResponse :=
  let truncated : Bool := max_body < b.bytes.length
  let size := min b.bytes.length max_body
  let r := { r with
    body_truncated := truncated, body_octets := size, transport_error := r.transport_error || b.error.isSome,
    error := b.error.getD r.error }
  match r.framing with
  | .contentLength => { r with
      body_content := size,
      message_complete := b.error.isNone && !truncated && decide (r.content_length = size) }
  | .closeDelimited => { r with
      body_content := size, message_complete := b.eof && b.error.isNone && !truncated }
  | _ => { r with message_complete := false }

/-- `raw_http_get` once the head is complete and `body` has arrived with it, and the turns of the
receive loop not taken. -/
def receiveBody (max_body : ℕ) (head body : Bytes) (recvs : List RecvEvent) (r : RawResponse) :
    RawResponse × List RecvEvent :=
  let r := parseHead { r with head_complete := true, head_bytes := head }
  if r.head_malformed then (r, recvs)
  else
    let r := classifyFraming r
    let b := recvBody r.bodyDone max_body recvs body
    (finishBody r max_body b, b.rest)

/-- `raw_http_get` after the request was sent, and the turns of the receive loops not taken. -/
def receive (max_head max_body : ℕ) (recvs : List RecvEvent) (r : RawResponse) :
    RawResponse × List RecvEvent :=
  let h := recvHead max_head recvs []
  let head_end := findSub CRLFCRLF h.bytes
  match head_end.filter (· + 4 ≤ max_head) with
  | none =>
    let error := h.error.getD (if head_end.isSome ∨ max_head ≤ h.bytes.length then
      ascii "response head exceeds cap" else ascii "connection closed before end of head")
    ({ r with head_bytes := h.bytes.take max_head, transport_error := true, error }, h.rest)
  | some i => receiveBody max_body (h.bytes.take (i + 4)) (h.bytes.drop (i + 4)) h.rest r

/-- `raw_http_get`, with the turns of the receive loops not taken; the exception of `build_request`
leaves it before any I/O. -/
def rawHttpGet (host_header target : Bytes) (headers : HeaderList) (max_head max_body : ℕ)
    (net : Network) : Except Bytes (RawResponse × List RecvEvent) := do
  let (req, token_bearing) ← buildRequest host_header target headers
  let r : RawResponse := { token_bearing }
  match net.connect_error with
  | some error => return ({ r with transport_error := true, error }, net.recvs)
  | none =>
    let (off, error) := sendLoop req.length net.sends 0
    let r := { r with request_bytes := off }
    if off < req.length then
      return ({ r with transport_error := true, request_partial := decide (0 < off),
                       error := error.getD [] }, net.recvs)
    else return receive max_head max_body net.recvs { r with request_sent := true }

end S3Rdma
