import S3Rdma.Server.Handler
import S3Rdma.Server.Memory
import S3Rdma.Signing.Target
import S3Rdma.Signing.Verifier

/-!
# The GET callback of the benchmark client

`get_callback` of `src/client/s3_client.cpp`, which the SDK calls with the descriptor of the
destination: it sends the control request, and its return value is what the client takes for the
number of bytes. `head_size` of `src/client/main.cpp` is the other request that the client makes.

The endpoint is the server's handler behind an HTTP library that carries methods, targets, statuses
and fields (`Endpoint`). Its container of fields is given, on both sides, by what a lookup makes of
the values under a name (`FieldLookup`). `getCallback_sound` says what a return value that is not
negative means: the window of the object stands in the client's memory, and nothing else was
written. With a verbatim token the value is the length of the window. With a Base64 token it is the
size that the SDK asked for, whatever the length of the window is.
-/

namespace S3Rdma.Client

open Server (Config FdEntry Staging Env HttpRequest Write landedAt Landed getHandler handleGet
  objectFile requestWindow writesOf remoteBase)

/-- `GetContext`. -/
structure GetContext where
  host : Bytes
  port : ℤ := 8080
  path : Bytes
  range : Bytes
  proto : Option ProtocolOptions

/-- A request as it is given to the HTTP library. -/
structure HttpCall where
  method : Bytes
  target : Bytes
  headers : HeaderList

/-- What the HTTP library makes of a request: a response, or none, by an error or an exception. -/
inductive HttpOutcome where
  | response (status : ℕ) (headers : HeaderList)
  | failed

/-- `has_header` and `get_header_value` of the HTTP library: what they make of the values under a
name. Which of several values they give is left open. -/
structure FieldLookup where
  pick : List Bytes → Option Bytes
  pick_nil : pick [] = none
  pick_singleton : ∀ v, pick [v] = some v

/-- The value under a name, if there is one. -/
def FieldLookup.value (L : FieldLookup) (headers : HeaderList) (lower_name : Bytes) :
    Option Bytes :=
  L.pick (valuesOf headers lower_name)

/-- `static_cast<ssize_t>` of a `size_t`. -/
def ssize (n : ℕ) : ℤ := if n < 2^63 then n else (n : ℤ) - 2^64

/-- The request of `get_callback_impl`, unless it cannot be built. -/
def callbackRequest (P : Platform) (ctx : GetContext) (proto : ProtocolOptions) (desc : Bytes)
    (now : ℤ) : Except Bytes HttpCall := do
  let token := encodeRdmaToken desc proto.token_encoding
  let headers ← controlPlaneHeaders P proto (ascii "GET") (httpHostHeader ctx.host ctx.port)
    ctx.path ctx.range token now
  return {
    method := ascii "GET"
    target := controlPlaneTarget proto ctx.path
    headers := headers ++
      if token = [] ∧ proto.token_encoding = .base64 ∧ proto.auth = .none then [(kHdrRdmaToken, [])]
      else [] }

/-- What `get_callback_impl` returns after a response. -/
def callbackResult (L : FieldLookup) (proto : ProtocolOptions) (size status : ℕ)
    (headers : HeaderList) : ℤ :=
  if status ≠ 200 ∧ status ≠ 206 then -1
  else
    match proto.token_encoding with
    | .base64 => ssize size
    | .verbatim =>
      match parseRdmaReply (L.value headers kHdrRdmaReply) with
      | .code code =>
        if code ≠ status then -1
        else
          let declared := parseRdmaBytesTransferred (L.value headers kHdrRdmaBytesTransferred) size
          if declared < 0 then -1 else declared
      | _ => -1

/-- `get_callback` for a context and a descriptor, each if there is one. -/
def getCallback (P : Platform) (L : FieldLookup) (ctx : Option GetContext) (rdma : Option Bytes)
    (size : ℕ) (now : ℤ) (http : HttpCall → HttpOutcome) : ℤ :=
  match ctx, rdma with
  | some ctx, some desc =>
    match ctx.proto with
    | none => -1
    | some proto =>
      match callbackRequest P ctx proto desc now with
      | .error _ => -1
      | .ok g =>
        match http g with
        | .response status headers => callbackResult L proto size status headers
        | .failed => -1
  | _, _ => -1

/-- The request of `head_size`, unless it cannot be built. -/
def headRequest (P : Platform) (host : Bytes) (port : ℤ) (path : Bytes) (proto : ProtocolOptions)
    (now : ℤ) : Except Bytes HttpCall := do
  let headers ← controlPlaneHeaders P proto (ascii "HEAD") (httpHostHeader host port) path [] [] now
  return { method := ascii "HEAD", target := controlPlaneTarget proto path, headers }

/-- `head_size`. -/
def headSize (P : Platform) (L : FieldLookup) (host : Bytes) (port : ℤ) (path : Bytes)
    (proto : ProtocolOptions) (now : ℤ) (http : HttpCall → HttpOutcome) : ℤ :=
  match headRequest P host port path proto now with
  | .error _ => -1
  | .ok g =>
    match http g with
    | .failed => -1
    | .response status headers =>
      if status ≠ 200 then -1
      else
        match L.value headers (ascii "content-length") with
        | none => -1
        | some value =>
          match stoll 10 value with
          | none => -1
          | some (n, _) => n

/-! ## The server behind the HTTP library -/

/-- The server, with what it meets during one request. `decode` is what the HTTP library makes of a
request target, and `lookup` how it finds fields. -/
structure Endpoint where
  lookup : FieldLookup
  cfg : Config
  data_dir : Bytes
  getFd : Bytes → Option FdEntry
  slot : Staging
  env : Env
  decode : Bytes → Bytes

namespace Endpoint

variable (e : Endpoint)

/-- The request as the handler sees it. -/
def request (g : HttpCall) : HttpRequest where
  method := g.method
  path := e.decode g.target
  token := (e.lookup.value g.headers kHdrRdmaToken).getD []
  range := (e.lookup.value g.headers (ascii "range")).getD []

/-- What the server does with a GET that has a token. -/
def get (g : HttpCall) : Server.Outcome × List Server.Ev :=
  handleGet e.cfg (e.getFd (objectFile e.data_dir (parseObjectPath (e.request g).path)))
    (e.request g).range (e.request g).token e.slot e.env

/-- The answer. When an exception leaves the handler the HTTP library answers for it; when the
process has ended there is no answer. -/
def answer (g : HttpCall) : HttpOutcome :=
  match getHandler e.cfg e.data_dir e.getFd e.slot e.env (e.request g) with
  | some res => .response res.status res.headers
  | none => if (e.get g).1 = .threw then .response 500 [] else .failed

/-- The RDMA writes that a request causes. -/
def writes (g : HttpCall) : List Write :=
  if (parseObjectPath (e.request g).path).valid ∧ (e.request g).method ≠ ascii "HEAD" ∧
      (e.request g).token ≠ [] then writesOf (e.get g).2
  else []

/-- The HTTP library gives the handler the path that the client had in mind. -/
def Decodes (proto : ProtocolOptions) (path : Bytes) : Prop :=
  e.decode (controlPlaneTarget proto path) = path

/-- The responses that count as success are the server's; the HTTP library and the network may still
lose a request, or answer it with another status. -/
def Relays (http : HttpCall → HttpOutcome) : Prop :=
  ∀ g status headers, http g = .response status headers → status = 200 ∨ status = 206 →
    e.answer g = .response status headers

end Endpoint

/-! ## What the server reads -/

/-- The signer adds no field of another name than its own. -/
theorem controlPlaneHeaders_valuesOf {P : Platform} {proto : ProtocolOptions}
    {method host_header path range token : Bytes} {now : ℤ} {headers : HeaderList}
    (h : controlPlaneHeaders P proto method host_header path range token now = .ok headers)
    {n : Bytes} (hn : n ∉ managedNames) :
    valuesOf headers n = valuesOf (ownHeaders range token) n := by
  unfold controlPlaneHeaders at h
  cases hauth : proto.auth with
  | none =>
    rw [hauth] at h
    rw [← Except.ok.inj h]
  | sigV4 =>
    rw [hauth] at h
    obtain ⟨r, hr, h⟩ := exists_of_bind_eq_ok h
    obtain ⟨hdrs, key, mac, -, -, -, hheaders⟩ := sigv4Sign_eq hr
    have hnone : valuesOf r.headers n = [] := by
      by_contra hne
      obtain ⟨f, hf, hfn⟩ := List.mem_map.mp (valuesOf_ne_nil_iff.mp hne)
      rw [hheaders] at hf
      refine hn (hfn ▸ ?_)
      rcases List.mem_append.mp hf with hf | hf
      · exact lower_mem_managedNames _ (name_mem_managedWireNames (List.mem_cons_of_mem _ hf))
      · rw [List.mem_singleton.mp hf]
        exact show lower (ascii "Authorization") ∈ managedNames by decide
    rw [← Except.ok.inj h, valuesOf_append, hnone, List.append_nil]

/-- The values of the range among the fields of a request. -/
theorem ownHeaders_range (range token : Bytes) :
    valuesOf (ownHeaders range token) (ascii "range") = if range = [] then [] else [range] := by
  have hrange : lower (ascii "Range") = ascii "range" := by decide
  have hne : lower kHdrRdmaToken ≠ ascii "range" := by decide
  unfold ownHeaders
  rw [valuesOf_append]
  split_ifs <;> simp [valuesOf, hrange, hne]

/-- Under a name that one field has, its value is found. -/
theorem FieldLookup.value_of_singleton (L : FieldLookup) {headers : HeaderList} {n v : Bytes}
    (h : valuesOf headers n = [v]) : L.value headers n = some v := by
  rw [FieldLookup.value, h, L.pick_singleton]

/-- Under a name that no field has, nothing is found. -/
theorem FieldLookup.value_of_nil (L : FieldLookup) {headers : HeaderList} {n : Bytes}
    (h : valuesOf headers n = []) : L.value headers n = none := by
  rw [FieldLookup.value, h, L.pick_nil]

/-- The token of a request, when there is one. -/
theorem ownHeaders_token (range : Bytes) {token : Bytes} (ht : token ≠ []) :
    valuesOf (ownHeaders range token) kHdrRdmaToken = [token] := by
  have htoken : lower kHdrRdmaToken = kHdrRdmaToken := by decide
  have hne : lower (ascii "Range") ≠ kHdrRdmaToken := by decide
  unfold ownHeaders
  rw [if_neg ht, valuesOf_append]
  split_ifs <;> simp [valuesOf, htoken, hne]

/-- The range of a request is found as it was given, empty if there is none. -/
theorem FieldLookup.value_range (L : FieldLookup) {headers : HeaderList} {range : Bytes}
    (h : valuesOf headers (ascii "range") = if range = [] then [] else [range]) :
    (L.value headers (ascii "range")).getD [] = range := by
  split_ifs at h with hr
  · rw [L.value_of_nil h, hr]
    rfl
  · rw [L.value_of_singleton h]
    rfl

/-- The server finds in a token the address of the descriptor. -/
theorem remoteBase_encodeRdmaToken {desc : Bytes} (hd : chr ':' ∈ desc) (enc : TokenEncoding) :
    remoteBase (encodeRdmaToken desc enc) = parseRdmaRemoteAddr desc := by
  unfold remoteBase Server.rdmaDescr
  cases enc with
  | base64 =>
    rw [encodeRdmaToken, if_neg (colon_not_mem_base64Encode desc), base64Decode_base64Encode]
  | verbatim =>
    have hsplit : desc.rdropWhile (· == 0) ++ desc.rtakeWhile (· == 0) = desc :=
      List.rdropWhile_append_rtakeWhile
    rw [encodeRdmaToken, if_pos (colon_mem_rdropWhile hd)]
    conv_rhs => rw [← hsplit]
    exact (parseRdmaRemoteAddr_append (colon_mem_rdropWhile hd) _).symm

/-- The request that the handler sees is the one that the callback was asked for. -/
theorem callbackRequest_received {P : Platform} {ctx : GetContext} {proto : ProtocolOptions}
    {desc : Bytes} {now : ℤ} {g : HttpCall} (h : callbackRequest P ctx proto desc now = .ok g)
    (hd : chr ':' ∈ desc) {e : Endpoint} (hdec : e.Decodes proto ctx.path) :
    e.request g =
      ⟨ascii "GET", ctx.path, encodeRdmaToken desc proto.token_encoding, ctx.range⟩ := by
  obtain ⟨headers, hheaders, h⟩ := exists_of_bind_eq_ok h
  obtain ⟨htoken, -⟩ := Server.encodeRdmaToken_colon hd proto.token_encoding
  obtain rfl := Except.ok.inj h
  have hno : ¬ (encodeRdmaToken desc proto.token_encoding = [] ∧ proto.token_encoding = .base64 ∧
      proto.auth = .none) := fun hc => htoken hc.1
  have hfirst := (controlPlaneHeaders_valuesOf hheaders (by decide)).trans
    (ownHeaders_token ctx.range htoken)
  have hrange := (controlPlaneHeaders_valuesOf hheaders (by decide)).trans
    (ownHeaders_range ctx.range (encodeRdmaToken desc proto.token_encoding))
  unfold Endpoint.request
  simp only [if_neg hno, List.append_nil]
  rw [e.lookup.value_of_singleton hfirst, e.lookup.value_range hrange,
    show e.decode (controlPlaneTarget proto ctx.path) = ctx.path from hdec]
  rfl

/-! ## What the return value means -/

/-- A GET with a token that is answered with success was carried out by `handle_get`. -/
theorem Endpoint.answer_success {e : Endpoint} {g : HttpCall} {r : HttpRequest}
    (hr : e.request g = r) (hget : r.method = ascii "GET") (ht : r.token ≠ []) {status : ℕ}
    {headers : HeaderList} (h : e.answer g = .response status headers)
    (hstatus : status = 200 ∨ status = 206) :
    ∃ bytes_out : Option ℤ, (e.get g).1 = .returned status bytes_out ∧
      headers = (Server.getAnswer r.token status (bytes_out.getD 0)).headers ∧
      e.writes g = writesOf (e.get g).2 := by
  subst hr
  have hhead : (e.request g).method ≠ ascii "HEAD" := by
    rw [hget]
    decide
  have hne : status ≠ 400 ∧ status ≠ 500 := by rcases hstatus with rfl | rfl <;> decide
  unfold Endpoint.answer at h
  by_cases hvalid : (parseObjectPath (e.request g).path).valid = true
  · have hwrites : e.writes g = writesOf (e.get g).2 := if_pos ⟨hvalid, hhead, ht⟩
    have hget : handleGet e.cfg
        (e.getFd (objectFile e.data_dir (parseObjectPath (e.request g).path))) (e.request g).range
        (e.request g).token e.slot e.env = e.get g := rfl
    simp only [getHandler, hvalid, Bool.not_true, Bool.false_eq_true, if_false, if_neg hhead,
      if_neg ht, hget] at h
    cases hout : (e.get g).1 with
    | returned status' bytes_out =>
      simp only [hout] at h
      obtain ⟨hs, hh⟩ := HttpOutcome.response.inj h
      have hs' : (Server.getAnswer (e.request g).token status' (bytes_out.getD 0)).status =
          status' := by
        unfold Server.getAnswer
        split_ifs <;> rfl
      obtain rfl : status' = status := hs'.symm.trans hs
      exact ⟨bytes_out, rfl, hh.symm, hwrites⟩
    | threw =>
      simp only [hout, if_true] at h
      exact absurd (HttpOutcome.response.inj h).1.symm hne.2
    | terminated => simp [hout] at h
    | outOfFuel => simp [hout] at h
  · have hhandler : getHandler e.cfg e.data_dir e.getFd e.slot e.env (e.request g) =
        some (Server.HttpResponse.setContent { status := 400 }
          (ascii "expected /<bucket>/<object>\n")) := by
      unfold getHandler
      simp only [hvalid, Bool.not_false, if_true]
    rw [hhandler] at h
    exact absurd (HttpOutcome.response.inj h).1.symm hne.1

/-- The count of an answer, as the callback reads it. -/
theorem FieldLookup.value_getAnswer (L : FieldLookup) {token : Bytes} {status length : ℕ}
    (hstatus : status = 200 ∨ status = 206) :
    L.value (Server.getAnswer token status length).headers kHdrRdmaBytesTransferred =
      some (decimal length) := by
  refine L.value_of_singleton ?_
  unfold Server.getAnswer
  rw [if_pos hstatus]
  split_ifs <;> rfl

/-- A GET with a token that is answered with success has put the window that its range selects into
the client's memory, and the response declares the length. -/
theorem Endpoint.answer_landed {e : Endpoint} (hwhole : e.env.Whole) {g : HttpCall}
    {path token range : Bytes} (hr : e.request g = ⟨ascii "GET", path, token, range⟩)
    (ht : token ≠ []) {status : ℕ} {headers : HeaderList}
    (h : e.answer g = .response status headers) (hstatus : status = 200 ∨ status = 206)
    (L : FieldLookup) :
    ∃ entry offset length is_range,
      e.getFd (objectFile e.data_dir (parseObjectPath path)) = some entry ∧
      requestWindow range entry.size = some (offset, length, is_range) ∧
      L.value headers kHdrRdmaBytesTransferred = some (decimal length) ∧
      Landed entry.file offset (remoteBase token) length (e.writes g) := by
  obtain ⟨bytes_out, hout, hheaders, hwrites⟩ := Endpoint.answer_success hr rfl ht h hstatus
  have hget : e.get g = handleGet e.cfg
      (e.getFd (objectFile e.data_dir (parseObjectPath path))) range token e.slot e.env := by
    unfold Endpoint.get
    rw [hr]
  rw [hget] at hout hwrites
  obtain ⟨entry, offset, length, is_range, hentry, hwin, rfl, hlanded⟩ :=
    Server.handleGet_landed hwhole hout hstatus
  refine ⟨entry, offset, length, is_range, hentry, hwin, ?_, hwrites ▸ hlanded⟩
  rw [hheaders]
  exact L.value_getAnswer hstatus

/-- What a result that is not negative says about the response. -/
theorem callbackResult_nonneg {L : FieldLookup} {proto : ProtocolOptions} {size status : ℕ}
    {headers : HeaderList} (h : 0 ≤ callbackResult L proto size status headers) :
    (status = 200 ∨ status = 206) ∧
      callbackResult L proto size status headers =
        match proto.token_encoding with
        | .base64 => ssize size
        | .verbatim =>
          parseRdmaBytesTransferred (L.value headers kHdrRdmaBytesTransferred) size := by
  unfold callbackResult at h ⊢
  by_cases hs : status ≠ 200 ∧ status ≠ 206
  · rw [if_pos hs] at h
    exact absurd h (by decide)
  · rw [if_neg hs] at h ⊢
    refine ⟨by omega, ?_⟩
    cases henc : proto.token_encoding with
    | base64 => rfl
    | verbatim =>
      rw [henc] at h
      cases hreply : parseRdmaReply (L.value headers kHdrRdmaReply) with
      | code code =>
        simp only [hreply] at h ⊢
        by_cases hcode : code ≠ status
        · rw [if_pos hcode] at h
          exact absurd h (by decide)
        · rw [if_neg hcode] at h ⊢
          split_ifs at h ⊢ with hneg
          · exact absurd h (by decide)
          · rfl
      | declined => simp only [hreply] at h; exact absurd h (by decide)
      | malformed => simp only [hreply] at h; exact absurd h (by decide)

/-- A return value that is not negative comes from a response. -/
theorem getCallback_nonneg {P : Platform} {L : FieldLookup} {ctx : GetContext}
    {proto : ProtocolOptions}
    (hproto : ctx.proto = some proto) {desc : Bytes} {size : ℕ} {now : ℤ}
    {http : HttpCall → HttpOutcome}
    (h : 0 ≤ getCallback P L (some ctx) (some desc) size now http) :
    ∃ g status headers, callbackRequest P ctx proto desc now = .ok g ∧
      http g = .response status headers ∧
      getCallback P L (some ctx) (some desc) size now http =
        callbackResult L proto size status headers := by
  simp only [getCallback, hproto] at h ⊢
  cases hg : callbackRequest P ctx proto desc now with
  | error msg => simp only [hg] at h; exact absurd h (by decide)
  | ok g =>
    simp only [hg] at h ⊢
    cases hres : http g with
    | response status headers => exact ⟨g, status, headers, rfl, hres, rfl⟩
    | failed => simp only [hres] at h; exact absurd h (by decide)

section Landing

variable {P : Platform} {L : FieldLookup} {ctx : GetContext} {proto : ProtocolOptions}
  (hproto : ctx.proto = some proto)
  {desc : Bytes} (hd : chr ':' ∈ desc) {size : ℕ} {now : ℤ} {e : Endpoint}
  (hdec : e.Decodes proto ctx.path) (hwhole : e.env.Whole) {http : HttpCall → HttpOutcome}
  (hrelay : e.Relays http)

include hproto hd hdec hwhole hrelay

/-- When the callback does not return an error, the server has carried its request out: the window
that the range header selects is in the client's memory, and the response declares its length. -/
theorem getCallback_landed (h : 0 ≤ getCallback P L (some ctx) (some desc) size now http) :
    ∃ g entry offset length is_range status headers,
      callbackRequest P ctx proto desc now = .ok g ∧ http g = .response status headers ∧
      getCallback P L (some ctx) (some desc) size now http =
        callbackResult L proto size status headers ∧
      L.value headers kHdrRdmaBytesTransferred = some (decimal length) ∧
      e.getFd (objectFile e.data_dir (parseObjectPath ctx.path)) = some entry ∧
      requestWindow ctx.range entry.size = some (offset, length, is_range) ∧
      Landed entry.file offset (parseRdmaRemoteAddr desc) length (e.writes g) := by
  obtain ⟨g, status, headers, hg, hhttp, hresult⟩ := getCallback_nonneg hproto h
  obtain ⟨hstatus, -⟩ := callbackResult_nonneg (hresult ▸ h)
  -- The response is the server's, and `handle_get` has run for it.
  obtain ⟨htoken, -⟩ := Server.encodeRdmaToken_colon hd proto.token_encoding
  obtain ⟨entry, offset, length, is_range, hentry, hwin, hcount, hlanded⟩ :=
    Endpoint.answer_landed hwhole (callbackRequest_received hg hd hdec) htoken
      (hrelay g status headers hhttp hstatus) hstatus L
  rw [remoteBase_encodeRdmaToken hd] at hlanded
  exact ⟨g, entry, offset, length, is_range, status, headers, hg, hhttp, hresult, hcount, hentry,
    hwin, hlanded⟩

/-- A callback that does not return an error has delivered: the window of the object that the range
header selects is in the client's memory, from the address of the descriptor on, and no other byte
was written. With a verbatim token the value is the length of the window, which is at most the size
that the SDK asked for. With a Base64 token it is that size, whatever the length is. -/
theorem getCallback_sound (h : 0 ≤ getCallback P L (some ctx) (some desc) size now http) :
    ∃ g entry offset length is_range, callbackRequest P ctx proto desc now = .ok g ∧
      e.getFd (objectFile e.data_dir (parseObjectPath ctx.path)) = some entry ∧
      requestWindow ctx.range entry.size = some (offset, length, is_range) ∧
      Landed entry.file offset (parseRdmaRemoteAddr desc) length (e.writes g) ∧
      match proto.token_encoding with
      | .base64 => getCallback P L (some ctx) (some desc) size now http = ssize size
      | .verbatim =>
        getCallback P L (some ctx) (some desc) size now http = length ∧ length ≤ size := by
  obtain ⟨g, entry, offset, length, is_range, status, headers, hg, -, hresult, hcount, hentry, hwin,
    hlanded⟩ := getCallback_landed hproto hd hdec hwhole hrelay h
  rw [hresult] at h ⊢
  obtain ⟨-, hvalue⟩ := callbackResult_nonneg h
  rw [hcount] at hvalue
  refine ⟨g, entry, offset, length, is_range, hg, hentry, hwin, hlanded, ?_⟩
  generalize callbackResult L proto size status headers = n at h hvalue ⊢
  cases henc : proto.token_encoding with
  | base64 =>
    rw [henc] at hvalue
    exact hvalue
  | verbatim =>
    rw [henc] at hvalue
    obtain ⟨m, rfl⟩ := Int.eq_ofNat_of_zero_le h
    obtain ⟨-, hlength, hle⟩ := parseRdmaBytesTransferred_eq (decimal_ne_nil length) hvalue.symm
    rw [decimalValue_decimal] at hlength
    subst hlength
    exact ⟨rfl, hle⟩

end Landing

/-- A lookup that gives the first of several values. -/
def firstValue : FieldLookup := ⟨List.head?, rfl, fun _ => rfl⟩

/-- A server that has three bytes under every name. -/
def threeBytesEndpoint (decode : Bytes → Bytes) : Endpoint where
  lookup := firstValue
  cfg := ⟨4096, false⟩
  data_dir := ascii "d"
  getFd := Server.threeBytesFd
  slot _ _ := 0
  env := Server.steadyEnv
  decode := decode

/-- The writes of `threeBytesEndpoint` are whole. -/
theorem threeBytesEndpoint_whole (decode : Bytes → Bytes) :
    (threeBytesEndpoint decode).env.Whole := by
  intro k piece ret landed h _
  obtain ⟨rfl, rfl⟩ := Server.RdmaOutcome.returned.inj h
  exact ⟨rfl, rfl⟩

/-- A GET of the last two of the three bytes. -/
def threeBytesContext (enc : TokenEncoding) : GetContext where
  host := ascii "h"
  path := ascii "/b/k"
  range := ascii "bytes=1-2"
  proto := some { token_encoding := enc }

/-- With a verbatim token the callback returns 2 of the 5 bytes that it was asked for. -/
theorem getCallback_sound_two_of_five :
    getCallback examplePlatform firstValue (some (threeBytesContext .verbatim))
        (some (ascii "1000:0")) 5 0 (threeBytesEndpoint percentDecode).answer = 2 ∧
      ∃ g entry offset length is_range,
        callbackRequest examplePlatform (threeBytesContext .verbatim) { token_encoding := .verbatim }
          (ascii "1000:0") 0 = .ok g ∧
        (threeBytesEndpoint percentDecode).getFd (objectFile (threeBytesEndpoint percentDecode).data_dir
          (parseObjectPath (threeBytesContext .verbatim).path)) = some entry ∧
        requestWindow (threeBytesContext .verbatim).range entry.size =
          some (offset, length, is_range) ∧
        Landed entry.file offset (parseRdmaRemoteAddr (ascii "1000:0")) length
          ((threeBytesEndpoint percentDecode).writes g) ∧
        getCallback examplePlatform firstValue (some (threeBytesContext .verbatim))
          (some (ascii "1000:0")) 5 0 (threeBytesEndpoint percentDecode).answer = length ∧
        length ≤ 5 := by
  have hvalue : getCallback examplePlatform firstValue (some (threeBytesContext .verbatim))
      (some (ascii "1000:0")) 5 0 (threeBytesEndpoint percentDecode).answer = 2 := by decide +kernel
  have hproto : (threeBytesContext .verbatim).proto = some { token_encoding := .verbatim } := rfl
  have hdec : (threeBytesEndpoint percentDecode).Decodes { token_encoding := .verbatim }
      (threeBytesContext .verbatim).path := percentDecode_uriEncode _
  exact ⟨hvalue, getCallback_sound hproto (by decide) hdec (threeBytesEndpoint_whole _)
    (fun _ _ _ h _ => h) (by rw [hvalue]; decide)⟩

end S3Rdma.Client
