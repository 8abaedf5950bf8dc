import S3Rdma.Client.EndToEnd
import S3Rdma.Server.Range

/-!
# A run of the client through the injecting proxy

`src/probe/tools/mitm_inject.py` is an add-on of a proxy between the client and the server. It changes
the requests and the responses of the control plane; the RDMA writes go past it. Here it is put on the
way of every request of a `Session`, and a whole run of the client is followed through it. What the
add-on uses of Python and of the proxy is a parameter with laws (`Runtime`).

What a mode does to a run is `inject_run`. The loss of the reply tag, or a wrong one, is seen by a
client that sends verbatim tokens, and by no other. A rewritten status is seen by every client, and
already at its first HEAD, so that no GET is sent. `inject_dump` is about rewritten ranges: a dump
has the bytes of the other window, which lies within the object. Without `--range-size` there is no
range to rewrite.
-/

namespace S3Rdma.Client

open Server (objectFile requestWindow)

namespace Inject

/-! ## The add-on -/

/-- The option `inject`. Any text but the names of the four others does what `off` does. -/
inductive Mode where
  | off
  | dropReply
  | wrongReply
  | statusNegative
  | rangeRewrite
deriving DecidableEq

/-- The options that `load` adds, with their defaults. -/
structure Options where
  inject : Mode := .off
  range_offset : ℤ := 1048576

/-- What the add-on uses of Python and of the proxy. Of what `int` accepts only plain numbers matter
here, and of those only the ones that fit in 64 bits, since it limits the number of digits. A
container of fields is known by the values under each name; what `get` makes of several values is
left open. -/
structure Runtime where
  /-- `int` on a text; `none` when it raises `ValueError`. -/
  int : Bytes → Option ℤ
  int_decimal : ∀ n < 2^64, int (decimal n) = some (n : ℤ)
  /-- `headers.get(name)`. -/
  get : HeaderList → Bytes → Option Bytes
  get_nil : ∀ {headers name}, valuesOf headers (lower name) = [] → get headers name = none
  get_singleton : ∀ {headers name v}, valuesOf headers (lower name) = [v] →
    get headers name = some v
  /-- `name in headers`. -/
  contains : HeaderList → Bytes → Bool
  contains_iff : ∀ headers name, contains headers name = true ↔ valuesOf headers (lower name) ≠ []
  /-- `del headers[name]`, for a name that is there. -/
  del : HeaderList → Bytes → HeaderList
  valuesOf_del : ∀ {headers name}, contains headers name = true → ∀ n,
    valuesOf (del headers name) n = if lower name = n then [] else valuesOf headers n
  /-- `headers[name] = value`. -/
  set : HeaderList → Bytes → Bytes → HeaderList
  valuesOf_set : ∀ headers name value n,
    valuesOf (set headers name value) n = if lower name = n then [value] else valuesOf headers n

/-- The range that `request` puts in the place of another, unless it leaves that one. -/
def rewriteRange (R : Runtime) (off : ℤ) (rng : Bytes) : Option Bytes :=
  if rng = [] ∨ !(ascii "bytes=").isPrefixOf rng then none
  else
    let body := rng.drop (ascii "bytes=").length
    match body.idxOf? (chr '-') with
    | none => none
    | some i =>
      match R.int (body.take i), R.int (body.drop (i + 1)) with
      | some start, some end_ =>
        let length := end_ - start + 1
        some (ascii "bytes=" ++ (decimalInt off ++ chr '-' :: decimalInt (off + length - 1)))
      | _, _ => none

/-- `request`. -/
def request (R : Runtime) (o : Options) (g : HttpCall) : HttpCall :=
  if o.inject ≠ .rangeRewrite then g
  else
    match (R.get g.headers (ascii "Range")).bind (rewriteRange R o.range_offset) with
    | none => g
    | some new => { g with headers := R.set g.headers (ascii "Range") new }

/-- The reply tag is deleted if it is there. -/
def dropReplyTag (R : Runtime) (headers : HeaderList) : HeaderList :=
  if R.contains headers kHdrRdmaReply then R.del headers kHdrRdmaReply else headers

/-- `response`. A request without a response is none of its business. -/
def response (R : Runtime) (o : Options) : HttpOutcome → HttpOutcome
  | .failed => .failed
  | .response status headers =>
    if status = 200 ∨ status = 206 then
      match o.inject with
      | .off | .rangeRewrite => .response status headers
      | .dropReply => .response status (dropReplyTag R headers)
      | .wrongReply => .response status (R.set headers kHdrRdmaReply (ascii "500"))
      | .statusNegative => .response 503 (dropReplyTag R headers)
    else .response status headers

/-- The proxy with the add-on. -/
def proxy (R : Runtime) (o : Options) : Proxy := ⟨request R o, response R o⟩

/-- Deleting the reply tag leaves the fields of all other names. -/
theorem valuesOf_dropReplyTag (R : Runtime) (headers : HeaderList) (n : Bytes) :
    valuesOf (dropReplyTag R headers) n = if kHdrRdmaReply = n then [] else valuesOf headers n := by
  have hname : lower kHdrRdmaReply = kHdrRdmaReply := by decide
  unfold dropReplyTag
  split_ifs with hin hn hn
  · rw [R.valuesOf_del hin, hname, if_pos hn]
  · rw [R.valuesOf_del hin, hname, if_neg hn]
  · have hnil := (R.contains_iff headers kHdrRdmaReply).not.mp hin
    rw [hname, hn] at hnil
    exact not_not.mp hnil
  · rfl

/-! ## Requests -/

variable {R : Runtime} {o : Options}

/-- A request without a range is left as it is. -/
theorem request_of_no_range {g : HttpCall} (h : valuesOf g.headers (ascii "range") = []) :
    request R o g = g := by
  have hname : lower (ascii "Range") = ascii "range" := by decide
  have hget : R.get g.headers (ascii "Range") = none := R.get_nil (hname ▸ h)
  unfold request
  rw [hget]
  split_ifs <;> rfl

/-- Requests are changed in one mode only. -/
theorem request_of_ne (h : o.inject ≠ .rangeRewrite) (g : HttpCall) : request R o g = g := if_pos h

/-- The request for a size has no range. -/
theorem headRequest_range {P : Platform} {host path : Bytes} {port now : ℤ} {proto : ProtocolOptions}
    {g : HttpCall} (h : headRequest P host port path proto now = .ok g) :
    valuesOf g.headers (ascii "range") = [] := by
  obtain ⟨headers, hheaders, h⟩ := exists_of_bind_eq_ok h
  obtain rfl := Except.ok.inj h
  exact (controlPlaneHeaders_valuesOf hheaders (by decide)).trans (ownHeaders_range _ _)

/-- The request of a callback carries the range of its context, if it has one. -/
theorem callbackRequest_range {P : Platform} {ctx : GetContext} {proto : ProtocolOptions}
    {desc : Bytes} {now : ℤ} {g : HttpCall} (h : callbackRequest P ctx proto desc now = .ok g) :
    valuesOf g.headers (ascii "range") = if ctx.range = [] then [] else [ctx.range] := by
  have hne : lower kHdrRdmaToken ≠ ascii "range" := by decide
  obtain ⟨headers, hheaders, h⟩ := exists_of_bind_eq_ok h
  obtain rfl := Except.ok.inj h
  dsimp only
  rw [valuesOf_append, controlPlaneHeaders_valuesOf hheaders (by decide), ownHeaders_range]
  split_ifs <;> simp [valuesOf, hne]

/-- The range that the server sees. -/
def seenRange (R : Runtime) (o : Options) (range : Bytes) : Bytes :=
  if o.inject = .rangeRewrite then (rewriteRange R o.range_offset range).getD range else range

/-- The handler sees the range `seenRange`, and the rest of the request as it was. -/
theorem request_received {P : Platform} {ctx : GetContext} {proto : ProtocolOptions} {desc : Bytes}
    {now : ℤ} {g : HttpCall} (h : callbackRequest P ctx proto desc now = .ok g)
    (hd : chr ':' ∈ desc) {e : Endpoint} (hdec : e.Decodes proto ctx.path) :
    e.request (request R o g) = ⟨ascii "GET", ctx.path, encodeRdmaToken desc proto.token_encoding,
      seenRange R o ctx.range⟩ := by
  have hname : lower (ascii "Range") = ascii "range" := by decide
  have hreceived := callbackRequest_received h hd hdec
  have hvalues := callbackRequest_range h
  unfold seenRange
  by_cases hmode : o.inject = .rangeRewrite
  · rw [if_pos hmode]
    by_cases hrange : ctx.range = []
    · rw [if_pos hrange] at hvalues
      rw [request_of_no_range hvalues, hreceived, hrange]
      rfl
    · rw [if_neg hrange] at hvalues
      have hget : R.get g.headers (ascii "Range") = some ctx.range :=
        R.get_singleton (hname ▸ hvalues)
      cases hnew : rewriteRange R o.range_offset ctx.range with
      | none =>
        have hreq : request R o g = g := by
          unfold request
          rw [if_neg (not_not.mpr hmode), hget, Option.bind_some, hnew]
        rw [hreq, hreceived]
        rfl
      | some new =>
        have hreq : request R o g =
            { g with headers := R.set g.headers (ascii "Range") new } := by
          unfold request
          rw [if_neg (not_not.mpr hmode), hget, Option.bind_some, hnew]
        obtain ⟨hmethod, hpath, htoken, -⟩ := Server.HttpRequest.mk.inj hreceived
        have hrange' := R.valuesOf_set g.headers (ascii "Range") new (ascii "range")
        rw [if_pos hname] at hrange'
        rw [hreq]
        unfold Endpoint.request
        dsimp only
        rw [e.lookup.value_of_singleton hrange', FieldLookup.value, R.valuesOf_set, hname,
          if_neg (by decide), hmethod, hpath]
        exact congrArg (Server.HttpRequest.mk _ _ · new) htoken
  · rw [if_neg hmode, request_of_ne hmode, hreceived]

/-- A window with plain bounds is moved, and keeps its length. -/
theorem rewriteRange_plainRange (R : Runtime) (off : ℤ) {a b : ℕ} (ha : a < 2^64) (hb : b < 2^64) :
    rewriteRange R off (plainRange a b) =
      some (ascii "bytes=" ++ (decimalInt off ++ chr '-' :: decimalInt (off + (b - a)))) := by
  have hne : plainRange a b ≠ [] := by simp [plainRange, ascii]
  have hpre : (ascii "bytes=").isPrefixOf (plainRange a b) = true := by
    rw [List.isPrefixOf_iff_prefix]
    exact List.prefix_append _ _
  have hbody : (plainRange a b).drop (ascii "bytes=").length = decimal a ++ chr '-' :: decimal b := by
    unfold plainRange
    rw [List.drop_left]
  have hdrop : (decimal a ++ chr '-' :: decimal b).drop ((decimal a).length + 1) = decimal b := by
    rw [List.append_cons, List.drop_left' (by simp)]
  have hlast : off + ((b : ℤ) - a + 1) - 1 = off + (b - a) := by ring
  unfold rewriteRange
  rw [if_neg (by simp [hne, hpre])]
  simp only [hbody, idxOf?_append_cons (dash_not_mem_decimal a), List.take_left, hdrop,
    R.int_decimal a ha, R.int_decimal b hb, hlast]

/-- A moved window that the server accepts starts at the offset, has the length of the other, and
lies within the file. -/
theorem requestWindow_moved {off : ℤ} {d n offset length : ℕ} {is_range : Bool} (hn : n < 2^63)
    (h : requestWindow (ascii "bytes=" ++ (decimalInt off ++ chr '-' :: decimalInt (off + d))) n =
      some (offset, length, is_range)) :
    off = offset ∧ length = d + 1 ∧ offset + d < n := by
  set spec := ascii "bytes=" ++ (decimalInt off ++ chr '-' :: decimalInt (off + d)) with hspec
  have hne : spec ≠ [] := by simp [hspec, ascii]
  unfold requestWindow at h
  simp only [if_neg hne] at h
  split_ifs at h with hvalid
  simp only [Bool.or_eq_true, Bool.not_eq_true', not_or, Bool.not_eq_false] at hvalid
  obtain ⟨first, second, a, b, hloose⟩ := Server.exists_looseRange_of_valid hvalid.2
  have heq := hloose.spec_eq
  rw [hloose.parseRange_eq n] at hvalid h
  obtain ⟨hab, hbn⟩ := of_decide_eq_true hvalid.2
  cases off with
  | negSucc k =>
    -- The text starts with a dash, and nothing stands before it.
    obtain ⟨rfl, -⟩ := Server.split_unique List.not_mem_nil hloose.dash (hspec.symm.trans heq)
    obtain ⟨blanks, sign, digits, tail, hnil, -, -, ⟨hdigits, -⟩, -⟩ := hloose.first
    simp_all
  | ofNat k =>
    obtain ⟨rfl, hsecond⟩ := Server.split_unique (dash_not_mem_decimal k) hloose.dash
      (hspec.symm.trans heq)
    have hb : decimalInt (Int.ofNat k + d) = decimal (k + d) := rfl
    rw [hb] at hsecond
    subst hsecond
    have hdigits (m : ℕ) : (decimal m).all isDigit = true :=
      List.all_eq_true.mpr fun _ => isDigit_of_mem_decimal
    obtain ⟨-, -, rfl⟩ := Server.digitsOnly_of_loose hloose.first (hdigits k)
    obtain ⟨-, -, rfl⟩ := Server.digitsOnly_of_loose hloose.second (hdigits (k + d))
    rw [decimalValue_decimal, decimalValue_decimal] at *
    simp only [Option.some.injEq, Prod.mk.injEq] at h
    obtain ⟨rfl, rfl, -⟩ := h
    refine ⟨rfl, ?_, hbn⟩
    unfold add64 sub64
    omega

/-! ## Responses -/

/-- A proxy that is off or rewrites ranges leaves the responses as they are. -/
theorem response_of_quiet (h : o.inject = .off ∨ o.inject = .rangeRewrite) (r : HttpOutcome) :
    response R o r = r := by
  cases r with
  | failed => rfl
  | response status headers => rcases h with h | h <;> simp [response, h]

/-- Outside `status_negative` a response keeps its status, and its fields but the reply tag. -/
theorem response_of_ne (h : o.inject ≠ .statusNegative) (status : ℕ) (headers : HeaderList) :
    ∃ headers', response R o (.response status headers) = .response status headers' ∧
      ∀ n ≠ kHdrRdmaReply, valuesOf headers' n = valuesOf headers n := by
  have hname : lower kHdrRdmaReply = kHdrRdmaReply := by decide
  unfold response
  dsimp only
  by_cases hstatus : status = 200 ∨ status = 206
  · rw [if_pos hstatus]
    cases hmode : o.inject with
    | off => exact ⟨headers, rfl, fun _ _ => rfl⟩
    | rangeRewrite => exact ⟨headers, rfl, fun _ _ => rfl⟩
    | statusNegative => exact absurd hmode h
    | dropReply =>
      refine ⟨_, rfl, fun n hn => ?_⟩
      rw [valuesOf_dropReplyTag, if_neg (Ne.symm hn)]
    | wrongReply =>
      refine ⟨_, rfl, fun n hn => ?_⟩
      rw [R.valuesOf_set, hname, if_neg (Ne.symm hn)]
  · exact ⟨headers, if_neg hstatus, fun _ _ => rfl⟩

/-- In `status_negative` no response is one of success. -/
theorem response_negative (h : o.inject = .statusNegative) (status : ℕ) (headers : HeaderList) :
    ∃ status' headers', response R o (.response status headers) = .response status' headers' ∧
      status' ≠ 200 ∧ status' ≠ 206 := by
  unfold response
  dsimp only
  by_cases hstatus : status = 200 ∨ status = 206
  · rw [if_pos hstatus, h]
    exact ⟨503, _, rfl, by decide, by decide⟩
  · rw [if_neg hstatus]
    exact ⟨status, headers, rfl, not_or.mp hstatus⟩

/-- With the reply tag gone or wrong, a client with verbatim tokens reads an error. -/
theorem callbackResult_response (h : o.inject = .dropReply ∨ o.inject = .wrongReply)
    (L : FieldLookup) {proto : ProtocolOptions} (henc : proto.token_encoding = .verbatim) (size : ℕ)
    {status status' : ℕ} {headers headers' : HeaderList}
    (hres : response R o (.response status headers) = .response status' headers') :
    callbackResult L proto size status' headers' = -1 := by
  have hname : lower kHdrRdmaReply = kHdrRdmaReply := by decide
  unfold response at hres
  dsimp only at hres
  by_cases hstatus : status = 200 ∨ status = 206
  · rw [if_pos hstatus] at hres
    unfold callbackResult
    rw [henc]
    rcases h with hmode | hmode
    · simp only [hmode, HttpOutcome.response.injEq] at hres
      obtain ⟨rfl, rfl⟩ := hres
      have hreply : L.value (dropReplyTag R headers) kHdrRdmaReply = none :=
        L.value_of_nil ((valuesOf_dropReplyTag R headers _).trans (if_pos rfl))
      rw [hreply]
      split_ifs <;> rfl
    · simp only [hmode, HttpOutcome.response.injEq] at hres
      obtain ⟨rfl, rfl⟩ := hres
      have hreply : parseRdmaReply (L.value
          (R.set headers kHdrRdmaReply (ascii "500")) kHdrRdmaReply) = .code 500 := by
        rw [L.value_of_singleton ((R.valuesOf_set headers _ _ _).trans (if_pos hname))]
        decide
      simp only [hreply]
      rw [if_pos (show 500 ≠ status by omega)]
      split_ifs <;> rfl
  · rw [if_neg hstatus] at hres
    obtain ⟨rfl, rfl⟩ := HttpOutcome.response.inj hres
    exact if_pos (not_or.mp hstatus)

end Inject

/-! ## A session through the proxy -/

open Inject (Runtime Options)

namespace Session

variable (s : Session) (R : Runtime) (o : Options)

/-- `head_size` for an object, through the proxy with the add-on. -/
def headThrough : Bytes → ℤ := s.headBy (Inject.proxy R o)

/-- What `get_registered` returns through the proxy with the add-on, and the buffer after it. -/
def transportThrough : Transport := s.transportBy (Inject.proxy R o)

variable {s R o}

/-- Sizes come through, unless the status is rewritten. -/
theorem headThrough_eq (h : o.inject ≠ .statusNegative) : s.headThrough R o = s.head := by
  funext key
  unfold headThrough head headBy headSize Inject.proxy Proxy.none
  cases hg : headRequest s.P s.host s.port (s.path key) s.proto (s.headNow key) with
  | error msg => rfl
  | ok g =>
    simp only [Inject.request_of_no_range (Inject.headRequest_range hg), id_eq]
    cases (s.headPassage key).outcome (s.headServer key) g with
    | failed => rfl
    | response status headers =>
      obtain ⟨headers', hres, hvalues⟩ := Inject.response_of_ne (R := R) h status headers
      simp only [hres, FieldLookup.value, hvalues (ascii "content-length") (by decide)]

/-- With a rewritten status no size comes through. -/
theorem headThrough_negative (h : o.inject = .statusNegative) (key : Bytes) :
    s.headThrough R o key = -1 := by
  unfold headThrough headBy headSize Inject.proxy
  cases headRequest s.P s.host s.port (s.path key) s.proto (s.headNow key) with
  | error msg => rfl
  | ok g =>
    simp only
    cases (s.headPassage key).outcome (s.headServer key) (Inject.request R o g) with
    | failed => rfl
    | response status headers =>
      obtain ⟨status', headers', hres, hne, -⟩ := Inject.response_negative (R := R) h status headers
      simp only [hres]
      exact if_pos hne

/-- A proxy that is off changes no GET. -/
theorem transportThrough_off (h : o.inject = .off) : s.transportThrough R o = s.transport := by
  have hproxy : Inject.proxy R o = .none := by
    unfold Inject.proxy Proxy.none
    congr 1
    · funext q
      exact Inject.request_of_ne (by simp [h]) q
    · funext r
      exact Inject.response_of_quiet (.inl h) r
  unfold transportThrough transport
  rw [hproxy]

/-- Two proxies with the same callbacks give the same GETs. -/
theorem transportBy_congr {w w' : Proxy} {call : ℕ} {g : Get}
    (h : s.callbackBy w call g = s.callbackBy w' call g) (buf : Bytes) :
    s.transportBy w call g buf = s.transportBy w' call g buf := by
  unfold transportBy
  rw [h]

/-- A client with Base64 tokens does not look at the reply tag. -/
theorem transportThrough_base64 (h : o.inject ≠ .statusNegative) (hmode : o.inject ≠ .rangeRewrite)
    (henc : s.proto.token_encoding = .base64) : s.transportThrough R o = s.transport := by
  funext call g buf
  refine transportBy_congr ?_ buf
  funext k desc size
  have hproto : (s.context g).proto = some s.proto := rfl
  unfold callbackBy getCallback Inject.proxy Proxy.none
  simp only [hproto, Inject.request_of_ne hmode, id_eq]
  cases callbackRequest s.P (s.context g) s.proto desc (s.now call k) with
  | error msg => rfl
  | ok q =>
    simp only
    cases (s.passage call k).outcome (s.server call k) q with
    | failed => rfl
    | response status headers =>
      obtain ⟨headers', hres, -⟩ := Inject.response_of_ne (R := R) h status headers
      simp only [hres, callbackResult, henc]

/-- The callback of a client with verbatim tokens takes a reply tag that is gone or wrong for a
failure, after the server has written as it does without the proxy. -/
theorem callbackBy_verbatim (h : o.inject = .dropReply ∨ o.inject = .wrongReply)
    (henc : s.proto.token_encoding = .verbatim) (call : ℕ) (g : Get) (k : ℕ) (desc : Bytes)
    (size : ℕ) :
    (s.callbackBy (Inject.proxy R o) call g k desc size).1 = -1 ∧
      (s.callbackBy (Inject.proxy R o) call g k desc size).2 =
        (s.callbackBy .none call g k desc size).2 := by
  have hmode : o.inject ≠ .rangeRewrite := by rcases h with h | h <;> simp [h]
  have hproto : (s.context g).proto = some s.proto := rfl
  unfold callbackBy getCallback Inject.proxy Proxy.none
  simp only [hproto, Inject.request_of_ne hmode, id_eq, and_true]
  cases callbackRequest s.P (s.context g) s.proto desc (s.now call k) with
  | error msg => rfl
  | ok q =>
    simp only
    cases (s.passage call k).outcome (s.server call k) q with
    | failed => rfl
    | response status headers =>
      cases hres : Inject.response R o (.response status headers) with
      | failed => rfl
      | response status' headers' => exact Inject.callbackResult_response h s.lookup henc _ hres

/-- A GET by one callback with verbatim tokens fails when the reply tag is gone or wrong, and leaves
the buffer as it does without the proxy. -/
theorem transportThrough_verbatim (h : o.inject = .dropReply ∨ o.inject = .wrongReply)
    (henc : s.proto.token_encoding = .verbatim) {call : ℕ} {g : Get}
    (hsdk : (s.sdk call g).Single s.base g.size) (buf : Bytes) :
    (s.transportThrough R o call g buf).1 < 0 ∧
      (s.transportThrough R o call g buf).2 = (s.transport call g buf).2 := by
  unfold transportThrough transport transportBy
  cases hget : s.sdk call g with
  | returns n =>
    rw [hget] at hsdk
    exact ⟨hsdk, rfl⟩
  | throws => exact ⟨show (-1 : ℤ) < 0 by decide, rfl⟩
  | callback desc size next =>
    rw [hget] at hsdk
    obtain ⟨-, -, rfl, rfl⟩ := hsdk
    obtain ⟨hvalue, hwrites⟩ := callbackBy_verbatim (R := R) h henc call g 0 desc g.size
    simp only [SdkGet.run_callback_returns, hvalue, hwrites]
    exact ⟨by decide, trivial⟩

/-- A GET without a range is not changed by a rewriting of ranges. -/
theorem transportThrough_no_range (h : o.inject = .rangeRewrite) (call : ℕ) {g : Get}
    (hg : g.range = []) (buf : Bytes) :
    s.transportThrough R o call g buf = s.transport call g buf := by
  refine transportBy_congr ?_ buf
  funext k desc size
  have hrequest {q : HttpCall}
      (hq : callbackRequest s.P (s.context g) s.proto desc (s.now call k) = .ok q) :
      Inject.request R o q = q :=
    Inject.request_of_no_range ((Inject.callbackRequest_range hq).trans (if_pos hg))
  have hproto : (s.context g).proto = some s.proto := rfl
  unfold callbackBy getCallback Inject.proxy Proxy.none
  simp only [hproto]
  cases hq : callbackRequest s.P (s.context g) s.proto desc (s.now call k) with
  | error msg => rfl
  | ok q => simp only [Inject.response_of_quiet (.inr h), hrequest hq, id_eq]

variable {content : Bytes → Bytes} {keys : List Bytes}

/-- A GET with a rewritten range that does not return an error has put the window from the new offset
on at the start of the buffer. -/
theorem getThrough_sound (hs : s.Faithful content keys) (hmode : o.inject = .rangeRewrite)
    {call range_size : ℕ} (hlands : ∀ ws, s.lands call ws = ws) (hr : 0 < range_size) {key : Bytes}
    (hkey : key ∈ keys) {buf : Bytes} (hpos : content key ≠ [])
    (hfits : xferSize range_size (describe content key) ≤ buf.length)
    (h : 0 ≤ (s.transportThrough R o call (getOf range_size (describe content key)) buf).1) :
    ∃ off : ℕ, o.range_offset = off ∧
      off + xferSize range_size (describe content key) ≤ (content key).length ∧
      (s.transportThrough R o call (getOf range_size (describe content key)) buf).2.take
          (xferSize range_size (describe content key)) =
        ((content key).drop off).take (xferSize range_size (describe content key)) := by
  set xfer := xferSize range_size (describe content key) with hxfer
  have hproto : (s.context (getOf range_size (describe content key))).proto = some s.proto := rfl
  have hdec : (s.server call 0).Decodes s.proto
      (s.context (getOf range_size (describe content key))).path :=
    (hs.stores call 0).decodes key hkey
  obtain ⟨desc, hcolon, haddress, hcalled, hbuf⟩ := transportBy_nonneg (hs.sdk call _) hlands h
  obtain ⟨g, status, headers, hg, hhttp, hresult⟩ := getCallback_nonneg hproto hcalled
  simp only [Inject.proxy, Inject.response_of_quiet (.inr hmode)] at hhttp
  obtain ⟨hstatus, -⟩ := callbackResult_nonneg (hcalled.trans_eq hresult)
  obtain ⟨hpassage, hanswer⟩ := (s.passage call 0).outcome_success _ hhttp hstatus
  obtain ⟨htoken, -⟩ := Server.encodeRdmaToken_colon hcolon s.proto.token_encoding
  obtain ⟨entry, offset, length, is_range, hentry, hwin, -, hlanded⟩ :=
    Endpoint.answer_landed (hs.whole call 0) (Inject.request_received hg hcolon hdec) htoken
      hanswer hstatus s.lookup
  rw [remoteBase_encodeRdmaToken hcolon, haddress] at hlanded
  obtain ⟨hbytes, hsize⟩ := (hs.stores call 0).file key hkey entry hentry
  -- The range asks for the first bytes, and the server has read the moved one.
  have hlt := entry.size_lt
  have hle : xfer ≤ (content key).length := xferSize_le _ _
  have hnonzero : 0 < xfer := xferSize_pos range_size (List.length_pos_iff.mpr hpos)
  have hseen : Inject.seenRange R o (getOf range_size (describe content key)).range =
      ascii "bytes=" ++ (decimalInt o.range_offset ++
        chr '-' :: decimalInt (o.range_offset + (xfer - 1 : ℕ))) := by
    unfold Inject.seenRange
    rw [if_pos hmode, range_getOf hr, Inject.rewriteRange_plainRange R _ (by decide) (by omega),
      Nat.cast_zero, sub_zero]
    rfl
  obtain ⟨hoff, rfl, hin⟩ := Inject.requestWindow_moved hlt (hseen ▸ hwin)
  have hlast : xfer - 1 + 1 = xfer := by omega
  rw [hlast] at hlanded
  refine ⟨offset, hoff, by omega, ?_⟩
  have hwrites : (s.callbackBy (Inject.proxy R o) call (getOf range_size (describe content key)) 0
      desc (getOf range_size (describe content key)).size).2 =
      (s.server call 0).writes (Inject.request R o g) := by
    unfold callbackBy Inject.proxy
    simp only [hg, hpassage, Passage.writes]
  rw [hwrites] at hbuf
  rw [show s.transportThrough R o call (getOf range_size (describe content key)) buf =
    s.transportBy (Inject.proxy R o) call (getOf range_size (describe content key)) buf from rfl,
    hbuf, place_take hlanded hfits]
  unfold Server.File.slice
  rw [hbytes]

end Session

/-! ## The run -/

/-- If all sizes were found, a HEAD was sent for every object. -/
theorem sentHeads_eq {head : Bytes → ℤ} {keys : List Bytes} {objs : List ObjDesc} {max_size : ℕ}
    {found : List ObjDesc × ℕ} (h : discoverLoop head keys objs max_size = some found) :
    sentHeads head keys = keys.map .head := by
  induction keys generalizing objs max_size with
  | nil => rfl
  | cons key keys ih =>
    rw [discoverLoop] at h
    split_ifs at h with hle
    rw [sentHeads, if_neg hle, ih h, List.map_cons]

/-- Without the size of the first object the run ends after its HEAD. -/
theorem runClient_no_head {head : Bytes → ℤ} (h : ∀ key, head key ≤ 0) (transport : Transport)
    (fresh : ℕ → Bytes) {args : Args} (hkeys : args.objects ≠ []) (iterations : ℕ) :
    runClient head transport fresh args iterations = (1, none) ∧
      sentByClient head transport fresh args iterations = (args.objects.take 1).map .head := by
  obtain ⟨key, keys, hobjects⟩ := List.exists_cons_of_ne_nil hkeys
  have hdisc : discoverObjects head args.objects = none := by
    rw [hobjects]
    exact if_pos (h key)
  unfold runClient sentByClient
  rw [hdisc, hobjects, sentHeads, if_pos (h key)]
  exact ⟨rfl, rfl⟩

/-- A run whose GETs fail ends with the first GET after the warm-up, if it comes to one. -/
theorem runClient_no_get {transport : Transport} (h : ∀ call g buf, (transport call g buf).1 < 0)
    (head : Bytes → ℤ) (fresh : ℕ → Bytes) (args : Args) {iterations : ℕ} (hiter : 0 < iterations) :
    runClient head transport fresh args iterations = (1, none) ∧
      ∀ objs max_size, discoverObjects head args.objects = some (objs, max_size) →
        sentByClient head transport fresh args iterations =
          args.objects.map .head ++ (objs.map (fun obj => .get (getOf args.range_size obj)) ++
            [.get (getOf args.range_size (objAt objs 0))]) := by
  obtain ⟨n, rfl⟩ := Nat.exists_eq_add_one_of_ne_zero hiter.ne'
  refine ⟨?_, fun objs max_size hfound => ?_⟩
  · unfold runClient
    cases discoverObjects head args.objects with
    | none => rfl
    | some found =>
      simp only [worker]
      rw [if_pos (h _ _ _)]
      rfl
  · unfold sentByClient
    simp only [hfound, sentHeads_eq hfound, sentByWorker]
    rw [if_pos (h _ _ _)]

variable {s : Session} {R : Runtime} {o : Options} {content : Bytes → Bytes} {fresh : ℕ → Bytes}
  {args : Args} {iterations : ℕ}

/-- What the modes that leave the range alone do to a run. With `status_negative` it ends after the
first HEAD and sends nothing else, whatever a GET would do. Without the reply tag, or with a wrong
one, it is the same run if the tokens are Base64. If they are verbatim every GET fails, although the
buffer is as it is without the proxy, and so the run fails at its first GET after the warm-up. -/
theorem inject_run (hkeys : args.objects ≠ []) :
    (o.inject = .off → runClient (s.headThrough R o) (s.transportThrough R o) fresh args iterations =
        runClient s.head s.transport fresh args iterations) ∧
    (o.inject = .statusNegative → ∀ transport,
      runClient (s.headThrough R o) transport fresh args iterations = (1, none) ∧
      sentByClient (s.headThrough R o) transport fresh args iterations =
        (args.objects.take 1).map .head) ∧
    (o.inject = .dropReply ∨ o.inject = .wrongReply →
      (s.proto.token_encoding = .base64 →
        runClient (s.headThrough R o) (s.transportThrough R o) fresh args iterations =
          runClient s.head s.transport fresh args iterations) ∧
      (s.proto.token_encoding = .verbatim →
        (∀ call g, (s.sdk call g).Single s.base g.size) → 0 < iterations →
        (∀ call g buf, (s.transportThrough R o call g buf).1 < 0 ∧
          (s.transportThrough R o call g buf).2 = (s.transport call g buf).2) ∧
        runClient (s.headThrough R o) (s.transportThrough R o) fresh args iterations = (1, none) ∧
        ∀ objs max_size,
          discoverObjects (s.headThrough R o) args.objects = some (objs, max_size) →
          sentByClient (s.headThrough R o) (s.transportThrough R o) fresh args iterations =
            args.objects.map .head ++ (objs.map (fun obj => .get (getOf args.range_size obj)) ++
              [.get (getOf args.range_size (objAt objs 0))]))) := by
  refine ⟨fun hmode => ?_, fun hmode transport => ?_,
    fun hmode => ⟨fun henc => ?_, fun henc hsdk hiter => ?_⟩⟩
  · have hne : o.inject ≠ .statusNegative ∧ o.inject ≠ .rangeRewrite := by simp [hmode]
    rw [Session.headThrough_eq hne.1, Session.transportThrough_off hmode]
  · exact runClient_no_head (fun key => (Session.headThrough_negative hmode key).trans_le (by decide))
      transport fresh hkeys iterations
  · have hne : o.inject ≠ .statusNegative ∧ o.inject ≠ .rangeRewrite := by
      rcases hmode with hmode | hmode <;> simp [hmode]
    rw [Session.headThrough_eq hne.1, Session.transportThrough_base64 hne.1 hne.2 henc]
  · have hget := fun call g =>
      Session.transportThrough_verbatim (R := R) hmode henc (hsdk call g)
    exact ⟨hget, runClient_no_get (fun call g buf => (hget call g buf).1) _ _ _ hiter⟩

/-- A `del` that leaves the fields of the other names. -/
def delFields (headers : HeaderList) (name : Bytes) : HeaderList :=
  headers.filter fun f => lower f.1 != lower name

/-- `delFields` leaves the fields of all other names. -/
theorem valuesOf_delFields (headers : HeaderList) (name n : Bytes) :
    valuesOf (delFields headers name) n = if lower name = n then [] else valuesOf headers n := by
  unfold valuesOf delFields
  rw [List.filter_filter]
  split_ifs with h
  · subst h
    simp
  · congr 2
    funext f
    by_cases hf : lower f.1 = n
    · simp [hf, Ne.symm h]
    · simp [hf]

/-- An `int` that reads digits only, and containers that put a new value at the end. -/
def plainRuntime : Runtime where
  int text := if allDigits text then some (decimalValue text) else none
  int_decimal n _ := by
    have hdigits : allDigits (decimal n) = true := by
      simpa [allDigits, decimal_ne_nil] using fun c => isDigit_of_mem_decimal
    rw [if_pos hdigits, decimalValue_decimal]
  get headers name := (valuesOf headers (lower name)).head?
  get_nil h := by rw [h]; rfl
  get_singleton h := by rw [h]; rfl
  contains headers name := !(valuesOf headers (lower name)).isEmpty
  contains_iff headers name := by simp
  del := delFields
  valuesOf_del _ n := valuesOf_delFields _ _ n
  set headers name value := delFields headers name ++ [(name, value)]
  valuesOf_set headers name value n := by
    rw [valuesOf_append, valuesOf_delFields, valuesOf_cons]
    split_ifs <;> simp [valuesOf]

/-- With verbatim tokens a lost reply tag ends a run that succeeds without the proxy, at its second
GET, which is the first after the warm-up. -/
theorem inject_run_dropped :
    runClient (threeBytesSession .verbatim percentDecode).head
        (threeBytesSession .verbatim percentDecode).transport (List.replicate · 9)
        { objects := [ascii "k"] } 1 = (0, none) ∧
      runClient ((threeBytesSession .verbatim percentDecode).headThrough plainRuntime
          { inject := .dropReply })
        ((threeBytesSession .verbatim percentDecode).transportThrough plainRuntime
          { inject := .dropReply })
        (List.replicate · 9) { objects := [ascii "k"] } 1 = (1, none) ∧
      (((threeBytesSession .verbatim percentDecode).transportThrough plainRuntime
        { inject := .dropReply } 0 ⟨3, ascii "k", []⟩ [9, 9, 9]).2 =
      ((threeBytesSession .verbatim percentDecode).transport 0 ⟨3, ascii "k", []⟩ [9, 9, 9]).2) := by
  obtain ⟨hget, hrun, -⟩ := ((@inject_run (threeBytesSession .verbatim percentDecode)
    plainRuntime { inject := .dropReply } (List.replicate · 9) { objects := [ascii "k"] } 1
    (by decide)).2.2 (.inl rfl)).2 rfl oneCallback_single (by decide)
  exact ⟨by decide +kernel, hrun, (hget 0 _ _).2⟩

/-- A dump through a proxy that rewrites ranges. Without `--range-size` it is the last object. With
it, it starts with as many bytes of the last object as were asked for, from the offset of the proxy
on, and these lie within the object; so with an offset that is negative or too large there is none.
No write of the warm-up may land after it. -/
theorem inject_dump (hs : s.Faithful content args.objects) (hlate : s.OnTime args.objects.length)
    (hfresh : ∀ n, (fresh n).length = n) (hkeys : args.objects ≠ [])
    (hmode : o.inject = .rangeRewrite) {file : Bytes}
    (h : runClient (s.headThrough R o) (s.transportThrough R o) fresh args iterations =
      (0, some file)) :
    file.length = (content (args.lastKey iterations)).length ∧
      (args.range_size = 0 → file = content (args.lastKey iterations)) ∧
      (0 < args.range_size → ∃ off : ℕ, o.range_offset = off ∧
        off + xferSize args.range_size (describe content (args.lastKey iterations)) ≤
          (content (args.lastKey iterations)).length ∧
        file.take (xferSize args.range_size (describe content (args.lastKey iterations))) =
          ((content (args.lastKey iterations)).drop off).take
            (xferSize args.range_size (describe content (args.lastKey iterations)))) := by
  rw [Session.headThrough_eq (by simp [hmode])] at h
  by_cases hr : args.range_size = 0
  · have hf : Fetches (s.transportThrough R o) content args.range_size args.objects
        fun key bytes => bytes = delivered content args.range_size key := by
      refine ⟨Session.length_transportBy _, fun call hcall key hkey buf hpos hfits hget => ?_⟩
      rw [Session.transportThrough_no_range hmode call (by simp [getOf, hr])] at hget ⊢
      exact Session.get_sound hs (hlate call hcall) hkey hpos hfits hget
    obtain ⟨hlength, hbytes⟩ :=
      hf.dump_sound (fun key => Session.head_sound hs) hfresh hkeys h
    exact ⟨hlength, fun _ => eq_of_take_eq_delivered hr hlength hbytes,
      fun hpos => absurd hr hpos.ne'⟩
  · have hf : Fetches (s.transportThrough R o) content args.range_size args.objects
        fun key bytes => ∃ off : ℕ, o.range_offset = off ∧
          off + xferSize args.range_size (describe content key) ≤ (content key).length ∧
          bytes = ((content key).drop off).take (xferSize args.range_size (describe content key)) :=
      ⟨Session.length_transportBy _, fun call hcall _ hkey _ =>
        Session.getThrough_sound hs hmode (hlate call hcall) (Nat.pos_of_ne_zero hr) hkey⟩
    obtain ⟨hlength, hbytes⟩ :=
      hf.dump_sound (fun key => Session.head_sound hs) hfresh hkeys h
    exact ⟨hlength, fun hzero => absurd hzero hr, fun _ => hbytes⟩

/-- Two bytes of three, from the second on. -/
theorem inject_dump_two_of_three :
    runClient ((threeBytesSession .base64 id).headThrough plainRuntime
          { inject := .rangeRewrite, range_offset := 1 })
        ((threeBytesSession .base64 id).transportThrough plainRuntime
          { inject := .rangeRewrite, range_offset := 1 })
        (List.replicate · 9) { objects := [ascii "k"], out := ascii "dump.bin", range_size := 2 } 1 =
      (0, some [6, 7, 9]) ∧
    ∃ off : ℕ, (1 : ℤ) = off ∧ [6, 7] = ((threeBytesContent (ascii "k")).drop off).take 2 := by
  have hrun : runClient ((threeBytesSession .base64 id).headThrough plainRuntime
        { inject := .rangeRewrite, range_offset := 1 })
      ((threeBytesSession .base64 id).transportThrough plainRuntime
        { inject := .rangeRewrite, range_offset := 1 })
      (List.replicate · 9) { objects := [ascii "k"], out := ascii "dump.bin", range_size := 2 } 1 =
    (0, some [6, 7, 9]) := by decide +kernel
  obtain ⟨-, -, hwindow⟩ := inject_dump (threeBytesSession_faithful fun _ => rfl)
    (fun _ _ _ => rfl) (fun _ => List.length_replicate) (by decide) rfl hrun
  obtain ⟨off, hoff, -, hbytes⟩ := hwindow (by decide)
  exact ⟨hrun, off, hoff, hbytes⟩

end S3Rdma.Client
