import S3Rdma.Http.Message
import S3Rdma.Server.Direct
import S3Rdma.Server.Token

/-!
# The HTTP handler

The GET handler of `S3Server::run` in `src/server/s3_server.cpp`: the path is parsed, a HEAD is
answered from the file's size, a GET without a token is refused, and a GET with one goes through
`handle_get`. A successful answer names the reply code by the convention of the token's encoding,
the number of bytes, and has the body `OK`.

The client's completion authority reads that answer by the same two conventions, with one
difference: for a verbatim token the body has to be empty. So the answer completes the GET of a
client that sent the token in Base64, and never that of a client that sent it verbatim.
-/

namespace S3Rdma.Server

/-- The parts of `httplib::Request` that the handler reads; a header that is absent reads as the
empty text. -/
structure HttpRequest where
  method : Bytes
  path : Bytes
  token : Bytes
  range : Bytes

/-- The parts of `httplib::Response` that the handler sets. -/
structure HttpResponse where
  status : ℕ
  headers : HeaderList := []
  body : Bytes := []
  content_type : Bytes := []
deriving DecidableEq

/-- `set_content` with a text. -/
def HttpResponse.setContent (res : HttpResponse) (body : Bytes) : HttpResponse :=
  { res with body, content_type := ascii "text/plain" }

/-- The path of an object, as the handler and `handle_get` build it. -/
def objectFile (data_dir : Bytes) (p : ObjectPath) : Bytes :=
  data_dir ++ ascii "/" ++ (p.bucket ++ ascii "/" ++ p.object)

/-- The answer to a GET whose `handle_get` returned. -/
def getAnswer (token : Bytes) (status : ℕ) (bytes : ℤ) : HttpResponse :=
  if status = 200 ∨ status = 206 then
    HttpResponse.setContent
      { status
        headers :=
          [(kHdrRdmaReply, if chr ':' ∈ token then decimal status else ascii "200"),
           (kHdrRdmaBytesTransferred, decimalInt bytes)] }
      (ascii "OK\n")
  else HttpResponse.setContent { status } (ascii "error\n")

/-- The handler, given what `get_fd` returns for each path; there is no answer of its own when
`handle_get` does not return. -/
def getHandler (cfg : Config) (data_dir : Bytes) (getFd : Bytes → Option FdEntry) (slot : Staging)
    (env : Env) (req : HttpRequest) : Option HttpResponse :=
  let p := parseObjectPath req.path
  if !p.valid then
    some (HttpResponse.setContent { status := 400 } (ascii "expected /<bucket>/<object>\n"))
  else if req.method = ascii "HEAD" then
    match getFd (objectFile data_dir p) with
    | none => some { status := 404 }
    | some e => some { status := 200, headers := [(ascii "Content-Length", decimal e.size)] }
  else if req.token = [] then
    some (HttpResponse.setContent { status := 400 } (ascii "missing RDMA token header\n"))
  else
    match (handleGet cfg (getFd (objectFile data_dir p)) req.range req.token slot env).1 with
    | .returned status bytes_out => some (getAnswer req.token status (bytes_out.getD 0))
    | _ => none

/-- What cpp-httplib is assumed to put on the wire for a response: one well-formed message with its
status and its body, and with the RDMA fields that the handler set, none of them twice. -/
structure Framed (res : HttpResponse) (stream head : Bytes) (fields : List (Bytes × Bytes)) : Prop where
  message : IsMessage stream res.status fields head res.body
  reply : valuesOf fields kHdrRdmaReply = valuesOf res.headers kHdrRdmaReply
  count : valuesOf fields kHdrRdmaBytesTransferred = valuesOf res.headers kHdrRdmaBytesTransferred

/-- A token for a descriptor with a colon is not empty, and has a colon if it is verbatim. -/
theorem encodeRdmaToken_colon {d : Bytes} (hd : chr ':' ∈ d) (enc : TokenEncoding) :
    encodeRdmaToken d enc ≠ [] ∧ (chr ':' ∈ encodeRdmaToken d enc ↔ enc = .verbatim) := by
  cases enc with
  | base64 =>
    refine ⟨fun hnil => ?_, by simpa [encodeRdmaToken] using colon_not_mem_base64Encode d⟩
    have hdecode := base64Decode_base64Encode d
    rw [show base64Encode d = [] from hnil] at hdecode
    rw [← hdecode] at hd
    exact absurd hd (by decide)
  | verbatim =>
    have hmem : chr ':' ∈ encodeRdmaToken d .verbatim := colon_mem_rdropWhile hd
    exact ⟨List.ne_nil_of_mem hmem, fun _ => rfl, fun _ => hmem⟩

/-- The reply code of an answer has three digits. -/
theorem reply_digits (token : Bytes) {status : ℕ} (hstatus : status = 200 ∨ status = 206) :
    (if chr ':' ∈ token then decimal status else ascii "200").length = 3 ∧
      (if chr ':' ∈ token then decimal status else ascii "200").all isDigit = true := by
  split_ifs
  · refine ⟨?_, all_isDigit_decimal status⟩
    rcases hstatus with rfl | rfl <;> decide
  · decide

/-- What the authority decides about the answer to a successful GET, for a request of as many bytes
as were transferred. -/
theorem getAnswer_decided {token : Bytes} {status n : ℕ} (hstatus : status = 200 ∨ status = 206)
    (hmax : n < 2^63) {proto : ProtocolOptions}
    (hcolon : chr ':' ∈ token ↔ proto.token_encoding = .verbatim) {stream head : Bytes}
    {fields : List (Bytes × Bytes)} (hframed : Framed (getAnswer token status n) stream head fields)
    {r : RawResponse}
    (hr : ReadsMessage r (getAnswer token status n).status fields
      (getAnswer token status n).body.length) :
    completionAuthority (viewReceipt r n) proto n n = true ↔ proto.token_encoding = .base64 := by
  -- The reply code follows the token's convention, the body is the same in both.
  set reply := if chr ':' ∈ token then decimal status else ascii "200" with hreply
  have hanswer : getAnswer token status n = HttpResponse.setContent
      { status, headers := [(kHdrRdmaReply, reply), (kHdrRdmaBytesTransferred, decimal n)] }
      (ascii "OK\n") := if_pos hstatus
  obtain ⟨-, hreply_field, hcount_field⟩ := hframed
  rw [hanswer] at hr hreply_field hcount_field
  obtain ⟨hlen, hdigits⟩ := reply_digits token hstatus
  rw [completionAuthority_message hr proto hstatus (hreply_field.trans rfl) hlen hdigits
    (hcount_field.trans rfl) le_rfl hmax]
  cases henc : proto.token_encoding with
  | base64 =>
    -- A Base64 token has no colon, so the reply is 200.
    have hno : chr ':' ∉ token := fun hmem => absurd (hcolon.mp hmem) (by simp [henc])
    have hvalue : decimalValue reply = 200 := by
      rw [hreply, if_neg hno]
      decide
    simp [hvalue]
  -- The body is `OK` and a newline, and the verbatim convention wants an empty one.
  | verbatim => simp [HttpResponse.setContent, ascii]

/-- The answer to a GET that succeeded, for a token of a descriptor with a colon in either encoding:
framed as one message and received in any way, it is a qualified completion for the client exactly
if the token was in Base64. -/
theorem getHandler_qualified_iff (cfg : Config) (data_dir : Bytes)
    (getFd : Bytes → Option FdEntry) (slot : Staging) (env : Env) (req : HttpRequest)
    (hmethod : req.method = ascii "GET") (hpath : (parseObjectPath req.path).valid = true)
    {d : Bytes} (hd : chr ':' ∈ d) (proto : ProtocolOptions)
    (htoken : req.token = encodeRdmaToken d proto.token_encoding) {status n : ℕ}
    (hget : (handleGet cfg (getFd (objectFile data_dir (parseObjectPath req.path))) req.range
      req.token slot env).1 = .returned status (some n))
    (hstatus : status = 200 ∨ status = 206) (hmax : n < 2^63) :
    ∃ res, getHandler cfg data_dir getFd slot env req = some res ∧
      ∀ stream head fields, Framed res stream head fields →
      ∀ host_header target headers max_head max_body sends segs,
        RequestSent host_header target headers ⟨none, sends, []⟩ →
        head.length ≤ max_head → res.body.length ≤ max_body → Cuts stream segs →
        ∃ r rest, rawHttpGet host_header target headers max_head max_body
            ⟨none, sends, cutEvents segs⟩ = .ok (r, rest) ∧
          (completionAuthority (viewReceipt r n) proto n n = true ↔
            proto.token_encoding = .base64) := by
  obtain ⟨hne, hcolon⟩ := encodeRdmaToken_colon hd proto.token_encoding
  rw [← htoken] at hne hcolon
  refine ⟨getAnswer req.token status n, ?_, ?_⟩
  · unfold getHandler
    have hhead : req.method ≠ ascii "HEAD" := by
      rw [hmethod]
      decide
    simp only [hpath, Bool.not_true, Bool.false_eq_true, if_false, if_neg hhead, if_neg hne, hget,
      Option.getD_some]
  · intro stream head fields hframed host_header target headers max_head max_body sends segs hsent
      hhead hbody hcuts
    obtain ⟨t, k, hexchange⟩ := @rawHttpGet_sent _ _ _ max_head max_body _ _ hsent
    -- The body is short, so its length is a decimal that the client accepts.
    have hbody_eq : (getAnswer req.token status n).body = ascii "OK\n" := by
      rw [getAnswer, if_pos hstatus]
      rfl
    have hshort : (getAnswer req.token status n).body.length < 10^18 := by
      rw [hbody_eq]
      decide
    have hread := receive_message hframed.message hhead hbody hshort hcuts
    have hemitted := receive_emitted max_head max_body (cutEvents segs) {} t k
    refine ⟨(receive max_head max_body (cutEvents segs) (RawResponse.emitted {} t k)).1, _,
      hexchange (cutEvents segs), getAnswer_decided hstatus hmax hcolon hframed ?_⟩
    rw [hemitted]
    exact hread.emitted t k

/-! ## A GET of three bytes -/

/-- A GET of an object, with a token in one of the two encodings. -/
def threeBytesRequest (enc : TokenEncoding) : HttpRequest where
  method := ascii "GET"
  path := ascii "/b/o"
  token := encodeRdmaToken (ascii "1000:0") enc
  range := []

/-- The object has three bytes. -/
def threeBytesFd : Bytes → Option FdEntry := fun _ => some (.ofFile threeBytesFile)

/-- The answer to the request for three bytes, which is the same for the two encodings. -/
def threeBytesAnswer : HttpResponse := getAnswer [] 200 3

/-- The head of the answer to the request for three bytes. -/
def threeBytesHead : Bytes :=
  ascii "HTTP/1.1 200 OK" ++ CRLF ++ ascii "x-amz-rdma-reply: 200" ++ CRLF ++
    ascii "x-amz-rdma-bytes-transferred: 3" ++ CRLF ++ ascii "Content-Type: text/plain" ++ CRLF ++
    ascii "Content-Length: 3" ++ CRLF ++ CRLF

/-- The fields of that head. -/
def threeBytesFields : List (Bytes × Bytes) :=
  (parseHead { head_bytes := threeBytesHead }).fields.map RawField.pair

/-- The answer to the request for three bytes is written as one message. -/
theorem threeBytesAnswer_framed :
    Framed threeBytesAnswer (threeBytesHead ++ ascii "OK\n") threeBytesHead threeBytesFields := by
  -- The head is parsed once, for all that is asked of it.
  obtain ⟨hok, hlength, hnone, hreply, hcount⟩ :
      (parseHead { head_bytes := threeBytesHead }).head_malformed = false ∧
      valuesOf threeBytesFields (ascii "content-length") = [decimal threeBytesAnswer.body.length] ∧
      valuesOf threeBytesFields (ascii "transfer-encoding") = [] ∧
      valuesOf threeBytesFields kHdrRdmaReply = valuesOf threeBytesAnswer.headers kHdrRdmaReply ∧
      valuesOf threeBytesFields kHdrRdmaBytesTransferred =
        valuesOf threeBytesAnswer.headers kHdrRdmaBytesTransferred := by decide +kernel
  exact
    { message :=
        { stream_eq := rfl
          strict :=
            (parseHead_sound (r := { head_bytes := threeBytesHead }) (by decide +kernel) hok).1
          content_length := hlength
          no_transfer_encoding := hnone }
      reply := hreply
      count := hcount }

/-- The handler answers the request for three bytes with `threeBytesAnswer`. -/
theorem getHandler_three_bytes (enc : TokenEncoding) :
    getHandler ⟨4096, false⟩ (ascii "d") threeBytesFd (fun _ _ => 0) steadyEnv
      (threeBytesRequest enc) = some threeBytesAnswer := by
  cases enc <;> decide +kernel

/-- The client's network: the request is sent at once and the answer arrives in one piece. -/
def threeBytesNet : Network where
  sends := fiveBytesNet.sends
  recvs := cutEvents [threeBytesHead ++ ascii "OK\n"]

/-- With the token in Base64, the answer completes the GET. -/
theorem getHandler_qualified_base64 :
    ∃ r rest, rawHttpGet (ascii "h") (ascii "/b/o") [] 1000 1000 threeBytesNet = .ok (r, rest) ∧
      completionAuthority (viewReceipt r 3) { token_encoding := .base64 } 3 3 = true := by
  have hget : (handleGet ⟨4096, false⟩ (threeBytesFd (objectFile (ascii "d")
      (parseObjectPath (ascii "/b/o")))) [] (threeBytesRequest .base64).token (fun _ _ => 0)
      steadyEnv).1 = .returned 200 (some (3 : ℕ)) := by decide +kernel
  obtain ⟨res, hres, hall⟩ := getHandler_qualified_iff ⟨4096, false⟩ (ascii "d") threeBytesFd
    (fun _ _ => 0) steadyEnv (threeBytesRequest .base64) rfl (by decide) (d := ascii "1000:0")
    (by decide) { token_encoding := .base64 } rfl hget (.inl rfl) (by decide)
  obtain rfl : threeBytesAnswer = res := by
    rw [getHandler_three_bytes] at hres
    exact Option.some.inj hres
  have hsent : RequestSent (ascii "h") (ascii "/b/o") [] ⟨none, threeBytesNet.sends, []⟩ :=
    ⟨rfl, _, _, rfl, by decide +kernel⟩
  have hlength : threeBytesHead.length = 120 ∧ (ascii "OK\n").length = 3 := by decide +kernel
  have hcuts : Cuts (threeBytesHead ++ ascii "OK\n") [threeBytesHead ++ ascii "OK\n"] :=
    ⟨by simp, by simp [hlength], by simp [hlength]⟩
  obtain ⟨r, rest, hr, hauth⟩ := hall _ _ _ threeBytesAnswer_framed (ascii "h") (ascii "/b/o") []
    1000 1000 _ _ hsent (by rw [hlength.1]; decide) (by decide) hcuts
  exact ⟨r, rest, hr, hauth.mpr rfl⟩

/-- With the token verbatim, the same bytes are transferred and the same answer does not complete
the GET: its body is not empty. -/
theorem getHandler_verbatim_unqualified :
    chr ':' ∈ ascii "1000:0" ∧
      (threeBytesRequest .verbatim).token = encodeRdmaToken (ascii "1000:0") .verbatim ∧
      (handleGet ⟨4096, false⟩ (threeBytesFd (objectFile (ascii "d")
        (parseObjectPath (ascii "/b/o")))) [] (threeBytesRequest .verbatim).token (fun _ _ => 0)
        steadyEnv).1 = .returned 200 (some 3) ∧
      getHandler ⟨4096, false⟩ (ascii "d") threeBytesFd (fun _ _ => 0) steadyEnv
        (threeBytesRequest .verbatim) = some threeBytesAnswer ∧
      Framed threeBytesAnswer (threeBytesHead ++ ascii "OK\n") threeBytesHead threeBytesFields ∧
      (rawHttpGet (ascii "h") (ascii "/b/o") [] 1000 1000 threeBytesNet).toOption.map (fun x =>
        completionAuthority (viewReceipt x.1 3) { token_encoding := .verbatim } 3 3) = some false := by
  refine ⟨by decide, rfl, by decide +kernel, getHandler_three_bytes _, threeBytesAnswer_framed, ?_⟩
  decide +kernel

end S3Rdma.Server
