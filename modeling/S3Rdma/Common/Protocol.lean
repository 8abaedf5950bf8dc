import S3Rdma.Common.Base64
import S3Rdma.Common.SigV4
import S3Rdma.Common.Util
import S3Rdma.Lib.Decimal

/-!
# The control-plane protocol

`src/common/s3_protocol.hpp`: how the RDMA descriptor is carried, which headers a request has, and
how the endpoint's two answer fields are read. The numbers in those fields are accumulated digit by
digit with a check before each step, as in the source.
-/

namespace S3Rdma

/-- How the descriptor is carried in the token header. -/
inductive TokenEncoding where
  | verbatim
  | base64
deriving DecidableEq

/-- How a request is authenticated. -/
inductive AuthMode where
  | none
  | sigV4
deriving DecidableEq

/-- `ProtocolOptions`. -/
structure ProtocolOptions where
  token_encoding : TokenEncoding := .base64
  auth : AuthMode := .none
  region : Bytes := ascii "us-east-1"
  credentials : SigV4Credentials := ⟨[], [], []⟩

/-- `sigv4_credentials_from_env`; the environment is given by its variables. -/
def sigv4CredentialsFromEnv (getenv : Bytes → Option Bytes) : Option SigV4Credentials :=
  let ak := (getenv (ascii "AWS_ACCESS_KEY_ID")).getD []
  let sk := (getenv (ascii "AWS_SECRET_ACCESS_KEY")).getD []
  if ak = [] ∨ sk = [] then none
  else some ⟨ak, sk, (getenv (ascii "AWS_SESSION_TOKEN")).getD []⟩

/-- `finish_protocol_options`. -/
def finishProtocolOptions (getenv : Bytes → Option Bytes) (o : ProtocolOptions) :
    Except Bytes ProtocolOptions :=
  if o.auth ≠ .sigV4 then .ok o
  else
    match sigv4CredentialsFromEnv getenv with
    | some credentials => .ok { o with credentials }
    | none => .error (ascii
        "--auth sigv4 needs AWS_ACCESS_KEY_ID and AWS_SECRET_ACCESS_KEY in the environment")

/-- `http_host_header`: an IPv6 literal is put in brackets, and the port is left out when it is
80. -/
def httpHostHeader (host : Bytes) (port : ℤ) : Bytes :=
  let authority := if chr ':' ∈ host ∧ host.head? ≠ some (chr '[') then
    [chr '['] ++ host ++ [chr ']'] else host
  if port ≠ 80 then authority ++ [chr ':'] ++ decimalInt port else authority

/-- `control_plane_target`: the path as the signer encodes it, except that the legacy pair sends it
raw. -/
def controlPlaneTarget (o : ProtocolOptions) (raw_path : Bytes) : Bytes :=
  if o.token_encoding = .base64 ∧ o.auth = .none then raw_path else uriEncode raw_path true

/-- `encode_rdma_token`. -/
def encodeRdmaToken (desc : Bytes) (enc : TokenEncoding) : Bytes :=
  match enc with
  | .base64 => base64Encode desc
  | .verbatim => desc.rdropWhile (· == 0)

/-- The fields of a request besides those of the signer. -/
def ownHeaders (range token : Bytes) : HeaderList :=
  (if token = [] then [] else [(kHdrRdmaToken, token)]) ++
    (if range = [] then [] else [(ascii "Range", range)])

/-- The request that `control_plane_headers` has signed. -/
def controlPlaneRequest (method host_header path range token : Bytes) : SigV4Request where
  method := method
  host := host_header
  path := path
  headers := ownHeaders range token

/-- `control_plane_headers`. -/
def controlPlaneHeaders (P : Platform) (o : ProtocolOptions)
    (method host_header path range token : Bytes) (now : ℤ) : Except Bytes HeaderList :=
  match o.auth with
  | .none => .ok (ownHeaders range token)
  | .sigV4 => do
    let r ← sigv4Sign P (controlPlaneRequest method host_header path range token) o.credentials
      o.region (ascii "s3") (sigv4AmzDate P now)
    return ownHeaders range token ++ r.headers

/-- `RdmaReply`: the endpoint declined, answered with a code, or is not understood. -/
inductive RdmaReply where
  | declined
  | code (code : ℕ)
  | malformed
deriving DecidableEq

/-- `all_digits`. -/
def allDigits (s : Bytes) : Bool := !s.isEmpty && s.all isDigit

/-- The loop of `parse_rdma_reply`; `none` when the number would exceed 599. -/
def replyDigits : Bytes → ℕ → Option ℕ
  | [], code => some code
  | c :: cs, code =>
    if code > (599 - decimalDigit c) / 10 then none else replyDigits cs (code * 10 + decimalDigit c)

/-- `parse_rdma_reply`; `value` is `none` when the field is absent. -/
def parseRdmaReply (value : Option Bytes) : RdmaReply :=
  match value with
  | none => .declined
  | some value =>
    if value = [] then .declined
    else if !allDigits value then .malformed
    else
      match replyDigits value 0 with
      | none => .malformed
      | some code =>
        if code < 100 then .malformed else if code = 501 then .declined else .code code

/-- The loop of `parse_rdma_bytes_transferred`; `none` when the number would exceed `limit`. -/
def boundedDigits (limit : ℕ) : Bytes → ℕ → Option ℕ
  | [], n => some n
  | c :: cs, n =>
    if n > limit / 10 ∨ (n = limit / 10 ∧ decimalDigit c > limit % 10) then none
    else boundedDigits limit cs (n * 10 + decimalDigit c)

/-- `parse_rdma_bytes_transferred`: `0` without a value, `-1` for an invalid one. -/
def parseRdmaBytesTransferred (value : Option Bytes) (size : ℕ) : ℤ :=
  match value with
  | none => 0
  | some value =>
    if value = [] then 0
    else if !allDigits value then -1
    else
      match boundedDigits (min size (2^63 - 1)) value 0 with
      | none => -1
      | some n => n

/-- The test of `parse_rdma_bytes_transferred` before a digit is used. -/
def boundedStop (limit n : ℕ) (c : UInt8) : Bool :=
  decide (n > limit / 10 ∨ (n = limit / 10 ∧ decimalDigit c > limit % 10))

/-- The test of `parse_rdma_reply` before a digit is used. -/
def replyStop (code : ℕ) (c : UInt8) : Bool := decide (code > (599 - decimalDigit c) / 10)

/-- The loop of `parse_rdma_bytes_transferred` is the digit loop with its test. -/
theorem boundedDigits_eq (limit : ℕ) (s : Bytes) (n : ℕ) :
    boundedDigits limit s n = digitLoop (boundedStop limit) s n := by
  refine eq_digitLoop (fun _ => rfl) (fun c cs v => ?_) s n
  rw [boundedDigits]
  simp only [boundedStop, decide_eq_true_eq]

/-- The loop of `parse_rdma_reply` is the digit loop with its test. -/
theorem replyDigits_eq (s : Bytes) (code : ℕ) : replyDigits s code = digitLoop replyStop s code := by
  refine eq_digitLoop (fun _ => rfl) (fun c cs v => ?_) s code
  rw [replyDigits]
  simp only [replyStop, decide_eq_true_eq]

/-- On digits, the test stops where the next value would exceed the limit. -/
theorem stopsAbove_boundedStop (limit : ℕ) {s : Bytes} (hs : s.all isDigit = true) :
    StopsAbove (boundedStop limit) limit s := by
  intro c hc v hv
  have hd := List.all_eq_true.mp hs c hc
  have hle := decimalDigit_le hd
  simp only [boundedStop, decide_eq_true_eq, hd, Bool.true_eq_false, false_or]
  omega

/-- On digits, the test stops where the next value would exceed 599. -/
theorem stopsAbove_replyStop {s : Bytes} (hs : s.all isDigit = true) :
    StopsAbove replyStop 599 s := by
  intro c hc v hv
  have hd := List.all_eq_true.mp hs c hc
  have hle := decimalDigit_le hd
  simp only [replyStop, decide_eq_true_eq, hd, Bool.true_eq_false, false_or]
  omega

/-- A reply whose digits denote an HTTP-style code other than 501 is that code. -/
theorem parseRdmaReply_code {value : Bytes} (hne : value ≠ []) (hdig : value.all isDigit = true)
    (hmin : 100 ≤ decimalValue value) (hmax : decimalValue value ≤ 599)
    (hdecl : decimalValue value ≠ 501) :
    parseRdmaReply (some value) = .code (decimalValue value) := by
  have hall : allDigits value = true := by simp [allDigits, hne, hdig]
  unfold parseRdmaReply
  simp only [if_neg hne, hall, Bool.not_true, Bool.false_eq_true, if_false, replyDigits_eq,
    digitLoop_of_digits (stopsAbove_replyStop hdig) hdig, if_pos hmax, if_neg (not_lt.mpr hmin),
    if_neg hdecl]

/-- A count that is not `-1` is the number that its digits denote, within the size. -/
theorem parseRdmaBytesTransferred_eq {value : Bytes} {size : ℕ} {n : ℕ} (hne : value ≠ [])
    (h : parseRdmaBytesTransferred (some value) size = n) :
    value.all isDigit = true ∧ decimalValue value = n ∧ n ≤ size := by
  unfold parseRdmaBytesTransferred at h
  dsimp only at h
  rw [if_neg hne] at h
  by_cases hdig : allDigits value = true
  · have hall : value.all isDigit = true := by
      unfold allDigits at hdig
      exact (Bool.and_eq_true_iff.mp hdig).2
    rw [hdig, boundedDigits_eq, digitLoop_of_digits (stopsAbove_boundedStop _ hall) hall] at h
    by_cases hle : decimalValue value ≤ min size (2^63 - 1)
    · rw [if_pos hle] at h
      have hv : decimalValue value = n := by simpa using h
      exact ⟨hall, hv, by omega⟩
    · simp only [Bool.not_true, Bool.false_eq_true, if_false, if_neg hle] at h
      omega
  · simp only [hdig, Bool.not_false, if_true] at h
    omega

/-- A printed count within the size of the request and the range of a `long` is read back. -/
theorem parseRdmaBytesTransferred_decimal {n size : ℕ} (hsize : n ≤ size) (hmax : n < 2^63) :
    parseRdmaBytesTransferred (some (decimal n)) size = n := by
  have hall : allDigits (decimal n) = true := by
    simp [allDigits, decimal_ne_nil, all_isDigit_decimal]
  have hle : n ≤ min size (2^63 - 1) := by omega
  unfold parseRdmaBytesTransferred
  simp only [if_neg (decimal_ne_nil n), hall, Bool.not_true, Bool.false_eq_true, if_false,
    boundedDigits_eq, digitLoop_of_digits (stopsAbove_boundedStop _ (all_isDigit_decimal n))
      (all_isDigit_decimal n), decimalValue_decimal, if_pos hle]

end S3Rdma
