import S3Rdma.Lib.Ensures
import S3Rdma.Lib.OrdMap
import S3Rdma.Lib.Search

/-!
# Signature Version 4

`src/common/sigv4.hpp`: the canonical form of a request, the string to sign, the signature and the
headers that carry it. The two hash functions and the calendar of the C library are parameters
(`Platform`); nothing in this development depends on what they compute.
-/

namespace S3Rdma

/-- A list of header fields in wire order. -/
abbrev HeaderList := List (Bytes × Bytes)

/-- A broken-down UTC time, as far as `sigv4_amz_date` prints it. -/
structure Tm where
  year : ℤ
  /-- Months since January. -/
  mon : Fin 12
  mday : Fin 32
  hour : Fin 24
  min : Fin 60
  sec : Fin 61

/-- Midnight of a day. -/
def Tm.midnight (year : ℤ) (mon mday : ℕ) : Tm :=
  ⟨year, Fin.ofNat 12 mon, Fin.ofNat 32 mday, 0, 0, 0⟩

/-- What the code takes from OpenSSL and the C library. -/
structure Platform where
  /-- `HMAC` with SHA-256: key, data. -/
  hmac : Bytes → Bytes → Bytes
  /-- `SHA256`. -/
  sha256 : Bytes → Bytes
  /-- `gmtime_r`. -/
  gmtime : ℤ → Tm

/-- `kUnsignedPayload`. -/
def kUnsignedPayload : Bytes := ascii "UNSIGNED-PAYLOAD"

/-- `SigV4Credentials`. -/
structure SigV4Credentials where
  access_key : Bytes
  secret_key : Bytes
  /-- Optional: empty when there is none. -/
  session_token : Bytes

/-- `SigV4Request`. -/
structure SigV4Request where
  method : Bytes
  host : Bytes
  path : Bytes
  query : Bytes := []
  headers : HeaderList
  payload_hash : Bytes := kUnsignedPayload

/-- `SigV4Result`. -/
structure SigV4Result where
  headers : HeaderList
  canonical_request : Bytes
  string_to_sign : Bytes
  signature : Bytes

/-- A number below 100 with two digits, as `strftime` prints it. -/
def twoDigits (n : ℕ) : Bytes := [digitByte (n / 10 % 10), digitByte (n % 10)]

/-- `sigv4_amz_date`: `%Y%m%dT%H%M%SZ` in UTC. -/
def sigv4AmzDate (P : Platform) (t : ℤ) : Bytes :=
  let tm := P.gmtime t
  decimalInt tm.year ++ twoDigits (tm.mon + 1) ++ twoDigits tm.mday ++ [chr 'T'] ++
    twoDigits tm.hour ++ twoDigits tm.min ++ twoDigits tm.sec ++ [chr 'Z']

/-- An ASCII letter in lower case; every other byte as it is. -/
def lowerByte (c : UInt8) : UInt8 := if isUpper c then c - 65 + 97 else c

/-- `lower`, and `lower_ascii` of `src/common/raw_http.hpp`. -/
def lower (s : Bytes) : Bytes := s.map lowerByte

/-- The loop variables of `canonical_value`. -/
structure CanonicalState where
  out : Bytes := []
  pending_space : Bool := false

/-- One byte of `canonical_value`. -/
def canonicalStep (s : CanonicalState) (c : UInt8) : CanonicalState :=
  if c = SP ∨ c = HT then { s with pending_space := !s.out.isEmpty }
  else { out := (if s.pending_space then s.out ++ [SP] else s.out) ++ [c], pending_space := false }

/-- `canonical_value`: trimmed, with inner runs of blanks collapsed to one space. -/
def canonicalValue (v : Bytes) : Bytes := (v.foldl canonicalStep {}).out

/-- A hexadecimal digit in upper case. -/
def upperHex (n : ℕ) : UInt8 := (ascii "0123456789ABCDEF").getD n 0

/-- The bytes that `uri_encode` lets pass. -/
def isUnreserved (keep_slash : Bool) (c : UInt8) : Bool :=
  isUpper c || isLower c || isDigit c || c == chr '-' || c == chr '_' || c == chr '.' ||
    c == chr '~' || (keep_slash && c == chr '/')

/-- One byte of `uri_encode`. -/
def uriEncodeByte (keep_slash : Bool) (c : UInt8) : Bytes :=
  if isUnreserved keep_slash c then [c]
  else [chr '%', upperHex (c.toNat / 16), upperHex (c.toNat % 16)]

/-- `uri_encode`. -/
def uriEncode (s : Bytes) (keep_slash : Bool) : Bytes := s.flatMap (uriEncodeByte keep_slash)

/-- `hex`. -/
def hex (bin : Bytes) : Bytes := bin.flatMap fun c => [lowerHex (c.toNat / 16), lowerHex (c.toNat % 16)]

/-- `hmac_sha256`. OpenSSL takes the length of the key as an `int`. -/
def hmacSha256 (P : Platform) (key data : Bytes) : Except Bytes Bytes :=
  if 2^31 ≤ key.length then .error (ascii "HMAC-SHA256 key is too long") else .ok (P.hmac key data)

/-- `sha256_hex`. -/
def sha256Hex (P : Platform) (data : Bytes) : Bytes := hex (P.sha256 data)

/-- The names of the fields that the signer manages itself. -/
def managedNames : List Bytes :=
  [ascii "host", ascii "x-amz-date", ascii "x-amz-content-sha256", ascii "x-amz-security-token",
    ascii "authorization"]

/-- How a value is added to the one already under its name. -/
def joinValues (w v : Bytes) : Bytes := w ++ chr ',' :: v

/-- The map of canonical headers after the caller's fields, or the signer's exception. -/
def addHeaders (hdrs : HeaderList) : HeaderList → Except Bytes HeaderList
  | [] => .ok hdrs
  | h :: hs =>
    if lower h.1 ∈ managedNames then
      .error (ascii "SigV4 caller headers contain a managed header")
    else addHeaders (OrdMap.upsert joinValues (lower h.1) (canonicalValue h.2) hdrs) hs

/-- The map that the signer starts with: its own fields and the session token if there is one. -/
def managedHeaders (req : SigV4Request) (cred : SigV4Credentials) (amz_date : Bytes) : HeaderList :=
  let hdrs := [(ascii "host", canonicalValue req.host), (ascii "x-amz-content-sha256", req.payload_hash),
    (ascii "x-amz-date", amz_date)]
  if cred.session_token = [] then hdrs
  else OrdMap.upsert (fun w _ => w) (ascii "x-amz-security-token") cred.session_token hdrs

/-- `canonical_headers`: each entry of the map on a line. -/
def canonicalHeaders (hdrs : HeaderList) : Bytes := hdrs.flatMap fun h => h.1 ++ chr ':' :: h.2 ++ [LF]

/-- `signed_headers`: the names of the map, with a semicolon before each but what starts the
text. -/
def signedHeaders (hdrs : HeaderList) : Bytes :=
  hdrs.foldl (fun s h => (if s = [] then s else s ++ [chr ';']) ++ h.1) []

/-- The request in its canonical form, as it is hashed. -/
def canonicalRequest (req : SigV4Request) (hdrs : HeaderList) : Bytes :=
  req.method ++ [LF] ++ uriEncode req.path true ++ [LF] ++ req.query ++ [LF] ++
    canonicalHeaders hdrs ++ [LF] ++ signedHeaders hdrs ++ [LF] ++ req.payload_hash

/-- `sigv4_sign`. -/
def sigv4Sign (P : Platform) (req : SigV4Request) (cred : SigV4Credentials)
    (region service amz_date : Bytes) : Except Bytes SigV4Result := do
  let date := amz_date.take 8
  let hdrs ← addHeaders (managedHeaders req cred amz_date) req.headers
  let canonical_request := canonicalRequest req hdrs
  let scope := date ++ [chr '/'] ++ region ++ [chr '/'] ++ service ++ ascii "/aws4_request"
  let string_to_sign := ascii "AWS4-HMAC-SHA256" ++ [LF] ++ amz_date ++ [LF] ++ scope ++ [LF] ++
    sha256Hex P canonical_request
  let k ← hmacSha256 P (ascii "AWS4" ++ cred.secret_key) date
  let k ← hmacSha256 P k region
  let k ← hmacSha256 P k service
  let k ← hmacSha256 P k (ascii "aws4_request")
  let signature := hex (← hmacSha256 P k string_to_sign)
  return {
    headers :=
      [(ascii "x-amz-content-sha256", req.payload_hash), (ascii "x-amz-date", amz_date)] ++
        (if cred.session_token = [] then []
          else [(ascii "x-amz-security-token", cred.session_token)]) ++
        [(ascii "Authorization", ascii "AWS4-HMAC-SHA256 Credential=" ++ cred.access_key ++
          [chr '/'] ++ scope ++ ascii ", SignedHeaders=" ++ signedHeaders hdrs ++
          ascii ", Signature=" ++ signature)]
    canonical_request, string_to_sign, signature }

end S3Rdma
