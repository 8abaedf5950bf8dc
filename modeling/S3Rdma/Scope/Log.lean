import S3Rdma.Common.Base64
import S3Rdma.Lib.Utf8
import S3Rdma.Scope.Layout

/-!
# The log of the scope probe

`escape` and `Line` of `src/probe/scope_probe_main.cpp`, and every event that the probe logs, with
its fields in the order of the source.

`escape` leaves a byte above `0x7f` as it is. So a line is UTF-8 exactly when each text in it is
(`valid_print_iff`), and then it is the JSON object of its fields (`decode_print`). Keys, digests,
Base64 texts and the words of the source are ASCII; what remains are the texts from outside
(`Event.externals`).
-/

namespace S3Rdma.Scope

open Json (quoted isPlain isPrintable)
open Probe (BufferMode)

/-! ## Printing a line -/

/-- `escape`, for one byte. -/
def escapeByte (c : UInt8) : Bytes :=
  if c = chr '"' ∨ c = chr '\\' then [chr '\\', c]
  else if c < 0x20 then Json.hexEscape c
  else [c]

/-- `escape`. -/
def escape (s : Bytes) : Bytes := s.flatMap escapeByte

/-- A time in milliseconds as `%.3f` rounds it: a sign, and thousandths. The clock counts
nanoseconds in 64 bits, so it is far below the bound. -/
structure Millis where
  neg : Bool := false
  thousandths : ℕ
  small : thousandths < 10^40

/-- What `%.3f` prints. -/
def Millis.text (v : Millis) : Bytes :=
  (if v.neg then [chr '-'] else []) ++ (decimal (v.thousandths / 1000) ++ chr '.' ::
    [digitByte (v.thousandths / 100 % 10), digitByte (v.thousandths / 10 % 10),
      digitByte (v.thousandths % 10)])

/-- `Line`. -/
structure Line where
  buf_ : Bytes

namespace Line

/-- The constructor of `Line`. -/
def ofEvent (tag event : Bytes) : Line :=
  ⟨chr '\x7b' :: (quoted (ascii "case") ++ chr ':' :: quoted tag) ++
    chr ',' :: (quoted (ascii "event") ++ chr ':' :: quoted event)⟩

/-- What all members of `Line` add: a key and the text of a value. -/
def add (l : Line) (k v : Bytes) : Line := ⟨l.buf_ ++ chr ',' :: (quoted k ++ chr ':' :: v)⟩

/-- `Line::str`. -/
def str (l : Line) (k v : Bytes) : Line := l.add k (quoted (escape v))

/-- `Line::num`. -/
def num (l : Line) (k : Bytes) (v : ℤ) : Line := l.add k (decimalInt v)

/-- `Line::real`, with its buffer of 48 bytes. -/
def real (l : Line) (k : Bytes) (v : Millis) : Line := l.add k (v.text.take 47)

/-- `Line::boolean`. -/
def boolean (l : Line) (k : Bytes) (v : Bool) : Line :=
  l.add k (if v then ascii "true" else ascii "false")

/-- What `Line::emit` prints; the buffer goes through a C string. -/
def emit (l : Line) : Bytes := cString l.buf_ ++ [chr '\x7d', LF]

end Line

/-- The value of a field. -/
inductive FieldValue where
  | str (v : Bytes)
  | num (v : ℤ)
  | real (v : Millis)
  | boolean (v : Bool)

/-- A field of a line. -/
structure Field where
  k : Bytes
  v : FieldValue

/-- The line with one more field. -/
def Line.put (l : Line) (f : Field) : Line :=
  match f.v with
  | .str v => l.str f.k v
  | .num v => l.num f.k v
  | .real v => l.real f.k v
  | .boolean v => l.boolean f.k v

/-- A field with a text. -/
def fieldStr (k : String) (v : Bytes) : Field := ⟨ascii k, .str v⟩

/-- A field with a number. -/
def fieldNum (k : String) (v : ℤ) : Field := ⟨ascii k, .num v⟩

/-- A field with a time. -/
def fieldReal (k : String) (v : Millis) : Field := ⟨ascii k, .real v⟩

/-- A field with a truth value. -/
def fieldBool (k : String) (v : Bool) : Field := ⟨ascii k, .boolean v⟩

/-! ## The events -/

/-- `Options`, without the address of the server. -/
structure Options where
  exp : Case
  bucket : Bytes
  object : Bytes
  mode : BufferMode := .gpu
  base_offset_api : Bool := false
  expect_sha : Bytes := []
  xfer : ℕ := 4 * 1024 * 1024
  guard : ℕ := 64 * 1024
  arena_bytes : ℕ := 0
  concurrent : ℕ := 0
  token_encoding : TokenEncoding := .base64

/-- `static_cast<long long>` of a `size_t`. -/
def longLong (n : ℕ) : ℤ := (BitVec.ofNat 64 n).toInt

/-- The tag of a case. -/
def Case.text : Case → Bytes
  | .b0 => ascii "b0"
  | .i0 => ascii "i0"
  | .s0 => ascii "s0"
  | .si => ascii "si"
  | .r => ascii "r"
  | .p => ascii "p"
  | .m => ascii "m"

/-- Who issues a GET. -/
inductive Who where
  | A
  | B
  | manual

/-- The text of a client. -/
def Who.text : Who → Bytes
  | .A => ascii "A"
  | .B => ascii "B"
  | .manual => ascii "manual"

/-- `Verdict`. -/
inductive Verdict where
  | Pass
  | Fail
  | Inconclusive
  | EnvError
deriving DecidableEq

/-- `to_string` of a verdict. -/
def Verdict.text : Verdict → Bytes
  | .Pass => ascii "PASS"
  | .Fail => ascii "FAIL"
  | .Inconclusive => ascii "INCONCLUSIVE"
  | .EnvError => ascii "ENV_ERROR"

/-- The names that `read_visibility` gives. -/
inductive VisibilityName where
  | host_na
  | query_failed
  | all_devices
  | owner
  | none

/-- The text of a visibility. -/
def VisibilityName.text : VisibilityName → Bytes
  | .host_na => ascii "host_na"
  | .query_failed => ascii "query_failed"
  | .all_devices => ascii "all_devices"
  | .owner => ascii "owner"
  | .none => ascii "none"

/-- `Visibility`. -/
structure Visibility where
  raw : ℤ := -1
  name : VisibilityName
  trustworthy : Bool := false

/-- What `probe_get_callback_impl` logs: its begin, and one of three ends. -/
inductive CallbackEvent where
  | begin (ptr_delta : ℤ) (size : ℕ) (offset : ℤ)
  | requestError (what : Bytes)
  | transportError (error : Bytes)
  /-- The header fields are `none` when they are absent. -/
  | response (size : ℕ) (status : ℤ) (reply count : Option Bytes)

/-- The events of the probe. -/
inductive Event where
  | visibility (vis : Visibility)
  | boundary
  | head (content_length : ℤ) (detail : Bytes)
  | env (o : Options) (arena_bytes xfer cell : ℕ)
  /-- The size is logged for the slices of case `p`. -/
  | register (who : Who) (rc : ℤ) (bytes : Option ℕ) (errno : ℤ)
  | callbackMax (cap : ℤ)
  | callback (who : Who) (call_index : ℤ) (encoding : TokenEncoding) (c : CallbackEvent)
  | get (who : Who) (payload_offset : ℕ) (rc errno callbacks : ℤ) (start_ms end_ms : Millis)
  /-- The digest as SHA-256 gives it. -/
  | landed (who : Who) (digest : Bytes) (digest_match guards_intact : Bool)
      (name : VisibilityName)
  | sliceToken (rc : ℤ) (buffer_offset desc_len : ℕ)
  | manualGet (http_status : ℤ) (reply_present : Bool)
  /-- Case `m` adds that its result is a diagnostic only. -/
  | result (v : Verdict) (detail : Bytes) (diagnostic_only : Bool)

/-- The text of a kind of reply. -/
def replyKind : RdmaReply → Bytes
  | .code _ => ascii "code"
  | .declined => ascii "declined"
  | .malformed => ascii "malformed"

/-- The code of a reply. -/
def replyCode : RdmaReply → ℤ
  | .code code => code
  | .declined => 0
  | .malformed => 0

/-- The reply is a code, and the code is the status. -/
def replyAgrees (status : ℤ) : RdmaReply → Bool
  | .code code => code = status
  | .declined => false
  | .malformed => false

/-- What the callback returns: the size on the legacy path, the declared count on the other one, if
the reply agrees with the status. -/
def callbackReturn (encoding : TokenEncoding) (size : ℕ) (status : ℤ) (reply : RdmaReply)
    (declared : ℤ) : ℤ :=
  if status = 200 ∨ status = 206 then
    if encoding = .base64 then longLong size
    else if replyAgrees status reply then declared
    else -1
  else -1

/-- The fields of a callback's event, after the client and the index of the call. -/
def CallbackEvent.fields (encoding : TokenEncoding) : CallbackEvent → List Field
  | .begin ptr_delta size offset =>
    [fieldNum "ptr_delta" ptr_delta, fieldNum "cb_size" (longLong size),
      fieldNum "cb_offset" offset]
  | .requestError what =>
    [fieldBool "http_ok" false, fieldStr "request_error" what, fieldNum "returns" (-1)]
  | .transportError error =>
    [fieldBool "http_ok" false, fieldStr "transport_error" error, fieldNum "returns" (-1)]
  | .response size status reply count =>
    let declared := parseRdmaBytesTransferred count size
    [fieldBool "http_ok" true, fieldNum "http_status" status,
      fieldBool "reply_present" reply.isSome,
      fieldStr "reply_b64" (base64Encode (reply.getD [])),
      fieldStr "reply_kind" (replyKind (parseRdmaReply reply)),
      fieldNum "reply_code" (replyCode (parseRdmaReply reply)),
      fieldBool "count_present" count.isSome, fieldNum "bytes_transferred_declared" declared,
      fieldNum "returns" (callbackReturn encoding size status (parseRdmaReply reply) declared)]

/-- The name of an event. -/
def Event.name : Event → Bytes
  | .visibility _ => ascii "visibility"
  | .boundary => ascii "boundary"
  | .head _ _ => ascii "head"
  | .env _ _ _ _ => ascii "env"
  | .register _ _ _ _ => ascii "register"
  | .callbackMax _ => ascii "callback_max"
  | .callback _ _ _ (.begin _ _ _) => ascii "callback_begin"
  | .callback _ _ _ _ => ascii "callback_end"
  | .get _ _ _ _ _ _ _ => ascii "get"
  | .landed _ _ _ _ _ => ascii "landed"
  | .sliceToken _ _ _ => ascii "slice_token"
  | .manualGet _ _ => ascii "manual_get"
  | .result _ _ _ => ascii "result"

/-- The fields of an event. -/
def Event.fields : Event → List Field
  | .visibility vis =>
    [fieldNum "raw" vis.raw, fieldStr "name" vis.name.text, fieldBool "trustworthy" vis.trustworthy]
  | .boundary =>
    [fieldStr "scope" (ascii "serial registration-scope x interior-landing"),
      fieldStr "concurrency" (ascii "deferred"), fieldStr "lifecycle" (ascii "unverified"),
      fieldStr "deregister_rc" (ascii "lifecycle_unverified")]
  | .head content_length detail =>
    [fieldNum "content_length" content_length, fieldStr "detail" detail]
  | .env o arena_bytes xfer cell =>
    [fieldStr "object" (o.bucket ++ chr '/' :: o.object),
      fieldStr "mode" (if o.mode = .host then ascii "host" else ascii "gpu"),
      fieldStr "landing_api" (if o.base_offset_api then ascii "base-offset" else ascii "pointer"),
      fieldNum "arena_bytes" (longLong arena_bytes), fieldNum "xfer" (longLong xfer),
      fieldNum "guard" (longLong o.guard), fieldNum "cell" (longLong cell),
      fieldNum "concurrent" o.concurrent, fieldBool "expect_sha" (!o.expect_sha.isEmpty)]
  | .register who rc bytes errno =>
    [fieldStr "who" who.text, fieldNum "rc" rc] ++
      (bytes.elim [] fun bytes => [fieldNum "bytes" (longLong bytes)]) ++ [fieldNum "errno" errno]
  | .callbackMax cap => [fieldNum "bytes" cap]
  | .callback who call_index encoding c =>
    fieldStr "who" who.text :: fieldNum "call_index" call_index :: c.fields encoding
  | .get who payload_offset rc errno callbacks start_ms end_ms =>
    [fieldStr "who" who.text, fieldNum "payload_offset" (longLong payload_offset),
      fieldNum "rc" rc, fieldNum "errno" errno, fieldNum "callbacks" callbacks,
      fieldReal "start_ms" start_ms, fieldReal "end_ms" end_ms]
  | .landed who digest digest_match guards_intact name =>
    [fieldStr "who" who.text, fieldStr "sha256" (hex digest),
      fieldBool "digest_match" digest_match, fieldBool "guards_intact" guards_intact,
      fieldStr "visibility" name.text]
  | .sliceToken rc buffer_offset desc_len =>
    [fieldNum "rc" rc, fieldNum "buffer_offset" (longLong buffer_offset),
      fieldNum "desc_len" (longLong desc_len)]
  | .manualGet http_status reply_present =>
    [fieldNum "http_status" http_status, fieldBool "reply_present" reply_present]
  | .result v detail diagnostic_only =>
    [fieldStr "verdict" v.text, fieldStr "detail" detail] ++
      if diagnostic_only then [fieldBool "diagnostic_only" true] else []

/-- The line that an event prints in the log of a case. -/
def Event.print (exp : Case) (e : Event) : Bytes :=
  (e.fields.foldl Line.put (Line.ofEvent exp.text e.name)).emit

/-- The texts in an event that come from outside: the names of the command line, and what an
exception, the HTTP client or the caller of `result` says. -/
def Event.externals : Event → List Bytes
  | .head _ detail => [detail]
  | .env o _ _ _ => [o.bucket, o.object]
  | .callback _ _ _ (.requestError what) => [what]
  | .callback _ _ _ (.transportError error) => [error]
  | .result _ detail _ => [detail]
  | _ => []

/-! ## Fields -/

/-- The text of a value. -/
def FieldValue.text : FieldValue → Bytes
  | .str v => quoted (escape v)
  | .num v => decimalInt v
  | .real v => v.text.take 47
  | .boolean v => if v then ascii "true" else ascii "false"

/-- The text of a field. -/
def Field.body (f : Field) : Bytes := quoted f.k ++ chr ':' :: f.v.text

/-- The text of a field, with the comma in front of it. -/
def Field.text (f : Field) : Bytes := chr ',' :: f.body

/-- A text in the field is UTF-8. -/
def FieldValue.Valid : FieldValue → Prop
  | .str v => Utf8.Valid v
  | .num _ => True
  | .real _ => True
  | .boolean _ => True

/-- The JSON value of a value. -/
def FieldValue.json : FieldValue → Json
  | .str v => .str ((Utf8.decode v).getD [])
  | .num v => .int v
  | .real v => .real (Json.signed v.neg v.thousandths) (-3)
  | .boolean v => .bool v

/-- A field adds its text to the line. -/
theorem put_buf (l : Line) (f : Field) : (l.put f).buf_ = l.buf_ ++ f.text := by
  obtain ⟨k, v⟩ := f
  cases v <;> rfl

/-- The fields add their texts in order. -/
theorem foldl_put_buf (fields : List Field) (l : Line) :
    (fields.foldl Line.put l).buf_ = l.buf_ ++ fields.flatMap Field.text := by
  induction fields generalizing l with
  | nil => simp
  | cons f fields ih => rw [List.foldl_cons, ih, put_buf, List.flatMap_cons, List.append_assoc]

/-- A control character. -/
def isControl (c : UInt8) : Bool := c < 0x20

/-- What `escape` does to one byte: no control character remains, ASCII stays ASCII and any other
byte stays itself. -/
theorem escapeByte_spec (c : UInt8) :
    escapeByte c ≠ [] ∧ (escapeByte c).all (!isControl ·) = true ∧
      (Utf8.isAscii c = true → (escapeByte c).all Utf8.isAscii = true) ∧
      (Utf8.isAscii c = false → escapeByte c = [c]) := by
  revert c
  rw [forall_byte_iff]
  decide +kernel

/-- An escaped byte is read back as its code point. -/
theorem escapes_escapeByte (c : UInt8) : Json.Escapes (points (escapeByte c)) c.toNat := by
  unfold escapeByte
  split_ifs with hback hctl
  · exact Json.escapes_quote hback
  · exact Json.escapes_hexEscape c
  · exact Json.escapes_byte hback hctl

/-- The code points of an escaped text. -/
theorem decode_escape (s : Bytes) : Utf8.decode (escape s) =
    (Utf8.decode s).map fun us => us.flatMap (Utf8.escapePoint escapeByte) :=
  Utf8.decode_flatMap (fun c => (escapeByte_spec c).1) (fun c => (escapeByte_spec c).2.2.1)
    (fun c => (escapeByte_spec c).2.2.2) s

/-- A code point of a text is read back from its escape. -/
theorem escapes_escapePoint {s : Bytes} {us : Text} (h : Utf8.decode s = some us) :
    ∀ u ∈ us, Json.Escapes (Utf8.escapePoint escapeByte u) u ∧ (u < 0xD800 ∨ 0xDC00 ≤ u) := by
  intro u hu
  have hpoint := Utf8.wide_of_decodeFrom (q := .start) trivial h u hu
  rcases hpoint with ⟨c, -, rfl, hlt⟩ | hwide
  · rw [Utf8.escapePoint, if_pos hlt, UInt8.ofNat_toNat]
    exact ⟨escapes_escapeByte c, by omega⟩
  · unfold Utf8.Wide at hwide
    rw [Utf8.escapePoint, if_neg (by omega)]
    refine ⟨Json.escapes_self ?_ ?_ (by omega), by omega⟩
    · rintro rfl
      exact absurd hwide.1 (by decide)
    · rintro rfl
      exact absurd hwide.1 (by decide)

/-! ## Times -/

namespace Millis

/-- The three digits behind the point. -/
def fraction (v : Millis) : Bytes :=
  [digitByte (v.thousandths / 100 % 10), digitByte (v.thousandths / 10 % 10),
    digitByte (v.thousandths % 10)]

/-- The digits behind the point are digits. -/
theorem isDigit_fraction (v : Millis) : ∀ c ∈ v.fraction, isDigit c = true := by
  have hdigit : ∀ n, isDigit (digitByte (n % 10)) = true := by
    intro n
    rw [isDigit_iff, digitByte_toNat (Nat.mod_lt n (by decide))]
    omega
  intro c hc
  simp only [fraction, List.mem_cons, List.not_mem_nil, or_false] at hc
  rcases hc with rfl | rfl | rfl
  · exact hdigit _
  · exact hdigit _
  · exact hdigit _

/-- All digits together denote the thousandths. -/
theorem decimalValue_text (v : Millis) :
    decimalValue (decimal (v.thousandths / 1000) ++ v.fraction) = v.thousandths := by
  have hone : ∀ n, decimalDigit (digitByte (n % 10)) = n % 10 :=
    fun n => decimalDigit_digitByte (Nat.mod_lt n (by decide))
  have hwhole := decimalValue_decimal (v.thousandths / 1000)
  unfold decimalValue digitsValue at hwhole ⊢
  rw [List.map_append, List.foldl_append, hwhole]
  simp only [fraction, List.map_cons, List.map_nil, List.foldl_cons, List.foldl_nil, hone]
  omega

/-- The buffer of `snprintf` holds the whole text of a time. -/
theorem take_text (v : Millis) : v.text.take 47 = v.text := by
  have hwhole : (decimal (v.thousandths / 1000)).length ≤ 37 := by
    refine length_decimal_le (by decide) (Nat.div_lt_of_lt_mul ?_)
    exact lt_of_lt_of_eq v.small (by decide)
  have hsign : (if v.neg then [chr '-'] else []).length ≤ 1 := by
    split_ifs
    · exact le_rfl
    · exact Nat.zero_le 1
  refine List.take_of_length_le ?_
  simp only [text, List.length_append, List.length_cons, List.length_nil]
  omega

/-- The text is read back as a number with three decimals. -/
theorem prints_text (v : Millis) :
    Json.Prints (points v.text) (.real (Json.signed v.neg v.thousandths) (-3)) := by
  have hfrac : ∀ c ∈ points v.fraction, Json.isDigitPt c = true := by
    intro c hc
    obtain ⟨b, hb, rfl⟩ := List.mem_map.mp hc
    exact Json.isDigitPt_iff.mpr (isDigit_iff.mp (v.isDigit_fraction b hb))
  have hne : points v.fraction ≠ [] := by simp [points, fraction]
  have hprints := Json.prints_fixed v.neg (Json.whole_decimal (v.thousandths / 1000)) hne hfrac
  rw [← points_append, Json.digitsPt_points, decimalValue_text] at hprints
  have htext : points v.text = Json.signText v.neg ++
      (points (decimal (v.thousandths / 1000)) ++ pt '.' :: points v.fraction) := by
    rw [text, points_append, points_append]
    cases v.neg <;> rfl
  rw [htext]
  exact hprints

end Millis

/-! ## Fields as members -/

/-- The code points of the text of a value. -/
def FieldValue.printed : FieldValue → Text
  | .str v => pt '"' ::
      (((Utf8.decode v).getD []).flatMap (Utf8.escapePoint escapeByte) ++ [pt '"'])
  | .num v => points (decimalInt v)
  | .real v => points (v.text.take 47)
  | .boolean v => points (if v then ascii "true" else ascii "false")

/-- The member of a field. -/
def Field.member (f : Field) : Json.Member := ⟨points f.k, points f.k, f.v.printed, f.v.json⟩

/-- A valid value is read back. -/
theorem prints_printed {v : FieldValue} (h : v.Valid) : Json.Prints v.printed v.json := by
  cases v with
  | str v =>
    obtain ⟨us, hus⟩ := Option.isSome_iff_exists.mp h
    have hpoint := escapes_escapePoint hus
    rw [FieldValue.printed, FieldValue.json, hus, Option.getD_some]
    exact Json.prints_str (fun u hu => (hpoint u hu).1) (fun u hu => (hpoint u hu).2)
  | num v => exact Json.prints_decimalInt v
  | real v =>
    rw [FieldValue.printed, v.take_text]
    exact v.prints_text
  | boolean v => exact Json.prints_bool v

/-- A printed time is printable. -/
theorem Millis.printable_text (v : Millis) : v.text.all isPrintable = true := by
  have hwhole := Json.printable_of_digits fun c (hc : c ∈ decimal (v.thousandths / 1000)) =>
    isDigit_of_mem_decimal hc
  have hfrac := Json.printable_of_digits v.isDigit_fraction
  have htext : v.text = (if v.neg then [chr '-'] else []) ++
      (decimal (v.thousandths / 1000) ++ chr '.' :: v.fraction) := rfl
  rw [htext, List.all_append, List.all_append, List.all_cons, hwhole, hfrac]
  cases v.neg <;> rfl

/-- The key of a field and the colon behind it. -/
theorem printable_key {f : Field} (hk : f.k.all isPlain = true) :
    (quoted f.k ++ [chr ':']).all isPrintable = true := by
  rw [List.all_append, Json.printable_quoted (Json.printable_of_plain hk)]
  rfl

/-- The code points of an escaped text in quotes. -/
theorem decode_quoted_escape (v : Bytes) : Utf8.decode (quoted (escape v)) =
    (Utf8.decode v).map fun us =>
      pt '"' :: (us.flatMap (Utf8.escapePoint escapeByte) ++ [pt '"']) := by
  change Utf8.decode ([chr '"'] ++ (escape v ++ [chr '"'])) = _
  rw [Utf8.decode_ascii_append rfl, Utf8.decode_concat rfl, decode_escape]
  cases Utf8.decode v <;> rfl

/-- The text of a value is valid exactly when the value is, and then it has the code points that are
read back; what follows it is decoded on its own. -/
theorem decode_text (v : FieldValue) :
    (v.Valid → Utf8.decode v.text = some v.printed) ∧ (Utf8.Valid v.text ↔ v.Valid) ∧
      Utf8.Closed v.text := by
  -- Numbers and words of JSON are ASCII, so they decode to themselves.
  have hascii : v.text.all isPrintable = true → v.Valid → v.printed = points v.text →
      (v.Valid → Utf8.decode v.text = some v.printed) ∧ (Utf8.Valid v.text ↔ v.Valid) ∧
        Utf8.Closed v.text := by
    intro hprintable hvalid hprinted
    have htext := Utf8.ascii_of_printable hprintable
    refine ⟨fun _ => ?_, iff_of_true (Utf8.valid_ascii htext) hvalid, Utf8.closed_ascii htext⟩
    rw [Utf8.decode_ascii htext, hprinted]
  cases v with
  | str v =>
    have hdecode := decode_quoted_escape v
    refine ⟨fun hvalid => ?_, ?_, Utf8.closed_concat (c := chr '"') rfl (chr '"' :: escape v)⟩
    · obtain ⟨us, hus⟩ := Option.isSome_iff_exists.mp hvalid
      rw [FieldValue.text, hdecode, FieldValue.printed, hus]
      rfl
    · rw [Utf8.Valid, FieldValue.text, hdecode, Option.isSome_map]
      rfl
  | num v => exact hascii (Json.printable_decimalInt v) trivial rfl
  | real v =>
    refine hascii ?_ trivial rfl
    rw [FieldValue.text, v.take_text]
    exact v.printable_text
  | boolean v => exact hascii (by cases v <;> rfl) trivial rfl

/-- A field with a plain key is valid exactly when its value is, and then it is its member; what
follows it is decoded on its own. -/
theorem decode_body {f : Field} (hk : f.k.all isPlain = true) :
    (f.v.Valid → Utf8.decode f.body = some f.member.text) ∧ (Utf8.Valid f.body ↔ f.v.Valid) ∧
      Utf8.Closed f.body := by
  have hkey := Utf8.ascii_of_printable (printable_key hk)
  have hbody : f.body = (quoted f.k ++ [chr ':']) ++ f.v.text := by
    rw [Field.body, List.append_assoc, List.singleton_append]
  obtain ⟨hdecode, hvalid, hclosed⟩ := decode_text f.v
  rw [hbody]
  refine ⟨fun h => ?_, ?_, (Utf8.closed_ascii hkey).append hclosed⟩
  · rw [Utf8.decode_ascii_append hkey, hdecode h, Option.map_some, points_append,
      Json.points_quoted, List.append_assoc, List.cons_append, List.append_assoc]
    rfl
  · rw [(Utf8.closed_ascii hkey).valid_append, hvalid]
    exact and_iff_right (Utf8.valid_ascii hkey)

/-! ## Lines -/

/-- The field with the tag of the case. -/
def caseField (exp : Case) : Field := ⟨ascii "case", .str exp.text⟩

/-- All members of the line of an event after the tag. -/
def Event.allFields (e : Event) : List Field := ⟨ascii "event", .str e.name⟩ :: e.fields

/-- The line of an event, without the end of the line. -/
def Event.line (exp : Case) (e : Event) : Bytes :=
  [chr '\x7b'] ++ ((caseField exp).body ++ (e.allFields.flatMap Field.text ++ [chr '\x7d']))

/-- The keys of all events are plain, and so are the names of the events. -/
theorem plain_keys (e : Event) : e.name.all isPlain = true ∧
    e.fields.all (fun f => f.k.all isPlain) = true := by
  cases e with
  | register who rc bytes errno => cases bytes <;> exact ⟨rfl, rfl⟩
  | callback who call_index encoding c => cases c <;> exact ⟨rfl, rfl⟩
  | result v detail diagnostic_only => cases diagnostic_only <;> exact ⟨rfl, rfl⟩
  | visibility | boundary | head | env | callbackMax | get | landed | sliceToken | manualGet =>
    exact ⟨rfl, rfl⟩

/-- A plain text is not changed by `escape`. -/
theorem escape_plain {s : Bytes} (h : s.all isPlain = true) : escape s = s := by
  have hbyte : ∀ c : UInt8, isPlain c = true → escapeByte c = [c] := by
    rw [forall_byte_iff]
    decide +kernel
  conv_rhs => rw [← List.flatMap_singleton' s]
  exact List.flatMap_congr fun c hc => hbyte c (List.all_eq_true.mp h c hc)

/-- The tags are plain. -/
theorem plain_text (exp : Case) : exp.text.all isPlain = true := by
  cases exp <;> rfl

/-- All keys of a line are plain. -/
theorem plain_allFields (e : Event) : ∀ f ∈ e.allFields, f.k.all isPlain = true := by
  intro f hf
  rcases List.mem_cons.mp hf with rfl | hf
  · rfl
  · exact List.all_eq_true.mp (plain_keys e).2 f hf

/-- No field prints a control character. -/
theorem body_clear {f : Field} (hk : f.k.all isPlain = true) : f.body.all (!isControl ·) = true := by
  have hbyte : ∀ c : UInt8, isPrintable c = true → (!isControl c) = true := by
    rw [forall_byte_iff]
    decide +kernel
  have hclear : ∀ s : Bytes, s.all isPrintable = true → s.all (!isControl ·) = true :=
    fun s hs => List.all_eq_true.mpr fun c hc => hbyte c (List.all_eq_true.mp hs c hc)
  have hvalue : f.v.text.all (!isControl ·) = true := by
    cases f.v with
    | str v =>
      have hescape : (escape v).all (!isControl ·) = true := by
        rw [escape, List.all_flatMap]
        exact List.all_eq_true.mpr fun c _ => (escapeByte_spec c).2.1
      rw [FieldValue.text, quoted, List.all_cons, List.all_append, hescape]
      rfl
    | num v => exact hclear _ (Json.printable_decimalInt v)
    | real v =>
      rw [FieldValue.text, v.take_text]
      exact hclear _ v.printable_text
    | boolean v => cases v <;> rfl
  rw [Field.body, List.all_append, List.all_cons, hclear _ (Json.printable_quoted
    (Json.printable_of_plain hk)), hvalue]
  rfl

/-- A line has no control character. -/
theorem line_clear (exp : Case) (e : Event) : (e.line exp).all (!isControl ·) = true := by
  have htext : (e.allFields.flatMap Field.text).all (!isControl ·) = true := by
    rw [List.all_flatMap]
    refine List.all_eq_true.mpr fun f hf => ?_
    rw [Field.text, List.all_cons, body_clear (plain_allFields e f hf)]
    rfl
  rw [Event.line, List.all_append, List.all_append, List.all_append,
    body_clear (f := caseField exp) rfl, htext]
  rfl

/-- Nothing in a line ends the C string. -/
theorem print_eq (exp : Case) (e : Event) : e.print exp = e.line exp ++ [LF] := by
  have hbuf : (e.fields.foldl Line.put (Line.ofEvent exp.text e.name)).buf_ ++ [chr '\x7d'] =
      e.line exp := by
    rw [foldl_put_buf, Line.ofEvent, Event.line, Event.allFields, List.flatMap_cons, caseField,
      Field.body, Field.text, Field.body, FieldValue.text, FieldValue.text,
      escape_plain (plain_text exp), escape_plain (plain_keys e).1]
    simp only [List.append_assoc, List.cons_append, List.nil_append]
  have hnul : 0 ∉ (e.fields.foldl Line.put (Line.ofEvent exp.text e.name)).buf_ := by
    intro h
    have hmem : (0 : UInt8) ∈ e.line exp := by
      rw [← hbuf]
      exact List.mem_append_left _ h
    exact absurd (List.all_eq_true.mp (line_clear exp e) 0 hmem) (by decide)
  rw [Event.print, Line.emit, cString_eq hnul, ← hbuf, List.append_assoc]
  rfl

/-- The text of a field with its comma: valid exactly when its value is, and closed. -/
theorem decode_fieldText {f : Field} (hk : f.k.all isPlain = true) :
    (f.v.Valid → Utf8.decode f.text = some (pt ',' :: f.member.text)) ∧
      (Utf8.Valid f.text ↔ f.v.Valid) ∧ Utf8.Closed f.text := by
  obtain ⟨hdecode, hvalid, hclosed⟩ := decode_body hk
  have hcomma : [chr ','].all Utf8.isAscii = true := rfl
  have htext : f.text = [chr ','] ++ f.body := rfl
  rw [htext]
  refine ⟨fun h => ?_, ?_, (Utf8.closed_ascii hcomma).append hclosed⟩
  · rw [Utf8.decode_ascii_append hcomma, hdecode h]
    rfl
  · rw [(Utf8.closed_ascii hcomma).valid_append, hvalid]
    exact and_iff_right (by decide)

/-- The members of a line. -/
def Event.members (exp : Case) (e : Event) : List Json.Member :=
  (caseField exp :: e.allFields).map Field.member

/-- All values of a line are valid exactly when those of the event are. -/
theorem allFields_valid_iff (e : Event) :
    (∀ f ∈ e.allFields, f.v.Valid) ↔ ∀ f ∈ e.fields, f.v.Valid := by
  rw [Event.allFields, List.forall_mem_cons]
  refine and_iff_right ?_
  change Utf8.Valid e.name
  exact Utf8.valid_ascii (Utf8.ascii_of_printable (Json.printable_of_plain (plain_keys e).1))

/-- The tag of a line is valid. -/
theorem caseField_valid (exp : Case) : (caseField exp).v.Valid := by
  change Utf8.Valid exp.text
  cases exp <;> decide

/-- A line is UTF-8 exactly when the texts of its fields are. -/
theorem valid_line_iff (exp : Case) (e : Event) :
    Utf8.Valid (e.line exp) ↔ ∀ f ∈ e.fields, f.v.Valid := by
  have hopen : [chr '\x7b'].all Utf8.isAscii = true := rfl
  obtain ⟨-, hcase, hcaseClosed⟩ := decode_body (f := caseField exp) rfl
  have hfield := fun f hf => decode_fieldText (plain_allFields e f hf)
  obtain ⟨hclosed, hvalid⟩ := Utf8.closed_flatMap fun f hf => (hfield f hf).2.2
  rw [← allFields_valid_iff, Event.line, (Utf8.closed_ascii hopen).valid_append,
    hcaseClosed.valid_append, hclosed.valid_append, hcase, hvalid]
  constructor
  · rintro ⟨-, -, hall, -⟩ f hf
    exact (hfield f hf).2.1.mp (hall f hf)
  · intro hall
    refine ⟨by decide, caseField_valid exp, fun f hf => ?_, by decide⟩
    exact (hfield f hf).2.1.mpr (hall f hf)

/-- A valid line is the text of the object of its members. -/
theorem decode_line {e : Event} (h : ∀ f ∈ e.fields, f.v.Valid) (exp : Case) :
    Utf8.decode (e.line exp) = some (Json.objectText (e.members exp)) := by
  have hopen : [chr '\x7b'].all Utf8.isAscii = true := rfl
  have hclose : [chr '\x7d'].all Utf8.isAscii = true := rfl
  obtain ⟨hcase, -, hcaseClosed⟩ := decode_body (f := caseField exp) rfl
  have hfield := fun f hf => decode_fieldText (plain_allFields e f hf)
  have hclosed := (Utf8.closed_flatMap fun f hf => (hfield f hf).2.2).1
  have hall := (allFields_valid_iff e).mpr h
  have hflat := Utf8.decode_flatMap_of_closed (fun f hf => (hfield f hf).2.2)
    fun f hf => (hfield f hf).1 (hall f hf)
  rw [Event.line, Utf8.decode_ascii_append hopen, hcaseClosed, hcase (caseField_valid exp), hclosed,
    hflat, Utf8.decode_ascii hclose, Json.objectText, Event.members, List.map_cons,
    Json.membersText_cons, List.flatMap_map, List.append_assoc]
  rfl

/-- The object of a line. -/
def Event.object (exp : Case) (e : Event) : List (Text × Json) :=
  (caseField exp :: e.allFields).map fun f => (points f.k, f.v.json)

/-- A valid line is read back as its object, also with white space behind it. -/
theorem decode_object_append (ext : Text → Option (Json × Text)) {e : Event}
    (h : ∀ f ∈ e.fields, f.v.Valid) (exp : Case) {ws : Text} (hws : ∀ c ∈ ws, Json.isWs c = true) :
    Json.decodeWith ext (Json.objectText (e.members exp) ++ ws) = some (.obj (e.object exp)) := by
  have hok : ∀ m ∈ e.members exp, m.Ok := by
    intro m hm
    obtain ⟨f, hf, rfl⟩ := List.mem_map.mp hm
    rcases List.mem_cons.mp hf with rfl | hf
    · exact Json.ok_of_plain rfl (prints_printed (caseField_valid exp))
    · exact Json.ok_of_plain (plain_allFields e f hf)
        (prints_printed ((allFields_valid_iff e).mpr h f hf))
  have hne : e.members exp ≠ [] := List.cons_ne_nil _ _
  rw [Json.decodeWith_objectText ext hne hok hws, Event.members, List.map_map]
  rfl

/-- A valid line is read back as its object. -/
theorem decode_object (ext : Text → Option (Json × Text)) {e : Event}
    (h : ∀ f ∈ e.fields, f.v.Valid) (exp : Case) :
    Json.decodeWith ext (Json.objectText (e.members exp)) = some (.obj (e.object exp)) := by
  have hnil : ∀ c ∈ ([] : Text), Json.isWs c = true := by simp
  have hdecode := decode_object_append ext h exp hnil
  rwa [List.append_nil] at hdecode

/-- A Base64 text is ASCII. -/
theorem ascii_base64Encode (s : Bytes) : (base64Encode s).all Utf8.isAscii = true := by
  have hchar : ∀ n, Utf8.isAscii (base64Char n) = true := by
    intro n
    have htable : ∀ k, k < 64 → Utf8.isAscii (base64Table.getD k 0) = true := by decide +kernel
    refine htable _ (Nat.lt_succ_of_le ?_)
    rw [BitVec.toNat_and]
    exact Nat.and_le_right
  have hgroup : ∀ a b c, (base64Group a b c).all Utf8.isAscii = true := by
    intro a b c
    cases b <;> cases c <;> simp [base64Group, hchar] <;> decide
  fun_induction base64Encode s with
  | case1 => rfl
  | case2 a => exact hgroup a none none
  | case3 a b => exact hgroup a (some b) none
  | case4 a b c rest ih => rw [List.all_append, hgroup, ih, Bool.true_and]

/-- The digits of a digest are ASCII. -/
theorem ascii_hex (bin : Bytes) : (hex bin).all Utf8.isAscii = true := by
  have hbyte : ∀ c : UInt8,
      [lowerHex (c.toNat / 16), lowerHex (c.toNat % 16)].all Utf8.isAscii = true := by
    rw [forall_byte_iff]
    decide +kernel
  rw [hex, List.all_flatMap]
  exact List.all_eq_true.mpr fun c _ => hbyte c

/-- A text in a field is valid exactly if it is UTF-8. -/
@[simp]
theorem fieldStr_valid (k : String) (v : Bytes) : (fieldStr k v).v.Valid ↔ Utf8.Valid v := Iff.rfl

/-- A number in a field is valid. -/
@[simp]
theorem fieldNum_valid (k : String) (v : ℤ) : (fieldNum k v).v.Valid := trivial

/-- A time in a field is valid. -/
@[simp]
theorem fieldReal_valid (k : String) (v : Millis) : (fieldReal k v).v.Valid := trivial

/-- A truth value in a field is valid. -/
@[simp]
theorem fieldBool_valid (k : String) (v : Bool) : (fieldBool k v).v.Valid := trivial

/-- The words of the source are ASCII. -/
theorem words_valid (who : Who) (v : Verdict) (name : VisibilityName) (reply : RdmaReply) :
    Utf8.Valid who.text ∧ Utf8.Valid v.text ∧ Utf8.Valid name.text ∧
      Utf8.Valid (replyKind reply) := by
  refine ⟨?_, ?_, ?_, ?_⟩
  · cases who <;> decide
  · cases v <;> decide
  · cases name <;> decide
  · cases reply with
    | code code => exact Utf8.valid_ascii rfl
    | declined => decide
    | malformed => decide

/-- The texts of the fields of an event are UTF-8 exactly when those from outside are. -/
theorem fields_valid_iff (e : Event) :
    (∀ f ∈ e.fields, f.v.Valid) ↔ ∀ t ∈ e.externals, Utf8.Valid t := by
  -- The words of the source, digests and Base64 are valid, whatever they stand for.
  have hwho := fun who => (words_valid who .Pass .none .declined).1
  have hverdict := fun v => (words_valid .A v .none .declined).2.1
  have hname := fun name => (words_valid .A .Pass name .declined).2.2.1
  have hreply := fun reply => (words_valid .A .Pass .none reply).2.2.2
  have hbase64 := fun s => Utf8.valid_ascii (ascii_base64Encode s)
  have hhex := fun s => Utf8.valid_ascii (ascii_hex s)
  cases e with
  | env o arena_bytes xfer cell =>
    have hmode : Utf8.Valid (if o.mode = .host then ascii "host" else ascii "gpu") := by
      split_ifs <;> decide
    have hapi : Utf8.Valid
        (if o.base_offset_api then ascii "base-offset" else ascii "pointer") := by
      split_ifs <;> decide
    have hobject := Utf8.valid_append_ascii (c := chr '/') rfl o.bucket o.object
    simpa [Event.fields, Event.externals, hmode, hapi] using hobject
  | register who rc bytes errno => cases bytes <;> simp [Event.fields, Event.externals, hwho]
  | callback who call_index encoding c =>
    cases c <;> simp [Event.fields, CallbackEvent.fields, Event.externals, hwho, hbase64, hreply]
  | result v detail diagnostic_only =>
    cases diagnostic_only <;> simp [Event.fields, Event.externals, hverdict]
  | boundary =>
    refine iff_of_true ?_ (by simp [Event.externals])
    simp only [Event.fields, List.forall_mem_cons, fieldStr_valid]
    exact ⟨by decide, by decide, by decide, by decide, by simp⟩
  | visibility | head | callbackMax | get | landed | sliceToken | manualGet =>
    simp [Event.fields, Event.externals, hwho, hname, hhex]

end S3Rdma.Scope
