import S3Rdma.Lib.Json

/-!
# The records of the rig tools

`jsonl.hpp` builds a record call by call, as the text of the members of a JSON object, and prints it
through a C string as one line. Every byte of a value is escaped or printable ASCII, so the C string
is the whole body, and the line is read back as an object: `record_body` says, along all calls, that
the body is the text of the members in call order, and `record_printable` that nothing in it cuts or
splits the line. A string stands for its bytes as code points, and `hex_bytes` for its bytes.
-/

namespace S3Rdma

open Json (quoted isPrintable isPlain)

/-! ## The code -/

/-- `json_escape`, for one byte. -/
def jsonEscapeByte (c : UInt8) : Bytes :=
  if c = chr '"' ∨ c = chr '\\' then [chr '\\', c]
  else if c < 0x20 ∨ 0x7f ≤ c then Json.hexEscape c
  else [c]

/-- `json_escape`. -/
def jsonEscape (s : Bytes) : Bytes := s.flatMap jsonEscapeByte

/-- `hex_bytes`. -/
def hexBytes (bytes : Bytes) : Bytes :=
  bytes.flatMap fun c : UInt8 => [lowerHex (c >>> 4).toNat, lowerHex (c &&& 15).toNat]

/-- A key literal: nothing in it has to be escaped. -/
structure Key where
  text : Bytes
  plain : text.all isPlain = true

/-- The key of the first member of a record. -/
def Key.event : Key := ⟨ascii "event", by decide⟩

/-- `JsonRec`. -/
structure JsonRec where
  body_ : Bytes

namespace JsonRec

/-- `JsonRec::raw`. -/
def raw (r : JsonRec) (k : Key) (v : Bytes) : JsonRec :=
  ⟨(if r.body_ = [] then r.body_ else r.body_ ++ [chr ',']) ++ (quoted k.text ++ chr ':' :: v)⟩

/-- The constructor of `JsonRec`. -/
def mkEvent (event : Bytes) : JsonRec := raw ⟨[]⟩ Key.event (quoted (jsonEscape event))

/-- `JsonRec::str`. -/
def str (r : JsonRec) (k : Key) (v : Bytes) : JsonRec := r.raw k (quoted (jsonEscape v))

/-- `JsonRec::hex`. -/
def hex (r : JsonRec) (k : Key) (bytes : Bytes) : JsonRec := r.raw k (quoted (hexBytes bytes))

/-- `JsonRec::num`. -/
def num (r : JsonRec) (k : Key) (v : ℤ) : JsonRec := r.raw k (decimalInt v)

/-- `JsonRec::boolean`. -/
def boolean (r : JsonRec) (k : Key) (v : Bool) : JsonRec :=
  r.raw k (if v then ascii "true" else ascii "false")

/-- `JsonRec::null`. -/
def null (r : JsonRec) (k : Key) : JsonRec := r.raw k (ascii "null")

/-- What `JsonRec::emit` prints; the body goes through a C string. -/
def emit (r : JsonRec) : Bytes := chr '\x7b' :: (cString r.body_ ++ [chr '\x7d', LF])

end JsonRec

/-- The value of a call, with the kind of the call. -/
inductive RecValue where
  | str (v : Bytes)
  | hex (bytes : Bytes)
  | num (v : ℤ)
  | boolean (v : Bool)
  | null

/-- A call on a record. -/
structure RecCall where
  k : Key
  v : RecValue

/-- The record after a call. -/
def JsonRec.call (r : JsonRec) (c : RecCall) : JsonRec :=
  match c.v with
  | .str v => r.str c.k v
  | .hex bytes => r.hex c.k bytes
  | .num v => r.num c.k v
  | .boolean v => r.boolean c.k v
  | .null => r.null c.k

/-- The record of an event after a sequence of calls. -/
def record (event : Bytes) (calls : List RecCall) : JsonRec :=
  calls.foldl JsonRec.call (JsonRec.mkEvent event)

/-! ## What a record means -/

/-- The bytes that a string of hexadecimal digits stands for. -/
def hexDecode : Text → Option Bytes
  | [] => some []
  | [_] => none
  | a :: b :: rest => do
    let hi ← Json.hexPt a
    let lo ← Json.hexPt b
    let bytes ← hexDecode rest
    return UInt8.ofNat (16 * hi + lo) :: bytes

/-- The kind of a call. -/
inductive RecKind where
  | str | hex | num | boolean | null

/-- The kind of a value. -/
def RecValue.kind : RecValue → RecKind
  | .str _ => .str
  | .hex _ => .hex
  | .num _ => .num
  | .boolean _ => .boolean
  | .null => .null

/-- The kind and the key of a call. -/
def RecCall.shape (c : RecCall) : RecKind × Key := (c.v.kind, c.k)

/-- The JSON value carries the value of a call. -/
def RecValue.CarriedBy (j : Json) : RecValue → Prop
  | .str v => j = .str (points v)
  | .hex bytes => ∃ t, j = .str t ∧ hexDecode t = some bytes
  | .num v => j = .int v
  | .boolean v => j = .bool v
  | .null => j = .null

/-- The member of the object carries the call. -/
def RecCall.CarriedBy (c : RecCall) (field : Text × Json) : Prop :=
  field.1 = points c.k.text ∧ c.v.CarriedBy field.2

/-- A record is one line of printable ASCII that gives its event and its calls back. -/
structure Lossless (event : Bytes) (calls : List RecCall) : Prop where
  /-- One line. -/
  line : ∃ body : Bytes, (record event calls).emit = body ++ [LF] ∧
    ∀ c ∈ body, 0x20 ≤ c ∧ c ≤ 0x7e
  /-- An object with the event and the fields in call order. -/
  decodes : ∃ fields, List.Forall₂ RecCall.CarriedBy calls fields ∧
    Json.decode (points (record event calls).emit) =
      some (.obj ((points (ascii "event"), .str (points event)) :: fields))
  /-- No other values of the same kinds and keys give this line. -/
  distinct : ∀ event' calls', calls'.map RecCall.shape = calls.map RecCall.shape →
    (record event' calls').emit = (record event calls).emit → event' = event ∧ calls' = calls

/-! ## Escapes -/

/-- An escaped byte is read back as its code point. -/
theorem escapes_jsonEscapeByte (c : UInt8) : Json.Escapes (points (jsonEscapeByte c)) c.toNat := by
  unfold jsonEscapeByte
  split_ifs with hback hctl
  · exact Json.escapes_quote hback
  · exact Json.escapes_hexEscape c
  · exact Json.escapes_byte hback fun h => hctl (.inl h)

/-- An escaped byte is printable. -/
theorem isPrintable_jsonEscapeByte (c : UInt8) : (jsonEscapeByte c).all isPrintable = true := by
  revert c
  rw [forall_byte_iff]
  decide +kernel

/-- The two digits of a byte: printable, read as themselves, and they give the byte back. -/
theorem hexBytes_byte (c : UInt8) :
    (hexBytes [c]).all isPlain = true ∧
      hexDecode (points (hexBytes [c])) = some [c] := by
  revert c
  rw [forall_byte_iff]
  decide +kernel

/-- The digits of the first byte, and of the others. -/
theorem hexBytes_cons (c : UInt8) (bytes : Bytes) :
    hexBytes (c :: bytes) = hexBytes [c] ++ hexBytes bytes := by
  simp [hexBytes]

/-- Hexadecimal digits are plain. -/
theorem plain_hexBytes (bytes : Bytes) : (hexBytes bytes).all isPlain = true := by
  induction bytes with
  | nil => rfl
  | cons c bytes ih => rw [hexBytes_cons, List.all_append, (hexBytes_byte c).1, ih, Bool.true_and]

/-- The digits of bytes give the bytes back. -/
theorem hexDecode_hexBytes (bytes : Bytes) : hexDecode (points (hexBytes bytes)) = some bytes := by
  induction bytes with
  | nil => rfl
  | cons c bytes ih =>
    have hstep : ∀ a b : ℕ, hexDecode [a, b] = some [c] → ∀ t, hexDecode t = some bytes →
        hexDecode (a :: b :: t) = some (c :: bytes) := by
      intro a b hab t ht
      cases hhi : Json.hexPt a <;> cases hlo : Json.hexPt b <;>
        simp_all [hexDecode]
    exact hstep _ _ (hexBytes_byte c).2 _ ih

/-! ## One call -/

/-- The text of a value. -/
def RecValue.text : RecValue → Bytes
  | .str v => quoted (jsonEscape v)
  | .hex bytes => quoted (hexBytes bytes)
  | .num v => decimalInt v
  | .boolean v => if v then ascii "true" else ascii "false"
  | .null => ascii "null"

/-- The JSON value of a value. -/
def RecValue.json : RecValue → Json
  | .str v => .str (points v)
  | .hex bytes => .str (points (hexBytes bytes))
  | .num v => .int v
  | .boolean v => .bool v
  | .null => .null

/-- Every call adds a member with its key and the text of its value. -/
theorem call_eq_raw (r : JsonRec) (c : RecCall) : r.call c = r.raw c.k c.v.text := by
  obtain ⟨k, v⟩ := c
  cases v <;> rfl

/-- The text of a value is read as its JSON value. -/
theorem prints_text (v : RecValue) : Json.Prints (points v.text) v.json := by
  cases v with
  | str v =>
    exact Json.prints_points fun c _ => escapes_jsonEscapeByte c
  | hex bytes =>
    have hprints := Json.prints_points (Json.escapes_plain (plain_hexBytes bytes))
    rwa [List.flatMap_singleton'] at hprints
  | num v => exact Json.prints_decimalInt v
  | boolean v => exact Json.prints_bool v
  | null => exact Json.prints_literal (s := "null") (v := .null) (by simp)

/-- A value is carried by its JSON value. -/
theorem carriedBy_json (v : RecValue) : v.CarriedBy v.json := by
  cases v with
  | hex bytes => exact ⟨_, rfl, hexDecode_hexBytes bytes⟩
  | str | num | boolean | null => rfl

/-- A value of a kind is determined by its JSON value. -/
theorem json_injective {v w : RecValue} (hkind : v.kind = w.kind) (h : v.json = w.json) : v = w := by
  cases v <;> cases w <;> cases hkind
  case str.str v w => rw [points_injective (Json.str.inj h)]
  case hex.hex a b =>
    have hdecode := congrArg hexDecode (Json.str.inj h)
    rw [hexDecode_hexBytes, hexDecode_hexBytes] at hdecode
    rw [Option.some_inj.mp hdecode]
  case num.num v w => rw [Json.int.inj h]
  case boolean.boolean v w => rw [Json.bool.inj h]
  case null.null => rfl

/-- The text of a value is printable. -/
theorem printable_text (v : RecValue) : v.text.all isPrintable = true := by
  cases v with
  | str v =>
    refine Json.printable_quoted ?_
    rw [jsonEscape, List.all_flatMap]
    exact List.all_eq_true.mpr fun c _ => isPrintable_jsonEscapeByte c
  | hex bytes => exact Json.printable_quoted (Json.printable_of_plain (plain_hexBytes bytes))
  | num v => exact Json.printable_decimalInt v
  | boolean v => cases v <;> decide
  | null => decide

/-! ## A sequence of calls -/

/-- The member that a call adds. -/
def RecCall.member (c : RecCall) : Json.Member where
  keyText := points c.k.text
  key := points c.k.text
  valueText := points c.v.text
  value := c.v.json

/-- The name and the value of the member that a call adds. -/
def RecCall.field (c : RecCall) : Text × Json := (points c.k.text, c.v.json)

/-- The member of a call is read back. -/
theorem member_ok (c : RecCall) : c.member.Ok := Json.ok_of_plain c.k.plain (prints_text c.v)

/-- The code points of the member of a call. -/
theorem points_member (c : RecCall) :
    points (quoted c.k.text ++ chr ':' :: c.v.text) = c.member.text := by
  rw [points_append, Json.points_quoted, List.cons_append, List.append_assoc]
  rfl

/-- A call adds its member to the body. -/
theorem call_body {r : JsonRec} {ms : List Json.Member} (hne : ms ≠ [])
    (h : points r.body_ = Json.membersText ms) (c : RecCall) :
    points (r.call c).body_ = Json.membersText (ms ++ [c.member]) := by
  have hbody : r.body_ ≠ [] := by
    rintro hnil
    obtain ⟨m, ms, rfl⟩ := List.exists_cons_of_ne_nil hne
    obtain ⟨t, ht⟩ := Json.membersText_head m ms
    rw [hnil, ht] at h
    cases h
  rw [call_eq_raw, JsonRec.raw, if_neg hbody, Json.membersText_concat hne, ← points_member, ← h,
    points_append, points_append, List.append_assoc]
  rfl

/-- A call keeps the body printable. -/
theorem call_printable {r : JsonRec} (h : r.body_.all isPrintable = true) (c : RecCall) :
    (r.call c).body_.all isPrintable = true := by
  have hkey := Json.printable_quoted (Json.printable_of_plain c.k.plain)
  have hstart : (if r.body_ = [] then r.body_ else r.body_ ++ [chr ',']).all isPrintable = true := by
    split_ifs
    · exact h
    · rw [List.all_append, h]
      rfl
  rw [call_eq_raw, JsonRec.raw, List.all_append, List.all_append, List.all_cons, hstart, hkey,
    printable_text]
  rfl

/-- The event as a first call. -/
def eventCall (event : Bytes) : RecCall := ⟨Key.event, .str event⟩

/-- The body of a record is the text of its members, in call order. -/
theorem record_body (event : Bytes) (calls : List RecCall) :
    points (record event calls).body_ =
      Json.membersText ((eventCall event :: calls).map RecCall.member) := by
  have hrun : ∀ (calls : List RecCall) (r : JsonRec) (ms : List Json.Member), ms ≠ [] →
      points r.body_ = Json.membersText ms →
      points (calls.foldl JsonRec.call r).body_ =
        Json.membersText (ms ++ calls.map RecCall.member) := by
    intro calls
    induction calls with
    | nil =>
      intro r ms _ h
      rw [List.map_nil, List.append_nil]
      exact h
    | cons c calls ih =>
      intro r ms hne h
      have hnext := ih (r.call c) (ms ++ [c.member]) (by simp) (call_body hne h c)
      rwa [List.append_assoc] at hnext
  refine hrun calls _ [(eventCall event).member] (by simp) ?_
  rw [Json.membersText_singleton, ← points_member]
  rfl

/-- The body of a record is printable. -/
theorem record_printable (event : Bytes) (calls : List RecCall) :
    (record event calls).body_.all isPrintable = true := by
  have hrun : ∀ (calls : List RecCall) (r : JsonRec), r.body_.all isPrintable = true →
      (calls.foldl JsonRec.call r).body_.all isPrintable = true := by
    intro calls
    induction calls with
    | nil => exact fun r h => h
    | cons c calls ih => exact fun r h => ih (r.call c) (call_printable h c)
  refine hrun calls _ ?_
  exact call_printable (r := ⟨[]⟩) rfl (eventCall event)

/-- Nothing in the body ends the C string. -/
theorem record_emit (event : Bytes) (calls : List RecCall) :
    (record event calls).emit =
      chr '\x7b' :: ((record event calls).body_ ++ [chr '\x7d', LF]) := by
  have hnul : 0 ∉ (record event calls).body_ := by
    intro h
    exact absurd (List.all_eq_true.mp (record_printable event calls) 0 h) (by decide)
  rw [JsonRec.emit, cString_eq hnul]

/-- The line of a record is read back as the object of its members. -/
theorem decode_emit (event : Bytes) (calls : List RecCall) :
    Json.decode (points (record event calls).emit) =
      some (.obj ((eventCall event :: calls).map RecCall.field)) := by
  have hline : points (record event calls).emit =
      Json.objectText ((eventCall event :: calls).map RecCall.member) ++ [10] := by
    rw [record_emit, Json.objectText, ← record_body, List.cons_append, List.append_assoc]
    change pt '\x7b' :: points ((record event calls).body_ ++ [chr '\x7d', LF]) = _
    rw [points_append]
    rfl
  have hok : ∀ m ∈ (eventCall event :: calls).map RecCall.member, m.Ok := by
    intro m hm
    obtain ⟨c, -, rfl⟩ := List.mem_map.mp hm
    exact member_ok c
  rw [hline, Json.decode, Json.decodeWith_objectText _ (by simp) hok (by decide), List.map_map]
  rfl

/-- Calls of the same kinds and keys are determined by their members: the shape of a call gives the
kind and the key, the member the value. -/
theorem calls_injective {calls calls' : List RecCall}
    (hshape : calls'.map RecCall.shape = calls.map RecCall.shape)
    (hfield : calls'.map RecCall.field = calls.map RecCall.field) : calls' = calls := by
  have hone : ∀ c c' : RecCall, c'.shape = c.shape → c'.field = c.field → c' = c := by
    rintro ⟨k, v⟩ ⟨k', v'⟩ hshape hfield
    obtain ⟨hkind, hk⟩ := Prod.mk.inj hshape
    have hv : v' = v := json_injective hkind (Prod.mk.inj hfield).2
    rw [RecCall.mk.injEq]
    exact ⟨hk, hv⟩
  induction calls' generalizing calls with
  | nil => exact (List.map_eq_nil_iff.mp hfield.symm).symm
  | cons c' calls' ih =>
    cases calls with
    | nil => cases hfield
    | cons c calls =>
      rw [List.map_cons, List.map_cons, List.cons.injEq] at hshape hfield
      rw [hone c c' hshape.1 hfield.1, ih hshape.2 hfield.2]

/-- Every record is one line of printable ASCII that gives its event and its calls back. -/
theorem record_lossless (event : Bytes) (calls : List RecCall) : Lossless event calls where
  line := by
    refine ⟨chr '\x7b' :: ((record event calls).body_ ++ [chr '\x7d']), ?_, fun c hc => ?_⟩
    · rw [record_emit]
      simp
    · have hall : (chr '\x7b' :: ((record event calls).body_ ++ [chr '\x7d'])).all isPrintable =
          true := by
        rw [List.all_cons, List.all_append, record_printable]
        rfl
      have hprint := List.all_eq_true.mp hall c hc
      simpa [isPrintable] using hprint
  decodes := by
    refine ⟨calls.map RecCall.field, ?_, decode_emit event calls⟩
    rw [List.forall₂_map_right_iff, List.forall₂_same]
    exact fun c _ => ⟨rfl, carriedBy_json c.v⟩
  distinct := by
    intro event' calls' hshape hline
    have hfields : Json.decode (points (record event' calls').emit) =
        Json.decode (points (record event calls).emit) := by rw [hline]
    rw [decode_emit, decode_emit, Option.some_inj, Json.obj.injEq, List.map_cons, List.map_cons,
      List.cons.injEq, Prod.mk.injEq] at hfields
    obtain ⟨⟨-, hevent⟩, hcalls⟩ := hfields
    refine ⟨points_injective (Json.str.inj hevent), ?_⟩
    exact calls_injective hshape hcalls

-- A NUL, a quote and a byte outside ASCII.
example : (record (ascii "a") [⟨Key.event, .str [0, 34, 255]⟩]).emit =
    ascii "\x7b\"event\":\"a\",\"event\":\"\\u0000\\\"\\u00ff\"\x7d\n" := by
  decide

end S3Rdma
