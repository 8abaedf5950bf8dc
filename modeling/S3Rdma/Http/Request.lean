import S3Rdma.Http.Segmentation

/-!
# The request on the wire

`build_request` writes the request line, one `Host` field, the caller's fields and
`Connection: close`. A reader that cuts the message into its lines, and every field line at its first
colon, finds these and nothing else (`buildRequest_read`): no byte that it accepts can end a line,
and no caller's field can frame the message.

The writer then offers the rest of the message until all of it is accepted or something fails. What
the socket has accepted is a prefix of the message (`flatten_sentPieces`), and the response says
which (`rawHttpGet_written`).
-/

namespace S3Rdma

/-! ## Fields -/

/-- A field that can be sent. -/
structure SendableField (h : Bytes × Bytes) : Prop where
  name_ne : h.1 ≠ []
  name_token : h.1.all isTchar = true
  value_valid : validFieldValue h.2 = true

/-- A field line as it is written. -/
def writtenLine (h : Bytes × Bytes) : Bytes := fieldLine (h.1, SP :: h.2)

/-- A field as it is read: the value is trimmed. -/
def readField (line : Bytes) : Bytes × Bytes := ((cutAtColon line).1, trimBlanks (cutAtColon line).2)

theorem fieldText_eq (h : Bytes × Bytes) : fieldText h = writtenLine h ++ CRLF := by
  have hcolon : ascii ": " = [chr ':', SP] := rfl
  simp [fieldText, writtenLine, fieldLine, hcolon]

/-- A field that can be sent is written as a field line of the strict grammar. -/
theorem SendableField.isFieldLine {h : Bytes × Bytes} (hs : SendableField h) :
    IsFieldLine (writtenLine h) h.1 (trimBlanks h.2) :=
  ⟨⟨SP :: h.2, rfl, rfl⟩, hs.name_ne, hs.name_token, validFieldValue_trimBlanks hs.value_valid⟩

/-- A field that can be sent is read back with its value trimmed. -/
theorem SendableField.readField_writtenLine {h : Bytes × Bytes} (hs : SendableField h) :
    readField (writtenLine h) = (h.1, trimBlanks h.2) := by
  have hcut : cutAtColon (writtenLine h) = (h.1, SP :: h.2) := cutAtColon_fieldLine hs.name_token
  rw [readField, hcut]
  rfl

/-- Fields that were written are read back up to the empty line. -/
theorem parseFieldLines_sendable {hs : HeaderList} (h : ∀ f ∈ hs, SendableField f)
    (more : List Bytes) :
    ∃ fields, parseFieldLines (hs.map writtenLine ++ [] :: more) = (fields, true) ∧
      fields.map RawField.pair = hs.map fun f => (f.1, trimBlanks f.2) := by
  have hlines : ∀ f ∈ hs.map (fun h => (h.1, SP :: h.2)),
      IsFieldLine (fieldLine f) f.1 (trimBlanks f.2) := by
    intro f hf
    obtain ⟨g, hg, rfl⟩ := List.mem_map.mp hf
    exact (h g hg).isFieldLine
  have hparse := parseFieldLines_complete hlines more
  rw [List.map_map] at hparse
  refine ⟨_, hparse, ?_⟩
  rw [List.map_map, List.map_map]
  rfl

/-! ## The message -/

/-- The request line. -/
def requestLine (target : Bytes) : Bytes := ascii "GET " ++ target ++ ascii " HTTP/1.1"

/-- The fields of a request: the host, the caller's fields, and the end of the connection. -/
def requestFields (host_header : Bytes) (headers : HeaderList) : HeaderList :=
  (ascii "Host", host_header) :: (headers ++ [(ascii "Connection", ascii "close")])

/-- The lines of a request, with the empty one. -/
def requestLines (host_header target : Bytes) (headers : HeaderList) : List Bytes :=
  requestLine target :: ((requestFields host_header headers).map writtenLine ++ [[]])

/-- What `build_request` accepts. -/
structure AcceptableRequest (host_header target : Bytes) (headers : HeaderList) : Prop where
  target_origin : target.head? = some (chr '/')
  target_bytes : ∀ c ∈ target, isPcharOrDelim c = true
  host_ne : host_header ≠ []
  host_valid : validFieldValue host_header = true
  host_space : SP ∉ host_header
  fields : ∀ f ∈ headers, SendableField f ∧ lower f.1 ∉ reservedNames

/-- The fields of a request are written one after the other, and each can be sent. -/
theorem buildFields_eq {hs : HeaderList} {text : Bytes} {token_bearing : Bool}
    (h : buildFields hs = .ok (text, token_bearing)) :
    text = hs.flatMap fieldText ∧ ∀ f ∈ hs, SendableField f ∧ lower f.1 ∉ reservedNames := by
  induction hs generalizing text token_bearing with
  | nil =>
    simp only [buildFields_nil, Except.ok.injEq, Prod.mk.injEq] at h
    exact ⟨h.1.symm, by simp⟩
  | cons f hs ih =>
    rw [buildFields_cons] at h
    split_ifs at h with hempty htoken hreserved hvalue
    obtain ⟨rest, hrest, h⟩ := exists_of_bind_eq_ok h
    obtain ⟨htext, hall⟩ := ih hrest
    obtain ⟨rfl, -⟩ := Prod.mk.inj (Except.ok.inj h)
    refine ⟨by rw [htext]; rfl, fun g hg => ?_⟩
    rcases List.mem_cons.mp hg with rfl | hg
    · exact ⟨⟨hempty, by simpa using htoken, by simpa using hvalue⟩, hreserved⟩
    · exact hall g hg

/-- Fields that can be sent and are not reserved are written. -/
theorem buildFields_ok {hs : HeaderList}
    (h : ∀ f ∈ hs, SendableField f ∧ lower f.1 ∉ reservedNames) : ∃ m, buildFields hs = .ok m := by
  induction hs with
  | nil => exact ⟨_, rfl⟩
  | cons f hs ih =>
    obtain ⟨hf, hreserved⟩ := h f List.mem_cons_self
    obtain ⟨m, hm⟩ := ih fun g hg => h g (List.mem_cons_of_mem _ hg)
    rw [buildFields_cons, if_neg hf.name_ne, if_neg (by simp [hf.name_token]), if_neg hreserved,
      if_neg (by simp [hf.value_valid]), hm]
    exact ⟨_, rfl⟩

/-- The message of a request that is accepted, line by line. -/
theorem buildRequest_eq {host_header target msg : Bytes} {headers : HeaderList} {token_bearing : Bool}
    (h : buildRequest host_header target headers = .ok (msg, token_bearing)) :
    AcceptableRequest host_header target headers ∧
      msg = (requestLines host_header target headers).flatMap (· ++ CRLF) := by
  unfold buildRequest at h
  split_ifs at h with horigin htarget hhost
  obtain ⟨⟨text, t⟩, hbuild, h⟩ := exists_of_bind_eq_ok h
  obtain ⟨htext, hsend⟩ := buildFields_eq hbuild
  obtain ⟨hmsg, -⟩ := Prod.mk.inj (Except.ok.inj h)
  simp only [Bool.or_eq_true, Bool.not_eq_true', not_or] at hhost
  refine ⟨⟨not_not.mp horigin, ?_, ?_, ?_, ?_, hsend⟩, ?_⟩
  · simpa using htarget
  · simpa using hhost.1.1
  · simpa using hhost.1.2
  · simpa using hhost.2
  · have hfields : ∀ hs : HeaderList,
        (hs.map writtenLine).flatMap (· ++ CRLF) = hs.flatMap fieldText := by
      intro hs
      rw [List.flatMap_map]
      exact List.flatMap_congr fun f _ => (fieldText_eq f).symm
    have hhosttext : ascii "Host: " = ascii "Host" ++ ascii ": " := rfl
    have hclose : ascii "Connection: close" = ascii "Connection" ++ ascii ": " ++ ascii "close" := rfl
    rw [← hmsg, htext, hhosttext, hclose, requestLines, List.flatMap_cons, List.flatMap_append, hfields]
    simp [requestFields, requestLine, fieldText]

/-- Whether a request is accepted. -/
theorem buildRequest_ok_iff {host_header target : Bytes} {headers : HeaderList} :
    (∃ m, buildRequest host_header target headers = .ok m) ↔
      AcceptableRequest host_header target headers := by
  refine ⟨fun ⟨m, hm⟩ => (buildRequest_eq hm).1, fun h => ?_⟩
  obtain ⟨m, hm⟩ := buildFields_ok h.fields
  have htarget : ¬ (!target.all isPcharOrDelim) = true := by simpa using h.target_bytes
  have hhost : ¬ (host_header.isEmpty || !validFieldValue host_header ||
      host_header.contains SP) = true := by
    simp [h.host_ne, h.host_valid, h.host_space]
  unfold buildRequest
  rw [if_neg (not_not.mpr h.target_origin), if_neg htarget, if_neg hhost, hm]
  exact ⟨_, rfl⟩

/-! ## Reading the message -/

/-- A request target has no space and no line end. -/
theorem isPcharOrDelim_ne (c : UInt8) : isPcharOrDelim c = true → c ≠ CR ∧ c ≠ SP := by
  revert c
  rw [forall_byte_iff]
  decide +kernel

/-- A message of lines that are ended by CRLF, with CRLFCRLF at its end only, that reads as a
request line and fields: it is cut at CRLF, and every field line at its first colon, and the values
are trimmed. -/
structure ReadsAs (msg request_line : Bytes) (fields : HeaderList) : Prop where
  end_only : ∀ i, CRLFCRLF <+: msg.drop i ↔ i + 4 = msg.length
  lines : ∃ lines, crlfLines msg = request_line :: (lines ++ [[]]) ∧ [] ∉ lines ∧
    lines.map readField = fields ∧ msg = (crlfLines msg).flatMap (· ++ CRLF)

section Accepted

variable {host_header target : Bytes} {headers : HeaderList}

theorem AcceptableRequest.sendable (h : AcceptableRequest host_header target headers) :
    ∀ f ∈ requestFields host_header headers, SendableField f := by
  intro f hf
  rw [requestFields, List.mem_cons, List.mem_append, List.mem_singleton] at hf
  rcases hf with rfl | hf | rfl
  · have hname : (ascii "Host").all isTchar = true := by decide
    exact ⟨by simp [ascii], hname, h.host_valid⟩
  · exact (h.fields f hf).1
  · exact ⟨by simp [ascii], by decide, by decide⟩

/-- Every line but the last is nonempty, and none has a line end in it. -/
theorem AcceptableRequest.lines (h : AcceptableRequest host_header target headers) :
    CR ∉ requestLine target ∧
      ∀ line ∈ (requestFields host_header headers).map writtenLine, line ≠ [] ∧ CR ∉ line := by
  constructor
  · have htarget : CR ∉ target := fun hmem => (isPcharOrDelim_ne CR (h.target_bytes CR hmem)).1 rfl
    simp only [requestLine, List.mem_append, not_or]
    exact ⟨⟨by decide, htarget⟩, by decide⟩
  · intro line hline
    obtain ⟨f, hf, rfl⟩ := List.mem_map.mp hline
    obtain ⟨hne, hcontrol⟩ := (h.sendable f hf).isFieldLine.noControl
    exact ⟨hne, hcontrol.not_mem.1⟩

/-- The message is cut into the lines it was written from. -/
theorem AcceptableRequest.crlfLines_eq (h : AcceptableRequest host_header target headers) :
    crlfLines ((requestLines host_header target headers).flatMap (· ++ CRLF)) =
      requestLines host_header target headers := by
  have hcr : ∀ line ∈ requestLines host_header target headers, CR ∉ line := by
    intro line hline
    rw [requestLines, List.mem_cons, List.mem_append, List.mem_singleton] at hline
    rcases hline with rfl | hline | rfl
    · exact h.lines.1
    · exact (h.lines.2 line hline).2
    · exact List.not_mem_nil
  have hcut := crlfLines_flatMap hcr []
  rwa [List.append_nil, crlfLines, List.append_nil] at hcut

/-- The first CRLFCRLF of the message is its end. -/
theorem AcceptableRequest.findSub_eq (h : AcceptableRequest host_header target headers) :
    findSub CRLFCRLF ((requestLines host_header target headers).flatMap (· ++ CRLF)) =
      some (((requestLines host_header target headers).flatMap (· ++ CRLF)).length - 4) := by
  obtain ⟨hfirst, hrest⟩ := h.lines
  set lines := (requestFields host_header headers).map writtenLine with hlines
  have hsplit : (requestLines host_header target headers).flatMap (· ++ CRLF) =
      requestLine target ++ (CRLF ++ (lines.flatMap (· ++ CRLF) ++ (CRLF ++ []))) := by
    simp [requestLines, hlines]
  have hcrlf : CRLF.length = 2 := rfl
  rw [hsplit, findSub_line hfirst, findSub_lines hrest]
  simp only [List.length_append, List.length_nil, hcrlf, Option.map_some, Option.some.injEq]
  omega

/-- A field of a reserved name is one of the two that `build_request` adds. -/
theorem AcceptableRequest.valuesOf_reserved (h : AcceptableRequest host_header target headers)
    {n : Bytes} (hn : n ∈ reservedNames) :
    valuesOf ((requestFields host_header headers).map fun f => (f.1, trimBlanks f.2)) n =
      (valuesOf [(ascii "Host", host_header), (ascii "Connection", ascii "close")] n).map
        trimBlanks := by
  have hnone : valuesOf headers n = [] := by
    by_contra hne
    obtain ⟨f, hf, rfl⟩ := List.mem_map.mp (valuesOf_ne_nil_iff.mp hne)
    exact (h.fields f hf).2 hn
  rw [valuesOf_map_trim, requestFields, valuesOf_cons, valuesOf_append, hnone, List.nil_append,
    ← valuesOf_cons]

/-- The host is read as it was given unless it starts or ends with a tab. -/
theorem AcceptableRequest.trimBlanks_host_iff (h : AcceptableRequest host_header target headers) :
    trimBlanks host_header = host_header ↔
      host_header.head? ≠ some HT ∧ host_header.getLast? ≠ some HT := by
  -- A host has no space, so its only blanks are tabs.
  have hblank : ∀ c ∈ host_header, isBlank c = false ↔ c ≠ HT := by
    intro c hc
    have hsp : c ≠ SP := fun heq => h.host_space (heq ▸ hc)
    simp [isBlank, hsp]
  rw [trimBlanks_eq_self_iff]
  constructor
  · rintro ⟨hhead, hlast⟩
    exact ⟨fun heq => absurd (hhead HT heq) (by decide), fun heq => absurd (hlast HT heq) (by decide)⟩
  · rintro ⟨hhead, hlast⟩
    refine ⟨fun c hc => ?_, fun c hc => ?_⟩
    · rw [hblank c (List.mem_of_head? hc)]
      exact fun heq => hhead (heq ▸ hc)
    · rw [hblank c (List.mem_of_getLast? hc)]
      exact fun heq => hlast (heq ▸ hc)

/-- The message is read as what was to be sent, with the values trimmed. -/
theorem AcceptableRequest.readsAs (h : AcceptableRequest host_header target headers) :
    ReadsAs ((requestLines host_header target headers).flatMap (· ++ CRLF)) (requestLine target)
      ((requestFields host_header headers).map fun f => (f.1, trimBlanks f.2)) := by
  refine ⟨fun i => ?_, (requestFields host_header headers).map writtenLine, h.crlfLines_eq,
    fun hnil => (h.lines.2 [] hnil).1 rfl, ?_, by rw [h.crlfLines_eq]⟩
  · obtain ⟨-, hend, hmin⟩ := findSub_eq_some_iff.mp h.findSub_eq
    generalize (requestLines host_header target headers).flatMap (· ++ CRLF) = msg at hend hmin ⊢
    have hfour : CRLFCRLF.length = 4 := rfl
    constructor
    · intro hi
      -- An occurrence is not before the first one, and it fits into the message.
      have hle := hi.length_le
      rw [List.length_drop, hfour] at hle
      have hge : ¬ i < msg.length - 4 := fun hlt => hmin i hlt hi
      omega
    · intro hi
      rwa [← hi, Nat.add_sub_cancel] at hend
  · rw [List.map_map]
    exact List.map_congr_left fun f hf => (h.sendable f hf).readField_writtenLine

end Accepted

/-- The message of an accepted request has one reading: the request line, one `Host` field, the
caller's fields in order with their values trimmed, and `Connection: close`; no other field frames
it. The host that is read is the given one unless that starts or ends with a tab. A request that is
not accepted is refused before any I/O. -/
theorem buildRequest_read (host_header target : Bytes) (headers : HeaderList) :
    (∀ (msg : Bytes) (token_bearing : Bool),
      buildRequest host_header target headers = .ok (msg, token_bearing) →
      ∃ fields : HeaderList,
        fields = (ascii "Host", trimBlanks host_header) ::
          (headers.map (fun f => (f.1, trimBlanks f.2)) ++ [(ascii "Connection", ascii "close")]) ∧
        ReadsAs msg (ascii "GET " ++ target ++ ascii " HTTP/1.1") fields ∧
        (trimBlanks host_header = host_header ↔
          host_header.head? ≠ some HT ∧ host_header.getLast? ≠ some HT) ∧
        valuesOf fields (ascii "host") = [trimBlanks host_header] ∧
        valuesOf fields (ascii "connection") = [ascii "close"] ∧
        valuesOf fields (ascii "content-length") = [] ∧
        valuesOf fields (ascii "transfer-encoding") = []) ∧
      ∀ e : Bytes, buildRequest host_header target headers = .error e →
        ∀ (max_head max_body : ℕ) (net : Network),
          rawHttpGet host_header target headers max_head max_body net = .error e := by
  constructor
  · intro msg token_bearing hbuild
    obtain ⟨hok, rfl⟩ := buildRequest_eq hbuild
    -- The reserved names are refused among the caller's fields, so each has the client's value.
    refine ⟨_, ?_, hok.readsAs, hok.trimBlanks_host_iff, ?_, ?_, ?_, ?_⟩
    · rw [requestFields, List.map_cons, List.map_append]
      rfl
    · rw [hok.valuesOf_reserved (by decide)]
      rfl
    · rw [hok.valuesOf_reserved (by decide)]
      rfl
    · rw [hok.valuesOf_reserved (by decide)]
      rfl
    · rw [hok.valuesOf_reserved (by decide)]
      rfl
  · intro e hbuild max_head max_body net
    unfold rawHttpGet
    rw [hbuild]
    rfl

/-- A host that starts with a tab is accepted and read as another host. -/
theorem buildRequest_read_tab :
    ∃ msg token_bearing,
      buildRequest (HT :: ascii "h") (ascii "/") [] = .ok (msg, token_bearing) ∧
        ((crlfLines msg).drop 1).head?.map readField = some (ascii "Host", ascii "h") ∧
        ascii "h" ≠ HT :: ascii "h" :=
  ⟨_, _, rfl, rfl, by decide⟩

/-! ## The writer -/

/-- What the socket accepts in each turn of the send loop from `off` on: it is offered the bytes
from `off` to the end, and takes some of the first. -/
def sentPieces (req : Bytes) : List SendEvent → ℕ → List Bytes
  | [], _ => []
  | ev :: evs, off =>
    if off < req.length then
      match ev with
      | .accepted n _ =>
        (req.drop off).take n :: sentPieces req evs (off + min n (req.length - off))
      | .eintr => sentPieces req evs off
      | .fault _ => []
    else []

/-- The bytes that the socket accepts over a whole exchange. -/
def acceptedBytes (req : Bytes) (net : Network) : Bytes :=
  match net.connect_error with
  | some _ => []
  | none => (sentPieces req net.sends 0).flatten

/-- The loop goes on from where it is, and not beyond the end. -/
theorem sendLoop_le {size : ℕ} (evs : List SendEvent) {off : ℕ} (h : off ≤ size) :
    (sendLoop size evs off).1 ≤ size := by
  induction evs generalizing off with
  | nil =>
    unfold sendLoop
    split_ifs
    · exact h
    · exact h
  | cons ev evs ih =>
    unfold sendLoop
    split_ifs with hoff
    · cases ev with
      | accepted n pos => exact ih (by omega)
      | eintr => exact ih h
      | fault f => exact h
    · exact h

/-- The pieces continue the bytes before `off` to a longer prefix of the message: each starts where
the one before it ended. -/
theorem flatten_sentPieces (req : Bytes) (evs : List SendEvent) (off : ℕ) :
    req.take off ++ (sentPieces req evs off).flatten = req.take (sendLoop req.length evs off).1 := by
  induction evs generalizing off with
  | nil =>
    have hoff : (sendLoop req.length [] off).1 = off := by
      unfold sendLoop
      split_ifs
      · rfl
      · rfl
    rw [hoff]
    exact List.append_nil _
  | cons ev evs ih =>
    unfold sentPieces sendLoop
    split_ifs with hoff
    · cases ev with
      | accepted n pos =>
        have hpiece : (req.drop off).take n = (req.drop off).take (min n (req.length - off)) := by
          rw [← List.length_drop, ← List.take_eq_take_min]
        dsimp only
        rw [List.flatten_cons, hpiece, ← List.append_assoc, ← List.take_add]
        exact ih _
      | eintr => exact ih off
      | fault f => exact List.append_nil _
    · exact List.append_nil _

/-- What an exchange notes of its request, and that it receives nothing unless all was sent. -/
structure Written (req : Bytes) (net : Network) (r : RawResponse) (rest : List RecvEvent) : Prop where
  accepted : acceptedBytes req net = req.take r.request_bytes
  bytes_le : r.request_bytes ≤ req.length
  sent_iff : r.request_sent = true ↔ r.request_bytes = req.length
  partial_iff : r.request_partial = true ↔ 0 < r.request_bytes ∧ r.request_bytes < req.length
  unsent : r.request_sent = false → rest = net.recvs ∧ r.head_complete = false ∧ r.head_bytes = [] ∧
    r.transport_error = true

/-- A request that can be built is not empty. -/
theorem buildRequest_length_pos {host_header target req : Bytes} {headers : HeaderList} {t : Bool}
    (h : buildRequest host_header target headers = .ok (req, t)) : 0 < req.length := by
  rw [(buildRequest_eq h).2, List.length_pos_iff]
  simp [requestLines, CRLF]

theorem parseHead_partly (r : RawResponse) :
    RawResponse.request_partial (parseHead r) = r.request_partial := by
  unfold parseHead
  split
  · rfl
  · split
    · rfl
    · split_ifs
      · rfl
      · rfl

theorem classifyFraming_partly (r : RawResponse) :
    RawResponse.request_partial (classifyFraming r) = r.request_partial := by
  unfold classifyFraming
  dsimp only
  split_ifs
  · rfl
  · rfl
  · rfl
  · split
    · rfl
    · rfl

theorem finishBody_partly (r : RawResponse) (max_body : ℕ) (b : Received) :
    RawResponse.request_partial (finishBody r max_body b) = r.request_partial := by
  unfold finishBody
  dsimp only
  cases r.framing <;> rfl

/-- Receiving does not make the request a partial one. -/
theorem receive_partly (max_head max_body : ℕ) (recvs : List RecvEvent) (r : RawResponse) :
    RawResponse.request_partial (receive max_head max_body recvs r).1 = r.request_partial := by
  unfold receive
  dsimp only
  cases (findSub CRLFCRLF (recvHead max_head recvs []).bytes).filter (· + 4 ≤ max_head) with
  | none => rfl
  | some i =>
    unfold receiveBody
    dsimp only
    split_ifs
    · exact parseHead_partly _
    · rw [finishBody_partly, classifyFraming_partly, parseHead_partly]

/-- The response says how much of the request was written. -/
theorem rawHttpGet_written {host_header target : Bytes} {headers : HeaderList}
    {max_head max_body : ℕ} {net : Network} {r : RawResponse} {rest : List RecvEvent}
    (h : rawHttpGet host_header target headers max_head max_body net = .ok (r, rest)) :
    ∃ req token_bearing, buildRequest host_header target headers = .ok (req, token_bearing) ∧
      Written req net r rest := by
  unfold rawHttpGet at h
  obtain ⟨⟨req, token_bearing⟩, hbuild, h⟩ := exists_of_bind_eq_ok h
  refine ⟨req, token_bearing, hbuild, ?_⟩
  have hpos := buildRequest_length_pos hbuild
  cases hconn : net.connect_error with
  | some e =>
    simp only [hconn, pure, Except.pure, Except.ok.injEq, Prod.mk.injEq] at h
    obtain ⟨rfl, rfl⟩ := h
    refine ⟨by rw [acceptedBytes, hconn]; rfl, Nat.zero_le _, ?_, ?_, fun _ => ⟨rfl, rfl, rfl, rfl⟩⟩
    · simpa using hpos.ne
    · simp
  | none =>
    have haccepted : acceptedBytes req net = req.take (sendLoop req.length net.sends 0).1 := by
      rw [acceptedBytes, hconn]
      exact flatten_sentPieces req net.sends 0
    have hle := sendLoop_le net.sends (Nat.zero_le req.length)
    simp only [hconn, pure, Except.pure] at h
    split_ifs at h with hoff
    · -- The loop gave up before the end, and nothing is received.
      obtain ⟨rfl, rfl⟩ := Prod.mk.inj (Except.ok.inj h)
      refine ⟨haccepted, hle, ?_, ?_, fun _ => ⟨rfl, rfl, rfl, rfl⟩⟩
      · simpa using hoff.ne
      · simpa using fun _ => hoff
    · have hr : (receive max_head max_body net.recvs (RawResponse.emitted {} token_bearing
          (sendLoop req.length net.sends 0).1)).1 = r := congrArg Prod.fst (Except.ok.inj h)
      have hpart : r.request_partial = false := by
        rw [← hr, receive_partly]
        rfl
      rw [receive_emitted] at hr
      have hsent : r.request_sent = true := by rw [← hr]; rfl
      have hbytes : r.request_bytes = (sendLoop req.length net.sends 0).1 := by rw [← hr]; rfl
      refine ⟨hbytes ▸ haccepted, hbytes ▸ hle, ?_, ?_, fun hno => absurd hsent (by simp [hno])⟩
      · exact ⟨fun _ => by omega, fun _ => hsent⟩
      · rw [hpart, hbytes]
        simp [hoff]

/-- The writer emits a prefix of the message once: what the socket accepts over the whole call,
whatever each `send` does, is the first `request_bytes` bytes in order. The request counts as sent
exactly if that is all of it, as partly sent exactly if it is some of it but not all; and unless it
was sent, nothing is received and the call reports an error of the transport. -/
theorem rawHttpGet_emits {host_header target req : Bytes} {headers : HeaderList} {token_bearing : Bool}
    (hbuild : buildRequest host_header target headers = .ok (req, token_bearing))
    (max_head max_body : ℕ) (net : Network) :
    ∃ r rest, rawHttpGet host_header target headers max_head max_body net = .ok (r, rest) ∧
      acceptedBytes req net = req.take r.request_bytes ∧
      (acceptedBytes req net).length = r.request_bytes ∧
      (r.request_sent = true ↔ acceptedBytes req net = req) ∧
      ( r.request_partial = true ↔ acceptedBytes req net ≠ [] ∧ acceptedBytes req net ≠ req) ∧
      ¬ (r.request_sent = true ∧ r.request_partial = true) ∧
      (r.request_sent = false → rest = net.recvs ∧ r.head_complete = false ∧ r.head_bytes = [] ∧
        r.transport_error = true) := by
  obtain ⟨⟨r, rest⟩, hget⟩ : ∃ out,
      rawHttpGet host_header target headers max_head max_body net = .ok out := by
    unfold rawHttpGet
    rw [hbuild]
    simp only [bind, Except.bind, pure, Except.pure]
    split
    · exact ⟨_, rfl⟩
    · split_ifs
      · exact ⟨_, rfl⟩
      · exact ⟨_, rfl⟩
  obtain ⟨req', t, hbuild', hw⟩ := rawHttpGet_written hget
  obtain ⟨rfl, -⟩ := Prod.mk.inj (Except.ok.inj (hbuild.symm.trans hbuild'))
  have hlen : (acceptedBytes req net).length = r.request_bytes := by
    rw [hw.accepted, List.length_take, Nat.min_eq_left hw.bytes_le]
  -- All bytes were accepted exactly if as many as the message has.
  have hall : acceptedBytes req net = req ↔ r.request_bytes = req.length := by
    rw [hw.accepted, List.take_eq_self_iff]
    exact ⟨fun hge => le_antisymm hw.bytes_le hge, fun heq => heq.ge⟩
  have hnone : acceptedBytes req net = [] ↔ r.request_bytes = 0 := by
    rw [← List.length_eq_zero_iff, hlen]
  have hle := hw.bytes_le
  refine ⟨r, rest, hget, hw.accepted, hlen, hw.sent_iff.trans hall.symm, ?_, ?_, hw.unsent⟩
  · rw [hw.partial_iff, ne_eq, ne_eq, hall, hnone]
    omega
  · rw [hw.sent_iff, hw.partial_iff]
    omega

/-- A network that takes three bytes, is interrupted, and then lets the deadline pass. -/
def stalledNetwork : Network :=
  { sends := [.accepted 3 (by decide), .eintr, .fault .expired], recvs := [.recv (ascii "late")] }

theorem rawHttpGet_emits_three_bytes :
    ∃ req r, buildRequest (ascii "h") (ascii "/") [] = .ok (req, false) ∧
      rawHttpGet (ascii "h") (ascii "/") [] 4096 4096 stalledNetwork = .ok (r, stalledNetwork.recvs) ∧
      acceptedBytes req stalledNetwork = ascii "GET" ∧ r.request_partial = true := by
  have hbuild : buildRequest (ascii "h") (ascii "/") [] = .ok (_, false) := rfl
  obtain ⟨r, rest, hget, -, -, hsent, hpart, -, hunsent⟩ :=
    rawHttpGet_emits hbuild 4096 4096 stalledNetwork
  refine ⟨_, r, rfl, ?_, rfl, hpart.mpr ⟨by decide, by decide⟩⟩
  have hno : r.request_sent = false := by
    rw [← Bool.not_eq_true, hsent]
    decide
  rw [hget, (hunsent hno).1]

end S3Rdma
