import S3Rdma.Common.CompletionAuthority
import S3Rdma.Http.Head

/-!
# What a qualified receipt is, in bytes

The completion authority decides from what is left of an exchange after two receive loops, the head
parser, the framing classifier and the field counters. This module follows the chain back to the
bytes: if the answer is yes, the bytes that the socket delivered are one strict head and one body
that the head frames, without any failure on the way (`completionAuthority_sound`).
-/

namespace S3Rdma

/-- The bytes that arrived in some turns of a receive loop. -/
def receivedBytes (evs : List RecvEvent) : Bytes :=
  evs.flatMap fun
    | .recv bytes => bytes
    | _ => []

/-- A turn that ended with an error or an expired deadline. -/
def RecvEvent.isFault : RecvEvent → Bool
  | .fault _ => true
  | _ => false

/-! ## The receive loops -/

/-- The loop that receives the head appends what arrives, and without an error it met none. -/
theorem recvHead_spec (max_head : ℕ) (evs : List RecvEvent) (buf : Bytes) :
    ∃ used, evs = used ++ (recvHead max_head evs buf).rest ∧
      (recvHead max_head evs buf).bytes = buf ++ receivedBytes used ∧
      ((recvHead max_head evs buf).error = none → ∀ ev ∈ used, ev.isFault = false) := by
  -- One case per way the loop ends or goes on; the turns it used are rebuilt from the front.
  fun_induction recvHead max_head evs buf with
  | case1 buf h => exact ⟨[], rfl, (List.append_nil _).symm, by simp⟩
  | case2 buf h => exact ⟨[], rfl, (List.append_nil _).symm, by simp⟩
  | case3 buf evs h ih =>
    obtain ⟨used, hevs, hbytes, hok⟩ := ih
    refine ⟨.eintr :: used, by rw [List.cons_append, ← hevs], hbytes, fun he ev hev => ?_⟩
    rcases List.mem_cons.mp hev with rfl | hev
    · rfl
    · exact hok he ev hev
  | case4 buf evs h f => exact ⟨[.fault f], rfl, (List.append_nil _).symm, by simp⟩
  | case5 buf evs h => exact ⟨[.recv []], rfl, (List.append_nil _).symm, by simp [RecvEvent.isFault]⟩
  | case6 buf evs h bytes hne i hi =>
    exact ⟨[.recv bytes], rfl, by simp [receivedBytes], by simp [RecvEvent.isFault]⟩
  | case7 buf evs h bytes hne hnone ih =>
    obtain ⟨used, hevs, hbytes, hok⟩ := ih
    refine ⟨.recv bytes :: used, by rw [List.cons_append, ← hevs], ?_, fun he ev hev => ?_⟩
    · rw [hbytes, List.append_assoc]
      rfl
    · rcases List.mem_cons.mp hev with rfl | hev
      · rfl
      · exact hok he ev hev
  | case8 buf ev evs h => exact ⟨[], rfl, (List.append_nil _).symm, by simp⟩

/-- A head is found only in what has just arrived, so there was no error. -/
theorem recvHead_found {max_head : ℕ} {evs : List RecvEvent} {buf : Bytes} {i : ℕ}
    (hbuf : findSub CRLFCRLF buf = none)
    (h : findSub CRLFCRLF (recvHead max_head evs buf).bytes = some i) :
    (recvHead max_head evs buf).error = none := by
  fun_induction recvHead max_head evs buf with
  | case1 buf _ => simp [hbuf] at h
  | case2 buf _ => rfl
  | case3 buf evs _ ih => exact ih hbuf h
  | case4 buf evs _ f => simp [hbuf] at h
  | case5 buf evs _ => rfl
  | case6 buf evs _ bytes _ i _ => rfl
  | case7 buf evs _ bytes _ hnone ih => exact ih hnone h
  | case8 buf ev evs _ => rfl

/-- The loop that receives the body appends what arrives; without an error it met none, and when it
saw the end of the stream that was its last turn. -/
theorem recvBody_spec (done : ℕ → Bool) (max_body : ℕ) (evs : List RecvEvent) (body : Bytes) :
    ∃ used, evs = used ++ (recvBody done max_body evs body).rest ∧
      (recvBody done max_body evs body).bytes = body ++ receivedBytes used ∧
      ((recvBody done max_body evs body).error = none → ∀ ev ∈ used, ev.isFault = false) ∧
      ((recvBody done max_body evs body).eof = true → ∃ before, used = before ++ [.recv []]) := by
  fun_induction recvBody done max_body evs body with
  | case1 body h => exact ⟨[], rfl, (List.append_nil _).symm, by simp, by simp⟩
  | case2 body h => exact ⟨[], rfl, (List.append_nil _).symm, by simp, by simp⟩
  | case3 body ev evs h => exact ⟨[], rfl, (List.append_nil _).symm, by simp, by simp⟩
  | case4 body evs h ih =>
    obtain ⟨used, hevs, hbytes, hok, heof⟩ := ih
    refine ⟨.eintr :: used, by rw [List.cons_append, ← hevs], hbytes, fun he ev hev => ?_,
      fun he => ?_⟩
    · rcases List.mem_cons.mp hev with rfl | hev
      · rfl
      · exact hok he ev hev
    · obtain ⟨before, hb⟩ := heof he
      exact ⟨.eintr :: before, by rw [hb, List.cons_append]⟩
  | case5 body evs h f => exact ⟨[.fault f], rfl, (List.append_nil _).symm, by simp, by simp⟩
  -- An empty `recv` is the end of the stream: the only case that sets `eof`.
  | case6 body evs h =>
    exact ⟨[.recv []], rfl, (List.append_nil _).symm, by simp [RecvEvent.isFault], fun _ => ⟨[], rfl⟩⟩
  | case7 body evs h bytes hne ih =>
    obtain ⟨used, hevs, hbytes, hok, heof⟩ := ih
    refine ⟨.recv bytes :: used, by rw [List.cons_append, ← hevs], ?_, fun he ev hev => ?_,
      fun he => ?_⟩
    · rw [hbytes, List.append_assoc]
      rfl
    · rcases List.mem_cons.mp hev with rfl | hev
      · rfl
      · exact hok he ev hev
    · obtain ⟨before, hb⟩ := heof he
      exact ⟨.recv bytes :: before, by rw [hb, List.cons_append]⟩

/-! ## The framing -/

/-- The length that the fields agree on is that of each `Content-Length` field. -/
theorem agreedLength_eq {fs : List RawField} {v : Option ℕ} {x : ℕ}
    (h : agreedLength fs v = some x) :
    (∀ f ∈ fs, f.lower_name = ascii "content-length" → parseDecimal f.value = some x) ∧
      ∀ y, v = some y → y = x := by
  induction fs generalizing v with
  | nil =>
    refine ⟨by simp, ?_⟩
    rintro y rfl
    exact Option.some.inj h
  | cons f fs ih =>
    unfold agreedLength at h
    -- A `Content-Length` field must agree with the length found so far; the others are skipped.
    by_cases hcl : f.lower_name = ascii "content-length"
    · rw [if_pos hcl] at h
      cases hp : parseDecimal f.value with
      | none => simp [hp] at h
      | some y =>
        simp only [hp] at h
        split_ifs at h with hne
        obtain ⟨hall, hy⟩ := ih h
        obtain rfl := hy y rfl
        constructor
        · intro g hg hgcl
          rcases List.mem_cons.mp hg with rfl | hg
          · exact hp
          · exact hall g hg hgcl
        · rintro z rfl
          simp only [Option.any_some, ne_eq, decide_not, Bool.not_eq_true', decide_eq_false_iff_not,
            not_not] at hne
          exact hne.symm
    · rw [if_neg hcl] at h
      obtain ⟨hall, hy⟩ := ih h
      refine ⟨?_, hy⟩
      intro g hg hgcl
      rcases List.mem_cons.mp hg with rfl | hg
      · exact absurd hgcl hcl
      · exact hall g hg hgcl

/-- There is no field of a name that is counted zero times. -/
theorem RawResponse.count_eq_zero_iff {r : RawResponse} {lower_name : Bytes} :
    r.count lower_name = 0 ↔ ∀ f ∈ r.fields, f.lower_name ≠ lower_name := by
  simp [RawResponse.count, List.countP_eq_zero]

/-- The two framings that can qualify, and what they say about the fields. -/
theorem classifyFraming_sound (r : RawResponse) :
    ((classifyFraming r).framing = .contentLength →
      (∀ f ∈ r.fields, f.lower_name ≠ ascii "transfer-encoding") ∧
      (∃ f ∈ r.fields, f.lower_name = ascii "content-length") ∧
      ∃ v : ℕ, (classifyFraming r).content_length = v ∧
        ∀ f ∈ r.fields, f.lower_name = ascii "content-length" → parseDecimal f.value = some v) ∧
    ((classifyFraming r).framing = .closeDelimited →
      (∀ f ∈ r.fields, f.lower_name ≠ ascii "transfer-encoding") ∧
      ∀ f ∈ r.fields, f.lower_name ≠ ascii "content-length") := by
  unfold classifyFraming
  dsimp only
  by_cases hte : r.count (ascii "transfer-encoding") > 0
  · rw [if_pos hte]
    -- With a `Transfer-Encoding` the framing is chunked or invalid, never one of the two.
    constructor <;> intro h <;> exfalso <;> revert h <;> dsimp only <;> split_ifs <;> simp
  · rw [if_neg hte]
    have hte' := RawResponse.count_eq_zero_iff.mp (Nat.eq_zero_of_not_pos hte)
    by_cases hcl : r.count (ascii "content-length") = 0
    · rw [if_pos hcl]
      exact ⟨by simp, fun _ => ⟨hte', RawResponse.count_eq_zero_iff.mp hcl⟩⟩
    · rw [if_neg hcl]
      cases hv : agreedLength r.fields none with
      | none => exact ⟨by simp, by simp⟩
      | some v =>
        refine ⟨fun _ => ⟨hte', ?_, v, rfl, (agreedLength_eq hv).1⟩, by simp⟩
        by_contra hno
        push Not at hno
        exact hcl (RawResponse.count_eq_zero_iff.mpr hno)

/-- A decimal that is accepted is a string of digits, and denotes its value. -/
theorem parseDecimal_sound {s : Bytes} {v : ℕ} (h : parseDecimal s = some v) :
    s ≠ [] ∧ s.all isDigit = true ∧ decimalValue s = v := by
  unfold parseDecimal at h
  split_ifs at h with hlen hdig
  simp only [Bool.or_eq_true, List.isEmpty_iff, not_or] at hlen
  exact ⟨hlen.1, hdig, Option.some.inj h⟩

/-! ## The receipt -/

/-- What the authority stands for: the bytes that arrived in the turns `used` of the receive loops
are a strict head and a body that it frames, and the head's fields answer a request for `requested`
bytes of which `expected` are to land. -/
structure QualifiedReceipt (used : List RecvEvent) (max_head max_body expected requested : ℕ)
    (encoding : TokenEncoding) (head body : Bytes) (status : ℕ) (fields : List (Bytes × Bytes)) :
    Prop where
  received : receivedBytes used = head ++ body
  /-- The head ends at the first CRLFCRLF. -/
  head_end : findSub CRLFCRLF (receivedBytes used) = some (head.length - 4)
  head_le : head.length ≤ max_head
  strict : StrictHead head status fields
  status_ok : status = 200 ∨ status = 206
  no_transfer_encoding : valuesOf fields (ascii "transfer-encoding") = []
  /-- Every `Content-Length` field is a decimal of the body's length, or there is none and the end
  of the stream was observed after the body. -/
  framed : (valuesOf fields (ascii "content-length") ≠ [] ∧
      ∀ v ∈ valuesOf fields (ascii "content-length"),
        v ≠ [] ∧ v.all isDigit = true ∧ decimalValue v = body.length) ∨
    (valuesOf fields (ascii "content-length") = [] ∧ ∃ before, used = before ++ [.recv []])
  body_le : body.length ≤ max_body
  no_fault : ∀ ev ∈ used, ev.isFault = false
  /-- The one reply field has three digits, and answers as the token's convention says. -/
  reply : ∃ v, valuesOf fields kHdrRdmaReply = [v] ∧ v.length = 3 ∧ v.all isDigit = true ∧
    match encoding with
    | .base64 => decimalValue v = 200 ∧ expected = requested
    | .verbatim => decimalValue v = status ∧ body = []
  /-- The one count field has one to twenty digits that denote the expected length. -/
  count : ∃ v, valuesOf fields kHdrRdmaBytesTransferred = [v] ∧ 1 ≤ v.length ∧ v.length ≤ 20 ∧
    v.all isDigit = true ∧ decimalValue v = expected
  expected_le : expected ≤ requested

/-- The reply as the authority computes it from its three digits. -/
theorem threeDigits_eq {s : Bytes} (h : s.length = 3) :
    decimalDigit (s.getD 0 0) * 100 + decimalDigit (s.getD 1 0) * 10 + decimalDigit (s.getD 2 0) =
      decimalValue s := by
  obtain ⟨d₁, d₂, d₃, rfl⟩ := List.length_eq_three.mp h
  simp only [decimalValue, digitsValue, List.map_cons, List.map_nil, List.foldl_cons,
    List.foldl_nil, List.getD_cons_zero, List.getD_cons_succ]
  ring

/-- The parts of the response that the decision needs, when it is yes. -/
theorem completionAuthority_view {r : RawResponse} {proto : ProtocolOptions}
    {expected requested : ℕ}
    (h : completionAuthority (viewReceipt r requested) proto expected requested = true) :
    (r.head_complete = true ∧ r.head_malformed = false ∧ r.message_complete = true ∧
      r.transport_error = false ∧ r.body_truncated = false) ∧
    (r.status = 200 ∨ r.status = 206) ∧
    (r.count kHdrRdmaReply = 1 ∧ (r.firstValue kHdrRdmaReply).length = 3 ∧
      (r.firstValue kHdrRdmaReply).all isDigit = true) ∧
    (r.count kHdrRdmaBytesTransferred = 1 ∧
      plainDigits (r.firstValue kHdrRdmaBytesTransferred) 1 20 = true) ∧
    parseRdmaBytesTransferred (some (r.firstValue kHdrRdmaBytesTransferred)) requested = expected ∧
    match proto.token_encoding with
    | .base64 => decimalValue (r.firstValue kHdrRdmaReply) = 200 ∧ expected = requested
    | .verbatim => decimalValue (r.firstValue kHdrRdmaReply) = r.status ∧ r.body_content = 0 := by
  unfold completionAuthority at h
  dsimp only at h
  -- Only the branch in which every check passes can answer yes.
  split_ifs at h with hcomplete hstatus hplain hdeclared
  simp only [viewReceipt, Bool.not_eq_true', Bool.not_eq_false, Bool.and_eq_true, Bool.or_eq_true,
    not_or, beq_iff_eq, not_and_or, not_not, ne_eq, not_lt] at hcomplete hstatus hplain hdeclared h
  obtain ⟨⟨⟨⟨hhead, hmal⟩, hmsg⟩, htr⟩, htrunc⟩ := hcomplete
  obtain ⟨⟨hrc, hrp⟩, hcc, hcp⟩ := hplain
  obtain ⟨-, hdecl⟩ := hdeclared
  rw [hcc, if_pos Nat.one_pos] at hdecl
  have hrp' : (r.firstValue kHdrRdmaReply).length = 3 ∧
      (r.firstValue kHdrRdmaReply).all isDigit = true := by
    simp only [plainDigits, Bool.and_eq_true, decide_eq_true_eq] at hrp
    exact ⟨by omega, hrp.2⟩
  refine ⟨⟨hhead, hmal, hmsg, htr, htrunc⟩, hstatus, ⟨hrc, hrp'⟩, ⟨hcc, hcp⟩, hdecl, ?_⟩
  -- The reply is computed from its three digits; the token's encoding decides what it must be.
  rw [← threeDigits_eq hrp'.1]
  cases henc : proto.token_encoding with
  | base64 =>
    rw [henc] at h
    exact of_decide_eq_true h
  | verbatim =>
    rw [henc] at h
    exact of_decide_eq_true h

/-- The values of a field name in terms of the response's own counters. -/
theorem valuesOf_pairs {fields : List RawField} (hlow : ∀ f ∈ fields, f.lower_name = lower f.name)
    (lower_name : Bytes) :
    valuesOf (fields.map RawField.pair) lower_name =
      (fields.filter fun f => f.lower_name == lower_name).map RawField.value := by
  unfold valuesOf
  rw [List.filter_map, List.map_map]
  have hfilter : fields.filter ((fun f : Bytes × Bytes => lower f.1 == lower_name) ∘ RawField.pair) =
      fields.filter fun f => f.lower_name == lower_name := by
    apply List.filter_congr
    intro f hf
    rw [hlow f hf]
    rfl
  rw [hfilter]
  rfl

/-- A name that is counted once has one value, that of its first field. -/
theorem valuesOf_eq_singleton {r : RawResponse}
    (hlow : ∀ f ∈ r.fields, f.lower_name = lower f.name) {lower_name : Bytes}
    (h : r.count lower_name = 1) :
    valuesOf (r.fields.map RawField.pair) lower_name = [r.firstValue lower_name] := by
  rw [valuesOf_pairs hlow]
  unfold RawResponse.count at h
  rw [List.countP_eq_length_filter] at h
  obtain ⟨f, hf⟩ := List.length_eq_one_iff.mp h
  have hfirst : r.first lower_name = some f := by
    unfold RawResponse.first
    rw [← List.head?_filter, hf]
    rfl
  rw [hf, RawResponse.firstValue, hfirst]
  rfl

/-- A name that no field has, has no value. -/
theorem valuesOf_eq_nil {fields : List RawField} (hlow : ∀ f ∈ fields, f.lower_name = lower f.name)
    {lower_name : Bytes} (h : ∀ f ∈ fields, f.lower_name ≠ lower_name) :
    valuesOf (fields.map RawField.pair) lower_name = [] := by
  rw [valuesOf_pairs hlow, List.map_eq_nil_iff, List.filter_eq_nil_iff]
  intro f hf
  simpa using h f hf

/-- Classifying the framing changes nothing but the framing. -/
theorem classifyFraming_frame (r : RawResponse) :
    (classifyFraming r).fields = r.fields ∧ (classifyFraming r).status = r.status ∧
      (classifyFraming r).head_bytes = r.head_bytes ∧
      (classifyFraming r).transport_error = r.transport_error := by
  unfold classifyFraming
  dsimp only
  split_ifs
  · exact ⟨rfl, rfl, rfl, rfl⟩
  · exact ⟨rfl, rfl, rfl, rfl⟩
  · exact ⟨rfl, rfl, rfl, rfl⟩
  · split <;> exact ⟨rfl, rfl, rfl, rfl⟩

/-- Finishing the body changes nothing that was read from the head. -/
theorem finishBody_frame (r : RawResponse) (max_body : ℕ) (b : Received) :
    (finishBody r max_body b).fields = r.fields ∧ (finishBody r max_body b).status = r.status ∧
      (finishBody r max_body b).head_malformed = r.head_malformed ∧
      (finishBody r max_body b).body_truncated = decide (max_body < b.bytes.length) ∧
      (finishBody r max_body b).transport_error = (r.transport_error || b.error.isSome) := by
  unfold finishBody
  dsimp only
  split <;> exact ⟨rfl, rfl, rfl, rfl, rfl⟩

/-- A message that was received whole: its framing is one of the two that qualify, and its body is
as long as that says. -/
theorem finishBody_complete {r : RawResponse} {max_body : ℕ} {b : Received}
    (h : (finishBody r max_body b).message_complete = true) :
    b.error = none ∧ b.bytes.length ≤ max_body ∧
      (finishBody r max_body b).body_content = b.bytes.length ∧
      ((r.framing = .contentLength ∧ r.content_length = b.bytes.length) ∨
        (r.framing = .closeDelimited ∧ b.eof = true)) := by
  unfold finishBody at h ⊢
  dsimp only at h ⊢
  cases hf : r.framing with
  | contentLength =>
    simp only [hf, Bool.and_eq_true, Option.isNone_iff_eq_none, Bool.not_eq_true',
      decide_eq_false_iff_not, not_lt, decide_eq_true_eq] at h ⊢
    obtain ⟨⟨herr, hle⟩, hlen⟩ := h
    rw [min_eq_left hle] at hlen ⊢
    exact ⟨herr, hle, rfl, .inl ⟨trivial, hlen⟩⟩
  | closeDelimited =>
    simp only [hf, Bool.and_eq_true, Option.isNone_iff_eq_none, Bool.not_eq_true',
      decide_eq_false_iff_not, not_lt] at h ⊢
    obtain ⟨⟨heof, herr⟩, hle⟩ := h
    rw [min_eq_left hle]
    exact ⟨herr, hle, rfl, .inr ⟨trivial, heof⟩⟩
  | unset => simp [hf] at h
  | chunkedUnqualified => simp [hf] at h
  | invalid => simp [hf] at h

/-- The values of the fields of a name, when they are all accepted as one number. -/
theorem valuesOf_decimal {fields : List RawField} (hlow : ∀ f ∈ fields, f.lower_name = lower f.name)
    {lower_name : Bytes} {n : ℕ} (hex : ∃ f ∈ fields, f.lower_name = lower_name)
    (h : ∀ f ∈ fields, f.lower_name = lower_name → parseDecimal f.value = some n) :
    valuesOf (fields.map RawField.pair) lower_name ≠ [] ∧
      ∀ v ∈ valuesOf (fields.map RawField.pair) lower_name,
        v ≠ [] ∧ v.all isDigit = true ∧ decimalValue v = n := by
  rw [valuesOf_pairs hlow]
  constructor
  · obtain ⟨f, hf, hname⟩ := hex
    rw [ne_eq, List.map_eq_nil_iff, List.filter_eq_nil_iff]
    exact fun hall => hall f hf (by simpa using hname)
  · intro v hv
    obtain ⟨f, hf, rfl⟩ := List.mem_map.mp hv
    obtain ⟨hmem, hname⟩ := List.mem_filter.mp hf
    exact parseDecimal_sound (h f hmem (by simpa using hname))

/-- From a complete head on, a qualified receipt: the head is strict, and the body is what arrived
with it and after it. -/
theorem receiveBody_sound {max_body : ℕ} {head body₀ : Bytes} {recvs : List RecvEvent}
    {r₀ : RawResponse} {proto : ProtocolOptions} {expected requested : ℕ}
    (hend : findSub CRLFCRLF head = some (head.length - 4))
    (h : completionAuthority (viewReceipt (receiveBody max_body head body₀ recvs r₀).1 requested)
      proto expected requested = true) :
    ∃ used status fields, recvs = used ++ (receiveBody max_body head body₀ recvs r₀).2 ∧
      ∀ used₁, receivedBytes used₁ = head ++ body₀ → (∀ ev ∈ used₁, ev.isFault = false) →
        ∀ max_head, head.length ≤ max_head →
          QualifiedReceipt (used₁ ++ used) max_head max_body expected requested proto.token_encoding
            head (body₀ ++ receivedBytes used) status fields := by
  obtain ⟨⟨-, hmal, hmsg, -, -⟩, hstatus, ⟨hrc, hr3, hrd⟩, ⟨hcc, hcp⟩, hdecl, henc⟩ :=
    completionAuthority_view h
  -- The four stages, each replaced by its specification: parse, classify, receive, finish.
  unfold receiveBody at *
  dsimp only at *
  have hparse := parseHead_sound (r := { r₀ with head_complete := true, head_bytes := head }) hend
  generalize parseHead { r₀ with head_complete := true, head_bytes := head } = r₁ at *
  by_cases hm : r₁.head_malformed = true
  · simp [hm] at hmal
  · rw [if_neg hm] at *
    obtain ⟨hstrict, hlow⟩ := hparse (by simpa using hm)
    obtain ⟨hf₁, hs₁, -, -⟩ := classifyFraming_frame r₁
    obtain ⟨hcl, hcd⟩ := classifyFraming_sound r₁
    generalize classifyFraming r₁ = r₂ at *
    obtain ⟨used, hused, hbytes, hok, heof⟩ := recvBody_spec r₂.bodyDone max_body recvs body₀
    generalize recvBody r₂.bodyDone max_body recvs body₀ = b at *
    obtain ⟨hf₂, hs₂, -, -, -⟩ := finishBody_frame r₂ max_body b
    obtain ⟨herr, hle, hcontent, hframe⟩ := finishBody_complete hmsg
    generalize finishBody r₂ max_body b = r at *
    -- The later stages keep the fields and the status of the parsed head.
    have hfields : r.fields = r₁.fields := hf₂.trans hf₁
    have hlow' : ∀ f ∈ r.fields, f.lower_name = lower f.name := by rwa [hfields]
    have hstat : r.status = r₁.status := hs₂.trans hs₁
    refine ⟨used, r.status, r.fields.map RawField.pair, hused, ?_⟩
    intro used₁ hrecv hnf max_head hcap
    -- All bytes received are the head and the body.
    have hall : receivedBytes (used₁ ++ used) = head ++ (body₀ ++ receivedBytes used) := by
      rw [receivedBytes, List.flatMap_append, ← List.append_assoc, ← hrecv]
      rfl
    -- The count field is nonempty, so its value is that of its digits.
    have hplain : 1 ≤ (r.firstValue kHdrRdmaBytesTransferred).length ∧
        (r.firstValue kHdrRdmaBytesTransferred).length ≤ 20 := by
      simp only [plainDigits, Bool.and_eq_true, decide_eq_true_eq] at hcp
      exact hcp.1
    have hne : r.firstValue kHdrRdmaBytesTransferred ≠ [] := List.length_pos_iff.mp hplain.1
    obtain ⟨hcd', hvalue, hexp⟩ := parseRdmaBytesTransferred_eq hne hdecl
    rw [hbytes] at hle hframe hcontent
    have hte : ∀ f ∈ r.fields, f.lower_name ≠ ascii "transfer-encoding" := by
      rw [hfields]
      rcases hframe with ⟨hf, -⟩ | ⟨hf, -⟩
      · exact (hcl hf).1
      · exact (hcd hf).1
    exact {
      received := hall
      head_end := by
        rw [hall]
        exact findSub_append _ hend
      head_le := hcap
      strict := by
        rw [hfields, hstat]
        exact hstrict
      status_ok := hstatus
      no_transfer_encoding := valuesOf_eq_nil hlow' hte
      framed := by
        rcases hframe with ⟨hf, hlen⟩ | ⟨hf, hb⟩
        · obtain ⟨-, hex, v, hv, hdec⟩ := hcl hf
          obtain rfl : v = (body₀ ++ receivedBytes used).length := by
            rw [hv] at hlen
            exact_mod_cast hlen
          rw [← hfields] at hex hdec
          exact .inl (valuesOf_decimal hlow' hex hdec)
        · obtain ⟨before, hbefore⟩ := heof hb
          refine .inr ⟨valuesOf_eq_nil hlow' (by rw [hfields]; exact (hcd hf).2),
            used₁ ++ before, ?_⟩
          rw [hbefore, List.append_assoc]
      body_le := hle
      no_fault := by
        intro ev hev
        rcases List.mem_append.mp hev with hev | hev
        · exact hnf ev hev
        · exact hok herr ev hev
      reply := by
        refine ⟨_, valuesOf_eq_singleton hlow' hrc, hr3, hrd, ?_⟩
        cases hpe : proto.token_encoding with
        | base64 =>
          rw [hpe] at henc
          exact henc
        | verbatim =>
          rw [hpe, hcontent] at henc
          exact ⟨henc.1, List.eq_nil_of_length_eq_zero henc.2⟩
      count := ⟨_, valuesOf_eq_singleton hlow' hcc, hplain.1, hplain.2, hcd', hvalue⟩
      expected_le := hexp }

/-- The receive loops of an exchange whose receipt is qualified. -/
theorem receive_sound {max_head max_body : ℕ} {recvs : List RecvEvent} {r₀ : RawResponse}
    {proto : ProtocolOptions} {expected requested : ℕ} (h₀ : r₀.head_complete = false)
    (h : completionAuthority (viewReceipt (receive max_head max_body recvs r₀).1 requested) proto
      expected requested = true) :
    ∃ used head body status fields, recvs = used ++ (receive max_head max_body recvs r₀).2 ∧
      QualifiedReceipt used max_head max_body expected requested proto.token_encoding head body
        status fields := by
  obtain ⟨used₁, hused₁, hbytes₁, hok₁⟩ := recvHead_spec max_head recvs []
  have hfound : ∀ i, findSub CRLFCRLF (recvHead max_head recvs []).bytes = some i →
      (recvHead max_head recvs []).error = none := fun i => recvHead_found rfl
  unfold receive at h ⊢
  dsimp only at h ⊢
  generalize recvHead max_head recvs [] = hd at *
  cases hend : (findSub CRLFCRLF hd.bytes).filter (· + 4 ≤ max_head) with
  -- Without the end of a head the response stays incomplete, which the authority refuses.
  | none =>
    simp only [hend] at h
    have hc := (completionAuthority_view h).1.1
    exact absurd (hc.symm.trans h₀) (by decide)
  | some i =>
    simp only [hend] at h ⊢
    obtain ⟨hi, hcap⟩ := Option.filter_eq_some_iff.mp hend
    have hcap : i + 4 ≤ max_head := of_decide_eq_true hcap
    -- The blank line found is the last four bytes of the head that is cut off.
    have hin : i + 4 ≤ hd.bytes.length := findSub_add_length_le hi
    have hlen : (hd.bytes.take (i + 4)).length = i + 4 := by
      rw [List.length_take]
      omega
    have hfirst : findSub CRLFCRLF (hd.bytes.take (i + 4)) =
        some ((hd.bytes.take (i + 4)).length - 4) := by
      rw [hlen]
      exact findSub_take hi le_rfl
    obtain ⟨used₂, status, fields, hused₂, hq⟩ := receiveBody_sound hfirst h
    refine ⟨used₁ ++ used₂, _, _, status, fields, ?_, hq used₁ ?_ (hok₁ (hfound i hi)) max_head ?_⟩
    · rw [List.append_assoc, ← hused₂, ← hused₁]
    · rw [List.take_append_drop, hbytes₁, List.nil_append]
    · omega

/-- Soundness of the completion authority, in bytes. -/
theorem completionAuthority_sound {host_header target : Bytes} {headers : HeaderList}
    {max_head max_body : ℕ} {net : Network} {r : RawResponse} {rest : List RecvEvent}
    {proto : ProtocolOptions} {expected requested : ℕ}
    (hget : rawHttpGet host_header target headers max_head max_body net = .ok (r, rest))
    (h : completionAuthority (viewReceipt r requested) proto expected requested = true) :
    ∃ used head body status fields, net.recvs = used ++ rest ∧
      QualifiedReceipt used max_head max_body expected requested proto.token_encoding head body
        status fields := by
  have hcomplete := (completionAuthority_view h).1.1
  unfold rawHttpGet at hget
  cases hreq : buildRequest host_header target headers with
  | error e =>
    rw [hreq] at hget
    exact absurd hget (by simp [bind, Except.bind])
  | ok v =>
    rw [hreq] at hget
    simp only [bind, Except.bind, pure, Except.pure] at hget
    -- Without a connection, or with a request that was not written whole, there is no head.
    cases hconn : net.connect_error with
    | some e =>
      simp only [hconn, Except.ok.injEq, Prod.mk.injEq] at hget
      rw [← hget.1] at hcomplete
      exact absurd hcomplete (by simp)
    | none =>
      simp only [hconn] at hget
      split_ifs at hget with hoff
      · simp only [Except.ok.injEq, Prod.mk.injEq] at hget
        rw [← hget.1] at hcomplete
        exact absurd hcomplete (by simp)
      · obtain ⟨rfl, rfl⟩ := Prod.mk.inj (Except.ok.inj hget)
        exact receive_sound rfl h

/-- A network that takes a request at once and sends, in two pieces, a receipt for five bytes. -/
def fiveBytesNet : Network where
  sends := [.accepted 1000 (by decide)]
  recvs := [.recv (ascii "HTTP/1.1 206 OK" ++ CRLF ++ ascii "Content-Length: 0" ++ [CR]), .eintr,
    .recv ([LF] ++ ascii "x-amz-rdma-reply: 206" ++ CRLF ++
      ascii "X-Amz-Rdma-Bytes-Transferred: 5 " ++ CRLF ++ CRLF), .recv []]

/-- The response of an exchange with that network. -/
def fiveBytesResponse : RawResponse :=
  match rawHttpGet (ascii "h") (ascii "/b/o") [] 100 0 fiveBytesNet with
  | .ok (r, _) => r
  | .error _ => {}

/-- The receipt of that response is qualified, and the end of the stream is not read. -/
theorem completionAuthority_five_bytes :
    ∃ used head body status fields, fiveBytesNet.recvs = used ++ [.recv []] ∧
      QualifiedReceipt used 100 0 5 7 .verbatim head body status fields := by
  have hget : rawHttpGet (ascii "h") (ascii "/b/o") [] 100 0 fiveBytesNet =
      .ok (fiveBytesResponse, [.recv []]) := by decide +kernel
  have hauth : completionAuthority (viewReceipt fiveBytesResponse 7)
      { token_encoding := .verbatim } 5 7 = true := by decide +kernel
  exact completionAuthority_sound hget hauth

end S3Rdma
