import S3Rdma.Http.Segmentation

/-!
# A well-formed message is read as what it says

The converse of the receipt: a message that has one Content-Length, that of its body, is received as
a whole however the stream is cut (`receive_message`). What the completion authority then decides
depends on the values of two fields, the status and the length of the body alone
(`completionAuthority_message`).
-/

namespace S3Rdma

/-- A stream that is one well-formed HTTP/1.x message: a strict head, one Content-Length that is the
length of the body, and the body. -/
structure IsMessage (stream : Bytes) (status : ℕ) (fields : List (Bytes × Bytes)) (head body : Bytes) :
    Prop where
  stream_eq : stream = head ++ body
  strict : StrictHead head status fields
  content_length : valuesOf fields (ascii "content-length") = [decimal body.length]
  no_transfer_encoding : valuesOf fields (ascii "transfer-encoding") = []

/-- A number of at most eighteen digits is read back. -/
theorem parseDecimal_decimal {n : ℕ} (h : n < 10^18) : parseDecimal (decimal n) = some n := by
  have hlen : (decimal n).length ≤ 18 := length_decimal_le (by norm_num) h
  unfold parseDecimal
  rw [if_neg, if_pos (all_isDigit_decimal n), decimalValue_decimal]
  simp [decimal_ne_nil, hlen]

/-- A name with one value is counted once, and that value is the first. -/
theorem count_of_valuesOf {r : RawResponse} (hlow : ∀ f ∈ r.fields, f.lower_name = lower f.name)
    {lower_name v : Bytes} (h : valuesOf (r.fields.map RawField.pair) lower_name = [v]) :
    r.count lower_name = 1 ∧ r.firstValue lower_name = v := by
  have hcount : r.count lower_name = 1 := by
    rw [valuesOf_pairs hlow] at h
    have hlen := congrArg List.length h
    rwa [List.length_map, ← List.countP_eq_length_filter] at hlen
  refine ⟨hcount, ?_⟩
  rw [valuesOf_eq_singleton hlow hcount] at h
  exact List.singleton_inj.mp h

/-- Fields that agree on a length, one of which there is. -/
theorem agreedLength_of_forall {fs : List RawField} {v : Option ℕ} {x : ℕ}
    (h : ∀ f ∈ fs, f.lower_name = ascii "content-length" → parseDecimal f.value = some x)
    (hv : v = none ∨ v = some x)
    (hex : v = some x ∨ ∃ f ∈ fs, f.lower_name = ascii "content-length") :
    agreedLength fs v = some x := by
  induction fs generalizing v with
  | nil => simpa [agreedLength] using hex
  | cons f fs ih =>
    have htail := fun g hg => h g (List.mem_cons_of_mem _ hg)
    unfold agreedLength
    by_cases hf : f.lower_name = ascii "content-length"
    · have hany : ¬ v.any (x ≠ ·) = true := by
        rcases hv with rfl | rfl <;> simp
      rw [if_pos hf, h f List.mem_cons_self hf]
      dsimp only
      rw [if_neg hany]
      exact ih htail (.inr rfl) (.inl rfl)
    · rw [if_neg hf]
      refine ih htail hv (hex.imp_right ?_)
      rintro ⟨g, hg, hgcl⟩
      rcases List.mem_cons.mp hg with rfl | hg
      · exact absurd hgcl hf
      · exact ⟨g, hg, hgcl⟩

/-- One Content-Length that is a number, and no Transfer-Encoding, frame a message by that
length. -/
theorem classifyFraming_complete {r : RawResponse}
    (hlow : ∀ f ∈ r.fields, f.lower_name = lower f.name) {n : ℕ} (hn : n < 10^18)
    (hcl : valuesOf (r.fields.map RawField.pair) (ascii "content-length") = [decimal n])
    (hte : valuesOf (r.fields.map RawField.pair) (ascii "transfer-encoding") = []) :
    classifyFraming r = { r with framing := .contentLength, content_length := n } := by
  have hte' : ¬ r.count (ascii "transfer-encoding") > 0 := by
    rw [valuesOf_pairs hlow] at hte
    have hlen := congrArg List.length hte
    rw [List.length_map, ← List.countP_eq_length_filter] at hlen
    unfold RawResponse.count
    rw [hlen]
    exact Nat.lt_irrefl 0
  obtain ⟨hcount, -⟩ := count_of_valuesOf hlow hcl
  -- Every field of that name has the one value, so the lengths agree.
  have hall : ∀ f ∈ r.fields, f.lower_name = ascii "content-length" →
      parseDecimal f.value = some n := by
    intro f hf hname
    have hmem : f.value ∈ valuesOf (r.fields.map RawField.pair) (ascii "content-length") := by
      rw [valuesOf_pairs hlow]
      exact List.mem_map_of_mem (List.mem_filter.mpr ⟨hf, by simp [hname]⟩)
    rw [hcl, List.mem_singleton] at hmem
    rw [hmem, parseDecimal_decimal hn]
  have hex : ∃ f ∈ r.fields, f.lower_name = ascii "content-length" := by
    by_contra hno
    push Not at hno
    rw [RawResponse.count_eq_zero_iff.mpr hno] at hcount
    exact absurd hcount (by simp)
  unfold classifyFraming
  dsimp only
  rw [if_neg hte', if_neg (by omega), agreedLength_of_forall hall (.inl rfl) (.inr hex)]

/-- A response that was read from a whole message. -/
structure ReadsMessage (r : RawResponse) (status : ℕ) (fields : List (Bytes × Bytes))
    (body_length : ℕ) : Prop where
  head_complete : r.head_complete = true
  head_ok : r.head_malformed = false
  complete : r.message_complete = true
  no_error : r.transport_error = false
  not_truncated : r.body_truncated = false
  status_eq : r.status = status
  fields_eq : r.fields.map RawField.pair = fields
  lower_eq : ∀ f ∈ r.fields, f.lower_name = lower f.name
  body_eq : r.body_content = body_length

/-- What was noted of the request does not matter. -/
theorem ReadsMessage.emitted {r : RawResponse} {status body_length : ℕ}
    {fields : List (Bytes × Bytes)} (h : ReadsMessage r status fields body_length) (t : Bool) (n : ℕ) :
    ReadsMessage (r.emitted t n) status fields body_length :=
  ⟨h.head_complete, h.head_ok, h.complete, h.no_error, h.not_truncated, h.status_eq, h.fields_eq,
    h.lower_eq, h.body_eq⟩

section Receive

variable {stream head body : Bytes} {status : ℕ} {fields : List (Bytes × Bytes)}
  {max_head max_body : ℕ}

/-- A message within the caps is received as a whole, however its stream is cut. -/
theorem receive_message (h : IsMessage stream status fields head body)
    (hhead : head.length ≤ max_head) (hbody : body.length ≤ max_body) (hlen : body.length < 10^18)
    {segs : List Bytes} (hcuts : Cuts stream segs) :
    ReadsMessage (receive max_head max_body (cutEvents segs) {}).1 status fields body.length := by
  obtain ⟨rfl, hstrict, hcl, hte⟩ := h
  obtain ⟨hfour, hfind⟩ := hstrict.findSub_eq body
  have hend : head.length - 4 + 4 = head.length := by omega
  set r₀ : RawResponse := { head_complete := true, head_bytes := head } with hr₀
  obtain ⟨hok, hstatus, hfields, hlow⟩ := parseHead_complete hstrict (r := r₀) rfl
  obtain ⟨-, hcomplete, herror, -⟩ := parseHead_frame r₀
  have hframing := classifyFraming_complete hlow hlen (by rw [hfields, hcl]) (by rw [hfields, hte])
  -- Nothing follows the body, so the response is that to the whole stream.
  have hno : ¬ Surplus max_head max_body (head ++ body) := by
    rintro ⟨i, v, hi, -, -, -, hv, -, hlt⟩
    obtain rfl : head.length - 4 = i := Option.some.inj (hfind.symm.trans hi)
    rw [hend, List.take_left] at hv
    rw [hend, List.drop_left] at hlt
    have hv' : (classifyFraming (parseHead r₀)).content_length = v := hv
    rw [hframing] at hv'
    have hbv : (body.length : ℤ) = v := hv'
    omega
  rw [receive_cut hcuts.flatten hcuts.ne_nil hno]
  unfold streamResponse
  rw [hfind, Option.filter_some, if_pos (by simpa [hend] using hhead)]
  dsimp only
  rw [hend, List.take_left, List.drop_left, ← hr₀, if_neg (by simp [hok]), hframing]
  have hfit : ¬ max_body < body.length := by omega
  have hmin : min body.length max_body = body.length := by omega
  unfold finishBody
  simp only [hfit, hmin, decide_false, Option.isSome_none, Option.isNone_none, Bool.or_false,
    Bool.not_false, Bool.and_true, decide_true]
  exact ⟨hcomplete, hok, rfl, herror, rfl, hstatus, hfields, hlow, rfl⟩

/-- What the authority decides about a message whose two RDMA fields have one value each, the reply
three digits and the count the expected length. -/
theorem completionAuthority_message {r : RawResponse} {reply : Bytes} {expected requested : ℕ}
    (h : ReadsMessage r status fields body.length) (proto : ProtocolOptions)
    (hstatus : status = 200 ∨ status = 206)
    (hreply : valuesOf fields kHdrRdmaReply = [reply]) (hlen : reply.length = 3)
    (hdigits : reply.all isDigit = true)
    (hcount : valuesOf fields kHdrRdmaBytesTransferred = [decimal expected])
    (hexp : expected ≤ requested) (hmax : expected < 2^63) :
    completionAuthority (viewReceipt r requested) proto expected requested = true ↔
      match proto.token_encoding with
      | .base64 => decimalValue reply = 200 ∧ expected = requested
      | .verbatim => decimalValue reply = status ∧ body = [] := by
  obtain ⟨hrc, hrv⟩ := count_of_valuesOf h.lower_eq (by rw [h.fields_eq, hreply])
  obtain ⟨hcc, hcv⟩ := count_of_valuesOf h.lower_eq (by rw [h.fields_eq, hcount])
  have hreply_plain : plainDigits reply 3 3 = true := by simp [plainDigits, hlen, hdigits]
  have hcount_plain : plainDigits (decimal expected) 1 20 = true := by
    have hle : (decimal expected).length ≤ 20 := length_decimal_le (by norm_num) (by omega)
    have hpos : 1 ≤ (decimal expected).length := List.length_pos_iff.mpr (decimal_ne_nil _)
    simp [plainDigits, hle, hpos, all_isDigit_decimal]
  have hstatus' : ¬ (status ≠ 200 ∧ status ≠ 206) := by
    rcases hstatus with rfl | rfl <;> simp
  have hbody : body.length = 0 ↔ body = [] := List.length_eq_zero_iff
  -- All tests before the last one pass; what is left depends on the token's encoding.
  unfold completionAuthority viewReceipt
  simp only [h.head_complete, h.head_ok, h.complete, h.no_error, h.not_truncated, h.status_eq,
    h.body_eq, hrc, hrv, hcc, hcv, hreply_plain, hcount_plain, if_neg hstatus',
    threeDigits_eq hlen, parseRdmaBytesTransferred_decimal hexp hmax, gt_iff_lt, Nat.one_pos, if_true,
    Bool.not_true, Bool.not_false, Bool.and_true, Bool.false_eq_true, if_false, beq_self_eq_true,
    Bool.or_false, ne_eq, not_true_eq_false, or_false]
  rw [if_neg (by omega)]
  cases proto.token_encoding with
  | base64 => exact decide_eq_true_iff
  | verbatim => rw [decide_eq_true_iff, hbody]

end Receive

end S3Rdma
