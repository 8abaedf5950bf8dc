import S3Rdma.Common.Protocol
import S3Rdma.Common.RawHttp

/-!
# The completion authority

`src/common/completion_authority.hpp`: what is observed of a receipt, and the decision whether it
completes a GET.
-/

namespace S3Rdma

/-- `plain_digits`. -/
def plainDigits (s : Bytes) (min_len max_len : ℕ) : Bool :=
  min_len ≤ s.length && s.length ≤ max_len && s.all isDigit

/-- `ReceiptView`. -/
structure ReceiptView where
  /-- The head is complete and well formed. -/
  present : Bool
  /-- The whole message was received, well framed, within the caps and without a failure. -/
  complete : Bool
  status : ℕ
  reply_count : ℕ
  count_count : ℕ
  reply_raw : Bytes
  count_raw : Bytes
  reply_plain : Bool
  count_plain : Bool
  declared : ℤ
  body_content : ℕ
  body_octets : ℕ
  body_truncated : Bool
  framing : Framing

/-- The value of the first field of a name, or the empty text. -/
def RawResponse.firstValue (r : RawResponse) (lower_name : Bytes) : Bytes :=
  ((r.first lower_name).map RawField.value).getD []

/-- `view_receipt`. -/
def viewReceipt (r : RawResponse) (callback_size : ℕ) : ReceiptView :=
  let present := r.head_complete && !r.head_malformed
  let reply_count := r.count kHdrRdmaReply
  let count_count := r.count kHdrRdmaBytesTransferred
  let reply_raw := r.firstValue kHdrRdmaReply
  let count_raw := r.firstValue kHdrRdmaBytesTransferred
  { present
    complete := present && r.message_complete && !r.transport_error && !r.body_truncated
    status := r.status
    reply_count, count_count, reply_raw, count_raw
    reply_plain := reply_count == 1 && plainDigits reply_raw 3 3
    count_plain := count_count == 1 && plainDigits count_raw 1 20
    declared := parseRdmaBytesTransferred (if count_count > 0 then some count_raw else none)
      callback_size
    body_content := r.body_content
    body_octets := r.body_octets
    body_truncated := r.body_truncated
    framing := r.framing }

/-- `completion_authority`. -/
def completionAuthority (v : ReceiptView) (proto : ProtocolOptions) (expected requested : ℕ) : Bool :=
  let reply := decimalDigit (v.reply_raw.getD 0 0) * 100 + decimalDigit (v.reply_raw.getD 1 0) * 10 +
    decimalDigit (v.reply_raw.getD 2 0)
  if !v.complete then false
  else if v.status ≠ 200 ∧ v.status ≠ 206 then false
  else if !v.reply_plain || !v.count_plain then false
  else if v.declared < 0 ∨ v.declared ≠ expected then false
  else
    match proto.token_encoding with
    | .base64 => reply = 200 ∧ expected = requested
    | .verbatim => reply = v.status ∧ v.body_content = 0

end S3Rdma
