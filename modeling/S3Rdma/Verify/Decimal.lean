import S3Rdma.Common.RawHttp
import S3Rdma.Probe.Options
import S3Rdma.Server.Range
import S3Rdma.Verify.Manifest

/-!
# The checked decimal parsers

Five parsers of decimal numbers, each with an accumulator of its own type and a test of its own
before it multiplies: `parse_u64_strict`, the rig probe's `parse_size`, `parse_rdma_reply`,
`parse_rdma_bytes_transferred` and `parse_decimal`. The first four are the digit loop with a test
that stops above a limit, the last one is bounded by its eighteen digits. So each of them accepts
exactly the decimals it is meant for, and no accumulator leaves its type (`decimalParsers_exact`).
-/

namespace S3Rdma.Verify

open Server (DigitsOnly)
open Probe (parseSize sizeDigits)

/-- `parse_size` has the loop of `parse_u64_strict`. -/
theorem sizeDigits_eq (s : Bytes) (value : ℕ) : sizeDigits s value = u64Digits s value := by
  induction s generalizing value with
  | nil => rfl
  | cons c cs ih => rw [sizeDigits, u64Digits, ih]

/-- `parse_size` accepts what `parse_u64_strict` accepts. -/
theorem parseSize_eq (s : Bytes) : parseSize s = parseU64Strict s := by
  unfold parseSize parseU64Strict
  rw [sizeDigits_eq]

/-- `parse_u64_strict` reads the decimals of 64-bit numbers. -/
theorem parseU64Strict_exact {s : Bytes} {v : ℕ} :
    parseU64Strict s = some v ↔ DigitsOnly s v ∧ v ≤ 2^64 - 1 := by
  have hlimit : v ≤ 2^64 - 1 ↔ v < 2^64 := by omega
  rw [parseU64Strict_eq_some_iff, DigitsOnly, List.all_eq_true, hlimit]
  simp only [and_assoc]

/-- A text of digits denotes one number. -/
theorem digitsOnly_iff {s : Bytes} (hne : s ≠ []) (hdig : s.all isDigit = true) {v : ℕ} :
    DigitsOnly s v ↔ decimalValue s = v := by
  rw [DigitsOnly, and_iff_right hne, and_iff_right hdig]

/-- `all_digits` of a text that is not empty. -/
theorem allDigits_eq {s : Bytes} (hne : s ≠ []) : allDigits s = s.all isDigit := by
  simp [allDigits, hne]

/-- `parse_rdma_bytes_transferred` of digits. -/
theorem parseRdmaBytesTransferred_digits {s : Bytes} (hne : s ≠ []) (hdig : s.all isDigit = true)
    (size : ℕ) :
    parseRdmaBytesTransferred (some s) size =
      if decimalValue s ≤ min size (2^63 - 1) then (decimalValue s : ℤ) else -1 := by
  unfold parseRdmaBytesTransferred
  simp only [if_neg hne, allDigits_eq hne, hdig, Bool.not_true, Bool.false_eq_true, if_false,
    boundedDigits_eq, digitLoop_of_digits (stopsAbove_boundedStop _ hdig) hdig]
  split_ifs <;> rfl

/-- `parse_rdma_bytes_transferred` of anything else. -/
theorem parseRdmaBytesTransferred_other {s : Bytes} (hne : s ≠ []) (hdig : s.all isDigit ≠ true)
    (size : ℕ) : parseRdmaBytesTransferred (some s) size = -1 := by
  unfold parseRdmaBytesTransferred
  simp only [if_neg hne, allDigits_eq hne, Bool.eq_false_iff.mpr hdig, Bool.not_false, if_true]

/-- `parse_rdma_reply` of digits. -/
theorem parseRdmaReply_digits {s : Bytes} (hne : s ≠ []) (hdig : s.all isDigit = true) :
    parseRdmaReply (some s) =
      if 100 ≤ decimalValue s ∧ decimalValue s ≤ 599 then
        if decimalValue s = 501 then .declined else .code (decimalValue s)
      else .malformed := by
  unfold parseRdmaReply
  simp only [if_neg hne, allDigits_eq hne, hdig, Bool.not_true, Bool.false_eq_true, if_false,
    replyDigits_eq, digitLoop_of_digits (stopsAbove_replyStop hdig) hdig]
  by_cases hmax : decimalValue s ≤ 599
  · simp only [if_pos hmax]
    split_ifs <;> first | rfl | omega
  · rw [if_neg hmax, if_neg (by omega)]

/-- `parse_rdma_reply` of anything else. -/
theorem parseRdmaReply_other {s : Bytes} (hne : s ≠ []) (hdig : s.all isDigit ≠ true) :
    parseRdmaReply (some s) = .malformed := by
  unfold parseRdmaReply
  simp only [if_neg hne, allDigits_eq hne, Bool.eq_false_iff.mpr hdig, Bool.not_false, if_true]

/-- `parse_decimal` runs the loop that only stops at what is no digit. -/
theorem parseDecimal_eq_digitLoop {s : Bytes} (hne : s ≠ []) (hlen : s.length ≤ 18) :
    parseDecimal s = digitLoop (fun _ c => !isDigit c) s 0 := by
  refine Option.ext fun v => ?_
  rw [digitLoop_digits, decimalFrom_zero]
  unfold parseDecimal
  rw [if_neg (by simp [hne, hlen])]
  split_ifs with hdig
  · simp [hdig]
  · simp [hdig]

/-- What each of the parsers makes of a text, and that its accumulator stays within its type. -/
structure ExactDecimals (s : Bytes) : Prop where
  u64 : ∀ v, parseU64Strict s = some v ↔ DigitsOnly s v ∧ v ≤ 2^64 - 1
  u64_within : LoopWithin u64Stop (2^64 - 1) s (u64Digits s 0)
  size : ∀ v, parseSize s = some v ↔ DigitsOnly s v ∧ v ≤ 2^64 - 1
  size_within : LoopWithin u64Stop (2^64 - 1) s (sizeDigits s 0)
  bytes : s ≠ [] → ∀ (size v : ℕ), parseRdmaBytesTransferred (some s) size = v ↔
    DigitsOnly s v ∧ v ≤ min size (2^63 - 1)
  bytes_other : s ≠ [] → ∀ size, (¬ ∃ v, DigitsOnly s v ∧ v ≤ min size (2^63 - 1)) →
    parseRdmaBytesTransferred (some s) size = -1
  /-- The accumulator is a `size_t`, and the result a `long`. -/
  bytes_within : s.all isDigit = true → ∀ size, LoopWithin (boundedStop (min size (2^63 - 1)))
    (2^63 - 1) s (boundedDigits (min size (2^63 - 1)) s 0)
  reply_code : s ≠ [] → ∀ v, parseRdmaReply (some s) = .code v ↔
    DigitsOnly s v ∧ 100 ≤ v ∧ v ≤ 599 ∧ v ≠ 501
  reply_declined : s ≠ [] → (parseRdmaReply (some s) = .declined ↔ DigitsOnly s 501)
  reply_malformed : s ≠ [] → (parseRdmaReply (some s) = .malformed ↔
    ¬ ∃ v, DigitsOnly s v ∧ 100 ≤ v ∧ v ≤ 599)
  reply_within : s.all isDigit = true → LoopWithin replyStop (2^31 - 1) s (replyDigits s 0)
  decimal : ∀ v, parseDecimal s = some v ↔ s.length ≤ 18 ∧ DigitsOnly s v
  decimal_within : s ≠ [] → s.length ≤ 18 →
    LoopWithin (fun _ c => !isDigit c) (2^63 - 1) s (parseDecimal s)

/-- The accumulator of `parse_decimal` is below `10^18`. -/
theorem parseDecimal_within {s : Bytes} (hne : s ≠ []) (hlen : s.length ≤ 18) :
    LoopWithin (fun _ c => !isDigit c) (2^63 - 1) s (parseDecimal s) := by
  refine ⟨parseDecimal_eq_digitLoop hne hlen, fun p hp => ?_⟩
  obtain ⟨hlt, hstep⟩ := lt_of_mem_digitVisits (k := 0) (by decide) hp
  have hmax : 10^(0 + s.length) ≤ 2^63 - 1 := by
    calc 10^(0 + s.length) ≤ 10^18 := Nat.pow_le_pow_right (by decide) (by omega)
      _ ≤ 2^63 - 1 := by decide
  refine ⟨by omega, fun hgo => ?_⟩
  have hdigit : isDigit p.2 = true := by simpa using hgo
  have hsum := hstep hdigit
  exact ⟨hdigit, by omega⟩

/-- All five parsers are exact on every text, and none of their accumulators leaves its type. -/
theorem decimalParsers_exact (s : Bytes) : ExactDecimals s where
  u64 v := parseU64Strict_exact
  u64_within := (stopsAbove_u64Stop s).loopWithin le_rfl (u64Digits_eq s 0)
  size v := by rw [parseSize_eq, parseU64Strict_exact]
  size_within := (stopsAbove_u64Stop s).loopWithin le_rfl (by rw [sizeDigits_eq, u64Digits_eq])
  -- The two parsers of the reply headers test for digits before their loop, so each field splits
  -- there.
  bytes hne size v := by
    by_cases hdig : s.all isDigit = true
    · rw [parseRdmaBytesTransferred_digits hne hdig, digitsOnly_iff hne hdig]
      split_ifs with hle
      · rw [Nat.cast_inj]
        exact ⟨fun h => ⟨h, h ▸ hle⟩, And.left⟩
      · refine iff_of_false (fun h => ?_) fun h => hle (h.1 ▸ h.2)
        omega
    · rw [parseRdmaBytesTransferred_other hne hdig]
      exact iff_of_false (by omega) fun h => hdig h.1.2.1
  bytes_other hne size hnone := by
    by_cases hdig : s.all isDigit = true
    · rw [parseRdmaBytesTransferred_digits hne hdig]
      refine if_neg fun hle => hnone ⟨_, (digitsOnly_iff hne hdig).mpr rfl, hle⟩
    · exact parseRdmaBytesTransferred_other hne hdig size
  bytes_within hdig size :=
    (stopsAbove_boundedStop _ hdig).loopWithin (min_le_right _ _) (boundedDigits_eq _ s 0)
  reply_code hne v := by
    by_cases hdig : s.all isDigit = true
    · rw [parseRdmaReply_digits hne hdig, digitsOnly_iff hne hdig]
      split_ifs <;> simp <;> omega
    · rw [parseRdmaReply_other hne hdig]
      exact iff_of_false (by simp) fun h => hdig h.1.2.1
  reply_declined hne := by
    by_cases hdig : s.all isDigit = true
    · rw [parseRdmaReply_digits hne hdig, digitsOnly_iff hne hdig]
      split_ifs <;> simp <;> omega
    · rw [parseRdmaReply_other hne hdig]
      exact iff_of_false (by simp) fun h => hdig h.2.1
  reply_malformed hne := by
    by_cases hdig : s.all isDigit = true
    · rw [parseRdmaReply_digits hne hdig]
      simp only [digitsOnly_iff hne hdig, exists_eq_left']
      split_ifs with hrange hdeclined
      · simp [hrange]
      · simp [hrange]
      · simp [hrange]
    · rw [parseRdmaReply_other hne hdig]
      exact iff_of_true rfl fun ⟨_, h, _⟩ => hdig h.2.1
  reply_within hdig :=
    (stopsAbove_replyStop hdig).loopWithin (by decide) (replyDigits_eq s 0)
  -- `parse_decimal` tests the length instead of the value; it has no limit to compare with.
  decimal v := by
    unfold parseDecimal DigitsOnly
    by_cases hne : s = []
    · simp [hne]
    · by_cases hlen : s.length ≤ 18
      · rw [if_neg (by simp [hne, hlen])]
        split_ifs with hdig
        · simp [hne, hlen, hdig]
        · simp [hdig]
      · rw [if_pos (by simpa [hne] using hlen)]
        simp [hlen]
  decimal_within := parseDecimal_within

end S3Rdma.Verify
