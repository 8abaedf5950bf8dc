import S3Rdma.Lib.Bytes
import Mathlib.Data.List.TakeWhile

/-!
# `std::stoull`

The C++ library's conversion of text to an unsigned 64-bit number, with the whole of its grammar:
leading white space, an optional sign, an optional `0x` in base 16, and then the longest run of
digits. What follows the digits is left unread, a minus sign negates modulo `2^64`, and a magnitude
of `2^64` or more is out of range. `stoull` returns the value and the number of bytes read, or
`none` for either of the two exceptions (no digits, out of range).

On a string of digits alone none of this matters: `stoull_of_digits` says that such a string is
read as the number it denotes. `stoull_iff` is the grammar of any base in terms of its digits;
`stoull_ten_iff` and `stoull_sixteen_iff` spell it out for the two bases in use.
-/

namespace S3Rdma

/-- What `isspace` accepts in the "C" locale. -/
def isSpace (c : UInt8) : Bool := c == SP || (9 ≤ c && c ≤ 13)

/-- The value of an ASCII letter or digit as a digit of any base up to 36. -/
def alnumValue (c : UInt8) : Option ℕ :=
  if isDigit c then some (c.toNat - 48)
  else if isLower c then some (c.toNat - 87)
  else if isUpper c then some (c.toNat - 55)
  else none

/-- The value of a byte as a digit of `base`, if it is one. -/
def digitIn (base : ℕ) (c : UInt8) : Option ℕ := (alnumValue c).filter (· < base)

/-- The values of the longest run of digits that a string starts with. -/
def takeDigits (base : ℕ) : Bytes → List ℕ
  | [] => []
  | c :: cs =>
    match digitIn base c with
    | some d => d :: takeDigits base cs
    | none => []

/-- An optional sign: whether it is a minus, and what follows it. -/
def stripSign : Bytes → Bool × Bytes
  | [] => (false, [])
  | c :: cs => if c = chr '-' then (true, cs) else if c = chr '+' then (false, cs) else (false, c :: cs)

/-- In base 16 a `0x` or `0X` is skipped when a hexadecimal digit follows it. -/
def stripHexMark (base : ℕ) : Bytes → Bytes
  | z :: x :: c :: cs =>
    if base = 16 ∧ z = chr '0' ∧ (x = chr 'x' ∨ x = chr 'X') ∧ (digitIn 16 c).isSome then c :: cs
    else z :: x :: c :: cs
  | s => s

/-- `std::stoull(s, &pos, base)`: the value and `pos`, or `none` when it throws. -/
def stoull (base : ℕ) (s : Bytes) : Option (ℕ × ℕ) :=
  let sign := stripSign (s.dropWhile isSpace)
  let body := stripHexMark base sign.2
  let ds := takeDigits base body
  if ds = [] then none
  else if 2^64 ≤ digitsValue base ds then none
  else some (if sign.1 then (2^64 - digitsValue base ds) % 2^64 else digitsValue base ds,
    s.length - body.length + ds.length)

/-- What `std::stoull` returns is a word. -/
theorem stoull_lt {base : ℕ} {s : Bytes} {v pos : ℕ} (h : stoull base s = some (v, pos)) :
    v < 2^64 := by
  unfold stoull at h
  dsimp only at h
  split_ifs at h with h0 hbig hneg
  · simp only [Option.some.injEq, Prod.mk.injEq] at h
    omega
  · simp only [Option.some.injEq, Prod.mk.injEq] at h
    omega

/-- A decimal digit is its value in base ten. -/
theorem digitIn_ten {c : UInt8} (h : isDigit c = true) : digitIn 10 c = some (decimalDigit c) := by
  have hc := isDigit_iff.mp h
  simp [digitIn, alnumValue, h, decimalDigit]
  omega

/-- A byte that is no decimal digit is no digit in base ten. -/
theorem digitIn_ten_eq_none {c : UInt8} (h : isDigit c = false) : digitIn 10 c = none := by
  have hlower : isLower c = true → 97 ≤ c.toNat := by
    simp only [isLower, Bool.and_eq_true, decide_eq_true_eq, UInt8.le_iff_toNat_le]
    exact fun h => h.1
  have hupper : isUpper c = true → 65 ≤ c.toNat := by
    simp only [isUpper, Bool.and_eq_true, decide_eq_true_eq, UInt8.le_iff_toNat_le]
    exact fun h => h.1
  unfold digitIn alnumValue
  rw [if_neg (by rw [h]; decide)]
  split_ifs with hl hu
  · have hc := hlower hl
    simp
    omega
  · have hc := hupper hu
    simp
    omega
  · rfl

/-- The digits that are read are the longest run of decimal digits. -/
theorem takeDigits_ten (s : Bytes) :
    takeDigits 10 s = (s.takeWhile isDigit).map decimalDigit := by
  induction s with
  | nil => rfl
  | cons c cs ih =>
    by_cases hc : isDigit c = true
    · simp [takeDigits, digitIn_ten hc, hc, ih]
    · rw [Bool.not_eq_true] at hc
      simp [takeDigits, digitIn_ten_eq_none hc, hc]

/-- A string of digits is read to its end. -/
theorem takeDigits_of_digits {s : Bytes} (h : ∀ c ∈ s, isDigit c = true) :
    takeDigits 10 s = s.map decimalDigit := by
  rw [takeDigits_ten, List.takeWhile_eq_self_iff.mpr h]

/-- A digit is neither white space nor a sign. -/
theorem not_space_of_digit {c : UInt8} (h : isDigit c = true) :
    isSpace c = false ∧ c ≠ chr '-' ∧ c ≠ chr '+' := by
  rw [isDigit_iff] at h
  refine ⟨?_, ?_, ?_⟩
  · simp only [isSpace, Bool.or_eq_false_iff, beq_eq_false_iff_ne, ne_eq, Bool.and_eq_false_iff,
      decide_eq_false_iff_not, UInt8.le_iff_toNat_le]
    refine ⟨?_, Or.inr ?_⟩
    · rintro rfl
      exact absurd h (by decide)
    · change ¬ c.toNat ≤ 13
      omega
  · rintro rfl
    exact absurd h (by decide)
  · rintro rfl
    exact absurd h (by decide)

/-- A string that starts with a digit has no white space or sign to skip. -/
theorem stripSign_of_digits {s : Bytes} (h : ∀ c ∈ s, isDigit c = true) :
    stripSign (s.dropWhile isSpace) = (false, s) := by
  cases s with
  | nil => rfl
  | cons c cs =>
    obtain ⟨hsp, hm, hp⟩ := not_space_of_digit (h c List.mem_cons_self)
    rw [List.dropWhile_cons_of_neg (by simp [hsp]), stripSign, if_neg hm, if_neg hp]

/-- In base ten there is no mark to skip. -/
theorem stripHexMark_ten (s : Bytes) : stripHexMark 10 s = s := by
  match s with
  | [] => rfl
  | [_] => rfl
  | [_, _] => rfl
  | _ :: _ :: _ :: _ => simp [stripHexMark]

/-- A nonempty string of digits below `2^64` is read whole, as the number it denotes. -/
theorem stoull_of_digits {s : Bytes} (hne : s ≠ []) (h : ∀ c ∈ s, isDigit c = true)
    (hlt : decimalValue s < 2^64) : stoull 10 s = some (decimalValue s, s.length) := by
  have hds : s.map decimalDigit ≠ [] := by simpa using hne
  have hlt' : ¬ 2^64 ≤ digitsValue 10 (s.map decimalDigit) := Nat.not_le.mpr hlt
  unfold stoull
  rw [stripSign_of_digits h]
  simp only [stripHexMark_ten, takeDigits_of_digits h, if_neg hds, if_neg hlt']
  simp [decimalValue]

/-- A printed number below `2^64` is read back. -/
theorem stoull_decimal {n : ℕ} (h : n < 2^64) :
    stoull 10 (decimal n) = some (n, (decimal n).length) := by
  have hv := decimalValue_decimal n
  have hr := stoull_of_digits (decimal_ne_nil n) (fun _ => isDigit_of_mem_decimal) (by rwa [hv])
  rwa [hv] at hr

/-! ## The grammar of any base -/

/-- A plus, a minus or nothing is taken for the sign, and a minus is noted. -/
theorem stripSign_append (s : Bytes) :
    ∃ sign, s = sign ++ (stripSign s).2 ∧ (sign = [] ∨ sign = [chr '+'] ∨ sign = [chr '-']) ∧
      ((stripSign s).1 = true ↔ sign = [chr '-']) := by
  match s with
  | [] => exact ⟨[], rfl, .inl rfl, by simp [stripSign]⟩
  | c :: cs =>
    unfold stripSign
    dsimp only
    split_ifs with hm hp
    · exact ⟨[c], rfl, .inr (.inr (by rw [hm])), by simp [hm]⟩
    · exact ⟨[c], rfl, .inr (.inl (by rw [hp])), by rw [hp]; decide⟩
    · exact ⟨[], rfl, .inl rfl, by simp⟩

/-- A digit of any base is neither white space nor a sign. -/
theorem not_space_of_digitIn {base : ℕ} {c : UInt8} {d : ℕ} (h : digitIn base c = some d) :
    isSpace c = false ∧ c ≠ chr '-' ∧ c ≠ chr '+' := by
  have halnum : (alnumValue c).isSome = true := by
    unfold digitIn at h
    rw [Option.filter_eq_some_iff] at h
    rw [h.1]
    rfl
  clear h
  revert c
  rw [forall_byte_iff]
  decide +kernel

/-- A mark is skipped in base 16 only, and it is `0x` or `0X`. -/
theorem stripHexMark_append (base : ℕ) (s : Bytes) :
    ∃ mark, s = mark ++ stripHexMark base s ∧
      (mark = [] ∨ base = 16 ∧ (mark = ascii "0x" ∨ mark = ascii "0X")) := by
  match s with
  | [] => exact ⟨[], rfl, .inl rfl⟩
  | [_] => exact ⟨[], rfl, .inl rfl⟩
  | [_, _] => exact ⟨[], rfl, .inl rfl⟩
  | z :: x :: c :: cs =>
    by_cases h : base = 16 ∧ z = chr '0' ∧ (x = chr 'x' ∨ x = chr 'X') ∧ (digitIn 16 c).isSome
    · rw [stripHexMark, if_pos h]
      obtain ⟨hbase, rfl, hx, -⟩ := h
      rcases hx with rfl | rfl
      · exact ⟨ascii "0x", rfl, .inr ⟨hbase, .inl rfl⟩⟩
      · exact ⟨ascii "0X", rfl, .inr ⟨hbase, .inr rfl⟩⟩
    · rw [stripHexMark, if_neg h]
      exact ⟨[], rfl, .inl rfl⟩

/-- Where digits are found, the text starts with no white space and no sign. -/
theorem head_of_takeDigits {base : ℕ} {s : Bytes}
    (h : takeDigits base (stripHexMark base s) ≠ []) :
    ∃ c cs, s = c :: cs ∧ isSpace c = false ∧ c ≠ chr '-' ∧ c ≠ chr '+' := by
  obtain ⟨mark, hs, hmark⟩ := stripHexMark_append base s
  rcases hmark with rfl | ⟨-, rfl | rfl⟩
  · cases hbody : stripHexMark base s with
    | nil =>
      rw [hbody] at h
      exact absurd rfl h
    | cons c cs =>
      rw [hbody] at h hs
      cases hc : digitIn base c with
      | none => exact absurd (by simp [takeDigits, hc]) h
      | some d => exact ⟨c, cs, hs, not_space_of_digitIn hc⟩
  · exact ⟨_, _, hs, by decide⟩
  · exact ⟨_, _, hs, by decide⟩

/-- `std::stoull` reads white space, a sign or none, and a text that starts with digits that denote
a number below `2^64`. -/
theorem stoull_iff {base : ℕ} {s : Bytes} {v : ℕ} :
    (∃ pos, stoull base s = some (v, pos)) ↔
      ∃ blanks sign body, s = blanks ++ (sign ++ body) ∧ (∀ c ∈ blanks, isSpace c = true) ∧
        (sign = [] ∨ sign = [chr '+'] ∨ sign = [chr '-']) ∧
        takeDigits base (stripHexMark base body) ≠ [] ∧
        digitsValue base (takeDigits base (stripHexMark base body)) < 2^64 ∧
        v = if sign = [chr '-'] then
          (2^64 - digitsValue base (takeDigits base (stripHexMark base body))) % 2^64
        else digitsValue base (takeDigits base (stripHexMark base body)) := by
  constructor
  · rintro ⟨pos, h⟩
    unfold stoull at h
    dsimp only at h
    obtain ⟨sign, hsplit, hsign, hminus⟩ := stripSign_append (s.dropWhile isSpace)
    split_ifs at h with hnone hbig hneg
    all_goals
      obtain ⟨hv, -⟩ := Prod.mk.inj (Option.some.inj h)
      refine ⟨s.takeWhile isSpace, sign, (stripSign (s.dropWhile isSpace)).2, ?_,
        fun c hc => List.mem_takeWhile_imp hc, hsign, hnone, not_le.mp hbig, ?_⟩
      · rw [← hsplit, List.takeWhile_append_dropWhile]
    · rw [if_pos (hminus.mp hneg), ← hv]
    · rw [if_neg (mt hminus.mpr hneg), ← hv]
  · rintro ⟨blanks, sign, body, rfl, hblanks, hsign, hnone, hlt, hv⟩
    obtain ⟨c, cs, rfl, hspace, hm, hp⟩ := head_of_takeDigits hnone
    -- The white space ends where the sign or the digits start.
    have hdrop : (blanks ++ (sign ++ c :: cs)).dropWhile isSpace = sign ++ c :: cs := by
      rw [List.dropWhile_append_of_pos hblanks]
      rcases hsign with rfl | rfl | rfl
      · simp [hspace]
      · rfl
      · rfl
    have hstrip : stripSign (sign ++ c :: cs) = (decide (sign = [chr '-']), c :: cs) := by
      rcases hsign with rfl | rfl | rfl
      · rw [List.nil_append, stripSign, if_neg hm, if_neg hp]
        rfl
      · rfl
      · rfl
    unfold stoull
    rw [hdrop, hstrip]
    simp only [if_neg hnone, if_neg (not_le.mpr hlt), decide_eq_true_eq]
    rw [hv]
    exact ⟨_, rfl⟩

/-! ## The whole grammar in base ten -/

/-- A text that `std::stoull` reads in base ten, and as which number: white space, a sign or none,
digits that denote a number below `2^64`, and any text that does not go on with a digit. -/
def LooseNumber (s : Bytes) (v : ℕ) : Prop :=
  ∃ blanks sign digits tail, s = blanks ++ (sign ++ (digits ++ tail)) ∧
    (∀ c ∈ blanks, isSpace c = true) ∧ (sign = [] ∨ sign = [chr '+'] ∨ sign = [chr '-']) ∧
    (digits ≠ [] ∧ ∀ c ∈ digits, isDigit c = true) ∧ (∀ c ∈ tail.head?, isDigit c = false) ∧
    decimalValue digits < 2^64 ∧
    v = if sign = [chr '-'] then (2^64 - decimalValue digits) % 2^64 else decimalValue digits

/-- `std::stoull` accepts exactly the texts of its grammar. -/
theorem stoull_ten_iff {s : Bytes} {v : ℕ} :
    (∃ pos, stoull 10 s = some (v, pos)) ↔ LooseNumber s v := by
  rw [stoull_iff]
  constructor
  · rintro ⟨blanks, sign, body, hs, hblanks, hsign, hnone, hlt, hv⟩
    rw [stripHexMark_ten, takeDigits_ten] at hnone hlt hv
    refine ⟨blanks, sign, body.takeWhile isDigit, body.dropWhile isDigit, ?_, hblanks, hsign,
      ⟨fun hnil => hnone (by rw [hnil]; rfl), fun c hc => List.mem_takeWhile_imp hc⟩,
      fun c hc => ?_, hlt, hv⟩
    · rw [List.takeWhile_append_dropWhile, hs]
    · have hhead := List.head?_dropWhile_not isDigit body
      rwa [Option.mem_def.mp hc] at hhead
  · rintro ⟨blanks, sign, digits, tail, hs, hblanks, hsign, ⟨hne, hdig⟩, htail, hlt, hv⟩
    have htake : takeDigits 10 (stripHexMark 10 (digits ++ tail)) = digits.map decimalDigit := by
      rw [stripHexMark_ten, takeDigits_ten, takeWhile_append_stop hdig htail]
    refine ⟨blanks, sign, digits ++ tail, hs, hblanks, hsign, ?_, ?_, ?_⟩
    · rw [htake]
      simpa using hne
    · rw [htake]
      exact hlt
    · rw [htake]
      exact hv

/-! ## The whole grammar in base 16 -/

/-- An ASCII hexadecimal digit, in either case. -/
def isHexDigit (c : UInt8) : Bool := (digitIn 16 c).isSome

/-- The value of an ASCII hexadecimal digit. -/
def hexDigit (c : UInt8) : ℕ := (digitIn 16 c).getD 0

/-- The number that a string of ASCII hexadecimal digits denotes. -/
def hexValue (s : Bytes) : ℕ := digitsValue 16 (s.map hexDigit)

/-- A text that `std::stoull` reads in base 16, and as which number: white space, a sign or none, a
`0x` or none, hexadecimal digits that denote a number below `2^64`, and any text that does not go on
with such a digit. -/
def LooseHex (s : Bytes) (v : ℕ) : Prop :=
  ∃ blanks sign mark digits tail, s = blanks ++ (sign ++ (mark ++ (digits ++ tail))) ∧
    (∀ c ∈ blanks, isSpace c = true) ∧ (sign = [] ∨ sign = [chr '+'] ∨ sign = [chr '-']) ∧
    (mark = [] ∨ mark = ascii "0x" ∨ mark = ascii "0X") ∧
    (digits ≠ [] ∧ ∀ c ∈ digits, isHexDigit c = true) ∧
    (∀ c ∈ tail.head?, isHexDigit c = false) ∧ hexValue digits < 2^64 ∧
    v = if sign = [chr '-'] then (2^64 - hexValue digits) % 2^64 else hexValue digits

/-- The digits that are read are the longest run of hexadecimal digits. -/
theorem takeDigits_sixteen (s : Bytes) :
    takeDigits 16 s = (s.takeWhile isHexDigit).map hexDigit := by
  induction s with
  | nil => rfl
  | cons c cs ih =>
    cases hc : digitIn 16 c with
    | none => simp [takeDigits, isHexDigit, hc]
    | some d => simp [takeDigits, isHexDigit, hexDigit, hc, ih]

/-- A number other than `0` does not start with a mark: its first digit is not `0`, or its second
is a digit. -/
theorem stripHexMark_of_hex {digits tail : Bytes} (hdig : ∀ c ∈ digits, isHexDigit c = true)
    (hvalue : hexValue digits ≠ 0) : stripHexMark 16 (digits ++ tail) = digits ++ tail := by
  have hmark : ∀ z x c cs, digits ++ tail = z :: x :: c :: cs →
      ¬ (z = chr '0' ∧ (x = chr 'x' ∨ x = chr 'X')) := by
    rintro z x c cs heq ⟨rfl, hx⟩
    match digits, hdig, hvalue, heq with
    | [], _, hvalue, _ => exact hvalue rfl
    | [_], _, hvalue, heq =>
      rw [(List.cons.inj heq).1] at hvalue
      exact hvalue (by decide)
    | _ :: d :: _, hdig, _, heq =>
      have hd := hdig d (by simp)
      rw [(List.cons.inj (List.cons.inj heq).2).1] at hd
      rcases hx with rfl | rfl
      · exact absurd hd (by decide)
      · exact absurd hd (by decide)
  match h : digits ++ tail with
  | [] => rfl
  | [_] => rfl
  | [_, _] => rfl
  | z :: x :: c :: cs =>
    rw [stripHexMark, if_neg]
    rintro ⟨-, hz, hx, -⟩
    exact hmark z x c cs h ⟨hz, hx⟩

/-- `std::stoull` reads a number other than `0` from exactly the texts of its grammar. (A `0` can
be followed by an `x` that makes it the start of a mark.) -/
theorem stoull_sixteen_iff {s : Bytes} {v : ℕ} (hv0 : v ≠ 0) :
    (∃ pos, stoull 16 s = some (v, pos)) ↔ LooseHex s v := by
  rw [stoull_iff]
  constructor
  · rintro ⟨blanks, sign, body, hs, hblanks, hsign, hnone, hlt, hv⟩
    obtain ⟨mark, hbody, hmark⟩ := stripHexMark_append 16 body
    rw [takeDigits_sixteen] at hnone hlt hv
    refine ⟨blanks, sign, mark, (stripHexMark 16 body).takeWhile isHexDigit,
      (stripHexMark 16 body).dropWhile isHexDigit, ?_, hblanks, hsign,
      hmark.imp_right And.right, ⟨fun hnil => hnone (by rw [hnil]; rfl),
        fun c hc => List.mem_takeWhile_imp hc⟩, fun c hc => ?_, hlt, hv⟩
    · rw [List.takeWhile_append_dropWhile, ← hbody, hs]
    · have hhead := List.head?_dropWhile_not isHexDigit (stripHexMark 16 body)
      rwa [Option.mem_def.mp hc] at hhead
  · rintro ⟨blanks, sign, mark, digits, tail, hs, hblanks, hsign, hmark, ⟨hne, hdig⟩, htail, hlt,
      hv⟩
    -- A number other than 0 has a digit other than 0, so its digits are not taken for a mark.
    have hvalue : hexValue digits ≠ 0 := by
      intro h0
      rw [h0] at hv
      exact hv0 (by split_ifs at hv <;> simpa using hv)
    have hstrip : stripHexMark 16 (mark ++ (digits ++ tail)) = digits ++ tail := by
      obtain ⟨c, cs, rfl⟩ := List.exists_cons_of_ne_nil hne
      have hc : (digitIn 16 c).isSome = true := hdig c List.mem_cons_self
      rcases hmark with rfl | rfl | rfl
      · rw [List.nil_append]
        exact stripHexMark_of_hex hdig hvalue
      · exact if_pos ⟨rfl, rfl, .inl rfl, hc⟩
      · exact if_pos ⟨rfl, rfl, .inr rfl, hc⟩
    have htake : takeDigits 16 (stripHexMark 16 (mark ++ (digits ++ tail))) =
        digits.map hexDigit := by
      rw [hstrip, takeDigits_sixteen, takeWhile_append_stop hdig htail]
    refine ⟨blanks, sign, mark ++ (digits ++ tail), hs, hblanks, hsign, ?_, ?_, ?_⟩
    · rw [htake]
      simpa using hne
    · rw [htake]
      exact hlt
    · rw [htake]
      exact hv

/-! ## Signed numbers -/

/-- `std::stoll(s, &pos, base)` and, where `long` has 64 bits, `std::stol`: the value and `pos`, or
`none` when it throws. -/
def stoll (base : ℕ) (s : Bytes) : Option (ℤ × ℕ) :=
  let sign := stripSign (s.dropWhile isSpace)
  let body := stripHexMark base sign.2
  let ds := takeDigits base body
  if ds = [] then none
  else if (if sign.1 then 2^63 < digitsValue base ds else 2^63 ≤ digitsValue base ds) then none
  else some (if sign.1 then -(digitsValue base ds : ℤ) else digitsValue base ds,
    s.length - body.length + ds.length)

/-- A printed number below `2^63` is read whole. -/
theorem stoll_decimal {n : ℕ} (h : n < 2^63) :
    stoll 10 (decimal n) = some ((n : ℤ), (decimal n).length) := by
  have hdig : ∀ c ∈ decimal n, isDigit c = true := fun c hc => isDigit_of_mem_decimal hc
  have hvalue : digitsValue 10 ((decimal n).map decimalDigit) = n := decimalValue_decimal n
  unfold stoll
  rw [stripSign_of_digits hdig]
  dsimp only
  rw [stripHexMark_ten, takeDigits_of_digits hdig, hvalue,
    if_neg (by simpa using decimal_ne_nil n), if_neg (by simpa using h)]
  simp

end S3Rdma
