import Mathlib.Data.Nat.Digits.Defs
import Mathlib.Data.Nat.Digits.Lemmas

/-!
# Byte strings

A C++ `std::string` is a sequence of bytes, with no terminator and no encoding of its own. `Bytes`
is that sequence. The module has the character classes and the decimal notation that every text
protocol needs: `decimal` is what `std::to_string` prints for an unsigned number, `digitsValue` is
the number a string of digits denotes in a base, and `decimalValue_decimal` says that the second
reads the first back.
-/

namespace S3Rdma

/-- The bytes of a C++ `std::string`. -/
abbrev Bytes := List UInt8

/-- The byte of an ASCII character. -/
abbrev chr (c : Char) : UInt8 := UInt8.ofNat c.toNat

/-- The bytes of an ASCII string literal. -/
def ascii (s : String) : Bytes := s.toList.map chr

/-- The carriage return. -/
abbrev CR : UInt8 := 13

/-- The line feed. -/
abbrev LF : UInt8 := 10

/-- The horizontal tab. -/
abbrev HT : UInt8 := 9

/-- The space. -/
abbrev SP : UInt8 := 32

/-- The decimal digits `'0'` to `'9'`. -/
def isDigit (c : UInt8) : Bool := 48 ≤ c && c ≤ 57

/-- The letters `'A'` to `'Z'`. -/
def isUpper (c : UInt8) : Bool := 65 ≤ c && c ≤ 90

/-- The letters `'a'` to `'z'`. -/
def isLower (c : UInt8) : Bool := 97 ≤ c && c ≤ 122

/-- A hexadecimal digit in lower case. -/
def lowerHex (n : ℕ) : UInt8 := (ascii "0123456789abcdef").getD n 0

/-- A string as C reads it: up to its first NUL. -/
def cString (s : Bytes) : Bytes := s.takeWhile (· != 0)

/-- The blanks that HTTP allows around a field value: space and tab. -/
def isBlank (c : UInt8) : Bool := c == SP || c == HT

/-- A property of all bytes is one of the first 256 numbers, so it can be decided. -/
theorem forall_byte_iff {p : UInt8 → Prop} : (∀ c, p c) ↔ ∀ n, n < 256 → p (UInt8.ofNat n) := by
  refine ⟨fun h n _ => h _, fun h c => ?_⟩
  have hc := h c.toNat c.toNat_lt
  rwa [UInt8.ofNat_toNat] at hc

/-- A string without a NUL is read as a whole. -/
theorem cString_append {s : Bytes} (h : 0 ∉ s) (t : Bytes) : cString (s ++ t) = s ++ cString t := by
  unfold cString
  refine List.takeWhile_append_of_pos fun c hc => ?_
  rw [bne_iff_ne]
  exact fun h0 => h (h0 ▸ hc)

/-- C reads all of a string without a NUL. -/
theorem cString_eq {s : Bytes} (h : 0 ∉ s) : cString s = s := by
  have happend := cString_append h []
  rwa [List.append_nil, show cString [] = [] from rfl, List.append_nil] at happend

/-- What C reads is where the string starts. -/
theorem cString_isPrefixOf (s : Bytes) : cString s <+: s := List.takeWhile_prefix _

/-- A string is read up to a NUL in it. -/
theorem cString_append_of_mem {s : Bytes} (h : 0 ∈ s) (t : Bytes) : cString (s ++ t) = cString s := by
  induction s with
  | nil => exact absurd h List.not_mem_nil
  | cons c s ih =>
    unfold cString at ih ⊢
    rw [List.cons_append, List.takeWhile_cons, List.takeWhile_cons]
    by_cases hc : c = 0
    · simp [hc]
    · have hs : 0 ∈ s := (List.mem_cons.mp h).resolve_left (Ne.symm hc)
      rw [ih hs]

/-- What is not in the text before it, is found behind that text. -/
theorem idxOf?_append_cons {c : UInt8} {s : Bytes} (h : c ∉ s) (rest : Bytes) :
    (s ++ c :: rest).idxOf? c = some s.length := by
  rw [List.idxOf?_eq_some_iff]
  refine ⟨by simp, by simp, ?_⟩
  intro j hj hjeq
  rw [List.getElem_append_left hj] at hjeq
  exact h (hjeq ▸ List.getElem_mem hj)

/-- The first occurrence of a byte cuts the text in two. -/
theorem eq_of_idxOf?_eq_some {c : UInt8} {s : Bytes} {i : ℕ} (h : s.idxOf? c = some i) :
    s = s.take i ++ c :: s.drop (i + 1) ∧ c ∉ s.take i := by
  obtain ⟨hlt, heq, hfirst⟩ := List.idxOf?_eq_some_iff.mp h
  constructor
  · rw [← heq, ← List.drop_eq_getElem_cons hlt, List.take_append_drop]
  · intro hmem
    obtain ⟨j, hj, hc⟩ := List.mem_take_iff_getElem.mp hmem
    exact hfirst j (by omega) hc

/-- A run of elements of a class ends where the class does. -/
theorem takeWhile_append_stop {α : Type*} {p : α → Bool} {run tail : List α}
    (hrun : ∀ c ∈ run, p c = true) (htail : ∀ c ∈ tail.head?, p c = false) :
    (run ++ tail).takeWhile p = run := by
  rw [List.takeWhile_append_of_pos hrun]
  cases tail with
  | nil => simp
  | cons t tail => simp [htail t (by simp)]

/-- Behind a run that meets a test comes what follows the run. -/
theorem dropWhile_append_stop {α : Type*} {p : α → Bool} {run tail : List α}
    (hrun : ∀ c ∈ run, p c = true) (htail : ∀ c ∈ tail.head?, p c = false) :
    (run ++ tail).dropWhile p = tail := by
  rw [List.dropWhile_append_of_pos hrun]
  cases tail with
  | nil => rfl
  | cons t tail => simp [htail t (by simp)]

/-- A byte is a digit exactly when its code lies between those of `'0'` and `'9'`. -/
theorem isDigit_iff {c : UInt8} : isDigit c = true ↔ 48 ≤ c.toNat ∧ c.toNat ≤ 57 := by
  simp [isDigit, UInt8.le_iff_toNat_le]

/-- The byte of the digit `d`. -/
def digitByte (d : ℕ) : UInt8 := UInt8.ofNat (48 + d)

/-- The code of the byte of a digit. -/
theorem digitByte_toNat {d : ℕ} (h : d < 10) : (digitByte d).toNat = 48 + d := by
  unfold digitByte
  rw [UInt8.toNat_ofNat']
  omega

/-- `std::to_string` of an unsigned number: its decimal digits, the most significant first. -/
def decimal (n : ℕ) : Bytes :=
  if n = 0 then [digitByte 0] else (Nat.digits 10 n).reverse.map digitByte

/-- `std::to_string` of a signed number. -/
def decimalInt : ℤ → Bytes
  | .ofNat n => decimal n
  | .negSucc n => chr '-' :: decimal (n + 1)

/-- The number that a sequence of digit values denotes in a base, the most significant first. -/
def digitsValue (base : ℕ) (ds : List ℕ) : ℕ := ds.foldl (fun v d => v * base + d) 0

/-- The value of an ASCII decimal digit. -/
def decimalDigit (c : UInt8) : ℕ := c.toNat - 48

/-- The number that a string of ASCII decimal digits denotes. -/
def decimalValue (s : Bytes) : ℕ := digitsValue 10 (s.map decimalDigit)

/-- A digit is at most nine. -/
theorem decimalDigit_le {c : UInt8} (h : isDigit c = true) : decimalDigit c ≤ 9 := by
  have := isDigit_iff.mp h
  unfold decimalDigit
  omega

/-- Reading the digits of a string from a value on. -/
def decimalFrom (v : ℕ) (s : Bytes) : ℕ := s.foldl (fun v c => v * 10 + decimalDigit c) v

/-- Read from `0`, the digits give the number that the string denotes. -/
theorem decimalFrom_zero (s : Bytes) : decimalFrom 0 s = decimalValue s := by
  unfold decimalFrom decimalValue digitsValue
  rw [List.foldl_map]

/-- More digits never make the value smaller. -/
theorem le_decimalFrom (v : ℕ) (s : Bytes) : v ≤ decimalFrom v s := by
  induction s generalizing v with
  | nil => exact le_rfl
  | cons c cs ih =>
    calc v ≤ v * 10 + decimalDigit c := by omega
      _ ≤ decimalFrom (v * 10 + decimalDigit c) cs := ih _

/-- A digit appended on the right multiplies the value by the base and adds the digit. -/
theorem digitsValue_append (base : ℕ) (ds : List ℕ) (d : ℕ) :
    digitsValue base (ds ++ [d]) = digitsValue base ds * base + d := by
  simp [digitsValue, List.foldl_append]

/-- Little-endian `Nat.ofDigits` reads the same number from the reversed digits. -/
theorem digitsValue_reverse (base : ℕ) (ds : List ℕ) :
    digitsValue base ds.reverse = Nat.ofDigits base ds := by
  induction ds with
  | nil => rfl
  | cons d ds ih =>
    rw [List.reverse_cons, digitsValue_append, ih, Nat.ofDigits_cons]
    ring

/-- The value of the byte of a digit is the digit. -/
theorem decimalDigit_digitByte {d : ℕ} (h : d < 10) : decimalDigit (digitByte d) = d := by
  unfold decimalDigit
  rw [digitByte_toNat h]
  omega

/-- The digits of a printed number, read one by one, are its digits in base ten. -/
theorem map_decimalDigit_digits (n : ℕ) :
    ((Nat.digits 10 n).reverse.map digitByte).map decimalDigit = (Nat.digits 10 n).reverse := by
  rw [List.map_map]
  conv_rhs => rw [← List.map_id (Nat.digits 10 n).reverse]
  apply List.map_congr_left
  intro d hd
  exact decimalDigit_digitByte (Nat.digits_lt_base (by norm_num) (List.mem_reverse.mp hd))

/-- The printed number denotes the number. -/
theorem decimalValue_decimal (n : ℕ) : decimalValue (decimal n) = n := by
  unfold decimal
  split_ifs with h0
  · rw [h0]; decide
  · unfold decimalValue
    rw [map_decimalDigit_digits, digitsValue_reverse, Nat.ofDigits_digits]

/-- A printed number is made of digits. -/
theorem isDigit_of_mem_decimal {n : ℕ} {c : UInt8} (h : c ∈ decimal n) : isDigit c = true := by
  have hbyte : ∀ d, d < 10 → isDigit (digitByte d) = true := by
    intro d hd
    rw [isDigit_iff, digitByte_toNat hd]
    omega
  unfold decimal at h
  split_ifs at h with h0
  · rw [List.mem_singleton.mp h]
    exact hbyte 0 (by norm_num)
  · obtain ⟨d, hd, rfl⟩ := List.mem_map.mp h
    exact hbyte d (Nat.digits_lt_base (by norm_num) (List.mem_reverse.mp hd))

/-- A number below `10^k` has at most `k` digits. -/
theorem length_decimal_le {n k : ℕ} (hk : 0 < k) (h : n < 10^k) : (decimal n).length ≤ k := by
  unfold decimal
  split_ifs
  · exact hk
  · rw [List.length_map, List.length_reverse]
    exact (Nat.digits_length_le_iff (by norm_num) _).mpr h

/-- A printed number consists of digits. -/
theorem all_isDigit_decimal (n : ℕ) : (decimal n).all isDigit = true :=
  List.all_eq_true.mpr fun _ hc => isDigit_of_mem_decimal hc

/-- A printed number has at least one digit. -/
theorem decimal_ne_nil (n : ℕ) : decimal n ≠ [] := by
  unfold decimal
  split_ifs with h0
  · simp
  · simp [Nat.digits_ne_nil_iff_ne_zero, h0]

/-- No zero stands in front of other digits. -/
theorem head_decimal {n : ℕ} (h : 1 < (decimal n).length) : (decimal n).head? ≠ some (chr '0') := by
  unfold decimal at h ⊢
  split_ifs at h ⊢ with h0
  · exact absurd h (by decide)
  · have hne : Nat.digits 10 n ≠ [] := Nat.digits_ne_nil_iff_ne_zero.mpr h0
    have hlast := Nat.getLast_digit_ne_zero 10 h0
    have hlt : (Nat.digits 10 n).getLast hne < 10 :=
      Nat.digits_lt_base (by norm_num) (List.getLast_mem hne)
    rw [List.head?_map, List.head?_reverse, List.getLast?_eq_some_getLast hne, Option.map_some,
      Ne, Option.some_inj, ← UInt8.toNat_inj, digitByte_toNat hlt]
    intro heq
    exact hlast (by simpa using heq)

end S3Rdma
