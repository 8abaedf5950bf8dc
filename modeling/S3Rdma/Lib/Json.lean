import S3Rdma.Lib.Bytes
import Mathlib.Data.List.TakeWhile

/-!
# JSON

A decoder of JSON texts over code points, with the whole grammar: white space, literals, numbers
with a fraction and an exponent, strings with all escapes (two escaped halves of a surrogate pair
are one code point), arrays and objects. An object keeps its members in order and all of them, also
when two have the same name. The decoder is a function, so a text has at most one value.

Decoders in use accept more than the grammar. `decodeWith ext` takes what `ext` reads where the
grammar has no value, and `decode` is the decoder of the grammar alone. What is proved of a printed
text holds of all of them: a text of the grammar never gets to `ext`.

`Prints text v` says that a text is read as the value wherever a member's value may stand. A flat
object is then read member by member (`decodeWith_objectText`), whatever printed its parts; strings are
printed by escaping code point by code point (`prints_str`), and numbers in decimal (`prints_int`,
`prints_fixed`).
-/

namespace S3Rdma

/-- A text, as its code points. -/
abbrev Text := List ℕ

/-- The code point of a character. -/
abbrev pt (c : Char) : ℕ := c.toNat

/-- Bytes as code points, one for one. -/
def points (s : Bytes) : Text := s.map UInt8.toNat

/-- The code points of two texts are those of the one and those of the other. -/
theorem points_append (s t : Bytes) : points (s ++ t) = points s ++ points t := List.map_append

/-- Bytes are determined by their code points. -/
theorem points_injective : Function.Injective points :=
  List.map_injective_iff.mpr fun _ _ => UInt8.toNat_inj.mp

/-- A JSON value. -/
inductive Json where
  | null
  | bool (b : Bool)
  /-- A number without a fraction and an exponent. -/
  | int (v : ℤ)
  /-- Any other number: the mantissa times ten to the exponent. -/
  | real (mantissa exponent : ℤ)
  /-- A value without a text in the grammar, by the name that an extension reads. -/
  | constant (name : Text)
  | str (s : Text)
  | arr (vs : List Json)
  | obj (fields : List (Text × Json))

namespace Json

/-! ## The decoder -/

/-- White space between tokens. -/
def isWs (c : ℕ) : Bool := c == 32 || c == 9 || c == 10 || c == 13

/-- The text without the white space that it starts with. -/
def skipWs (s : Text) : Text := s.dropWhile isWs

/-- A decimal digit. -/
def isDigitPt (c : ℕ) : Bool := 48 ≤ c && c ≤ 57

/-- The value of a hexadecimal digit, in either case. -/
def hexPt (c : ℕ) : Option ℕ :=
  if 48 ≤ c ∧ c ≤ 57 then some (c - 48)
  else if 97 ≤ c ∧ c ≤ 102 then some (c - 87)
  else if 65 ≤ c ∧ c ≤ 70 then some (c - 55)
  else none

/-- The number of four hexadecimal digits. -/
def hex4 (a b c d : ℕ) : Option ℕ := do
  let a ← hexPt a
  let b ← hexPt b
  let c ← hexPt c
  let d ← hexPt d
  return ((a * 16 + b) * 16 + c) * 16 + d

/-- What a backslash and another character than `u` stand for. -/
def unescape (e : ℕ) : Option ℕ :=
  [(pt '"', pt '"'), (pt '\\', pt '\\'), (pt '/', pt '/'), (pt 'b', 8), (pt 'f', 12), (pt 'n', 10),
    (pt 'r', 13), (pt 't', 9)].lookup e

/-- A string after its opening quote: its code units, and what follows the closing quote. -/
def strBody : Text → Option (Text × Text)
  | [] => none
  | c :: cs =>
    if c = pt '"' then some ([], cs)
    else if c = pt '\\' then
      match cs with
      | [] => none
      | e :: es =>
        if e = pt 'u' then
          match es with
          | h₁ :: h₂ :: h₃ :: h₄ :: rest =>
            (hex4 h₁ h₂ h₃ h₄).bind fun u => (strBody rest).map fun p => (u :: p.1, p.2)
          | _ => none
        else (unescape e).bind fun u => (strBody es).map fun p => (u :: p.1, p.2)
    else if c < 32 then none
    else (strBody cs).map fun p => (c :: p.1, p.2)
termination_by structural s => s

/-- The code points of code units: the two halves of a surrogate pair are one. -/
def joinSurrogates : Text → Text
  | [] => []
  | [u] => [u]
  | u :: v :: us =>
    if 0xD800 ≤ u ∧ u < 0xDC00 ∧ 0xDC00 ≤ v ∧ v < 0xE000 then
      (0x10000 + (u - 0xD800) * 0x400 + (v - 0xDC00)) :: joinSurrogates us
    else u :: joinSurrogates (v :: us)

/-- An optional minus. -/
def splitSign : Text → Bool × Text
  | [] => (false, [])
  | c :: cs => if c = pt '-' then (true, cs) else (false, c :: cs)

/-- An optional fraction: its digits. -/
def fraction : Text → Option (Text × Text)
  | [] => some ([], [])
  | c :: cs =>
    if c = pt '.' then
      if cs.takeWhile isDigitPt = [] then none
      else some (cs.takeWhile isDigitPt, cs.dropWhile isDigitPt)
    else some ([], c :: cs)

/-- The number that digits denote. -/
def digitsPt (ds : Text) : ℕ := digitsValue 10 (ds.map (· - 48))

/-- A number with a sign. -/
def signed (neg : Bool) (n : ℕ) : ℤ := if neg then -n else n

/-- The digits of an exponent, after its sign. -/
def exponentDigits (neg : Bool) (cs : Text) : Option (Option ℤ × Text) :=
  if cs.takeWhile isDigitPt = [] then none
  else some (some (signed neg (digitsPt (cs.takeWhile isDigitPt))), cs.dropWhile isDigitPt)

/-- An optional exponent. -/
def exponent : Text → Option (Option ℤ × Text)
  | [] => some (none, [])
  | c :: cs =>
    if c = pt 'e' ∨ c = pt 'E' then
      match cs with
      | [] => none
      | d :: ds =>
        if d = pt '-' then exponentDigits true ds
        else if d = pt '+' then exponentDigits false ds
        else exponentDigits false (d :: ds)
    else some (none, c :: cs)

/-- A number. -/
def number (s : Text) : Option (Json × Text) :=
  let sign := splitSign s
  let whole := sign.2.takeWhile isDigitPt
  -- No digit, or a zero in front of others.
  if whole = [] ∨ (1 < whole.length ∧ whole.head? = some (pt '0')) then none
  else
    (fraction (sign.2.dropWhile isDigitPt)).bind fun frac =>
      (exponent frac.2).map fun exp =>
        let mantissa := signed sign.1 (digitsPt (whole ++ frac.1))
        (if frac.1 = [] ∧ exp.1 = none then .int mantissa
          else .real mantissa (exp.1.getD 0 - frac.1.length), exp.2)

/-- A literal. -/
def literal (word : Text) (v : Json) (s : Text) : Option (Json × Text) :=
  if word.isPrefixOf s then some (v, s.drop word.length) else none

/-- The code points of a word. -/
def word (s : String) : Text := s.toList.map pt

mutual

/-- A value, without white space in front, and what follows it; the number bounds the depth of the
calls, and `ext` reads what is no value of the grammar. -/
def value (ext : Text → Option (Json × Text)) : ℕ → Text → Option (Json × Text)
  | 0, _ => none
  | _ + 1, [] => none
  | n + 1, c :: cs =>
    if c = pt '"' then (strBody cs).map fun p => (.str (joinSurrogates p.1), p.2)
    else if c = pt '\x7b' then
      match skipWs cs with
      | [] => none
      | d :: ds =>
        if d = pt '\x7d' then some (.obj [], ds)
        else (members ext n (d :: ds)).map fun p => (.obj p.1, p.2)
    else if c = pt '[' then
      match skipWs cs with
      | [] => none
      | d :: ds =>
        if d = pt ']' then some (.arr [], ds)
        else (elements ext n (d :: ds)).map fun p => (.arr p.1, p.2)
    else if c = pt 't' then literal (word "true") (.bool true) (c :: cs)
    else if c = pt 'f' then literal (word "false") (.bool false) (c :: cs)
    else if c = pt 'n' then literal (word "null") .null (c :: cs)
    else (number (c :: cs)).or (ext (c :: cs))

/-- The elements of an array, from the first one on, and what follows the bracket. -/
def elements (ext : Text → Option (Json × Text)) : ℕ → Text → Option (List Json × Text)
  | 0, _ => none
  | n + 1, s =>
    (value ext n s).bind fun v =>
      match skipWs v.2 with
      | [] => none
      | c :: cs =>
        if c = pt ',' then (elements ext n (skipWs cs)).map fun p => (v.1 :: p.1, p.2)
        else if c = pt ']' then some ([v.1], cs)
        else none

/-- The members of an object, from the first one on, and what follows the brace. -/
def members (ext : Text → Option (Json × Text)) : ℕ → Text → Option (List (Text × Json) × Text)
  | 0, _ => none
  | _ + 1, [] => none
  | n + 1, c :: cs =>
    if c = pt '"' then
      (strBody cs).bind fun k =>
        match skipWs k.2 with
        | [] => none
        | d :: ds =>
          if d = pt ':' then
            (value ext n (skipWs ds)).bind fun v =>
              match skipWs v.2 with
              | [] => none
              | e :: es =>
                if e = pt ',' then
                  (members ext n (skipWs es)).map fun p => ((joinSurrogates k.1, v.1) :: p.1, p.2)
                else if e = pt '\x7d' then some ([(joinSurrogates k.1, v.1)], es)
                else none
          else none
    else none

end

/-- A text of one value, with what `ext` reads beside the grammar. -/
def decodeWith (ext : Text → Option (Json × Text)) (s : Text) : Option Json :=
  (value ext (s.length + 1) (skipWs s)).bind fun p => if skipWs p.2 = [] then some p.1 else none

/-- A JSON text. -/
def decode (s : Text) : Option Json := decodeWith (fun _ => none) s

/-! ## Strings -/

/-- In front of any text, the pieces of a string are read as a code point. -/
def Escapes (piece : Text) (u : ℕ) : Prop :=
  ∀ rest, strBody (piece ++ rest) = (strBody rest).map fun p => (u :: p.1, p.2)

/-- A code point that is no control character, quote or backslash stands for itself. -/
theorem escapes_self {u : ℕ} (hquote : u ≠ pt '"') (hback : u ≠ pt '\\') (hctl : 32 ≤ u) :
    Escapes [u] u := by
  intro rest
  rw [List.singleton_append, strBody.eq_def]
  simp only [if_neg hquote, if_neg hback, if_neg (Nat.not_lt.mpr hctl)]

/-- A quote or a backslash is escaped by a backslash. -/
theorem escapes_back {u : ℕ} (h : u = pt '"' ∨ u = pt '\\') : Escapes [pt '\\', u] u := by
  intro rest
  rw [List.cons_append, List.singleton_append, strBody.eq_def]
  rcases h with rfl | rfl
  · rfl
  · rfl

/-- A quote or a backslash is escaped by a backslash, as bytes. -/
theorem escapes_quote {c : UInt8} (h : c = chr '"' ∨ c = chr '\\') :
    Escapes (points [chr '\\', c]) c.toNat := by
  refine escapes_back ?_
  rcases h with rfl | rfl
  · exact .inl rfl
  · exact .inr rfl

/-- Any other byte that is no control character stands for itself. -/
theorem escapes_byte {c : UInt8} (hback : ¬ (c = chr '"' ∨ c = chr '\\')) (hctl : ¬ c < 0x20) :
    Escapes (points [c]) c.toNat := by
  rw [UInt8.lt_iff_toNat_lt] at hctl
  exact escapes_self (fun h => hback (.inl (UInt8.toNat_inj.mp h)))
    (fun h => hback (.inr (UInt8.toNat_inj.mp h))) (Nat.not_lt.mp hctl)

/-- Any code unit is escaped by its four hexadecimal digits. -/
theorem escapes_hex {a b c d u : ℕ} (h : hex4 a b c d = some u) :
    Escapes [pt '\\', pt 'u', a, b, c, d] u := by
  intro rest
  simp only [List.cons_append, List.nil_append]
  rw [strBody.eq_def]
  simp only [if_neg (by decide : ¬ pt '\\' = pt '"'), if_true, h, Option.bind_some]

/-- The escape of a byte by its hexadecimal digits. -/
def hexEscape (c : UInt8) : Bytes :=
  ascii "\\u00" ++ [lowerHex (c.toNat / 16), lowerHex (c.toNat % 16)]

/-- The hexadecimal escape of a byte is read as that byte. -/
theorem escapes_hexEscape (c : UInt8) : Escapes (points (hexEscape c)) c.toNat := by
  have hhex : ∀ c : UInt8, hex4 (pt '0') (pt '0') (lowerHex (c.toNat / 16)).toNat
      (lowerHex (c.toNat % 16)).toNat = some c.toNat := by
    rw [forall_byte_iff]
    decide +kernel
  exact escapes_hex (hhex c)

/-- A string that is escaped code point by code point is read back. -/
theorem strBody_flatMap {esc : ℕ → Text} {us : Text} (h : ∀ u ∈ us, Escapes (esc u) u)
    (rest : Text) : strBody (us.flatMap esc ++ pt '"' :: rest) = some (us, rest) := by
  induction us with
  | nil =>
    rw [List.flatMap_nil, List.nil_append, strBody.eq_def]
    rfl
  | cons u us ih =>
    rw [List.flatMap_cons, List.append_assoc, h u List.mem_cons_self,
      ih fun v hv => h v (List.mem_cons_of_mem _ hv)]
    rfl

/-- Code points of bytes that are escaped one by one. -/
theorem points_flatMap (f : UInt8 → Bytes) (s : Bytes) :
    points (s.flatMap f) = (points s).flatMap fun u => points (f (UInt8.ofNat u)) := by
  simp [points, List.map_flatMap, List.flatMap_map]

/-- Bytes that are escaped one by one are read back as code points. -/
theorem strBody_points {f : UInt8 → Bytes} {s : Bytes}
    (h : ∀ c ∈ s, Escapes (points (f c)) c.toNat) (rest : Text) :
    strBody (points (s.flatMap f) ++ pt '"' :: rest) = some (points s, rest) := by
  rw [points_flatMap]
  refine strBody_flatMap (fun u hu => ?_) rest
  obtain ⟨c, hc, rfl⟩ := List.mem_map.mp hu
  rw [UInt8.ofNat_toNat]
  exact h c hc

/-- Printable ASCII. -/
def isPrintable (c : UInt8) : Bool := 0x20 ≤ c && c ≤ 0x7e

/-- A printable byte that stands for itself in a JSON string. -/
def isPlain (c : UInt8) : Bool := isPrintable c && c != chr '"' && c != chr '\\'

/-- A plain text is printable. -/
theorem printable_of_plain {s : Bytes} (h : s.all isPlain = true) : s.all isPrintable = true := by
  refine List.all_eq_true.mpr fun c hc => ?_
  have hplain := List.all_eq_true.mp h c hc
  simp only [isPlain, Bool.and_eq_true] at hplain
  exact hplain.1.1

/-- A plain text is read as itself. -/
theorem escapes_plain {s : Bytes} (h : s.all isPlain = true) :
    ∀ c ∈ s, Escapes (points [c]) c.toNat := by
  intro c hc
  have hplain := List.all_eq_true.mp h c hc
  simp only [isPlain, isPrintable, Bool.and_eq_true, decide_eq_true_eq, bne_iff_ne] at hplain
  exact escapes_byte (not_or.mpr ⟨hplain.1.2, hplain.2⟩) (UInt8.not_lt.mpr hplain.1.1.1)

/-- Without the first half of a pair there is nothing to join. -/
theorem joinSurrogates_eq {us : Text} (h : ∀ u ∈ us, u < 0xD800 ∨ 0xDC00 ≤ u) :
    joinSurrogates us = us := by
  induction us using joinSurrogates.induct with
  | case1 => rfl
  | case2 u => rfl
  | case3 u v us hpair ih =>
    have hu := h u List.mem_cons_self
    omega
  | case4 u v us hpair ih =>
    rw [joinSurrogates, if_neg hpair, ih fun w hw => h w (List.mem_cons_of_mem _ hw)]

/-- Bytes are no halves of pairs. -/
theorem joinSurrogates_points (s : Bytes) : joinSurrogates (points s) = points s := by
  refine joinSurrogates_eq fun u hu => ?_
  obtain ⟨c, -, rfl⟩ := List.mem_map.mp hu
  have hc := c.toNat_lt
  omega

/-! ## Values -/

/-- What may follow the value of a member. -/
def Stops (rest : Text) : Prop := ∃ c cs, rest = c :: cs ∧ (c = pt ',' ∨ c = pt '\x7d')

/-- The text is read as the value where the value of a member stands, whatever extends the
grammar. -/
structure Prints (text : Text) (v : Json) : Prop where
  head : ∃ c cs, text = c :: cs ∧ isWs c = false
  parses : ∀ ext n rest, Stops rest → value ext (n + 1) (text ++ rest) = some (v, rest)

/-- A printed string is read back. -/
theorem prints_str {esc : ℕ → Text} {us : Text} (h : ∀ u ∈ us, Escapes (esc u) u)
    (hpair : ∀ u ∈ us, u < 0xD800 ∨ 0xDC00 ≤ u) :
    Prints (pt '"' :: (us.flatMap esc ++ [pt '"'])) (.str us) := by
  refine ⟨⟨_, _, rfl, by decide⟩, fun ext n rest _ => ?_⟩
  rw [List.cons_append, List.append_assoc, List.singleton_append, value, if_pos rfl,
    strBody_flatMap h, Option.map_some, joinSurrogates_eq hpair]

/-- A text in quotes. -/
def quoted (s : Bytes) : Bytes := chr '"' :: (s ++ [chr '"'])

/-- A printable text is printable in quotes. -/
theorem printable_quoted {s : Bytes} (h : s.all isPrintable = true) :
    (quoted s).all isPrintable = true := by
  rw [quoted, List.all_cons, List.all_append, h]
  rfl

/-- The code points of a text in quotes. -/
theorem points_quoted (s : Bytes) : points (quoted s) = pt '"' :: (points s ++ [pt '"']) := by
  change pt '"' :: points (s ++ [chr '"']) = _
  rw [points_append]
  rfl

/-- A printed string of bytes is read back. -/
theorem prints_points {f : UInt8 → Bytes} {s : Bytes}
    (h : ∀ c ∈ s, Escapes (points (f c)) c.toNat) :
    Prints (points (quoted (s.flatMap f))) (.str (points s)) := by
  rw [points_quoted]
  refine ⟨⟨_, _, rfl, by decide⟩, fun ext n rest _ => ?_⟩
  rw [List.cons_append, List.append_assoc, List.singleton_append, value, if_pos rfl,
    strBody_points h, Option.map_some, joinSurrogates_points]

/-- The literals are read as their values. -/
theorem prints_literal {s : String} {v : Json} (hv : (s, v) ∈
    [("true", Json.bool true), ("false", .bool false), ("null", .null)]) : Prints (word s) v := by
  simp only [List.mem_cons, Prod.mk.injEq, List.not_mem_nil, or_false] at hv
  rcases hv with ⟨rfl, rfl⟩ | ⟨rfl, rfl⟩ | ⟨rfl, rfl⟩
  · exact ⟨⟨_, _, rfl, by decide⟩, fun ext n rest _ => rfl⟩
  · exact ⟨⟨_, _, rfl, by decide⟩, fun ext n rest _ => rfl⟩
  · exact ⟨⟨_, _, rfl, by decide⟩, fun ext n rest _ => rfl⟩

/-- The truth values are read back. -/
theorem prints_bool (v : Bool) :
    Prints (points (if v then ascii "true" else ascii "false")) (.bool v) := by
  cases v with
  | true => exact prints_literal (s := "true") (v := .bool true) (by simp)
  | false => exact prints_literal (s := "false") (v := .bool false) (by simp)

/-! ## Numbers -/

/-- The text of a sign. -/
def signText (neg : Bool) : Text := if neg then [pt '-'] else []

/-- Digits without a zero in front of others. -/
structure Whole (ds : Text) : Prop where
  ne_nil : ds ≠ []
  digits : ∀ c ∈ ds, isDigitPt c = true
  no_zero : ¬ (1 < ds.length ∧ ds.head? = some (pt '0'))

/-- The code points of the digits. -/
theorem isDigitPt_iff {c : ℕ} : isDigitPt c = true ↔ 48 ≤ c ∧ c ≤ 57 := by
  simp [isDigitPt]

/-- Neither a comma nor a closing brace is a digit, a point, or an exponent's mark. -/
theorem Stops.head {rest : Text} (h : Stops rest) {p : ℕ → Bool}
    (hp : p (pt ',') = false ∧ p (pt '\x7d') = false) : ∀ c ∈ rest.head?, p c = false := by
  obtain ⟨c, cs, rfl, rfl | rfl⟩ := h
  · simpa using hp.1
  · simpa using hp.2

/-- The sign in front of digits is split off. -/
theorem splitSign_signText (neg : Bool) {ds : Text} (h : Whole ds) (rest : Text) :
    splitSign (signText neg ++ (ds ++ rest)) = (neg, ds ++ rest) := by
  obtain ⟨d, ds, rfl⟩ := List.exists_cons_of_ne_nil h.ne_nil
  have hd := isDigitPt_iff.mp (h.digits d List.mem_cons_self)
  have hne : d ≠ pt '-' := by
    rintro rfl
    exact absurd hd (by decide)
  cases neg with
  | true => rfl
  | false =>
    change splitSign (d :: (ds ++ rest)) = _
    rw [splitSign, if_neg hne]
    rfl

/-- There is no fraction where a value stops. -/
theorem fraction_stop {rest : Text} (h : Stops rest) : fraction rest = some ([], rest) := by
  obtain ⟨c, cs, rfl, rfl | rfl⟩ := h
  · rfl
  · rfl

/-- There is no exponent where a value stops. -/
theorem exponent_stop {rest : Text} (h : Stops rest) : exponent rest = some (none, rest) := by
  obtain ⟨c, cs, rfl, rfl | rfl⟩ := h
  · rfl
  · rfl

/-- Digits where a value stops are read as a number without a fraction. -/
theorem number_whole (neg : Bool) {ds rest : Text} (h : Whole ds) (hrest : Stops rest) :
    number (signText neg ++ (ds ++ rest)) = some (.int (signed neg (digitsPt ds)), rest) := by
  have hstop := hrest.head (p := isDigitPt) (by decide)
  unfold number
  rw [splitSign_signText neg h]
  dsimp only
  rw [takeWhile_append_stop h.digits hstop, dropWhile_append_stop h.digits hstop,
    if_neg (not_or.mpr ⟨h.ne_nil, h.no_zero⟩), fraction_stop hrest, Option.bind_some,
    exponent_stop hrest, Option.map_some, List.append_nil]
  rfl

/-- Digits with a point in them are read as a number with a fraction. -/
theorem number_fixed (neg : Bool) {ds frac rest : Text} (h : Whole ds) (hne : frac ≠ [])
    (hfrac : ∀ c ∈ frac, isDigitPt c = true) (hrest : Stops rest) :
    number (signText neg ++ (ds ++ pt '.' :: (frac ++ rest))) =
      some (.real (signed neg (digitsPt (ds ++ frac))) (-(frac.length : ℤ)), rest) := by
  have hstop := hrest.head (p := isDigitPt) (by decide)
  have hpoint : ∀ c ∈ (pt '.' :: (frac ++ rest)).head?, isDigitPt c = false := by
    intro c hc
    obtain rfl : pt '.' = c := by simpa using hc
    decide
  have hfraction : fraction (pt '.' :: (frac ++ rest)) = some (frac, rest) := by
    rw [fraction, if_pos rfl, takeWhile_append_stop hfrac hstop, dropWhile_append_stop hfrac hstop,
      if_neg hne]
  unfold number
  rw [splitSign_signText neg h]
  dsimp only
  rw [takeWhile_append_stop h.digits hpoint, dropWhile_append_stop h.digits hpoint,
    if_neg (not_or.mpr ⟨h.ne_nil, h.no_zero⟩), hfraction, Option.bind_some, exponent_stop hrest,
    Option.map_some, if_neg (fun hnil => hne hnil.1)]
  simp

/-- A text that starts with a sign or a digit is read as a number, if it is one. -/
theorem value_eq_number (ext : Text → Option (Json × Text)) (n : ℕ) (neg : Bool) {ds : Text}
    (h : Whole ds) (rest : Text) :
    value ext (n + 1) (signText neg ++ (ds ++ rest)) =
        (number (signText neg ++ (ds ++ rest))).or (ext (signText neg ++ (ds ++ rest))) ∧
      ∃ c cs, signText neg ++ ds = c :: cs ∧ isWs c = false := by
  obtain ⟨d, ds, rfl⟩ := List.exists_cons_of_ne_nil h.ne_nil
  have hd := isDigitPt_iff.mp (h.digits d List.mem_cons_self)
  cases neg with
  | true => exact ⟨rfl, _, _, rfl, by decide⟩
  | false =>
    refine ⟨?_, d, ds, rfl, ?_⟩
    · have hne : ∀ x : ℕ, x < 48 ∨ 57 < x → d ≠ x := by omega
      change value ext (n + 1) (d :: (ds ++ rest)) =
        (number (d :: (ds ++ rest))).or (ext (d :: (ds ++ rest)))
      rw [value, if_neg (hne _ (by decide)), if_neg (hne _ (by decide)), if_neg (hne _ (by decide)),
        if_neg (hne _ (by decide)), if_neg (hne _ (by decide)), if_neg (hne _ (by decide))]
    · simp [isWs]
      omega

/-- A printed number without a fraction is read back. -/
theorem prints_int (neg : Bool) {ds : Text} (h : Whole ds) :
    Prints (signText neg ++ ds) (.int (signed neg (digitsPt ds))) := by
  refine ⟨(value_eq_number (fun _ => none) 0 neg h []).2, fun ext n rest hrest => ?_⟩
  rw [List.append_assoc, (value_eq_number ext n neg h rest).1, number_whole neg h hrest, Option.some_or]

/-- A printed number with a fraction is read back. -/
theorem prints_fixed (neg : Bool) {ds frac : Text} (h : Whole ds) (hne : frac ≠ [])
    (hfrac : ∀ c ∈ frac, isDigitPt c = true) :
    Prints (signText neg ++ (ds ++ pt '.' :: frac))
      (.real (signed neg (digitsPt (ds ++ frac))) (-(frac.length : ℤ))) := by
  refine ⟨?_, fun ext n rest hrest => ?_⟩
  · obtain ⟨c, cs, hcs, hc⟩ := (value_eq_number (fun _ => none) 0 neg h []).2
    exact ⟨c, cs ++ pt '.' :: frac, by rw [← List.append_assoc, hcs]; rfl, hc⟩
  · have htext : signText neg ++ (ds ++ pt '.' :: frac) ++ rest =
        signText neg ++ (ds ++ pt '.' :: (frac ++ rest)) := by simp
    rw [htext, (value_eq_number ext n neg h _).1, number_fixed neg h hne hfrac hrest,
      Option.some_or]

/-- The decimal digits of a number are a whole part. -/
theorem whole_decimal (n : ℕ) : Whole (points (decimal n)) where
  ne_nil := by simpa [points] using decimal_ne_nil n
  digits := by
    intro c hc
    obtain ⟨b, hb, rfl⟩ := List.mem_map.mp hc
    exact isDigitPt_iff.mpr (isDigit_iff.mp (isDigit_of_mem_decimal hb))
  no_zero := by
    rintro ⟨hlen, hhead⟩
    rw [points, List.length_map] at hlen
    rw [points, List.head?_map, Option.map_eq_some_iff] at hhead
    obtain ⟨b, hb, hb0⟩ := hhead
    have hzero : b = chr '0' := UInt8.toNat_inj.mp hb0
    exact head_decimal hlen (hzero ▸ hb)

/-- The number that digits denote as bytes and as code points. -/
theorem digitsPt_points (s : Bytes) : digitsPt (points s) = decimalValue s := by
  rw [digitsPt, points, List.map_map]
  rfl

/-- Digits are printable. -/
theorem printable_of_digits {s : Bytes} (h : ∀ c ∈ s, isDigit c = true) :
    s.all isPrintable = true := by
  refine List.all_eq_true.mpr fun c hc => ?_
  have hdigit := isDigit_iff.mp (h c hc)
  simp only [isPrintable, Bool.and_eq_true, decide_eq_true_eq, UInt8.le_iff_toNat_le,
    UInt8.reduceToNat]
  omega

/-- A printed number is printable. -/
theorem printable_decimalInt (v : ℤ) : (decimalInt v).all isPrintable = true := by
  have hdecimal : ∀ n, (decimal n).all isPrintable = true :=
    fun n => printable_of_digits fun c hc => isDigit_of_mem_decimal hc
  cases v with
  | ofNat n => exact hdecimal n
  | negSucc n =>
    rw [decimalInt, List.all_cons, hdecimal]
    rfl

/-- A number in decimal is read back. -/
theorem prints_decimalInt (v : ℤ) : Prints (points (decimalInt v)) (.int v) := by
  cases v with
  | ofNat n =>
    have hprints := prints_int false (whole_decimal n)
    rwa [digitsPt_points, decimalValue_decimal] at hprints
  | negSucc n =>
    have hprints := prints_int true (whole_decimal (n + 1))
    rwa [digitsPt_points, decimalValue_decimal] at hprints

/-! ## Objects -/

/-- A member of an object: how its name and its value are printed, and what they are. -/
structure Member where
  keyText : Text
  key : Text
  valueText : Text
  value : Json

/-- The text of a member. -/
def Member.text (m : Member) : Text := pt '"' :: (m.keyText ++ pt '"' :: pt ':' :: m.valueText)

/-- The name and the value of a member are read back. -/
structure Member.Ok (m : Member) : Prop where
  key : ∀ rest, strBody (m.keyText ++ pt '"' :: rest) = some (m.key, rest)
  pairs : joinSurrogates m.key = m.key
  value : Prints m.valueText m.value

/-- Nothing is skipped in front of a token. -/
theorem skipWs_cons {c : ℕ} (h : isWs c = false) (cs : Text) : skipWs (c :: cs) = c :: cs := by
  rw [skipWs, List.dropWhile_cons_of_neg (by simp [h])]

/-- A member with a name that needs no escape. -/
theorem ok_of_plain {k : Bytes} (hk : k.all isPlain = true) {text : Text} {v : Json}
    (hv : Prints text v) : Member.Ok ⟨points k, points k, text, v⟩ where
  key := by
    intro rest
    have hkey := strBody_points (escapes_plain hk) rest
    rwa [List.flatMap_singleton'] at hkey
  pairs := joinSurrogates_points k
  value := hv

/-- The texts of the members, joined by commas. -/
def membersText (ms : List Member) : Text := List.intercalate [pt ','] (ms.map Member.text)

/-- The text of an object. -/
def objectText (ms : List Member) : Text := pt '\x7b' :: (membersText ms ++ [pt '\x7d'])

/-- The text of one member. -/
theorem membersText_singleton (m : Member) : membersText [m] = m.text := by
  simp [membersText, List.intercalate]

/-- The text of the first member, and of the others. -/
theorem membersText_cons_cons (m m' : Member) (ms : List Member) :
    membersText (m :: m' :: ms) = m.text ++ pt ',' :: membersText (m' :: ms) := by
  simp [membersText, List.intercalate]

/-- The text of the first member, and a comma in front of each other one. -/
theorem membersText_cons (m : Member) (ms : List Member) :
    membersText (m :: ms) = m.text ++ ms.flatMap fun m => pt ',' :: m.text := by
  induction ms generalizing m with
  | nil => rw [membersText_singleton, List.flatMap_nil, List.append_nil]
  | cons m' ms ih => rw [membersText_cons_cons, ih, List.flatMap_cons, List.cons_append]

/-- The text of the members starts with the quote of the first name. -/
theorem membersText_head (m : Member) (ms : List Member) :
    ∃ t, membersText (m :: ms) = pt '"' :: t := by
  rw [membersText_cons]
  exact ⟨_, rfl⟩

/-- The text of the members is at least as long as there are members. -/
theorem length_le_membersText (ms : List Member) : ms.length ≤ (membersText ms).length := by
  induction ms with
  | nil => simp
  | cons m ms ih =>
    cases ms with
    | nil => simp [membersText_singleton, Member.text]
    | cons m' ms =>
      rw [membersText_cons_cons]
      simp only [List.length_append, List.length_cons] at ih ⊢
      omega

/-- The text of one more member. -/
theorem membersText_concat {ms : List Member} (hne : ms ≠ []) (m : Member) :
    membersText (ms ++ [m]) = membersText ms ++ pt ',' :: m.text := by
  obtain ⟨m', ms, rfl⟩ := List.exists_cons_of_ne_nil hne
  rw [List.cons_append, membersText_cons, membersText_cons, List.flatMap_append, List.append_assoc,
    List.flatMap_singleton]

/-- A member is read, and after it what the byte behind it asks for. -/
theorem members_text (ext : Text → Option (Json × Text)) {m : Member} (h : m.Ok) (n : ℕ) {e : ℕ}
    {es : Text} (hstop : Stops (e :: es)) :
    members ext (n + 2) (m.text ++ e :: es) =
      if e = pt ',' then
        (members ext (n + 1) (skipWs es)).map fun p => ((m.key, m.value) :: p.1, p.2)
      else if e = pt '\x7d' then some ([(m.key, m.value)], es)
      else none := by
  obtain ⟨c, cs, hcs, hc⟩ := h.value.head
  have htext : m.text ++ e :: es =
      pt '"' :: (m.keyText ++ pt '"' :: pt ':' :: (m.valueText ++ e :: es)) := by
    simp [Member.text]
  have hvalue : skipWs (m.valueText ++ e :: es) = m.valueText ++ e :: es := by
    rw [hcs, List.cons_append, skipWs_cons hc]
  have he : isWs e = false := hstop.head (p := isWs) (by decide) e rfl
  rw [htext, members, if_pos rfl, h.key, Option.bind_some, skipWs_cons (by decide)]
  dsimp only
  rw [if_pos rfl, hvalue, h.value.parses ext n _ hstop, Option.bind_some]
  dsimp only
  rw [skipWs_cons he, h.pairs]

/-- The members of a printed object are read back. -/
theorem members_membersText (ext : Text → Option (Json × Text)) {ms : List Member} (hne : ms ≠ [])
    (h : ∀ m ∈ ms, m.Ok) {n : ℕ} (hn : ms.length < n) (rest : Text) :
    members ext n (membersText ms ++ pt '\x7d' :: rest) =
      some (ms.map fun m => (m.key, m.value), rest) := by
  induction ms generalizing n with
  | nil => exact absurd rfl hne
  | cons m ms ih =>
    -- each member takes one unit of fuel, and its value one more
    obtain ⟨n, rfl⟩ : ∃ k, n = k + 2 := ⟨n - 2, by simp at hn; omega⟩
    have hm := h m List.mem_cons_self
    cases ms with
    | nil =>
      rw [membersText_singleton, members_text ext hm n ⟨_, _, rfl, .inr rfl⟩]
      rfl
    | cons m' ms =>
      obtain ⟨t, ht⟩ := membersText_head m' ms
      have hnext := ih (by simp) (fun x hx => h x (List.mem_cons_of_mem _ hx)) (n := n + 1)
        (by simp at hn ⊢; omega)
      rw [membersText_cons_cons, List.append_assoc, List.cons_append,
        members_text ext hm n ⟨_, _, rfl, .inl rfl⟩, if_pos rfl, ht, List.cons_append,
        skipWs_cons (by decide), ← List.cons_append, ← ht, hnext]
      rfl

/-- A printed object is read back, also with white space behind it, by every decoder. -/
theorem decodeWith_objectText (ext : Text → Option (Json × Text)) {ms : List Member} (hne : ms ≠ [])
    (h : ∀ m ∈ ms, m.Ok) {ws : Text} (hws : ∀ c ∈ ws, isWs c = true) :
    decodeWith ext (objectText ms ++ ws) = some (.obj (ms.map fun m => (m.key, m.value))) := by
  obtain ⟨m, ms, rfl⟩ := List.exists_cons_of_ne_nil hne
  obtain ⟨t, ht⟩ := membersText_head m ms
  have hlen := length_le_membersText (m :: ms)
  have htext : objectText (m :: ms) ++ ws =
      pt '\x7b' :: (membersText (m :: ms) ++ pt '\x7d' :: ws) := by
    simp [objectText]
  have hskip : skipWs ws = [] := List.dropWhile_eq_nil_iff.mpr hws
  unfold decodeWith
  rw [htext, skipWs_cons (by decide), value, if_neg (by decide), if_pos rfl, ht, List.cons_append,
    skipWs_cons (by decide)]
  dsimp only
  rw [if_neg (by decide), ← List.cons_append, ← ht,
    members_membersText ext hne h (by simp at hlen ⊢; omega), Option.map_some, Option.bind_some]
  dsimp only
  rw [if_pos hskip]

end Json

end S3Rdma
