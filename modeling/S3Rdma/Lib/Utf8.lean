import S3Rdma.Lib.Json

/-!
# UTF-8

A strict decoder of UTF-8, as a machine that takes byte after byte: an overlong form, half of a
surrogate pair, a number above `0x10FFFF` or a character that is cut off makes the whole text
invalid. `step_cases` says what one byte can do, and every result is an induction over the bytes
from it.

An ASCII byte never stands inside a character, so a text can be cut in front of it
(`decode_append_ascii`), and a text whose ASCII bytes are replaced by ASCII texts is valid
exactly when it was before (`decode_flatMap`).
-/

namespace S3Rdma.Utf8

/-! ## The decoder -/

/-- What the next byte inside a character may be. -/
inductive Next where
  | any
  /-- After `0xE0`: nothing that two bytes can say. -/
  | fromA0
  /-- After `0xED`: no half of a surrogate pair. -/
  | upTo9F
  /-- After `0xF0`: nothing that three bytes can say. -/
  | from90
  /-- After `0xF4`: nothing above `0x10FFFF`. -/
  | upTo8F

/-- The first and the last byte that may come next. -/
def Next.range : Next → ℕ × ℕ
  | .any => (0x80, 0xBF)
  | .fromA0 => (0xA0, 0xBF)
  | .upTo9F => (0x80, 0x9F)
  | .from90 => (0x90, 0xBF)
  | .upTo8F => (0x80, 0x8F)

/-- Between two characters, or inside one: how many bytes come after the next one, what the next one
may be, and the bits so far. -/
inductive State where
  | start
  | inside (after : ℕ) (next : Next) (bits : ℕ)

/-- The first byte of a character, and the character if that is all of it. -/
def first (c : ℕ) : Option (State × Text) :=
  if c < 0x80 then some (.start, [c])
  else if c < 0xC2 then none
  else if c < 0xE0 then some (.inside 0 .any (c - 0xC0), [])
  else if c = 0xE0 then some (.inside 1 .fromA0 0, [])
  else if c = 0xED then some (.inside 1 .upTo9F 0xD, [])
  else if c < 0xF0 then some (.inside 1 .any (c - 0xE0), [])
  else if c = 0xF0 then some (.inside 2 .from90 0, [])
  else if c < 0xF4 then some (.inside 2 .any (c - 0xF0), [])
  else if c = 0xF4 then some (.inside 2 .upTo8F 4, [])
  else none

/-- One byte: the state after it, and the character that it ends. -/
def step : State → ℕ → Option (State × Text)
  | .start, c => first c
  | .inside 0 next bits, c =>
    if next.range.1 ≤ c ∧ c ≤ next.range.2 then some (.start, [bits * 64 + (c - 0x80)]) else none
  | .inside (n + 1) next bits, c =>
    if next.range.1 ≤ c ∧ c ≤ next.range.2 then
      some (.inside n .any (bits * 64 + (c - 0x80)), [])
    else none

/-- The characters from a state on. -/
def decodeFrom : Bytes → State → Option Text
  | [], .start => some []
  | [], .inside _ _ _ => none
  | c :: s, q => (step q c.toNat).bind fun p => (decodeFrom s p.1).map (p.2 ++ ·)

/-- The code points of a text in UTF-8. -/
def decode (s : Bytes) : Option Text := decodeFrom s .start

/-- The text is UTF-8. -/
def Valid (s : Bytes) : Prop := (decode s).isSome = true

instance (s : Bytes) : Decidable (Valid s) := inferInstanceAs (Decidable (_ = true))

/-- The bytes of ASCII. -/
def isAscii (c : UInt8) : Bool := c.toNat < 0x80

/-! ## One byte -/

/-- A code point beyond ASCII that is no half of a surrogate pair. -/
def Wide (u : ℕ) : Prop := 0x80 ≤ u ∧ (u < 0xD800 ∨ 0xDFFF < u)

/-- Every way to end the character gives a wide code point. -/
def State.Good : State → Prop
  | .start => True
  | .inside 0 _ bits => 2 ≤ bits ∧ (bits < 0x360 ∨ 0x37F < bits)
  | .inside 1 next bits =>
    (1 ≤ bits ∨ 0xA0 ≤ next.range.1) ∧ (bits ≠ 0xD ∨ next.range.2 ≤ 0x9F)
  | .inside 2 next bits => 1 ≤ bits ∨ 0x90 ≤ next.range.1
  | .inside (_ + 3) _ _ => False

/-- A byte inside a character is not ASCII. -/
theorem le_range (next : Next) : 0x80 ≤ next.range.1 ∧ next.range.2 ≤ 0xBF := by
  cases next <;> decide

/-- Between two characters an ASCII byte is one. -/
theorem step_start {c : ℕ} (h : c < 0x80) : step .start c = some (.start, [c]) := if_pos h

/-- An ASCII byte is not allowed inside a character. -/
theorem step_inside {c : ℕ} (h : c < 0x80) (after : ℕ) (next : Next) (bits : ℕ) :
    step (.inside after next bits) c = none := by
  have hrange := le_range next
  cases after with
  | zero => exact if_neg (by omega)
  | succ n => exact if_neg (by omega)

/-- The first byte of a longer character ends no code point and leaves a good state. -/
theorem first_wide {c : ℕ} {p : State × Text} (h : 0x80 ≤ c) (hp : first c = some p) :
    p.2 = [] ∧ p.1.Good := by
  have hgood : ∀ {q : State}, some (q, ([] : Text)) = some p → q.Good → p.2 = [] ∧ p.1.Good := by
    intro q hqp hq
    obtain rfl := Option.some.inj hqp
    exact ⟨rfl, hq⟩
  unfold first at hp
  rw [if_neg (Nat.not_lt.mpr h)] at hp
  -- the rows of the table in their order
  split at hp
  · cases hp
  split at hp
  · exact hgood hp ⟨by omega, by omega⟩
  split at hp
  · exact hgood hp ⟨.inr le_rfl, by omega⟩
  split at hp
  · exact hgood hp ⟨by omega, .inr le_rfl⟩
  split at hp
  · exact hgood hp ⟨by omega, by omega⟩
  split at hp
  · exact hgood hp (.inr le_rfl)
  split at hp
  · exact hgood hp (.inl (by omega))
  split at hp
  · exact hgood hp (.inl (by omega))
  · cases hp

/-- A byte beyond ASCII keeps the state good, and ends only wide code points. -/
theorem step_wide {q : State} {c : ℕ} {p : State × Text} (h : 0x80 ≤ c) (hq : q.Good)
    (hp : step q c = some p) : p.1.Good ∧ ∀ u ∈ p.2, Wide u := by
  cases q with
  | start =>
    obtain ⟨hnil, hgood⟩ := first_wide h hp
    rw [hnil]
    exact ⟨hgood, by simp⟩
  | inside after next bits =>
    have hall := le_range next
    -- how many bytes come after this one
    rcases after with _ | _ | _ | n
    · rw [step] at hp
      split_ifs at hp with hrange
      obtain rfl := Option.some.inj hp
      refine ⟨trivial, fun u hu => ?_⟩
      have hu := List.mem_singleton.mp hu
      unfold State.Good at hq
      unfold Wide
      omega
    · rw [step] at hp
      split_ifs at hp with hrange
      obtain rfl := Option.some.inj hp
      refine ⟨?_, by simp⟩
      unfold State.Good at hq ⊢
      omega
    · rw [step] at hp
      split_ifs at hp with hrange
      obtain rfl := Option.some.inj hp
      refine ⟨?_, by simp⟩
      unfold State.Good at hq ⊢
      omega
    · exact hq.elim

/-! ## All bytes -/

section

variable {s t : Bytes} {c : UInt8}

/-- An ASCII byte is below 128. -/
theorem isAscii_iff : isAscii c = true ↔ c.toNat < 0x80 := decide_eq_true_iff

/-- A text is decoded by its first byte, and then by the others. -/
theorem decodeFrom_cons (c : UInt8) (s : Bytes) (q : State) : decodeFrom (c :: s) q =
    (step q c.toNat).bind fun p => (decodeFrom s p.1).map (p.2 ++ ·) := by
  rw [decodeFrom.eq_def]

/-- Printable text is ASCII. -/
theorem ascii_of_printable (h : s.all Json.isPrintable = true) : s.all isAscii = true := by
  have hbyte : ∀ c : UInt8, Json.isPrintable c = true → isAscii c = true := by
    rw [forall_byte_iff]
    decide +kernel
  exact List.all_eq_true.mpr fun c hc => hbyte c (List.all_eq_true.mp h c hc)

/-- A literal is ASCII when its characters are. -/
theorem ascii_literal {w : String} {cs : List Char} (hw : w = String.ofList cs)
    (h : (cs.map chr).all isAscii = true) : (ascii w).all isAscii = true := by
  rwa [hw, ascii, String.toList_ofList]

/-- A text is cut in front of an ASCII byte. -/
theorem decodeFrom_append_ascii (hc : isAscii c = true) (s t : Bytes) (q : State) :
    decodeFrom (s ++ c :: t) q =
      (decodeFrom s q).bind fun us => (decode t).map fun vs => us ++ c.toNat :: vs := by
  rw [isAscii_iff] at hc
  induction s generalizing q with
  | nil =>
    rw [List.nil_append]
    cases q with
    | start =>
      rw [decodeFrom_cons, step_start hc]
      rfl
    | inside after next bits =>
      rw [decodeFrom_cons, step_inside hc]
      rfl
  | cons d s ih =>
    rw [List.cons_append, decodeFrom_cons, decodeFrom_cons]
    cases step q d.toNat with
    | none => rfl
    | some p =>
      rw [Option.bind_some, Option.bind_some, ih]
      cases decodeFrom s p.1 <;> cases decode t <;> simp

/-- A text is decoded in two parts where there is an ASCII byte. -/
theorem decode_append_ascii (hc : isAscii c = true) (s t : Bytes) :
    decode (s ++ c :: t) =
      (decode s).bind fun us => (decode t).map fun vs => us ++ c.toNat :: vs :=
  decodeFrom_append_ascii hc s t .start

/-- A text is valid exactly when the parts before and after an ASCII byte in it are. -/
theorem valid_append_ascii (hc : isAscii c = true) (s t : Bytes) :
    Valid (s ++ c :: t) ↔ Valid s ∧ Valid t := by
  unfold Valid
  rw [decode_append_ascii hc]
  cases decode s <;> cases decode t <;> simp

/-- ASCII in front of a text is decoded on its own. -/
theorem decode_ascii_append (hs : s.all isAscii = true) (t : Bytes) :
    decode (s ++ t) = (decode t).map (points s ++ ·) := by
  induction s with
  | nil => cases h : decode t <;> simp [h, points]
  | cons c s ih =>
    rw [List.all_cons, Bool.and_eq_true] at hs
    have hcons := decode_append_ascii hs.1 [] (s ++ t)
    rw [List.nil_append] at hcons
    rw [List.cons_append, hcons, ih hs.2]
    cases decode t <;> rfl

/-- ASCII is UTF-8, with its bytes as code points. -/
theorem decode_ascii (hs : s.all isAscii = true) : decode s = some (points s) := by
  have h := decode_ascii_append hs []
  rw [List.append_nil] at h
  simpa [decode, decodeFrom] using h

/-- ASCII is valid. -/
theorem valid_ascii (hs : s.all isAscii = true) : Valid s := by
  rw [Valid, decode_ascii hs]
  rfl

/-- An ASCII byte behind a text is decoded on its own. -/
theorem decode_concat (hc : isAscii c = true) (s : Bytes) :
    decode (s ++ [c]) = (decode s).map (· ++ [c.toNat]) := by
  rw [decode_append_ascii hc]
  cases decode s <;> rfl

/-- A code point is one of the bytes, in ASCII, or it is a wide one. -/
theorem wide_of_decodeFrom {q : State} (hq : q.Good) {us : Text} (h : decodeFrom s q = some us) :
    ∀ u ∈ us, (∃ c ∈ s, c.toNat = u ∧ u < 0x80) ∨ Wide u := by
  induction s generalizing q us with
  | nil =>
    cases q with
    | start =>
      obtain rfl := Option.some.inj h
      simp
    | inside after next bits => cases h
  | cons c s ih =>
    rw [decodeFrom_cons, Option.bind_eq_some_iff] at h
    obtain ⟨p, hp, hrest⟩ := h
    obtain ⟨vs, hvs, rfl⟩ := Option.map_eq_some_iff.mp hrest
    -- What one byte emits; in the middle of a character an ASCII byte is refused.
    have hone : p.1.Good ∧ ∀ u ∈ p.2, (c.toNat = u ∧ u < 0x80) ∨ Wide u := by
      by_cases hc : c.toNat < 0x80
      · cases q with
        | start =>
          rw [step_start hc] at hp
          obtain rfl := Option.some.inj hp
          refine ⟨trivial, fun u hu => .inl ?_⟩
          obtain rfl := List.mem_singleton.mp hu
          exact ⟨rfl, hc⟩
        | inside after next bits =>
          rw [step_inside hc] at hp
          cases hp
      · obtain ⟨hgood, hwide⟩ := step_wide (Nat.not_lt.mp hc) hq hp
        exact ⟨hgood, fun u hu => .inr (hwide u hu)⟩
    intro u hu
    rcases List.mem_append.mp hu with hu | hu
    · exact (hone.2 u hu).imp_left fun hc => ⟨c, List.mem_cons_self, hc⟩
    · refine (ih hone.1 hvs u hu).imp_left ?_
      rintro ⟨d, hd, hdu⟩
      exact ⟨d, List.mem_cons_of_mem _ hd, hdu⟩

/-! ## Texts that end between characters -/

/-- A text ends between two characters: what follows it is decoded on its own. -/
def Closed (s : Bytes) : Prop :=
  ∀ t, decode (s ++ t) = (decode s).bind fun us => (decode t).map (us ++ ·)

/-- ASCII is closed. -/
theorem closed_ascii (hs : s.all isAscii = true) : Closed s := by
  intro t
  rw [decode_ascii_append hs, decode_ascii hs, Option.bind_some]

/-- A text is closed behind an ASCII byte. -/
theorem closed_concat (hc : isAscii c = true) (s : Bytes) : Closed (s ++ [c]) := by
  intro t
  rw [decode_concat hc, List.append_assoc, List.singleton_append, decode_append_ascii hc]
  cases decode s <;> cases decode t <;> simp

/-- Two closed texts, one after the other, are closed. -/
theorem Closed.append (hs : Closed s) (ht : Closed t) : Closed (s ++ t) := by
  intro r
  rw [List.append_assoc, hs, hs, ht]
  cases decode s <;> cases decode t <;> cases decode r <;> simp

/-- A closed text and what follows are valid together exactly when both are. -/
theorem Closed.valid_append (hs : Closed s) (t : Bytes) : Valid (s ++ t) ↔ Valid s ∧ Valid t := by
  unfold Valid
  rw [hs]
  cases decode s <;> cases decode t <;> simp

/-- Closed texts are closed together, and valid together exactly when each is. -/
theorem closed_flatMap {α : Type*} {f : α → Bytes} {xs : List α} (hf : ∀ x ∈ xs, Closed (f x)) :
    Closed (xs.flatMap f) ∧ (Valid (xs.flatMap f) ↔ ∀ x ∈ xs, Valid (f x)) := by
  induction xs with
  | nil => exact ⟨closed_ascii rfl, by simp [Valid, decode, decodeFrom]⟩
  | cons x xs ih =>
    rw [List.forall_mem_cons] at hf
    obtain ⟨hclosed, hvalid⟩ := ih hf.2
    rw [List.flatMap_cons, hf.1.valid_append, hvalid, List.forall_mem_cons]
    exact ⟨hf.1.append hclosed, Iff.rfl⟩

/-- Closed texts, one after the other, are decoded one by one. -/
theorem decode_flatMap_of_closed {α : Type*} {f : α → Bytes} {g : α → Text} {xs : List α}
    (hf : ∀ x ∈ xs, Closed (f x)) (hg : ∀ x ∈ xs, decode (f x) = some (g x)) :
    decode (xs.flatMap f) = some (xs.flatMap g) := by
  induction xs with
  | nil => rfl
  | cons x xs ih =>
    rw [List.forall_mem_cons] at hf hg
    rw [List.flatMap_cons, hf.1, hg.1, ih hf.2 hg.2]
    rfl

/-! ## Escapes -/

/-- A code point behind an escape of the ASCII bytes. -/
def escapePoint (f : UInt8 → Bytes) (u : ℕ) : Text :=
  if u < 0x80 then points (f (UInt8.ofNat u)) else [u]

/-- A text whose ASCII bytes are escaped, each by ASCII, is valid exactly when it was before, and its
code points are escaped. -/
theorem decode_flatMap {f : UInt8 → Bytes} (hne : ∀ c, f c ≠ [])
    (hascii : ∀ c, isAscii c = true → (f c).all isAscii = true)
    (hself : ∀ c, isAscii c = false → f c = [c]) (s : Bytes) :
    decode (s.flatMap f) = (decode s).map fun us => us.flatMap (escapePoint f) := by
  -- The induction needs every state, for an escape may fall into the middle of a character.
  suffices hfrom : ∀ q : State, q.Good →
      decodeFrom (s.flatMap f) q = (decodeFrom s q).map fun us => us.flatMap (escapePoint f) from
    hfrom .start trivial
  induction s with
  | nil => intro q _; cases q <;> rfl
  | cons c s ih =>
    intro q hq
    rw [List.flatMap_cons, decodeFrom_cons]
    by_cases hc : isAscii c = true
    · have hlt := isAscii_iff.mp hc
      cases q with
      | start =>
        have happend := decode_ascii_append (hascii c hc) (s.flatMap f)
        have hpoint : escapePoint f c.toNat = points (f c) := by
          rw [escapePoint, if_pos hlt, UInt8.ofNat_toNat]
        rw [decode, decode] at happend
        rw [happend, ih .start trivial, step_start hlt, Option.bind_some]
        cases decodeFrom s .start <;> simp [hpoint]
      -- There both sides are refused: the escape starts with an ASCII byte, too.
      | inside after next bits =>
        obtain ⟨d, ds, hds⟩ := List.exists_cons_of_ne_nil (hne c)
        have hd : isAscii d = true := by
          have hall := hascii c hc
          rw [hds, List.all_cons, Bool.and_eq_true] at hall
          exact hall.1
        rw [hds, List.cons_append, decodeFrom_cons, step_inside (isAscii_iff.mp hd), step_inside hlt]
        rfl
    · rw [hself c (Bool.eq_false_iff.mpr hc), List.singleton_append, decodeFrom_cons]
      cases hp : step q c.toNat with
      | none => rfl
      | some p =>
        have hwide := step_wide (Nat.not_lt.mp fun h => hc (isAscii_iff.mpr h)) hq hp
        have hpoint : p.2.flatMap (escapePoint f) = p.2 := by
          conv_rhs => rw [← List.flatMap_singleton' p.2]
          refine List.flatMap_congr fun u hu => if_neg ?_
          exact Nat.not_lt.mpr (hwide.2 u hu).1
        rw [Option.bind_some, Option.bind_some, ih p.1 hwide.1]
        cases decodeFrom s p.1 <;> simp [hpoint]

end

end S3Rdma.Utf8
