import S3Rdma.Server.HandleGet

/-!
# What a `Range` header is read as

The documentation asks for `bytes=a-b`, and `StrictRange` is that form. `parse_range` splits the
text after `bytes=` at its first dash and gives both halves to `std::stoull`, whose grammar has
white space, signs and an unread rest (`LooseRange`, `parseRange_eq_valid_iff`). So a header is read
strictly unless it is loose and still denotes a window of the file: `parseRange_strict_iff`.
-/

namespace S3Rdma.Server

/-- The text is a decimal number and nothing else. -/
def DigitsOnly (s : Bytes) (v : ℕ) : Prop := s ≠ [] ∧ s.all isDigit = true ∧ decimalValue s = v

/-- The header is `bytes=a-b` and nothing else. -/
def StrictRange (spec : Bytes) (a b : ℕ) : Prop :=
  ∃ first second, spec = ascii "bytes=" ++ (first ++ chr '-' :: second) ∧ DigitsOnly first a ∧
    DigitsOnly second b

/-- The header is `bytes=`, and the two texts around the first dash after it are what `std::stoull`
reads as `a` and `b`. -/
structure LooseRange (spec first second : Bytes) (a b : ℕ) : Prop where
  spec_eq : spec = ascii "bytes=" ++ (first ++ chr '-' :: second)
  dash : chr '-' ∉ first
  first : LooseNumber first a
  second : LooseNumber second b

/-- A decimal number below `2^64` is read as what it denotes. -/
theorem DigitsOnly.loose {s : Bytes} {v : ℕ} (h : DigitsOnly s v) (hv : v < 2^64) :
    LooseNumber s v := by
  obtain ⟨hne, hdig, hvalue⟩ := h
  have hall : ∀ c ∈ s, isDigit c = true := List.all_eq_true.mp hdig
  have hread := stoull_of_digits hne hall (by rwa [hvalue])
  rw [hvalue] at hread
  exact stoull_ten_iff.mp ⟨_, hread⟩

/-- A number whose text is read and consists of digits is what the digits denote. -/
theorem digitsOnly_of_loose {s : Bytes} {v : ℕ} (h : LooseNumber s v)
    (hdig : s.all isDigit = true) : DigitsOnly s v := by
  have hall : ∀ c ∈ s, isDigit c = true := List.all_eq_true.mp hdig
  obtain ⟨pos, hread⟩ := stoull_ten_iff.mpr h
  unfold stoull at hread
  simp only [stripSign_of_digits hall, stripHexMark_ten, takeDigits_of_digits hall,
    Bool.false_eq_true, if_false] at hread
  split_ifs at hread with hnil hbig
  obtain ⟨hvalue, -⟩ := Prod.mk.inj (Option.some.inj hread)
  exact ⟨fun hs => hnil (by rw [hs]; rfl), hdig, hvalue⟩

/-- A strict header within 64 bits is a loose one. -/
theorem StrictRange.loose {spec : Bytes} {a b : ℕ} (h : StrictRange spec a b) (ha : a < 2^64)
    (hb : b < 2^64) :
    ∃ first second, LooseRange spec first second a b ∧ first.all isDigit = true ∧
      second.all isDigit = true := by
  obtain ⟨first, second, hspec, hfirst, hsecond⟩ := h
  have hdash : chr '-' ∉ first := by
    intro hmem
    exact absurd (List.all_eq_true.mp hfirst.2.1 _ hmem) (by decide)
  exact ⟨first, second, ⟨hspec, hdash, hfirst.loose ha, hsecond.loose hb⟩, hfirst.2.1, hsecond.2.1⟩

/-- The first dash splits a header in one way only. -/
theorem split_unique {first second first' second' : Bytes} (h : chr '-' ∉ first)
    (h' : chr '-' ∉ first')
    (heq : ascii "bytes=" ++ (first ++ chr '-' :: second) =
      ascii "bytes=" ++ (first' ++ chr '-' :: second')) : first = first' ∧ second = second' := by
  have hbody := List.append_cancel_left heq
  have hlength := congrArg (List.idxOf? (chr '-')) hbody
  rw [idxOf?_append_cons h, idxOf?_append_cons h', Option.some.injEq] at hlength
  obtain ⟨hfirst, hrest⟩ := List.append_inj hbody hlength
  exact ⟨hfirst, List.tail_eq_of_cons_eq hrest⟩

/-- `parse_range` splits a header of that form at its dash. -/
theorem LooseRange.parseRange_eq {spec first second : Bytes} {a b : ℕ}
    (h : LooseRange spec first second a b) (n : ℕ) :
    parseRange spec n = { start := a, end_ := b, present := true, valid := decide (a ≤ b ∧ b < n) } := by
  obtain ⟨pos, hfirst⟩ := stoull_ten_iff.mpr h.first
  obtain ⟨pos', hsecond⟩ := stoull_ten_iff.mpr h.second
  have hne : spec ≠ [] := by simp [h.spec_eq, ascii]
  have hpre : (ascii "bytes=").isPrefixOf spec = true := by
    rw [List.isPrefixOf_iff_prefix, h.spec_eq]
    exact List.prefix_append _ _
  have hbody : spec.drop (ascii "bytes=").length = first ++ chr '-' :: second := by
    rw [h.spec_eq, List.drop_left]
  have hdrop : (first ++ chr '-' :: second).drop (first.length + 1) = second := by
    rw [List.append_cons, List.drop_left' (by simp)]
  unfold parseRange
  rw [if_neg hne, if_neg (by rw [hpre]; decide)]
  simp only [hbody, idxOf?_append_cons h.dash, List.take_left, hdrop, hfirst, hsecond]
  split_ifs with hcond
  · rw [decide_eq_false (by omega)]
  · rw [decide_eq_true (by omega)]

/-- A header that is accepted is of that form. -/
theorem exists_looseRange_of_valid {spec : Bytes} {n : ℕ} (h : (parseRange spec n).valid = true) :
    ∃ first second a b, LooseRange spec first second a b := by
  unfold parseRange at h
  dsimp only at h
  split_ifs at h with hnil hpre
  split at h
  · simp at h
  · next dash hdash =>
    split at h
    · simp at h
    · next a pos hfirst =>
      split at h
      · simp at h
      · next b pos' hsecond =>
        obtain ⟨hbody, hnot⟩ := eq_of_idxOf?_eq_some hdash
        rw [Bool.not_eq_true', Bool.not_eq_false, List.isPrefixOf_iff_prefix] at hpre
        obtain ⟨body, rfl⟩ := hpre
        rw [List.drop_left] at hbody hnot hfirst hsecond
        refine ⟨_, _, a, b, ?_, hnot, stoull_ten_iff.mp ⟨pos, hfirst⟩,
          stoull_ten_iff.mp ⟨pos', hsecond⟩⟩
        rw [← hbody]

/-- `parse_range` accepts a header exactly if it is read as a window of the file, and then gives
that window. -/
theorem parseRange_eq_valid_iff {spec : Bytes} {n a b : ℕ} :
    parseRange spec n = { start := a, end_ := b, present := true, valid := true } ↔
      (∃ first second, LooseRange spec first second a b) ∧ a ≤ b ∧ b < n := by
  constructor
  · intro h
    obtain ⟨first, second, a', b', hloose⟩ := exists_looseRange_of_valid (by rw [h])
    rw [hloose.parseRange_eq n] at h
    simp only [ByteRange.mk.injEq, decide_eq_true_eq, true_and] at h
    obtain ⟨rfl, rfl, hwindow⟩ := h
    exact ⟨⟨first, second, hloose⟩, hwindow⟩
  · rintro ⟨⟨first, second, hloose⟩, hwindow⟩
    rw [hloose.parseRange_eq n, decide_eq_true hwindow]

/-- A header that is given is present. -/
theorem parseRange_present {spec : Bytes} (h : spec ≠ []) (n : ℕ) :
    (parseRange spec n).present = true := by
  unfold parseRange
  rw [if_neg h]
  dsimp only
  split_ifs
  · rfl
  · split
    · rfl
    · split
      · rfl
      · split
        · rfl
        · split_ifs
          · rfl
          · rfl

/-- `handle_get` answers 416 to a header that is refused, and does nothing else. -/
theorem handleGet_refused {spec : Bytes} (hne : spec ≠ []) {e : FdEntry}
    (h : (parseRange spec e.size).valid = false) (cfg : Config) (token : Bytes) (slot : Staging)
    (env : Env) : handleGet cfg (some e) spec token slot env = (.returned 416 none, []) := by
  have hnone : requestWindow spec e.size = none := by
    simp [requestWindow, hne, h]
  unfold handleGet
  simp only [hnone]

/-- `parse_range` reads a header as the documentation says: it is valid exactly if it is `bytes=a-b`
with `a <= b < file_size`, and then the ends are `a` and `b`; every other header is present and not
valid, and `handle_get` answers 416 to it. -/
structure ReadStrictly (spec : Bytes) (file_size : ℕ) : Prop where
  valid_iff : (parseRange spec file_size).valid = true ↔
    ∃ a b, StrictRange spec a b ∧ a ≤ b ∧ b < file_size
  window : ∀ a b, StrictRange spec a b → a ≤ b → b < file_size →
    (parseRange spec file_size).start = a ∧ (parseRange spec file_size).end_ = b
  present : spec ≠ [] → (parseRange spec file_size).present = true
  refused : spec ≠ [] → (¬ ∃ a b, StrictRange spec a b ∧ a ≤ b ∧ b < file_size) →
    ∀ (cfg : Config) (e : FdEntry) (token : Bytes) (slot : Staging) (env : Env),
      e.size = file_size → handleGet cfg (some e) spec token slot env = (.returned 416 none, [])

/-- A header is read as the documentation says exactly if it is not a loose one that denotes a
window of the file. -/
theorem parseRange_strict_iff (spec : Bytes) (file_size : ℕ) (hsize : file_size < 2^64) :
    ReadStrictly spec file_size ↔
      ∀ first second a b, LooseRange spec first second a b → a ≤ b → b < file_size →
        first.all isDigit = true ∧ second.all isDigit = true := by
  constructor
  · intro h first second a b hloose hab hb
    have hvalid : (parseRange spec file_size).valid = true := by
      rw [hloose.parseRange_eq file_size]
      exact decide_eq_true ⟨hab, hb⟩
    obtain ⟨a', b', ⟨first', second', hspec, hfirst, hsecond⟩, -⟩ := h.valid_iff.mp hvalid
    -- The strict form has its first dash at the same place.
    have hdash : chr '-' ∉ first' := by
      intro hmem
      exact absurd (List.all_eq_true.mp hfirst.2.1 _ hmem) (by decide)
    obtain ⟨rfl, rfl⟩ := split_unique hloose.dash hdash (hloose.spec_eq.symm.trans hspec)
    exact ⟨hfirst.2.1, hsecond.2.1⟩
  · intro h
    have hstrict : ∀ a b, StrictRange spec a b → a ≤ b → b < file_size →
        parseRange spec file_size =
          { start := a, end_ := b, present := true, valid := true } := by
      intro a b hrange hab hb
      obtain ⟨first, second, hloose, -⟩ := hrange.loose (by omega) (by omega)
      exact parseRange_eq_valid_iff.mpr ⟨⟨first, second, hloose⟩, hab, hb⟩
    have hvalid : (parseRange spec file_size).valid = true →
        ∃ a b, StrictRange spec a b ∧ a ≤ b ∧ b < file_size := by
      intro hvalid
      obtain ⟨first, second, a, b, hloose⟩ := exists_looseRange_of_valid hvalid
      rw [hloose.parseRange_eq file_size] at hvalid
      obtain ⟨hab, hb⟩ := of_decide_eq_true hvalid
      obtain ⟨hfirst, hsecond⟩ := h first second a b hloose hab hb
      exact ⟨a, b, ⟨first, second, hloose.spec_eq, digitsOnly_of_loose hloose.first hfirst,
        digitsOnly_of_loose hloose.second hsecond⟩, hab, hb⟩
    refine ⟨⟨hvalid, ?_⟩, fun a b hrange hab hb => ?_, fun hne => parseRange_present hne _, ?_⟩
    · rintro ⟨a, b, hrange, hab, hb⟩
      rw [hstrict a b hrange hab hb]
    · rw [hstrict a b hrange hab hb]
      exact ⟨rfl, rfl⟩
    · rintro hne hnot cfg e token slot env rfl
      exact handleGet_refused hne (Bool.eq_false_iff.mpr (mt hvalid hnot)) cfg token slot env

/-- The header `bytes=1-5` is read strictly. -/
theorem parseRange_strict_plain : ReadStrictly (ascii "bytes=1-5") 10 := by
  refine (parseRange_strict_iff (ascii "bytes=1-5") 10 (by decide)).mpr ?_
  intro first second a b hloose _ _
  have hspec : ascii "bytes=" ++ ([chr '1'] ++ chr '-' :: [chr '5']) =
      ascii "bytes=" ++ (first ++ chr '-' :: second) := hloose.spec_eq
  obtain ⟨rfl, rfl⟩ := split_unique (by decide) hloose.dash hspec
  exact ⟨rfl, rfl⟩

/-- Two ranges are not: the first one is served, and the rest is not read. -/
theorem parseRange_two_ranges :
    parseRange (ascii "bytes=1-5,7-9") 10 = { start := 1, end_ := 5, present := true, valid := true } ∧
      (¬ ∃ a b, StrictRange (ascii "bytes=1-5,7-9") a b) ∧
      ¬ ReadStrictly (ascii "bytes=1-5,7-9") 10 := by
  have hparse : parseRange (ascii "bytes=1-5,7-9") 10 =
      { start := 1, end_ := 5, present := true, valid := true } := by decide +kernel
  -- The comma is neither a digit nor the dash.
  have hnot : ¬ ∃ a b, StrictRange (ascii "bytes=1-5,7-9") a b := by
    rintro ⟨a, b, first, second, hspec, hfirst, hsecond⟩
    have hcomma : chr ',' ∈ first ++ chr '-' :: second := by
      have hmem : chr ',' ∈ ascii "bytes=" ++ (first ++ chr '-' :: second) := by
        rw [← hspec]
        decide
      exact (List.mem_append.mp hmem).resolve_left (by decide)
    rcases List.mem_append.mp hcomma with hmem | hmem
    · exact absurd (List.all_eq_true.mp hfirst.2.1 _ hmem) (by decide)
    · rcases List.mem_cons.mp hmem with heq | hmem
      · exact absurd heq (by decide)
      · exact absurd (List.all_eq_true.mp hsecond.2.1 _ hmem) (by decide)
  refine ⟨hparse, hnot, fun h => hnot ?_⟩
  obtain ⟨a, b, hrange, -⟩ := h.valid_iff.mp (by rw [hparse])
  exact ⟨a, b, hrange⟩

end S3Rdma.Server
