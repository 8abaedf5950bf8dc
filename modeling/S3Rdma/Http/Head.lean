import S3Rdma.Common.RawHttp

/-!
# The strict head grammar

What a response head may look like, said without the parser: a status line, field lines and an empty
line, each ended by CRLF. `parseHead_sound` shows that a head which ends with its first CRLFCRLF and
is not found malformed has that form, and that the fields of the response are the ones it denotes.
Conversely the text of a strict head (`HeadParts.text`) is cut into its lines and accepted as what
it says (`HeadParts.Strict.parseHead_eq`), so the parser accepts exactly that grammar
(`parseHead_exact`).

The parser stops at the first empty line. That nothing follows it is not checked: it follows from
where the head was cut (`strictHead_of_lines`).
-/

namespace S3Rdma

/-- A field line: a name, a colon, and a value with blanks around it. -/
structure IsFieldLine (line name value : Bytes) : Prop where
  split : ∃ raw, line = name ++ chr ':' :: raw ∧ value = trimBlanks raw
  name_ne : name ≠ []
  name_token : name.all isTchar = true
  value_valid : validFieldValue value = true

/-- A status line: the version, three digits and a reason. -/
structure IsStatusLine (line : Bytes) (status : ℕ) : Prop where
  split : ∃ minor d₁ d₂ d₃ reason,
    line = ascii "HTTP/1." ++ [minor, SP, d₁, d₂, d₃, SP] ++ reason ∧
      isDigit minor ∧ isDigit d₁ ∧ isDigit d₂ ∧ isDigit d₃ ∧
      status = decimalValue [d₁, d₂, d₃] ∧ validFieldValue reason = true

/-- A strict HTTP/1.x head with its status and its fields, name and value, in wire order. -/
def StrictHead (head : Bytes) (status : ℕ) (fields : List (Bytes × Bytes)) : Prop :=
  ∃ first lines, head = first ++ CRLF ++ lines.flatMap (· ++ CRLF) ++ CRLF ∧
    IsStatusLine first status ∧ List.Forall₂ (fun line f => IsFieldLine line f.1 f.2) lines fields

/-- The name and the value of a field. -/
def RawField.pair (f : RawField) : Bytes × Bytes := (f.name, f.value)

/-- The values of the fields of a name, given in lower case, in wire order. -/
def valuesOf (fields : List (Bytes × Bytes)) (lower_name : Bytes) : List Bytes :=
  (fields.filter fun f => lower f.1 == lower_name).map Prod.snd

/-- The values of a name in a list of fields that is one more field long. -/
theorem valuesOf_cons (h : Bytes × Bytes) (hs : HeaderList) (n : Bytes) :
    valuesOf (h :: hs) n = if lower h.1 = n then h.2 :: valuesOf hs n else valuesOf hs n := by
  unfold valuesOf
  rw [List.filter_cons]
  by_cases hn : lower h.1 = n
  · simp [hn]
  · simp [hn]

theorem valuesOf_append (hs hs' : HeaderList) (n : Bytes) :
    valuesOf (hs ++ hs') n = valuesOf hs n ++ valuesOf hs' n := by
  unfold valuesOf
  rw [List.filter_append, List.map_append]

/-- There is a value of a name exactly if there is a field of that name. -/
theorem valuesOf_ne_nil_iff {hs : HeaderList} {n : Bytes} :
    valuesOf hs n ≠ [] ↔ n ∈ hs.map fun h => lower h.1 := by
  unfold valuesOf
  rw [ne_eq, List.map_eq_nil_iff, List.filter_eq_nil_iff, List.mem_map]
  simp

theorem valuesOf_map_trim (hs : HeaderList) (n : Bytes) :
    valuesOf (hs.map fun f => (f.1, trimBlanks f.2)) n = (valuesOf hs n).map trimBlanks := by
  unfold valuesOf
  rw [List.filter_map, List.map_map, List.map_map]
  rfl

/-- A valid field value stays so when it is trimmed. -/
theorem validFieldValue_trimBlanks {v : Bytes} (h : validFieldValue v = true) :
    validFieldValue (trimBlanks v) = true := by
  unfold validFieldValue trimBlanks
  rw [List.all_eq_true]
  intro c hc
  have hmem : c ∈ v := (List.dropWhile_sublist _).subset ((List.rdropWhile_prefix _ _).subset hc)
  exact List.all_eq_true.mp h c hmem

/-- Neither the colon nor a control byte is in a field name. -/
theorem isTchar_ne (c : UInt8) :
    isTchar c = true → c ≠ chr ':' ∧ c ≠ CR ∧ c ≠ SP ∧ c ≠ HT ∧ c ≠ chr ';' ∧ c ≠ chr '=' := by
  revert c
  rw [forall_byte_iff]
  decide +kernel

/-- A string is its lines, with their ends, and what follows the last of them. -/
theorem crlfLines_append (s : Bytes) :
    ∃ tail, s = (crlfLines s).flatMap (· ++ CRLF) ++ tail := by
  fun_induction crlfLines s with
  | case1 => exact ⟨[], rfl⟩
  | case2 c => exact ⟨[c], rfl⟩
  | case3 c d rest h ih =>
    obtain ⟨tail, htail⟩ := ih
    obtain ⟨rfl, rfl⟩ := h
    refine ⟨tail, ?_⟩
    rw [List.flatMap_cons, List.append_assoc, ← htail]
    rfl
  | case4 c d rest h hnil ih => exact ⟨c :: d :: rest, rfl⟩
  | case5 c d rest h line lines hcons ih =>
    obtain ⟨tail, htail⟩ := ih
    refine ⟨tail, ?_⟩
    rw [hcons, List.flatMap_cons] at htail
    rw [List.flatMap_cons, htail]
    simp

/-- A status line that is accepted, with a valid reason, is one. -/
theorem parseStatusLine_sound {line version reason : Bytes} {status : ℕ}
    (h : parseStatusLine line = some (version, status, reason))
    (hreason : validFieldValue reason = true) : IsStatusLine line status := by
  unfold parseStatusLine at h
  dsimp only at h
  split_ifs at h with hbad
  simp only [not_or, not_lt, not_not] at hbad
  obtain ⟨hlen, hpre, h7, h8, h12, h9, h10, h11⟩ := hbad
  obtain ⟨rest, rfl⟩ := List.isPrefixOf_iff_prefix.mp hpre
  simp only [Option.some.injEq, Prod.mk.injEq] at h
  obtain ⟨-, rfl, rfl⟩ := h
  -- The seven bytes of `HTTP/1.` are followed by six more.
  match rest, hlen with
  | minor :: s₁ :: d₁ :: d₂ :: d₃ :: s₂ :: reason, _ =>
    obtain rfl : s₁ = SP := h8
    obtain rfl : s₂ = SP := h12
    refine ⟨minor, d₁, d₂, d₃, reason, by simp, h7, h9, h10, h11, ?_, hreason⟩
    show decimalDigit d₁ * 100 + decimalDigit d₂ * 10 + decimalDigit d₃ = _
    simp only [decimalValue, digitsValue, List.map_cons, List.map_nil, List.foldl_cons, List.foldl_nil]
    ring

/-- A field line that is accepted is one. -/
theorem parseFieldLine_sound {line : Bytes} {f : RawField} (h : parseFieldLine line = some f) :
    IsFieldLine line f.name f.value ∧ f.lower_name = lower f.name := by
  unfold parseFieldLine at h
  split_ifs at h
  split at h
  · simp at h
  · rename_i colon hcolon
    dsimp only at h
    split_ifs at h with hbad
    simp only [not_or, not_not] at hbad
    obtain ⟨h0, hname, hvalue⟩ := hbad
    obtain ⟨hlt, heq, -⟩ := List.idxOf?_eq_some_iff.mp hcolon
    obtain rfl := Option.some.inj h
    refine ⟨⟨⟨line.drop (colon + 1), ?_, rfl⟩, ?_, hname, hvalue⟩, rfl⟩
    · show line = line.take colon ++ chr ':' :: line.drop (colon + 1)
      rw [← heq, ← List.drop_eq_getElem_cons hlt, List.take_append_drop]
    · show line.take colon ≠ []
      rw [ne_eq, List.take_eq_nil_iff]
      rintro (h | rfl)
      · exact h0 h
      · simp at hlt

/-- The field lines before the first empty line, when all of them are accepted. -/
theorem parseFieldLines_sound {lines : List Bytes} {fields : List RawField}
    (h : parseFieldLines lines = (fields, true)) :
    ∃ flines more, lines = flines ++ [] :: more ∧
      List.Forall₂ (fun line f => IsFieldLine line f.1 f.2) flines (fields.map RawField.pair) ∧
      ∀ f ∈ fields, f.lower_name = lower f.name := by
  induction lines generalizing fields with
  | nil => simp [parseFieldLines] at h
  | cons line lines ih =>
    unfold parseFieldLines at h
    -- The first empty line is the end of the head; every line before it is a field.
    by_cases hline : line = []
    · rw [if_pos hline, Prod.mk.injEq] at h
      obtain ⟨rfl, -⟩ := h
      exact ⟨[], lines, by rw [hline]; rfl, .nil, by simp⟩
    · rw [if_neg hline] at h
      cases hf : parseFieldLine line with
      | none => simp [hf] at h
      | some f =>
        simp only [hf, Prod.mk.injEq] at h
        obtain ⟨rfl, hdone⟩ := h
        obtain ⟨hfl, hlow⟩ := parseFieldLine_sound hf
        obtain ⟨flines, more, hsplit, hall, hlows⟩ := ih (Prod.ext rfl hdone)
        refine ⟨line :: flines, more, by rw [hsplit]; rfl, .cons hfl hall, ?_⟩
        intro g hg
        rcases List.mem_cons.mp hg with rfl | hg
        · exact hlow
        · exact hlows g hg

/-- Lines with their ends end with CRLF. -/
theorem flatMap_crlf_eq {lines : List Bytes} (h : lines ≠ []) :
    ∃ before, lines.flatMap (· ++ CRLF) = before ++ CRLF := by
  rcases List.eq_nil_or_concat' lines with rfl | ⟨init, last, rfl⟩
  · exact absurd rfl h
  · refine ⟨init.flatMap (· ++ CRLF) ++ last, ?_⟩
    rw [List.flatMap_append, List.flatMap_singleton, List.append_assoc]

/-- A head that is cut behind its first CRLFCRLF ends with its first empty line. -/
theorem strictHead_of_lines {head first tail : Bytes} {flines more : List Bytes} {status : ℕ}
    {fields : List (Bytes × Bytes)}
    (hhead : head = (first :: (flines ++ [] :: more)).flatMap (· ++ CRLF) ++ tail)
    (hend : findSub CRLFCRLF head = some (head.length - 4))
    (hfirst : IsStatusLine first status)
    (hlines : List.Forall₂ (fun line f => IsFieldLine line f.1 f.2) flines fields) :
    StrictHead head status fields := by
  obtain ⟨before, hbefore⟩ := flatMap_crlf_eq (List.cons_ne_nil first flines)
  generalize hrest : more.flatMap (· ++ CRLF) ++ tail = rest
  have hsplit : head = before ++ (CRLFCRLF ++ rest) := by
    calc head = (first :: flines).flatMap (· ++ CRLF) ++ (CRLF ++ rest) := by
          rw [hhead, ← hrest]
          simp
      _ = before ++ CRLF ++ (CRLF ++ rest) := by rw [hbefore]
      _ = before ++ (CRLFCRLF ++ rest) := by simp [CRLF, CRLFCRLF]
  -- The empty line ends an occurrence of CRLFCRLF, and the first one is at the end.
  have hnil : rest = [] := by
    obtain ⟨-, -, hmin⟩ := findSub_eq_some_iff.mp hend
    have hle : head.length - 4 ≤ before.length := by
      by_contra hlt
      refine hmin before.length (by omega) ?_
      rw [hsplit, List.drop_left]
      exact List.prefix_append _ _
    rw [hsplit, List.length_append, List.length_append] at hle
    have h4 : CRLFCRLF.length = 4 := rfl
    exact List.eq_nil_of_length_eq_zero (by omega)
  refine ⟨first, flines, ?_, hfirst, hlines⟩
  rw [hsplit, hnil, List.append_nil]
  calc before ++ CRLFCRLF = before ++ CRLF ++ CRLF := by simp [CRLF, CRLFCRLF]
    _ = (first :: flines).flatMap (· ++ CRLF) ++ CRLF := by rw [hbefore]
    _ = first ++ CRLF ++ flines.flatMap (· ++ CRLF) ++ CRLF := by rw [List.flatMap_cons]

/-- A head that ends with its first CRLFCRLF and is not found malformed is strict, and the response
has its status and its fields. -/
theorem parseHead_sound {r : RawResponse}
    (hend : findSub CRLFCRLF r.head_bytes = some (r.head_bytes.length - 4))
    (hok : (parseHead r).head_malformed = false) :
    StrictHead r.head_bytes (parseHead r).status ((parseHead r).fields.map RawField.pair) ∧
      ∀ f ∈ (parseHead r).fields, f.lower_name = lower f.name := by
  obtain ⟨tail, htail⟩ := crlfLines_append r.head_bytes
  unfold parseHead at hok ⊢
  cases hlines : crlfLines r.head_bytes with
  | nil => simp [hlines] at hok
  | cons first lines =>
    simp only [hlines] at hok ⊢
    cases hst : parseStatusLine first with
    | none => simp [hst] at hok
    | some v =>
      obtain ⟨version, status, reason⟩ := v
      simp only [hst] at hok ⊢
      by_cases hreason : validFieldValue reason = true
      · simp only [hreason, Bool.not_true, Bool.false_eq_true, if_false, Bool.not_eq_false'] at hok ⊢
        obtain ⟨flines, more, hsplit, hall, hlow⟩ := parseFieldLines_sound (Prod.ext rfl hok)
        rw [hlines, hsplit] at htail
        exact ⟨strictHead_of_lines htail hend (parseStatusLine_sound hst hreason) hall, hlow⟩
      · simp [hreason] at hok

/-! ## A head by its parts -/

/-- No control byte but the tab, and no DEL. -/
def NoControl (v : Bytes) : Prop := ∀ c ∈ v, (c < 32 → c = HT) ∧ c ≠ 127

/-- A head by its parts. -/
structure HeadParts where
  /-- The digit of the version. -/
  minor : UInt8
  /-- The digits of the status. -/
  d₁ : UInt8
  d₂ : UInt8
  d₃ : UInt8
  reason : Bytes
  /-- The name of each field line, and what follows its colon. -/
  fields : List (Bytes × Bytes)

/-- A field line, from its name and what follows its colon. -/
def fieldLine (f : Bytes × Bytes) : Bytes := f.1 ++ chr ':' :: f.2

/-- A line cut at its first colon. -/
def cutAtColon (line : Bytes) : Bytes × Bytes :=
  (line.takeWhile (· ≠ chr ':'), (line.dropWhile (· ≠ chr ':')).drop 1)

namespace HeadParts

def statusLine (p : HeadParts) : Bytes :=
  ascii "HTTP/1." ++ [p.minor, SP, p.d₁, p.d₂, p.d₃, SP] ++ p.reason

/-- The lines of the head, with the empty one. -/
def lines (p : HeadParts) : List Bytes := p.statusLine :: (p.fields.map fieldLine ++ [[]])

/-- The head: every line is ended by CRLF. -/
def text (p : HeadParts) : Bytes := p.lines.flatMap (· ++ CRLF)

/-- The fields as they are to be recorded. -/
def rawFields (p : HeadParts) : List RawField :=
  p.fields.map fun f => ⟨f.1, lower f.1, trimBlanks f.2, fieldLine f⟩

/-- The strict grammar. -/
structure Strict (p : HeadParts) : Prop where
  minor_digit : isDigit p.minor = true
  d₁_digit : isDigit p.d₁ = true
  d₂_digit : isDigit p.d₂ = true
  d₃_digit : isDigit p.d₃ = true
  reason_valid : NoControl p.reason
  fields_valid : ∀ f ∈ p.fields, f.1 ≠ [] ∧ f.1.all isTchar = true ∧ NoControl (trimBlanks f.2)

end HeadParts

theorem validFieldValue_iff {v : Bytes} : validFieldValue v = true ↔ NoControl v := by
  unfold validFieldValue NoControl
  rw [List.all_eq_true]
  refine forall₂_congr fun c _ => ?_
  simp only [Bool.not_eq_true', Bool.or_eq_false_iff, Bool.and_eq_false_iff, decide_eq_false_iff_not,
    bne_eq_false_iff_eq, beq_eq_false_iff_ne, ← imp_iff_not_or, ne_eq]

theorem NoControl.append {v w : Bytes} (hv : NoControl v) (hw : NoControl w) : NoControl (v ++ w) :=
  List.forall_mem_append.mpr ⟨hv, hw⟩

/-- No line end is in a text without control bytes. -/
theorem NoControl.not_mem {v : Bytes} (h : NoControl v) : CR ∉ v ∧ LF ∉ v :=
  ⟨fun hmem => absurd ((h CR hmem).1 (by decide)) (by decide),
    fun hmem => absurd ((h LF hmem).1 (by decide)) (by decide)⟩

/-- Digits, the bytes of a name and blanks are no control bytes. -/
theorem noControl_byte (c : UInt8) :
    isDigit c = true ∨ isTchar c = true ∨ isBlank c = true → (c < 32 → c = HT) ∧ c ≠ 127 := by
  revert c
  rw [forall_byte_iff]
  decide +kernel

/-- A status line has no control bytes. -/
theorem IsStatusLine.noControl {line : Bytes} {status : ℕ} (h : IsStatusLine line status) :
    NoControl line := by
  obtain ⟨minor, d₁, d₂, d₃, reason, rfl, hminor, h₁, h₂, h₃, -, hreason⟩ := h.split
  have hversion : NoControl (ascii "HTTP/1.") := validFieldValue_iff.mp (by decide)
  have hsp : isBlank SP = true := by decide
  refine (hversion.append ?_).append (validFieldValue_iff.mp hreason)
  intro c hc
  apply noControl_byte
  simp only [List.mem_cons, List.not_mem_nil, or_false] at hc
  rcases hc with rfl | rfl | rfl | rfl | rfl | rfl
  · exact .inl hminor
  · exact .inr (.inr hsp)
  · exact .inl h₁
  · exact .inl h₂
  · exact .inl h₃
  · exact .inr (.inr hsp)

/-- Bytes that trimming removes are blanks. -/
theorem mem_of_mem_trimBlanks {raw : Bytes} {c : UInt8} (h : c ∈ raw) :
    c ∈ trimBlanks raw ∨ isBlank c = true := by
  by_cases hc : isBlank c = true
  · exact .inr hc
  · left
    unfold trimBlanks
    -- Trimming at either end keeps what is no blank.
    have hkeep : ∀ {s : Bytes}, c ∈ s → c ∈ s.dropWhile isBlank := by
      intro s hs
      rw [← @List.takeWhile_append_dropWhile _ isBlank s, List.mem_append] at hs
      exact hs.resolve_left fun hm => hc (List.mem_takeWhile_imp hm)
    rw [List.rdropWhile, List.mem_reverse]
    exact hkeep (List.mem_reverse.mpr (hkeep h))

/-- A field line is not empty and has no control bytes. -/
theorem IsFieldLine.noControl {line name value : Bytes} (h : IsFieldLine line name value) :
    line ≠ [] ∧ NoControl line := by
  obtain ⟨raw, rfl, rfl⟩ := h.split
  refine ⟨by simp, ?_⟩
  have hname : NoControl name := fun c hc =>
    noControl_byte c (.inr (.inl (List.all_eq_true.mp h.name_token c hc)))
  refine hname.append fun c hc => ?_
  rcases List.mem_cons.mp hc with rfl | hc
  · decide
  · rcases mem_of_mem_trimBlanks hc with hkept | hblank
    · exact validFieldValue_iff.mp h.value_valid c hkept
    · exact noControl_byte c (.inr (.inr hblank))

/-- The lines of a strict head are nonempty and have no carriage return. -/
theorem forall₂_fieldLine {lines : List Bytes} {fields : List (Bytes × Bytes)}
    (h : List.Forall₂ (fun line f => IsFieldLine line f.1 f.2) lines fields) :
    ∀ line ∈ lines, line ≠ [] ∧ CR ∉ line := by
  induction h with
  | nil => simp
  | cons hf _ ih =>
    intro line hline
    rcases List.mem_cons.mp hline with rfl | hline
    · exact ⟨hf.noControl.1, hf.noControl.2.not_mem.1⟩
    · exact ih line hline

/-- A field line is cut at the colon behind its name. -/
theorem cutAtColon_fieldLine {f : Bytes × Bytes} (h : f.1.all isTchar = true) :
    cutAtColon (fieldLine f) = f := by
  have hname : ∀ c ∈ f.1, (decide (c ≠ chr ':')) = true := fun c hc =>
    decide_eq_true (isTchar_ne c (List.all_eq_true.mp h c hc)).1
  unfold cutAtColon fieldLine
  rw [List.takeWhile_append_of_pos hname, List.dropWhile_append_of_pos hname,
    List.takeWhile_cons_of_neg (by decide), List.dropWhile_cons_of_neg (by decide), List.append_nil]
  rfl

/-- The lines of a text that is given by its lines. -/
theorem crlfLines_flatMap {lines : List Bytes} (h : ∀ line ∈ lines, CR ∉ line) (rest : Bytes) :
    crlfLines (lines.flatMap (· ++ CRLF) ++ rest) = lines ++ crlfLines rest := by
  induction lines with
  | nil => rfl
  | cons line lines ih =>
    rw [List.flatMap_cons, List.append_assoc, crlfLines_line (h line List.mem_cons_self),
      ih fun l hl => h l (List.mem_cons_of_mem _ hl), List.cons_append]

/-! ## A strict head is accepted -/

/-- A status line is accepted with its parts. -/
theorem parseStatusLine_complete {p : HeadParts} (hp : p.Strict) :
    parseStatusLine p.statusLine =
      some (ascii "HTTP/1." ++ [p.minor], decimalValue [p.d₁, p.d₂, p.d₃], p.reason) := by
  have hlen : ¬ p.statusLine.length < 13 := by simp [HeadParts.statusLine, ascii]
  have hpre : (ascii "HTTP/1.").isPrefixOf p.statusLine = true := by
    rw [List.isPrefixOf_iff_prefix, HeadParts.statusLine, List.append_assoc]
    exact List.prefix_append _ _
  have hvalue : decimalValue [p.d₁, p.d₂, p.d₃] =
      decimalDigit p.d₁ * 100 + decimalDigit p.d₂ * 10 + decimalDigit p.d₃ := by
    simp only [decimalValue, digitsValue, List.map_cons, List.map_nil, List.foldl_cons,
      List.foldl_nil]
    ring
  unfold parseStatusLine
  dsimp only
  rw [if_neg, hvalue]
  · rfl
  · simp only [not_or, not_not]
    exact ⟨hlen, hpre, hp.minor_digit, rfl, rfl, hp.d₁_digit, hp.d₂_digit, hp.d₃_digit⟩

/-- A field line is accepted as the field it denotes. -/
theorem parseFieldLine_complete {line name value : Bytes} (h : IsFieldLine line name value) :
    parseFieldLine line = some ⟨name, lower name, value, line⟩ := by
  obtain ⟨raw, hline, hvalue⟩ := h.split
  have htoken : ∀ d ∈ name, isTchar d = true := List.all_eq_true.mp h.name_token
  have hblank : ¬ (line.head? = some SP ∨ line.head? = some HT) := by
    obtain ⟨c, more, hname⟩ := List.exists_cons_of_ne_nil h.name_ne
    obtain ⟨-, -, hsp, hht, -⟩ := isTchar_ne c (htoken c (hname ▸ List.mem_cons_self))
    rw [hline, hname]
    simp [hsp, hht]
  have hcolon : line.idxOf? (chr ':') = some name.length := by
    rw [hline]
    exact idxOf?_append_cons (fun hmem => (isTchar_ne _ (htoken _ hmem)).1 rfl) _
  have htake : line.take name.length = name := by rw [hline, List.take_left]
  have hdrop : line.drop (name.length + 1) = raw := by
    rw [hline, List.append_cons, List.drop_left' (by simp)]
  unfold parseFieldLine
  rw [if_neg hblank, hcolon]
  dsimp only
  rw [htake, hdrop, ← hvalue, if_neg]
  simp [h.name_ne, h.name_token, h.value_valid]

/-- Field lines are accepted up to the empty line. -/
theorem parseFieldLines_complete {fields : List (Bytes × Bytes)}
    (h : ∀ f ∈ fields, IsFieldLine (fieldLine f) f.1 (trimBlanks f.2)) (more : List Bytes) :
    parseFieldLines (fields.map fieldLine ++ [] :: more) =
      (fields.map fun f => ⟨f.1, lower f.1, trimBlanks f.2, fieldLine f⟩, true) := by
  induction fields with
  | nil => rfl
  | cons f fields ih =>
    have hf := h f List.mem_cons_self
    rw [List.map_cons, List.cons_append, parseFieldLines, if_neg hf.noControl.1,
      parseFieldLine_complete hf, ih fun g hg => h g (List.mem_cons_of_mem _ hg)]
    rfl

namespace HeadParts.Strict

variable {p q : HeadParts}

theorem isStatusLine (hp : p.Strict) :
    IsStatusLine p.statusLine (decimalValue [p.d₁, p.d₂, p.d₃]) :=
  ⟨p.minor, p.d₁, p.d₂, p.d₃, p.reason, rfl, hp.minor_digit, hp.d₁_digit, hp.d₂_digit, hp.d₃_digit,
    rfl, validFieldValue_iff.mpr hp.reason_valid⟩

theorem isFieldLine (hp : p.Strict) {f : Bytes × Bytes} (hf : f ∈ p.fields) :
    IsFieldLine (fieldLine f) f.1 (trimBlanks f.2) := by
  obtain ⟨hne, htoken, hvalue⟩ := hp.fields_valid f hf
  exact ⟨⟨f.2, rfl, rfl⟩, hne, htoken, validFieldValue_iff.mpr hvalue⟩

/-- No line of a strict head has a control byte. -/
theorem noControl (hp : p.Strict) : ∀ line ∈ p.lines, NoControl line := by
  intro line hline
  rw [lines, List.mem_cons, List.mem_append, List.mem_singleton] at hline
  rcases hline with rfl | hline | rfl
  · exact hp.isStatusLine.noControl
  · obtain ⟨f, hf, rfl⟩ := List.mem_map.mp hline
    exact (hp.isFieldLine hf).noControl.2
  · exact List.forall_mem_nil _

theorem crlfLines_text (hp : p.Strict) : crlfLines p.text = p.lines := by
  have hlines := crlfLines_flatMap (fun line hl => (hp.noControl line hl).not_mem.1) []
  rwa [List.append_nil, crlfLines, List.append_nil] at hlines

/-- A strict head has one reading. -/
theorem eq_of_text_eq (hp : p.Strict) (hq : q.Strict) (h : p.text = q.text) : p = q := by
  have hlines : p.lines = q.lines := by rw [← hp.crlfLines_text, ← hq.crlfLines_text, h]
  obtain ⟨hstatus, hfields⟩ := List.cons.inj hlines
  -- Cutting every field line at its colon gives the fields back.
  have hcut : ∀ {o : HeadParts}, o.Strict → (o.fields.map fieldLine).map cutAtColon = o.fields := by
    intro o ho
    calc (o.fields.map fieldLine).map cutAtColon
        = o.fields.map fun f => cutAtColon (fieldLine f) := List.map_map
      _ = o.fields.map id :=
          List.map_congr_left fun f hf => cutAtColon_fieldLine (ho.fields_valid f hf).2.1
      _ = o.fields := List.map_id _
  have heq : p.fields = q.fields := by
    rw [← hcut hp, ← hcut hq, List.append_cancel_right hfields]
  cases p
  cases q
  simp only [statusLine, List.append_assoc, List.append_cancel_left_eq, List.cons_append,
    List.nil_append, List.cons.injEq, true_and] at hstatus
  simp only [HeadParts.mk.injEq]
  exact ⟨hstatus.1, hstatus.2.1, hstatus.2.2.1, hstatus.2.2.2.1, hstatus.2.2.2.2, heq⟩

/-- A strict head is accepted as what it says. -/
theorem parseHead_eq (hp : p.Strict) {r : RawResponse} (hr : r.head_bytes = p.text) :
    parseHead r = { r with
      http_version := ascii "HTTP/1." ++ [p.minor], status := decimalValue [p.d₁, p.d₂, p.d₃],
      reason := p.reason, fields := p.rawFields, head_malformed := false } := by
  have hfields := parseFieldLines_complete (fun f hf => hp.isFieldLine hf) []
  have hreason := validFieldValue_iff.mpr hp.reason_valid
  unfold parseHead
  rw [hr, hp.crlfLines_text]
  simp only [lines, parseStatusLine_complete hp, hreason, hfields, Bool.not_true, Bool.false_eq_true,
    if_false]
  rfl

end HeadParts.Strict

/-- A strict head has parts. -/
theorem StrictHead.exists_parts {head : Bytes} {status : ℕ} {fields : List (Bytes × Bytes)}
    (h : StrictHead head status fields) :
    ∃ p : HeadParts, p.Strict ∧ p.text = head ∧ decimalValue [p.d₁, p.d₂, p.d₃] = status ∧
      p.rawFields.map RawField.pair = fields := by
  obtain ⟨first, lines, rfl, hfirst, hlines⟩ := h
  obtain ⟨minor, d₁, d₂, d₃, reason, rfl, hminor, h₁, h₂, h₃, rfl, hreason⟩ := hfirst.split
  -- What follows the colon of each line, read off line by line.
  obtain ⟨raws, rfl, rfl, hraws⟩ : ∃ raws : List (Bytes × Bytes), lines = raws.map fieldLine ∧
      fields = raws.map (fun f => (f.1, trimBlanks f.2)) ∧
      ∀ f ∈ raws, f.1 ≠ [] ∧ f.1.all isTchar = true ∧ NoControl (trimBlanks f.2) := by
    clear hfirst
    induction hlines with
    | nil => exact ⟨[], rfl, rfl, by simp⟩
    | @cons line f lines fields hf _ ih =>
      obtain ⟨raws, rfl, rfl, hraws⟩ := ih
      obtain ⟨raw, rfl, hvalue⟩ := hf.split
      refine ⟨(f.1, raw) :: raws, rfl, by rw [List.map_cons, ← hvalue], ?_⟩
      rw [List.forall_mem_cons]
      exact ⟨⟨hf.name_ne, hf.name_token, validFieldValue_iff.mp (hvalue ▸ hf.value_valid)⟩, hraws⟩
  refine ⟨⟨minor, d₁, d₂, d₃, reason, raws⟩, ⟨hminor, h₁, h₂, h₃, validFieldValue_iff.mp hreason,
    hraws⟩, ?_, rfl, ?_⟩
  · simp [HeadParts.text, HeadParts.lines, HeadParts.statusLine]
  · simp [HeadParts.rawFields, RawField.pair]

/-- A strict head is accepted, and the response has its status and its fields. -/
theorem parseHead_complete {head : Bytes} {status : ℕ} {fields : List (Bytes × Bytes)}
    (h : StrictHead head status fields) {r : RawResponse} (hr : r.head_bytes = head) :
    (parseHead r).head_malformed = false ∧ (parseHead r).status = status ∧
      (parseHead r).fields.map RawField.pair = fields ∧
      ∀ f ∈ (parseHead r).fields, f.lower_name = lower f.name := by
  obtain ⟨p, hp, htext, hstatus, hfields⟩ := h.exists_parts
  rw [hp.parseHead_eq (hr.trans htext.symm)]
  refine ⟨rfl, hstatus, hfields, fun f hf => ?_⟩
  obtain ⟨g, -, rfl⟩ := List.mem_map.mp hf
  rfl

/-- A strict head ends with the first CRLFCRLF of what starts with it. -/
theorem StrictHead.findSub_eq {head : Bytes} {status : ℕ} {fields : List (Bytes × Bytes)}
    (h : StrictHead head status fields) (body : Bytes) :
    4 ≤ head.length ∧ findSub CRLFCRLF (head ++ body) = some (head.length - 4) := by
  obtain ⟨first, lines, rfl, hfirst, hlines⟩ := h
  have hlen : CRLF.length = 2 := rfl
  have hsplit : first ++ CRLF ++ lines.flatMap (· ++ CRLF) ++ CRLF ++ body =
      first ++ (CRLF ++ (lines.flatMap (· ++ CRLF) ++ (CRLF ++ body))) := by simp
  rw [hsplit, findSub_line hfirst.noControl.not_mem.1, findSub_lines (forall₂_fieldLine hlines)]
  generalize lines.flatMap (· ++ CRLF) = text
  simp only [List.length_append, hlen, Option.map_some, Option.some.injEq]
  omega

/-- Parsing the head changes nothing that was known before. -/
theorem parseHead_frame (r : RawResponse) :
    (parseHead r).head_bytes = r.head_bytes ∧ (parseHead r).head_complete = r.head_complete ∧
      (parseHead r).transport_error = r.transport_error ∧ (parseHead r).error = r.error := by
  unfold parseHead
  split
  · exact ⟨rfl, rfl, rfl, rfl⟩
  · split
    · exact ⟨rfl, rfl, rfl, rfl⟩
    · split_ifs
      · exact ⟨rfl, rfl, rfl, rfl⟩
      · exact ⟨rfl, rfl, rfl, rfl⟩

/-! ## Exactly the strict heads are accepted -/

/-- On a text that ends with its first CRLFCRLF, `parse_head` accepts exactly the strict grammar.
What it records is what the text says: there is one reading, the fields are in wire order, and the
status line, the recorded lines and an empty line give the text back, with no line end inside a
line. -/
theorem parseHead_exact (r : RawResponse) {h : Bytes}
    (hend : findSub CRLFCRLF h = some (h.length - 4)) :
    let r' := parseHead { r with head_bytes := h, head_malformed := false, fields := [] }
    (r'.head_malformed = false ↔ ∃ p : HeadParts, p.Strict ∧ p.text = h) ∧
      ∀ p : HeadParts, p.Strict → p.text = h →
        (∀ q : HeadParts, q.Strict → q.text = h → q = p) ∧
          r'.http_version = ascii "HTTP/1." ++ [p.minor] ∧
          r'.status = decimalValue [p.d₁, p.d₂, p.d₃] ∧ r'.reason = p.reason ∧
          r'.fields = p.rawFields ∧
          h = (p.statusLine :: (r'.fields.map RawField.line ++ [[]])).flatMap (· ++ CRLF) ∧
          ∀ line ∈ p.statusLine :: r'.fields.map RawField.line, CR ∉ line ∧ LF ∉ line := by
  intro r'
  -- A strict text determines the whole result, from which the rest is read off.
  have haccept : ∀ p : HeadParts, p.Strict → p.text = h → r' = { r with
      head_bytes := h, http_version := ascii "HTTP/1." ++ [p.minor],
      status := decimalValue [p.d₁, p.d₂, p.d₃], reason := p.reason, fields := p.rawFields,
      head_malformed := false } := by
    intro p hp htext
    exact hp.parseHead_eq htext.symm
  refine ⟨⟨fun hok => ?_, fun ⟨p, hp, htext⟩ => by rw [haccept p hp htext]⟩, fun p hp htext => ?_⟩
  · obtain ⟨p, hp, htext, -⟩ := (parseHead_sound hend hok).1.exists_parts
    exact ⟨p, hp, htext⟩
  · have hlines : p.rawFields.map RawField.line = p.fields.map fieldLine := List.map_map
    rw [haccept p hp htext]
    refine ⟨fun q hq hqtext => hq.eq_of_text_eq hp (hqtext.trans htext.symm), rfl, rfl, rfl, rfl, ?_,
      fun line hline => (hp.noControl line ?_).not_mem⟩
    · rw [← htext, hlines]
      rfl
    · rw [hlines] at hline
      exact List.mem_append_left [[]] hline

/-- A response without a reason that has one field. -/
def noContentHead : HeadParts :=
  ⟨chr '1', chr '2', chr '0', chr '4', [], [(ascii "etag", ascii " x")]⟩

theorem parseHead_exact_noContent :
    findSub CRLFCRLF noContentHead.text = some (noContentHead.text.length - 4) ∧
      (parseHead { head_bytes := noContentHead.text }).status = 204 ∧
      (parseHead { head_bytes := noContentHead.text }).fields =
        [⟨ascii "etag", ascii "etag", ascii "x", ascii "etag: x"⟩] := by
  have hend : findSub CRLFCRLF noContentHead.text = some (noContentHead.text.length - 4) := by decide
  have hstrict : noContentHead.Strict := by
    refine ⟨by decide, by decide, by decide, by decide, List.forall_mem_nil _, ?_⟩
    intro f hf
    obtain rfl := List.mem_singleton.mp hf
    exact ⟨by decide, by decide, validFieldValue_iff.mp (by decide)⟩
  obtain ⟨-, -, hstatus, -, hfields, -⟩ := (parseHead_exact {} hend).2 noContentHead hstrict rfl
  exact ⟨hend, hstatus, hfields⟩

end S3Rdma
