import S3Rdma.Scope.Run
import Mathlib.Data.List.DropRight

/-!
# Reading the log of the scope probe

`load` and `case_verdict` of `src/probe/tools/map_scope_outcome.py`, on the log of a run. Python
decodes the whole file as UTF-8 before it looks at a line, and nothing catches the error, so one
byte that is not UTF-8 loses all verdicts of the file (`load_log_error`). Otherwise every line is
the object of its event (`decode_object`), its tag is the case and its verdict, if it is a result,
the one that was logged.

So a log is readable exactly when the texts from outside in its events are UTF-8
(`readable_iff`); nothing in the probe makes them so.
-/

namespace S3Rdma.Scope

open Json (isPlain word)

/-! ## The mapper -/

/-- The exceptions that `load` and `case_verdict` do not catch. -/
inductive PyError where
  | unicodeDecodeError
  | attributeError
  | typeError
deriving DecidableEq

/-- Universal newlines: a carriage return, alone or with a line feed, is read as a line feed. `cr`
says that the last character was one. -/
def newlines (cr : Bool) : Text → Text
  | [] => []
  | c :: s =>
    if c = 13 then 10 :: newlines true s
    else if c = 10 ∧ cr then newlines false s
    else c :: newlines false s

/-- The lines of a file, each with its line feed. -/
def fileLines : Text → List Text
  | [] => []
  | c :: s =>
    if c = 10 then [10] :: fileLines s
    else
      match fileLines s with
      | [] => [[c]]
      | l :: ls => (c :: l) :: ls

/-- `str.isspace` of one character. -/
def isPySpace (c : ℕ) : Bool :=
  (9 ≤ c && c ≤ 13) || (28 ≤ c && c ≤ 32) || (0x2000 ≤ c && c ≤ 0x200A) ||
    c ∈ [0x85, 0xA0, 0x1680, 0x2028, 0x2029, 0x202F, 0x205F, 0x3000]

/-- `str.strip`. -/
def strip (s : Text) : Text := (s.dropWhile isPySpace).rdropWhile isPySpace

/-- `dict.get`: the last member of the name, or `None`. -/
def get (fields : List (Text × Json)) (k : Text) : Json :=
  ((fields.reverse.find? (·.1 == k)).map (·.2)).getD .null

/-- The value may be the key of a `dict`. -/
def isHashable : Json → Bool
  | .arr _ => false
  | .obj _ => false
  | _ => true

/-- The value is the text. -/
def isText (s : Text) : Json → Bool
  | .str t => t == s
  | _ => false

/-- The constants that `json.loads` reads beside the grammar. -/
def parseConstant (s : Text) : Option (Json × Text) :=
  ["NaN", "Infinity", "-Infinity"].findSome? fun name =>
    Json.literal (word name) (.constant (word name)) s

/-- `json.loads`, with `none` for its `ValueError`. -/
def loads (s : Text) : Option Json := Json.decodeWith parseConstant s

/-- One line of `load`: its tag and the line, unless it is empty or no JSON. -/
def loadLine (ln : Text) : Except PyError (Option (Json × Text)) :=
  let ln := strip ln
  if ln = [] then .ok none
  else
    match loads ln with
    | none => .ok none
    | some (.obj fields) =>
      let tag := get fields (word "case")
      if isHashable tag then .ok (some (tag, ln)) else .error .typeError
    | some _ => .error .attributeError

/-- The lines of a file in `load`. -/
def loadLines : List Text → Except PyError (List (Json × Text))
  | [] => .ok []
  | ln :: lns => (loadLine ln).bind fun e => (loadLines lns).map fun es => e.toList ++ es

/-- `load`, on the contents of the files. The dictionary of lists is given by the pairs in the order
in which they are added. -/
def load : List Bytes → Except PyError (List (Json × Text))
  | [] => .ok []
  | file :: files =>
    match Utf8.decode file with
    | none => .error .unicodeDecodeError
    | some text =>
      (loadLines (fileLines (newlines false text))).bind fun es => (load files).map (es ++ ·)

/-- `by_case.get(c, [])`. -/
def linesOf (by_case : List (Json × Text)) (c : Text) : List Text :=
  (by_case.filter (isText c ·.1)).map (·.2)

/-- The loop of `case_verdict`. -/
def verdictFrom (verdict : Json) : List Text → Except PyError Json
  | [] => .ok verdict
  | ln :: lns =>
    match loads ln with
    | none => verdictFrom verdict lns
    | some (.obj fields) =>
      if isText (word "result") (get fields (word "event")) then
        verdictFrom (get fields (word "verdict")) lns
      else verdictFrom verdict lns
    | some _ => .error .attributeError

/-- `case_verdict`. -/
def caseVerdict (lines : List Text) : Except PyError Json := verdictFrom .null lines

/-! ## What the log is for -/

/-- The log that the events print. -/
def log (exp : Case) (es : List Event) : Bytes := es.flatMap (Event.print exp)

/-- The event is a result. -/
def Event.isResult : Event → Bool
  | .result _ _ _ => true
  | _ => false

/-- The verdict of a result. -/
def Event.verdict? : Event → Option Verdict
  | .result v _ _ => some v
  | _ => none

/-- The verdict of the last result, as the mapper gives it. -/
def lastVerdict (es : List Event) : Json :=
  ((es.filterMap Event.verdict?).getLast?).elim .null fun v => .str (points v.text)

/-- Every line is a JSON object in UTF-8, and the mapper finds the verdict of the last result. -/
structure Readable (exp : Case) (es : List Event) : Prop where
  lines : ∀ e ∈ es, ∃ text fields, Utf8.decode (e.print exp) = some text ∧
    Json.decode text = some (.obj fields)
  verdict : ∃ by_case, load [log exp es] = .ok by_case ∧
    caseVerdict (linesOf by_case (points exp.text)) = .ok (lastVerdict es)

/-! ## Lines of the file -/

/-- Nothing changes without carriage returns. -/
theorem newlines_eq {s : Text} (h : 13 ∉ s) : newlines false s = s := by
  induction s with
  | nil => rfl
  | cons c s ih =>
    rw [List.mem_cons, not_or] at h
    rw [newlines, if_neg (Ne.symm h.1), if_neg (by simp), ih h.2]

/-- The first line ends at the first line feed. -/
theorem fileLines_append {l : Text} (h : 10 ∉ l) (s : Text) :
    fileLines (l ++ 10 :: s) = (l ++ [10]) :: fileLines s := by
  induction l with
  | nil => rw [List.nil_append, fileLines, if_pos rfl, List.nil_append]
  | cons c l ih =>
    rw [List.mem_cons, not_or] at h
    rw [List.cons_append, fileLines, if_neg (Ne.symm h.1), ih h.2]
    rfl

/-- Lines that are printed one after the other are the lines of the file. -/
theorem fileLines_flatMap {α : Type*} {f : α → Text} {xs : List α} (h : ∀ x ∈ xs, 10 ∉ f x) :
    fileLines (xs.flatMap fun x => f x ++ [10]) = xs.map fun x => f x ++ [10] := by
  induction xs with
  | nil => rfl
  | cons x xs ih =>
    rw [List.forall_mem_cons] at h
    rw [List.flatMap_cons, List.append_assoc, List.singleton_append, fileLines_append h.1, ih h.2,
      List.map_cons]

/-- The object of a line is not stripped, the line feed behind it is. -/
theorem strip_objectText (ms : List Json.Member) :
    strip (Json.objectText ms ++ [10]) = Json.objectText ms := by
  have hfront : (Json.objectText ms ++ [10]).dropWhile isPySpace = Json.objectText ms ++ [10] :=
    List.dropWhile_cons_of_neg (by decide)
  have hback : Json.objectText ms =
      (pt '\x7b' :: Json.membersText ms) ++ [pt '\x7d'] := rfl
  rw [strip, hfront, List.rdropWhile_concat_pos _ _ _ (by decide), hback,
    List.rdropWhile_concat_neg _ _ _ (by decide)]

/-! ## Members -/

/-- A member in front of others is not found when its name is another one. -/
theorem get_cons_of_ne {g : Text × Json} {k : Text} (h : g.1 ≠ k) (fs : List (Text × Json)) :
    get (g :: fs) k = get fs k := by
  rw [get, get, List.reverse_cons, List.find?_append,
    List.find?_cons_of_neg (by simpa using h), List.find?_nil, Option.or_none]

/-- The first member is found under its name when no other one has it. -/
theorem get_cons_of_fresh {g : Text × Json} {fs : List (Text × Json)} (h : ∀ f ∈ fs, f.1 ≠ g.1) :
    get (g :: fs) g.1 = g.2 := by
  have hnone : fs.reverse.find? (·.1 == g.1) = none := by
    rw [List.find?_eq_none]
    intro f hf
    simpa using h f (List.mem_reverse.mp hf)
  rw [get, List.reverse_cons, List.find?_append, hnone, Option.none_or,
    List.find?_cons_of_pos (by simp)]
  rfl

/-- No event has a field with the name of the tag or of the event. -/
theorem keys_fresh (e : Event) :
    e.fields.all (fun f => f.k != ascii "case" && f.k != ascii "event") = true := by
  cases e with
  | register who rc bytes errno => cases bytes <;> rfl
  | callback who call_index encoding c => cases c <;> rfl
  | result v detail diagnostic_only => cases diagnostic_only <;> rfl
  | visibility | boundary | head | env | callbackMax | get | landed | sliceToken | manualGet => rfl

/-- The names of the fields, as code points. -/
theorem fields_fresh (e : Event) : ∀ f ∈ e.fields.map fun f : Field => (points f.k, f.v.json),
    f.1 ≠ points (ascii "case") ∧ f.1 ≠ points (ascii "event") := by
  intro f hf
  obtain ⟨g, hg, rfl⟩ := List.mem_map.mp hf
  have hfresh := List.all_eq_true.mp (keys_fresh e) g hg
  rw [Bool.and_eq_true, bne_iff_ne, bne_iff_ne] at hfresh
  exact ⟨fun h => hfresh.1 (points_injective h), fun h => hfresh.2 (points_injective h)⟩

/-- A plain text is its own JSON string. -/
theorem json_plain {s : Bytes} (h : s.all isPlain = true) :
    (FieldValue.str s).json = .str (points s) := by
  rw [FieldValue.json, Utf8.decode_ascii (Utf8.ascii_of_printable (Json.printable_of_plain h)),
    Option.getD_some]

/-- Under `case`, the object of a line has the tag. -/
theorem get_case (e : Event) (exp : Case) :
    get (e.object exp) (word "case") = .str (points exp.text) := by
  have hfresh : ∀ f ∈ e.allFields.map fun f : Field => (points f.k, f.v.json),
      f.1 ≠ points (ascii "case") := by
    intro f hf
    rcases List.mem_cons.mp hf with rfl | hf
    · change points (ascii "event") ≠ points (ascii "case")
      decide
    · exact (fields_fresh e f hf).1
  exact (get_cons_of_fresh hfresh).trans (json_plain (plain_text exp))

/-- Under `event`, the object of a line has the name of the event. -/
theorem get_event (e : Event) (exp : Case) :
    get (e.object exp) (word "event") = .str (points e.name) := by
  have hfresh := fun f hf => (fields_fresh e f hf).2
  have hne : points (ascii "case") ≠ word "event" := by decide
  exact (get_cons_of_ne hne _).trans
    ((get_cons_of_fresh hfresh).trans (json_plain (plain_keys e).1))

/-- Under `verdict`, the object of a result has the verdict. -/
theorem get_verdict (v : Verdict) (detail : Bytes) (diagnostic_only : Bool) (exp : Case) :
    get ((Event.result v detail diagnostic_only).object exp) (word "verdict") =
      .str (points v.text) := by
  have hverdict : (FieldValue.str v.text).json = .str (points v.text) := by cases v <;> rfl
  rw [← hverdict]
  cases diagnostic_only <;> rfl

/-- Only a result has the name of one. -/
theorem isText_name (e : Event) : isText (word "result") (.str (points e.name)) = e.isResult := by
  cases e with
  | callback who call_index encoding c => cases c <;> rfl
  | visibility | boundary | head | env | register | callbackMax | get | landed | sliceToken
  | manualGet | result => rfl

/-! ## Lines of the log -/

section

variable {e : Event} (h : ∀ f ∈ e.fields, f.v.Valid) (exp : Case)

include h

/-- The object of a line has no control character. -/
theorem objectText_clear : ∀ u ∈ Json.objectText (e.members exp), 0x20 ≤ u := by
  intro u hu
  have hpoint := Utf8.wide_of_decodeFrom (q := .start) trivial (decode_line h exp) u hu
  rcases hpoint with ⟨c, hc, rfl, -⟩ | hwide
  · have hclear := List.all_eq_true.mp (line_clear exp e) c hc
    simp only [isControl, Bool.not_eq_true', decide_eq_false_iff_not, UInt8.lt_iff_toNat_lt] at hclear
    exact Nat.not_lt.mp hclear
  · unfold Utf8.Wide at hwide
    omega

/-- A printed line is UTF-8, and is the object of its event with a line feed. -/
theorem decode_print :
    Utf8.decode (e.print exp) = some (Json.objectText (e.members exp) ++ [10]) := by
  rw [print_eq, Utf8.decode_concat rfl, decode_line h exp]
  rfl

/-- A line is loaded with its tag. -/
theorem loadLine_print : loadLine (Json.objectText (e.members exp) ++ [10]) =
    .ok (some (.str (points exp.text), Json.objectText (e.members exp))) := by
  have hne : Json.objectText (e.members exp) ≠ [] := List.cons_ne_nil _ _
  unfold loadLine
  rw [strip_objectText]
  dsimp only
  rw [if_neg hne, loads, decode_object _ h exp]
  dsimp only
  rw [get_case]
  rfl

end

/-- The lines of the log are closed texts. -/
theorem closed_print (exp : Case) (e : Event) : Utf8.Closed (e.print exp) := by
  rw [print_eq]
  exact Utf8.closed_concat rfl _

/-- A line is UTF-8 exactly when the texts from outside in it are. -/
theorem valid_print_iff (exp : Case) (e : Event) :
    Utf8.Valid (e.print exp) ↔ ∀ t ∈ e.externals, Utf8.Valid t := by
  rw [print_eq, Utf8.valid_append_ascii rfl, valid_line_iff, fields_valid_iff]
  exact and_iff_left (by decide)

/-- One byte that is not UTF-8 loses the file. -/
theorem load_log_error {exp : Case} {es : List Event} {e : Event} (he : e ∈ es) {t : Bytes}
    (ht : t ∈ e.externals) (hinvalid : ¬ Utf8.Valid t) :
    load [log exp es] = .error .unicodeDecodeError := by
  have hlog : ¬ Utf8.Valid (log exp es) := by
    rw [log, (Utf8.closed_flatMap fun e _ => closed_print exp e).2]
    exact fun hall => hinvalid ((valid_print_iff exp e).mp (hall e he) t ht)
  rw [Utf8.Valid, Bool.not_eq_true, Option.isSome_eq_false_iff, Option.isNone_iff_eq_none] at hlog
  rw [load, hlog]

/-! ## The whole log -/

section

variable {es : List Event} (h : ∀ e ∈ es, ∀ f ∈ e.fields, f.v.Valid) (exp : Case)

include h

/-- The lines of the log are the objects of its events, each with a line feed. -/
theorem fileLines_log : ∃ text, Utf8.decode (log exp es) = some text ∧
    fileLines (newlines false text) = es.map fun e => Json.objectText (e.members exp) ++ [10] := by
  have hdecode := Utf8.decode_flatMap_of_closed (fun e _ => closed_print exp e)
    fun e he => decode_print (h e he) exp
  have hclear := fun e he => objectText_clear (h e he) exp
  refine ⟨_, hdecode, ?_⟩
  rw [newlines_eq, fileLines_flatMap]
  · intro e he h10
    exact absurd (hclear e he 10 h10) (by decide)
  · intro h13
    obtain ⟨e, he, hmem⟩ := List.mem_flatMap.mp h13
    rcases List.mem_append.mp hmem with hmem | hmem
    · exact absurd (hclear e he 13 hmem) (by decide)
    · exact absurd hmem (by decide)

/-- Every line of the log is loaded with its tag. -/
theorem loadLines_log :
    loadLines (es.map fun e => Json.objectText (e.members exp) ++ [10]) =
      .ok (es.map fun e => (.str (points exp.text), Json.objectText (e.members exp))) := by
  induction es with
  | nil => rfl
  | cons e es ih =>
    rw [List.forall_mem_cons] at h
    rw [List.map_cons, loadLines, loadLine_print h.1, ih h.2]
    rfl

/-- The log is loaded, all its lines with the tag of the case. -/
theorem load_log : load [log exp es] =
    .ok (es.map fun e => (.str (points exp.text), Json.objectText (e.members exp))) := by
  obtain ⟨text, htext, hlines⟩ := fileLines_log h exp
  rw [load, htext]
  dsimp only
  rw [hlines, loadLines_log h exp]
  exact congrArg Except.ok (List.append_nil _)

/-- The loop over the lines of the log gives the verdict of the last result. -/
theorem verdictFrom_log (verdict : Json) :
    verdictFrom verdict (es.map fun e => Json.objectText (e.members exp)) =
      .ok (((es.filterMap Event.verdict?).getLast?).elim verdict
        fun v => .str (points v.text)) := by
  induction es generalizing verdict with
  | nil => rfl
  | cons e es ih =>
    rw [List.forall_mem_cons] at h
    rw [List.map_cons, verdictFrom, loads, decode_object _ h.1 exp]
    dsimp only
    rw [get_event, isText_name]
    cases e with
    | result v detail diagnostic_only =>
      have hlast : (Event.result v detail diagnostic_only :: es).filterMap Event.verdict? =
          v :: es.filterMap Event.verdict? := rfl
      have hresult : (Event.result v detail diagnostic_only).isResult = true := rfl
      rw [get_verdict, if_pos hresult, ih h.2, hlast, List.getLast?_cons]
      cases (es.filterMap Event.verdict?).getLast? <;> rfl
    | visibility | boundary | head | env | register | callbackMax | callback | get | landed
    | sliceToken | manualGet => exact ih h.2 verdict

end

/-- A log is readable exactly when every text from outside in its events is UTF-8. -/
theorem readable_iff (exp : Case) (es : List Event) :
    Readable exp es ↔ ∀ e ∈ es, ∀ t ∈ e.externals, Utf8.Valid t := by
  constructor
  · intro hread e he
    obtain ⟨text, fields, htext, -⟩ := hread.lines e he
    refine (valid_print_iff exp e).mp ?_
    rw [Utf8.Valid, htext]
    rfl
  · intro hvalid
    have hfields : ∀ e ∈ es, ∀ f ∈ e.fields, f.v.Valid :=
      fun e he => (fields_valid_iff e).mpr (hvalid e he)
    refine ⟨fun e he => ?_, _, load_log hfields exp, ?_⟩
    · exact ⟨_, e.object exp, decode_print (hfields e he) exp,
        decode_object_append _ (hfields e he) exp (by decide)⟩
    · have hlines : linesOf (es.map fun e => (.str (points exp.text),
          Json.objectText (e.members exp))) (points exp.text) =
          es.map fun e => Json.objectText (e.members exp) := by
        rw [linesOf, List.filter_eq_self.mpr, List.map_map]
        · rfl
        · intro p hp
          obtain ⟨e, -, rfl⟩ := List.mem_map.mp hp
          exact beq_self_eq_true _
      rw [hlines]
      exact verdictFrom_log hfields exp .null

/-! ## Runs -/

/-- The texts from outside in what the HEAD request gives. -/
def HeadAnswer.texts : HeadAnswer → List Bytes
  | .buildFailure what => [what]
  | .transportFailure error => [error]
  | .response _ _ => []

/-- The texts from outside in an event of a run: the names of the command line, the text of an
exception and the error of the HTTP client. -/
def Event.inputs (head : HeadAnswer) : Event → List Bytes
  | .head _ _ => head.texts
  | .env o _ _ _ => [o.bucket, o.object]
  | .callback _ _ _ (.requestError what) => [what]
  | .callback _ _ _ (.transportError error) => [error]
  | _ => []

/-- The detail of the HEAD request is UTF-8 exactly when its text from outside is. -/
theorem valid_headObject (head : HeadAnswer) :
    Utf8.Valid (headObject head).detail ↔ ∀ t ∈ head.texts, Utf8.Valid t := by
  -- The detail is words of the source in front of the text.
  have hword : ∀ (s t : Bytes), s.all Utf8.isAscii = true →
      (Utf8.Valid (s ++ t) ↔ Utf8.Valid t) := by
    intro s t hs
    rw [(Utf8.closed_ascii hs).valid_append]
    exact and_iff_right (Utf8.valid_ascii hs)
  cases head with
  | buildFailure what =>
    rw [HeadAnswer.texts, List.forall_mem_singleton]
    exact hword _ what rfl
  | transportFailure error =>
    rw [HeadAnswer.texts, List.forall_mem_singleton]
    exact hword _ error rfl
  | response status content_length =>
    refine iff_of_true (Utf8.valid_ascii ?_) (by simp [HeadAnswer.texts])
    have hstatus := Utf8.ascii_of_printable (Json.printable_decimalInt status)
    unfold headObject
    dsimp only
    split_ifs
    · rw [List.all_append, hstatus]
      rfl
    · split
      · rfl
      · rfl
      · split_ifs
        · rfl
        · rfl

/-- The inputs of an inner event are its texts from outside. -/
theorem inputs_eq_externals {e : Event} (h : e.isInner = true) (head : HeadAnswer) :
    e.inputs head = e.externals := by
  cases e with
  | head | result => cases h
  | callback who call_index encoding c => cases c <;> rfl
  | visibility | boundary | env | register | callbackMax | get | landed | sliceToken
  | manualGet => rfl

/-- The event of the HEAD request. -/
def headEvent (a : Answers) : Event := .head (headObject a.head).size (headObject a.head).detail

/-- An event that a run has logged is an inner one, the one of the HEAD request, or a result. A
result speaks in the words of the source, or it repeats what the HEAD request gave, and then that has
been logged. -/
theorem run_events {P : Platform} {o : Options} {a : Answers} {n : ℕ} {e : Event}
    (he : e ∈ (run P o a).take n) :
    e.isInner = true ∨ e = headEvent a ∨
      ∃ v detail diagnostic_only, e = .result v detail diagnostic_only ∧
        (detail.all Utf8.isAscii = true ∨
          (detail = (headObject a.head).detail ∧ headEvent a ∈ (run P o a).take n)) := by
  rcases run_concludes P o a with ⟨detail, hrun, hascii⟩ | ⟨vis, rest, hrun, hrest⟩
  · have hmem := List.mem_of_mem_take he
    rw [hrun] at hmem
    exact .inr (.inr ⟨_, _, _, List.mem_singleton.mp hmem, .inl hascii⟩)
  · obtain ⟨before, v, detail, diagnostic_only, rfl, hinner, hdetail⟩ := hrest
    rw [hrun, List.take_append] at he ⊢
    rcases List.mem_append.mp he with he | he
    · have hmem := List.mem_of_mem_take he
      simp only [List.mem_cons, List.not_mem_nil, or_false] at hmem
      rcases hmem with rfl | rfl | rfl
      · exact .inl rfl
      · exact .inl rfl
      · exact .inr (.inl rfl)
    · -- three events are in front of this one
      have hn : 3 ≤ n := by
        by_contra hlt
        have hzero : n - [Event.visibility vis, .boundary, headEvent a].length = 0 := by
          simp only [List.length_cons, List.length_nil]
          omega
        rw [headEvent] at hzero
        rw [hzero, List.take_zero] at he
        cases he
      rcases List.mem_append.mp (List.mem_of_mem_take he) with he | he
      · exact .inl (hinner e he)
      · refine .inr (.inr ⟨v, detail, diagnostic_only, List.mem_singleton.mp he, ?_⟩)
        refine hdetail.imp_right fun hhead => ⟨hhead, List.mem_append_left _ ?_⟩
        rw [List.take_of_length_le hn]
        simp [headEvent]

/-- The log of a run, wherever it is cut off, is readable exactly when the texts from outside that
it has logged are UTF-8. -/
theorem run_readable_iff (P : Platform) (o : Options) (a : Answers) (n : ℕ) :
    Readable o.exp ((run P o a).take n) ↔
      ∀ e ∈ (run P o a).take n, ∀ t ∈ e.inputs a.head, Utf8.Valid t := by
  rw [readable_iff]
  -- The two sides differ in the HEAD request, whose detail is built from its text, and in the
  -- results, which are words of the source or repeat that detail.
  constructor
  · intro hvalid e he
    rcases run_events he with hinner | rfl | ⟨v, detail, diagnostic_only, rfl, -⟩
    · rw [inputs_eq_externals hinner]
      exact hvalid e he
    · exact (valid_headObject a.head).mp (hvalid _ he _ (List.mem_singleton_self _))
    · intro t ht
      cases ht
  · intro hvalid e he
    rcases run_events he with hinner | rfl | ⟨v, detail, diagnostic_only, rfl, hdetail⟩
    · rw [← inputs_eq_externals hinner a.head]
      exact hvalid e he
    · intro t ht
      rw [List.mem_singleton.mp ht]
      exact (valid_headObject a.head).mpr (hvalid _ he)
    · intro t ht
      rw [List.mem_singleton.mp ht]
      rcases hdetail with hascii | ⟨rfl, hlogged⟩
      · exact Utf8.valid_ascii hascii
      · exact (valid_headObject a.head).mpr (hvalid _ hlogged)

/-! ## A run that cannot be read -/

/-- A digest of 32 bytes. -/
def firstBytePlatform : Platform where
  hmac := fun _ _ => []
  sha256 := fun data => List.replicate 32 (data.headD 0)
  gmtime := fun _ => Tm.midnight 1970 1 1

/-- A bucket whose name is the byte `0xff`. -/
def strayOptions : Options where
  exp := .b0
  bucket := [0xff]
  object := ascii "k"
  mode := .host
  expect_sha := hex (List.replicate 32 0)
  xfer := 1
  guard := 1

/-- The start of the clock. -/
def clockStart : Millis := ⟨false, 0, by decide⟩

/-- One callback, and the byte of the object lands between intact guards. -/
def oneByteLanded : GetAnswer where
  rc := 1
  errno_after := 0
  callbacks := [(0, .begin 0 1 0), (0, .response 1 200 none none)]
  start_ms := clockStart
  end_ms := clockStart
  payload := [0]
  lead := []
  trail := List.replicate 4095 kGuardByte

/-- Everything goes well. -/
def strayAnswers : Answers where
  proto_ok := true
  ordering := none
  head := .response 200 (some (some 1))
  registerA := ⟨0, 0⟩
  registerB := ⟨0, 0⟩
  capA := 1
  capB := 1
  getA := oneByteLanded
  getB := oneByteLanded
  token_rc := 0
  desc_len := none
  manual := ⟨true, none, [], [], []⟩

/-- The run passes, and the mapper cannot read its log. -/
theorem run_unreadable :
    ((run firstBytePlatform strayOptions strayAnswers).filterMap Event.verdict?).getLast? =
        some .Pass ∧
      load [log .b0 (run firstBytePlatform strayOptions strayAnswers)] =
        .error .unicodeDecodeError ∧
      ¬ Readable .b0 (run firstBytePlatform strayOptions strayAnswers) := by
  have henv : .env strayOptions 8192 1 4096 ∈ run firstBytePlatform strayOptions strayAnswers := by
    refine List.mem_of_getElem? (i := 3) ?_
    rfl
  have hload : load [log .b0 (run firstBytePlatform strayOptions strayAnswers)] =
      .error .unicodeDecodeError :=
    load_log_error henv (t := [0xff]) List.mem_cons_self (by decide)
  refine ⟨by decide +kernel, hload, fun hread => ?_⟩
  obtain ⟨by_case, hok, -⟩ := hread.verdict
  rw [hload] at hok
  cases hok

end S3Rdma.Scope
