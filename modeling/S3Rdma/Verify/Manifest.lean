import S3Rdma.Lib.Decimal
import S3Rdma.Lib.Ensures
import S3Rdma.Lib.OrdMap
import S3Rdma.Lib.Search

/-!
# The integrity manifest

`parse_manifest` of `src/common/verify/manifest.cpp`: a text of tab-separated records, read line by
line. `Skipped` and `IsRecord` are the two kinds of lines that the grammar has, and `IsRecord` also
says which entry a record denotes. The parser of a line returns an entry exactly for a record, and
then the one it denotes (`parseRecord_eq_ok_iff`). So the loop over the lines either reads them all
or stops at the first line that is no record, or whose key was there before (`parseLines_cases`).
-/

namespace S3Rdma.Verify

/-! ## The code -/

/-- `is_lower_hex_64`. -/
def isLowerHex64 (s : Bytes) : Bool :=
  s.length == 64 && s.all fun c => isDigit c || (chr 'a' ≤ c && c ≤ chr 'f')

/-- The loop of `parse_u64_strict`. -/
def u64Digits : Bytes → ℕ → Option ℕ
  | [], value => some value
  | c :: cs, value =>
    if !isDigit c then none
    else if value > (2^64 - 1 - decimalDigit c) / 10 then none
    else u64Digits cs (value * 10 + decimalDigit c)

/-- `parse_u64_strict`. -/
def parseU64Strict (s : Bytes) : Option ℕ := if s = [] then none else u64Digits s 0

/-- `split_tabs`. -/
def splitTabs (line : Bytes) : List Bytes := line.splitOn HT

/-- `ManifestEntry`. -/
structure ManifestEntry where
  key : Bytes
  size : ℕ := 0
  full_sha256 : Bytes := []
  /-- The digests of prefixes, by length. -/
  prefix_sha256 : List (ℕ × Bytes) := []
deriving DecidableEq

/-- `Manifest`. -/
structure Manifest where
  by_key : List (Bytes × ManifestEntry) := []
deriving DecidableEq

/-- `ParseStatus`. -/
structure ParseStatus where
  ok : Bool := false
  error : Bytes := []
  line : ℕ := 0
deriving DecidableEq

/-- The text in quotes. -/
def quoted (s : Bytes) : Bytes := ascii "'" ++ s ++ ascii "'"

/-- The body of the loop over the prefix tokens of a record. -/
def parsePrefixToken (entry : ManifestEntry) (token : Bytes) : Except Bytes ManifestEntry :=
  if !(ascii "prefix:").isPrefixOf token then .error (ascii "malformed prefix token " ++ quoted token)
  else
    let rest := token.drop (ascii "prefix:").length
    match rest.idxOf? (chr '=') with
    | none => .error (ascii "prefix token " ++ quoted token ++ ascii " has no '='")
    | some eq =>
      let len_str := rest.take eq
      match parseU64Strict len_str with
      | none => .error (ascii "invalid prefix length " ++ quoted len_str)
      | some prefix_len =>
        if prefix_len = 0 then .error (ascii "zero prefix length")
        else if prefix_len > entry.size then
          .error (ascii "prefix length " ++ len_str ++ ascii " exceeds object size " ++
            decimal entry.size ++ ascii " for key " ++ quoted entry.key)
        else
          let digest := rest.drop (eq + 1)
          if !isLowerHex64 digest then
            .error (ascii "prefix digest at length " ++ len_str ++
              ascii " is not exactly 64 lowercase hex chars")
          else
            match OrdMap.emplace prefix_len digest entry.prefix_sha256 with
            | none =>
              .error (ascii "duplicate prefix length " ++ len_str ++ ascii " for key " ++
                quoted entry.key)
            | some prefix_sha256 => .ok { entry with prefix_sha256 }

/-- The loop over the prefix tokens of a record. -/
def parsePrefixTokens : List Bytes → ManifestEntry → Except Bytes ManifestEntry
  | [], entry => .ok entry
  | token :: tokens, entry => parsePrefixToken entry token >>= parsePrefixTokens tokens

/-- The entry of a line that is not skipped. -/
def parseRecord (line : Bytes) : Except Bytes ManifestEntry :=
  match splitTabs line with
  | key :: size_str :: full_sha256 :: tokens =>
    if key = [] then .error (ascii "empty object key")
    else
      match parseU64Strict size_str with
      | none => .error (ascii "invalid size " ++ quoted size_str ++ ascii " for key " ++ quoted key)
      | some size =>
        if size = 0 then .error (ascii "zero size for key " ++ quoted key)
        else if !isLowerHex64 full_sha256 then
          .error (ascii "full digest for key " ++ quoted key ++
            ascii " is not exactly 64 lowercase hex chars")
        else parsePrefixTokens tokens { key, size, full_sha256 }
  | _ => .error (ascii "expected key<TAB>size<TAB>full_sha256")

/-- The line is blank, or its first byte that is no space is `#`. -/
def isSkipped (line : Bytes) : Bool :=
  match line.dropWhile (· == SP) with
  | [] => true
  | c :: _ => c == chr '#'

/-- The loop over the lines, after `line_no` of them; `bad` is what the stream says at the end. -/
def parseLines (bad : Bool) : List Bytes → ℕ → Manifest → Manifest × ParseStatus
  | [], line_no, manifest =>
    if bad then
      (manifest, { error := ascii "stream I/O error while reading the manifest", line := line_no })
    else (manifest, { ok := true })
  | line :: lines, line_no, manifest =>
    if isSkipped line then parseLines bad lines (line_no + 1) manifest
    else
      match parseRecord line with
      | .error message => (manifest, { error := message, line := line_no + 1 })
      | .ok entry =>
        match OrdMap.emplace entry.key entry manifest.by_key with
        | none =>
          (manifest, { error := ascii "duplicate record for key " ++ quoted entry.key,
                       line := line_no + 1 })
        | some by_key => parseLines bad lines (line_no + 1) { by_key }

/-- `parse_manifest` of a stream that delivers these lines to `std::getline` and is then bad or
not. -/
def parseManifest (lines : List Bytes) (bad : Bool) : Manifest × ParseStatus :=
  parseLines bad lines 0 {}

/-! ## The grammar -/

/-- The line has spaces only, or its first other byte is `#`. -/
def Skipped (line : Bytes) : Prop :=
  (∀ c ∈ line, c = SP) ∨ ∃ n rest, line = List.replicate n SP ++ chr '#' :: rest

/-- Exactly 64 lower-case hexadecimal digits. -/
def IsDigest (s : Bytes) : Prop :=
  s.length = 64 ∧ ∀ c ∈ s, (chr '0' ≤ c ∧ c ≤ chr '9') ∨ (chr 'a' ≤ c ∧ c ≤ chr 'f')

/-- Digits only, that denote a number from 1 to `2^64 - 1`. -/
def PositiveDecimal (s : Bytes) (v : ℕ) : Prop :=
  s ≠ [] ∧ (∀ c ∈ s, isDigit c = true) ∧ decimalValue s = v ∧ 1 ≤ v ∧ v ≤ 2^64 - 1

/-- A prefix token, from the texts of its length and of its digest. -/
def prefixToken (t : Bytes × Bytes) : Bytes := ascii "prefix:" ++ (t.1 ++ chr '=' :: t.2)

/-- The length and the digest that a prefix token denotes. -/
def prefixEntry (t : Bytes × Bytes) : ℕ × Bytes := (decimalValue t.1, t.2)

/-- The length of the token is a positive decimal not above the size, and its digest is one. -/
def ValidPrefix (size : ℕ) (t : Bytes × Bytes) : Prop :=
  PositiveDecimal t.1 (decimalValue t.1) ∧ decimalValue t.1 ≤ size ∧ IsDigest t.2

/-- The line is a record, and `e` is the entry that it denotes: the key, the size and the digest
with tabs between them, and then a tab and a token for each prefix, all of different lengths. -/
def IsRecord (line : Bytes) (e : ManifestEntry) : Prop :=
  ∃ (size_str : Bytes) (tokens : List (Bytes × Bytes)),
    line = [HT].intercalate (e.key :: size_str :: e.full_sha256 :: tokens.map prefixToken) ∧
    (e.key ≠ [] ∧ HT ∉ e.key) ∧ PositiveDecimal size_str e.size ∧ IsDigest e.full_sha256 ∧
    (∀ t ∈ tokens, ValidPrefix e.size t) ∧ ((tokens.map prefixEntry).map Prod.fst).Nodup ∧
    OrdMap.Sorted e.prefix_sha256 ∧ e.prefix_sha256.Perm (tokens.map prefixEntry)

/-- The lines are read: each is skipped, or is a record and denotes the next entry. -/
inductive Reads : List Bytes → List ManifestEntry → Prop where
  | nil : Reads [] []
  | skip {line : Bytes} {lines : List Bytes} {es : List ManifestEntry} (h : Skipped line)
      (hrest : Reads lines es) : Reads (line :: lines) es
  | record {line : Bytes} {lines : List Bytes} {e : ManifestEntry} {es : List ManifestEntry}
      (hskip : ¬ Skipped line) (h : IsRecord line e) (hrest : Reads lines es) :
      Reads (line :: lines) (e :: es)

/-! ## The parts of a line -/

/-- The digest test is the definition. -/
theorem isLowerHex64_iff {s : Bytes} : isLowerHex64 s = true ↔ IsDigest s := by
  simp only [isLowerHex64, IsDigest, isDigit, Bool.and_eq_true, beq_iff_eq, List.all_eq_true,
    Bool.or_eq_true, decide_eq_true_eq]
  rfl

/-- The test of `parse_u64_strict` before a digit is used. -/
def u64Stop (value : ℕ) (c : UInt8) : Bool :=
  !isDigit c || decide (value > (2^64 - 1 - decimalDigit c) / 10)

/-- The loop of `parse_u64_strict` is the digit loop with that test. -/
theorem u64Digits_eq (s : Bytes) (value : ℕ) : u64Digits s value = digitLoop u64Stop s value := by
  refine eq_digitLoop (fun _ => rfl) (fun c cs v => ?_) s value
  unfold u64Stop
  rw [u64Digits]
  by_cases hc : isDigit c = true <;> simp [hc]

/-- The test stops at what is no digit, and where the next value would exceed 64 bits. -/
theorem stopsAbove_u64Stop (s : Bytes) : StopsAbove u64Stop (2^64 - 1) s := by
  intro c _ v hv
  unfold u64Stop
  by_cases hc : isDigit c = true
  · have hd := decimalDigit_le hc
    simp only [hc, Bool.not_true, Bool.false_or, decide_eq_true_eq, Bool.true_eq_false, false_or]
    omega
  · simp [hc]

/-- `parse_u64_strict` accepts exactly the decimals of a 64-bit number. -/
theorem parseU64Strict_eq_some_iff {s : Bytes} {v : ℕ} :
    parseU64Strict s = some v ↔
      s ≠ [] ∧ (∀ c ∈ s, isDigit c = true) ∧ decimalValue s = v ∧ v < 2^64 := by
  unfold parseU64Strict
  split_ifs with hs
  · exact iff_of_false (by simp) fun h => h.1 hs
  · have hlimit : v ≤ 2^64 - 1 ↔ v < 2^64 := by omega
    rw [u64Digits_eq, digitLoop_eq_some_iff (stopsAbove_u64Stop s) (Nat.zero_le _),
      decimalFrom_zero, and_iff_right hs, hlimit]

/-- The test for a skipped line is the definition. -/
theorem isSkipped_iff {line : Bytes} : isSkipped line = true ↔ Skipped line := by
  unfold isSkipped Skipped
  induction line with
  | nil => simp
  | cons c cs ih =>
    -- A leading blank is dropped by the test and counted by the definition.
    by_cases hc : c = SP
    · subst hc
      rw [List.dropWhile_cons_of_pos (by simp), ih]
      constructor
      · rintro (hall | ⟨n, rest, rfl⟩)
        · exact .inl (List.forall_mem_cons.mpr ⟨rfl, hall⟩)
        · exact .inr ⟨n + 1, rest, rfl⟩
      · rintro (hall | ⟨n, rest, heq⟩)
        · exact .inl (List.forall_mem_cons.mp hall).2
        · cases n with
          | zero => exact absurd (List.cons.inj heq).1 (by decide)
          | succ n => exact .inr ⟨n, rest, (List.cons.inj heq).2⟩
    · rw [List.dropWhile_cons_of_neg (by simpa using hc)]
      constructor
      · intro hhash
        exact .inr ⟨0, cs, by rw [beq_iff_eq.mp hhash]; rfl⟩
      · rintro (hall | ⟨n, rest, heq⟩)
        · exact absurd (hall c List.mem_cons_self) hc
        · cases n with
          | zero => exact beq_iff_eq.mpr (List.cons.inj heq).1
          | succ n => exact absurd (List.cons.inj heq).1 hc

/-! ## A record -/

/-- A byte that is no digit is not in a decimal. -/
theorem PositiveDecimal.notMem {s : Bytes} {v : ℕ} (h : PositiveDecimal s v) {c : UInt8}
    (hc : isDigit c = false) : c ∉ s := by
  intro hmem
  rw [h.2.1 c hmem] at hc
  exact Bool.noConfusion hc

/-- Neither a digest nor a prefix token contains a tab. -/
theorem IsDigest.tab_notMem {s : Bytes} (h : IsDigest s) : HT ∉ s := by
  intro hmem
  exact absurd (h.2 HT hmem) (by decide)

theorem ValidPrefix.tab_notMem {size : ℕ} {t : Bytes × Bytes} (h : ValidPrefix size t) :
    HT ∉ prefixToken t := by
  obtain ⟨hlen, -, hdigest⟩ := h
  intro hmem
  rcases List.mem_append.mp hmem with hmem | hmem
  · exact absurd hmem (by decide)
  · rcases List.mem_append.mp hmem with hmem | hmem
    · exact hlen.notMem (by decide) hmem
    · rcases List.mem_cons.mp hmem with heq | hmem
      · exact absurd heq (by decide)
      · exact hdigest.tab_notMem hmem

/-- A prefix token adds the entry that it denotes, if its length is new. -/
theorem parsePrefixToken_eq_ok_iff {entry e : ManifestEntry} {token : Bytes} :
    parsePrefixToken entry token = .ok e ↔
      ∃ t m, token = prefixToken t ∧ ValidPrefix entry.size t ∧
        OrdMap.emplace (decimalValue t.1) t.2 entry.prefix_sha256 = some m ∧
        e = { entry with prefix_sha256 := m } := by
  constructor
  -- An accepted token passed every test, so its parts are those of `prefixToken`.
  · intro h
    unfold parsePrefixToken at h
    dsimp only at h
    split_ifs at h with htag
    rw [Bool.not_eq_true', Bool.not_eq_false, List.isPrefixOf_iff_prefix] at htag
    obtain ⟨rest, rfl⟩ := htag
    rw [List.drop_left] at h
    split at h
    · simp at h
    next eq heq =>
      split at h
      · simp at h
      next prefix_len hlen =>
        split_ifs at h with hzero hbig hdigest
        split at h
        · simp at h
        next m hm =>
          obtain ⟨hne, hall, hvalue, hlt⟩ := parseU64Strict_eq_some_iff.mp hlen
          rw [Bool.not_eq_true', Bool.not_eq_false, isLowerHex64_iff] at hdigest
          refine ⟨(rest.take eq, rest.drop (eq + 1)), m, ?_, ?_, ?_, ?_⟩
          · rw [prefixToken, ← (eq_of_idxOf?_eq_some heq).1]
          · refine ⟨⟨hne, hall, rfl, ?_⟩, ?_, hdigest⟩
            · rw [hvalue]
              omega
            · change decimalValue (rest.take eq) ≤ _
              rw [hvalue]
              omega
          · rw [← hm, ← hvalue]
          · exact (Except.ok.inj h).symm
  · rintro ⟨⟨len, digest⟩, m, rfl, ⟨hlen, hle, hdigest⟩, hm, rfl⟩
    dsimp only at hlen hle hdigest hm
    -- Conversely the first `=` of such a token is the one behind its length.
    have hnot : chr '=' ∉ len := hlen.notMem (by decide)
    obtain ⟨hne, hall, -, hpos, hmax⟩ := hlen
    have htag : (ascii "prefix:").isPrefixOf (prefixToken (len, digest)) = true :=
      List.isPrefixOf_iff_prefix.mpr (List.prefix_append _ _)
    have hrest : (prefixToken (len, digest)).drop (ascii "prefix:").length =
        len ++ chr '=' :: digest := List.drop_left
    have heq : (len ++ chr '=' :: digest).idxOf? (chr '=') = some len.length :=
      idxOf?_append_cons hnot digest
    have hdrop : (len ++ chr '=' :: digest).drop (len.length + 1) = digest := by
      rw [List.append_cons, List.drop_left' (by simp)]
    have hparse : parseU64Strict len = some (decimalValue len) :=
      parseU64Strict_eq_some_iff.mpr ⟨hne, hall, rfl, by omega⟩
    unfold parsePrefixToken
    simp only [htag, hrest, heq, List.take_left, hparse, hdrop, isLowerHex64_iff.mpr hdigest,
      if_neg (show ¬ decimalValue len = 0 by omega), if_neg (not_lt.mpr hle), hm, Bool.not_true,
      Bool.false_eq_true, if_false]

/-- The tokens of a record add the entries that they denote, if their lengths are new and
distinct. -/
theorem parsePrefixTokens_eq_ok_iff {texts : List Bytes} {entry e : ManifestEntry}
    (hsorted : OrdMap.Sorted entry.prefix_sha256) :
    parsePrefixTokens texts entry = .ok e ↔
      ∃ (tokens : List (Bytes × Bytes)) (m : List (ℕ × Bytes)),
        texts = tokens.map prefixToken ∧ (∀ t ∈ tokens, ValidPrefix entry.size t) ∧
        ((tokens.map prefixEntry ++ entry.prefix_sha256).map Prod.fst).Nodup ∧ OrdMap.Sorted m ∧
        m.Perm (tokens.map prefixEntry ++ entry.prefix_sha256) ∧
        e = { entry with prefix_sha256 := m } := by
  -- By induction on the tokens; the map so far is sorted and keeps the pairs read before.
  induction texts generalizing entry with
  | nil =>
    constructor
    · intro h
      obtain rfl := Except.ok.inj h
      exact ⟨[], entry.prefix_sha256, rfl, by simp, hsorted.nodup_keys, hsorted, .refl _, rfl⟩
    · rintro ⟨tokens, m, htexts, -, -, hm, hperm, rfl⟩
      obtain rfl := List.map_eq_nil_iff.mp htexts.symm
      rw [hm.eq_of_perm hsorted hperm]
      rfl
  | cons text texts ih =>
    unfold parsePrefixTokens
    constructor
    · intro h
      obtain ⟨entry', hfirst, h⟩ := exists_of_bind_eq_ok h
      obtain ⟨t, m₁, rfl, ht, hm₁, rfl⟩ := parsePrefixToken_eq_ok_iff.mp hfirst
      obtain ⟨hnew, hsorted₁, hperm₁⟩ := (OrdMap.emplace_eq_some_iff hsorted).mp hm₁
      obtain ⟨tokens, m, rfl, htokens, hnodup, hm, hperm, rfl⟩ := (ih hsorted₁).mp h
      have hfront : (tokens.map prefixEntry ++ m₁).Perm
          (prefixEntry t :: (tokens.map prefixEntry ++ entry.prefix_sha256)) :=
        OrdMap.append_perm_cons hperm₁
      refine ⟨t :: tokens, m, rfl, List.forall_mem_cons.mpr ⟨ht, htokens⟩, ?_, hm,
        hperm.trans hfront, rfl⟩
      exact (hfront.map Prod.fst).nodup_iff.mp hnodup
    · rintro ⟨tokens, m, htexts, htokens, hnodup, hm, hperm, rfl⟩
      obtain ⟨t, tokens, rfl, rfl, rfl⟩ := List.map_eq_cons_iff.mp htexts.symm
      obtain ⟨ht, htokens⟩ := List.forall_mem_cons.mp htokens
      -- The first length is new to the map, so `emplace` succeeds.
      have hnodup' : ((prefixEntry t :: (tokens.map prefixEntry ++ entry.prefix_sha256)).map
          Prod.fst).Nodup := hnodup
      rw [List.map_cons, List.nodup_cons, List.map_append, List.mem_append, not_or] at hnodup'
      obtain ⟨⟨-, hnew⟩, -⟩ := hnodup'
      obtain ⟨m₁, hm₁⟩ : ∃ m₁, OrdMap.emplace (decimalValue t.1) t.2 entry.prefix_sha256 = some m₁ :=
        Option.ne_none_iff_exists'.mp (mt OrdMap.emplace_eq_none_iff.mp hnew)
      obtain ⟨-, hsorted₁, hperm₁⟩ := (OrdMap.emplace_eq_some_iff hsorted).mp hm₁
      have hfront : (tokens.map prefixEntry ++ m₁).Perm
          (prefixEntry t :: (tokens.map prefixEntry ++ entry.prefix_sha256)) :=
        OrdMap.append_perm_cons hperm₁
      have hfirst := parsePrefixToken_eq_ok_iff.mpr ⟨t, m₁, rfl, ht, hm₁, rfl⟩
      rw [hfirst]
      exact (ih hsorted₁).mpr ⟨tokens, m, rfl, htokens, (hfront.map Prod.fst).nodup_iff.mpr hnodup, hm,
        hperm.trans hfront.symm, rfl⟩

/-- The tokens of a record whose other fields have been read. -/
theorem parsePrefixTokens_new_eq_ok_iff {texts : List Bytes} {key full_sha256 : Bytes} {size : ℕ}
    {e : ManifestEntry} :
    parsePrefixTokens texts { key, size, full_sha256 } = .ok e ↔
      ∃ (tokens : List (Bytes × Bytes)) (m : List (ℕ × Bytes)),
        texts = tokens.map prefixToken ∧ (∀ t ∈ tokens, ValidPrefix size t) ∧
        ((tokens.map prefixEntry).map Prod.fst).Nodup ∧ OrdMap.Sorted m ∧
        m.Perm (tokens.map prefixEntry) ∧ e = ⟨key, size, full_sha256, m⟩ := by
  have hnil : OrdMap.Sorted (ManifestEntry.mk key size full_sha256 []).prefix_sha256 :=
    List.Pairwise.nil
  rw [parsePrefixTokens_eq_ok_iff hnil]
  simp only [List.append_nil]

/-- A line is parsed exactly if it is a record, and then to the entry that it denotes. -/
theorem parseRecord_eq_ok_iff {line : Bytes} {e : ManifestEntry} :
    parseRecord line = .ok e ↔ IsRecord line e := by
  constructor
  · intro h
    unfold parseRecord at h
    split at h
    next key size_str full_sha256 texts hsplit =>
      by_cases hkey : key = []
      · rw [if_pos hkey] at h
        simp at h
      rw [if_neg hkey] at h
      split at h
      · simp at h
      next size hsize =>
        split_ifs at h with hzero hdigest
        obtain ⟨hne, hall, hvalue, hlt⟩ := parseU64Strict_eq_some_iff.mp hsize
        rw [Bool.not_eq_true', Bool.not_eq_false, isLowerHex64_iff] at hdigest
        obtain ⟨tokens, m, rfl, htokens, hnodup, hm, hperm, rfl⟩ :=
          parsePrefixTokens_new_eq_ok_iff.mp h
        have htab : HT ∉ key := by
          apply notMem_of_mem_splitOn (s := line)
          change key ∈ splitTabs line
          rw [hsplit]
          exact List.mem_cons_self
        have hpos : 1 ≤ size := by omega
        have hmax : size ≤ 2^64 - 1 := by omega
        refine ⟨size_str, tokens, ?_, ⟨hkey, htab⟩, ⟨hne, hall, hvalue, hpos, hmax⟩, hdigest, htokens,
          hnodup, hm, hperm⟩
        rw [← hsplit]
        exact (List.intercalate_splitOn HT).symm
    · simp at h
  · rintro ⟨size_str, tokens, hline, ⟨hkey, htab⟩, hsize, hdigest, htokens, hnodup, hm, hperm⟩
    -- No field contains a tab, so the fields are found again.
    have hfields : ∀ field ∈ e.key :: size_str :: e.full_sha256 :: tokens.map prefixToken,
        HT ∉ field := by
      intro field hfield
      simp only [List.mem_cons, List.mem_map] at hfield
      rcases hfield with rfl | rfl | rfl | ⟨t, ht, rfl⟩
      · exact htab
      · exact hsize.notMem (by decide)
      · exact hdigest.tab_notMem
      · exact (htokens t ht).tab_notMem
    have hsplit : splitTabs line = e.key :: size_str :: e.full_sha256 :: tokens.map prefixToken := by
      rw [hline]
      exact List.splitOn_intercalate HT hfields (by simp)
    obtain ⟨hne, hall, hvalue, hpos, hmax⟩ := hsize
    have hparse : parseU64Strict size_str = some e.size :=
      parseU64Strict_eq_some_iff.mpr ⟨hne, hall, hvalue, by omega⟩
    have htail : parsePrefixTokens (tokens.map prefixToken)
        { key := e.key, size := e.size, full_sha256 := e.full_sha256 } = .ok e :=
      parsePrefixTokens_new_eq_ok_iff.mpr
        ⟨tokens, e.prefix_sha256, rfl, htokens, hnodup, hm, hperm, rfl⟩
    unfold parseRecord
    simp only [hsplit, if_neg hkey, hparse, if_neg (show ¬ e.size = 0 by omega),
      isLowerHex64_iff.mpr hdigest, Bool.not_true, Bool.false_eq_true, if_false]
    exact htail

/-- A record denotes one entry. -/
theorem isRecord_unique {line : Bytes} {e e' : ManifestEntry} (h : IsRecord line e)
    (h' : IsRecord line e') : e = e' := by
  rw [← parseRecord_eq_ok_iff] at h h'
  exact Except.ok.inj (h.symm.trans h')

/-- Every refusal of a record has a text. -/
theorem parsePrefixToken_error_ne_nil {entry : ManifestEntry} {token message : Bytes}
    (h : parsePrefixToken entry token = .error message) : message ≠ [] := by
  unfold parsePrefixToken at h
  dsimp only at h
  repeat' split at h
  all_goals
    first
    | obtain rfl := Except.error.inj h
      simp [ascii]
    | simp at h

theorem parsePrefixTokens_error_ne_nil {texts : List Bytes} {entry : ManifestEntry} {message : Bytes}
    (h : parsePrefixTokens texts entry = .error message) : message ≠ [] := by
  induction texts generalizing entry with
  | nil => exact absurd h (by simp [parsePrefixTokens])
  | cons text texts ih =>
    unfold parsePrefixTokens at h
    cases hfirst : parsePrefixToken entry text with
    | error message' =>
      rw [hfirst] at h
      obtain rfl := Except.error.inj h
      exact parsePrefixToken_error_ne_nil hfirst
    | ok entry' =>
      rw [hfirst] at h
      exact ih h

theorem parseRecord_error_ne_nil {line message : Bytes} (h : parseRecord line = .error message) :
    message ≠ [] := by
  unfold parseRecord at h
  repeat' split at h
  all_goals
    first
    | exact parsePrefixTokens_error_ne_nil h
    | obtain rfl := Except.error.inj h
      simp [ascii]

/-! ## The lines -/

/-- An entry under its key. -/
def keyed (e : ManifestEntry) : Bytes × ManifestEntry := (e.key, e)

/-- The line is not skipped, and is no record or has the key of an earlier one. -/
def Offending (line : Bytes) (keys : List Bytes) : Prop :=
  ¬ Skipped line ∧ ((∀ e, ¬ IsRecord line e) ∨ ∃ e, IsRecord line e ∧ e.key ∈ keys)

/-- The lines are read with distinct keys, and the manifest has their entries in addition. -/
structure ReadInto (m : Manifest) (lines : List Bytes) (es : List ManifestEntry) (m' : Manifest) :
    Prop where
  reads : Reads lines es
  distinct : ((es.map keyed ++ m.by_key).map Prod.fst).Nodup
  sorted : OrdMap.Sorted m'.by_key
  perm : m'.by_key.Perm (es.map keyed ++ m.by_key)

/-- Nothing is read from no lines. -/
theorem ReadInto.nil {m : Manifest} (hm : OrdMap.Sorted m.by_key) : ReadInto m [] [] m :=
  ⟨.nil, hm.nodup_keys, hm, .refl _⟩

/-- A line that is skipped is read in addition. -/
theorem ReadInto.skip {m m' : Manifest} {line : Bytes} {lines : List Bytes}
    {es : List ManifestEntry} (hskip : Skipped line) (h : ReadInto m lines es m') :
    ReadInto m (line :: lines) es m' :=
  ⟨.skip hskip h.reads, h.distinct, h.sorted, h.perm⟩

/-- A record before lines that are read adds its entry. -/
theorem ReadInto.record {m m₁ m' : Manifest} {line : Bytes} {lines : List Bytes}
    {e : ManifestEntry} {es : List ManifestEntry} (hskip : ¬ Skipped line) (hrecord : IsRecord line e)
    (hperm : m₁.by_key.Perm (keyed e :: m.by_key)) (h : ReadInto m₁ lines es m') :
    ReadInto m (line :: lines) (e :: es) m' := by
  have hfront : (es.map keyed ++ m₁.by_key).Perm ((e :: es).map keyed ++ m.by_key) :=
    OrdMap.append_perm_cons hperm
  exact ⟨.record hskip hrecord h.reads, (hfront.map Prod.fst).nodup_iff.mp h.distinct, h.sorted,
    h.perm.trans hfront⟩

/-- What a stream that turned bad is reported as. -/
def badStatus (line_no : ℕ) : ParseStatus :=
  { error := ascii "stream I/O error while reading the manifest", line := line_no }

/-- The loop reads all lines, or it stops at the first offending one. -/
theorem parseLines_cases (bad : Bool) {lines : List Bytes} {line_no : ℕ} {m : Manifest}
    (hm : OrdMap.Sorted m.by_key) :
    (∃ es m', ReadInto m lines es m' ∧
      parseLines bad lines line_no m =
        (m', if bad then badStatus (line_no + lines.length) else { ok := true })) ∨
    ∃ before line after es m' message, lines = before ++ line :: after ∧
      ReadInto m before es m' ∧ Offending line ((es.map keyed ++ m.by_key).map Prod.fst) ∧
      message ≠ [] ∧
      parseLines bad lines line_no m =
        (m', { error := message, line := line_no + before.length + 1 }) := by
  induction lines generalizing line_no m with
  | nil =>
    refine .inl ⟨[], m, .nil hm, ?_⟩
    unfold parseLines
    cases bad with
    | true => rfl
    | false => rfl
  | cons line lines ih =>
    unfold parseLines
    by_cases hskip : Skipped line
    · rw [if_pos (isSkipped_iff.mpr hskip)]
      rcases ih hm with ⟨es, m', hread, hresult⟩ | ⟨before, l, after, es, m', message, rfl, hread, hoff,
        hne, hresult⟩
      · refine .inl ⟨es, m', hread.skip hskip, ?_⟩
        rw [hresult, List.length_cons, Nat.add_right_comm, Nat.add_assoc]
      · refine .inr ⟨line :: before, l, after, es, m', message, rfl, hread.skip hskip, hoff, hne, ?_⟩
        rw [hresult, List.length_cons]
        simp only [Prod.mk.injEq, ParseStatus.mk.injEq, true_and]
        omega
    · rw [if_neg (mt isSkipped_iff.mp hskip)]
      cases hrecord : parseRecord line with
      | error message =>
        -- The line is no record.
        have hno : ∀ e, ¬ IsRecord line e := by
          intro e he
          rw [← parseRecord_eq_ok_iff, hrecord] at he
          exact absurd he (by simp)
        exact .inr ⟨[], line, lines, [], m, message, rfl, .nil hm, ⟨hskip, .inl hno⟩,
          parseRecord_error_ne_nil hrecord, rfl⟩
      | ok e =>
        have he := parseRecord_eq_ok_iff.mp hrecord
        dsimp only
        cases hinsert : OrdMap.emplace e.key e m.by_key with
        | none =>
          -- The key is there already.
          have hkey := OrdMap.emplace_eq_none_iff.mp hinsert
          refine .inr ⟨[], line, lines, [], m, _, rfl, .nil hm, ⟨hskip, .inr ⟨e, he, hkey⟩⟩, ?_, rfl⟩
          simp [ascii]
        | some by_key =>
          obtain ⟨-, hsorted, hperm⟩ := (OrdMap.emplace_eq_some_iff hm).mp hinsert
          rcases @ih (line_no + 1) { by_key } hsorted with ⟨es, m', hread, hresult⟩ |
            ⟨before, l, after, es, m', message, rfl, hread, hoff, hne, hresult⟩
          · refine .inl ⟨e :: es, m', hread.record hskip he hperm, ?_⟩
            dsimp only
            rw [hresult, List.length_cons, Nat.add_right_comm, Nat.add_assoc]
          · have hfront : (es.map keyed ++ by_key).Perm ((e :: es).map keyed ++ m.by_key) :=
              OrdMap.append_perm_cons hperm
            refine .inr ⟨line :: before, l, after, e :: es, m', message, rfl,
              hread.record hskip he hperm, ⟨hoff.1, hoff.2.imp_right ?_⟩, hne, ?_⟩
            · rintro ⟨e', he', hkey⟩
              exact ⟨e', he', (hfront.map Prod.fst).mem_iff.mp hkey⟩
            · dsimp only
              rw [hresult, List.length_cons]
              simp only [Prod.mk.injEq, ParseStatus.mk.injEq, true_and]
              omega

/-- Lines are read as one list of entries. -/
theorem Reads.unique {lines : List Bytes} {es es' : List ManifestEntry} (h : Reads lines es)
    (h' : Reads lines es') : es = es' := by
  induction h generalizing es' with
  | nil =>
    cases h'
    rfl
  | skip hskip _ ih =>
    cases h' with
    | skip _ hrest => exact ih hrest
    | record hskip' => exact absurd hskip hskip'
  | record hskip hrecord _ ih =>
    cases h' with
    | skip hskip' => exact absurd hskip' hskip
    | record _ hrecord' hrest => rw [isRecord_unique hrecord hrecord', ih hrest]

/-- The first lines of lines that are read are read. -/
theorem Reads.of_append {before after : List Bytes} {es : List ManifestEntry}
    (h : Reads (before ++ after) es) :
    ∃ es₁ es₂, es = es₁ ++ es₂ ∧ Reads before es₁ ∧ Reads after es₂ := by
  induction before generalizing es with
  | nil => exact ⟨[], es, rfl, .nil, h⟩
  | cons line before ih =>
    cases h with
    | skip hskip hrest =>
      obtain ⟨es₁, es₂, rfl, h₁, h₂⟩ := ih hrest
      exact ⟨es₁, es₂, rfl, .skip hskip h₁, h₂⟩
    | record hskip hrecord hrest =>
      obtain ⟨es₁, es₂, rfl, h₁, h₂⟩ := ih hrest
      exact ⟨_ :: es₁, es₂, rfl, .record hskip hrecord h₁, h₂⟩

/-- Lines with an offending line are not read with distinct keys. -/
theorem not_reads_of_offending {before after : List Bytes} {line : Bytes}
    {es es' : List ManifestEntry} (hbefore : Reads before es)
    (hoff : Offending line (es.map ManifestEntry.key))
    (h : Reads (before ++ line :: after) es') : ¬ (es'.map ManifestEntry.key).Nodup := by
  obtain ⟨es₁, es₂, rfl, h₁, h₂⟩ := h.of_append
  obtain rfl := h₁.unique hbefore
  cases h₂ with
  | skip hskip => exact absurd hskip hoff.1
  | @record _ _ e es₂ _ hrecord _ =>
    rcases hoff.2 with hno | ⟨e', hrecord', hkey⟩
    · exact absurd hrecord (hno e)
    · obtain rfl := isRecord_unique hrecord hrecord'
      rw [List.map_append, List.map_cons]
      intro hnodup
      exact (List.disjoint_of_nodup_append hnodup) hkey List.mem_cons_self

/-- The manifest has the entries of the lines that were read, with distinct keys. -/
def HasEntries (m : Manifest) (lines : List Bytes) (es : List ManifestEntry) : Prop :=
  Reads lines es ∧ (es.map ManifestEntry.key).Nodup ∧ m.by_key.Perm (es.map keyed)

/-- `parse_manifest` reads all lines, or it stops at the first offending one. -/
theorem parseManifest_cases (lines : List Bytes) (bad : Bool) :
    (∃ es, HasEntries (parseManifest lines bad).1 lines es ∧
      (parseManifest lines bad).2 = if bad then badStatus lines.length else { ok := true }) ∨
    ∃ before line after es message, lines = before ++ line :: after ∧
      HasEntries (parseManifest lines bad).1 before es ∧
      Offending line (es.map ManifestEntry.key) ∧ message ≠ [] ∧
      (parseManifest lines bad).2 = { error := message, line := before.length + 1 } := by
  -- The loop starts at the empty manifest, where its invariant is about the lines alone.
  have hkeys : ∀ es : List ManifestEntry,
      (es.map keyed ++ ({} : Manifest).by_key).map Prod.fst = es.map ManifestEntry.key := by
    intro es
    rw [List.append_nil, List.map_map]
    rfl
  have hentries : ∀ {ls : List Bytes} {es : List ManifestEntry} {m : Manifest},
      ReadInto {} ls es m → HasEntries m ls es := by
    intro ls es m hread
    have hnodup := hread.distinct
    have hperm := hread.perm
    rw [hkeys] at hnodup
    rw [List.append_nil] at hperm
    exact ⟨hread.reads, hnodup, hperm⟩
  have hempty : OrdMap.Sorted ({} : Manifest).by_key := List.Pairwise.nil
  unfold parseManifest
  rcases @parseLines_cases bad lines 0 {} hempty with ⟨es, m', hread, hresult⟩ |
    ⟨before, line, after, es, m', message, hlines, hread, hoff, hne, hresult⟩
  · rw [hresult, Nat.zero_add]
    exact .inl ⟨es, hentries hread, rfl⟩
  · rw [hkeys] at hoff
    rw [hresult, Nat.zero_add]
    exact .inr ⟨before, line, after, es, message, hlines, hentries hread, hoff, hne, rfl⟩

/-- A manifest that is returned with success has the entries of all lines. -/
theorem parseManifest_of_ok {lines : List Bytes} {bad : Bool}
    (hok : (parseManifest lines bad).2.ok = true) :
    ∃ es, HasEntries (parseManifest lines bad).1 lines es := by
  rcases parseManifest_cases lines bad with ⟨es, hentries, -⟩ | ⟨_, _, _, _, _, _, _, _, _, hstatus⟩
  · exact ⟨es, hentries⟩
  · rw [hstatus] at hok
    exact Bool.noConfusion hok

/-- `parse_manifest` accepts exactly its grammar. If it succeeds, the manifest has one entry for
each record, the one that the record denotes, under its key. If not, and the stream was not bad, it
reports the first line that is neither skipped nor a record, or whose key was there before, and the
manifest has the entries of the records before it. -/
theorem parseManifest_exact (lines : List Bytes) (bad : Bool) :
    (bad = true → (parseManifest lines bad).2.ok = false) ∧
    (bad = false → ((parseManifest lines bad).2.ok = true ↔
      ∃ es, Reads lines es ∧ (es.map ManifestEntry.key).Nodup)) ∧
    ((parseManifest lines bad).2.ok = true →
      ∃ es, Reads lines es ∧ (es.map ManifestEntry.key).Nodup ∧
        (parseManifest lines bad).1.by_key.Perm (es.map keyed)) ∧
    (bad = false → (parseManifest lines bad).2.ok = false →
      (parseManifest lines bad).2.error ≠ [] ∧
      ∃ before line after es, lines = before ++ line :: after ∧
        (parseManifest lines bad).2.line = before.length + 1 ∧
        Reads before es ∧ (es.map ManifestEntry.key).Nodup ∧
        (parseManifest lines bad).1.by_key.Perm (es.map keyed) ∧
        Offending line (es.map ManifestEntry.key)) := by
  rcases parseManifest_cases lines bad with ⟨es, hentries, hstatus⟩ |
    ⟨before, line, after, es, message, hlines, hentries, hoff, hne, hstatus⟩
  · rw [hstatus]
    -- All lines were read: only the state of the stream can make it fail.
    cases bad with
    | true =>
      exact ⟨fun _ => rfl, by simp, fun hok => absurd hok (by simp [badStatus]), by simp⟩
    | false =>
      exact ⟨by simp, fun _ => iff_of_true rfl ⟨es, hentries.1, hentries.2.1⟩, fun _ => ⟨es, hentries⟩,
        fun _ hok => absurd hok (by simp)⟩
  · rw [hstatus]
    refine ⟨fun _ => rfl, fun _ => iff_of_false (by simp) ?_, fun hok => absurd hok (by simp),
      fun _ _ => ⟨hne, before, line, after, es, hlines, rfl, hentries.1, hentries.2.1, hentries.2.2,
        hoff⟩⟩
    -- With an offending line there is no reading with distinct keys.
    rintro ⟨es', hreads, hdistinct⟩
    rw [hlines] at hreads
    exact not_reads_of_offending hentries.1 hoff hreads hdistinct

example : (parseManifest [ascii "# objects", ascii "k\t0\tx"] false).2 =
    { error := ascii "zero size for key 'k'", line := 2 } := by decide

end S3Rdma.Verify
