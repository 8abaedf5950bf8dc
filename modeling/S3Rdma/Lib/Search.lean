import Mathlib.Data.List.DropRight
import Mathlib.Data.List.Infix
import S3Rdma.Lib.Bytes

/-!
# Searching and cutting byte strings

`findSub` is `std::string::find`: the position of the first occurrence of a pattern. What is found
in a string is found at the same place in every longer string (`findSub_append`), so a reader that
searches again after each piece it receives finds what it would find in the whole stream.

`crlfLines` cuts a string into its lines, each ended by CRLF, and drops what follows the last of
them. `trimBlanks` removes the spaces and tabs at both ends of a field value.
-/

namespace S3Rdma

/-- `std::string::find`: the position of the first occurrence of `pat`. -/
def findSub (pat : Bytes) : Bytes → Option ℕ
  | [] => if pat = [] then some 0 else none
  | c :: cs => if pat.isPrefixOf (c :: cs) then some 0 else (findSub pat cs).map (· + 1)

/-- CRLF. -/
def CRLF : Bytes := [CR, LF]

/-- The end of a message head. -/
def CRLFCRLF : Bytes := [CR, LF, CR, LF]

/-- The lines of a string that are ended by CRLF, without their ends. -/
def crlfLines : Bytes → List Bytes
  | [] => []
  | [_] => []
  | c :: d :: rest =>
    if c = CR ∧ d = LF then [] :: crlfLines rest
    else
      match crlfLines (d :: rest) with
      | [] => []
      | line :: lines => (c :: line) :: lines

/-- A string without the spaces and tabs at its ends. -/
def trimBlanks (s : Bytes) : Bytes := (s.dropWhile isBlank).rdropWhile isBlank

/-! ## Occurrences -/

/-- Where a pattern was found, it is, and it is nowhere before. -/
theorem findSub_eq_some_iff {pat s : Bytes} {i : ℕ} :
    findSub pat s = some i ↔
      i ≤ s.length ∧ pat <+: s.drop i ∧ ∀ k, k < i → ¬ pat <+: s.drop k := by
  induction s generalizing i with
  | nil =>
    unfold findSub
    constructor
    · intro h
      split_ifs at h with hp
      obtain rfl : 0 = i := by simpa using h
      exact ⟨le_rfl, by simp [hp], by simp⟩
    · rintro ⟨hi, hp, -⟩
      obtain rfl : i = 0 := by simpa using hi
      have hnil : pat = [] := by simpa using hp
      simp [hnil]
  | cons c cs ih =>
    unfold findSub
    -- Found at the front, or found one place further in the tail.
    by_cases hp : pat.isPrefixOf (c :: cs) = true
    · rw [if_pos hp, Option.some.injEq]
      have hp' := List.isPrefixOf_iff_prefix.mp hp
      constructor
      · rintro rfl
        exact ⟨Nat.zero_le _, hp', by simp⟩
      · rintro ⟨-, -, hmin⟩
        by_contra hne
        exact hmin 0 (by omega) hp'
    · rw [if_neg hp]
      have hp' : ¬ pat <+: c :: cs := fun h => hp (List.isPrefixOf_iff_prefix.mpr h)
      cases i with
      | zero =>
        simp only [Option.map_eq_some_iff, Nat.add_eq_zero_iff, one_ne_zero, and_false, exists_false,
          List.drop_zero, false_iff, not_and]
        exact fun _ h => absurd h hp'
      | succ i =>
        rw [Option.map_eq_some_iff]
        simp only [Nat.add_right_cancel_iff, exists_eq_right, ih, List.length_cons,
          Nat.add_le_add_iff_right, List.drop_succ_cons]
        refine and_congr_right fun _ => and_congr_right fun _ => ⟨fun h k hk => ?_, fun h k hk => ?_⟩
        · cases k with
          | zero => exact hp'
          | succ k => exact h k (by omega)
        · exact h (k + 1) (by omega)

/-- What is found in a string is found at the same place in every longer one. -/
theorem findSub_append {pat s : Bytes} {i : ℕ} (t : Bytes) (h : findSub pat s = some i) :
    findSub pat (s ++ t) = some i := by
  rw [findSub_eq_some_iff] at h ⊢
  obtain ⟨hi, hp, hmin⟩ := h
  have hin : i + pat.length ≤ s.length := by
    have hlen := hp.length_le
    rw [List.length_drop] at hlen
    omega
  refine ⟨by rw [List.length_append]; omega, ?_, fun k hk hk' => hmin k hk ?_⟩
  · rw [List.drop_append_of_le_length hi]
    exact hp.trans (List.prefix_append _ _)
  · rw [List.drop_append_of_le_length (by omega)] at hk'
    refine List.prefix_of_prefix_length_le hk' (List.prefix_append _ _) ?_
    rw [List.length_drop]
    omega

/-- A string in which a pattern is found, cut behind its first occurrence. -/
theorem findSub_split {pat s : Bytes} {i : ℕ} (h : findSub pat s = some i) :
    ∃ before after, s = before ++ pat ++ after ∧ before.length = i := by
  obtain ⟨hi, ⟨after, hafter⟩, -⟩ := findSub_eq_some_iff.mp h
  refine ⟨s.take i, after, ?_, by rw [List.length_take]; omega⟩
  rw [List.append_assoc, hafter, List.take_append_drop]

/-- A found pattern lies inside the string. -/
theorem findSub_add_length_le {pat s : Bytes} {i : ℕ} (h : findSub pat s = some i) :
    i + pat.length ≤ s.length := by
  obtain ⟨before, after, rfl, rfl⟩ := findSub_split h
  simp only [List.length_append]
  omega

/-- A pattern is found in a prefix that contains its first occurrence, at the same place. -/
theorem findSub_take {pat s : Bytes} {i n : ℕ} (h : findSub pat s = some i)
    (hn : i + pat.length ≤ n) : findSub pat (s.take n) = some i := by
  have hin := findSub_add_length_le h
  obtain ⟨hi, hp, hmin⟩ := findSub_eq_some_iff.mp h
  rw [findSub_eq_some_iff]
  refine ⟨by rw [List.length_take]; omega, ?_, fun k hk hk' => hmin k hk ?_⟩
  · rw [List.drop_take, List.prefix_take_iff]
    exact ⟨hp, by omega⟩
  · rw [List.drop_take, List.prefix_take_iff] at hk'
    exact hk'.1

/-! ## Lines -/

/-- A line that has no carriage return is the first line of what starts with it. -/
theorem crlfLines_line {line : Bytes} (h : CR ∉ line) (rest : Bytes) :
    crlfLines (line ++ CRLF ++ rest) = line :: crlfLines rest := by
  induction line with
  | nil => rfl
  | cons c line ih =>
    have hc : c ≠ CR := fun hc => h (hc ▸ List.mem_cons_self)
    have hih := ih fun hmem => h (List.mem_cons_of_mem _ hmem)
    -- There is a next byte, in the line or in its end.
    obtain ⟨d, more, hmore⟩ : ∃ d more, line ++ CRLF ++ rest = d :: more :=
      List.exists_cons_of_ne_nil (by simp [CRLF])
    rw [hmore] at hih
    rw [List.cons_append, List.cons_append, hmore, crlfLines, if_neg fun hcd => hc hcd.1, hih]

/-- The search passes over bytes that are no carriage return. -/
theorem findSub_line {line : Bytes} (h : CR ∉ line) (rest : Bytes) :
    findSub CRLFCRLF (line ++ rest) = (findSub CRLFCRLF rest).map (· + line.length) := by
  induction line with
  | nil => simp
  | cons c line ih =>
    have hc : CR ≠ c := fun hc => h (hc ▸ List.mem_cons_self)
    have hno : ¬ CRLFCRLF.isPrefixOf (c :: (line ++ rest)) = true := by
      simp [CRLFCRLF, List.isPrefixOf, hc]
    rw [List.cons_append, findSub, if_neg hno, ih fun hmem => h (List.mem_cons_of_mem _ hmem),
      Option.map_map]
    rfl

/-- A line end that is not followed by another is passed over too. -/
theorem findSub_crlf {c : UInt8} (h : CR ≠ c) (rest : Bytes) :
    findSub CRLFCRLF (CRLF ++ c :: rest) = (findSub CRLFCRLF (c :: rest)).map (· + 2) := by
  have hcr : ¬ CRLFCRLF.isPrefixOf (CR :: LF :: c :: rest) = true := by
    simp [CRLFCRLF, List.isPrefixOf, h]
  have hne : CR ≠ LF := by decide
  have hlf : ¬ CRLFCRLF.isPrefixOf (LF :: c :: rest) = true := by
    simp [CRLFCRLF, List.isPrefixOf, hne]
  show findSub CRLFCRLF (CR :: LF :: c :: rest) = _
  rw [findSub, if_neg hcr, findSub, if_neg hlf, Option.map_map]
  rfl

/-- After a line end, the first CRLFCRLF is found behind the nonempty lines that follow. -/
theorem findSub_lines {lines : List Bytes} (h : ∀ line ∈ lines, line ≠ [] ∧ CR ∉ line)
    (rest : Bytes) :
    findSub CRLFCRLF (CRLF ++ (lines.flatMap (· ++ CRLF) ++ (CRLF ++ rest))) =
      some (lines.flatMap (· ++ CRLF)).length := by
  induction lines with
  | nil => rfl
  | cons line lines ih =>
    obtain ⟨hne, hcr⟩ := h line List.mem_cons_self
    have hih := ih fun l hl => h l (List.mem_cons_of_mem _ hl)
    set tail := CRLF ++ (lines.flatMap (· ++ CRLF) ++ (CRLF ++ rest)) with htail
    have hsplit : (line :: lines).flatMap (· ++ CRLF) ++ (CRLF ++ rest) = line ++ tail := by
      simp [htail]
    obtain ⟨c, more, hline⟩ := List.exists_cons_of_ne_nil hne
    have hc : CR ≠ c := fun hc => hcr (by rw [hline, hc]; exact List.mem_cons_self)
    calc findSub CRLFCRLF (CRLF ++ ((line :: lines).flatMap (· ++ CRLF) ++ (CRLF ++ rest)))
        = (findSub CRLFCRLF (line ++ tail)).map (· + 2) := by
          rw [hsplit, hline, List.cons_append, findSub_crlf hc]
      _ = some ((lines.flatMap (· ++ CRLF)).length + line.length + 2) := by
          rw [findSub_line hcr, hih]
          rfl
      _ = some ((line :: lines).flatMap (· ++ CRLF)).length := by
          rw [List.flatMap_cons, List.length_append, List.length_append, Option.some.injEq]
          simp only [CRLF, List.length_cons, List.length_nil]
          omega

/-! ## Blanks -/

/-- A string has no blanks to trim exactly if it neither starts nor ends with one. -/
theorem trimBlanks_eq_self_iff {s : Bytes} : trimBlanks s = s ↔
    (∀ c, s.head? = some c → isBlank c = false) ∧
      ∀ c, s.getLast? = some c → isBlank c = false := by
  constructor
  · intro h
    -- Trimming takes nothing away at either end.
    have hleft : s.dropWhile isBlank = s := by
      have hsuffix : s.dropWhile isBlank <:+ s := List.dropWhile_suffix _
      have hkept : trimBlanks s <+: s.dropWhile isBlank := List.rdropWhile_prefix _ _
      rw [h] at hkept
      exact hsuffix.eq_of_length (le_antisymm hsuffix.length_le hkept.length_le)
    rw [trimBlanks, hleft] at h
    constructor
    · intro c hc
      obtain ⟨rest, rfl⟩ := List.head?_eq_some_iff.mp hc
      have hfirst : ¬ isBlank c = true := List.dropWhile_eq_self_iff.mp hleft (Nat.succ_pos _)
      exact Bool.eq_false_iff.mpr hfirst
    · intro c hc
      obtain ⟨init, rfl⟩ := List.getLast?_eq_some_iff.mp hc
      have hlast := List.rdropWhile_eq_self_iff.mp h (by simp)
      rw [List.getLast_concat] at hlast
      exact Bool.eq_false_iff.mpr hlast
  · rintro ⟨hhead, hlast⟩
    have hleft : s.dropWhile isBlank = s := by
      cases s with
      | nil => rfl
      | cons c s => rw [List.dropWhile_cons_of_neg (by simp [hhead c rfl])]
    rw [trimBlanks, hleft, List.rdropWhile_eq_self_iff]
    intro hne
    simp [hlast _ (List.getLast?_eq_some_getLast hne)]

/-- The pieces of a text that is cut at a byte do not contain it. -/
theorem notMem_of_mem_splitOn {c : UInt8} {s piece : Bytes} (h : piece ∈ s.splitOn c) :
    c ∉ piece := by
  induction s generalizing piece with
  | nil =>
    rw [List.splitOn, List.splitOnP_nil, List.mem_singleton] at h
    rw [h]
    exact List.not_mem_nil
  | cons d s ih =>
    rw [List.splitOn, List.splitOnP_cons_eq_if_modifyHead] at h
    obtain ⟨w, ws, hs⟩ := List.exists_cons_of_ne_nil (List.splitOnP_ne_nil (· == c) s)
    rw [hs] at h
    have hpieces : ∀ p ∈ w :: ws, c ∉ p := fun p hp => ih (by rw [List.splitOn, hs]; exact hp)
    split_ifs at h with hd
    · rcases List.mem_cons.mp h with rfl | h
      · exact List.not_mem_nil
      · exact hpieces piece h
    · rw [List.modifyHead_cons] at h
      rcases List.mem_cons.mp h with rfl | h
      · intro hmem
        rcases List.mem_cons.mp hmem with rfl | hmem
        · simp at hd
        · exact hpieces w List.mem_cons_self hmem
      · exact hpieces piece (List.mem_cons_of_mem _ h)

end S3Rdma
