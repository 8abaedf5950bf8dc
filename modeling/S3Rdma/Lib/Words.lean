import Mathlib.Data.List.Basic

/-!
# The words of a text

A text is cut at its blanks into words (`words`), and is normalised by joining the words with one
separator each (`collapse`). A program does this in one pass, with the result so far and the word it
is in; `foldl_appendWord` is the bridge: appending the pieces between the blanks one after the
other, with a separator only between two that are not empty, is joining the words.
-/

namespace S3Rdma

variable {α : Type*}

/-- The words of a text: the non-empty pieces between its blanks. -/
def words (blank : α → Bool) (s : List α) : List (List α) := (s.splitOnP blank).filter (· ≠ [])

/-- The words of a text, with one separator between any two of them. -/
def collapse (blank : α → Bool) (sep : α) (s : List α) : List α := [sep].intercalate (words blank s)

/-- Append a piece of text, behind a separator if both are not empty. -/
def appendWord (sep : α) (out w : List α) : List α :=
  if w = [] then out else if out = [] then w else out ++ sep :: w

@[simp]
theorem appendWord_nil_right (sep : α) (out : List α) : appendWord sep out [] = out := if_pos rfl

@[simp]
theorem appendWord_nil_left (sep : α) (w : List α) : appendWord sep [] w = w := by
  unfold appendWord
  split_ifs with h h'
  · exact h.symm
  · rfl
  · exact absurd rfl h'

/-- Behind a text that is not empty, a word comes with a separator. -/
theorem appendWord_cons {sep : α} {out : List α} (h : out ≠ []) (c : α) (w : List α) :
    appendWord sep out (c :: w) = out ++ [sep] ++ c :: w := by
  unfold appendWord
  rw [if_neg (List.cons_ne_nil c w), if_neg h, List.append_assoc]
  rfl

/-- Appending pieces one after the other is joining those that are not empty. -/
theorem foldl_appendWord (sep : α) (pieces : List (List α)) (out : List α) :
    pieces.foldl (appendWord sep) out =
      [sep].intercalate ((out :: pieces).filter (· ≠ [])) := by
  induction pieces generalizing out with
  | nil =>
    by_cases hout : out = []
    · simp [hout]
    · simp [hout]
  | cons w pieces ih =>
    rw [List.foldl_cons, ih]
    by_cases hw : w = []
    · simp [hw, List.filter_cons]
    · by_cases hout : out = []
      · simp [hout]
      · -- The two words are one piece of the result.
        have hne : appendWord sep out w ≠ [] := by
          unfold appendWord
          rw [if_neg hw, if_neg hout]
          simp
        rw [List.filter_cons_of_pos (by simpa using hne), List.filter_cons_of_pos (by simpa using hout),
          List.filter_cons_of_pos (by simpa using hw), List.intercalate_cons_cons]
        unfold appendWord
        rw [if_neg hw, if_neg hout]
        cases pieces.filter (· ≠ []) with
        | nil => simp
        | cons w' ws =>
          rw [List.intercalate_cons_cons, List.intercalate_cons_cons]
          simp

end S3Rdma
