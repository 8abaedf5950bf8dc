import S3Rdma.Lib.Bytes
import Mathlib.Data.List.TakeWhile

/-!
# Lexical resolution of paths

A path is resolved component by component: an empty component and `.` stay where they are, `..` goes
one up, and any other name goes one down. Only `..` goes up, so what matters is where the components
`..` are: `foldl_resolveStep` computes the place that components without one lead to, and
`mem_components` finds the text around a component.
-/

namespace S3Rdma

/-- The components of a path. -/
def components (s : Bytes) : List Bytes := s.splitOn (chr '/')

/-- A component that stays at its place. -/
def stays (c : Bytes) : Bool := c = [] ∨ c = ascii "."

/-- One step of the resolution; a place is given by the names that lead to it. -/
def resolveStep (place : List Bytes) (c : Bytes) : List Bytes :=
  if stays c then place else if c = ascii ".." then place.dropLast else place ++ [c]

/-- From its first component on, a path is always at least one name below its start. -/
def StaysBelow (cs : List Bytes) : Prop :=
  ∀ pre, pre ≠ [] → pre <+: cs → pre.foldl resolveStep [] ≠ []

/-! ## Components -/

/-- The components of two paths with a slash between them. -/
theorem components_append (s t : Bytes) :
    components (s ++ chr '/' :: t) = components s ++ components t :=
  List.splitOnP_append_cons _ _ (beq_self_eq_true _)

/-- A name without a slash is one component. -/
theorem components_eq_singleton {s : Bytes} (h : chr '/' ∉ s) : components s = [s] := by
  have hjoin : s = [chr '/'].intercalate [s] := by simp [List.intercalate]
  unfold components
  conv_lhs => rw [hjoin]
  exact List.splitOn_intercalate _ (by simpa using h) (List.cons_ne_nil _ _)

/-- A path has its last component behind its last slash. -/
theorem components_eq_concat (s : Bytes) :
    ∃ init last, components s = init ++ [last] ∧
      (init = [] ∧ s = last ∨ ∃ before, init = components before ∧ s = before ++ chr '/' :: last) := by
  by_cases h : chr '/' ∈ s
  · obtain ⟨as, bs, hs, hno⟩ := List.eq_append_cons_of_mem (List.mem_reverse.mpr h)
    have hs' : s = bs.reverse ++ chr '/' :: as.reverse := by
      rw [← List.reverse_reverse s, hs]
      simp
    have hlast : chr '/' ∉ as.reverse := fun hmem => hno (List.mem_reverse.mp hmem)
    refine ⟨components bs.reverse, as.reverse, ?_, .inr ⟨_, rfl, hs'⟩⟩
    rw [hs', components_append, components_eq_singleton hlast]
  · exact ⟨[], s, components_eq_singleton h, .inl ⟨rfl, rfl⟩⟩

/-- All components but the last are those of every longer path. -/
theorem mem_components_append {s : Bytes} {init : List Bytes} {last : Bytes}
    (h : components s = init ++ [last]) (t : Bytes) {c : Bytes} (hc : c ∈ init) :
    c ∈ components (s ++ t) := by
  obtain ⟨init', last', hsplit, hcases⟩ := components_eq_concat s
  obtain ⟨rfl, rfl⟩ := List.append_singleton_inj.mp (h.symm.trans hsplit)
  rcases hcases with ⟨rfl, -⟩ | ⟨before, rfl, rfl⟩
  · exact absurd hc List.not_mem_nil
  · rw [List.append_assoc, List.cons_append, components_append]
    exact List.mem_append_left _ hc

/-- A component stands between two slashes, or at an end of the path. -/
theorem mem_components {s c : Bytes} (h : c ∈ components s) :
    ∃ before after, s = before ++ c ++ after ∧ (before = [] ∨ ∃ t, before = t ++ [chr '/']) ∧
      (after = [] ∨ ∃ t, after = chr '/' :: t) := by
  have hjoin : [chr '/'].intercalate (components s) = s := List.intercalate_splitOn _
  rw [← hjoin]
  generalize components s = cs at h
  clear hjoin
  induction cs with
  | nil => exact absurd h List.not_mem_nil
  | cons d ds ih =>
    cases ds with
    | nil =>
      obtain rfl := List.mem_singleton.mp h
      exact ⟨[], [], by simp [List.intercalate], .inl rfl, .inl rfl⟩
    | cons e es =>
      rw [List.intercalate_cons_cons]
      rcases List.mem_cons.mp h with rfl | h
      · exact ⟨[], chr '/' :: [chr '/'].intercalate (e :: es), by simp, .inl rfl, .inr ⟨_, rfl⟩⟩
      · obtain ⟨before, after, hs, hbefore, hafter⟩ := ih h
        refine ⟨d ++ [chr '/'] ++ before, after, by rw [hs]; simp, .inr ?_, hafter⟩
        rcases hbefore with rfl | ⟨t, rfl⟩
        · exact ⟨d, by simp⟩
        · exact ⟨d ++ [chr '/'] ++ t, by simp⟩

/-! ## Resolution -/

/-- Without `..`, the names lead down one after the other. -/
theorem foldl_resolveStep {cs : List Bytes} (h : ascii ".." ∉ cs) (place : List Bytes) :
    cs.foldl resolveStep place = place ++ cs.filter fun c => !stays c := by
  induction cs generalizing place with
  | nil => simp
  | cons c cs ih =>
    have hc : c ≠ ascii ".." := fun hc => h (hc ▸ List.mem_cons_self)
    rw [List.foldl_cons, ih fun hmem => h (List.mem_cons_of_mem _ hmem), resolveStep, if_neg hc]
    by_cases hs : stays c = true
    · simp [hs]
    · simp [hs]

/-- `..` goes up. -/
theorem resolveStep_dotdot (place : List Bytes) :
    resolveStep place (ascii "..") = place.dropLast := by
  have hstays : stays (ascii "..") = false := by decide
  rw [resolveStep, hstays, if_neg Bool.false_ne_true, if_pos rfl]

/-- A path of one component stays below unless the component stays or leads up. -/
theorem staysBelow_singleton (c : Bytes) :
    StaysBelow [c] ↔ ¬ (stays c = true ∨ c = ascii "..") := by
  have hstep : resolveStep [] c ≠ [] ↔ ¬ (stays c = true ∨ c = ascii "..") := by
    unfold resolveStep
    split_ifs with hs hd <;> simp [*]
  rw [← hstep]
  constructor
  · exact fun h => h [c] (List.cons_ne_nil _ _) List.prefix_rfl
  · intro h pre hne hpre
    obtain ⟨d, pre, rfl⟩ := List.exists_cons_of_ne_nil hne
    obtain ⟨rfl, hnil⟩ := List.cons_prefix_cons.mp hpre
    obtain rfl := List.prefix_nil.mp hnil
    exact h

/-- A path that starts with a name, and in which at most the last component is `..`, leaves the
place of that name only if it consists of staying components and `..`. -/
theorem staysBelow_iff {name : Bytes} (hname : stays name = false) (hne : name ≠ ascii "..")
    {init : List Bytes} (hinit : ascii ".." ∉ init) (last : Bytes) :
    StaysBelow (name :: (init ++ [last])) ↔ ¬ (last = ascii ".." ∧ ∀ c ∈ init, stays c = true) := by
  have hno : ascii ".." ∉ name :: init := by
    rw [List.mem_cons, not_or]
    exact ⟨Ne.symm hne, hinit⟩
  -- Before the last component the path is at the name or below it.
  have hplace : ∀ pre, pre <+: init → (name :: pre).foldl resolveStep [] =
      name :: pre.filter fun c => !stays c := by
    intro pre hpre
    rw [foldl_resolveStep fun hmem => hno ?_]
    · simp [hname]
    · exact ((List.prefix_cons_inj name).mpr hpre).subset hmem
  have hend : (name :: (init ++ [last])).foldl resolveStep [] =
      resolveStep (name :: init.filter fun c => !stays c) last := by
    rw [← List.cons_append, List.foldl_append, hplace init List.prefix_rfl]
    rfl
  constructor
  · rintro h ⟨rfl, hall⟩
    refine h _ (List.cons_ne_nil _ _) List.prefix_rfl ?_
    have hfilter : init.filter (fun c => !stays c) = [] := by
      rw [List.filter_eq_nil_iff]
      intro c hc
      simp [hall c hc]
    rw [hend, hfilter, resolveStep_dotdot]
    rfl
  · intro h pre hpre_ne hpre
    obtain ⟨d, pre, rfl⟩ := List.exists_cons_of_ne_nil hpre_ne
    obtain ⟨rfl, htail⟩ := List.cons_prefix_cons.mp hpre
    rcases List.prefix_concat_iff.mp htail with rfl | hinner
    · rw [hend]
      by_cases hlast : last = ascii ".."
      · -- Some component led down, so there is one to go up from.
        obtain ⟨c, hc, hstays⟩ : ∃ c ∈ init, ¬ stays c = true := by
          by_contra hall
          push Not at hall
          exact h ⟨hlast, hall⟩
        have hmem : c ∈ init.filter fun c => !stays c := List.mem_filter.mpr ⟨hc, by simpa using hstays⟩
        rw [hlast, resolveStep_dotdot, List.dropLast_cons_of_ne_nil (List.ne_nil_of_mem hmem)]
        exact List.cons_ne_nil _ _
      · rw [resolveStep, if_neg hlast]
        split_ifs
        · exact List.cons_ne_nil _ _
        · simp
    · rw [hplace pre hinner]
      exact List.cons_ne_nil _ _

/-- Behind the staying components there is only `..` exactly if the last is `..` and the others
stay. -/
theorem dropWhile_stays_iff {init : List Bytes} {last : Bytes} :
    (init ++ [last]).dropWhile stays = [ascii ".."] ↔
      last = ascii ".." ∧ ∀ c ∈ init, stays c = true := by
  have hstays : stays (ascii "..") = false := by decide
  constructor
  · intro h
    have hall : ∀ c ∈ init, stays c = true := by
      by_contra hno
      push Not at hno
      obtain ⟨c, hc, hcs⟩ := hno
      have hne : init.dropWhile stays ≠ [] := fun hnil =>
        hcs (List.dropWhile_eq_nil_iff.1 hnil c hc)
      rw [List.dropWhile_append, if_neg (by simpa using hne)] at h
      -- What is left of the others is not empty, so the last is not all there is.
      obtain ⟨d, ds, hd⟩ := List.exists_cons_of_ne_nil hne
      rw [hd] at h
      simp at h
    rw [List.dropWhile_append_of_pos hall] at h
    refine ⟨?_, hall⟩
    by_cases hl : stays last = true
    · simp [hl] at h
    · simpa [hl] using h
  · rintro ⟨rfl, hall⟩
    rw [List.dropWhile_append_of_pos hall, List.dropWhile_cons, hstays]
    rfl

end S3Rdma
