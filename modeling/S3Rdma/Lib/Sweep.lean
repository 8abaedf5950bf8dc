import Mathlib.Algebra.Order.BigOperators.Group.List
import Mathlib.Algebra.Order.Ring.Int
import Mathlib.Data.List.Induction

/-!
# Sort and scan

The most intervals of a family that contain one instant, from the sorted list of their ends. Each
half-open interval `[b, e)` gives the events `(b, 1)` and `(e, -1)`; the events are sorted by time,
the `-1` of a time before its `1`, and `highWater` is the largest value that the running sum of the
signs reaches.

The bridge is `level`: the sum of the signs of all events up to an instant. It does not depend on
the order of the events, and it is the number of intervals that contain the instant (`level_ends`).
In a sorted list it is also the sum of a beginning of the list (`exists_level_eq`), and the sum of
any beginning is bounded by it or not positive (`exists_le_level`): what a beginning that ends in a
`1` leaves out of its instant is only further `1`s.
-/

namespace S3Rdma

/-! ## The scan -/

/-- The largest sum of a beginning of the list, the empty one included. -/
def highWater (xs : List ℤ) : ℤ :=
  (xs.foldl (fun s x => (s.1 + x, max s.2 (s.1 + x))) ((0, 0) : ℤ × ℤ)).2

/-- The scan keeps the sum. -/
theorem foldl_scan_fst (xs : List ℤ) :
    (xs.foldl (fun s x => (s.1 + x, max s.2 (s.1 + x))) ((0, 0) : ℤ × ℤ)).1 = xs.sum := by
  induction xs using List.reverseRecOn with
  | nil => rfl
  | append_singleton xs x ih => rw [List.foldl_concat, List.sum_append, List.sum_singleton, ih]

/-- One more number raises the high-water mark to the new sum, if that is larger. -/
theorem highWater_concat (xs : List ℤ) (x : ℤ) :
    highWater (xs ++ [x]) = max (highWater xs) (xs.sum + x) := by
  unfold highWater
  rw [List.foldl_concat, foldl_scan_fst]

/-- No beginning of a list has a sum above the high-water mark. -/
theorem sum_le_highWater (xs ys : List ℤ) : xs.sum ≤ highWater (xs ++ ys) := by
  induction ys using List.reverseRecOn with
  | nil =>
    rw [List.append_nil]
    rcases List.eq_nil_or_concat xs with rfl | ⟨xs', x, rfl⟩
    · exact le_rfl
    · rw [List.concat_eq_append, highWater_concat, List.sum_append, List.sum_singleton]
      exact le_max_right _ _
  | append_singleton ys y ih =>
    rw [← List.append_assoc, highWater_concat]
    exact ih.trans (le_max_left _ _)

/-- Some beginning of the list has the high-water mark as its sum. -/
theorem exists_sum_eq_highWater (xs : List ℤ) : ∃ p q, xs = p ++ q ∧ highWater xs = p.sum := by
  induction xs using List.reverseRecOn with
  | nil => exact ⟨[], [], rfl, rfl⟩
  | append_singleton xs x ih =>
    rw [highWater_concat]
    rcases le_total (highWater xs) (xs.sum + x) with h | h
    · exact ⟨xs ++ [x], [], by simp, by simp [h]⟩
    · obtain ⟨p, q, hxs, hp⟩ := ih
      refine ⟨p, q ++ [x], ?_, ?_⟩
      · rw [hxs, List.append_assoc]
      · rw [max_eq_left h, hp]

/-! ## Events -/

section Events

variable {α : Type*} [LinearOrder α]

/-- The sum of the signs of some events. -/
def signs (ev : List (α × ℤ)) : ℤ := (ev.map Prod.snd).sum

/-- The sum of the signs of the events up to an instant. -/
def level (ev : List (α × ℤ)) (t : α) : ℤ := signs (ev.filter fun e => e.1 ≤ t)

/-- The order of events: by time, and then by sign. -/
def EventLe (x y : α × ℤ) : Prop := x.1 < y.1 ∨ (x.1 = y.1 ∧ x.2 ≤ y.2)

omit [LinearOrder α] in
/-- The signs of two lists of events add up. -/
theorem signs_append (p q : List (α × ℤ)) : signs (p ++ q) = signs p + signs q := by
  simp [signs]

/-- The level does not depend on the order of the events. -/
theorem level_perm {p q : List (α × ℤ)} (h : p.Perm q) (t : α) : level p t = level q t :=
  ((h.filter _).map Prod.snd).sum_eq

/-- In a sorted list, the events up to an instant are a beginning. -/
theorem exists_level_eq {ev : List (α × ℤ)} (h : ev.Pairwise EventLe) (t : α) :
    ∃ p q, ev = p ++ q ∧ level ev t = signs p := by
  induction ev with
  | nil => exact ⟨[], [], rfl, rfl⟩
  | cons e ev ih =>
    obtain ⟨hfirst, hrest⟩ := List.pairwise_cons.mp h
    by_cases he : e.1 ≤ t
    · obtain ⟨p, q, rfl, hp⟩ := ih hrest
      refine ⟨e :: p, q, rfl, ?_⟩
      unfold level at hp ⊢
      rw [List.filter_cons_of_pos (by simpa using he)]
      simp only [signs, List.map_cons, List.sum_cons] at hp ⊢
      rw [hp]
    · -- Nothing after an event that is too late is early enough.
      refine ⟨[], e :: ev, rfl, ?_⟩
      have hnone : (e :: ev).filter (fun x => decide (x.1 ≤ t)) = [] := by
        rw [List.filter_eq_nil_iff]
        intro x hx
        rcases List.mem_cons.mp hx with rfl | hx
        · simpa using he
        · have hle : e.1 ≤ x.1 := (hfirst x hx).elim le_of_lt fun heq => heq.1.le
          simpa using lt_of_lt_of_le (not_le.mp he) hle
      rw [level, hnone]

/-- The sum of a beginning of a sorted list is not positive, or bounded by the level at some
instant. -/
theorem exists_le_level {p q : List (α × ℤ)} (h : (p ++ q).Pairwise EventLe)
    (hsign : ∀ e ∈ p ++ q, e.2 = 1 ∨ e.2 = -1) :
    signs p ≤ 0 ∨ ∃ t, signs p ≤ level (p ++ q) t := by
  induction p using List.reverseRecOn generalizing q with
  | nil => exact .inl le_rfl
  | append_singleton p e ih =>
    have hshift : p ++ [e] ++ q = p ++ e :: q := by simp
    rw [hshift] at h hsign ⊢
    have hsum : signs (p ++ [e]) = signs p + e.2 := by
      rw [signs_append]
      simp [signs]
    rcases hsign e (by simp) with hbegin | hend
    · -- Up to the time of a begin, the events left out are begins of the same time.
      right
      refine ⟨e.1, ?_⟩
      obtain ⟨hp, hq, hpq⟩ := List.pairwise_append.mp h
      have hkept : p.filter (fun x => decide (x.1 ≤ e.1)) = p := by
        rw [List.filter_eq_self]
        intro x hx
        have hle : x.1 ≤ e.1 :=
          (hpq x hx e List.mem_cons_self).elim le_of_lt fun heq => heq.1.le
        simpa using hle
      have hrest : 0 ≤ signs (q.filter fun x => decide (x.1 ≤ e.1)) := by
        refine List.sum_nonneg fun s hs => ?_
        obtain ⟨x, hx, rfl⟩ := List.mem_map.mp hs
        obtain ⟨hxq, hxt⟩ := List.mem_filter.mp hx
        rcases (List.pairwise_cons.mp hq).1 x hxq with hlt | ⟨-, hle⟩
        · exact absurd (of_decide_eq_true hxt) (not_le.mpr hlt)
        · omega
      have hlevel : level (p ++ e :: q) e.1 =
          signs p + (e.2 + signs (q.filter fun x => decide (x.1 ≤ e.1))) := by
        unfold level
        rw [List.filter_append, hkept, List.filter_cons_of_pos (by simp), signs_append]
        simp [signs]
      rw [hlevel, hsum]
      omega
    · -- Without the end at its end, the beginning has a larger sum.
      rcases ih h hsign with hle | ⟨t, ht⟩
      · exact .inl (by omega)
      · exact .inr ⟨t, by omega⟩

/-! ## Intervals -/

/-- The events of some intervals. -/
def ends (is : List (α × α)) : List (α × ℤ) := is.flatMap fun i => [(i.1, 1), (i.2, -1)]

/-- The instant lies in the half-open interval. -/
def inside (t : α) (i : α × α) : Bool := decide (i.1 ≤ t) && decide (t < i.2)

/-- The level is the number of intervals that contain the instant. -/
theorem level_ends {is : List (α × α)} (h : ∀ i ∈ is, i.1 ≤ i.2) (t : α) :
    level (ends is) t = (is.countP (inside t) : ℤ) := by
  induction is with
  | nil => rfl
  | cons i is ih =>
    have hi := h i List.mem_cons_self
    have hrest := ih fun j hj => h j (List.mem_cons_of_mem _ hj)
    have hsplit : level (ends (i :: is)) t =
        level [(i.1, (1 : ℤ)), (i.2, -1)] t + level (ends is) t := by
      unfold level ends
      rw [List.flatMap_cons, List.filter_append, signs_append]
    rw [hsplit, hrest, List.countP_cons, Int.natCast_add, add_comm]
    congr 1
    -- Before the interval no event counts, after it both do.
    by_cases hb : i.1 ≤ t
    · by_cases he : i.2 ≤ t
      · simp [level, signs, inside, hb, he, not_lt.mpr he]
      · simp [level, signs, inside, hb, he, not_le.mp he]
    · have he : ¬ i.2 ≤ t := fun he => hb (hi.trans he)
      simp [level, signs, inside, hb, he]

/-- Sort and scan give the largest number of intervals that contain one instant. -/
theorem highWater_sorted [Nonempty α] {is : List (α × α)} (h : ∀ i ∈ is, i.1 ≤ i.2)
    {ev : List (α × ℤ)} (hperm : ev.Perm (ends is)) (hsorted : ev.Pairwise EventLe) :
    (∀ t, (is.countP (inside t) : ℤ) ≤ highWater (ev.map Prod.snd)) ∧
      ∃ t, highWater (ev.map Prod.snd) = (is.countP (inside t) : ℤ) := by
  have hlevel : ∀ t, level ev t = (is.countP (inside t) : ℤ) := fun t => by
    rw [level_perm hperm, level_ends h]
  have hsign : ∀ e ∈ ev, e.2 = 1 ∨ e.2 = -1 := by
    intro e he
    obtain ⟨i, -, hi⟩ := List.mem_flatMap.mp (hperm.mem_iff.mp he)
    simp only [List.mem_cons, List.not_mem_nil, or_false] at hi
    rcases hi with rfl | rfl
    · exact .inl rfl
    · exact .inr rfl
  have hle : ∀ t, (is.countP (inside t) : ℤ) ≤ highWater (ev.map Prod.snd) := by
    intro t
    obtain ⟨p, q, hpq, hp⟩ := exists_level_eq hsorted t
    rw [← hlevel t, hp, hpq, List.map_append]
    exact sum_le_highWater _ _
  refine ⟨hle, ?_⟩
  obtain ⟨ps, qs, hsplit, hsum⟩ := exists_sum_eq_highWater (ev.map Prod.snd)
  obtain ⟨p, q, rfl, rfl, rfl⟩ := List.map_eq_append_iff.mp hsplit
  rcases exists_le_level hsorted hsign with hneg | ⟨t, ht⟩
  · -- The scan never left the ground, and neither did any instant.
    obtain ⟨t⟩ := ‹Nonempty α›
    refine ⟨t, le_antisymm ?_ (hle t)⟩
    rw [hsum]
    exact hneg.trans (Int.natCast_nonneg _)
  · refine ⟨t, le_antisymm ?_ (hle t)⟩
    rw [hsum, ← hlevel t]
    exact ht

end Events

/-- Two entries of a list pass a test exactly if it counts at least two. -/
theorem two_le_countP_iff {α : Type*} {p : α → Bool} {l : List α} :
    2 ≤ l.countP p ↔ ∃ (i j : ℕ) (x y : α), i < j ∧ l[i]? = some x ∧ l[j]? = some y ∧
      p x = true ∧ p y = true := by
  induction l with
  | nil => simp
  | cons a l ih =>
    rw [List.countP_cons]
    constructor
    · intro h
      -- Both are in the tail, or the head is the first of them.
      by_cases htwo : 2 ≤ l.countP p
      · obtain ⟨i, j, x, y, hij, hi, hj, hx, hy⟩ := ih.mp htwo
        exact ⟨i + 1, j + 1, x, y, by omega, by simpa using hi, by simpa using hj, hx, hy⟩
      · have ha : p a = true := by
          by_contra ha
          rw [if_neg ha] at h
          exact htwo h
        have hone : 0 < l.countP p := by
          rw [if_pos ha] at h
          omega
        obtain ⟨y, hy, hpy⟩ := List.countP_pos_iff.mp hone
        obtain ⟨j, hj⟩ := List.mem_iff_getElem?.mp hy
        exact ⟨0, j + 1, a, y, by omega, rfl, by simpa using hj, ha, hpy⟩
    · rintro ⟨i, j, x, y, hij, hi, hj, hx, hy⟩
      obtain ⟨j, rfl⟩ : ∃ j', j = j' + 1 := ⟨j - 1, by omega⟩
      rw [List.getElem?_cons_succ] at hj
      have hone : 0 < l.countP p := List.countP_pos_iff.mpr ⟨y, List.mem_of_getElem? hj, hy⟩
      cases i with
      | zero =>
        obtain rfl : a = x := by simpa using hi
        rw [if_pos hx]
        omega
      | succ i =>
        rw [List.getElem?_cons_succ] at hi
        have htwo := ih.mpr ⟨i, j, x, y, by omega, hi, hj, hx, hy⟩
        omega

end S3Rdma
