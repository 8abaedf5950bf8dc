import S3Rdma.Lib.Sweep
import S3Rdma.Probe.Experiments

/-!
# The overlap of concurrent GETs

The verdict on a round of concurrent GETs depends on `round_max`, which a scan over the sorted
begins and ends of the GETs computes. What it stands for is the largest number of GETs that were
open at one instant, each from its first begin up to its last end (`inHull_iff`); a GET of no
duration is open nowhere. `roundMax_exact` is the library's theorem about sort and scan at the
events of the contexts.
-/

namespace S3Rdma.Probe

/-- The instant lies between the first begin and the last end of the attempts of a context. -/
def inHull (t : ℤ) (x : RigContext) : Bool := (hull x.attempts).any (inside t)

/-- The number of contexts that are open at an instant. -/
def overlapAt (ctxs : List RigContext) (t : ℤ) : ℕ := ctxs.countP (inHull t)

/-! ## The hull of a context -/

/-- A running minimum is at most `t` exactly if one of the numbers is. -/
theorem foldl_min_le_iff {as : List Attempt} {b t : ℤ} :
    as.foldl (fun b a => min b a.t_begin) b ≤ t ↔ b ≤ t ∨ ∃ a ∈ as, a.t_begin ≤ t := by
  induction as generalizing b with
  | nil => simp
  | cons a as ih => simp [ih, or_assoc]

/-- A running maximum is above `t` exactly if one of the numbers is. -/
theorem lt_foldl_max_iff {as : List Attempt} {e t : ℤ} :
    t < as.foldl (fun e a => max e a.t_end) e ↔ t < e ∨ ∃ a ∈ as, t < a.t_end := by
  induction as generalizing e with
  | nil => simp
  | cons a as ih => simp [ih, or_assoc]

/-- A context is open at an instant exactly if one of its attempts has begun and one of them has not
ended. -/
theorem inHull_iff {t : ℤ} {x : RigContext} :
    inHull t x = true ↔ (∃ a ∈ x.attempts, a.t_begin ≤ t) ∧ ∃ a ∈ x.attempts, t < a.t_end := by
  unfold inHull
  cases x.attempts with
  | nil => simp [hull]
  | cons a as =>
    simp only [hull, Option.any_some, inside, Bool.and_eq_true, decide_eq_true_eq,
      foldl_min_le_iff, lt_foldl_max_iff, List.mem_cons, exists_eq_or_imp]

/-- A hull does not end before it begins. -/
theorem hull_le {as : List Attempt} (h : ∀ a ∈ as, a.t_begin ≤ a.t_end) {i : ℤ × ℤ}
    (hi : hull as = some i) : i.1 ≤ i.2 := by
  cases as with
  | nil => cases hi
  | cons a as =>
    obtain rfl := Option.some.inj hi
    have hfirst := h a List.mem_cons_self
    have hbegin : as.foldl (fun b a => min b a.t_begin) a.t_begin ≤ a.t_begin :=
      foldl_min_le_iff.mpr (.inl le_rfl)
    have hend : ¬ as.foldl (fun e a => max e a.t_end) a.t_end < a.t_end := by
      exact fun hlt => lt_irrefl _ ((@lt_foldl_max_iff as _ _).mpr (.inl hlt))
    dsimp only
    omega

/-! ## The events of the contexts -/

/-- The hulls of the contexts that were entered. -/
def hulls (ctxs : List RigContext) : List (ℤ × ℤ) := ctxs.filterMap fun x => hull x.attempts

/-- The events are the ends of the hulls. -/
theorem overlapEvents_eq (ctxs : List RigContext) : overlapEvents ctxs = ends (hulls ctxs) := by
  unfold overlapEvents hulls ends
  induction ctxs with
  | nil => rfl
  | cons x ctxs ih =>
    rw [List.flatMap_cons, ih, List.filterMap_cons]
    cases hull x.attempts with
    | none => rfl
    | some i => rfl

/-- The hulls that contain an instant are those of the contexts that are open at it. -/
theorem countP_hulls (ctxs : List RigContext) (t : ℤ) :
    (hulls ctxs).countP (inside t) = overlapAt ctxs t := by
  unfold hulls overlapAt
  rw [List.countP_filterMap]
  congr 1
  funext x
  unfold inHull
  cases hull x.attempts with
  | none => rfl
  | some i => rfl

/-- Two events are in order, one way or the other. -/
instance : Std.Total eventLe := ⟨fun x y => by unfold eventLe; omega⟩

/-- The order of events is transitive. -/
instance : IsTrans (ℤ × ℤ) eventLe := ⟨fun x y z hxy hyz => by unfold eventLe at *; omega⟩

/-- The scan is that of the library. -/
theorem sweep_eq (ev : List (ℤ × ℤ)) : sweep ev = highWater (ev.map Prod.snd) := by
  unfold sweep highWater
  rw [List.foldl_map]

/-- `round_max` is the largest number of contexts that are open at one instant, and it is at least
two exactly if the hulls of two distinct contexts have an instant in common. -/
theorem roundMax_exact (ctxs : List RigContext)
    (h : ∀ x ∈ ctxs, ∀ a ∈ x.attempts, a.t_begin ≤ a.t_end) :
    (∀ t, (overlapAt ctxs t : ℤ) ≤ roundMax ctxs) ∧ (∃ t, roundMax ctxs = overlapAt ctxs t) ∧
      (2 ≤ roundMax ctxs ↔ ∃ (i j : ℕ) (x y : RigContext), i ≠ j ∧ ctxs[i]? = some x ∧
        ctxs[j]? = some y ∧ ∃ t, inHull t x = true ∧ inHull t y = true) := by
  have hle : ∀ i ∈ hulls ctxs, i.1 ≤ i.2 := by
    intro i hi
    obtain ⟨x, hx, hxi⟩ := List.mem_filterMap.mp hi
    exact hull_le (h x hx) hxi
  -- The scan sees both ends of every hull, in the order of the events.
  have hperm : ((overlapEvents ctxs).insertionSort eventLe).Perm (ends (hulls ctxs)) := by
    rw [← overlapEvents_eq]
    exact List.perm_insertionSort eventLe _
  have hsorted : ((overlapEvents ctxs).insertionSort eventLe).Pairwise EventLe :=
    List.pairwise_insertionSort eventLe _
  obtain ⟨hbound, hattained⟩ := highWater_sorted hle hperm hsorted
  simp only [countP_hulls, ← sweep_eq] at hbound hattained
  refine ⟨hbound, hattained, ?_, ?_⟩
  · intro htwo
    -- At the instant of the maximum two contexts are open.
    obtain ⟨t, ht⟩ := hattained
    have hcount : 2 ≤ overlapAt ctxs t := by
      have hmax : 2 ≤ sweep ((overlapEvents ctxs).insertionSort eventLe) := htwo
      omega
    obtain ⟨i, j, x, y, hij, hi, hj, hx, hy⟩ := two_le_countP_iff.mp hcount
    exact ⟨i, j, x, y, by omega, hi, hj, t, hx, hy⟩
  · rintro ⟨i, j, x, y, hij, hi, hj, t, hx, hy⟩
    have hcount : 2 ≤ overlapAt ctxs t := by
      rcases Nat.lt_or_gt_of_ne hij with hlt | hlt
      · exact two_le_countP_iff.mpr ⟨i, j, x, y, hlt, hi, hj, hx, hy⟩
      · exact two_le_countP_iff.mpr ⟨j, i, y, x, hlt, hj, hi, hy, hx⟩
    calc (2 : ℤ) ≤ overlapAt ctxs t := by exact_mod_cast hcount
      _ ≤ roundMax ctxs := hbound t

/-- A context of one attempt. -/
def oneAttempt (t_begin t_end : ℤ) : RigContext := { attempts := [{ t_begin, t_end }] }

/-- Three GETs, of which the second begins when the first one ends. -/
def threeGets : List RigContext := [oneAttempt 0 5, oneAttempt 5 9, oneAttempt 7 8]

/-- Of the three GETs two are open at once, and no more. -/
theorem roundMax_exact_threeGets :
    roundMax threeGets = 2 ∧ ∀ t, (overlapAt threeGets t : ℤ) ≤ roundMax threeGets :=
  ⟨by decide +kernel, (roundMax_exact threeGets (by decide)).1⟩

end S3Rdma.Probe
