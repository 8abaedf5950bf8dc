import Mathlib.Data.Nat.Notation
import Mathlib.Logic.Basic

/-!
# Runs of a step function

A system is given by a step function: what an action does to a state, if it is possible there. A run
is a list of actions that are possible one after the other. What a step preserves holds along a run
(`runSteps_invariant`); a condition on the steps of a run may be used for it (`MeetsAlong`).
-/

namespace S3Rdma

variable {σ α : Type*} {step : σ → α → Option σ}

/-- The state after some actions, if each is possible in its turn. -/
def runSteps (step : σ → α → Option σ) : List α → σ → Option σ
  | [], s => some s
  | a :: as, s => (step s a).bind (runSteps step as)

/-- Each action of a run meets a condition in the state in which it is taken. -/
def MeetsAlong (step : σ → α → Option σ) (C : σ → α → Prop) : List α → σ → Prop
  | [], _ => True
  | a :: as, s => C s a ∧ ∀ s' ∈ step s a, MeetsAlong step C as s'

instance MeetsAlong.decidable {C : σ → α → Prop} [∀ s a, Decidable (C s a)] :
    ∀ as s, Decidable (MeetsAlong step C as s)
  | [], _ => .isTrue trivial
  | a :: as, s =>
    have (s' : σ) : Decidable (MeetsAlong step C as s') := MeetsAlong.decidable as s'
    inferInstanceAs (Decidable (C s a ∧ ∀ s' ∈ step s a, MeetsAlong step C as s'))

/-- A run is a first step and a run. -/
theorem runSteps_cons_eq_some {a : α} {as : List α} {s t : σ} :
    runSteps step (a :: as) s = some t ↔ ∃ s', step s a = some s' ∧ runSteps step as s' = some t :=
  Option.bind_eq_some_iff

/-- If a run after a run meets a condition, both do. -/
theorem MeetsAlong.of_append {C : σ → α → Prop} {as bs : List α} {s t : σ}
    (h : MeetsAlong step C (as ++ bs) s) (hrun : runSteps step as s = some t) :
    MeetsAlong step C as s ∧ MeetsAlong step C bs t := by
  induction as generalizing s with
  | nil =>
    obtain rfl := Option.some.inj hrun
    exact ⟨trivial, h⟩
  | cons a as ih =>
    obtain ⟨s', hstep, hrun⟩ := runSteps_cons_eq_some.mp hrun
    refine ⟨⟨h.1, fun s'' hstep' => ?_⟩, (ih (h.2 s' hstep) hrun).2⟩
    obtain rfl := Option.some.inj (hstep.symm.trans hstep')
    exact (ih (h.2 s' hstep) hrun).1

/-- What each step that meets the condition preserves, such a run preserves. -/
theorem runSteps_invariant_of {I : σ → Prop} {C : σ → α → Prop}
    (hI : ∀ s a s', I s → C s a → step s a = some s' → I s') {as : List α} {s t : σ} (hs : I s)
    (hC : MeetsAlong step C as s) (hrun : runSteps step as s = some t) : I t := by
  induction as generalizing s with
  | nil =>
    obtain rfl := Option.some.inj hrun
    exact hs
  | cons a as ih =>
    obtain ⟨s', hstep, hrun⟩ := runSteps_cons_eq_some.mp hrun
    exact ih (hI s a s' hs hC.1 hstep) (hC.2 s' hstep) hrun

/-- What each step preserves, a run preserves. -/
theorem runSteps_invariant {I : σ → Prop} (hI : ∀ s a s', I s → step s a = some s' → I s')
    {as : List α} {s t : σ} (hs : I s) (hrun : runSteps step as s = some t) : I t := by
  have htrue : ∀ (as : List α) s, MeetsAlong step (fun _ _ => True) as s := by
    intro as
    induction as with
    | nil => exact fun _ => trivial
    | cons a as ih => exact fun s => ⟨trivial, fun s' _ => ih s'⟩
  exact runSteps_invariant_of (fun s a s' h _ hstep => hI s a s' h hstep) hs (htrue as s) hrun

/-- A run whose steps all decrease a number is no longer than the number says. -/
theorem runSteps_length_le {I : σ → Prop} {μ : σ → ℕ}
    (hI : ∀ s a s', I s → step s a = some s' → I s' ∧ μ s' < μ s) {as : List α} {s t : σ} (hs : I s)
    (hrun : runSteps step as s = some t) : as.length + μ t ≤ μ s := by
  induction as generalizing s with
  | nil =>
    obtain rfl := Option.some.inj hrun
    exact Nat.le_of_eq (Nat.zero_add _)
  | cons a as ih =>
    obtain ⟨s', hstep, hrun⟩ := runSteps_cons_eq_some.mp hrun
    obtain ⟨hs', hlt⟩ := hI s a s' hs hstep
    have hrest := ih hs' hrun
    rw [List.length_cons]
    omega

/-- What holds after a run and did not before it was brought about by one of its steps. -/
theorem exists_step_of_change {I : σ → Prop} {as : List α} {s t : σ} (hs : ¬ I s) (ht : I t)
    (hrun : runSteps step as s = some t) :
    ∃ as₁ a as₂ s₁ s₂, as = as₁ ++ a :: as₂ ∧ runSteps step as₁ s = some s₁ ∧
      step s₁ a = some s₂ ∧ runSteps step as₂ s₂ = some t ∧ ¬ I s₁ ∧ I s₂ := by
  induction as generalizing s with
  | nil =>
    obtain rfl := Option.some.inj hrun
    exact absurd ht hs
  | cons a as ih =>
    obtain ⟨s', hstep, hrest⟩ := runSteps_cons_eq_some.mp hrun
    by_cases hs' : I s'
    · exact ⟨[], a, as, s, s', rfl, rfl, hstep, hrest, hs, hs'⟩
    · obtain ⟨as₁, b, as₂, s₁, s₂, rfl, hrun₁, hb, hrun₂, hno, hyes⟩ := ih hs' hrest
      exact ⟨a :: as₁, b, as₂, s₁, s₂, rfl, runSteps_cons_eq_some.mpr ⟨s', hstep, hrun₁⟩, hb, hrun₂,
        hno, hyes⟩

end S3Rdma
