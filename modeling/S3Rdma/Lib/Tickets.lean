import Mathlib.Algebra.Order.Group.Nat
import Mathlib.Data.List.Basic

/-!
# A counter of tickets with a single credit

Several parties take a ticket each before they do something that cannot be undone, and give it back
if they have not done it. A shared counter holds the number of tickets. A party whose deed turns out
well may be credited for it, if it sees that its ticket is the only one; a second counter holds the
number of credits. The test of the first counter and the increment of the second are two steps, and
between them others may take tickets.

Still, at most one party is ever credited: a party that has passed the test never gives its ticket
back, so nobody else sees a single ticket after it (`Counted.pass`). Hence the two counters are
equal only when there is no ticket, or a single one that was credited (`Counted.eq_cases`).
-/

namespace S3Rdma

/-- What a party holds: nothing, a ticket, a ticket that was seen to be the only one, or a ticket
that was credited. -/
inductive Ticket where
  | none
  | taken
  | passed
  | credited
deriving DecidableEq

/-- The party has a ticket. -/
def Ticket.held : Ticket → Bool
  | .none => false
  | _ => true

/-- The party has seen that its ticket is the only one. -/
def Ticket.sole : Ticket → Bool
  | .passed => true
  | .credited => true
  | _ => false

/-- The two counters agree with the tickets, and at most one party has passed the test. -/
structure Counted (ts : List Ticket) (submitted completed : ℤ) : Prop where
  submitted_eq : submitted = ts.countP Ticket.held
  completed_eq : completed = ts.countP (· == .credited)
  sole_le : ts.countP Ticket.sole ≤ 1

/-- What a change of one party's ticket does to a count. -/
theorem countP_set_add {α : Type*} {p : α → Bool} {l : List α} {i : ℕ} {a b : α} (h : l[i]? = some a) :
    (l.set i b).countP p + (if p a then 1 else 0) = l.countP p + if p b then 1 else 0 := by
  obtain ⟨hi, ha⟩ := List.getElem?_eq_some_iff.mp h
  rw [List.countP_set hi, ha]
  have hle : (if p a = true then 1 else 0) ≤ l.countP p := by
    split_ifs with hp
    · exact List.countP_pos_iff.mpr ⟨a, List.mem_of_getElem? h, hp⟩
    · exact Nat.zero_le _
  omega

namespace Counted

variable {ts : List Ticket} {submitted completed : ℤ}

/-- Nobody has a ticket at first. -/
theorem nil : Counted [] 0 0 := ⟨rfl, rfl, Nat.zero_le _⟩

/-- A new party has no ticket. -/
theorem enter (h : Counted ts submitted completed) :
    Counted (ts ++ [.none]) submitted completed := by
  obtain ⟨hs, hc, hsole⟩ := h
  refine ⟨?_, ?_, ?_⟩
  · simpa [Ticket.held] using hs
  · simpa using hc
  · simpa [Ticket.sole] using hsole

/-- A change of one party's ticket, with the counters changed accordingly. Nobody passes the test
by it. -/
theorem change (h : Counted ts submitted completed) {i : ℕ} {t t' : Ticket} (hi : ts[i]? = some t)
    {submitted' completed' : ℤ}
    (hs : submitted' + (if t.held then 1 else 0) = submitted + if t'.held then 1 else 0)
    (hc : completed' + (if t == .credited then 1 else 0) =
      completed + if t' == .credited then 1 else 0)
    (hsole : t'.sole = true → t.sole = true) : Counted (ts.set i t') submitted' completed' := by
  have hheld := countP_set_add (p := Ticket.held) (b := t') hi
  have hcredit := countP_set_add (p := (· == Ticket.credited)) (b := t') hi
  have hpassed := countP_set_add (p := Ticket.sole) (b := t') hi
  obtain ⟨hs₀, hc₀, hsole₀⟩ := h
  refine ⟨?_, ?_, ?_⟩
  · split_ifs at hs hheld <;> omega
  · split_ifs at hc hcredit <;> omega
  · split_ifs at hpassed with h₁ h₂ h₂
    · omega
    · omega
    · exact absurd (hsole h₂) h₁
    · omega

section Change

variable {i : ℕ} (h : Counted ts submitted completed)
include h

/-- A party whose ticket does not change does not matter. -/
theorem keep {t : Ticket} (hi : ts[i]? = some t) : Counted (ts.set i t) submitted completed :=
  h.change hi rfl rfl id

/-- The counters agree after a ticket is taken. -/
theorem take (hi : ts[i]? = some .none) : Counted (ts.set i .taken) (submitted + 1) completed :=
  h.change hi (by simp [Ticket.held]) rfl (by simp [Ticket.sole])

/-- The counters agree after a ticket is given back. -/
theorem giveBack (hi : ts[i]? = some .taken) : Counted (ts.set i .none) (submitted - 1) completed :=
  h.change hi (by simp [Ticket.held]) rfl (by simp [Ticket.sole])

/-- The holder of the only ticket passes the test. -/
theorem pass (hi : ts[i]? = some .taken) (hone : submitted = 1) :
    Counted (ts.set i .passed) submitted completed := by
  have hheld := countP_set_add (p := Ticket.held) (b := .passed) hi
  have hcredit := countP_set_add (p := (· == Ticket.credited)) (b := .passed) hi
  obtain ⟨hs₀, hc₀, -⟩ := h
  simp only [Ticket.held, if_true] at hheld
  simp only [beq_iff_eq, reduceCtorEq, if_false] at hcredit
  -- Whoever has passed has a ticket, and there is only one.
  have hsub : (ts.set i .passed).countP Ticket.sole ≤ (ts.set i .passed).countP Ticket.held :=
    List.countP_mono_left fun t _ ht => by cases t <;> simp_all [Ticket.sole, Ticket.held]
  exact ⟨by omega, by omega, by omega⟩

/-- The counters agree after a party that has passed is credited. -/
theorem credit (hi : ts[i]? = some .passed) :
    Counted (ts.set i .credited) submitted (completed + 1) :=
  h.change hi (by simp [Ticket.held]) (by simp) (by simp [Ticket.sole])

/-- There is at most one credit, and no more credits than tickets. -/
theorem completed_le : completed ≤ 1 ∧ completed ≤ submitted := by
  obtain ⟨hs, hc, hsole⟩ := h
  have h₁ : ts.countP (· == .credited) ≤ ts.countP Ticket.sole :=
    List.countP_mono_left fun t _ ht => by cases t <;> simp_all [Ticket.sole]
  have h₂ : ts.countP Ticket.sole ≤ ts.countP Ticket.held :=
    List.countP_mono_left fun t _ ht => by cases t <;> simp_all [Ticket.sole, Ticket.held]
  omega

/-- A ticket that was not credited is counted on one side only. -/
theorem completed_lt {t : Ticket} (hi : ts[i]? = some t) (hheld : t.held = true)
    (hnot : t ≠ .credited) : completed < submitted := by
  -- Give it back, and there are still no more credits than tickets.
  have hback : Counted (ts.set i .none) (submitted - 1) completed := by
    refine h.change hi ?_ ?_ (by simp [Ticket.sole])
    · rw [if_pos hheld, if_neg (by decide)]
      omega
    · rw [if_neg (by simpa using hnot), if_neg (by decide)]
  have hle := hback.completed_le.2
  omega

/-- The counters are equal only when nobody has a ticket, or one party that was credited. -/
theorem eq_cases (heq : completed = submitted) :
    (∀ t ∈ ts, t.held = false) ∨
      ts.countP Ticket.held = 1 ∧ ∀ t ∈ ts, t.held = true → t = .credited := by
  have hle := h.completed_le.1
  by_cases hzero : submitted = 0
  · left
    intro t ht
    have hcount : ts.countP Ticket.held = 0 := by
      have hs := h.submitted_eq
      omega
    simpa using List.countP_eq_zero.mp hcount t ht
  · right
    have hs := h.submitted_eq
    refine ⟨by omega, fun t ht hheld => ?_⟩
    by_contra hnot
    obtain ⟨i, hi⟩ := List.mem_iff_getElem?.mp ht
    have hlt := h.completed_lt hi hheld hnot
    omega

end Change

end Counted

end S3Rdma
