import Mathlib.Logic.Basic

/-!
# Computations with a state and exceptions

A computation that reads and writes a state, and may end by an exception, is an `EStateM`. `Ensures`
says what it does when it is started in a state: it ends normally, with a result and a state that
meet one condition, or by an exception in a state that meet another. There is a rule for each way in
which computations are put together; a loop has an invariant that may refer to the elements that it
has gone through.
-/

namespace S3Rdma

variable {ε σ α β : Type}

/-- Started in a state, the computation ends normally with `Q`, or by an exception with `E`. -/
def Ensures (m : EStateM ε σ α) (s : σ) (Q : α → σ → Prop) (E : ε → σ → Prop) : Prop :=
  match m s with
  | .ok a t => Q a t
  | .error e t => E e t

/-- The computation with a handler for some of its exceptions. -/
def handle (m : EStateM ε σ α) (h : ε → Option (EStateM ε σ α)) : EStateM ε σ α := fun s =>
  match m s with
  | .ok a t => .ok a t
  | .error e t =>
    match h e with
    | some k => k t
    | none => .error e t

/-- The computation, and a change of the state however it ends. -/
def always (m : EStateM ε σ α) (d : σ → σ) : EStateM ε σ α := fun s =>
  match m s with
  | .ok a t => .ok a (d t)
  | .error e t => .error e (d t)

namespace Ensures

variable {m : EStateM ε σ α} {f : α → EStateM ε σ β} {s t : σ} {Q Q' : α → σ → Prop}
  {R : β → σ → Prop} {E E' : ε → σ → Prop} {a : α} {e : ε}

/-- A computation that ends normally meets its condition for that. -/
theorem of_ok (h : Ensures m s Q E) (hm : m s = .ok a t) : Q a t := by
  rw [Ensures, hm] at h
  exact h

/-- A computation that ends by an exception meets its condition for that. -/
theorem of_error (h : Ensures m s Q E) (hm : m s = .error e t) : E e t := by
  rw [Ensures, hm] at h
  exact h

/-- The conditions may be weakened. -/
theorem mono (h : Ensures m s Q E) (hQ : ∀ a t, Q a t → Q' a t) (hE : ∀ e t, E e t → E' e t) :
    Ensures m s Q' E' := by
  unfold Ensures at h ⊢
  split at h
  · exact hQ _ _ h
  · exact hE _ _ h

/-- A computation that does not end by an exception meets any condition for exceptions. -/
theorem returns (h : Ensures m s Q fun _ _ => False) : Ensures m s Q E :=
  h.mono (fun _ _ hQ => hQ) fun _ _ hE => hE.elim

/-- A computation that meets two pairs of conditions meets both at once. -/
theorem and (h : Ensures m s Q E) (h' : Ensures m s Q' E') :
    Ensures m s (fun a t => Q a t ∧ Q' a t) fun e t => E e t ∧ E' e t := by
  unfold Ensures at h h' ⊢
  cases hm : m s with
  | ok a t =>
    rw [hm] at h h'
    exact ⟨h, h'⟩
  | error e t =>
    rw [hm] at h h'
    exact ⟨h, h'⟩

/-- What follows from the condition at either end holds. -/
theorem elim {p : Prop} (h : Ensures m s Q E) (hQ : ∀ a t, Q a t → p) (hE : ∀ e t, E e t → p) :
    p := by
  unfold Ensures at h
  split at h
  · exact hQ _ _ h
  · exact hE _ _ h

/-- Returning a value meets what holds of the value and the state. -/
theorem pure (h : Q a s) : Ensures (Pure.pure a) s Q E := h

/-- Throwing meets what holds of the exception and the state. -/
theorem throw (h : E e s) : Ensures (MonadExcept.throw e) s Q E := h

/-- A choice meets what both of its branches meet. -/
theorem ite {c : Prop} {_ : Decidable c} {m' : EStateM ε σ α} (h : c → Ensures m s Q E)
    (h' : ¬ c → Ensures m' s Q E) : Ensures (if c then m else m') s Q E := by
  by_cases hc : c
  · rw [if_pos hc]
    exact h hc
  · rw [if_neg hc]
    exact h' hc

/-- A computation and what follows it, by a condition between the two. -/
theorem bind (hm : Ensures m s Q E) (hf : ∀ a t, Q a t → Ensures (f a) t R E) :
    Ensures (m >>= f) s R E := by
  cases hrun : m s with
  | ok a t =>
    have hnext : (m >>= f) s = f a t := by
      show EStateM.bind m f s = f a t
      rw [EStateM.bind, hrun]
    rw [Ensures, hnext]
    exact hf a t (hm.of_ok hrun)
  | error e t =>
    have hend : (m >>= f) s = .error e t := by
      show EStateM.bind m f s = .error e t
      rw [EStateM.bind, hrun]
    rw [Ensures, hend]
    exact hm.of_error hrun

/-- A computation whose end is known, and what follows it. -/
theorem run_bind (hm : m s = .ok a t) (hf : Ensures (f a) t R E) : Ensures (m >>= f) s R E :=
  bind (Q := fun b u => b = a ∧ u = t) (by rw [Ensures, hm]; exact ⟨rfl, rfl⟩) fun _ _ h =>
    h.1 ▸ h.2 ▸ hf

/-- A look at the state, and what follows it. -/
theorem get_bind {f : σ → EStateM ε σ β} (h : Ensures (f s) s R E) :
    Ensures (MonadState.get >>= f) s R E := h

/-- A change of the state, and what follows it. -/
theorem modify_bind {g : σ → σ} {f : PUnit → EStateM ε σ β} (h : Ensures (f ⟨⟩) (g s) R E) :
    Ensures (modify g >>= f) s R E := h

/-- A computation with a handler meets what its normal end and the handler meet. -/
theorem handle {h : ε → Option (EStateM ε σ α)} (hm : Ensures m s Q E)
    (hh : ∀ e t, E e t → ∀ k, h e = some k → Ensures k t Q E')
    (hE : ∀ e t, E e t → h e = none → E' e t) : Ensures (S3Rdma.handle m h) s Q E' := by
  cases hrun : m s with
  | ok a t =>
    have hend : S3Rdma.handle m h s = .ok a t := by rw [S3Rdma.handle, hrun]
    rw [Ensures, hend]
    exact hm.of_ok hrun
  | error e t =>
    cases hk : h e with
    | some k =>
      have hnext : S3Rdma.handle m h s = k t := by simp only [S3Rdma.handle, hrun, hk]
      rw [Ensures, hnext]
      exact hh e t (hm.of_error hrun) k hk
    | none =>
      have hend : S3Rdma.handle m h s = .error e t := by simp only [S3Rdma.handle, hrun, hk]
      rw [Ensures, hend]
      exact hE e t (hm.of_error hrun) hk

/-- A computation and a change of the state. -/
theorem always {d : σ → σ} (hm : Ensures m s (fun a t => Q a (d t)) fun e t => E e (d t)) :
    Ensures (S3Rdma.always m d) s Q E := by
  cases hrun : m s with
  | ok a t =>
    have hend : S3Rdma.always m d s = .ok a (d t) := by rw [S3Rdma.always, hrun]
    rw [Ensures, hend]
    exact hm.of_ok hrun
  | error e t =>
    have hend : S3Rdma.always m d s = .error e (d t) := by rw [S3Rdma.always, hrun]
    rw [Ensures, hend]
    exact hm.of_error hrun

/-- A loop that builds a result keeps its invariant. -/
theorem foldlM {g : α → β → EStateM ε σ α} {xs : List β} {I : List β → α → σ → Prop}
    (hs : I [] a s)
    (hstep : ∀ done x rest b t, xs = done ++ x :: rest → I done b t →
      Ensures (g b x) t (I (done ++ [x])) E) :
    Ensures (xs.foldlM g a) s (I xs) E := by
  -- The induction is on the elements to come, with those that were gone through.
  suffices h : ∀ todo done b t, xs = done ++ todo → I done b t →
      Ensures (todo.foldlM g b) t (I xs) E from h xs [] a s rfl hs
  intro todo
  induction todo with
  | nil =>
    intro done b t hxs hI
    rw [List.append_nil] at hxs
    exact pure (hxs ▸ hI)
  | cons x todo ih =>
    intro done b t hxs hI
    rw [List.foldlM_cons]
    refine bind (hstep done x todo b t hxs hI) fun b' t' hI' => ?_
    exact ih (done ++ [x]) b' t' (by rw [hxs, List.append_assoc]; rfl) hI'

/-- A loop keeps its invariant. -/
theorem forM {g : β → EStateM ε σ PUnit} {xs : List β} {I : List β → σ → Prop} (hs : I [] s)
    (hstep : ∀ done x rest t, xs = done ++ x :: rest → I done t →
      Ensures (g x) t (fun _ => I (done ++ [x])) E) :
    Ensures (xs.forM g) s (fun _ => I xs) E := by
  suffices h : ∀ todo done t, xs = done ++ todo → I done t →
      Ensures (todo.forM g) t (fun _ => I xs) E from h xs [] s rfl hs
  intro todo
  induction todo with
  | nil =>
    intro done t hxs hI
    rw [List.append_nil] at hxs
    exact pure (hxs ▸ hI)
  | cons x todo ih =>
    intro done t hxs hI
    refine bind (hstep done x todo t hxs hI) fun _ t' hI' => ?_
    exact ih (done ++ [x]) t' (by rw [hxs, List.append_assoc]; rfl) hI'

end Ensures

/-- A computation without a state that does not throw has gone through each of its steps. -/
theorem exists_of_bind_eq_ok {x : Except ε α} {f : α → Except ε β} {b : β}
    (h : (x >>= f) = .ok b) : ∃ a, x = .ok a ∧ f a = .ok b := by
  cases x with
  | error e => exact absurd h (by simp [bind, Except.bind])
  | ok a => exact ⟨a, rfl, h⟩

end S3Rdma
