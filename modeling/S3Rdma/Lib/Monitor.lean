import Mathlib.Data.List.Basic

/-!
# Monitors of a trace

A safety property of a list of events is given by a monitor: a state, what it becomes at each event,
and which events are allowed in it. A trace is accepted when each of its events is allowed in the
state that the events before it lead to. Traces are built by appending, so `accepts_append` is what
proofs use.
-/

namespace S3Rdma

/-- A monitor with states `σ` of traces of events `ε`. -/
structure Monitor (σ ε : Type*) where
  /-- The events allowed in a state. -/
  ok : σ → ε → Prop
  /-- The state after an event. -/
  next : σ → ε → σ

namespace Monitor

variable {σ ε : Type*} (M : Monitor σ ε)

/-- The state after a trace. -/
def after (s : σ) (es : List ε) : σ := es.foldl M.next s

/-- Every event of a trace is allowed in the state it is met in. -/
def Accepts : σ → List ε → Prop
  | _, [] => True
  | s, e :: es => M.ok s e ∧ Accepts (M.next s e) es

variable {M}

@[simp] theorem after_nil (s : σ) : M.after s [] = s := rfl

@[simp] theorem after_cons (s : σ) (e : ε) (es : List ε) :
    M.after s (e :: es) = M.after (M.next s e) es := rfl

@[simp] theorem accepts_nil (s : σ) : M.Accepts s [] := trivial

@[simp] theorem accepts_cons (s : σ) (e : ε) (es : List ε) :
    M.Accepts s (e :: es) ↔ M.ok s e ∧ M.Accepts (M.next s e) es := Iff.rfl

/-- The state after two traces. -/
theorem after_append (s : σ) (xs ys : List ε) :
    M.after s (xs ++ ys) = M.after (M.after s xs) ys := List.foldl_append

/-- A trace followed by another is accepted when the other is from where the first one ends. -/
theorem accepts_append {s : σ} {xs ys : List ε} :
    M.Accepts s (xs ++ ys) ↔ M.Accepts s xs ∧ M.Accepts (M.after s xs) ys := by
  induction xs generalizing s with
  | nil => simp
  | cons x xs ih => simp [ih, and_assoc]

/-- Events that are allowed in every state with an invariant, and keep it, are accepted. -/
theorem accepts_of_invariant {I : σ → Prop} {es : List ε}
    (h : ∀ s, I s → ∀ e ∈ es, M.ok s e ∧ I (M.next s e)) {s : σ} (hs : I s) :
    M.Accepts s es ∧ I (M.after s es) := by
  induction es generalizing s with
  | nil => exact ⟨trivial, hs⟩
  | cons e es ih =>
    obtain ⟨hok, hnext⟩ := h s hs e List.mem_cons_self
    obtain ⟨hacc, hend⟩ := ih (fun s hs e he => h s hs e (List.mem_cons_of_mem _ he)) hnext
    exact ⟨⟨hok, hacc⟩, hend⟩

/-- The monitor that remembers all events. -/
def history (ok : List ε → ε → Prop) : Monitor (List ε) ε where
  ok := ok
  next before e := before ++ [e]

/-- The state of the monitor that remembers all events is the trace. -/
theorem history_after (ok : List ε → ε → Prop) (before es : List ε) :
    (history ok).after before es = before ++ es := by
  induction es generalizing before with
  | nil => simp
  | cons e es ih =>
    rw [after_cons, ih]
    simp [history]

/-- A trace with one more event is accepted if the trace is and the event is allowed after it. -/
theorem history_accepts_concat {ok : List ε → ε → Prop} {es : List ε} {e : ε} :
    (history ok).Accepts [] (es ++ [e]) ↔ (history ok).Accepts [] es ∧ ok es e := by
  rw [accepts_append, history_after, List.nil_append, accepts_cons]
  simp [history]

end Monitor

end S3Rdma
