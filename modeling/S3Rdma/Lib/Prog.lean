import Mathlib.Data.Nat.Notation

/-!
# Programs made of atomic actions

A program over a state is a tree of atomic actions: each changes the state, and how the program goes
on depends on the state that the action found. Run without interruption it is a function from a
state to a result and a state (`Prog.run`), and it takes a number of actions (`Prog.cost`). Between
two actions others may run; as long as they leave the program's own state alone, what the rest of it
will give and cost is what it was before (`Prog.run_act`, `Prog.cost_act`).
-/

namespace S3Rdma

/-- A program over a state that ends with a result. -/
inductive Prog (σ α : Type) where
  | ret (a : α)
  /-- An atomic action: the state becomes `f s`, and the program goes on as `k s`. -/
  | act (f : σ → σ) (k : σ → Prog σ α)

namespace Prog

variable {σ α β : Type}

/-- One program after the other. -/
def bind : Prog σ α → (α → Prog σ β) → Prog σ β
  | ret a, g => g a
  | act f k, g => act f fun s => (k s).bind g

instance : Monad (Prog σ) where
  pure := ret
  bind := bind

/-- A program without interruption. -/
def run : Prog σ α → σ → α × σ
  | ret a, s => (a, s)
  | act f k, s => (k s).run (f s)

/-- The number of actions that a program takes without interruption. -/
def cost : Prog σ α → σ → ℕ
  | ret _, _ => 0
  | act f k, s => (k s).cost (f s) + 1

/-- Looks at the state. -/
def look (g : σ → α) : Prog σ α := act id fun s => ret (g s)

/-- Changes the state. -/
def change (f : σ → σ) : Prog σ Unit := act f fun _ => ret ()

@[simp] theorem pure_eq (a : α) : (pure a : Prog σ α) = ret a := rfl

@[simp] theorem bind_eq (p : Prog σ α) (g : α → Prog σ β) : p >>= g = p.bind g := rfl

@[simp] theorem run_ret (a : α) (s : σ) : (ret a : Prog σ α).run s = (a, s) := rfl

@[simp] theorem run_look (g : σ → α) (s : σ) : (look g).run s = (g s, s) := rfl

@[simp] theorem run_change (f : σ → σ) (s : σ) : (change f).run s = ((), f s) := rfl

/-- The second program starts where the first has ended. -/
@[simp] theorem run_bind (p : Prog σ α) (g : α → Prog σ β) (s : σ) :
    (p.bind g).run s = (g (p.run s).1).run (p.run s).2 := by
  induction p generalizing s with
  | ret a => rfl
  | act f k ih => exact ih s (f s)

/-- After an action the rest of the program gives what the whole would have given. -/
theorem run_act (f : σ → σ) (k : σ → Prog σ α) (s : σ) : (act f k).run s = (k s).run (f s) := rfl

/-- After an action the rest of the program costs one action less. -/
theorem cost_act (f : σ → σ) (k : σ → Prog σ α) (s : σ) :
    (act f k).cost s = (k s).cost (f s) + 1 := rfl

@[simp] theorem cost_ret (a : α) (s : σ) : (ret a : Prog σ α).cost s = 0 := rfl

@[simp] theorem cost_look (g : σ → α) (s : σ) : (look g).cost s = 1 := rfl

@[simp] theorem cost_change (f : σ → σ) (s : σ) : (change f).cost s = 1 := rfl

/-- The actions of two programs one after the other. -/
@[simp] theorem cost_bind (p : Prog σ α) (g : α → Prog σ β) (s : σ) :
    (p.bind g).cost s = p.cost s + (g (p.run s).1).cost (p.run s).2 := by
  induction p generalizing s with
  | ret a => exact (Nat.zero_add _).symm
  | act f k ih =>
    rw [cost_act, run_act, Nat.add_right_comm, ← ih]
    rfl

end Prog

end S3Rdma
