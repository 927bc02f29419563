import Mathlib.Logic.Basic

/-! # Go functions with deferred calls

A function acts on a world `σ` and may defer calls. Go evaluates the function and the arguments
of a deferred call at the `defer` statement, so what is deferred here is the call with its
arguments, and only the world it acts on is that of the exit. The last call deferred is the first
to run.
-/

namespace Deferred

inductive Func (σ α : Type) where
  | ret (a : α)
  | act (f : σ → σ) (rest : Func σ α)
  | deferred (f : σ → σ) (rest : Func σ α)

namespace Func

variable {σ α β : Type}

def andThen (k : α → Func σ β) : Func σ α → Func σ β
  | ret a => k a
  | act f rest => act f (rest.andThen k)
  | deferred f rest => deferred f (rest.andThen k)

instance : Monad (Func σ) where
  pure := ret
  bind f k := f.andThen k

/-- Run the body and, when it has returned, what it has deferred. -/
def call : Func σ α → σ → α × σ
  | ret a, w => (a, w)
  | act f rest, w => rest.call (f w)
  | deferred f rest, w => ((rest.call w).1, f (rest.call w).2)

def perform (f : σ → σ) : Func σ Unit := act f (ret ())

/-- `defer f(…)`. -/
def postpone (f : σ → σ) : Func σ Unit := deferred f (ret ())

@[simp] theorem call_pure (a : α) (w : σ) : (pure a : Func σ α).call w = (a, w) := rfl

@[simp] theorem call_perform (f : σ → σ) (w : σ) : (perform f).call w = ((), f w) := rfl

@[simp] theorem call_perform_bind (f : σ → σ) (k : Unit → Func σ α) (w : σ) :
    (perform f >>= k).call w = (k ()).call (f w) := rfl

@[simp] theorem call_postpone (f : σ → σ) (w : σ) : (postpone f).call w = ((), f w) := rfl

@[simp] theorem call_postpone_bind (f : σ → σ) (k : Unit → Func σ α) (w : σ) :
    (postpone f >>= k).call w = (((k ()).call w).1, f ((k ()).call w).2) := rfl

/-- Only the result changes where a body ends by changing its result. -/
@[simp] theorem call_map (f : Func σ α) (g : α → β) (w : σ) :
    (f >>= fun a => pure (g a)).call w = (g (f.call w).1, (f.call w).2) := by
  induction f generalizing w with
  | ret a => rfl
  | act h rest ih => exact ih (h w)
  | deferred h rest ih => exact congrArg (fun p : β × σ => (p.1, h p.2)) (ih w)

end Func

end Deferred
