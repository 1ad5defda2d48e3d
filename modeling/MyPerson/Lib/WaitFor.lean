/-!
# `Lib.WaitFor` — a future that a task awaits, with a timeout

An `asyncio.Future` and the task in `await asyncio.wait_for(future, timeout)`. The task goes on only when the loop runs
it again, so between the future's result and the task there is time for the timer to fire or for a cancellation: both
take the result away.

## Contents
- `Future`, `setResult`, `cancel`;
- `WaitFor`, what may happen to it, and `resume`, how the `await` ends;
- when a result comes through (`resume_value`).
-/

namespace Lib

variable {α : Type}

/-! ## Futures -/

inductive Future (α : Type)
  | pending
  | resolved (value : α)
  | cancelled
deriving DecidableEq, Repr

namespace Future

def done : Future α → Bool
  | .pending => false
  | _ => true

/-- `cancel()`: nothing, when it is done. -/
def cancel : Future α → Future α
  | .pending => .cancelled
  | f => f

/-- The result, if there is one. -/
def result : Future α → Option α
  | .resolved value => some value
  | _ => none

@[simp] theorem result_cancel (f : Future α) : f.cancel.result = f.result := by
  cases f <;> rfl

end Future

/-! ## Waiting -/

structure WaitFor (α : Type) where
  future    : Future α
  /-- When the timer is set to. -/
  deadline  : Nat
  /-- The timer has fired. -/
  expired   : Bool
  /-- `task.cancel()`, by others than the timer. -/
  cancelled : Bool
deriving DecidableEq, Repr

/-- How the `await` ends. -/
inductive Ending (α : Type)
  | value (value : α)
  /-- `TimeoutError`. -/
  | timeout
  /-- `CancelledError`. -/
  | cancelled
deriving DecidableEq, Repr

namespace WaitFor

def start (deadline : Nat) : WaitFor α := ⟨.pending, deadline, false, false⟩

/-- `set_result`. -/
def setResult (w : WaitFor α) (value : α) : WaitFor α := { w with future := .resolved value }

/-- The timer fires: it cancels the task. -/
def expire (w : WaitFor α) : WaitFor α := { w with future := w.future.cancel, expired := true }

/-- Someone cancels the task. -/
def cancelTask (w : WaitFor α) : WaitFor α := { w with future := w.future.cancel, cancelled := true }

/-- Someone cancels the future. -/
def cancelFuture (w : WaitFor α) : WaitFor α := { w with future := w.future.cancel }

/-- The task goes on; not before there is a reason to. A cancellation that the timer did not make stays one. -/
def resume (w : WaitFor α) : Option (Ending α) :=
  if w.cancelled then some .cancelled
  else if w.expired then some .timeout
  else match w.future with
    | .pending => none
    | .resolved value => some (.value value)
    | .cancelled => some .cancelled

/-- The result that is on its way. -/
def carried (w : WaitFor α) : Option α := w.future.result

@[simp] theorem carried_expire (w : WaitFor α) : w.expire.carried = w.carried :=
  Future.result_cancel w.future

@[simp] theorem carried_cancelTask (w : WaitFor α) : w.cancelTask.carried = w.carried :=
  Future.result_cancel w.future

@[simp] theorem carried_cancelFuture (w : WaitFor α) : w.cancelFuture.carried = w.carried :=
  Future.result_cancel w.future

/-- What is not done carries nothing. -/
theorem carried_of_not_done {w : WaitFor α} (h : w.future.done = false) : w.carried = none := by
  unfold carried
  cases hf : w.future with
  | pending => rfl
  | _ =>
      rw [hf] at h
      cases h

/-- **What comes through is what was set**, and nothing came between. -/
theorem resume_value {w : WaitFor α} {value : α} :
    w.resume = some (.value value) ↔ w.carried = some value ∧ w.expired = false ∧ w.cancelled = false := by
  unfold resume carried
  cases hcancelled : w.cancelled with
  | true => simp
  | false =>
      cases hexpired : w.expired with
      | true => simp
      | false => cases hf : w.future <;> simp [Future.result]

end WaitFor

end Lib
