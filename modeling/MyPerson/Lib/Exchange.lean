import Mathlib.Logic.Basic

/-!
# `Lib.Exchange` — programs that talk to an environment

A program of type `Prog ρ β ε α` sends requests of type `ρ`, gets a reply of type `β` to each, and
ends with a value or an exception. Nothing is assumed about the replies: `Always Q p log` says that
the postcondition `Q` holds of the result and of the log of the exchange whatever is replied, and it
is computed along the program, one rule for each construct.

## Contents
- `Prog`, its monad and exception structure;
- `run`: the program against a sequence of replies;
- `Always`, its rules, and `always_run`: it is the statement about every sequence of replies.
-/

namespace Lib

variable {ρ β ε α γ : Type}

inductive Prog (ρ β ε : Type) (α : Type) : Type
  | pure (a : α) : Prog ρ β ε α
  | throw (e : ε) : Prog ρ β ε α
  | ask (r : ρ) (k : β → Prog ρ β ε α) : Prog ρ β ε α

namespace Prog

def bind : Prog ρ β ε α → (α → Prog ρ β ε γ) → Prog ρ β ε γ
  | .pure a, f => f a
  | .throw e, _ => .throw e
  | .ask r k, f => .ask r fun b => (k b).bind f

def tryCatch : Prog ρ β ε α → (ε → Prog ρ β ε α) → Prog ρ β ε α
  | .pure a, _ => .pure a
  | .throw e, h => h e
  | .ask r k, h => .ask r fun b => (k b).tryCatch h

instance : Monad (Prog ρ β ε) where
  pure := Prog.pure
  bind := Prog.bind

instance : MonadExceptOf ε (Prog ρ β ε) where
  throw := Prog.throw
  tryCatch := Prog.tryCatch

/-- Send one request. -/
def request (r : ρ) : Prog ρ β ε β := .ask r .pure

/-- The requests and replies of a run, the newest first. -/
abbrev Log (ρ β : Type) := List (ρ × β)

/-- Run a program against a sequence of replies. -/
def run (reply : Nat → β) : Prog ρ β ε α → Log ρ β → Except ε α × Log ρ β
  | .pure a, log => (.ok a, log)
  | .throw e, log => (.error e, log)
  | .ask r k, log => (k (reply log.length)).run reply ((r, reply log.length) :: log)

/-! ## Whatever is replied -/

/-- `Q` holds of the result and the log, whatever is replied. -/
def Always (Q : Except ε α → Log ρ β → Prop) : Prog ρ β ε α → Log ρ β → Prop
  | .pure a, log => Q (.ok a) log
  | .throw e, log => Q (.error e) log
  | .ask r k, log => ∀ b, (k b).Always Q ((r, b) :: log)

section Rules

variable {Q Q' : Except ε α → Log ρ β → Prop} {log : Log ρ β}

@[simp] theorem always_pure {a : α} :
    Always Q (Pure.pure a : Prog ρ β ε α) log ↔ Q (.ok a) log := Iff.rfl

@[simp] theorem always_throw {e : ε} :
    Always Q (MonadExcept.throw e : Prog ρ β ε α) log ↔ Q (.error e) log := Iff.rfl

@[simp] theorem always_request {Q : Except ε β → Log ρ β → Prop} {r : ρ} :
    Always Q (request r) log ↔ ∀ b, Q (.ok b) ((r, b) :: log) := Iff.rfl

/-- What follows a program runs on its value; an exception ends the whole. -/
def Seq (Q : Except ε γ → Log ρ β → Prop) (f : α → Prog ρ β ε γ) : Except ε α → Log ρ β → Prop
  | .ok a, log => Always Q (f a) log
  | .error e, log => Q (.error e) log

/-- A handler runs on the exception; a value ends the whole. -/
def Handle (Q : Except ε α → Log ρ β → Prop) (h : ε → Prog ρ β ε α) :
    Except ε α → Log ρ β → Prop
  | .ok a, log => Q (.ok a) log
  | .error e, log => Always Q (h e) log

@[simp] theorem seq_ok {Q : Except ε γ → Log ρ β → Prop} {f : α → Prog ρ β ε γ} {a : α} :
    Seq Q f (.ok a) log ↔ Always Q (f a) log := Iff.rfl

@[simp] theorem seq_error {Q : Except ε γ → Log ρ β → Prop} {f : α → Prog ρ β ε γ} {e : ε} :
    Seq Q f (.error e) log ↔ Q (.error e) log := Iff.rfl

@[simp] theorem handle_ok {h : ε → Prog ρ β ε α} {a : α} :
    Handle Q h (.ok a) log ↔ Q (.ok a) log := Iff.rfl

@[simp] theorem handle_error {h : ε → Prog ρ β ε α} {e : ε} :
    Handle Q h (.error e) log ↔ Always Q (h e) log := Iff.rfl

@[simp] theorem always_bind {Q : Except ε γ → Log ρ β → Prop} {f : α → Prog ρ β ε γ}
    (p : Prog ρ β ε α) : Always Q (p >>= f) log ↔ Always (Seq Q f) p log := by
  induction p generalizing log with
  | pure a => exact Iff.rfl
  | throw e => exact Iff.rfl
  | ask r k ih => exact forall_congr' fun b => ih b

@[simp] theorem always_tryCatch {h : ε → Prog ρ β ε α} (p : Prog ρ β ε α) :
    Always Q (MonadExcept.tryCatch p h) log ↔ Always (Handle Q h) p log := by
  induction p generalizing log with
  | pure a => exact Iff.rfl
  | throw e => exact Iff.rfl
  | ask r k ih => exact forall_congr' fun b => ih b

/-- A handler that only replaces the exception. -/
@[simp] theorem handle_rethrow {g : ε → ε} {r : Except ε α} :
    Handle Q (fun e => (MonadExcept.throw (g e) : Prog ρ β ε α)) r log ↔ Q (r.mapError g) log := by
  cases r <;> exact Iff.rfl

/-- **Consequence rule.** -/
theorem Always.mono (himp : ∀ r log, Q r log → Q' r log) {p : Prog ρ β ε α} (h : Always Q p log) :
    Always Q' p log := by
  induction p generalizing log with
  | pure a => exact himp _ _ h
  | throw e => exact himp _ _ h
  | ask r k ih => exact fun b => ih b (h b)

/-- **Soundness.** What holds whatever is replied holds of every run. -/
theorem Always.run {p : Prog ρ β ε α} (h : Always Q p log) (reply : Nat → β) :
    Q (p.run reply log).1 (p.run reply log).2 := by
  induction p generalizing log with
  | pure a => exact h
  | throw e => exact h
  | ask r k ih => exact ih _ (h _)

end Rules

end Prog

end Lib
