import Mathlib.Logic.Basic
import Mathlib.Data.List.Basic

/-!
# `Lib.Run` — runs of a partial step function

A system is a function `step : σ → α → Option σ`: the action `a` is possible in `s` when
`step s a = some s'`. A run may be asked to meet a condition `ok` on the state before each step, so
that "every run" (`Always`) and "every run whose steps meet a condition" are one notion.

## Contents
- `Run step ok s s'`, its concatenation and its monotonicity in `ok`;
- `Run.invariant`: what holds at the start and is kept by a step holds at the end;
- `exec` / `execOk`: the executable form, which turns a list of actions into a run;
- `Inevitable`: every way on reaches a goal, from a measure that each step lowers;
- `execOk_foldl`: what a list of actions does together with a value folded over it.
-/

namespace Lib

variable {σ α : Type*}

/-- The run condition that excludes nothing. -/
def Always : σ → α → Prop := fun _ _ => True

/-- `Run step ok s s'`: actions lead from `s` to `s'`, each one allowed by `ok` where it is taken. -/
inductive Run (step : σ → α → Option σ) (ok : σ → α → Prop) : σ → σ → Prop
  | refl (s : σ) : Run step ok s s
  | tail {s t u : σ} (a : α) : Run step ok s t → ok t a → step t a = some u → Run step ok s u

namespace Run

variable {step : σ → α → Option σ} {ok ok' : σ → α → Prop} {s t u : σ}

theorem single (a : α) (hok : ok s a) (h : step s a = some t) : Run step ok s t :=
  .tail a (.refl s) hok h

theorem trans (h₁ : Run step ok s t) (h₂ : Run step ok t u) : Run step ok s u := by
  induction h₂ with
  | refl => exact h₁
  | tail a _ hok hstep ih => exact .tail a ih hok hstep

/-- A weaker condition allows more runs. -/
theorem mono (himp : ∀ x a, ok x a → ok' x a) (h : Run step ok s t) : Run step ok' s t := by
  induction h with
  | refl => exact .refl _
  | tail a _ hok hstep ih => exact .tail a ih (himp _ a hok) hstep

/-- **Invariant rule.** A property of the first state that every allowed step keeps holds of the
    last state. -/
theorem invariant {P : σ → Prop} (hkeep : ∀ x a y, P x → ok x a → step x a = some y → P y)
    (h : Run step ok s t) (hs : P s) : P t := by
  induction h with
  | refl => exact hs
  | tail a _ hok hstep ih => exact hkeep _ a _ ih hok hstep

/-- **Monotone-relation rule.** A reflexive and transitive relation that holds across every step
    holds across a run; `P` is an invariant the steps may use. -/
theorem relation {P : σ → Prop} {R : σ → σ → Prop} (hrefl : ∀ x, R x x)
    (htrans : ∀ x y z, R x y → R y z → R x z)
    (hkeep : ∀ x a y, P x → ok x a → step x a = some y → P y)
    (hR : ∀ x a y, P x → ok x a → step x a = some y → R x y)
    (h : Run step ok s t) (hs : P s) : R s t := by
  have hboth : P t ∧ R s t := by
    induction h with
    | refl => exact ⟨hs, hrefl _⟩
    | tail a _ hok hstep ih =>
        exact ⟨hkeep _ a _ ih.1 hok hstep, htrans _ _ _ ih.2 (hR _ a _ ih.1 hok hstep)⟩
  exact hboth.2

end Run

/-- Every way on from a state reaches the goal, and until then there is one. -/
inductive Inevitable (step : σ → α → Option σ) (ok : σ → α → Prop) (goal : σ → Prop) : σ → Prop
  | now {s : σ} (h : goal s) : Inevitable step ok goal s
  | later {s : σ} (hmore : ∃ a t, ok s a ∧ step s a = some t)
      (h : ∀ a t, ok s a → step s a = some t → Inevitable step ok goal t) : Inevitable step ok goal s

/-- **Termination rule.** While the goal is not reached a step is possible, and each one lowers the measure. -/
theorem Inevitable.of_measure {step : σ → α → Option σ} {ok : σ → α → Prop} {goal : σ → Prop} {P : σ → Prop}
    (measure : σ → Nat) (hmore : ∀ s, P s → ¬ goal s → ∃ a t, ok s a ∧ step s a = some t)
    (hkeep : ∀ s a t, P s → ¬ goal s → ok s a → step s a = some t → P t ∧ measure t < measure s) {s : σ} (hs : P s) :
    Inevitable step ok goal s := by
  have hall : ∀ n s, measure s < n → P s → Inevitable step ok goal s := by
    intro n
    induction n with
    | zero => exact fun s hlt => absurd hlt (Nat.not_lt_zero _)
    | succ n ih =>
        intro s hlt hs
        by_cases hgoal : goal s
        · exact .now hgoal
        · refine .later (hmore s hs hgoal) fun a t hok hstep => ?_
          obtain ⟨ht, hlower⟩ := hkeep s a t hs hgoal hok hstep
          exact ih t (by omega) ht
  exact hall _ s (Nat.lt_succ_self _) hs

/-! ## Executable runs -/

/-- Take the actions one after the other; `none` when one of them is not possible. -/
def exec (step : σ → α → Option σ) : σ → List α → Option σ
  | s, []      => some s
  | s, a :: as => (step s a).bind fun s' => exec step s' as

/-- `exec` that also checks a decidable condition before each step. -/
def execOk (step : σ → α → Option σ) (ok : σ → α → Bool) : σ → List α → Option σ
  | s, []      => some s
  | s, a :: as => if ok s a then (step s a).bind fun s' => execOk step ok s' as else none

theorem Run.of_execOk {step : σ → α → Option σ} {okb : σ → α → Bool} {ok : σ → α → Prop}
    (hok : ∀ x a, okb x a = true → ok x a) {as : List α} :
    ∀ {s t : σ}, execOk step okb s as = some t → Run step ok s t := by
  induction as with
  | nil =>
      intro s t h
      cases h
      exact .refl s
  | cons a as ih =>
      intro s t h
      unfold execOk at h
      split at h
      · rename_i hc
        obtain ⟨s', hs', ht⟩ := Option.bind_eq_some_iff.mp h
        exact (Run.single a (hok s a hc) hs').trans (ih ht)
      · cases h

/-- **Fold rule.** A property of the state and of a value folded over the actions taken so far. -/
theorem execOk_foldl {β : Type*} {step : σ → α → Option σ} {ok : σ → α → Bool} {P : β → σ → Prop}
    {upd : β → α → β}
    (hkeep : ∀ b x a y, P b x → ok x a = true → step x a = some y → P (upd b a) y) {as : List α} :
    ∀ {b : β} {s t : σ}, execOk step ok s as = some t → P b s → P (as.foldl upd b) t := by
  induction as with
  | nil =>
      intro b s t h hs
      cases h
      exact hs
  | cons a as ih =>
      intro b s t h hs
      obtain ⟨hok, h⟩ := Option.ite_none_right_eq_some.mp h
      obtain ⟨s', hs', ht⟩ := Option.bind_eq_some_iff.mp h
      exact ih ht (hkeep b s a s' hs hok hs')

theorem execOk_append {step : σ → α → Option σ} {ok : σ → α → Bool} {as bs : List α} :
    ∀ {s : σ}, execOk step ok s (as ++ bs) = (execOk step ok s as).bind fun t => execOk step ok t bs := by
  induction as with
  | nil => intro s; rfl
  | cons a as ih =>
      intro s
      simp only [List.cons_append, execOk]
      split
      · rw [Option.bind_assoc]
        congr 1
        funext s'
        exact ih
      · rfl

theorem exec_append {step : σ → α → Option σ} {as bs : List α} :
    ∀ {s : σ}, exec step s (as ++ bs) = (exec step s as).bind fun t => exec step t bs := by
  induction as with
  | nil => intro s; rfl
  | cons a as ih =>
      intro s
      simp only [List.cons_append, exec, Option.bind_assoc]
      congr 1
      funext s'
      exact ih

theorem Run.of_exec {step : σ → α → Option σ} {as : List α} :
    ∀ {s t : σ}, exec step s as = some t → Run step Always s t := by
  induction as with
  | nil =>
      intro s t h
      cases h
      exact .refl s
  | cons a as ih =>
      intro s t h
      obtain ⟨s', hs', ht⟩ := Option.bind_eq_some_iff.mp h
      exact (Run.single a trivial hs').trans (ih ht)

/-- The state a possible list of actions leads to is reached by a run. -/
theorem Run.get_exec {step : σ → α → Option σ} {s : σ} {as : List α}
    (h : (exec step s as).isSome = true) : Run step Always s ((exec step s as).get h) :=
  Run.of_exec (Option.some_get h).symm

theorem Run.get_execOk {step : σ → α → Option σ} {ok : σ → α → Bool} {s : σ} {as : List α}
    (h : (execOk step ok s as).isSome = true) :
    Run step (fun x a => ok x a = true) s ((execOk step ok s as).get h) :=
  Run.of_execOk (fun _ _ hok => hok) (Option.some_get h).symm

end Lib
