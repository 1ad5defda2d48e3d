import Mathlib.Data.List.Basic

/-!
# `Lib.RowSecurity` — statements that see a part of the rows

A statement reads rows and answers with rows to remove and rows to add. Under a row policy it is given the rows
that the policy shows, removes none but these, and fails when it would add a row that the policy hides.
A transaction is the list of its changes, on top of the committed rows.

## Contents
- `Change`, `Change.Within`, and the rows that a change cannot touch;
- `secured`: a statement under a policy, `secured_within`, `secured_congr`;
- `view`: the rows that a transaction works on.
-/

namespace Lib

variable {ρ α : Type*}

/-- What a statement does to the rows. -/
structure Change (ρ : Type*) where
  removed : List ρ
  added   : List ρ
deriving DecidableEq, Repr

/-- A statement: its answer and its change, from the rows it is given. -/
abbrev Statement (ρ α : Type*) := List ρ → α × Change ρ

namespace Change

/-- The change is about rows that meet `p`. -/
def Within (p : ρ → Bool) (c : Change ρ) : Prop := (∀ r ∈ c.removed, p r = true) ∧ ∀ r ∈ c.added, p r = true

theorem Within.mono {p q : ρ → Bool} {c : Change ρ} (h : c.Within p) (hpq : ∀ r, p r = true → q r = true) :
    c.Within q :=
  ⟨fun r hr => hpq r (h.1 r hr), fun r hr => hpq r (h.2 r hr)⟩

variable [DecidableEq ρ]

def apply (c : Change ρ) (rows : List ρ) : List ρ := (rows.filter fun r => r ∉ c.removed) ++ c.added

/-- Rows of another kind stay as they are. -/
theorem filter_apply_of_disjoint {p q : ρ → Bool} {c : Change ρ} (h : c.Within p)
    (hpq : ∀ r, p r = true → q r = false) (rows : List ρ) : (c.apply rows).filter q = rows.filter q := by
  have hadded : c.added.filter q = [] :=
    List.filter_eq_nil_iff.mpr fun r hr => by rw [hpq r (h.2 r hr)]; exact Bool.false_ne_true
  rw [apply, List.filter_append, hadded, List.append_nil, List.filter_filter]
  refine List.filter_congr fun r _ => ?_
  cases hq : q r with
  | false => rfl
  | true =>
      have hnot : r ∉ c.removed := fun hr => by
        rw [hpq r (h.1 r hr)] at hq
        cases hq
      simp [hnot]

/-- A change of rows that meet `q` does to these rows what it does to all. -/
theorem filter_apply {q : ρ → Bool} {c : Change ρ} (h : c.Within q) (rows : List ρ) :
    (c.apply rows).filter q = c.apply (rows.filter q) := by
  have hadded : c.added.filter q = c.added := List.filter_eq_self.mpr h.2
  rw [apply, apply, List.filter_append, hadded, List.filter_filter, List.filter_filter]
  congr 1
  exact List.filter_congr fun r _ => Bool.and_comm _ _

end Change

/-! ## A policy -/

/-- A statement under the policy `visible`. -/
def secured (visible : ρ → Bool) (stmt : Statement ρ α) (rows : List ρ) : Option (α × Change ρ) :=
  let (answer, change) := stmt (rows.filter visible)
  if change.added.all visible then some (answer, { change with removed := change.removed.filter visible }) else none

theorem secured_within {visible : ρ → Bool} {stmt : Statement ρ α} {rows : List ρ} {answer : α} {change : Change ρ}
    (h : secured visible stmt rows = some (answer, change)) : change.Within visible := by
  obtain ⟨hadded, heq⟩ := Option.ite_none_right_eq_some.mp h
  cases heq
  exact ⟨fun r hr => (List.mem_filter.mp hr).2, List.all_eq_true.mp hadded⟩

/-- What a statement does depends on the rows it is shown. -/
theorem secured_congr {visible : ρ → Bool} (stmt : Statement ρ α) {rows rows' : List ρ}
    (h : rows.filter visible = rows'.filter visible) : secured visible stmt rows = secured visible stmt rows' := by
  unfold secured
  rw [h]

/-! ## Transactions -/

variable [DecidableEq ρ]

/-- The rows that a transaction with these changes works on. -/
def view (changes : List (Change ρ)) (rows : List ρ) : List ρ := changes.foldl (fun rows c => c.apply rows) rows

theorem filter_view_of_disjoint {p q : ρ → Bool} {changes : List (Change ρ)} (h : ∀ c ∈ changes, c.Within p)
    (hpq : ∀ r, p r = true → q r = false) (rows : List ρ) : (view changes rows).filter q = rows.filter q := by
  induction changes generalizing rows with
  | nil => rfl
  | cons c changes ih =>
      have hrest := ih (fun c' hc' => h c' (List.mem_cons_of_mem c hc')) (c.apply rows)
      exact hrest.trans (Change.filter_apply_of_disjoint (h c List.mem_cons_self) hpq rows)

theorem filter_view {q : ρ → Bool} {changes : List (Change ρ)} (h : ∀ c ∈ changes, c.Within q) (rows : List ρ) :
    (view changes rows).filter q = view changes (rows.filter q) := by
  induction changes generalizing rows with
  | nil => rfl
  | cons c changes ih =>
      have hrest := ih (fun c' hc' => h c' (List.mem_cons_of_mem c hc')) (c.apply rows)
      rw [Change.filter_apply (h c List.mem_cons_self)] at hrest
      exact hrest

end Lib
