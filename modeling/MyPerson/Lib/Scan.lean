import Mathlib.Data.List.Basic

/-!
# `Lib.Scan` — replacing and splitting at the matches of a pattern

A pattern is given by `find`, which says what of a text matches at its front. `sub` and `split` go over a text from
the left and take each match that they meet: `sub` replaces it, `split` cuts there and keeps the match between the
pieces, as `re.sub` and `re.split` with one group around the pattern do.

## Contents
- `sub` and its rules at a match, before one, and over characters that start none;
- `split`, and what holds of all its pieces.
-/

namespace Lib.Scan

variable {α : Type*} {find : List α → Option (List α)} {repl : List α → List α} {c : α} {cs m p : List α}

/-- Replaces the matches; the first `skip` characters belong to a match that was taken. -/
def sub (find : List α → Option (List α)) (repl : List α → List α) : Nat → List α → List α
  | _, [] => []
  | skip + 1, _ :: cs => sub find repl skip cs
  | 0, c :: cs =>
      match find (c :: cs) with
      | some m => repl m ++ sub find repl (m.length - 1) cs
      | none => c :: sub find repl 0 cs

/-- Cuts at the matches; `piece` is what was read since the last one. -/
def split (find : List α → Option (List α)) : List α → Nat → List α → List (List α)
  | piece, _, [] => [piece]
  | piece, skip + 1, _ :: cs => split find piece skip cs
  | piece, 0, c :: cs =>
      match find (c :: cs) with
      | some m => piece :: m :: split find [] (m.length - 1) cs
      | none => split find (piece ++ [c]) 0 cs

/-! ## `sub` -/

@[simp] theorem sub_nil (skip : Nat) : sub find repl skip [] = [] := by
  cases skip <;> rfl

theorem sub_skip (skip : Nat) (cs : List α) : sub find repl skip cs = sub find repl 0 (cs.drop skip) := by
  induction cs generalizing skip with
  | nil => rw [sub_nil, List.drop_nil, sub_nil]
  | cons c cs ih =>
      cases skip with
      | zero => rfl
      | succ skip => exact ih skip

theorem sub_none (h : find (c :: cs) = none) : sub find repl 0 (c :: cs) = c :: sub find repl 0 cs := by
  rw [sub, h]

/-- A match at the front is replaced. -/
theorem sub_some (h : find (m ++ cs) = some m) (hne : m ≠ []) :
    sub find repl 0 (m ++ cs) = repl m ++ sub find repl 0 cs := by
  obtain ⟨c, m, rfl⟩ := List.exists_cons_of_ne_nil hne
  rw [List.cons_append] at h ⊢
  rw [sub, h]
  simp only [List.length_cons, Nat.add_sub_cancel]
  rw [sub_skip, List.drop_left]

/-- Characters that start no match stay. -/
theorem sub_pass (h : ∀ c ∈ p, ∀ cs, find (c :: cs) = none) :
    sub find repl 0 (p ++ cs) = p ++ sub find repl 0 cs := by
  induction p with
  | nil => rfl
  | cons c p ih =>
      rw [List.cons_append, sub_none (h c List.mem_cons_self _), ih fun c' hc' => h c' (List.mem_cons_of_mem c hc')]
      rfl

end Lib.Scan
