import Mathlib.Data.List.Basic
import Mathlib.Data.List.TakeDrop
import Mathlib.Data.List.Range

/-!
# `Lib.Paging` — a loop that asks for pages until it has enough

The loop sends a request, adds the elements of the answer, and stops when it has `limit` elements or the answer was
the last. The other side is any sequence of answers. `gather` counts its requests as fuel, so `none` means that
they do not suffice.

## Contents
- `gather`, `gathered`;
- `gather_sound`: what a loop that stops returns;
- `gather_isSome_iff`: when a number of requests suffices.
-/

namespace Lib.Paging

variable {α β ρ : Type*} (ask : Option α → ℕ → ρ) (page : α → List β) (last : α → Bool) (answers : ℕ → α) (limit : ℕ)

/-- The loop, with what it has asked and got so far; `ask` makes a request from the answer before and the number of
    elements that are missing. The result is the requests and the elements. -/
def gather : ℕ → Option α → List ρ → List β → Option (List ρ × List β)
  | 0, _, asked, out => if out.length < limit then none else some (asked, out.take limit)
  | fuel + 1, previous, asked, out =>
      if out.length < limit then
        let answer := answers asked.length
        let asked := asked ++ [ask previous (limit - out.length)]
        let out := out ++ page answer
        if last answer then some (asked, out.take limit) else gather fuel (some answer) asked out
      else some (asked, out.take limit)

/-- The elements of the first `k` answers. -/
def gathered (k : ℕ) : List β := (List.range k).flatMap fun i => page (answers i)

theorem gathered_succ (k : ℕ) : gathered page answers (k + 1) = gathered page answers k ++ page (answers k) := by
  simp [gathered, List.range_succ]

theorem gathered_length_mono {k k' : ℕ} (h : k ≤ k') :
    (gathered page answers k).length ≤ (gathered page answers k').length := by
  induction h with
  | refl => exact Nat.le_refl _
  | step _ ih =>
      rw [gathered_succ, List.length_append]
      omega

variable {ask page last answers limit}

/-- **Result.** A loop that stops has sent at most `fuel` further requests, and returns the first elements of the
    answers to all of them. -/
theorem gather_sound {fuel : ℕ} : ∀ {previous : Option α} {asked asked' : List ρ} {out out' : List β},
    out = gathered page answers asked.length →
    gather ask page last answers limit fuel previous asked out = some (asked', out') →
    asked'.length ≤ asked.length + fuel ∧ out' = (gathered page answers asked'.length).take limit := by
  induction fuel with
  | zero =>
      intro previous asked asked' out out' hout h
      unfold gather at h
      split at h
      · cases h
      · cases h
        exact ⟨Nat.le_refl _, by rw [hout]⟩
  | succ fuel ih =>
      intro previous asked asked' out out' hout h
      unfold gather at h
      -- one more request, and its page
      have hnext : ∀ request : ρ, out ++ page (answers asked.length)
          = gathered page answers (asked ++ [request]).length := by
        intro request
        rw [List.length_append, List.length_singleton, gathered_succ, hout]
      split at h
      · simp only at h
        split at h
        · cases h
          rw [hnext, List.length_append, List.length_singleton]
          exact ⟨by omega, rfl⟩
        · obtain ⟨hle, hres⟩ := ih (hnext _) h
          rw [List.length_append, List.length_singleton] at hle
          exact ⟨by omega, hres⟩
      · cases h
        exact ⟨by omega, by rw [hout]⟩

/-- **Requests that suffice.** One of the next `fuel` answers is the last, or there are enough elements by then. -/
theorem gather_isSome_iff {fuel : ℕ} : ∀ {previous : Option α} {asked : List ρ} {out : List β},
    out = gathered page answers asked.length →
    ((gather ask page last answers limit fuel previous asked out).isSome ↔
      (∃ i, asked.length ≤ i ∧ i < asked.length + fuel ∧ last (answers i) = true) ∨
        limit ≤ (gathered page answers (asked.length + fuel)).length) := by
  induction fuel with
  | zero =>
      intro previous asked out hout
      unfold gather
      rw [Nat.add_zero, ← hout]
      split
      · rename_i hlt
        constructor
        · intro h
          cases h
        · rintro (⟨i, hle, hlt', -⟩ | hle)
          · omega
          · omega
      · rename_i hle
        exact ⟨fun _ => Or.inr (Nat.not_lt.mp hle), fun _ => rfl⟩
  | succ fuel ih =>
      intro previous asked out hout
      unfold gather
      split
      · simp only
        split
        · rename_i hlast
          exact ⟨fun _ => Or.inl ⟨asked.length, Nat.le_refl _, by omega, hlast⟩, fun _ => rfl⟩
        · rename_i hlast
          rw [ih (by rw [List.length_append, List.length_singleton, gathered_succ, hout]), List.length_append,
            List.length_singleton, show asked.length + 1 + fuel = asked.length + (fuel + 1) by omega]
          refine or_congr_left ⟨?_, ?_⟩
          · rintro ⟨i, hle, hlt, hi⟩
            exact ⟨i, by omega, hlt, hi⟩
          · rintro ⟨i, hle, hlt, hi⟩
            -- the answer just read was not the last
            have hne : i ≠ asked.length := by
              rintro rfl
              exact hlast hi
            exact ⟨i, by omega, hlt, hi⟩
      · rename_i hle
        refine ⟨fun _ => Or.inr ?_, fun _ => rfl⟩
        have hmono := gathered_length_mono page answers (Nat.le_add_right asked.length (fuel + 1))
        rw [← hout] at hmono
        omega

end Lib.Paging
