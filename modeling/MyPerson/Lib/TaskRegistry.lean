import Mathlib.Data.List.AList

/-!
# `Lib.TaskRegistry` — tasks that a registry keeps by key

Tasks are created under a key, run and finish on their own, and a registry holds the latest task of each key
until that task's completion callback removes it. A callback removes its own task only. Whether a key has an
unfinished task is asked of the registry alone, so the answer is right as long as no task is registered over
one that still runs (`Held`).

## Contents
- `Tasks`, `start`, `finish`, `callback`;
- `running`, `Held` and what the operations keep;
- `Held.atMostOne`, `not_atMostOne_start`.
-/

namespace Lib

variable {κ : Type*} [DecidableEq κ]

/-- The tasks by the order of their creation, and the registry. -/
structure Tasks (κ : Type*) [DecidableEq κ] where
  /-- The key of each task. -/
  keys     : List κ
  finished : List Nat
  entries  : AList fun _ : κ => Nat
  /-- Only a task that was created finishes. -/
  ended    : ∀ i ∈ finished, i < keys.length
  /-- A registered task was created under its key. -/
  created  : ∀ k i, entries.lookup k = some i → keys[i]? = some k

namespace Tasks

/-- No task yet. -/
def empty : Tasks κ where
  keys := []
  finished := []
  entries := ∅
  ended _ h := nomatch h
  created k i h := by
    rw [AList.lookup_empty] at h
    cases h

/-- Create a task and register it. -/
def start (s : Tasks κ) (k : κ) : Tasks κ where
  keys := s.keys ++ [k]
  finished := s.finished
  entries := s.entries.insert k s.keys.length
  ended i h := by
    rw [List.length_append]
    exact Nat.lt_add_right _ (s.ended i h)
  created k' i h := by
    by_cases hk : k' = k
    · subst hk
      rw [AList.lookup_insert] at h
      obtain rfl := Option.some.inj h
      exact List.getElem?_concat_length
    · rw [AList.lookup_insert_ne hk] at h
      have hold := s.created k' i h
      rw [List.getElem?_append_left (List.getElem?_eq_some_iff.mp hold).1]
      exact hold

/-- A task ends. -/
def finish (s : Tasks κ) (i : Nat) (h : i < s.keys.length) : Tasks κ :=
  { s with
    finished := i :: s.finished
    ended := fun j hj => (List.mem_cons.mp hj).elim (fun heq => heq ▸ h) (s.ended j) }

/-- The completion callback of a task: it removes the entry that holds the task. -/
def callback (s : Tasks κ) (i : Nat) : Tasks κ :=
  match s.keys[i]? with
  | none => s
  | some k =>
      if s.entries.lookup k = some i then
        { s with
          entries := s.entries.erase k
          created := fun k' j h => by
            by_cases hk : k' = k
            · rw [hk, AList.lookup_erase] at h
              cases h
            · rw [AList.lookup_erase_ne hk] at h
              exact s.created k' j h }
      else s

/-- The task runs. -/
def Unfinished (s : Tasks κ) (i : Nat) (k : κ) : Prop := s.keys[i]? = some k ∧ i ∉ s.finished

/-- The registry holds a task of the key that is not done. -/
def running (s : Tasks κ) (k : κ) : Bool := (s.entries.lookup k).any fun i => i ∉ s.finished

/-- Every unfinished task is the one that the registry holds. -/
def Held (s : Tasks κ) : Prop := ∀ i k, s.Unfinished i k → s.entries.lookup k = some i

/-- No key has two unfinished tasks. -/
def AtMostOne (s : Tasks κ) : Prop := ∀ i j k, s.Unfinished i k → s.Unfinished j k → i = j

variable {s : Tasks κ} {i : Nat} {k : κ}

theorem held_empty : (empty : Tasks κ).Held := by
  rintro i k ⟨h, -⟩
  cases h

theorem Held.atMostOne (h : s.Held) : s.AtMostOne :=
  fun i j k hi hj => Option.some.inj ((h i k hi).symm.trans (h j k hj))

/-- The registry answers for every unfinished task. -/
theorem Held.running (h : s.Held) (hi : s.Unfinished i k) : s.running k = true := by
  unfold Tasks.running
  rw [h i k hi]
  exact decide_eq_true hi.2

theorem unfinished_of_running (h : s.running k = true) : ∃ i, s.entries.lookup k = some i ∧ s.Unfinished i k := by
  unfold Tasks.running at h
  obtain ⟨i, hi, hnot⟩ := (Option.any_eq_true _ _).mp h
  exact ⟨i, hi, s.created k i hi, of_decide_eq_true hnot⟩

/-- A task that was there before. -/
theorem unfinished_start {k' : κ} (h : (s.start k).Unfinished i k') :
    s.Unfinished i k' ∨ (i = s.keys.length ∧ k' = k) := by
  obtain ⟨hkey, hnot⟩ := h
  have hkey' : (s.keys ++ [k])[i]? = some k' := hkey
  by_cases hlt : i < s.keys.length
  · rw [List.getElem?_append_left hlt] at hkey'
    exact Or.inl ⟨hkey', hnot⟩
  · rw [List.getElem?_append_right (not_lt.mp hlt)] at hkey'
    obtain ⟨hzero, heq⟩ := List.getElem?_eq_some_iff.mp hkey'
    rw [List.length_singleton] at hzero
    refine Or.inr ⟨by omega, ?_⟩
    rw [← heq, List.getElem_singleton]

/-- **Start.** A task registered where none runs is held, and so are the others. -/
theorem Held.start (h : s.Held) (hfree : s.running k = false) : (s.start k).Held := by
  intro i k' hi
  rcases unfinished_start hi with hold | ⟨rfl, rfl⟩
  · have hne : k' ≠ k := by
      rintro rfl
      rw [h.running hold] at hfree
      cases hfree
    show (s.entries.insert k s.keys.length).lookup k' = some i
    rw [AList.lookup_insert_ne hne]
    exact h i k' hold
  · exact AList.lookup_insert _

theorem Held.finish (h : s.Held) (hi : i < s.keys.length) : (s.finish i hi).Held :=
  fun j k hj => h j k ⟨hj.1, fun hin => hj.2 (List.mem_cons_of_mem _ hin)⟩

theorem callback_keys (s : Tasks κ) (i : Nat) :
    (s.callback i).keys = s.keys ∧ (s.callback i).finished = s.finished := by
  unfold callback
  split
  · exact ⟨rfl, rfl⟩
  · split <;> exact ⟨rfl, rfl⟩

/-- **Callback.** The callback of a task that has finished removes no other task. -/
theorem Held.callback (h : s.Held) (hdone : i ∈ s.finished) : (s.callback i).Held := by
  intro j k hj
  obtain ⟨hkeys, hfinished⟩ := callback_keys s i
  have hold : s.Unfinished j k := by
    unfold Unfinished at hj ⊢
    rw [hkeys, hfinished] at hj
    exact hj
  have hentry := h j k hold
  unfold Tasks.callback
  split
  · exact hentry
  · rename_i k' _
    split
    · rename_i hmine
      show (s.entries.erase k').lookup k = some j
      have hne : k ≠ k' := by
        rintro rfl
        exact hold.2 (Option.some.inj (hentry.symm.trans hmine) ▸ hdone)
      rw [AList.lookup_erase_ne hne]
      exact hentry
    · exact hentry

/-- A task registered over one that runs makes two of the key. -/
theorem not_atMostOne_start (h : s.running k = true) : ¬ (s.start k).AtMostOne := by
  obtain ⟨i, -, hkey, hnot⟩ := unfinished_of_running h
  have hlt := (List.getElem?_eq_some_iff.mp hkey).1
  intro hone
  have hold : (s.start k).Unfinished i k := by
    refine ⟨?_, hnot⟩
    show (s.keys ++ [k])[i]? = some k
    rw [List.getElem?_append_left hlt]
    exact hkey
  have hnew : (s.start k).Unfinished s.keys.length k :=
    ⟨List.getElem?_concat_length, fun hin => Nat.lt_irrefl _ (s.ended _ hin)⟩
  exact absurd (hone i s.keys.length k hold hnew) (Nat.ne_of_lt hlt)

end Tasks

end Lib
