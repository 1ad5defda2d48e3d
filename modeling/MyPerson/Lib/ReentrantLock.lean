import Mathlib.Tactic.Common

/-!
# `Lib.ReentrantLock` — a lock that its owner may take again

An exclusive lock without a queue: whoever finds it taken by another is refused. The owner may take it again
and has to give it back as often; giving back what one does not hold does nothing.
-/

namespace Lib

/-- Who holds the lock, and how many times more than once. -/
structure Hold (ω : Type*) where
  owner : ω
  again : Nat
deriving DecidableEq, Repr

namespace Hold

variable {ω : Type*} [DecidableEq ω] {lock : Option (Hold ω)} {c d : ω}

/-- Try to take the lock; `false`: refused. -/
def acquire (lock : Option (Hold ω)) (c : ω) : Option (Hold ω) × Bool :=
  match lock with
  | none => (some ⟨c, 0⟩, true)
  | some h => if h.owner = c then (some ⟨c, h.again + 1⟩, true) else (some h, false)

/-- Give the lock back once; `false`: it was not held. -/
def release (lock : Option (Hold ω)) (c : ω) : Option (Hold ω) × Bool :=
  match lock with
  | none => (none, false)
  | some h =>
      if h.owner = c then
        match h.again with
        | 0 => (none, true)
        | n + 1 => (some ⟨c, n⟩, true)
      else (some h, false)

theorem acquire_refused : (acquire lock c).2 = false ↔ ∃ h, lock = some h ∧ h.owner ≠ c := by
  unfold acquire
  cases lock with
  | none => exact ⟨fun h => (nomatch h), fun ⟨_, h, _⟩ => (nomatch h)⟩
  | some h =>
      dsimp only
      by_cases howner : h.owner = c
      · rw [if_pos howner]
        exact ⟨fun hc => (nomatch hc), fun ⟨_, heq, hne⟩ => absurd (Option.some.inj heq ▸ howner) hne⟩
      · rw [if_neg howner]
        exact ⟨fun _ => ⟨h, rfl, howner⟩, fun _ => rfl⟩

theorem acquire_of_refused (h : (acquire lock c).2 = false) : (acquire lock c).1 = lock := by
  obtain ⟨hold, rfl, hne⟩ := acquire_refused.mp h
  simp [acquire, hne]

/-- What taking the lock leaves. -/
theorem acquire_taken (h : (acquire lock c).2 = true) :
    ∃ n, (acquire lock c).1 = some ⟨c, n⟩ ∧ lock = match n with | 0 => none | n + 1 => some ⟨c, n⟩ := by
  unfold acquire at *
  cases lock with
  | none => exact ⟨0, rfl, rfl⟩
  | some hold =>
      dsimp only at *
      by_cases howner : hold.owner = c
      · rw [if_pos howner]
        exact ⟨hold.again + 1, rfl, by rw [← howner]⟩
      · simp [howner] at h

/-- **Balance.** Taking the lock and giving it back once leaves it as it was. -/
theorem release_acquire (h : (acquire lock c).2 = true) : release (acquire lock c).1 c = (lock, true) := by
  obtain ⟨n, htaken, hbefore⟩ := acquire_taken h
  rw [htaken, hbefore]
  cases n <;> simp [release]

theorem acquire_ne (h : (acquire lock c).2 = true) : (acquire lock c).1 ≠ lock := by
  obtain ⟨n, htaken, hbefore⟩ := acquire_taken h
  rw [htaken, hbefore]
  cases n <;> simp

/-- Another one does not free the lock. -/
theorem release_other (h : (acquire lock c).2 = true) (hne : d ≠ c) :
    release (acquire lock c).1 d = ((acquire lock c).1, false) := by
  obtain ⟨n, htaken, -⟩ := acquire_taken h
  rw [htaken]
  simp [release, hne.symm]

end Hold

end Lib
