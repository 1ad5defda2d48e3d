import Mathlib.Logic.Function.Basic
import Mathlib.Data.List.Basic
import Mathlib.Data.List.Nodup
import Mathlib.Data.List.Lattice

/-!
# `Lib.Table` — tables by key, and inserts that meet a row

A table is a partial map from keys to rows. `insertOn` is `INSERT … ON CONFLICT (key) DO UPDATE SET …
WHERE …`: a new key gets the new row, an old one gets what `merge` makes of both rows, or keeps its row
where `merge` refuses.

## Contents
- `Table.of_update`, the rows after a change at one key;
- `Table.insertOn` and its value at the key and elsewhere;
- `foldl_insertOn`: a sequence of inserts, seen at one key, is a fold over the rows of that key;
- `Table.insertSelect`, the inserts of one statement, and its value at a key;
- `insertKeys`, inserts into a table whose rows are their keys.
-/

namespace Lib

/-- A table: the row of each key that has one. -/
abbrev Table (κ ρ : Type*) := κ → Option ρ

section

variable {κ ρ α : Type*} [DecidableEq κ]

/-- A row after a change at one key. -/
theorem Table.of_update {t : Table κ ρ} {k k' : κ} {x : Option ρ} {row : ρ}
    (h : Function.update t k x k' = some row) : (k' = k ∧ x = some row) ∨ (k' ≠ k ∧ t k' = some row) := by
  by_cases hk : k' = k
  · subst hk
    rw [Function.update_self] at h
    exact Or.inl ⟨rfl, h⟩
  · rw [Function.update_of_ne hk] at h
    exact Or.inr ⟨hk, h⟩

/-- **Change rule.** What holds of every row holds after a change that writes such a row, or none. -/
theorem Table.forall_update {t : Table κ ρ} {P : κ → ρ → Prop} {k : κ} {x : Option ρ}
    (hnew : ∀ row, x = some row → P k row) (hold : ∀ k' row, t k' = some row → P k' row) :
    ∀ k' row, Function.update t k x k' = some row → P k' row := by
  intro k' row h
  rcases Table.of_update h with ⟨rfl, hx⟩ | ⟨-, h⟩
  · exact hnew row hx
  · exact hold k' row h

theorem Table.forall_erase {t : Table κ ρ} {P : κ → ρ → Prop} {k : κ}
    (hold : ∀ k' row, t k' = some row → P k' row) :
    ∀ k' row, Function.update t k none k' = some row → P k' row :=
  Table.forall_update (fun _ hx => by cases hx) hold

/-- The row after an insert on a key that has the row `old`, or none. -/
def onto (merge : ρ → ρ → Option ρ) (old : Option ρ) (new : ρ) : ρ :=
  match old with
  | none => new
  | some row => (merge row new).getD row

@[simp] theorem onto_none (merge : ρ → ρ → Option ρ) (new : ρ) : onto merge none new = new := rfl

@[simp] theorem onto_some (merge : ρ → ρ → Option ρ) (row new : ρ) :
    onto merge (some row) new = (merge row new).getD row := rfl

/-- `INSERT … ON CONFLICT (key) DO UPDATE`. -/
def Table.insertOn (t : Table κ ρ) (merge : ρ → ρ → Option ρ) (k : κ) (new : ρ) : Table κ ρ :=
  Function.update t k (some (onto merge (t k) new))

@[simp] theorem Table.insertOn_self (t : Table κ ρ) (merge : ρ → ρ → Option ρ) (k : κ) (new : ρ) :
    t.insertOn merge k new k = some (onto merge (t k) new) := by
  simp [insertOn]

theorem Table.insertOn_ne (t : Table κ ρ) (merge : ρ → ρ → Option ρ) {k k' : κ} (new : ρ) (h : k' ≠ k) :
    t.insertOn merge k new k' = t k' := by
  simp [insertOn, h]

/-- **Inserts, seen at one key.** -/
theorem foldl_insertOn (merge : ρ → ρ → Option ρ) (key : α → κ) (row : α → ρ) (as : List α) (k : κ) :
    ∀ t : Table κ ρ, as.foldl (fun t a => t.insertOn merge (key a) (row a)) t k
      = (as.filter fun a => key a = k).foldl (fun old a => some (onto merge old (row a))) (t k) := by
  induction as with
  | nil => intro t; rfl
  | cons a as ih =>
      intro t
      rw [List.foldl_cons, ih]
      by_cases hk : key a = k
      · subst hk
        simp
      · rw [t.insertOn_ne merge (row a) (Ne.symm hk)]
        simp [hk]

/-! ## Inserts of one statement -/

/-- `INSERT … SELECT … ON CONFLICT (key) DO UPDATE`: each key takes the first row selected for it. -/
def Table.insertSelect (t : Table κ ρ) (merge : ρ → ρ → Option ρ) (rows : List (κ × ρ)) : Table κ ρ := fun k =>
  match rows.find? fun r => r.1 = k with
  | none => t k
  | some r => some (onto merge (t k) r.2)

variable {t : Table κ ρ} {merge : ρ → ρ → Option ρ} {rows : List (κ × ρ)} {k : κ}

/-- A row after the statement was there before, or is what a selected row came to. -/
theorem Table.of_insertSelect {row : ρ} (h : t.insertSelect merge rows k = some row) :
    t k = some row ∨ ∃ new, (k, new) ∈ rows ∧ row = onto merge (t k) new := by
  unfold insertSelect at h
  split at h
  · exact Or.inl h
  · rename_i r hr
    have hk : r.1 = k := by simpa using List.find?_some hr
    subst hk
    exact Or.inr ⟨r.2, List.mem_of_find?_eq_some hr, (Option.some.inj h).symm⟩

theorem Table.insertSelect_of_notMem (h : ∀ new, (k, new) ∉ rows) : t.insertSelect merge rows k = t k := by
  unfold insertSelect
  split
  · rfl
  · rename_i r hr
    have hk : r.1 = k := by simpa using List.find?_some hr
    subst hk
    exact absurd (List.mem_of_find?_eq_some hr) (h r.2)

/-- A key that one row is selected for. -/
theorem Table.insertSelect_of_mem {new : ρ} (h : (k, new) ∈ rows) (huniq : ∀ new', (k, new') ∈ rows → new' = new) :
    t.insertSelect merge rows k = some (onto merge (t k) new) := by
  unfold insertSelect
  split
  · rename_i hnone
    exact absurd (List.find?_eq_none.mp hnone (k, new) h) (by simp)
  · rename_i r hr
    have hk : r.1 = k := by simpa using List.find?_some hr
    subst hk
    rw [huniq r.2 (List.mem_of_find?_eq_some hr)]

/-- No row is lost. -/
theorem Table.insertSelect_isSome (h : (t k).isSome) : (t.insertSelect merge rows k).isSome := by
  unfold insertSelect
  split
  · exact h
  · rfl

end

section

variable {α : Type*} [DecidableEq α] {rows new : List α} {a : α}

/-- `INSERT … ON CONFLICT DO NOTHING` into a table whose columns are its key. -/
def insertKeys (rows new : List α) : List α := new ∪ rows

@[simp] theorem mem_insertKeys : a ∈ insertKeys rows new ↔ a ∈ rows ∨ a ∈ new := by
  unfold insertKeys
  rw [List.mem_union_iff, or_comm]

theorem nodup_insertKeys (h : rows.Nodup) : (insertKeys rows new).Nodup := h.union new

end

end Lib
