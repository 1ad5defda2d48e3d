import Mathlib.Data.List.Nodup

/-!
# `Lib.Rows` — tables as lists of rows

A table is the list of its rows, a key a function of a row. `updateWhere` and `deleteWhere` are the
statements of SQL; what they leave alone is stated for any function of a row.

## Contents
- `updateWhere`, `deleteWhere` and their rows;
- `byKey`: the row of a key, and rows that share a key.
-/

namespace Lib

section

variable {ρ κ : Type*}

/-- `UPDATE … SET … WHERE`. -/
def updateWhere (rows : List ρ) (p : ρ → Bool) (set : ρ → ρ) : List ρ :=
  rows.map fun r => if p r then set r else r

/-- `DELETE … WHERE`. -/
def deleteWhere (rows : List ρ) (p : ρ → Bool) : List ρ := rows.filter fun r => !p r

variable {rows : List ρ} {p : ρ → Bool} {set : ρ → ρ} {r r' : ρ}

/-! ## `updateWhere` -/

theorem mem_updateWhere : r' ∈ updateWhere rows p set ↔ ∃ r ∈ rows, (if p r then set r else r) = r' := by
  unfold updateWhere
  exact List.mem_map

/-- A row that is not selected stays. -/
theorem mem_updateWhere_of_not (hr : r ∈ rows) (hp : p r = false) : r ∈ updateWhere rows p set := by
  rw [mem_updateWhere]
  exact ⟨r, hr, if_neg (by rw [hp]; exact Bool.false_ne_true)⟩

theorem mem_updateWhere_of_pos (hr : r ∈ rows) (hp : p r = true) : set r ∈ updateWhere rows p set := by
  rw [mem_updateWhere]
  exact ⟨r, hr, if_pos hp⟩

/-- Each row of the table comes from a row that it equals, or that was selected. -/
theorem of_mem_updateWhere (h : r' ∈ updateWhere rows p set) :
    (r' ∈ rows ∧ p r' = false) ∨ ∃ r ∈ rows, p r = true ∧ r' = set r := by
  obtain ⟨r, hr, heq⟩ := mem_updateWhere.mp h
  by_cases hp : p r = true
  · rw [if_pos hp] at heq
    exact Or.inr ⟨r, hr, hp, heq.symm⟩
  · rw [if_neg hp] at heq
    subst heq
    exact Or.inl ⟨hr, by simpa using hp⟩

/-- A column that the update leaves alone. -/
theorem map_updateWhere (f : ρ → κ) (hset : ∀ r, f (set r) = f r) :
    (updateWhere rows p set).map f = rows.map f := by
  unfold updateWhere
  rw [List.map_map]
  apply List.map_congr_left
  intro r _
  show f (if p r then set r else r) = f r
  by_cases hp : p r = true
  · rw [if_pos hp, hset]
  · rw [if_neg hp]

/-- The new version of a row. -/
theorem updated_of_mem (p : ρ → Bool) (set : ρ → ρ) (hr : r ∈ rows) :
    ∃ r' ∈ updateWhere rows p set, r' = r ∨ r' = set r := by
  by_cases hp : p r = true
  · exact ⟨set r, mem_updateWhere_of_pos hr hp, Or.inr rfl⟩
  · exact ⟨r, mem_updateWhere_of_not hr (by simpa using hp), Or.inl rfl⟩

/-! ## `deleteWhere` -/

theorem mem_deleteWhere : r ∈ deleteWhere rows p ↔ r ∈ rows ∧ p r = false := by
  unfold deleteWhere
  rw [List.mem_filter]
  simp

theorem map_deleteWhere_sublist (f : ρ → κ) : ((deleteWhere rows p).map f).Sublist (rows.map f) :=
  List.filter_sublist.map f

/-! ## Keys -/

/-- The rows of a table with a primary key are known by it. -/
theorem eq_of_key {key : ρ → κ} (hkeys : (rows.map key).Nodup) (hr : r ∈ rows) (hr' : r' ∈ rows)
    (heq : key r = key r') : r = r' := List.inj_on_of_nodup_map hkeys hr hr' heq

/-- Where one part of the key is fixed, the rows are known by the other. -/
theorem nodup_of_key {α ι : Type*} {key : ρ → α × ι} (hkeys : (rows.map key).Nodup) {a : α}
    (hpart : ∀ r, p r = true → (key r).1 = a) : ((rows.filter p).map fun r => (key r).2).Nodup := by
  refine List.Nodup.map_on ?_ ((List.Nodup.of_map _ hkeys).filter _)
  intro r hr r' hr' hrest
  obtain ⟨hr, hp⟩ := List.mem_filter.mp hr
  obtain ⟨hr', hp'⟩ := List.mem_filter.mp hr'
  have hsame : (key r).1 = (key r').1 := (hpart r hp).trans (hpart r' hp').symm
  exact eq_of_key hkeys hr hr' (Prod.ext hsame hrest)

/-- The row of a key. -/
def byKey [DecidableEq κ] (key : ρ → κ) (rows : List ρ) (k : κ) : Option ρ :=
  rows.find? fun r => key r = k

variable [DecidableEq κ] {key : ρ → κ} {k : κ}

theorem byKey_some (h : byKey key rows k = some r) : r ∈ rows ∧ key r = k := by
  unfold byKey at h
  exact ⟨List.mem_of_find?_eq_some h, by simpa using List.find?_some h⟩

theorem byKey_none : byKey key rows k = none ↔ ∀ r ∈ rows, key r ≠ k := by
  unfold byKey
  rw [List.find?_eq_none]
  simp

/-- The row of a key after an update that keeps keys. -/
theorem byKey_updateWhere (hset : ∀ r, key (set r) = key r) (k : κ) :
    byKey key (updateWhere rows p set) k = (byKey key rows k).map fun r => if p r then set r else r := by
  have hkey : ∀ r, key (if p r then set r else r) = key r := by
    intro r
    by_cases hp : p r = true
    · rw [if_pos hp, hset]
    · rw [if_neg hp]
  unfold byKey updateWhere
  rw [List.find?_map]
  congr 2
  funext r
  simp only [Function.comp, hkey]

theorem byKey_eq_some (hkeys : (rows.map key).Nodup) : byKey key rows k = some r ↔ r ∈ rows ∧ key r = k := by
  constructor
  · exact byKey_some
  · rintro ⟨hr, hk⟩
    cases hfound : byKey key rows k with
    | none => exact absurd hk (byKey_none.mp hfound r hr)
    | some r' =>
        obtain ⟨hr', hk'⟩ := byKey_some hfound
        rw [eq_of_key hkeys hr hr' (hk.trans hk'.symm)]

end

end Lib
