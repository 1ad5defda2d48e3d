import Mathlib.Data.List.Nodup

/-!
# `Lib.Dict` — dictionaries that keep the order of insertion

A dictionary is the list of its entries; a key that is set again keeps its place. `get` looks a key up,
`erase` takes it out. `ofPairs` is what a dictionary comprehension builds: its entries are among the pairs,
its keys are distinct, and pairs with distinct keys are kept as they are.
-/

namespace Lib.Dict

variable {κ α : Type*} [DecidableEq κ]

def set (k : κ) (v : α) : List (κ × α) → List (κ × α)
  | [] => [(k, v)]
  | e :: d => if e.1 = k then (k, v) :: d else e :: set k v d

def get (k : κ) (d : List (κ × α)) : Option α := (d.find? fun e => e.1 = k).map Prod.snd

/-- `dict.pop(k, None)`. -/
def erase (k : κ) (d : List (κ × α)) : List (κ × α) := d.filter fun e => e.1 ≠ k

def ofPairs (pairs : List (κ × α)) : List (κ × α) := pairs.foldl (fun d p => set p.1 p.2 d) []

variable {k : κ} {v : α} {d pairs : List (κ × α)}

theorem mem_set {e : κ × α} (h : e ∈ set k v d) : e = (k, v) ∨ e ∈ d := by
  induction d with
  | nil => exact Or.inl (List.mem_singleton.mp h)
  | cons e' d ih =>
      unfold set at h
      split at h
      · exact (List.mem_cons.mp h).imp_right (List.mem_cons_of_mem e')
      · rcases List.mem_cons.mp h with rfl | h
        · exact Or.inr List.mem_cons_self
        · exact (ih h).imp_right (List.mem_cons_of_mem e')

theorem nodup_set (h : (d.map Prod.fst).Nodup) : ((set k v d).map Prod.fst).Nodup := by
  induction d with
  | nil => exact List.nodup_singleton k
  | cons e d ih =>
      obtain ⟨hnot, hnodup⟩ := List.nodup_cons.mp h
      unfold set
      split
      · rename_i heq
        exact heq ▸ h
      · rename_i hne
        refine List.nodup_cons.mpr ⟨fun hmem => ?_, ih hnodup⟩
        obtain ⟨e', he', hkey⟩ := List.mem_map.mp hmem
        rcases mem_set he' with rfl | he'
        · exact hne hkey.symm
        · exact hnot (hkey ▸ List.mem_map_of_mem he')

theorem set_of_not_mem (h : k ∉ d.map Prod.fst) : set k v d = d ++ [(k, v)] := by
  induction d with
  | nil => rfl
  | cons e d ih =>
      obtain ⟨hne, hnot⟩ := not_or.mp (List.mem_cons.not.mp h)
      unfold set
      rw [if_neg (Ne.symm hne), ih hnot]
      rfl

@[simp] theorem get_nil : get k ([] : List (κ × α)) = none := rfl

theorem get_cons (e : κ × α) (d : List (κ × α)) : get k (e :: d) = if e.1 = k then some e.2 else get k d := by
  unfold get
  rw [List.find?_cons]
  by_cases h : e.1 = k
  · rw [if_pos h, decide_eq_true h]
    rfl
  · rw [if_neg h, decide_eq_false h]

theorem get_set (k k' : κ) (v : α) (d : List (κ × α)) :
    get k' (set k v d) = if k = k' then some v else get k' d := by
  induction d with
  | nil => exact get_cons (k, v) []
  | cons e d ih =>
      unfold set
      by_cases he : e.1 = k
      · rw [if_pos he, get_cons, get_cons, he]
        split <;> rfl
      · rw [if_neg he, get_cons, get_cons, ih]
        by_cases hk : k = k'
        · rw [if_pos hk, if_pos hk, if_neg (hk ▸ he)]
        · rw [if_neg hk, if_neg hk]

theorem get_erase (k k' : κ) (d : List (κ × α)) : get k' (erase k d) = if k = k' then none else get k' d := by
  induction d with
  | nil => simp [erase]
  | cons e d ih =>
      unfold erase at ih ⊢
      by_cases he : e.1 = k
      · rw [List.filter_cons_of_neg (by simpa using he), ih, get_cons]
        by_cases hk : k = k'
        · rw [if_pos hk, if_pos hk]
        · rw [if_neg hk, if_neg hk, if_neg (he ▸ hk)]
      · rw [List.filter_cons_of_pos (by simpa using he), get_cons, get_cons, ih]
        by_cases hk : k = k'
        · rw [if_pos hk, if_pos hk, if_neg (hk ▸ he)]
        · rw [if_neg hk, if_neg hk]

theorem get_of_mem (hnodup : (d.map Prod.fst).Nodup) (h : (k, v) ∈ d) : get k d = some v := by
  induction d with
  | nil => cases h
  | cons e d ih =>
      obtain ⟨hnot, hnodup'⟩ := List.nodup_cons.mp hnodup
      rw [get_cons]
      rcases List.mem_cons.mp h with rfl | hmem
      · exact if_pos rfl
      · have hne : e.1 ≠ k := fun heq => hnot (heq ▸ List.mem_map_of_mem hmem)
        rw [if_neg hne, ih hnodup' hmem]

theorem get_map {β : Type*} (f : α → β) (k : κ) (d : List (κ × α)) :
    get k (d.map fun e => (e.1, f e.2)) = (get k d).map f := by
  induction d with
  | nil => rfl
  | cons e d ih =>
      rw [List.map_cons, get_cons, get_cons, ih]
      split <;> rfl

theorem mem_ofPairs {e : κ × α} (h : e ∈ ofPairs pairs) : e ∈ pairs := by
  have hfold : ∀ d : List (κ × α), e ∈ pairs.foldl (fun d p => set p.1 p.2 d) d → e ∈ d ∨ e ∈ pairs := by
    clear h
    induction pairs with
    | nil => exact fun d h => Or.inl h
    | cons p pairs ih =>
        intro d h
        rcases ih _ h with h | h
        · exact (mem_set h).elim (fun heq => Or.inr (heq ▸ List.mem_cons_self)) Or.inl
        · exact Or.inr (List.mem_cons_of_mem p h)
  exact (hfold [] h).resolve_left List.not_mem_nil

theorem nodup_ofPairs (pairs : List (κ × α)) : ((ofPairs pairs).map Prod.fst).Nodup := by
  have hfold : ∀ d : List (κ × α), (d.map Prod.fst).Nodup →
      ((pairs.foldl (fun d p => set p.1 p.2 d) d).map Prod.fst).Nodup := by
    induction pairs with
    | nil => exact fun d h => h
    | cons p pairs ih => exact fun d h => ih _ (nodup_set h)
  exact hfold [] List.nodup_nil

/-- **Distinct keys.** Nothing is lost of pairs with distinct keys. -/
theorem ofPairs_eq (h : (pairs.map Prod.fst).Nodup) : ofPairs pairs = pairs := by
  have hfold : ∀ d : List (κ × α), ((d ++ pairs).map Prod.fst).Nodup →
      pairs.foldl (fun d p => set p.1 p.2 d) d = d ++ pairs := by
    clear h
    induction pairs with
    | nil => exact fun d _ => (List.append_nil d).symm
    | cons p pairs ih =>
        intro d h
        have hnot : p.1 ∉ d.map Prod.fst := by
          rw [List.map_append, List.map_cons] at h
          exact fun hmem => (List.nodup_append.mp h).2.2 _ hmem _ List.mem_cons_self rfl
        have hsplit : d ++ p :: pairs = (d ++ [p]) ++ pairs := List.append_cons d p pairs
        rw [List.foldl_cons, set_of_not_mem hnot, hsplit]
        exact ih _ (hsplit ▸ h)
  exact hfold [] h

end Lib.Dict
