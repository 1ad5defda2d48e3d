import MyPerson.Lib.Rows

/-!
# `Lib.Edits` — rows changed one by one, and changed back

An edit is a key and a function for the rows of that key. Edits with distinct keys come to one pass over the table,
in which each row meets the edit of its key, if there is one; so a journal with an edit for each changed row takes
them back.

## Contents
- `edits`, `applied`, `edits_eq_map` and `edits_undo`;
- `map_eq_of_forall₂`, a pass that undoes another;
- `mapM_ok_iff`, a pass that may fail.
-/

namespace Lib

variable {ρ κ : Type*} [DecidableEq κ]

/-- One `UPDATE … WHERE key = …` after the other. -/
def edits (key : ρ → κ) (rows : List ρ) (es : List (κ × (ρ → ρ))) : List ρ :=
  es.foldl (fun rows e => updateWhere rows (fun r => key r = e.1) e.2) rows

theorem edits_append (key : ρ → κ) (rows : List ρ) (es es' : List (κ × (ρ → ρ))) :
    edits key rows (es ++ es') = edits key (edits key rows es) es' := List.foldl_append

/-- The keys stay. -/
theorem map_key_edits {key : ρ → κ} {es : List (κ × (ρ → ρ))} (hkeep : ∀ e ∈ es, ∀ r, key (e.2 r) = key r)
    (rows : List ρ) : (edits key rows es).map key = rows.map key := by
  induction es generalizing rows with
  | nil => rfl
  | cons e es ih =>
      exact (ih (fun e' he' => hkeep e' (List.mem_cons_of_mem e he')) _).trans
        (map_updateWhere key (hkeep e List.mem_cons_self))

/-- What the edits do to a row with the key `k`. -/
def applied (es : List (κ × (ρ → ρ))) (k : κ) : ρ → ρ :=
  match byKey Prod.fst es k with
  | some e => e.2
  | none => id

variable {key : ρ → κ} {rows : List ρ} {es : List (κ × (ρ → ρ))} {k : κ} {f : ρ → ρ}

theorem applied_of_not_mem (h : k ∉ es.map Prod.fst) : applied es k = id := by
  have hnone : byKey Prod.fst es k = none := by
    refine byKey_none.mpr fun e he heq => h ?_
    exact heq ▸ List.mem_map_of_mem he
  rw [applied, hnone]

theorem applied_of_mem (hnodup : (es.map Prod.fst).Nodup) (h : (k, f) ∈ es) : applied es k = f := by
  rw [applied, (byKey_eq_some hnodup).mpr ⟨h, rfl⟩]

theorem applied_cons_ne {e : κ × (ρ → ρ)} (h : e.1 ≠ k) : applied (e :: es) k = applied es k := by
  unfold applied byKey
  rw [List.find?_cons_of_neg (by simpa using h)]

/-- **Edits are one pass.** Each row meets the edit of its key. -/
theorem edits_eq_map (hnodup : (es.map Prod.fst).Nodup) (hkeep : ∀ e ∈ es, ∀ r, key (e.2 r) = key r) :
    edits key rows es = rows.map fun r => applied es (key r) r := by
  induction es generalizing rows with
  | nil => exact (List.map_id rows).symm
  | cons e es ih =>
      obtain ⟨hnot, hnodup'⟩ := List.nodup_cons.mp hnodup
      have hrest : edits key rows (e :: es) =
          (updateWhere rows (fun r => key r = e.1) e.2).map fun r => applied es (key r) r :=
        ih hnodup' fun e' he' => hkeep e' (List.mem_cons_of_mem e he')
      rw [hrest, updateWhere, List.map_map]
      refine List.map_congr_left fun r _ => ?_
      by_cases hr : key r = e.1
      · -- no other edit has the key
        have hfirst : applied (e :: es) (key r) = e.2 := applied_of_mem hnodup (hr ▸ List.mem_cons_self)
        have hdone : applied es (key (e.2 r)) = id :=
          applied_of_not_mem (by rw [hkeep e List.mem_cons_self r, hr]; exact hnot)
        rw [hfirst, Function.comp_apply, if_pos (decide_eq_true hr), hdone]
        rfl
      · rw [applied_cons_ne (Ne.symm hr), Function.comp_apply, if_neg (by simpa using hr)]

/-- **Undone.** Edits with the same keys take the rows back when each takes back the edit of its key. -/
theorem edits_undo {es' : List (κ × (ρ → ρ))} (hnodup : (es.map Prod.fst).Nodup)
    (hkeys : es'.map Prod.fst = es.map Prod.fst) (hkeep : ∀ e ∈ es, ∀ r, key (e.2 r) = key r)
    (hkeep' : ∀ e ∈ es', ∀ r, key (e.2 r) = key r)
    (hback : ∀ r ∈ rows, ∀ f g, (key r, f) ∈ es → (key r, g) ∈ es' → g (f r) = r) :
    edits key (edits key rows es) es' = rows := by
  have hnodup' : (es'.map Prod.fst).Nodup := hkeys ▸ hnodup
  rw [edits_eq_map hnodup hkeep, edits_eq_map hnodup' hkeep', List.map_map]
  refine (List.map_congr_left fun r hr => ?_).trans (List.map_id rows)
  show applied es' (key (applied es (key r) r)) (applied es (key r) r) = r
  -- a row without an edit has none to take back
  by_cases hmem : key r ∈ es.map Prod.fst
  · obtain ⟨⟨k, f⟩, hf, rfl⟩ := List.mem_map.mp hmem
    obtain ⟨⟨k', g⟩, hg, hk⟩ := List.mem_map.mp (hkeys ▸ hmem)
    obtain rfl : k' = key r := hk
    rw [applied_of_mem hnodup hf, hkeep _ hf r, applied_of_mem hnodup' hg]
    exact hback r hr f g hf hg
  · rw [applied_of_not_mem hmem]
    exact congrFun (applied_of_not_mem (hkeys ▸ hmem)) r

/-! ## Passes -/

variable {rows' : List ρ} {R : ρ → ρ → Prop}

/-- A pass that takes every row back takes the table back. -/
theorem map_eq_of_forall₂ {g : ρ → ρ} (h : List.Forall₂ R rows rows')
    (hback : ∀ r ∈ rows, ∀ r' ∈ rows', R r r' → g r' = r) : rows'.map g = rows := by
  induction h with
  | nil => rfl
  | @cons r r' rows rows' hr _ ih =>
      have hrest : rows'.map g = rows :=
        ih fun r hmem r' hmem' => hback r (List.mem_cons_of_mem _ hmem) r' (List.mem_cons_of_mem _ hmem')
      rw [List.map_cons, hback r List.mem_cons_self r' List.mem_cons_self hr, hrest]

/-- The rows after a pass. -/
theorem forall_of_forall₂ {S : ρ → Prop} (h : List.Forall₂ R rows rows') (hs : ∀ r r', R r r' → S r') :
    ∀ r' ∈ rows', S r' := by
  induction h with
  | nil => exact fun r' hr' => by cases hr'
  | cons hr _ ih =>
      intro r' hr'
      rcases List.mem_cons.mp hr' with rfl | hr'
      · exact hs _ _ hr
      · exact ih r' hr'

/-- A pass that may fail. -/
theorem mapM_ok_iff {α β ε : Type*} {f : α → Except ε β} {as : List α} {bs : List β} :
    as.mapM f = .ok bs ↔ List.Forall₂ (fun a b => f a = .ok b) as bs := by
  induction as generalizing bs with
  | nil =>
      rw [List.forall₂_nil_left_iff]
      exact ⟨fun h => (Except.ok.inj h).symm, fun h => congrArg Except.ok h.symm⟩
  | cons a as ih =>
      rw [List.mapM_cons, List.forall₂_cons_left_iff]
      cases ha : f a with
      | error e => exact iff_of_false (by rintro ⟨⟩) (by rintro ⟨b, _, h, -⟩; cases h)
      | ok b =>
          cases has : as.mapM f with
          | error e =>
              refine iff_of_false (by rintro ⟨⟩) ?_
              rintro ⟨b', bs', -, h, -⟩
              have hok := ih.mpr h
              rw [has] at hok
              cases hok
          | ok bs' =>
              have htail := ih.mp has
              constructor
              · rintro ⟨⟩
                exact ⟨b, bs', rfl, htail, rfl⟩
              · rintro ⟨b', bs'', hb, h, rfl⟩
                have hok := ih.mpr h
                rw [has] at hok
                cases hok
                cases hb
                rfl

end Lib
