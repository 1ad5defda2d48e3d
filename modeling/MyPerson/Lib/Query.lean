import Mathlib.Data.List.Induction
import Mathlib.Data.List.Sort
import Mathlib.Data.Prod.Lex

/-!
# `Lib.Query` — ORDER BY, DISTINCT ON, LIMIT and OFFSET

`orderBy` sorts rows by a key, rows of one key stay in the order of the table. `distinctOn` keeps the first
row of each group, so the least one after `orderBy`. `firstBest` is the loop that a program writes for it: it
keeps a row that is better than all before.

## Contents
- `orderBy`, `distinctOn`, and the rows that `distinctOn` keeps;
- `page`, and the rows of all pages;
- `firstBest` and its row, `findSome?` and its row.
-/

namespace Lib

section

variable {α β κ : Type*}

/-! ## Sorting -/

/-- `ORDER BY`. -/
def orderBy [LinearOrder κ] (key : α → κ) (l : List α) : List α := l.insertionSort fun a b => key a ≤ key b

theorem mem_orderBy [LinearOrder κ] {key : α → κ} {l : List α} {a : α} : a ∈ orderBy key l ↔ a ∈ l :=
  (List.perm_insertionSort _ l).mem_iff

theorem orderBy_sorted [LinearOrder κ] (key : α → κ) (l : List α) :
    (orderBy key l).Pairwise fun a b => key a ≤ key b :=
  haveI : Std.Total fun a b : α => key a ≤ key b := ⟨fun a b => le_total (key a) (key b)⟩
  haveI : IsTrans α fun a b : α => key a ≤ key b := ⟨fun _ _ _ => le_trans⟩
  List.pairwise_insertionSort _ l

/-! ## The first row of each group -/

/-- `DISTINCT ON`. -/
def distinctOn [DecidableEq κ] (group : α → κ) : List α → List α
  | [] => []
  | a :: l => a :: (distinctOn group l).filter fun b => group b ≠ group a

variable [DecidableEq κ] {group : α → κ} {l : List α} {a b : α}

theorem mem_of_mem_distinctOn (h : a ∈ distinctOn group l) : a ∈ l := by
  induction l with
  | nil => exact h
  | cons b l ih =>
      rcases List.mem_cons.mp h with rfl | h
      · exact List.mem_cons_self
      · exact List.mem_cons_of_mem _ (ih (List.mem_filter.mp h).1)

/-- Each group has a row. -/
theorem exists_mem_distinctOn (group : α → κ) (h : a ∈ l) : ∃ b ∈ distinctOn group l, group b = group a := by
  induction l with
  | nil => cases h
  | cons c l ih =>
      by_cases hgroup : group c = group a
      · exact ⟨c, List.mem_cons_self, hgroup⟩
      · rcases List.mem_cons.mp h with rfl | h
        · exact absurd rfl hgroup
        · obtain ⟨b, hb, heq⟩ := ih h
          refine ⟨b, List.mem_cons_of_mem _ (List.mem_filter.mpr ⟨hb, ?_⟩), heq⟩
          simpa using fun hbc => hgroup (hbc.symm.trans heq)

/-- It comes before all others of its group. -/
theorem distinctOn_first {R : α → α → Prop} (hrefl : ∀ a, R a a) (hl : l.Pairwise R)
    (ha : a ∈ distinctOn group l) (hb : b ∈ l) (hgroup : group b = group a) : R a b := by
  induction l with
  | nil => cases ha
  | cons c l ih =>
      obtain ⟨hc, hl⟩ := List.pairwise_cons.mp hl
      rcases List.mem_cons.mp ha with rfl | ha
      · rcases List.mem_cons.mp hb with rfl | hb
        · exact hrefl b
        · exact hc b hb
      · obtain ⟨ha, hne⟩ := List.mem_filter.mp ha
        rcases List.mem_cons.mp hb with rfl | hb
        · exact absurd hgroup.symm (by simpa using hne)
        · exact ih hl ha hb

/-! ## Pages -/

/-- `LIMIT … OFFSET …`. -/
def page (l : List α) (limit offset : Nat) : List α := (l.drop offset).take limit

/-- A row is on some page. -/
theorem mem_page {limit : Nat} (hlimit : 0 < limit) : (∃ k, a ∈ page l limit (k * limit)) ↔ a ∈ l := by
  constructor
  · rintro ⟨k, hk⟩
    exact List.mem_of_mem_drop (List.mem_of_mem_take hk)
  · intro h
    obtain ⟨n, hn, rfl⟩ := List.mem_iff_getElem.mp h
    refine ⟨n / limit, ?_⟩
    unfold page
    have hmod := Nat.mod_lt n hlimit
    have hdiv := Nat.div_add_mod n limit
    rw [Nat.mul_comm limit] at hdiv
    rw [List.mem_iff_getElem]
    refine ⟨n % limit, ?_, ?_⟩
    · rw [List.length_take, List.length_drop]
      omega
    · rw [List.getElem_take, List.getElem_drop]
      simp only [hdiv]

/-! ## The loop -/

/-- Keep the new value if there was none, or it is better. -/
def keepBetter (value : α → Option β) (rank : β → Nat) (best : Option (α × β)) (a : α) : Option (α × β) :=
  match value a with
  | none => best
  | some b =>
      match best with
      | none => some (a, b)
      | some (_, b') => if rank b < rank b' then some (a, b) else best

/-- The first of the best rows. -/
def firstBest (value : α → Option β) (rank : β → Nat) (l : List α) : Option (α × β) :=
  l.foldl (keepBetter value rank) none

variable {value : α → Option β} {rank : β → Nat}

/-- What the loop has found after `l`. -/
def BestOf (value : α → Option β) (rank : β → Nat) (R : α → α → Prop) (l : List α) : Option (α × β) → Prop
  | none => ∀ a ∈ l, value a = none
  | some (a, b) => a ∈ l ∧ value a = some b ∧
      ∀ a' ∈ l, ∀ b', value a' = some b' → rank b < rank b' ∨ rank b = rank b' ∧ R a a'

/-- **The loop** finds the first of the best rows, if any row has a value. -/
theorem firstBest_spec (value : α → Option β) (rank : β → Nat) {R : α → α → Prop} (hrefl : ∀ a, R a a)
    (hl : l.Pairwise R) :
    BestOf value rank R l (firstBest value rank l) := by
  induction l using List.reverseRecOn with
  | nil => exact nofun
  | append_singleton l x ih =>
      obtain ⟨hl, -, hx⟩ := List.pairwise_append.mp hl
      have hlast : ∀ a ∈ l, R a x := fun a ha => hx a ha x (List.mem_singleton_self x)
      have hbest := ih hl
      have hstep : firstBest value rank (l ++ [x]) = keepBetter value rank (firstBest value rank l) x := by
        unfold firstBest
        rw [List.foldl_append]
        rfl
      rw [hstep]
      unfold keepBetter
      cases hvalue : value x with
      | none =>
          cases hfound : firstBest value rank l with
          | none =>
              rw [hfound] at hbest
              intro a ha
              rcases List.mem_append.mp ha with ha | ha
              · exact hbest a ha
              · rw [List.mem_singleton.mp ha]
                exact hvalue
          | some found =>
              rw [hfound] at hbest
              obtain ⟨hmem, hval, hmin⟩ := hbest
              refine ⟨List.mem_append_left _ hmem, hval, fun a ha b hb => ?_⟩
              rcases List.mem_append.mp ha with ha | ha
              · exact hmin a ha b hb
              · rw [List.mem_singleton.mp ha, hvalue] at hb
                cases hb
      | some b =>
          cases hfound : firstBest value rank l with
          | none =>
              rw [hfound] at hbest
              refine ⟨List.mem_append_right _ (List.mem_singleton_self x), hvalue, fun a ha b' hb' => ?_⟩
              rcases List.mem_append.mp ha with ha | ha
              · rw [hbest a ha] at hb'
                cases hb'
              · obtain rfl := List.mem_singleton.mp ha
                cases hvalue.symm.trans hb'
                exact Or.inr ⟨rfl, hrefl a⟩
          | some found =>
              rw [hfound] at hbest
              obtain ⟨c, d⟩ := found
              obtain ⟨hmem, hval, hmin⟩ := hbest
              show BestOf value rank R (l ++ [x]) (if rank b < rank d then some (x, b) else some (c, d))
              by_cases hlt : rank b < rank d
              · rw [if_pos hlt]
                refine ⟨List.mem_append_right _ (List.mem_singleton_self x), hvalue, fun a ha b' hb' => ?_⟩
                rcases List.mem_append.mp ha with ha | ha
                · have hold := hmin a ha b' hb'
                  omega
                · obtain rfl := List.mem_singleton.mp ha
                  cases hvalue.symm.trans hb'
                  exact Or.inr ⟨rfl, hrefl a⟩
              · rw [if_neg hlt]
                refine ⟨List.mem_append_left _ hmem, hval, fun a ha b' hb' => ?_⟩
                rcases List.mem_append.mp ha with ha | ha
                · exact hmin a ha b' hb'
                · obtain rfl := List.mem_singleton.mp ha
                  cases hvalue.symm.trans hb'
                  have hR := hlast c hmem
                  by_cases heq : rank d = rank b
                  · exact Or.inr ⟨heq, hR⟩
                  · exact Or.inl (by omega)

/-! ## The first value -/

/-- `findSome?` takes the first row that has a value. -/
theorem findSome_first {f : α → Option β} {R : α → α → Prop} {b : β} (hl : l.Pairwise R)
    (h : l.findSome? f = some b) : ∃ a ∈ l, f a = some b ∧ ∀ c ∈ l, c = a ∨ f c = none ∨ R a c := by
  induction l with
  | nil => cases h
  | cons c l ih =>
      obtain ⟨hc, hl⟩ := List.pairwise_cons.mp hl
      rw [List.findSome?_cons] at h
      cases hvalue : f c with
      | some b' =>
          rw [hvalue] at h
          cases h
          refine ⟨c, List.mem_cons_self, hvalue, fun d hd => ?_⟩
          rcases List.mem_cons.mp hd with rfl | hd
          · exact Or.inl rfl
          · exact Or.inr (Or.inr (hc d hd))
      | none =>
          rw [hvalue] at h
          obtain ⟨a, ha, hfa, hfirst⟩ := ih hl h
          refine ⟨a, List.mem_cons_of_mem _ ha, hfa, fun d hd => ?_⟩
          rcases List.mem_cons.mp hd with rfl | hd
          · exact Or.inr (Or.inl hvalue)
          · exact hfirst d hd

end

end Lib
