import Mathlib.Order.Bounds.Basic
import Mathlib.Order.MinMax
import Mathlib.Data.List.Basic

/-!
# `Lib.Gossip` — a list of pairs, each of which ends with the smaller value

Every node has a value of an order. The pairs of a list are taken one after the other, and after each of
them both its ends have the smaller of their two values. A value travels from end to end, but only along
pairs in the order of the list, so that one pass is in general not enough for all that are connected.

## Contents
- `meet` and `run`, and `Reaches`: the ways of a value through the list;
- `isLeast_run`: a node ends with the least value that reaches it;
- `run_agree_iff`: when a pass leaves one value in a set of nodes.
-/

namespace Lib.Gossip

variable {κ α : Type*}

/-- The value of `u` comes to `v`: at each of its pairs it may cross over or stay. -/
def Reaches : List (κ × κ) → κ → κ → Prop
  | [], u, v => u = v
  | e :: es, u, v => Reaches es u v ∨ (u = e.1 ∧ Reaches es e.2 v) ∨ (u = e.2 ∧ Reaches es e.1 v)

instance decidableReaches [DecidableEq κ] : (es : List (κ × κ)) → (u v : κ) → Decidable (Reaches es u v)
  | [], u, v => inferInstanceAs (Decidable (u = v))
  | e :: es, u, v =>
      have := decidableReaches es u v
      have := decidableReaches es e.2 v
      have := decidableReaches es e.1 v
      inferInstanceAs (Decidable (Reaches es u v ∨ (u = e.1 ∧ Reaches es e.2 v) ∨ (u = e.2 ∧ Reaches es e.1 v)))

variable {es : List (κ × κ)} {u v : κ}

theorem reaches_self : ∀ (es : List (κ × κ)) (v : κ), Reaches es v v
  | [], _ => rfl
  | _ :: es, v => Or.inl (reaches_self es v)

/-- A value stays in a set whose pairs have both ends in it or none. -/
theorem Reaches.mem_iff {C : Set κ} : ∀ {es : List (κ × κ)} {u : κ}, (∀ e ∈ es, e.1 ∈ C ↔ e.2 ∈ C) →
    Reaches es u v → (u ∈ C ↔ v ∈ C)
  | [], u, _, h => by
      cases h
      exact Iff.rfl
  | e :: es, u, hclosed, h => by
      have hrest : ∀ e' ∈ es, e'.1 ∈ C ↔ e'.2 ∈ C := fun e' he' => hclosed e' (List.mem_cons_of_mem _ he')
      have hfirst := hclosed e List.mem_cons_self
      rcases h with h | ⟨rfl, h⟩ | ⟨rfl, h⟩
      · exact h.mem_iff hrest
      · exact hfirst.trans (h.mem_iff hrest)
      · exact hfirst.symm.trans (h.mem_iff hrest)

/-! ## The values -/

variable [DecidableEq κ] [LinearOrder α]

/-- Both ends of the pair get the smaller value. -/
def meet (f : κ → α) (e : κ × κ) : κ → α :=
  fun k => if k = e.1 ∨ k = e.2 then min (f e.1) (f e.2) else f k

def run (f : κ → α) (es : List (κ × κ)) : κ → α := es.foldl meet f

variable {f : κ → α} {e : κ × κ}

/-! ## One pair -/

theorem meet_fst : meet f e e.1 = min (f e.1) (f e.2) := if_pos (Or.inl rfl)

theorem meet_snd : meet f e e.2 = min (f e.1) (f e.2) := if_pos (Or.inr rfl)

theorem meet_of_ne (h₁ : v ≠ e.1) (h₂ : v ≠ e.2) : meet f e v = f v := if_neg (not_or.mpr ⟨h₁, h₂⟩)

theorem meet_le (f : κ → α) (e : κ × κ) (v : κ) : meet f e v ≤ f v := by
  by_cases h₁ : v = e.1
  · subst h₁
    rw [meet_fst]
    exact min_le_left _ _
  · by_cases h₂ : v = e.2
    · subst h₂
      rw [meet_snd]
      exact min_le_right _ _
    · exact le_of_eq (meet_of_ne h₁ h₂)

/-- The value after a pair is one from before it: the node's own, or that of the other end. -/
theorem exists_meet_eq (f : κ → α) (e : κ × κ) (v : κ) :
    meet f e v = f v ∨ (v = e.2 ∧ meet f e v = f e.1) ∨ (v = e.1 ∧ meet f e v = f e.2) := by
  by_cases h₁ : v = e.1
  · subst h₁
    rw [meet_fst]
    rcases min_choice (f e.1) (f e.2) with heq | heq
    · exact Or.inl heq
    · exact Or.inr (Or.inr ⟨rfl, heq⟩)
  · by_cases h₂ : v = e.2
    · subst h₂
      rw [meet_snd]
      rcases min_choice (f e.1) (f e.2) with heq | heq
      · exact Or.inr (Or.inl ⟨rfl, heq⟩)
      · exact Or.inl heq
    · exact Or.inl (meet_of_ne h₁ h₂)

/-- A pair with equal ends changes nothing. -/
theorem meet_eq_self (h : f e.1 = f e.2) : meet f e = f := by
  funext k
  rcases exists_meet_eq f e k with heq | ⟨rfl, heq⟩ | ⟨rfl, heq⟩
  · exact heq
  · exact heq.trans h
  · exact heq.trans h.symm

/-- The end with the greater value gets that of the other. -/
theorem meet_eq_update (f : κ → α) (e : κ × κ) :
    meet f e = Function.update f (if f e.1 = max (f e.1) (f e.2) then e.1 else e.2) (min (f e.1) (f e.2)) := by
  funext k
  by_cases hmax : f e.1 = max (f e.1) (f e.2)
  · have hle : f e.2 ≤ f e.1 := hmax ▸ le_max_right _ _
    rw [if_pos hmax, min_eq_right hle, Function.update_apply]
    by_cases h₁ : k = e.1
    · rw [if_pos h₁, h₁, meet_fst, min_eq_right hle]
    · rw [if_neg h₁]
      by_cases h₂ : k = e.2
      · rw [h₂, meet_snd, min_eq_right hle]
      · exact meet_of_ne h₁ h₂
  · have hle : f e.1 ≤ f e.2 := by
      rcases le_total (f e.2) (f e.1) with hle | hle
      · exact absurd (max_eq_left hle).symm hmax
      · exact hle
    rw [if_neg hmax, min_eq_left hle, Function.update_apply]
    by_cases h₂ : k = e.2
    · rw [if_pos h₂, h₂, meet_snd, min_eq_left hle]
    · rw [if_neg h₂]
      by_cases h₁ : k = e.1
      · rw [h₁, meet_fst, min_eq_left hle]
      · exact meet_of_ne h₁ h₂

/-! ## The whole list -/

/-- A value that reaches a node is a bound for what the node ends with. -/
theorem run_le_of_reaches : ∀ {es : List (κ × κ)} {f : κ → α} {u : κ}, Reaches es u v → run f es v ≤ f u
  | [], f, u, h => by
      cases h
      exact le_refl _
  | e :: es, f, u, h => by
      rcases h with h | ⟨rfl, h⟩ | ⟨rfl, h⟩
      · -- it stays at `u`
        exact (run_le_of_reaches h).trans (meet_le f e u)
      · have hcrossed := run_le_of_reaches (f := meet f e) h
        rw [meet_snd] at hcrossed
        exact hcrossed.trans (min_le_left _ _)
      · have hcrossed := run_le_of_reaches (f := meet f e) h
        rw [meet_fst] at hcrossed
        exact hcrossed.trans (min_le_right _ _)

/-- What a node ends with has reached it. -/
theorem exists_reaches (v : κ) : ∀ (es : List (κ × κ)) (f : κ → α), ∃ u, Reaches es u v ∧ f u = run f es v
  | [], _ => ⟨v, rfl, rfl⟩
  | e :: es, f => by
      obtain ⟨u, hreaches, heq⟩ := exists_reaches v es (meet f e)
      rcases exists_meet_eq f e u with hsame | ⟨rfl, hcross⟩ | ⟨rfl, hcross⟩
      · exact ⟨u, Or.inl hreaches, hsame.symm.trans heq⟩
      · exact ⟨e.1, Or.inr (Or.inl ⟨rfl, hreaches⟩), hcross.symm.trans heq⟩
      · exact ⟨e.2, Or.inr (Or.inr ⟨rfl, hreaches⟩), hcross.symm.trans heq⟩

/-- **The pass.** Each node ends with the least of the values that reach it. -/
theorem isLeast_run (f : κ → α) (es : List (κ × κ)) (v : κ) :
    IsLeast (Set.image f {u | Reaches es u v}) (run f es v) := by
  obtain ⟨u, hreaches, heq⟩ := exists_reaches v es f
  refine ⟨⟨u, hreaches, heq⟩, ?_⟩
  rintro x ⟨w, hw, rfl⟩
  exact run_le_of_reaches hw

/-- **When one pass is enough.** The nodes of `C` end with one value if and only if each of them is reached
    by a node of `C` that has the least value of `C`. -/
theorem run_agree_iff {C : Set κ} (hclosed : ∀ e ∈ es, e.1 ∈ C ↔ e.2 ∈ C) :
    (∀ v ∈ C, ∀ w ∈ C, run f es v = run f es w) ↔
      ∀ v ∈ C, ∃ u ∈ C, (∀ w ∈ C, f u ≤ f w) ∧ Reaches es u v := by
  -- what a node of `C` ends with comes from `C`
  have hfrom : ∀ v ∈ C, ∃ u ∈ C, Reaches es u v ∧ f u = run f es v := by
    intro v hv
    obtain ⟨u, hreaches, heq⟩ := exists_reaches v es f
    exact ⟨u, (hreaches.mem_iff hclosed).mpr hv, hreaches, heq⟩
  constructor
  · intro hagree v hv
    obtain ⟨u, hu, hreaches, heq⟩ := hfrom v hv
    refine ⟨u, hu, fun w hw => ?_, hreaches⟩
    -- the value of `u` is everyone's, and no one ends above where it began
    calc f u = run f es v := heq
      _ = run f es w := hagree v hv w hw
      _ ≤ f w := (isLeast_run f es w).2 ⟨w, reaches_self es w, rfl⟩
  · intro hreached v hv w hw
    have hbound : ∀ v ∈ C, ∀ w ∈ C, run f es v ≤ run f es w := by
      intro v hv w hw
      obtain ⟨u, -, hleast, hreaches⟩ := hreached v hv
      obtain ⟨u', hu', -, heq⟩ := hfrom w hw
      exact (run_le_of_reaches hreaches).trans ((hleast u' hu').trans (le_of_eq heq))
    exact le_antisymm (hbound v hv w hw) (hbound w hw v hv)

end Lib.Gossip
