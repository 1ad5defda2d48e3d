import Mathlib.Algebra.Order.Group.Defs
import Mathlib.Data.List.Basic
import Mathlib.Data.List.Sort
import Mathlib.Tactic.Linarith

/-!
# `Lib.SlidingWindow` — an admission check bounds every window

Items carry the time `made` when they were admitted and the time `planned` they are meant for, which
may lie in the future. An item is admitted when the items planned after `made - width`, itself
included, are at most `limit`. The list keeps the newest admission first, so that "the others at the
moment of the check" is its tail.

`Admitted.window` then bounds the number of items planned in `(t - width, t]` for every `t`, past or
future: the item of the window admitted last saw all the others when it was checked.

`countAfter_add_lt_iff` says when a window empties: it holds all but `k + 1` of its items from the moment on
that the `k`-th of them, in the order of their times, leaves it.
-/

namespace Lib.SlidingWindow

variable {ι T : Type*}

/-! ## Counting -/

section Count

variable [LinearOrder T] {planned : ι → T} {xs ys : List ι}

/-- How many items are planned after `since`. -/
def countAfter (planned : ι → T) (since : T) (xs : List ι) : Nat :=
  xs.countP fun x => decide (since < planned x)

/-- How many items are planned in `(lo, hi]`. -/
def countIn (planned : ι → T) (lo hi : T) (xs : List ι) : Nat :=
  xs.countP fun x => decide (lo < planned x) && decide (planned x ≤ hi)

theorem countAfter_le_of_sublist {since : T} (h : xs.Sublist ys) :
    countAfter planned since xs ≤ countAfter planned since ys :=
  h.countP_le

theorem countAfter_append_le {since : T} (new xs : List ι) :
    countAfter planned since (new ++ xs) ≤ new.length + countAfter planned since xs := by
  unfold countAfter
  rw [List.countP_append]
  exact Nat.add_le_add_right List.countP_le_length _

/-- An item outside a window does not count in it. -/
theorem countIn_cons_of_not {lo hi : T} {x : ι} (hx : ¬(lo < planned x ∧ planned x ≤ hi)) :
    countIn planned lo hi (x :: xs) = countIn planned lo hi xs := by
  unfold countIn
  have hfalse : (decide (lo < planned x) && decide (planned x ≤ hi)) = false := by
    simpa [not_and] using hx
  rw [List.countP_cons, hfalse]
  rfl

theorem countAfter_anti {since since' : T} (h : since ≤ since') (xs : List ι) :
    countAfter planned since' xs ≤ countAfter planned since xs := by
  refine List.countP_mono_left fun x _ hx => ?_
  exact decide_eq_true (h.trans_lt (of_decide_eq_true hx))

end Count

/-! ## Leaving a window -/

section Leaving

variable [LinearOrder T] {times : List T} {k : Nat} {x : T}

/-- Of sorted times, all but the first `k + 1` at most lie after `since`, exactly when the `k`-th does not. -/
theorem countP_add_lt_iff (hsorted : times.Pairwise (· ≤ ·)) (hk : times[k]? = some x) (since : T) :
    times.countP (fun y => decide (since < y)) + k < times.length ↔ x ≤ since := by
  obtain ⟨hlt, rfl⟩ := List.getElem?_eq_some_iff.mp hk
  have hsplit : times.countP (fun y => decide (since < y))
      = (times.take k).countP (fun y => decide (since < y)) + (times.drop k).countP (fun y => decide (since < y)) := by
    rw [← List.countP_append, List.take_append_drop]
  have hdrop : times.drop k = times[k] :: times.drop (k + 1) := List.drop_eq_getElem_cons hlt
  obtain ⟨-, hright, hcross⟩ := List.pairwise_append.mp ((List.take_append_drop k times).symm ▸ hsorted)
  constructor
  · -- were the `k`-th after `since`, all from it on would be
    intro hcount
    by_contra hnot
    have hall : ∀ y ∈ times.drop k, decide (since < y) = true := by
      intro y hy
      refine decide_eq_true ((not_le.mp hnot).trans_le ?_)
      rw [hdrop] at hy hright
      rcases List.mem_cons.mp hy with rfl | hy
      · exact le_refl _
      · exact List.rel_of_pairwise_cons hright hy
    have hfull := List.countP_eq_length.mpr hall
    rw [List.length_drop] at hfull
    omega
  · intro hle
    have hnone : (times.take k).countP (fun y => decide (since < y)) = 0 := by
      refine List.countP_eq_zero.mpr fun y hy hc => ?_
      have hyx : y ≤ times[k] := hcross y hy _ (hdrop ▸ List.mem_cons_self)
      exact not_lt.mpr (hyx.trans hle) (of_decide_eq_true hc)
    have hfirst : (times.drop k).countP (fun y => decide (since < y)) ≤ (times.drop (k + 1)).length := by
      rw [hdrop, List.countP_cons, if_neg (by simpa using hle)]
      exact List.countP_le_length
    rw [List.length_drop] at hfirst
    omega

/-- **Leaving.** A list has all but `k + 1` of its items at most after `since` exactly when the `k`-th oldest is
    not after it. -/
theorem countAfter_add_lt_iff {planned : ι → T} {xs : List ι}
    (hk : ((xs.map planned).insertionSort (· ≤ ·))[k]? = some x) (since : T) :
    countAfter planned since xs + k < xs.length ↔ x ≤ since := by
  have hperm := List.perm_insertionSort (· ≤ ·) (xs.map planned)
  have hcount : ((xs.map planned).insertionSort (· ≤ ·)).countP (fun y => decide (since < y))
      = countAfter planned since xs := by
    rw [hperm.countP_eq, List.countP_map]
    rfl
  have hlen : ((xs.map planned).insertionSort (· ≤ ·)).length = xs.length := by
    rw [hperm.length_eq, List.length_map]
  rw [← hcount, ← hlen]
  exact countP_add_lt_iff (List.pairwise_insertionSort (· ≤ ·) _) hk since

end Leaving

/-! ## Admission -/

section Admitted

variable [AddCommGroup T] [LinearOrder T] {made planned : ι → T} {width : T} {limit : Nat}
  {xs ys : List ι}

/-- Every item passed its check against the items admitted before it and still kept. -/
def Admitted (made planned : ι → T) (width : T) (limit : Nat) : List ι → Prop
  | []      => True
  | x :: xs => Admitted made planned width limit xs ∧ made x ≤ planned x ∧
      countAfter planned (made x - width) (x :: xs) ≤ limit

/-- Dropping items keeps the checks passed. -/
theorem Admitted.sublist (h : xs.Sublist ys) :
    Admitted made planned width limit ys → Admitted made planned width limit xs := by
  induction h with
  | slnil => exact id
  | cons y _ ih => exact fun hys => ih hys.1
  | cons_cons y hsub ih =>
      rintro ⟨hys, hle, hcount⟩
      exact ⟨ih hys, hle, (countAfter_le_of_sublist (hsub.cons_cons y)).trans hcount⟩

/-- The checks depend only on the admission times of the items kept. -/
theorem Admitted.congr {made' : ι → T} (hmade : ∀ x ∈ xs, made' x = made x) :
    Admitted made planned width limit xs → Admitted made' planned width limit xs := by
  induction xs with
  | nil => exact id
  | cons x xs ih =>
      rintro ⟨hxs, hle, hcount⟩
      have hx : made' x = made x := hmade x (by simp)
      refine ⟨ih (fun y hy => hmade y (by simp [hy])) hxs, ?_, ?_⟩
      · rw [hx]; exact hle
      · rw [hx]; exact hcount

/-- **Admission.** Items made at one moment fit together: if the kept items planned after
    `now - width` and the new ones are at most `limit`, all the new ones may be added. -/
theorem Admitted.append {new : List ι} (now : T)
    (hnew : ∀ x ∈ new, made x = now ∧ now ≤ planned x)
    (h : Admitted made planned width limit xs)
    (hroom : countAfter planned (now - width) xs + new.length ≤ limit) :
    Admitted made planned width limit (new ++ xs) := by
  induction new with
  | nil => exact h
  | cons x new ih =>
      have hx := hnew x (by simp)
      have hlen : (x :: new).length = new.length + 1 := rfl
      refine ⟨ih (fun y hy => hnew y (by simp [hy])) (by omega), ?_, ?_⟩
      · rw [hx.1]; exact hx.2
      · rw [hx.1]
        refine (countAfter_append_le (x :: new) xs).trans ?_
        omega

variable [IsOrderedAddMonoid T]

/-- An item planned in a window counted, when it was checked, every item of that window. -/
theorem countIn_le_countAfter {x : ι} {t : T} (hmade : made x ≤ planned x) (ht : planned x ≤ t) :
    countIn planned (t - width) t xs ≤ countAfter planned (made x - width) xs := by
  unfold countIn countAfter
  refine List.countP_mono_left fun y _ hy => ?_
  simp only [Bool.and_eq_true, decide_eq_true_eq] at hy ⊢
  exact lt_of_le_of_lt (sub_le_sub_right (hmade.trans ht) width) hy.1

/-- **Sliding-window bound.** Whatever `t` is, at most `limit` admitted items are planned in
    `(t - width, t]`. -/
theorem Admitted.window (h : Admitted made planned width limit xs) (t : T) :
    countIn planned (t - width) t xs ≤ limit := by
  induction xs with
  | nil => exact Nat.zero_le _
  | cons x xs ih =>
      obtain ⟨hxs, hmade, hcount⟩ := h
      by_cases hx : t - width < planned x ∧ planned x ≤ t
      · -- `x` is the item of the window admitted last
        exact (countIn_le_countAfter hmade hx.2).trans hcount
      · rw [countIn_cons_of_not hx]
        exact ih hxs

end Admitted

end Lib.SlidingWindow
