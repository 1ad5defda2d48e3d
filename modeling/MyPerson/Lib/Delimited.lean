import Mathlib.Data.List.Infix

/-!
# `Lib.Delimited` — cut a list at the first occurrence of a delimiter

`cut d s` splits `s` around the first place where `d` stands. The lemmas say when that place is the one where a
writer put the delimiter: nothing of what stands before may begin a delimiter there. Two cases suffice for text
formats: the first item of the delimiter does not occur before (`cut_of_not_mem`), or it occurs only as the
first item of the delimiter and the rest of the delimiter is not part of what stands before (`cut_of_infix_free`).
-/

namespace Lib

variable {α : Type*} [DecidableEq α]

/-- What stands before the first occurrence of `d`, and after it. -/
def cut (d : List α) : List α → Option (List α × List α)
  | [] => if d = [] then some ([], []) else none
  | x :: s =>
      if d <+: x :: s then some ([], (x :: s).drop d.length)
      else (cut d s).map fun p => (x :: p.1, p.2)

variable {d s a b : List α} {x : α}

theorem cut_some (h : cut d s = some (a, b)) : s = a ++ d ++ b := by
  induction s generalizing a b with
  | nil =>
      unfold cut at h
      obtain ⟨hd, heq⟩ := Option.ite_none_right_eq_some.mp h
      obtain ⟨rfl, rfl⟩ := Prod.mk.inj (Option.some.inj heq)
      rw [hd]
      rfl
  | cons x s ih =>
      unfold cut at h
      split at h
      · rename_i hstart
        obtain ⟨rfl, rfl⟩ := Prod.mk.inj (Option.some.inj h)
        obtain ⟨rest, hrest⟩ := hstart
        rw [← hrest, List.drop_left, List.nil_append]
      · obtain ⟨⟨a', b'⟩, hcut, heq⟩ := Option.map_eq_some_iff.mp h
        obtain ⟨rfl, rfl⟩ := Prod.mk.inj heq
        rw [ih hcut]
        rfl

/-- The cut is at the first occurrence. -/
theorem cut_first (h : cut d s = some (a, b)) {u v : List α} (hs : s = u ++ d ++ v) : a.length ≤ u.length := by
  induction s generalizing a b u with
  | nil =>
      unfold cut at h
      obtain ⟨-, heq⟩ := Option.ite_none_right_eq_some.mp h
      obtain ⟨rfl, rfl⟩ := Prod.mk.inj (Option.some.inj heq)
      exact Nat.zero_le _
  | cons x s ih =>
      unfold cut at h
      split at h
      · obtain ⟨rfl, rfl⟩ := Prod.mk.inj (Option.some.inj h)
        exact Nat.zero_le _
      · rename_i hstart
        obtain ⟨⟨a', b'⟩, hcut, heq⟩ := Option.map_eq_some_iff.mp h
        obtain ⟨rfl, rfl⟩ := Prod.mk.inj heq
        cases u with
        | nil => exact absurd ⟨v, hs.symm⟩ hstart
        | cons y u =>
            obtain ⟨-, hs'⟩ := List.cons.inj hs
            exact Nat.succ_le_succ (ih hcut hs')

theorem cut_at_start (hd : d ≠ []) : cut d (d ++ b) = some ([], b) := by
  cases d with
  | nil => exact absurd rfl hd
  | cons x d =>
      rw [List.cons_append]
      unfold cut
      rw [if_pos ⟨b, rfl⟩, ← List.cons_append, List.drop_left]

theorem cut_cons (h : ¬ d <+: x :: s) : cut d (x :: s) = (cut d s).map fun p => (x :: p.1, p.2) := if_neg h

/-- What begins no delimiter is passed over. -/
theorem cut_skip (h : ∀ u y v, a = u ++ y :: v → ¬ d <+: y :: v ++ s) :
    cut d (a ++ s) = (cut d s).map fun p => (a ++ p.1, p.2) := by
  induction a with
  | nil =>
      show cut d s = _
      cases cut d s <;> rfl
  | cons y a ih =>
      have hfirst : ¬ d <+: y :: (a ++ s) := h [] y a rfl
      rw [List.cons_append, cut_cons hfirst, ih fun u z v hv => h (y :: u) z v (hv ▸ rfl), Option.map_map]
      rfl

/-- A stretch without the first item of the delimiter. -/
theorem cut_skip_of_not_mem (hx : x ∉ a) : cut (x :: d) (a ++ s) = (cut (x :: d) s).map fun p => (a ++ p.1, p.2) := by
  refine cut_skip fun u y v ha hstart => hx ?_
  obtain ⟨hxy, -⟩ := List.cons_prefix_cons.mp hstart
  rw [ha, hxy]
  exact List.mem_append_right _ List.mem_cons_self

theorem cut_of_not_mem (hx : x ∉ a) : cut (x :: d) (a ++ (x :: d ++ b)) = some (a, b) := by
  rw [cut_skip_of_not_mem hx, cut_at_start (List.cons_ne_nil x d), Option.map_some, List.append_nil]

omit [DecidableEq α] in
/-- What runs over the end of `a` meets the item there. -/
theorem infix_of_prefix_append (hx : x ∉ d) (h : d <+: a ++ x :: s) : d <+: a := by
  rcases Nat.le_total d.length a.length with hle | hle
  · exact List.prefix_of_prefix_length_le h (List.prefix_append a _) hle
  · obtain ⟨w, hw⟩ : a <+: d := List.prefix_of_prefix_length_le (List.prefix_append a _) h hle
    cases w with
    | nil =>
        rw [List.append_nil] at hw
        rw [hw]
    | cons y w =>
        rw [← hw, List.prefix_append_right_inj] at h
        obtain ⟨rfl, -⟩ := List.cons_prefix_cons.mp h
        exact absurd (hw ▸ List.mem_append_right _ List.mem_cons_self) hx

/-- **Cut.** A delimiter whose first item stands nowhere else in it is found behind any text that does not contain
    the rest of it. -/
theorem cut_of_infix_free (hx : x ∉ d) (hnot : ¬ d <:+: a) : cut (x :: d) (a ++ (x :: d ++ b)) = some (a, b) := by
  rw [cut_skip ?_, cut_at_start (List.cons_ne_nil x d), Option.map_some, List.append_nil]
  intro u y v ha hstart
  obtain ⟨-, hrest⟩ := List.cons_prefix_cons.mp hstart
  obtain ⟨w, hw⟩ := infix_of_prefix_append hx hrest
  exact hnot ⟨u ++ [y], w, by rw [ha, ← hw]; simp⟩

/-- A cut of a prefix is no later than any place where the delimiter stands in the whole. -/
theorem cut_le_of_prefix {t u v : List α} (h : cut d s = some (a, b)) (hs : s <+: t) (ht : t = u ++ d ++ v) :
    a.length ≤ u.length := by
  by_contra hlt
  have hlen : (u ++ d).length ≤ s.length := by
    rw [cut_some h]
    simp only [List.length_append]
    omega
  obtain ⟨w, hw⟩ : u ++ d <+: s :=
    List.prefix_of_prefix_length_le (ht ▸ List.prefix_append (u ++ d) v) hs hlen
  exact hlt (cut_first h hw.symm)

omit [DecidableEq α] in
/-- Where `x` does not stand, nothing begins with it. -/
theorem infix_after {u v : List α} (hx : x ∉ u) (h : x :: d <:+: u ++ x :: v) : d <+: v ∨ x :: d <:+: v := by
  obtain ⟨p, q, hpq⟩ := h
  rw [List.append_assoc] at hpq
  induction u generalizing p with
  | nil =>
      cases p with
      | nil => exact Or.inl ⟨q, (List.cons.inj hpq).2⟩
      | cons y p => exact Or.inr ⟨p, q, by rw [List.append_assoc]; exact (List.cons.inj hpq).2⟩
  | cons y u ih =>
      cases p with
      | nil => exact absurd (List.mem_cons.mpr (Or.inl (List.cons.inj hpq).1)) hx
      | cons z p => exact ih (fun hmem => hx (List.mem_cons_of_mem _ hmem)) p (List.cons.inj hpq).2

end Lib
