import Mathlib.Data.List.Sort
import Mathlib.Data.List.Perm.Basic

/-!
# `Lib.Timeline` — a growing history and its pages

A history lists items by time. Readers fetch pages of it: the oldest ones from a time on, or the newest
ones up to a time. A page is `Convex`: it has no holes, whatever lies between two of its items is in it.

## Contents
- `Ascending`, and equality of items of one time;
- `oldestFrom`, `newestUpTo` and what a page says about the rest of the history;
- `Convex` and the operations that keep it: pages, filters by time, sorting and cutting;
- `readDown`, `readUp`: page after page, which together are one page (`readDown_spec`, `readUp_spec`).
-/

namespace Lib

section

variable {α : Type*} (time : α → Int)

/-- Each item is later than the ones before it. -/
def Ascending (h : List α) : Prop := h.Pairwise fun a b => time a < time b

/-- The `n` oldest items from time `t` on. -/
def oldestFrom (h : List α) (t : Int) (n : Nat) : List α := (h.filter fun a => t ≤ time a).take n

/-- The items up to a time, all of them without one. -/
def upTo (h : List α) (t : Option Int) : List α := h.filter fun a => t.all fun t => time a ≤ t

/-- The `n` newest items up to a time. -/
def newestUpTo (h : List α) (t : Option Int) (n : Nat) : List α :=
  (upTo time h t).drop ((upTo time h t).length - n)

/-- Items sorted by time, oldest first. -/
def sortByTime (l : List α) : List α := l.insertionSort fun a b => time a ≤ time b

/-- Items sorted by time, newest first. -/
def sortByTimeDesc (l : List α) : List α := l.insertionSort fun a b => time b ≤ time a

/-- The items are from the history, and whatever lies between two of them is one of them. -/
structure Convex (h l : List α) : Prop where
  subset : l ⊆ h
  between : ∀ y ∈ l, ∀ z ∈ l, ∀ m ∈ h, time y ≤ time m → time m ≤ time z → m ∈ l

variable {time} {h l : List α} {a b m x : α} {t : Int} {n : Nat}

/-! ## Order -/

theorem Ascending.lt_of_append {l₁ l₂ : List α} (hasc : Ascending time (l₁ ++ l₂)) (ha : a ∈ l₁)
    (hb : b ∈ l₂) : time a < time b := (List.pairwise_append.mp hasc).2.2 a ha b hb

theorem Ascending.head_le (hasc : Ascending time (a :: l)) (hm : m ∈ a :: l) : time a ≤ time m := by
  rcases List.mem_cons.mp hm with rfl | hm
  · exact Int.le_refl _
  · exact Int.le_of_lt ((List.pairwise_cons.mp hasc).1 m hm)

/-- An item is its time. -/
theorem Ascending.eq_of_time (hasc : Ascending time h) (ha : a ∈ h) (hb : b ∈ h) (heq : time a = time b) :
    a = b := by
  induction h with
  | nil => cases ha
  | cons c h ih =>
      obtain ⟨hc, hrest⟩ := List.pairwise_cons.mp hasc
      rcases List.mem_cons.mp ha with hac | hah <;> rcases List.mem_cons.mp hb with hbc | hbh
      · rw [hac, hbc]
      · have hlt := hc b hbh
        rw [hac] at heq
        omega
      · have hlt := hc a hah
        rw [hbc] at heq
        omega
      · exact ih hrest hah hbh

/-- Two ascending numberings of a history order it alike. -/
theorem Ascending.lt_of_lt {number : α → Int} (hasc : Ascending time h) (hnum : Ascending number h) (ha : a ∈ h)
    (hb : b ∈ h) (hlt : time a < time b) : number a < number b := by
  induction h with
  | nil => cases ha
  | cons c h ih =>
      obtain ⟨hc, hrest⟩ := List.pairwise_cons.mp hasc
      obtain ⟨hc', hrest'⟩ := List.pairwise_cons.mp hnum
      rcases List.mem_cons.mp ha with hac | hah <;> rcases List.mem_cons.mp hb with hbc | hbh
      · rw [hac, hbc] at hlt
        exact absurd hlt (Int.lt_irrefl _)
      · rw [hac]
        exact hc' b hbh
      · have hback := hc a hah
        rw [hbc] at hlt
        omega
      · exact ih hrest hrest' hah hbh

theorem Ascending.snoc (hasc : Ascending time h) (hlater : ∀ b ∈ h, time b < time a) :
    Ascending time (h ++ [a]) := by
  refine List.pairwise_append.mpr ⟨hasc, List.pairwise_singleton .., fun b hb a' ha' => ?_⟩
  rw [List.mem_singleton.mp ha']
  exact hlater b hb

theorem Ascending.filter (hasc : Ascending time h) (p : α → Bool) : Ascending time (h.filter p) :=
  hasc.sublist List.filter_sublist

/-- What comes first up to an item's time comes with it. -/
theorem Ascending.mem_take (hasc : Ascending time l) (hx : x ∈ l.take n) (hm : m ∈ l)
    (hle : time m ≤ time x) : m ∈ l.take n := by
  have hsplit : Ascending time (l.take n ++ l.drop n) := by rwa [List.take_append_drop]
  have hmem : m ∈ l.take n ++ l.drop n := by rwa [List.take_append_drop]
  rcases List.mem_append.mp hmem with hin | hout
  · exact hin
  · exact absurd (hsplit.lt_of_append hx hout) (by omega)

theorem Ascending.mem_drop (hasc : Ascending time l) (hx : x ∈ l.drop n) (hm : m ∈ l)
    (hle : time x ≤ time m) : m ∈ l.drop n := by
  have hsplit : Ascending time (l.take n ++ l.drop n) := by rwa [List.take_append_drop]
  have hmem : m ∈ l.take n ++ l.drop n := by rwa [List.take_append_drop]
  rcases List.mem_append.mp hmem with hout | hin
  · exact absurd (hsplit.lt_of_append hout hx) (by omega)
  · exact hin

/-! ## Pages of the oldest items -/

theorem mem_oldestFrom_le (hm : m ∈ oldestFrom time h t n) : m ∈ h ∧ t ≤ time m := by
  have hfilter : m ∈ h.filter fun a => t ≤ time a := List.mem_of_mem_take hm
  simpa using hfilter

/-- A page holds everything from its start up to each of its items. -/
theorem mem_oldestFrom (hasc : Ascending time h) (hx : x ∈ oldestFrom time h t n) (hm : m ∈ h)
    (ht : t ≤ time m) (hle : time m ≤ time x) : m ∈ oldestFrom time h t n :=
  (hasc.filter _).mem_take hx (by simpa using ⟨hm, ht⟩) hle

/-- **Tail.** A page of two or more items that shows nothing later than its start has reached the end. -/
theorem tail_of_oldestFrom (hasc : Ascending time h) (hn : 2 ≤ n)
    (hnone : ∀ m ∈ oldestFrom time h t n, time m ≤ t) (hm : m ∈ h) : time m ≤ t := by
  by_contra hlater
  have hmem : m ∈ h.filter fun a => t ≤ time a := by
    simp only [List.mem_filter, decide_eq_true_eq]
    exact ⟨hm, by omega⟩
  have hfrom : ∀ a ∈ h.filter fun a => t ≤ time a, t ≤ time a := fun a ha => by
    simpa using (List.mem_filter.mp ha).2
  have hascf : Ascending time (h.filter fun a => t ≤ time a) := hasc.filter _
  unfold oldestFrom at hnone
  obtain ⟨k, rfl⟩ : ∃ k, n = k + 2 := ⟨n - 2, by omega⟩
  cases hl : h.filter fun a => t ≤ time a with
  | nil =>
      rw [hl] at hmem
      cases hmem
  | cons a rest =>
      rw [hl] at hmem hfrom hascf hnone
      cases rest with
      | nil =>
          have hle := hnone m (by simpa using hmem)
          omega
      | cons b rest =>
          -- the second item of the page is later than the first, hence than the start
          have hb := hnone b (by simp)
          have ha := hfrom a (by simp)
          have hab : time a < time b := (List.pairwise_cons.mp hascf).1 b (by simp)
          omega

/-! ## Pages of the newest items -/

theorem mem_upTo {u : Option Int} : m ∈ upTo time h u ↔ m ∈ h ∧ ∀ t, u = some t → time m ≤ t := by
  unfold upTo
  cases u <;> simp

/-- A page of the newest items holds everything from each of its items on. -/
theorem mem_newestUpTo (hasc : Ascending time h) {u : Option Int} (hx : x ∈ newestUpTo time h u n)
    (hm : m ∈ upTo time h u) (hle : time x ≤ time m) : m ∈ newestUpTo time h u n :=
  (hasc.filter _).mem_drop hx hm hle

theorem newestUpTo_subset {u : Option Int} : newestUpTo time h u n ⊆ upTo time h u :=
  fun _ hm => List.mem_of_mem_drop hm

/-- The newest item of all is on each page that is not empty. -/
theorem getLast?_mem_newestUpTo (hn : 0 < n) (hlast : h.getLast? = some x) :
    x ∈ newestUpTo time h none n := by
  have hall : upTo time h none = h := by simp [upTo]
  unfold newestUpTo
  rw [hall]
  obtain ⟨init, rfl⟩ : ∃ init, h = init ++ [x] := by
    obtain ⟨ys, hys⟩ := List.getLast?_eq_some_iff.mp hlast
    exact ⟨ys, hys⟩
  have hcut : (init ++ [x]).length - n ≤ init.length := by
    simp only [List.length_append, List.length_singleton]
    omega
  rw [List.drop_append_of_le_length hcut]
  exact List.mem_append_right _ (List.mem_singleton_self x)

/-! ## Convex pages -/

theorem convex_newestUpTo (hasc : Ascending time h) (u : Option Int) (n : Nat) :
    Convex time h (newestUpTo time h u n) := by
  constructor
  · exact fun m hm => (mem_upTo.mp (newestUpTo_subset hm)).1
  · intro y hy z hz m hm hym hmz
    refine mem_newestUpTo hasc hy (mem_upTo.mpr ⟨hm, fun t ht => ?_⟩) hym
    have hzt := (mem_upTo.mp (newestUpTo_subset hz)).2 t ht
    omega

theorem Convex.perm {l' : List α} (hconv : Convex time h l) (hperm : l'.Perm l) : Convex time h l' := by
  constructor
  · exact fun m hm => hconv.subset (hperm.mem_iff.mp hm)
  · intro y hy z hz m hm hym hmz
    exact hperm.mem_iff.mpr (hconv.between y (hperm.mem_iff.mp hy) z (hperm.mem_iff.mp hz) m hm hym hmz)

/-- Cutting off a range of times leaves no hole. -/
theorem Convex.filter {p : α → Bool} (hconv : Convex time h l)
    (hp : ∀ y z m, p y = true → p z = true → time y ≤ time m → time m ≤ time z → p m = true) :
    Convex time h (l.filter p) := by
  constructor
  · exact fun m hm => hconv.subset (List.mem_filter.mp hm).1
  · intro y hy z hz m hm hym hmz
    obtain ⟨hyl, hyp⟩ := List.mem_filter.mp hy
    obtain ⟨hzl, hzp⟩ := List.mem_filter.mp hz
    exact List.mem_filter.mpr ⟨hconv.between y hyl z hzl m hm hym hmz, hp y z m hyp hzp hym hmz⟩

/-- The newest items of a page without holes have none. -/
theorem Convex.take (hasc : Ascending time h) (hconv : Convex time h l)
    (hdesc : l.Pairwise fun a b => time b ≤ time a) (n : Nat) : Convex time h (l.take n) := by
  constructor
  · exact fun m hm => hconv.subset (List.mem_of_mem_take hm)
  · intro y hy z hz m hm hym hmz
    have hml := hconv.between y (List.mem_of_mem_take hy) z (List.mem_of_mem_take hz) m hm hym hmz
    have hsplit : (l.take n ++ l.drop n).Pairwise fun a b => time b ≤ time a := by
      rwa [List.take_append_drop]
    have hmem : m ∈ l.take n ++ l.drop n := by rwa [List.take_append_drop]
    rcases List.mem_append.mp hmem with hin | hout
    · exact hin
    · have hmy := (List.pairwise_append.mp hsplit).2.2 y hy m hout
      have heq : y = m := hasc.eq_of_time (hconv.subset (List.mem_of_mem_take hy)) hm (by omega)
      exact heq ▸ hy

/-- A history that grows at its end leaves old pages without holes. -/
theorem Convex.append {new : List α} (hasc : Ascending time (h ++ new)) (hconv : Convex time h l) :
    Convex time (h ++ new) l := by
  constructor
  · exact fun m hm => List.mem_append_left _ (hconv.subset hm)
  · intro y hy z hz m hm hym hmz
    rcases List.mem_append.mp hm with hold | hnew
    · exact hconv.between y hy z hz m hold hym hmz
    · exact absurd (hasc.lt_of_append (hconv.subset hz) hnew) (by omega)

/-! ## Sorting -/

theorem sortByTime_perm (l : List α) : (sortByTime time l).Perm l := List.perm_insertionSort _ l

theorem sortByTimeDesc_perm (l : List α) : (sortByTimeDesc time l).Perm l := List.perm_insertionSort _ l

theorem sortByTime_sorted (l : List α) : (sortByTime time l).Pairwise fun a b => time a ≤ time b :=
  haveI : Std.Total fun a b : α => time a ≤ time b := ⟨fun a b => by omega⟩
  haveI : IsTrans α fun a b : α => time a ≤ time b := ⟨fun a b c => by omega⟩
  List.pairwise_insertionSort _ l

theorem sortByTimeDesc_sorted (l : List α) : (sortByTimeDesc time l).Pairwise fun a b => time b ≤ time a :=
  haveI : Std.Total fun a b : α => time b ≤ time a := ⟨fun a b => by omega⟩
  haveI : IsTrans α fun a b : α => time b ≤ time a := ⟨fun a b c => by omega⟩
  List.pairwise_insertionSort _ l

/-- What comes first in a sorted page up to an item's time comes with it. -/
theorem mem_take_sorted (hasc : Ascending time h) (hsub : l ⊆ h)
    (hsorted : l.Pairwise fun a b => time a ≤ time b) (hx : x ∈ l.take n) (hm : m ∈ l)
    (hle : time m ≤ time x) : m ∈ l.take n := by
  have hsplit : (l.take n ++ l.drop n).Pairwise fun a b => time a ≤ time b := by
    rwa [List.take_append_drop]
  have hmem : m ∈ l.take n ++ l.drop n := by rwa [List.take_append_drop]
  rcases List.mem_append.mp hmem with hin | hout
  · exact hin
  · have hxm := (List.pairwise_append.mp hsplit).2.2 x hx m hout
    have heq : x = m := hasc.eq_of_time (hsub (List.mem_of_mem_take hx)) (hsub hm) (by omega)
    exact heq ▸ hx

/-- What is earlier than an item at the front of a sorted list is at the front too. -/
theorem mem_take_of_lt (hsorted : l.Pairwise fun a b => time a ≤ time b) (hx : x ∈ l.take n) (hm : m ∈ l)
    (hlt : time m < time x) : m ∈ l.take n := by
  have hsplit : (l.take n ++ l.drop n).Pairwise fun a b => time a ≤ time b := by
    rwa [List.take_append_drop]
  have hmem : m ∈ l.take n ++ l.drop n := by rwa [List.take_append_drop]
  rcases List.mem_append.mp hmem with hin | hout
  · exact hin
  · exact absurd ((List.pairwise_append.mp hsplit).2.2 x hx m hout) (by omega)

theorem mem_drop_of_lt (hsorted : l.Pairwise fun a b => time a ≤ time b) (hx : x ∈ l.drop n) (hm : m ∈ l)
    (hlt : time x < time m) : m ∈ l.drop n := by
  have hsplit : (l.take n ++ l.drop n).Pairwise fun a b => time a ≤ time b := by
    rwa [List.take_append_drop]
  have hmem : m ∈ l.take n ++ l.drop n := by rwa [List.take_append_drop]
  rcases List.mem_append.mp hmem with hout | hin
  · exact absurd ((List.pairwise_append.mp hsplit).2.2 m hout x hx) (by omega)
  · exact hin

/-- A page of the newest items of a history with equal times holds what is later than one of its items. -/
theorem mem_newestUpTo_of_lt (hsorted : h.Pairwise fun a b => time a ≤ time b) {u : Option Int}
    (hx : x ∈ newestUpTo time h u n) (hm : m ∈ upTo time h u) (hlt : time x < time m) :
    m ∈ newestUpTo time h u n :=
  mem_drop_of_lt (hsorted.sublist List.filter_sublist) hx hm hlt

/-- The last item of a sorted list is the latest. -/
theorem le_of_getLast? (hsorted : l.Pairwise fun a b => time a ≤ time b) (hx : l.getLast? = some x)
    (hm : m ∈ l) : time m ≤ time x := by
  obtain ⟨init, rfl⟩ := List.getLast?_eq_some_iff.mp hx
  rcases List.mem_append.mp hm with hin | hlast
  · exact (List.pairwise_append.mp hsorted).2.2 m hin x (List.mem_singleton_self x)
  · rw [List.mem_singleton.mp hlast]

/-! ## Page after page -/

/-- Pages of at most `size` items, each below the one before, until `remaining` items are read or a page is
    empty; and whether one was. -/
def readDown (time : α → Int) (h : List α) (size : Nat) : Nat → Nat → Option Int → List (List α) × Bool
  | 0, _, _ => ([], false)
  | fuel + 1, remaining, u =>
      if remaining = 0 then ([], false)
      else
        let page := newestUpTo time h u (min size remaining)
        match page.head? with
        | none => ([], true)
        | some oldest =>
            let rest := readDown time h size fuel (remaining - page.length) (some (time oldest - 1))
            (page :: rest.1, rest.2)

/-- Pages of at most `size` items, each above the one before. -/
def readUp (time : α → Int) (h : List α) (size : Nat) : Nat → Nat → Int → List (List α)
  | 0, _, _ => []
  | fuel + 1, remaining, t =>
      if remaining = 0 then []
      else
        let page := oldestFrom time h t (min size remaining)
        match page.getLast? with
        | none => []
        | some newest => page :: readUp time h size fuel (remaining - page.length) (time newest + 1)

/-- Below the oldest item of a page is what the page left. -/
theorem upTo_before (hasc : Ascending time h) {u : Option Int} (hx : (newestUpTo time h u n).head? = some x) :
    upTo time h (some (time x - 1)) = (upTo time h u).take ((upTo time h u).length - n) := by
  have hascL : Ascending time (upTo time h u) := hasc.filter _
  obtain ⟨rest, hrest⟩ : ∃ rest, newestUpTo time h u n = x :: rest := by
    cases hpage : newestUpTo time h u n with
    | nil =>
        rw [hpage] at hx
        cases hx
    | cons a rest =>
        rw [hpage] at hx
        cases hx
        exact ⟨rest, rfl⟩
  have hsplit : upTo time h u = (upTo time h u).take ((upTo time h u).length - n) ++ x :: rest := by
    rw [← hrest, newestUpTo, List.take_append_drop]
  have hxmem : x ∈ upTo time h u := by
    rw [hsplit]
    exact List.mem_append_right _ (List.mem_cons_self ..)
  have hbelow : upTo time h (some (time x - 1)) = (upTo time h u).filter fun a => time a ≤ time x - 1 := by
    unfold upTo
    rw [List.filter_filter]
    apply List.filter_congr
    intro a _
    have hu := (mem_upTo.mp hxmem).2
    cases u with
    | none => simp
    | some t =>
        have hxt := hu t rfl
        simp only [Option.all_some]
        by_cases hle : time a ≤ time x - 1
        · simp [hle, show time a ≤ t by omega]
        · simp [hle]
  rw [hbelow]
  conv_lhs => rw [hsplit]
  rw [List.filter_append]
  rw [hsplit] at hascL
  have hkeep : ((upTo time h u).take ((upTo time h u).length - n)).filter (fun a => time a ≤ time x - 1)
      = (upTo time h u).take ((upTo time h u).length - n) := by
    rw [List.filter_eq_self]
    intro a ha
    have hlt := hascL.lt_of_append ha (List.mem_cons_self ..)
    simpa using by omega
  have hdrop : (x :: rest).filter (fun a => time a ≤ time x - 1) = [] := by
    rw [List.filter_eq_nil_iff]
    intro a ha
    have hasc' : Ascending time (x :: rest) := (List.pairwise_append.mp hascL).2.1
    have hle := hasc'.head_le ha
    simpa using by omega
  rw [hkeep, hdrop, List.append_nil]

/-- A page and the page below it are one page. -/
theorem drop_take_append_drop (l : List α) {i k : Nat} (hi : i ≤ k) (hk : k ≤ l.length) :
    (l.take k).drop i ++ l.drop k = l.drop i := by
  conv_rhs => rw [← List.take_append_drop k l]
  rw [List.drop_append_of_le_length (by rw [List.length_take]; omega)]

/-- **Pages downwards are one page**, and one is empty when there is less than was asked for. -/
theorem readDown_spec (hasc : Ascending time h) {size : Nat} (hsize : 0 < size) (fuel : Nat) :
    ∀ (remaining : Nat) (u : Option Int), remaining ≤ fuel →
      (readDown time h size fuel remaining u).1.reverse.flatten = newestUpTo time h u remaining ∧
        ((readDown time h size fuel remaining u).2 = true ↔ (upTo time h u).length < remaining) := by
  induction fuel with
  | zero =>
      intro remaining u hfuel
      have hzero : remaining = 0 := by omega
      subst hzero
      simp [readDown, newestUpTo]
  | succ fuel ih =>
      intro remaining u hfuel
      unfold readDown
      by_cases hzero : remaining = 0
      · subst hzero
        simp [newestUpTo]
      · rw [if_neg hzero]
        have hmin : 0 < min size remaining := by omega
        cases hpage : (newestUpTo time h u (min size remaining)).head? with
        | none =>
            -- an empty page: nothing is left
            have hnil : (upTo time h u).drop ((upTo time h u).length - min size remaining) = [] :=
              List.head?_eq_none_iff.mp hpage
            have hlen : (upTo time h u).length = 0 := by
              have := List.drop_eq_nil_iff.mp hnil
              omega
            have hempty := List.length_eq_zero_iff.mp hlen
            simp only [hpage]
            refine ⟨?_, ?_⟩
            · simp [newestUpTo, hempty]
            · simp [hempty, Nat.pos_of_ne_zero hzero]
        | some oldest =>
            simp only [hpage]
            have hlenPage : (newestUpTo time h u (min size remaining)).length
                = min (upTo time h u).length (min size remaining) := by
              unfold newestUpTo
              rw [List.length_drop]
              omega
            have hnonempty : 0 < (newestUpTo time h u (min size remaining)).length := by
              rw [List.length_pos_iff]
              intro hnil
              rw [hnil] at hpage
              cases hpage
            have hbelow := upTo_before hasc hpage
            obtain ⟨hflat, hend⟩ := ih (remaining - (newestUpTo time h u (min size remaining)).length)
              (some (time oldest - 1)) (by omega)
            constructor
            · rw [List.reverse_cons, List.flatten_append, hflat]
              simp only [List.flatten_cons, List.flatten_nil, List.append_nil]
              unfold newestUpTo at hlenPage ⊢
              rw [hbelow, List.length_take, hlenPage,
                ← drop_take_append_drop (i := (upTo time h u).length - remaining)
                  (k := (upTo time h u).length - min size remaining) _ (by omega) (by omega)]
              congr 2
              omega
            · rw [hend, hbelow, List.length_take]
              omega

/-- Above the newest item of a page is what the page left. -/
theorem from_after (hasc : Ascending time h) (hx : (oldestFrom time h t n).getLast? = some x) :
    (h.filter fun a => time x + 1 ≤ time a) = (h.filter fun a => t ≤ time a).drop n := by
  have hascF : Ascending time (h.filter fun a => t ≤ time a) := hasc.filter _
  obtain ⟨init, hinit⟩ := List.getLast?_eq_some_iff.mp hx
  have hsplit : (h.filter fun a => t ≤ time a)
      = (init ++ [x]) ++ (h.filter fun a => t ≤ time a).drop n := by
    rw [← hinit, oldestFrom, List.take_append_drop]
  have hxt : t ≤ time x := (mem_oldestFrom_le (hinit ▸ List.mem_append_right _ (List.mem_singleton_self x))).2
  have habove : (h.filter fun a => time x + 1 ≤ time a)
      = (h.filter fun a => t ≤ time a).filter fun a => time x + 1 ≤ time a := by
    rw [List.filter_filter]
    apply List.filter_congr
    intro a _
    by_cases hle : time x + 1 ≤ time a
    · simp [hle, show t ≤ time a by omega]
    · simp [hle]
  rw [habove]
  conv_lhs => rw [hsplit]
  rw [hsplit] at hascF
  rw [List.filter_append]
  have hdrop : (init ++ [x]).filter (fun a => time x + 1 ≤ time a) = [] := by
    rw [List.filter_eq_nil_iff]
    intro a ha
    have hle : time a ≤ time x := by
      rcases List.mem_append.mp ha with hin | hlast
      · exact Int.le_of_lt (Ascending.lt_of_append (List.pairwise_append.mp hascF).1 hin
          (List.mem_singleton_self x))
      · rw [List.mem_singleton.mp hlast]
    simpa using by omega
  have hkeep : ((h.filter fun a => t ≤ time a).drop n).filter (fun a => time x + 1 ≤ time a)
      = (h.filter fun a => t ≤ time a).drop n := by
    rw [List.filter_eq_self]
    intro a ha
    have hlt := hascF.lt_of_append (List.mem_append_right init (List.mem_singleton_self x)) ha
    simpa using by omega
  rw [hdrop, hkeep, List.nil_append]

/-- **Pages upwards are one page.** -/
theorem readUp_spec (hasc : Ascending time h) {size : Nat} (hsize : 0 < size) (fuel : Nat) :
    ∀ (remaining : Nat) (t : Int), remaining ≤ fuel →
      (readUp time h size fuel remaining t).flatten = oldestFrom time h t remaining := by
  induction fuel with
  | zero =>
      intro remaining t hfuel
      have hzero : remaining = 0 := by omega
      subst hzero
      simp [readUp, oldestFrom]
  | succ fuel ih =>
      intro remaining t hfuel
      unfold readUp
      by_cases hzero : remaining = 0
      · subst hzero
        simp [oldestFrom]
      · rw [if_neg hzero]
        have hmin : 0 < min size remaining := by omega
        cases hpage : (oldestFrom time h t (min size remaining)).getLast? with
        | none =>
            have hnil : (h.filter fun a => t ≤ time a).take (min size remaining) = [] :=
              List.getLast?_eq_none_iff.mp hpage
            have hempty : (h.filter fun a => t ≤ time a) = [] := by
              rcases List.take_eq_nil_iff.mp hnil with hz | hempty
              · omega
              · exact hempty
            simp [oldestFrom, hempty]
        | some newest =>
            have hlenPage : (oldestFrom time h t (min size remaining)).length
                = min (min size remaining) (h.filter fun a => t ≤ time a).length := List.length_take
            have hnonempty : 0 < (oldestFrom time h t (min size remaining)).length := by
              rw [List.length_pos_iff]
              intro hnil
              rw [hnil] at hpage
              cases hpage
            have hflat := ih (remaining - (oldestFrom time h t (min size remaining)).length)
              (time newest + 1) (by omega)
            simp only [hpage, List.flatten_cons]
            rw [hflat]
            unfold oldestFrom at hlenPage ⊢
            rw [from_after hasc hpage, hlenPage]
            by_cases hfull : min size remaining ≤ (h.filter fun a => t ≤ time a).length
            · -- a full page: the next one goes on from there
              have hrest : remaining = min size remaining + (remaining - min size remaining) := by omega
              rw [Nat.min_eq_left hfull]
              conv_rhs => rw [hrest, List.take_add]
            · rw [List.drop_of_length_le (by omega), List.take_nil, List.append_nil,
                List.take_of_length_le (by omega), List.take_of_length_le (by omega)]

end

end Lib
