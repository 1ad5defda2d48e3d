import MyPerson.Lib.RouteTable

/-!
# `Lib.FilledPath` — which route a filled path template leads to

A client fills texts into a template of its own and sends the path that results. What is known of a text is its class.
Which route such a path leads to is decided by looking at the two templates only, for all texts of the classes at
once: a route that lies apart is never met, one that takes the parts always is.

## Contents
- `PathPart`, `Classes`: parts of a path, and what classes of texts are known to do;
- `apartAll`, `intoAll` and `find_of_parts`, `resolve_mem_of_parts`;
- `length_of_fitsAll`, `fitsLast_of_fitsAll`: what a path that fits has in common with the template;
- `splitOn_joinPath`: a path is split where it was joined, and at the slashes of its texts.
-/

namespace Lib

/-- A segment of a path to be: a literal, or a place for a text. -/
inductive PathPart (γ : Type*)
  | lit (text : String)
  | place (cls : γ)
deriving DecidableEq, Repr

/-- The classes of texts: which texts are in one, which literals none of them is (not up to a final newline either),
    which convertors take them all. -/
structure Classes {κ : Type*} (accepts : κ → List Char → Bool) (γ : Type*) where
  holds  : γ → List Char → Prop
  never  : γ → String → Bool
  always : γ → κ → Bool
  never_sound  : ∀ c b x, never c b = true → holds c x → String.ofList x ≠ b ∧ String.ofList x ≠ b ++ "\n"
  always_sound : ∀ c k x, always c k = true → holds c x → accepts k x = true

section Matching

variable {κ ν γ : Type*} {accepts : κ → List Char → Bool} (cs : Classes accepts γ)

/-- The segment is one that the part can become. -/
def PathPart.takes : PathPart γ → List Char → Prop
  | .lit a, x => x = a.toList
  | .place c, x => cs.holds c x

/-- What the part becomes never fits the segment of the template. -/
def PathPart.apart : PathPart γ → Seg κ → Bool
  | .lit a, .lit b => a != b && a != b ++ "\n"
  | .place c, .lit b => cs.never c b
  | _, .param _ => false

/-- What the part becomes always fits the segment of the template. -/
def PathPart.into : PathPart γ → Seg κ → Bool
  | .lit a, .lit b => a == b
  | .place c, .param k => cs.always c k
  | _, _ => false

def apartAll : List (PathPart γ) → List (Seg κ) → Bool
  | [], [] => false
  | p :: ps, s :: ss => p.apart cs s || apartAll ps ss
  | _, _ => true

def intoAll : List (PathPart γ) → List (Seg κ) → Bool
  | [], [] => true
  | p :: ps, s :: ss => p.into cs s && intoAll ps ss
  | _, _ => false

variable {cs}

theorem PathPart.fitsLast_of_apart {p : PathPart γ} {s : Seg κ} {x : List Char} (h : p.apart cs s = true)
    (hx : p.takes cs x) : s.fitsLast accepts x = false := by
  cases s with
  | param k => cases p <;> cases h
  | lit b =>
      have hne : String.ofList x ≠ b ∧ String.ofList x ≠ b ++ "\n" := by
        cases p with
        | lit a =>
            obtain rfl : x = a.toList := hx
            simpa [PathPart.apart] using h
        | place c => exact cs.never_sound c b x h hx
      rw [Bool.eq_false_iff]
      intro hfits
      rcases Seg.lit_fitsLast hfits with heq | heq
      · exact hne.1 heq
      · exact hne.2 heq

theorem PathPart.fits_of_into {p : PathPart γ} {s : Seg κ} {x : List Char} (h : p.into cs s = true)
    (hx : p.takes cs x) : s.fits accepts x = true := by
  cases p with
  | lit a =>
      cases s with
      | param k => cases h
      | lit b =>
          obtain rfl : x = a.toList := hx
          simpa [PathPart.into, Seg.fits] using h
  | place c =>
      cases s with
      | lit b => cases h
      | param k => exact cs.always_sound c k x h hx

theorem fitsAll_of_apart {ps : List (PathPart γ)} {ss : List (Seg κ)} {path : List (List Char)}
    (hpath : List.Forall₂ (PathPart.takes cs) ps path) (h : apartAll cs ps ss = true) :
    fitsAll accepts ss path = false := by
  rw [Bool.eq_false_iff]
  intro hfits
  induction hpath generalizing ss with
  | nil =>
      cases ss with
      | nil => cases h
      | cons s ss => cases ss <;> cases hfits
  | cons hx hpath ih =>
      cases ss with
      | nil => cases hfits
      | cons s ss =>
          obtain ⟨y, ys, heq, hlast, hrest⟩ := fitsAll_cons hfits
          obtain ⟨rfl, rfl⟩ := List.cons.inj heq
          rcases Bool.or_eq_true_iff.mp h with hpart | hparts
          · rw [PathPart.fitsLast_of_apart hpart hx] at hlast
            cases hlast
          · exact ih hparts hrest

theorem fitsAll_cons_of {s : Seg κ} {ss : List (Seg κ)} {x : List Char} {xs : List (List Char)}
    (hx : s.fits accepts x = true) (hxs : fitsAll accepts ss xs = true) :
    fitsAll accepts (s :: ss) (x :: xs) = true := by
  cases ss with
  | nil =>
      cases xs with
      | nil => exact Seg.fitsLast_of_fits hx
      | cons y ys => cases hxs
  | cons t ts =>
      show (s.fits accepts x && fitsAll accepts (t :: ts) xs) = true
      rw [hx, hxs]
      rfl

/-- A path that fits has as many segments as the template. -/
theorem length_of_fitsAll {ss : List (Seg κ)} {xs : List (List Char)} (h : fitsAll accepts ss xs = true) :
    ss.length = xs.length := by
  induction ss generalizing xs with
  | nil =>
      cases xs with
      | nil => rfl
      | cons x xs => cases h
  | cons s ss ih =>
      obtain ⟨x, xs, rfl, -, hrest⟩ := fitsAll_cons h
      rw [List.length_cons, List.length_cons, ih hrest]

/-- Every segment of a path that fits has a segment of the template. -/
theorem fitsLast_of_fitsAll {ss : List (Seg κ)} {xs : List (List Char)} (h : fitsAll accepts ss xs = true) {i : Nat}
    {s : Seg κ} {x : List Char} (hs : ss[i]? = some s) (hx : xs[i]? = some x) : s.fitsLast accepts x = true := by
  induction ss generalizing xs i with
  | nil => cases hs
  | cons t ss ih =>
      obtain ⟨y, ys, rfl, hfits, hrest⟩ := fitsAll_cons h
      cases i with
      | zero =>
          obtain rfl := Option.some.inj hs
          obtain rfl := Option.some.inj hx
          exact hfits
      | succ i => exact ih hrest hs hx

theorem fitsAll_of_into {ps : List (PathPart γ)} {ss : List (Seg κ)} {path : List (List Char)}
    (hpath : List.Forall₂ (PathPart.takes cs) ps path) (h : intoAll cs ps ss = true) :
    fitsAll accepts ss path = true := by
  induction hpath generalizing ss with
  | nil =>
      cases ss with
      | nil => rfl
      | cons s ss => cases h
  | cons hx hpath ih =>
      cases ss with
      | nil => cases h
      | cons s ss =>
          obtain ⟨hpart, hparts⟩ := Bool.and_eq_true_iff.mp h
          exact fitsAll_cons_of (PathPart.fits_of_into hpart hx) (ih hparts)

/-- A stronger test finds the same element when it is true of it. -/
theorem find?_of_imp {α : Type*} {p q : α → Bool} {l : List α} {a : α} (himp : ∀ b ∈ l, p b = true → q b = true)
    (hfind : l.find? q = some a) (ha : p a = true) : l.find? p = some a := by
  induction l with
  | nil => cases hfind
  | cons b l ih =>
      rw [List.find?_cons] at hfind ⊢
      cases hq : q b with
      | true =>
          rw [hq] at hfind
          obtain rfl := Option.some.inj hfind
          rw [ha]
      | false =>
          rw [hq] at hfind
          have hp : p b = false := by
            rw [Bool.eq_false_iff]
            intro hp
            rw [himp b List.mem_cons_self hp] at hq
            cases hq
          rw [hp]
          exact ih (fun c hc => himp c (List.mem_cons_of_mem b hc)) hfind

/-- The first route that some of the paths may meet. -/
def firstOf (cs : Classes accepts γ) (table : List (Route κ ν)) (method : String) (ps : List (PathPart γ)) :
    Option (Route κ ν) :=
  table.find? fun r => r.allows method && !apartAll cs ps r.template

/-- **A filled path meets the route that its template meets.** -/
theorem find_of_parts {table : List (Route κ ν)} {method : String} {ps : List (PathPart γ)} {path : List (List Char)}
    {r : Route κ ν} (hpath : List.Forall₂ (PathPart.takes cs) ps path) (hfirst : firstOf cs table method ps = some r)
    (hinto : intoAll cs ps r.template = true) :
    table.find? (fun r => r.matches accepts method path) = some r := by
  have hr : r.allows method = true := by
    have hsome := List.find?_some hfirst
    exact (Bool.and_eq_true_iff.mp hsome).1
  refine find?_of_imp ?_ hfirst ?_
  · intro r' _ hmatches
    obtain ⟨hfits, hallows⟩ := Bool.and_eq_true_iff.mp hmatches
    rw [hallows, Bool.true_and, Bool.not_eq_true']
    rw [Bool.eq_false_iff]
    intro hapart
    rw [fitsAll_of_apart hpath hapart] at hfits
    cases hfits
  · rw [Route.matches, fitsAll_of_into hpath hinto, hr]
    rfl

/-- What a path may lead to is the name of a route that does not lie apart. -/
theorem resolve_mem_of_parts {table : List (Route κ ν)} {method : String} {ps : List (PathPart γ)}
    {path : List (List Char)} {n : ν} (hpath : List.Forall₂ (PathPart.takes cs) ps path)
    (h : resolve accepts table method path = some n) :
    ∃ r ∈ table, r.allows method = true ∧ apartAll cs ps r.template = false ∧ r.name = n := by
  obtain ⟨r, hr, hfits, hallows, hname⟩ := mem_of_resolve accepts h
  refine ⟨r, hr, hallows, ?_, hname⟩
  rw [Bool.eq_false_iff]
  intro hapart
  rw [fitsAll_of_apart hpath hapart] at hfits
  cases hfits

end Matching

/-! ## Splitting -/

/-- **A joined path is split where it was joined, and at the slashes of its segments.** -/
theorem splitOn_joinPath {xs : List (List Char)} (h : xs ≠ []) :
    (joinPath xs).splitOn '/' = xs.flatMap fun x => x.splitOn '/' := by
  induction xs with
  | nil => exact absurd rfl h
  | cons x xs ih =>
      cases xs with
      | nil => simp [joinPath]
      | cons y ys =>
          rw [joinPath_cons (List.cons_ne_nil y ys), List.splitOn_append_cons_self, ih (List.cons_ne_nil y ys)]
          rfl

theorem two_le_length_splitOn {x : List Char} (h : '/' ∈ x) : 2 ≤ (x.splitOn '/').length := by
  obtain ⟨a, b, rfl⟩ := List.append_of_mem h
  rw [List.splitOn_append_cons_self, List.length_append]
  have ha := List.length_pos_of_ne_nil (List.splitOn_ne_nil '/' a)
  have hb := List.length_pos_of_ne_nil (List.splitOn_ne_nil '/' b)
  omega

end Lib
