import Mathlib.Data.List.Basic

/-!
# `Lib.RouteTable` — path templates, and two tables that agree

A path is the list of its segments; a template is a list of literal segments and parameters, each
parameter with a convertor that accepts some texts. A table resolves a method and a path to the name of
the first route that matches both. Like the regular expressions such templates are compiled to, the end
of a template also matches before a final newline.

## Contents
- `Seg`, `Route`, `resolve`;
- `overlap`: two templates that a path can match both, decided without looking at paths;
- `covers` and `resolve_of_covers`: a finite check by which one table resolves, for every method and
  every path, as another does;
- `literals`: routes under a prefix, and moving them to another one (`resolve_remount`);
- `joinPath`: the text of a path that fits a template (`path_of_fitsAll`).
-/

namespace Lib

/-- A segment of a path template. -/
inductive Seg (κ : Type*)
  | lit (text : String)
  | param (conv : κ)
deriving DecidableEq, Repr

structure Route (κ ν : Type*) where
  methods  : List String
  template : List (Seg κ)
  name     : ν
deriving Repr

section Matching

variable {κ ν : Type*} (accepts : κ → List Char → Bool)

/-- The segment of a template takes a segment of a path. -/
def Seg.fits : Seg κ → List Char → Bool
  | .lit text, x => String.ofList x == text
  | .param conv, x => accepts conv x

/-- The last segment: as a whole, or up to a final newline. -/
def Seg.fitsLast (s : Seg κ) (x : List Char) : Bool :=
  s.fits accepts x || (x.getLast? == some '\n' && s.fits accepts x.dropLast)

def fitsAll : List (Seg κ) → List (List Char) → Bool
  | [], [] => true
  | [s], [x] => s.fitsLast accepts x
  | s :: ss, x :: xs => s.fits accepts x && fitsAll ss xs
  | _, _ => false

/-- A `GET` route serves `HEAD`, too. -/
def Route.allows (r : Route κ ν) (method : String) : Bool :=
  r.methods.contains method || (method == "HEAD" && r.methods.contains "GET")

def Route.matches (r : Route κ ν) (method : String) (path : List (List Char)) : Bool :=
  fitsAll accepts r.template path && r.allows method

/-- The name of the first route that matches path and method. -/
def resolve (routes : List (Route κ ν)) (method : String) (path : List (List Char)) : Option ν :=
  (routes.find? fun r => r.matches accepts method path).map Route.name

theorem resolve_append (rs rs' : List (Route κ ν)) (method : String) (path : List (List Char)) :
    resolve accepts (rs ++ rs') method path
      = (resolve accepts rs method path).or (resolve accepts rs' method path) := by
  unfold resolve
  rw [List.find?_append]
  cases rs.find? fun r => r.matches accepts method path <;> rfl

theorem resolve_eq_none {routes : List (Route κ ν)} {method : String} {path : List (List Char)}
    (h : ∀ r ∈ routes, fitsAll accepts r.template path = false) :
    resolve accepts routes method path = none := by
  unfold resolve
  rw [Option.map_eq_none_iff, List.find?_eq_none]
  intro r hr
  simp [Route.matches, h r hr]

theorem mem_of_resolve {routes : List (Route κ ν)} {method : String} {path : List (List Char)} {n : ν}
    (h : resolve accepts routes method path = some n) :
    ∃ r ∈ routes, fitsAll accepts r.template path = true ∧ r.allows method = true ∧ r.name = n := by
  obtain ⟨r, hfind, rfl⟩ := Option.map_eq_some_iff.mp h
  have hmatch : fitsAll accepts r.template path = true ∧ r.allows method = true := by
    simpa [Route.matches] using List.find?_some hfind
  exact ⟨r, List.mem_of_find?_eq_some hfind, hmatch.1, hmatch.2, rfl⟩

theorem resolve_isSome {routes : List (Route κ ν)} {method : String} {path : List (List Char)}
    {r : Route κ ν} (hr : r ∈ routes) (hfits : fitsAll accepts r.template path = true)
    (hallows : r.allows method = true) : ∃ n, resolve accepts routes method path = some n := by
  have hsome : (routes.find? fun r => r.matches accepts method path).isSome = true := by
    rw [List.find?_isSome]
    exact ⟨r, hr, by simp [Route.matches, hfits, hallows]⟩
  obtain ⟨r', hr'⟩ := Option.isSome_iff_exists.mp hsome
  exact ⟨r'.name, by rw [resolve, hr']; rfl⟩

end Matching

/-! ## Overlap -/

section Overlap

variable {κ ν : Type*} {accepts : κ → List Char → Bool}

/-- Some text can fit both segments: two literals up to a final newline, anything with a parameter. -/
def Seg.overlap : Seg κ → Seg κ → Bool
  | .lit a, .lit b => a == b || a == b ++ "\n" || b == a ++ "\n"
  | _, _ => true

def overlap : List (Seg κ) → List (Seg κ) → Bool
  | [], [] => true
  | s :: ss, t :: ts => s.overlap t && overlap ss ts
  | _, _ => false

theorem Seg.fitsLast_of_fits {s : Seg κ} {x : List Char} (h : s.fits accepts x = true) :
    s.fitsLast accepts x = true := by
  simp [Seg.fitsLast, h]

/-- A text that fits a literal is the literal, perhaps with a newline behind it. -/
theorem Seg.lit_fitsLast {a : String} {x : List Char}
    (h : (Seg.lit a : Seg κ).fitsLast accepts x = true) :
    String.ofList x = a ∨ String.ofList x = a ++ "\n" := by
  simp only [Seg.fitsLast, Seg.fits, Bool.or_eq_true, Bool.and_eq_true, beq_iff_eq] at h
  rcases h with h | ⟨hlast, hdrop⟩
  · exact Or.inl h
  · right
    rw [← hdrop, ← List.dropLast_append_getLast? '\n' hlast, String.ofList_append]
    simp

theorem Seg.overlap_of_fitsLast {s t : Seg κ} {x : List Char} (hs : s.fitsLast accepts x = true)
    (ht : t.fitsLast accepts x = true) : s.overlap t = true := by
  cases s with
  | param c => rfl
  | lit a =>
      cases t with
      | param c => rfl
      | lit b =>
          simp only [Seg.overlap, Bool.or_eq_true, beq_iff_eq]
          rcases Seg.lit_fitsLast hs with ha | ha <;> rcases Seg.lit_fitsLast ht with hb | hb
          · exact Or.inl (Or.inl (ha.symm.trans hb))
          · exact Or.inl (Or.inr (ha.symm.trans hb))
          · exact Or.inr (hb.symm.trans ha)
          · have happ : (a ++ "\n").toList = (b ++ "\n").toList := by rw [← ha, ← hb]
            simp only [String.toList_append] at happ
            exact Or.inl (Or.inl (String.toList_inj.mp (List.append_cancel_right happ)))

theorem fitsAll_cons {s : Seg κ} {ss : List (Seg κ)} {path : List (List Char)}
    (h : fitsAll accepts (s :: ss) path = true) :
    ∃ x xs, path = x :: xs ∧ s.fitsLast accepts x = true ∧ fitsAll accepts ss xs = true := by
  cases path with
  | nil => simp [fitsAll] at h
  | cons x xs =>
      refine ⟨x, xs, rfl, ?_⟩
      cases ss with
      | nil =>
          cases xs with
          | nil => exact ⟨h, rfl⟩
          | cons y ys => simp [fitsAll] at h
      | cons s' ss =>
          have hboth : s.fits accepts x = true ∧ fitsAll accepts (s' :: ss) xs = true := by
            simpa [fitsAll] using h
          exact ⟨Seg.fitsLast_of_fits hboth.1, hboth.2⟩

theorem overlap_of_fitsAll {ss : List (Seg κ)} :
    ∀ {ts : List (Seg κ)} {path : List (List Char)}, fitsAll accepts ss path = true →
      fitsAll accepts ts path = true → overlap ss ts = true := by
  induction ss with
  | nil =>
      intro ts path hs ht
      cases path with
      | cons x xs => simp [fitsAll] at hs
      | nil =>
          cases ts with
          | nil => rfl
          | cons t ts =>
              obtain ⟨x, xs, hpath, -⟩ := fitsAll_cons ht
              cases hpath
  | cons s ss ih =>
      intro ts path hs ht
      obtain ⟨x, xs, rfl, hsx, hss⟩ := fitsAll_cons hs
      cases ts with
      | nil => simp [fitsAll] at ht
      | cons t ts =>
          obtain ⟨y, ys, hpath, hty, hts⟩ := fitsAll_cons ht
          cases hpath
          rw [overlap, Seg.overlap_of_fitsLast hsx hty, ih hss hts]
          rfl

/-- Some method is served by both routes. -/
def Route.sharesMethod (e f : Route κ ν) : Bool :=
  e.methods.any f.allows || (e.allows "HEAD" && f.allows "HEAD")

theorem sharesMethod_of_allows {e f : Route κ ν} {method : String} (he : e.allows method = true)
    (hf : f.allows method = true) : e.sharesMethod f = true := by
  unfold Route.sharesMethod
  by_cases hhead : method = "HEAD"
  · subst hhead
    simp [he, hf]
  · have hmem : e.methods.contains method = true := by
      simpa [Route.allows, hhead] using he
    have hany : e.methods.any f.allows = true :=
      List.any_eq_true.mpr ⟨method, List.contains_iff_mem.mp hmem, hf⟩
    simp [hany]

end Overlap

/-! ## Two tables that agree -/

section Agreement

variable {κ ν : Type*} [DecidableEq κ] [DecidableEq ν] {accepts : κ → List Char → Bool}

/-- Every route of `rs` with a shared name has a twin in `rs'`, and overlaps only with routes of `rs'`
    that have its name. -/
def covers (shared : ν → Bool) (rs rs' : List (Route κ ν)) : Bool :=
  rs.all fun e => !shared e.name ||
    ((rs'.any fun f => f.name == e.name && f.template == e.template && e.methods.all f.methods.contains) &&
      rs'.all fun f => !(overlap e.template f.template && e.sharesMethod f) || f.name == e.name)

omit [DecidableEq κ] [DecidableEq ν] in
theorem allows_of_methods {e f : Route κ ν} {method : String}
    (h : e.methods.all f.methods.contains = true) (he : e.allows method = true) :
    f.allows method = true := by
  have hsub : ∀ m, m ∈ e.methods → m ∈ f.methods := fun m hm =>
    List.contains_iff_mem.mp (List.all_eq_true.mp h m hm)
  simp only [Route.allows, Bool.or_eq_true, Bool.and_eq_true, beq_iff_eq, List.contains_iff_mem] at he ⊢
  exact he.imp (hsub method) fun hhead => ⟨hhead.1, hsub "GET" hhead.2⟩

/-- **Agreement.** What the first table resolves to a shared name the second one resolves to the same. -/
theorem resolve_of_covers {shared : ν → Bool} {rs rs' : List (Route κ ν)}
    (h : covers shared rs rs' = true) {method : String} {path : List (List Char)} {n : ν}
    (hres : resolve accepts rs method path = some n) (hshared : shared n = true) :
    resolve accepts rs' method path = some n := by
  obtain ⟨e, he, hfits, hallows, rfl⟩ := mem_of_resolve accepts hres
  have hrow := List.all_eq_true.mp h e he
  simp only [hshared, Bool.not_true, Bool.false_or, Bool.and_eq_true] at hrow
  obtain ⟨htwin, halone⟩ := hrow
  -- the twin matches, so the second table resolves to something
  obtain ⟨f, hf, htw⟩ := List.any_eq_true.mp htwin
  simp only [Bool.and_eq_true, beq_iff_eq] at htw
  obtain ⟨⟨-, htempl⟩, hmethods⟩ := htw
  obtain ⟨n', hn'⟩ := resolve_isSome accepts hf (by rw [htempl]; exact hfits)
    (allows_of_methods hmethods hallows)
  -- and what it resolves to overlaps with the route, so it has its name
  obtain ⟨g, hg, hgfits, hgallows, rfl⟩ := mem_of_resolve accepts hn'
  have hname := List.all_eq_true.mp halone g hg
  rw [overlap_of_fitsAll hfits hgfits, sharesMethod_of_allows hallows hgallows] at hname
  rw [hn']
  simpa using hname

end Agreement

/-! ## Prefixes -/

section Prefixes

variable {κ ν : Type*} {accepts : κ → List Char → Bool}

def literals (pre : List String) : List (Seg κ) := pre.map Seg.lit

/-- Under a prefix of literals a template matches what it matches without it. -/
theorem fitsAll_literals (pre : List String) {ss : List (Seg κ)} {xs : List (List Char)}
    (hss : ss ≠ []) :
    fitsAll accepts (literals pre ++ ss) (pre.map String.toList ++ xs) = fitsAll accepts ss xs := by
  induction pre with
  | nil => rfl
  | cons p pre ih =>
      have hne : literals pre ++ ss ≠ [] := by simp [hss]
      obtain ⟨s', rest, hcons⟩ := List.exists_cons_of_ne_nil hne
      calc fitsAll accepts (literals (p :: pre) ++ ss) ((p :: pre).map String.toList ++ xs)
          = fitsAll accepts (.lit p :: (literals pre ++ ss)) (p.toList :: (pre.map String.toList ++ xs)) := rfl
        _ = fitsAll accepts (literals pre ++ ss) (pre.map String.toList ++ xs) := by
            rw [hcons]
            simp [fitsAll, Seg.fits]
        _ = fitsAll accepts ss xs := ih

/-- The route, under another prefix. -/
def Route.remount (r : Route κ ν) (n : Nat) (pre : List String) : Route κ ν :=
  { r with template := literals pre ++ r.template.drop n }

/-- The route is under the prefix, with something behind it. -/
def Route.under [DecidableEq κ] (r : Route κ ν) (pre : List String) : Bool :=
  r.template.take pre.length == literals pre && !(r.template.drop pre.length).isEmpty

theorem matches_remount [DecidableEq κ] {r : Route κ ν} {pre pre' : List String}
    (h : r.under pre = true) (method : String) (xs : List (List Char)) :
    (r.remount pre.length pre').matches accepts method (pre'.map String.toList ++ xs)
      = r.matches accepts method (pre.map String.toList ++ xs) := by
  obtain ⟨htake, hdrop⟩ : r.template.take pre.length = literals pre ∧ r.template.drop pre.length ≠ [] := by
    simpa [Route.under] using h
  have hsplit : r.template = literals pre ++ r.template.drop pre.length := by
    rw [← htake, List.take_append_drop]
  have hfits : fitsAll accepts (r.remount pre.length pre').template (pre'.map String.toList ++ xs)
      = fitsAll accepts r.template (pre.map String.toList ++ xs) := by
    rw [Route.remount, fitsAll_literals pre' hdrop]
    conv_rhs => rw [hsplit, fitsAll_literals pre hdrop]
  unfold Route.matches
  rw [hfits]
  rfl

/-- **Moving a table.** -/
theorem resolve_remount [DecidableEq κ] {rs : List (Route κ ν)} {pre pre' : List String}
    (h : ∀ r ∈ rs, r.under pre = true) (method : String) (xs : List (List Char)) :
    resolve accepts (rs.map fun r => r.remount pre.length pre') method (pre'.map String.toList ++ xs)
      = resolve accepts rs method (pre.map String.toList ++ xs) := by
  unfold resolve
  induction rs with
  | nil => rfl
  | cons r rs ih =>
      have hr : (r.remount pre.length pre').matches accepts method (pre'.map String.toList ++ xs)
          = r.matches accepts method (pre.map String.toList ++ xs) :=
        matches_remount (h r (List.mem_cons_self ..)) method xs
      have hrs := ih fun r hr => h r (List.mem_cons_of_mem _ hr)
      rw [List.map_cons, List.find?_cons, List.find?_cons, hr]
      cases r.matches accepts method (pre.map String.toList ++ xs) with
      | true => rfl
      | false => exact hrs

/-- The template starts with a literal, and that is not `text`. -/
def startsOther (text : String) : List (Seg κ) → Bool
  | .lit a :: _ => a != text
  | _ => false

/-- A template that starts with another literal does not match what goes on behind the text. -/
theorem fitsAll_startsOther {text : String} {ss : List (Seg κ)} {xs : List (List Char)}
    (h : startsOther text ss = true) (hxs : xs ≠ []) :
    fitsAll accepts ss (text.toList :: xs) = false := by
  obtain ⟨x, rest, rfl⟩ := List.exists_cons_of_ne_nil hxs
  cases ss with
  | nil => rfl
  | cons s ss =>
      cases s with
      | param c => cases h
      | lit a =>
          have hne : text ≠ a := by
            intro heq
            simp [startsOther, heq] at h
          have hfits : (Seg.lit a : Seg κ).fits accepts text.toList = false := by
            simpa [Seg.fits] using hne
          cases ss <;> simp [fitsAll, hfits]

/-- The segments of a path, joined. -/
def joinPath (xs : List (List Char)) : List Char := ['/'].intercalate xs

theorem joinPath_cons {x : List Char} {xs : List (List Char)} (h : xs ≠ []) :
    joinPath (x :: xs) = x ++ '/' :: joinPath xs := by
  unfold joinPath
  rw [List.intercalate_cons_of_ne_nil h]
  simp

/-- A segment in the middle fits as a whole; the last one may have a newline behind it. -/
theorem fitsAll_cases {s : Seg κ} {ss : List (Seg κ)} {path : List (List Char)}
    (h : fitsAll accepts (s :: ss) path = true) :
    (ss = [] ∧ ∃ x, path = [x] ∧ s.fitsLast accepts x = true) ∨
      ∃ x xs, path = x :: xs ∧ xs ≠ [] ∧ s.fits accepts x = true ∧ fitsAll accepts ss xs = true := by
  cases path with
  | nil => cases ss <;> cases h
  | cons x xs =>
      cases ss with
      | nil =>
          cases xs with
          | nil => exact Or.inl ⟨rfl, x, rfl, h⟩
          | cons y ys => simp [fitsAll] at h
      | cons t ts =>
          have hboth : s.fits accepts x = true ∧ fitsAll accepts (t :: ts) xs = true := by
            simpa [fitsAll] using h
          refine Or.inr ⟨x, xs, rfl, ?_, hboth⟩
          rintro rfl
          cases ts <;> cases hboth.2

theorem eq_of_lit_fits {b : String} {x : List Char} (h : (Seg.lit b : Seg κ).fits accepts x = true) :
    x = b.toList := by
  have htext : String.ofList x = b := by simpa [Seg.fits] using h
  rw [← htext, String.toList_ofList]

/-- What can stand behind a prefix of whole segments: nothing, a newline, further segments. -/
def Behind (tail : List Char) : Prop := tail = [] ∨ tail = ['\n'] ∨ ∃ rest, tail = '/' :: rest

/-- **A path that fits a template starts with the literals the template starts with.** -/
theorem path_of_fitsAll {ss : List (Seg κ)} (b : String) (base : List String) :
    ∀ {xs : List (List Char)}, fitsAll accepts (literals (b :: base) ++ ss) xs = true →
      ∃ tail, joinPath xs = joinPath ((b :: base).map String.toList) ++ tail ∧ Behind tail := by
  induction base generalizing b with
  | nil =>
      intro xs h
      rcases fitsAll_cases h with ⟨-, x, rfl, hlast⟩ | ⟨x, xs, rfl, hne, hfits, -⟩
      · rcases Seg.lit_fitsLast hlast with rfl | hnew
        · exact ⟨[], by simp [joinPath], Or.inl rfl⟩
        · have hx : x = b.toList ++ ['\n'] := by
            have htext := congrArg String.toList hnew
            simpa using htext
          exact ⟨['\n'], by simp [joinPath, hx], Or.inr (Or.inl rfl)⟩
      · have hx := eq_of_lit_fits hfits
        refine ⟨'/' :: joinPath xs, ?_, Or.inr (Or.inr ⟨_, rfl⟩)⟩
        rw [joinPath_cons hne, hx]
        simp [joinPath]
  | cons c base ih =>
      intro xs h
      rcases fitsAll_cases h with ⟨hnil, -⟩ | ⟨x, xs, rfl, hne, hfits, hrest⟩
      · cases hnil
      · obtain ⟨tail, hjoin, htail⟩ := ih c hrest
        refine ⟨tail, ?_, htail⟩
        have hmore : (c :: base).map String.toList ≠ [] := by simp
        calc joinPath (x :: xs) = x ++ '/' :: joinPath xs := joinPath_cons hne
          _ = (b.toList ++ '/' :: joinPath ((c :: base).map String.toList)) ++ tail := by
              rw [hjoin, eq_of_lit_fits hfits]
              simp
          _ = joinPath ((b :: c :: base).map String.toList) ++ tail := by
              rw [← joinPath_cons hmore]
              rfl

end Prefixes

end Lib
