import Mathlib.Data.List.Infix

/-!
# `Lib.Nesting` — tags around text

Text with tags that open and close, as a list of tokens and as a forest. What a stack of open tags still demands
of the tokens is `Completes`: with no tag open it says that the tokens are those of a forest, and each token
shifts it by one step, so whoever keeps a stack can show by induction on his input that he accepts forests only.

The pairs of tags of a forest are listed in the order in which they close, each with the text before it and the
text between its tags. Of two of them the earlier lies inside the later or ends before it begins
(`pairs_pairwise`).

## Contents
- `Token`, `Forest`, `Forest.tokens`, `Forest.flat`, `Forest.labels`;
- `Completes`;
- `Pair`, `Forest.pairs`.
-/

namespace Lib.Nesting

variable {α L N : Type*}

/-- A piece of text, an opening tag with its label, a closing tag with its name. -/
inductive Token (α L N : Type*)
  | text (s : List α)
  | opening (l : L)
  | closing (n : N)

/-- Text and tag pairs side by side. -/
inductive Forest (α L : Type*)
  | nil
  | text (s : List α) (rest : Forest α L)
  | node (l : L) (children rest : Forest α L)

variable (nameOf : L → N)

/-- The forest written out. -/
def Forest.tokens : Forest α L → List (Token α L N)
  | .nil => []
  | .text s rest => .text s :: rest.tokens
  | .node l children rest => .opening l :: (children.tokens ++ .closing (nameOf l) :: rest.tokens)

/-- The text without the tags. -/
def Forest.flat : Forest α L → List α
  | .nil => []
  | .text s rest => s ++ rest.flat
  | .node _ children rest => children.flat ++ rest.flat

def Forest.labels : Forest α L → List L
  | .nil => []
  | .text _ rest => rest.labels
  | .node l children rest => l :: (children.labels ++ rest.labels)

def Token.plain : Token α L N → List α
  | .text s => s
  | _ => []

theorem mem_labels {l : L} (f : Forest α L) : l ∈ f.labels ↔ Token.opening l ∈ f.tokens nameOf := by
  induction f with
  | nil => exact iff_of_false List.not_mem_nil List.not_mem_nil
  | text s rest ih =>
      rw [Forest.labels, Forest.tokens, List.mem_cons, ih]
      exact ⟨Or.inr, fun h => h.resolve_left nofun⟩
  | node l' children rest ihc ihr =>
      simp only [Forest.labels, Forest.tokens, List.mem_cons, List.mem_append, ihc, ihr, Token.opening.injEq]
      simp

theorem flat_eq (f : Forest α L) : f.flat = (f.tokens nameOf).flatMap Token.plain := by
  induction f with
  | nil => rfl
  | text s rest ih =>
      rw [Forest.flat, Forest.tokens, List.flatMap_cons, ← ih]
      rfl
  | node l children rest ihc ihr =>
      rw [Forest.flat, Forest.tokens, List.flatMap_cons, List.flatMap_append, List.flatMap_cons, ← ihc, ← ihr]
      rfl

/-! ## What open tags demand -/

/-- The tokens close the open tags, the innermost first, with forests around the closing tags. -/
def Completes : List N → List (Token α L N) → Prop
  | [], ts => ∃ f : Forest α L, f.tokens nameOf = ts
  | n :: stack, ts => ∃ (f : Forest α L) (rest : List (Token α L N)),
      ts = f.tokens nameOf ++ .closing n :: rest ∧ Completes stack rest

variable {nameOf} {stack : List N} {ts : List (Token α L N)}

theorem completes_nil : Completes (α := α) nameOf [] [] := ⟨.nil, rfl⟩

/-- The first forest may be changed at its front. -/
theorem Completes.map_first {g : List (Token α L N) → List (Token α L N)}
    (hg : ∀ f : Forest α L, ∃ f' : Forest α L, ∀ rest, f'.tokens nameOf ++ rest = g (f.tokens nameOf ++ rest))
    (h : Completes nameOf stack ts) : Completes nameOf stack (g ts) := by
  cases stack with
  | nil =>
      obtain ⟨f, rfl⟩ := h
      obtain ⟨f', hf'⟩ := hg f
      refine ⟨f', ?_⟩
      have hall := hf' []
      rwa [List.append_nil, List.append_nil] at hall
  | cons n stack =>
      obtain ⟨f, rest, rfl, hrest⟩ := h
      obtain ⟨f', hf'⟩ := hg f
      exact ⟨f', rest, (hf' _).symm, hrest⟩

theorem Completes.text (s : List α) (h : Completes nameOf stack ts) : Completes nameOf stack (.text s :: ts) :=
  h.map_first (g := fun ts => .text s :: ts) fun f => ⟨.text s f, fun _ => rfl⟩

theorem Completes.closing (n : N) (h : Completes nameOf stack ts) :
    Completes nameOf (n :: stack) (.closing n :: ts) := ⟨.nil, ts, rfl, h⟩

/-- An opening tag puts its name on the stack. -/
theorem Completes.opening (l : L) (h : Completes nameOf (nameOf l :: stack) ts) :
    Completes nameOf stack (.opening l :: ts) := by
  obtain ⟨f, rest, rfl, hrest⟩ := h
  refine hrest.map_first (g := fun rest => .opening l :: (f.tokens nameOf ++ .closing (nameOf l) :: rest)) ?_
  intro f'
  refine ⟨.node l f f', fun rest => ?_⟩
  simp [Forest.tokens]

/-! ## Pairs of tags -/

/-- An opening tag and the closing tag that belongs to it. -/
structure Pair (α L : Type*) where
  label   : L
  /-- The innermost pair around this one. -/
  parent  : Option L
  /-- The text before the opening tag. -/
  before  : List α
  /-- The text between the tags. -/
  content : List α

/-- The pairs in the order in which they close. -/
def Forest.pairs (before : List α) (parent : Option L) : Forest α L → List (Pair α L)
  | .nil => []
  | .text s rest => rest.pairs (before ++ s) parent
  | .node l children rest =>
      children.pairs before (some l) ++ ⟨l, parent, before, children.flat⟩ ::
        rest.pairs (before ++ children.flat) parent

namespace Pair

/-- The text up to the closing tag. -/
def upTo (p : Pair α L) : List α := p.before ++ p.content

def Inside (p q : Pair α L) : Prop := q.before <+: p.before ∧ p.upTo <+: q.upTo

def Precedes (p q : Pair α L) : Prop := p.upTo <+: q.before

end Pair

theorem label_of_pair (f : Forest α L) (before : List α) (parent : Option L) :
    ∀ p ∈ f.pairs before parent, p.label ∈ f.labels := by
  induction f generalizing before parent with
  | nil => exact fun p hp => absurd hp List.not_mem_nil
  | text s rest ih => exact ih (before ++ s) parent
  | node l children rest ihc ihr =>
      intro p hp
      rcases List.mem_append.mp hp with hp | hp
      · exact List.mem_cons_of_mem l (List.mem_append_left _ (ihc before (some l) p hp))
      · rcases List.mem_cons.mp hp with rfl | hp
        · exact List.mem_cons_self
        · exact List.mem_cons_of_mem l (List.mem_append_right _ (ihr _ parent p hp))

/-- The pairs of a forest lie in its text. -/
theorem pairs_within (f : Forest α L) (before : List α) (parent : Option L) :
    ∀ p ∈ f.pairs before parent, before <+: p.before ∧ p.upTo <+: before ++ f.flat := by
  induction f generalizing before parent with
  | nil => exact fun p hp => absurd hp List.not_mem_nil
  | text s rest ih =>
      intro p hp
      obtain ⟨hbefore, hup⟩ := ih (before ++ s) parent p hp
      refine ⟨(List.prefix_append before s).trans hbefore, ?_⟩
      rwa [List.append_assoc] at hup
  | node l children rest ihc ihr =>
      intro p hp
      have hchildren : before ++ children.flat <+: before ++ (children.flat ++ rest.flat) := by
        rw [← List.append_assoc]
        exact List.prefix_append _ _
      rcases List.mem_append.mp hp with hp | hp
      · obtain ⟨hbefore, hup⟩ := ihc before (some l) p hp
        exact ⟨hbefore, hup.trans hchildren⟩
      · rcases List.mem_cons.mp hp with rfl | hp
        · exact ⟨List.prefix_refl before, hchildren⟩
        · obtain ⟨hbefore, hup⟩ := ihr (before ++ children.flat) parent p hp
          refine ⟨(List.prefix_append before children.flat).trans hbefore, ?_⟩
          rwa [List.append_assoc] at hup

/-- **Nested or disjoint.** Of two pairs the one that closes first lies inside the other or before it. -/
theorem pairs_pairwise (f : Forest α L) (before : List α) (parent : Option L) :
    (f.pairs before parent).Pairwise fun p q => p.Inside q ∨ p.Precedes q := by
  induction f generalizing before parent with
  | nil => exact List.Pairwise.nil
  | text s rest ih => exact ih (before ++ s) parent
  | node l children rest ihc ihr =>
      have hwithin := pairs_within children before (some l)
      have hafter := pairs_within rest (before ++ children.flat) parent
      refine List.pairwise_append.mpr ⟨ihc before (some l), List.pairwise_cons.mpr ⟨?_, ihr _ _⟩, ?_⟩
      · exact fun q hq => Or.inr (hafter q hq).1
      · intro p hp q hq
        obtain ⟨hbefore, hup⟩ := hwithin p hp
        rcases List.mem_cons.mp hq with rfl | hq
        · exact Or.inl ⟨hbefore, hup⟩
        · exact Or.inr (hup.trans (hafter q hq).1)

end Lib.Nesting
