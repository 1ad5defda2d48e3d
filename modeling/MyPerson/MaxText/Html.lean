import MyPerson.Lib.Nesting
import MyPerson.Lib.Utf16
import Mathlib.Data.List.Sort

/-!
# `MaxText.Html` — HTML to text and elements

`app/max/html_text.py` from the events of the HTML parser on: the stack of open tags, the position in UTF-16
units, the elements in the order in which their tags close and their sorting at the end. What it is for is said
over a forest of `Lib.Nesting`: its text, and one element for each pair of tags around some text.

## Contents
- `Parser`, its handlers, `htmlToElements`;
- the events as tokens;
- a forest is read, what is read is a forest;
- `html_to_elements`.
-/

namespace MyPerson.MaxText

open Lib.Nesting

/-! ## The parser -/

inductive ElementType
  | strong | emphasized | underline | strikethrough | monospaced | code | link | quote
deriving DecidableEq, Repr

def tags : List (String × ElementType) :=
  [("b", .strong), ("strong", .strong), ("i", .emphasized), ("em", .emphasized), ("u", .underline),
    ("ins", .underline), ("s", .strikethrough), ("strike", .strikethrough), ("del", .strikethrough),
    ("code", .monospaced), ("pre", .code), ("a", .link), ("blockquote", .quote)]

def allowed : List String := (tags.map Prod.fst ++ ["br"]).insertionSort (· ≤ ·)

abbrev Text := List Char

abbrev Attrs := List (String × Option String)

/-- The text of an `HtmlTextError`. -/
abbrev HtmlTextError := String

/-- What the HTML parser reports. -/
inductive Event
  | data (data : Text)
  | starttag (tag : String) (attrs : Attrs)
  | endtag (tag : String)
  | startendtag (tag : String) (attrs : Attrs)

def utf16Len (text : Text) : Nat := (Lib.Utf16.encodeLE text).length / 2

/-- An open tag; only a tag of `tags` is opened. -/
structure Open where
  tag     : String
  type    : ElementType
  start   : Nat
  url     : Option String
  skipped : Bool
  known   : tags.lookup tag = some type

structure Element where
  type   : ElementType
  start  : Nat
  length : Nat
  url    : Option String
deriving DecidableEq, Repr

/-- `_Parser`; the innermost open tag stands first. -/
structure Parser where
  parts    : List Text
  pos      : Nat
  opened   : List Open
  elements : List Element
  counted  : pos = utf16Len parts.flatten

theorem utf16Len_eq (text : Text) : utf16Len text = (Lib.Utf16.encode text).length := by
  unfold utf16Len
  rw [Lib.Utf16.length_encodeLE, Nat.mul_div_cancel_left _ Nat.two_pos]

theorem utf16Len_append (s t : Text) : utf16Len (s ++ t) = utf16Len s + utf16Len t := by
  rw [utf16Len_eq, utf16Len_eq, utf16Len_eq, Lib.Utf16.encode_append, List.length_append]

def Parser.init : Parser := ⟨[], 0, [], [], rfl⟩

/-- `_add`. -/
def Parser.add (p : Parser) (text : Text) : Parser :=
  { p with
    parts := p.parts ++ [text]
    pos := p.pos + utf16Len text
    counted := by rw [List.flatten_append, utf16Len_append, List.flatten_singleton, p.counted] }

/-- `dict(attrs).get("href")`: of several the last one counts. -/
def href (attrs : Attrs) : Option String := (attrs.reverse.lookup "href").join

/-- `handle_starttag`, behind the line break. -/
def openTag (p : Parser) (tag : String) (attrs : Attrs) : Except HtmlTextError Parser :=
  match h : tags.lookup tag with
  | none => .error ("<" ++ tag ++ "> is not supported; tags: " ++ ", ".intercalate allowed)
  | some type =>
      if tag = "a" ∧ (href attrs).getD "" = "" then .error "<a> needs href"
      else
        .ok { p with
          opened :=
            { tag, type
              start := p.pos
              url := if tag = "a" then href attrs else none
              skipped := tag = "code" ∧ p.opened.head?.map Open.tag = some "pre"
              known := h } :: p.opened }

def handleStarttag (p : Parser) (tag : String) (attrs : Attrs) : Except HtmlTextError Parser :=
  if tag = "br" then .ok (p.add ['\n']) else openTag p tag attrs

/-- `handle_endtag`, behind the line break. -/
def closeTag (p : Parser) (tag : String) : Except HtmlTextError Parser :=
  match p.opened with
  | [] => .error ("</" ++ tag ++ "> does not close an open tag (expected no closing tag)")
  | o :: opened =>
      if o.tag ≠ tag then
        .error ("</" ++ tag ++ "> does not close an open tag (expected </" ++ o.tag ++ ">)")
      else if o.skipped ∨ p.pos - o.start = 0 then .ok { p with opened }
      else .ok { p with opened, elements := p.elements ++ [⟨o.type, o.start, p.pos - o.start, o.url⟩] }

def handleEndtag (p : Parser) (tag : String) : Except HtmlTextError Parser :=
  if tag = "br" then .ok p else closeTag p tag

def handleStartendtag (p : Parser) (tag : String) (attrs : Attrs) : Except HtmlTextError Parser :=
  if tag = "br" then .ok (p.add ['\n'])
  else do
    let p ← handleStarttag p tag attrs
    handleEndtag p tag

def handle (p : Parser) : Event → Except HtmlTextError Parser
  | .data data => .ok (p.add data)
  | .starttag tag attrs => handleStarttag p tag attrs
  | .endtag tag => handleEndtag p tag
  | .startendtag tag attrs => handleStartendtag p tag attrs

/-- The sorting key `(from, -length)`. -/
def Element.before (d e : Element) : Prop := d.start < e.start ∨ d.start = e.start ∧ e.length ≤ d.length

instance : DecidableRel Element.before := fun _ _ => inferInstanceAs (Decidable (_ ∨ _))

def htmlToElements (events : List Event) : Except HtmlTextError (Text × List Element) := do
  let p ← events.foldlM handle Parser.init
  if p.opened ≠ [] then
    .error ("unclosed tags: " ++ ", ".intercalate (p.opened.reverse.map fun o => "<" ++ o.tag ++ ">"))
  else .ok (p.parts.flatten, p.elements.insertionSort Element.before)

/-! ## Events as tokens -/

structure StartTag where
  tag   : String
  attrs : Attrs

/-- A tag that may be opened. -/
def StartTag.Supported (l : StartTag) : Prop :=
  (∃ type, tags.lookup l.tag = some type) ∧ (l.tag = "a" → ∃ url, href l.attrs = some url ∧ url ≠ "")

/-- `br` is a line break, and a tag that closes itself an empty pair. -/
def tokens : Event → List (Token Char StartTag String)
  | .data data => [.text data]
  | .starttag tag attrs => if tag = "br" then [.text ['\n']] else [.opening ⟨tag, attrs⟩]
  | .endtag tag => if tag = "br" then [] else [.closing tag]
  | .startendtag tag attrs => if tag = "br" then [.text ['\n']] else [.opening ⟨tag, attrs⟩, .closing tag]

/-- The text of an event. -/
def Event.plain : Event → Text
  | .data s => s
  | .starttag tag _ => if tag = "br" then ['\n'] else []
  | .endtag _ => []
  | .startendtag tag _ => if tag = "br" then ['\n'] else []

def handleToken (p : Parser) : Token Char StartTag String → Except HtmlTextError Parser
  | .text s => .ok (p.add s)
  | .opening l => openTag p l.tag l.attrs
  | .closing tag => closeTag p tag

theorem foldlM_singleton (p : Parser) (t : Token Char StartTag String) : [t].foldlM handleToken p = handleToken p t :=
  bind_pure (handleToken p t)

theorem handle_eq (p : Parser) (e : Event) : handle p e = (tokens e).foldlM handleToken p := by
  cases e with
  | data s =>
      rw [tokens, foldlM_singleton]
      rfl
  | starttag tag attrs =>
      show handleStarttag p tag attrs = _
      unfold handleStarttag tokens
      dsimp only
      by_cases hbr : tag = "br"
      · rw [if_pos hbr, if_pos hbr]
        rw [foldlM_singleton]
        rfl
      · rw [if_neg hbr, if_neg hbr]
        rw [foldlM_singleton]
        rfl
  | endtag tag =>
      show handleEndtag p tag = _
      unfold handleEndtag tokens
      dsimp only
      by_cases hbr : tag = "br"
      · rw [if_pos hbr, if_pos hbr]
        rfl
      · rw [if_neg hbr, if_neg hbr]
        rw [foldlM_singleton]
        rfl
  | startendtag tag attrs =>
      show handleStartendtag p tag attrs = _
      unfold handleStartendtag handleStarttag handleEndtag tokens
      dsimp only
      by_cases hbr : tag = "br"
      · rw [if_pos hbr, if_pos hbr]
        rw [foldlM_singleton]
        rfl
      · rw [if_neg hbr, if_neg hbr, if_neg hbr, List.foldlM_cons]
        refine congrArg _ (funext fun p => ?_)
        rw [if_neg hbr]
        rw [foldlM_singleton]
        rfl

theorem foldlM_handle (p : Parser) (events : List Event) :
    events.foldlM handle p = (events.flatMap tokens).foldlM handleToken p := by
  induction events generalizing p with
  | nil => rfl
  | cons e events ih =>
      rw [List.foldlM_cons, List.flatMap_cons, List.foldlM_append, handle_eq]
      exact congrArg _ (funext ih)

theorem plain_eq (e : Event) : e.plain = (tokens e).flatMap Token.plain := by
  cases e with
  | data s => exact (List.append_nil s).symm
  | starttag tag attrs =>
      unfold Event.plain tokens
      by_cases hbr : tag = "br" <;> simp [hbr, Token.plain]
  | endtag tag =>
      unfold Event.plain tokens
      by_cases hbr : tag = "br" <;> simp [hbr, Token.plain]
  | startendtag tag attrs =>
      unfold Event.plain tokens
      by_cases hbr : tag = "br" <;> simp [hbr, Token.plain]

theorem flatMap_plain (events : List Event) :
    events.flatMap Event.plain = (events.flatMap tokens).flatMap Token.plain := by
  rw [List.flatMap_assoc]
  exact congrArg (events.flatMap ·) (funext plain_eq)

/-! ## One token -/

variable {p p' : Parser}

/-- The element of a pair of tags: none around no text, and none for a code directly inside a pre. -/
def element? (q : Pair Char StartTag) : Option Element :=
  if q.content = [] ∨ q.label.tag = "code" ∧ q.parent.map StartTag.tag = some "pre" then none
  else (tags.lookup q.label.tag).map fun type =>
    ⟨type, utf16Len q.before, utf16Len q.content, if q.label.tag = "a" then href q.label.attrs else none⟩

theorem utf16Len_eq_zero {text : Text} : utf16Len text = 0 ↔ text = [] := by
  rw [utf16Len_eq, List.length_eq_zero_iff, Lib.Utf16.encode_eq_nil]

theorem supported_url {l : StartTag} (h : l.Supported) : ¬ (l.tag = "a" ∧ (href l.attrs).getD "" = "") := by
  rintro ⟨ha, hempty⟩
  obtain ⟨url, hurl, hne⟩ := h.2 ha
  rw [hurl] at hempty
  exact hne hempty

/-- **Opening.** Exactly a supported tag is opened, and nothing else changes. -/
theorem openTag_iff {l : StartTag} : openTag p l.tag l.attrs = .ok p' ↔
    l.Supported ∧ ∃ o : Open, p' = { p with opened := o :: p.opened } ∧ o.tag = l.tag ∧ o.start = p.pos ∧
      o.url = (if l.tag = "a" then href l.attrs else none) ∧
      (o.skipped = true ↔ l.tag = "code" ∧ p.opened.head?.map Open.tag = some "pre") := by
  unfold openTag
  split
  · rename_i hunknown
    refine iff_of_false nofun fun h => ?_
    obtain ⟨type, htype⟩ := h.1.1
    rw [hunknown] at htype
    cases htype
  · rename_i type htype
    by_cases hurl : l.tag = "a" ∧ (href l.attrs).getD "" = ""
    · rw [if_pos hurl]
      exact iff_of_false nofun fun h => supported_url h.1 hurl
    · rw [if_neg hurl]
      constructor
      · rintro ⟨⟩
        refine ⟨⟨⟨type, htype⟩, fun ha => ?_⟩, _, rfl, rfl, rfl, rfl, decide_eq_true_iff⟩
        cases hhref : href l.attrs with
        | none => exact absurd ⟨ha, by rw [hhref]; rfl⟩ hurl
        | some url => exact ⟨url, rfl, fun hempty => hurl ⟨ha, by rw [hhref, hempty]; rfl⟩⟩
      · rintro ⟨-, ⟨tag, type', start, url, skipped, known⟩, rfl, rfl, rfl, rfl, hskipped⟩
        obtain rfl : type' = type := Option.some.inj (known.symm.trans htype)
        have hskipped' : skipped = decide (l.tag = "code" ∧ p.opened.head?.map Open.tag = some "pre") :=
          Bool.eq_iff_iff.mpr (hskipped.trans decide_eq_true_iff.symm)
        subst hskipped'
        rfl

/-- **Closing.** Exactly the innermost open tag is closed. -/
theorem closeTag_iff {tag : String} : closeTag p tag = .ok p' ↔
    ∃ o opened, p.opened = o :: opened ∧ o.tag = tag ∧ p' =
      { p with
        opened
        elements := p.elements ++
          if o.skipped ∨ p.pos - o.start = 0 then [] else [⟨o.type, o.start, p.pos - o.start, o.url⟩] } := by
  unfold closeTag
  split
  · rename_i hnil
    exact iff_of_false nofun fun ⟨o, opened, hcons, _⟩ => absurd (hnil.symm.trans hcons) nofun
  · rename_i o opened hcons
    rw [hcons]
    by_cases htag : o.tag = tag
    · rw [if_neg (not_not_intro htag)]
      by_cases hnone : o.skipped = true ∨ p.pos - o.start = 0
      · rw [if_pos hnone]
        constructor
        · rintro ⟨⟩
          exact ⟨o, opened, rfl, htag, by rw [if_pos hnone, List.append_nil]⟩
        · rintro ⟨o', opened', heq, -, rfl⟩
          obtain ⟨rfl, rfl⟩ := List.cons.inj heq
          rw [if_pos hnone, List.append_nil]
      · rw [if_neg hnone]
        constructor
        · rintro ⟨⟩
          exact ⟨o, opened, rfl, htag, by rw [if_neg hnone]⟩
        · rintro ⟨o', opened', heq, -, rfl⟩
          obtain ⟨rfl, rfl⟩ := List.cons.inj heq
          rw [if_neg hnone]
    · rw [if_pos htag]
      refine iff_of_false nofun ?_
      rintro ⟨o', opened', heq, htag', -⟩
      obtain ⟨rfl, rfl⟩ := List.cons.inj heq
      exact htag htag'

/-- What closing a tag adds is the element of the pair. -/
theorem element_of_close {o : Open} {q : Pair Char StartTag} {pos : Nat} (htag : o.tag = q.label.tag)
    (hstart : o.start = utf16Len q.before) (hpos : pos = utf16Len q.before + utf16Len q.content)
    (hurl : o.url = if q.label.tag = "a" then href q.label.attrs else none)
    (hskipped : o.skipped = true ↔ q.label.tag = "code" ∧ q.parent.map StartTag.tag = some "pre") :
    (if o.skipped = true ∨ pos - o.start = 0 then [] else [⟨o.type, o.start, pos - o.start, o.url⟩])
      = (element? q).toList := by
  have hlength : pos - o.start = utf16Len q.content := by rw [hstart, hpos, Nat.add_sub_cancel_left]
  have hnone : (o.skipped = true ∨ pos - o.start = 0) ↔
      (q.content = [] ∨ q.label.tag = "code" ∧ q.parent.map StartTag.tag = some "pre") := by
    rw [hlength, utf16Len_eq_zero, hskipped, or_comm]
  have hknown : tags.lookup q.label.tag = some o.type := htag ▸ o.known
  unfold element?
  by_cases hskip : o.skipped = true ∨ pos - o.start = 0
  · rw [if_pos hskip, if_pos (hnone.mp hskip)]
    rfl
  · rw [if_neg hskip, if_neg fun h => hskip (hnone.mpr h), hknown, hlength, hstart, hurl]
    rfl

/-! ## A forest is read -/

/-- From `p` the forest is read to `p'`, inside the open tag `parent`. -/
structure Reads (p : Parser) (parent : Option StartTag) (f : Forest Char StartTag) (p' : Parser) : Prop where
  parts    : p'.parts.flatten = p.parts.flatten ++ f.flat
  opened   : p'.opened = p.opened
  elements : p'.elements = p.elements ++ (f.pairs p.parts.flatten parent).filterMap element?

/-- **Forest.** Every forest of supported tags is read, with the elements of its pairs as they close. -/
theorem forest_reads (f : Forest Char StartTag) (hf : ∀ l ∈ f.labels, l.Supported) (p : Parser)
    (parent : Option StartTag) (hparent : p.opened.head?.map Open.tag = parent.map StartTag.tag) :
    ∃ p', (f.tokens StartTag.tag).foldlM handleToken p = .ok p' ∧ Reads p parent f p' := by
  induction f generalizing p parent with
  | nil => exact ⟨p, rfl, (List.append_nil _).symm, rfl, (List.append_nil _).symm⟩
  | text s rest ih =>
      obtain ⟨p', hrun, hreads⟩ := ih hf (p.add s) parent hparent
      have hparts : (p.add s).parts.flatten = p.parts.flatten ++ s := by
        show (p.parts ++ [s]).flatten = _
        rw [List.flatten_append, List.flatten_singleton]
      refine ⟨p', hrun, ?_, hreads.opened, ?_⟩
      · rw [hreads.parts, hparts, List.append_assoc]
        rfl
      · rw [hreads.elements, hparts]
        rfl
  | node l children rest ihc ihr =>
      simp only [Forest.labels, List.forall_mem_cons, List.forall_mem_append] at hf
      obtain ⟨hl, hchildren, hrest⟩ := hf
      obtain ⟨type, htype⟩ := hl.1
      -- the tag is opened,
      let o : Open := ⟨l.tag, type, p.pos, if l.tag = "a" then href l.attrs else none,
        l.tag = "code" ∧ p.opened.head?.map Open.tag = some "pre", htype⟩
      have hopen : openTag p l.tag l.attrs = .ok { p with opened := o :: p.opened } :=
        openTag_iff.mpr ⟨hl, o, rfl, rfl, rfl, rfl, decide_eq_true_iff⟩
      -- what stands inside is read,
      obtain ⟨p₁, hrun₁, h₁⟩ := ihc hchildren { p with opened := o :: p.opened } (some l) rfl
      have hparts₁ : p₁.parts.flatten = p.parts.flatten ++ children.flat := h₁.parts
      -- and the tag is closed
      let p₂ : Parser :=
        { p₁ with
          opened := p.opened
          elements := p₁.elements ++
            if o.skipped ∨ p₁.pos - o.start = 0 then [] else [⟨o.type, o.start, p₁.pos - o.start, o.url⟩] }
      have hclose : closeTag p₁ o.tag = .ok p₂ := closeTag_iff.mpr ⟨o, p.opened, h₁.opened, rfl, rfl⟩
      obtain ⟨p', hrun', h'⟩ := ihr hrest p₂ parent hparent
      have helement : (if o.skipped = true ∨ p₁.pos - o.start = 0 then []
          else [⟨o.type, o.start, p₁.pos - o.start, o.url⟩])
          = (element? ⟨l, parent, p.parts.flatten, children.flat⟩).toList := by
        refine element_of_close rfl p.counted ?_ rfl ?_
        · rw [p₁.counted, hparts₁, utf16Len_append]
        · rw [← hparent]
          exact decide_eq_true_iff
      refine ⟨p', ?_, ?_, ?_, ?_⟩
      · rw [Forest.tokens, List.foldlM_cons]
        show openTag p l.tag l.attrs >>= _ = _
        rw [hopen]
        show List.foldlM handleToken _ (_ ++ _) = _
        rw [List.foldlM_append, hrun₁]
        show List.foldlM handleToken p₁ (_ :: _) = _
        rw [List.foldlM_cons]
        show closeTag p₁ o.tag >>= _ = _
        rw [hclose]
        exact hrun'
      · rw [h'.parts]
        show p₁.parts.flatten ++ rest.flat = _
        rw [hparts₁, List.append_assoc]
        rfl
      · exact h'.opened
      · rw [h'.elements]
        show p₁.elements ++ (if o.skipped = true ∨ p₁.pos - o.start = 0 then _ else _) ++
          (rest.pairs p₁.parts.flatten parent).filterMap element? = _
        rw [helement, h₁.elements, hparts₁, Forest.pairs, List.filterMap_append, List.filterMap_cons,
          List.append_assoc, List.append_assoc]
        show p.elements ++ (_ ++ _) = p.elements ++ (_ ++ _)
        cases element? ⟨l, parent, p.parts.flatten, children.flat⟩ <;> rfl

/-! ## What is read is a forest -/

/-- Tokens that are read to the end close the open tags, and open only supported ones. -/
theorem completes_of_run {ts : List (Token Char StartTag String)} {p p' : Parser}
    (hrun : ts.foldlM handleToken p = .ok p') (hclosed : p'.opened = []) :
    Completes StartTag.tag (p.opened.map Open.tag) ts ∧ ∀ l, Token.opening l ∈ ts → l.Supported := by
  induction ts generalizing p with
  | nil =>
      obtain rfl : p = p' := Except.ok.inj hrun
      rw [hclosed]
      exact ⟨completes_nil, fun l hl => absurd hl List.not_mem_nil⟩
  | cons t ts ih =>
      rw [List.foldlM_cons] at hrun
      cases hstep : handleToken p t with
      | error e =>
          rw [hstep] at hrun
          cases hrun
      | ok p₁ =>
          rw [hstep] at hrun
          obtain ⟨hcompletes, hsupported⟩ := ih hrun
          cases t with
          | text s =>
              obtain rfl := Except.ok.inj hstep
              exact ⟨hcompletes.text s, fun l hl => hsupported l ((List.mem_cons.mp hl).resolve_left nofun)⟩
          | opening l =>
              obtain ⟨hl, o, rfl, htag, -⟩ := openTag_iff.mp hstep
              refine ⟨?_, fun l' hl' => ?_⟩
              · rw [List.map_cons, htag] at hcompletes
                exact hcompletes.opening l
              · rcases List.mem_cons.mp hl' with heq | hl'
                · obtain rfl := Token.opening.inj heq
                  exact hl
                · exact hsupported l' hl'
          | closing tag =>
              obtain ⟨o, opened, hopened, rfl, rfl⟩ := closeTag_iff.mp hstep
              refine ⟨?_, fun l hl => hsupported l ((List.mem_cons.mp hl).resolve_left nofun)⟩
              rw [hopened]
              exact hcompletes.closing o.tag

/-! ## The whole text -/

/-- The events are those of a forest of supported tags. -/
def Parses (events : List Event) (f : Forest Char StartTag) : Prop :=
  f.tokens StartTag.tag = events.flatMap tokens ∧ ∀ l ∈ f.labels, l.Supported

variable {events : List Event} {f : Forest Char StartTag}

/-- The elements of a forest, in the order of the code. -/
def elementsOf (f : Forest Char StartTag) : List Element :=
  ((f.pairs [] none).filterMap element?).insertionSort Element.before

theorem htmlToElements_of_parses (h : Parses events f) :
    htmlToElements events = .ok (events.flatMap Event.plain, elementsOf f) := by
  obtain ⟨p', hrun, hreads⟩ := forest_reads f h.2 Parser.init none rfl
  unfold htmlToElements
  rw [foldlM_handle, ← h.1, hrun]
  show (if p'.opened ≠ [] then _ else Except.ok (p'.parts.flatten, p'.elements.insertionSort Element.before)) = _
  have hclosed : p'.opened = [] := hreads.opened
  rw [if_neg (not_not_intro hclosed), hreads.parts, hreads.elements, flatMap_plain, ← h.1, ← flat_eq]
  rfl

theorem parses_of_ok {out : Text × List Element} (h : htmlToElements events = .ok out) : ∃ f, Parses events f := by
  unfold htmlToElements at h
  rw [foldlM_handle] at h
  cases hrun : (events.flatMap tokens).foldlM handleToken Parser.init with
  | error e =>
      rw [hrun] at h
      cases h
  | ok p =>
      rw [hrun] at h
      by_cases hclosed : p.opened = []
      · obtain ⟨⟨f, hf⟩, hsupported⟩ := completes_of_run hrun hclosed
        exact ⟨f, hf, fun l hl => hsupported l (hf ▸ (mem_labels StartTag.tag f).mp hl)⟩
      · have herror : (if p.opened ≠ [] then _ else _) = Except.ok out := h
        rw [if_pos hclosed] at herror
        cases herror

/-! ## Ranges -/

namespace Element

/-- `d` lies inside `e`. -/
def Inside (d e : Element) : Prop := e.start ≤ d.start ∧ d.start + d.length ≤ e.start + e.length

/-- `d` and `e` have no unit in common. -/
def Apart (d e : Element) : Prop := d.start + d.length ≤ e.start ∨ e.start + e.length ≤ d.start

end Element

theorem element_of_pair {q : Pair Char StartTag} {e : Element} (h : element? q = some e) :
    e.start = utf16Len q.before ∧ e.length = utf16Len q.content ∧ q.content ≠ [] := by
  unfold element? at h
  obtain ⟨hnone, hsome⟩ := Option.ite_none_left_eq_some.mp h
  obtain ⟨type, -, rfl⟩ := Option.map_eq_some_iff.mp hsome
  exact ⟨rfl, rfl, fun hempty => hnone (Or.inl hempty)⟩

/-- A pair of supported tags has no element only around no text, or as a code directly inside a pre. -/
theorem element_eq_none {q : Pair Char StartTag} (h : q.label.Supported) : element? q = none ↔
    q.content = [] ∨ q.label.tag = "code" ∧ q.parent.map StartTag.tag = some "pre" := by
  obtain ⟨type, htype⟩ := h.1
  unfold element?
  rw [htype, Option.map_some]
  by_cases hnone : q.content = [] ∨ q.label.tag = "code" ∧ q.parent.map StartTag.tag = some "pre"
  · rw [if_pos hnone]
    exact iff_of_true rfl hnone
  · rw [if_neg hnone]
    exact iff_of_false (Option.some_ne_none _) hnone

theorem utf16Len_le {s t : Text} (h : s <+: t) : utf16Len s ≤ utf16Len t := by
  rw [utf16Len_eq, utf16Len_eq]
  exact Lib.Utf16.length_encode_le h

theorem end_of_pair {q : Pair Char StartTag} {e : Element} (h : element? q = some e) :
    e.start + e.length = utf16Len q.upTo := by
  obtain ⟨hstart, hlength, -⟩ := element_of_pair h
  rw [hstart, hlength, Pair.upTo, utf16Len_append]

theorem nested_or_apart {q r : Pair Char StartTag} {d e : Element} (hd : element? q = some d)
    (he : element? r = some e) (h : q.Inside r ∨ q.Precedes r) : d.Inside e ∨ d.Apart e := by
  rcases h with ⟨hbefore, hup⟩ | hbefore
  · refine Or.inl ⟨?_, ?_⟩
    · rw [(element_of_pair hd).1, (element_of_pair he).1]
      exact utf16Len_le hbefore
    · rw [end_of_pair hd, end_of_pair he]
      exact utf16Len_le hup
  · refine Or.inr (Or.inl ?_)
    rw [end_of_pair hd, (element_of_pair he).1]
    exact utf16Len_le hbefore

/-- **Laminar.** Two elements are nested or have nothing in common. -/
theorem elementsOf_pairwise (f : Forest Char StartTag) :
    (elementsOf f).Pairwise fun d e => d.Inside e ∨ e.Inside d ∨ d.Apart e := by
  have hclosing : ((f.pairs [] none).filterMap element?).Pairwise
      fun d e => d.Inside e ∨ e.Inside d ∨ d.Apart e := by
    refine List.pairwise_filterMap.mpr ((pairs_pairwise f [] none).imp ?_)
    intro q r hqr d hd e he
    exact (nested_or_apart hd he hqr).imp_right Or.inr
  refine (List.Perm.pairwise_iff ?_ (List.perm_insertionSort _ _)).mpr hclosing
  rintro d e (h | h | h)
  · exact Or.inr (Or.inl h)
  · exact Or.inl h
  · exact Or.inr (Or.inr (Or.symm h))

instance : Std.Total Element.before where
  total d e := by
    unfold Element.before
    omega

instance : IsTrans Element Element.before where
  trans d e g hde heg := by
    unfold Element.before at *
    omega

theorem elementsOf_sorted (f : Forest Char StartTag) : (elementsOf f).Pairwise Element.before :=
  List.pairwise_insertionSort _ _

/-- **HTML to elements.** A sequence of events is accepted exactly when it is that of a forest of supported tags;
    then the text is that of the events, and the elements are those of its pairs of tags, one for each around some
    text but a code directly inside a pre, sorted, each a range of units with the text between the tags, and any
    two of them nested or disjoint. -/
theorem html_to_elements (events : List Event) :
    ((∃ out, htmlToElements events = .ok out) ↔ ∃ f, Parses events f) ∧
    ∀ f, Parses events f → ∃ elements, htmlToElements events = .ok (events.flatMap Event.plain, elements) ∧
      elements.Perm ((f.pairs [] none).filterMap element?) ∧
      (∀ q ∈ f.pairs [] none, element? q = none ↔
        q.content = [] ∨ q.label.tag = "code" ∧ q.parent.map StartTag.tag = some "pre") ∧
      elements.Pairwise Element.before ∧
      elements.Pairwise (fun d e => d.Inside e ∨ e.Inside d ∨ d.Apart e) ∧
      ∀ e ∈ elements, ∃ q ∈ f.pairs [] none, element? q = some e ∧ 0 < e.length ∧
        e.start + e.length ≤ utf16Len (events.flatMap Event.plain) ∧
        ((Lib.Utf16.encode (events.flatMap Event.plain)).drop e.start).take e.length
          = Lib.Utf16.encode q.content := by
  refine ⟨⟨fun ⟨out, h⟩ => parses_of_ok h, fun ⟨f, h⟩ => ⟨_, htmlToElements_of_parses h⟩⟩, fun f h => ?_⟩
  refine ⟨elementsOf f, htmlToElements_of_parses h, List.perm_insertionSort _ _, fun q hq => ?_,
    elementsOf_sorted f, elementsOf_pairwise f, fun e he => ?_⟩
  · exact element_eq_none (h.2 q.label (label_of_pair f [] none q hq))
  obtain ⟨q, hq, hqe⟩ := List.mem_filterMap.mp ((List.perm_insertionSort _ _).mem_iff.mp he)
  obtain ⟨hstart, hlength, hcontent⟩ := element_of_pair hqe
  have hup : q.upTo <+: events.flatMap Event.plain := by
    rw [flatMap_plain, ← h.1, ← flat_eq]
    exact (pairs_within f [] none q hq).2
  refine ⟨q, hq, hqe, ?_, ?_, ?_⟩
  · rw [hlength]
    exact Nat.pos_of_ne_zero fun hzero => hcontent (utf16Len_eq_zero.mp hzero)
  · rw [end_of_pair hqe]
    exact utf16Len_le hup
  · rw [hstart, hlength, utf16Len_eq, utf16Len_eq]
    exact Lib.Utf16.slice_encode hup

theorem html_to_elements_surrogates :
    ∃ f, Parses [.data "👋".toList, .starttag "b" [], .data "a".toList, .startendtag "br" [], .endtag "b"] f ∧
      (elementsOf f) = [⟨.strong, 2, 2, none⟩] := by
  have hrun : htmlToElements [.data "👋".toList, .starttag "b" [], .data "a".toList, .startendtag "br" [],
      .endtag "b"] = .ok ("👋a\n".toList, [⟨.strong, 2, 2, none⟩]) := by rfl
  obtain ⟨f, hf⟩ := (html_to_elements _).1.mp ⟨_, hrun⟩
  refine ⟨f, hf, ?_⟩
  rw [htmlToElements_of_parses hf] at hrun
  exact (Prod.mk.inj (Except.ok.inj hrun)).2

end MyPerson.MaxText
