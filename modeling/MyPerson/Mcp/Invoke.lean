import MyPerson.Authz.Dispatch
import MyPerson.Mcp.Catalog

/-!
# `Mcp.Invoke` — the route that a tool's call runs

`_find` of `app/mcp/invoke.py` looks for the route of a path in the routers of the caller's platform. The path comes
from a template of the tool, with arguments of the agent put in. Whatever these are, as long as they have the types of
the schema, the call meets the route that the tool is authorized under, or none at all: a text that is no segment
leads nowhere.

## Contents
- `formatArg`, `formatPath`, `find`;
- `argClasses`: what is known of the texts; `WellTyped`, from the schema (`wellTyped_of_valid`);
- `find_own`, `find_folder`: where a call leads.
-/

namespace MyPerson.Mcp

open Lib Authz
open WriteLimits (Platform)

abbrev Args := List (String × Value)

/-! ## Paths -/

/-- The characters of a number as Python writes it. -/
def isNumberChar (c : Char) : Bool := c.isDigit || c = '-' || c = '+' || c = '.' || c = 'e'

/-- What `str.format` writes for values that are neither integers nor strings; for a whole float it is a number. -/
structure Texts where
  textOf : Value → List Char
  whole  : ∀ q representable, q.den = 1 → textOf (.scalar (.float (.finite q representable))) ≠ [] ∧
    ∀ c ∈ textOf (.scalar (.float (.finite q representable))), isNumberChar c = true

/-- A field of `str.format`; integers with too many digits are not written. -/
def formatArg (texts : Texts) : Value → Except Failure (List Char)
  | .scalar (.int n) =>
      match Decimal.str n with
      | some text => .ok text.toList
      | none => .error tooLongToWrite
  | .scalar (.str s) => .ok s.toList
  | v => .ok (texts.textOf v)

/-- `path.format(**args)`, segment by segment. -/
def formatPath (texts : Texts) (args : Args) : List (PathPart PathArg) → Except Failure (List (List Char))
  | [] => .ok []
  | .lit text :: path => (formatPath texts args path).map (text.toList :: ·)
  | .place arg :: path =>
      match Dict.get arg.name args with
      | none => .error (.crash "KeyError" ("'" ++ arg.name ++ "'"))
      | some v =>
          match formatArg texts v with
          | .error e => .error e
          | .ok x => (formatPath texts args path).map (x :: ·)

def platformPrefix : Platform → String
  | .telegram => apiPrefix
  | .max => maxInternalPrefix

/-- `prefix + path`. -/
def fullPath (platform : Platform) (path : List (List Char)) : Path :=
  (platformPrefix platform).toList ++ '/' :: joinPath path

/-- `_find`. -/
def find (platform : Platform) (method : String) (path : Path) : Option (Route Convertor Tool) :=
  (platformTable platform).find? fun r => r.matches Convertor.accepts method (segments path)

/-! ## What is known of the texts -/

theorem isNumberChar_of_isDigit {c : Char} (h : c.isDigit = true) : isNumberChar c = true := by
  simp [isNumberChar, h]

theorem digits_toDigits {n : Nat} (h : (Nat.toDigits 10 n).length ≤ Decimal.maxStrDigits) :
    digits (Nat.toDigits 10 n) = true := by
  have hdigit : ∀ c ∈ Nat.toDigits 10 n, c.isDigit = true := fun c hc =>
    Nat.isDigit_of_mem_toDigits (by decide) (by decide) hc
  unfold digits
  rw [List.all_eq_true.mpr hdigit, decide_eq_true h]
  simp [Nat.toDigits_ne_nil]

/-- The text is an integer that Python writes. -/
def IsInt (x : List Char) : Prop :=
  ∃ n : Int, Decimal.isShort n = true ∧ x = (toString n).toList

def IsNumber (x : List Char) : Prop := x ≠ [] ∧ ∀ c ∈ x, isNumberChar c = true

theorem isNumber_toString (n : Int) : IsNumber (toString n).toList := by
  have hdigit : ∀ c ∈ Nat.toDigits 10 n.natAbs, isNumberChar c = true := fun c hc =>
    isNumberChar_of_isDigit (Nat.isDigit_of_mem_toDigits (by decide) (by decide) hc)
  rw [IsNumber, Decimal.toList_toString]
  split
  · refine ⟨List.cons_ne_nil _ _, fun c hc => ?_⟩
    rcases List.mem_cons.mp hc with rfl | hc
    · rfl
    · exact hdigit c hc
  · exact ⟨Nat.toDigits_ne_nil, hdigit⟩

theorem IsInt.isNumber {x : List Char} (h : IsInt x) : IsNumber x := by
  obtain ⟨n, -, rfl⟩ := h
  exact isNumber_toString n

/-- Both convertors take an integer. -/
theorem IsInt.accepts {x : List Char} (h : IsInt x) (k : Convertor) : k.accepts x = true := by
  cases k with
  | str => simpa [Convertor.accepts] using h.isNumber.1
  | sint =>
      obtain ⟨n, hshort, rfl⟩ := h
      have hlength : (Nat.toDigits 10 n.natAbs).length ≤ Decimal.maxStrDigits := of_decide_eq_true hshort
      rw [Decimal.toList_toString]
      split
      · exact digits_toDigits hlength
      · obtain ⟨c, cs, heq, hc, -⟩ := Decimal.toDigits_cons n.natAbs
        have hdigits := digits_toDigits hlength
        have hsint : Convertor.accepts .sint (c :: cs) = digits (c :: cs) := by
          unfold Convertor.accepts
          split <;> simp_all
        rw [heq] at hdigits ⊢
        rw [hsint, hdigits]

/-- A number is no literal that has another character. -/
theorem IsNumber.ne {x : List Char} (h : IsNumber x) {b : String} (hb : b.toList.any (fun c => !isNumberChar c) = true) :
    String.ofList x ≠ b ∧ String.ofList x ≠ b ++ "\n" := by
  obtain ⟨c, hc, hnot⟩ := List.any_eq_true.mp hb
  rw [Bool.not_eq_true'] at hnot
  have hout : c ∉ x := by
    intro hmem
    rw [h.2 c hmem] at hnot
    cases hnot
  constructor
  · rintro rfl
    rw [String.toList_ofList] at hc
    exact hout hc
  · intro heq
    refine hout ?_
    rw [← String.toList_ofList (l := x), heq, String.toList_append]
    exact List.mem_append_left _ hc

/-- What is known of a text of each class; a text without a slash is one segment. -/
def argClasses : Classes Convertor.accepts PathArg where
  holds arg x := match arg.cls with
    | .int => IsInt x
    | .number => IsNumber x
    | .text => x ≠ [] ∧ '/' ∉ x
  never arg b := arg.cls != .text && b.toList.any fun c => !isNumberChar c
  always arg k := arg.cls == .int || k == .str
  never_sound := by
    rintro ⟨name, cls⟩ b x hnever hx
    cases cls with
    | int => exact IsNumber.ne (IsInt.isNumber hx) hnever
    | number => exact IsNumber.ne hx hnever
    | text => cases hnever
  always_sound := by
    rintro ⟨name, cls⟩ k x halways hx
    cases cls with
    | int => exact IsInt.accepts hx k
    | number =>
        obtain rfl : k = .str := by simpa using halways
        simpa [Convertor.accepts] using hx.1
    | text =>
        obtain rfl : k = .str := by simpa using halways
        simpa [Convertor.accepts] using hx.1

theorem ok_of_map {ε α β : Type} {f : α → β} {x : Except ε α} {b : β} (h : x.map f = .ok b) :
    ∃ a, x = .ok a ∧ b = f a := by
  cases x with
  | error e => cases h
  | ok a => exact ⟨a, rfl, (Except.ok.inj h).symm⟩

/-! ## Types of arguments -/

def wholeDouble : Double → Bool
  | .finite q _ => q.den = 1
  | _ => false

/-- The value is of a type of the schema language; whole floats are integers. -/
def Value.hasKind (kind : String) : Value → Bool
  | .scalar .null => kind = "null"
  | .scalar (.bool _) => kind = "boolean"
  | .scalar (.int _) => kind = "integer" || kind = "number"
  | .scalar (.float d) => kind = "number" || (kind = "integer" && wholeDouble d)
  | .scalar (.str _) => kind = "string"
  | .list _ => kind = "array"
  | .tuple _ => false
  | .dict _ => kind = "object"

/-- The keyword `type`. -/
def hasType : Option Json → Value → Bool
  | some (.str kind), v => v.hasKind kind
  | some (.arr [.str kind, .str kind']), v => v.hasKind kind || v.hasKind kind'
  | _, _ => true

/-- `jsonschema.validate`, and what is used of it: the keywords `required` and `type`. -/
structure Validator where
  accepts  : McpTool → Args → Bool
  required : ∀ tool args, accepts tool args = true → ∀ name ∈ tool.required, ∃ v, Dict.get name args = some v
  types    : ∀ tool args, accepts tool args = true → ∀ name prop v, (name, prop) ∈ tool.schema.properties →
    Dict.get name args = some v → hasType (prop.get? "type") v = true

/-- A validator that looks at these two keywords only. -/
def typeValidator : Validator where
  accepts tool args := (tool.required.all fun name => (Dict.get name args).isSome) &&
    tool.schema.properties.all fun p => (Dict.get p.1 args).all (hasType (p.2.get? "type"))
  required tool args h name hname :=
    Option.isSome_iff_exists.mp (List.all_eq_true.mp (Bool.and_eq_true_iff.mp h).1 name hname)
  types tool args h name prop v hprop hget := by
    have htypes := List.all_eq_true.mp (Bool.and_eq_true_iff.mp h).2 (name, prop) hprop
    rw [hget] at htypes
    exact htypes

/-- What an argument becomes in a path: what it is as a text. -/
def FormatsTo : PathPart PathArg → List Char → Prop
  | .lit text, x => x = text.toList
  | .place ⟨_, .int⟩, x => IsInt x
  | .place ⟨_, .number⟩, x => IsNumber x
  | .place ⟨_, .text⟩, _ => True

/-- The argument is one that the schema wants, with a type that suits its class. -/
def argTyped (tool : McpTool) (arg : PathArg) : Bool :=
  tool.required.contains arg.name && tool.schema.properties.any fun p => p.1 = arg.name &&
    match arg.cls with
    | .int => takesId p.2
    | .number => isTypeNamed "integer" (p.2.get? "type")
    | .text => isTypeNamed "string" (p.2.get? "type")

def partTyped (tool : McpTool) : PathPart PathArg → Bool
  | .lit text => text ≠ "" && !text.toList.contains '/'
  | .place arg => argTyped tool arg

def pathTyped (tool : McpTool) (call : Rest) : Bool := !call.path.isEmpty && call.path.all (partTyped tool)

/-- **The check of the catalog**: every argument of a path is required, with its type. -/
theorem allTools_typed : ∀ tool ∈ allTools, (tool.handler.call.all fun call => pathTyped tool call) = true := by
  decide +kernel

/-! ### What `coerce_ids` leaves -/

variable {properties : List (String × Json)} {args out : Args} {name : String} {prop : Json} {v : Value}

theorem coerceProperty_takesId (htakes : takesId prop = true) (h : coerceProperty args (name, prop) = .ok out)
    (hget : Dict.get name out = some v) : v = .scalar .null ∨ ∃ n : Int, v = .int n := by
  unfold coerceProperty at h
  split at h
  · rename_i hnone
    cases h
    rw [hnone] at hget
    cases hget
  · rename_i hnull
    cases h
    rw [hnull] at hget
    exact .inl (Option.some.inj hget).symm
  · rename_i value hsome hvalue
    right
    simp only [coerced, if_pos htakes] at h
    cases hid : toId name value with
    | error e =>
        rw [hid] at h
        cases h
    | ok n =>
        rw [hid] at h
        cases h
        rw [Dict.get_set, if_pos rfl] at hget
        exact ⟨n, (Option.some.inj hget).symm⟩

theorem get_of_rounds (h : properties.foldlM coerceProperty args = .ok out) (hnot : name ∉ properties.map Prod.fst) :
    Dict.get name out = Dict.get name args := by
  induction properties generalizing args with
  | nil =>
      cases h
      rfl
  | cons p properties ih =>
      obtain ⟨hne, hnot⟩ := not_or.mp (List.mem_cons.not.mp hnot)
      rw [List.foldlM_cons] at h
      cases hround : coerceProperty args p with
      | error e =>
          rw [hround] at h
          cases h
      | ok args' =>
          rw [hround] at h
          exact (ih h hnot).trans (get_coerceProperty hround (Ne.symm hne))

/-- **An id is an integer** once the ids are coerced, or not given. -/
theorem coerceIds_takesId (hnodup : (properties.map Prod.fst).Nodup) (hmem : (name, prop) ∈ properties)
    (htakes : takesId prop = true) (h : properties.foldlM coerceProperty args = .ok out)
    (hget : Dict.get name out = some v) : v = .scalar .null ∨ ∃ n : Int, v = .int n := by
  induction properties generalizing args with
  | nil => cases hmem
  | cons p properties ih =>
      obtain ⟨hhead, htail⟩ := List.nodup_cons.mp hnodup
      rw [List.foldlM_cons] at h
      cases hround : coerceProperty args p with
      | error e =>
          rw [hround] at h
          cases h
      | ok args' =>
          rw [hround] at h
          rcases List.mem_cons.mp hmem with rfl | hmem
          · -- the rounds that follow leave the argument
            rw [get_of_rounds h hhead] at hget
            exact coerceProperty_takesId htakes hround hget
          · exact ih htail hmem h

theorem isIdType_type {t : Option Json} (h : isIdType t = true) (v : Value) :
    hasType t v = (v.hasKind "string" || v.hasKind "integer") := by
  unfold isIdType at h
  split at h
  · rename_i a b
    obtain ⟨ha, hb⟩ := Bool.and_eq_true_iff.mp h
    rw [of_decide_eq_true ha, of_decide_eq_true hb]
    rfl
  · cases h

theorem isTypeNamed_type {kind : String} {t : Option Json} (h : isTypeNamed kind t = true) (v : Value) :
    hasType t v = v.hasKind kind := by
  unfold isTypeNamed at h
  split at h
  · rw [of_decide_eq_true h]
    rfl
  · cases h

variable {texts : Texts} {validator : Validator} {tool : McpTool} {call : Rest} {segs : List (List Char)}

theorem integer_of_hasKind (h : v.hasKind "integer" = true) :
    (∃ n : Int, v = .int n) ∨ ∃ q representable, q.den = 1 ∧ v = .scalar (.float (.finite q representable)) := by
  cases v with
  | scalar s =>
      cases s with
      | int n => exact .inl ⟨n, rfl⟩
      | float d =>
          cases d with
          | finite q representable =>
              have hwhole : q.den = 1 := by simpa [Value.hasKind, wholeDouble] using h
              exact .inr ⟨q, representable, hwhole, rfl⟩
          | infinite negative => simp [Value.hasKind, wholeDouble] at h
          | nan => simp [Value.hasKind, wholeDouble] at h
      | _ => simp [Value.hasKind] at h
  | _ => simp [Value.hasKind] at h

theorem isInt_of_formatArg {n : Int} {x : List Char} (h : formatArg texts (.int n) = .ok x) : IsInt x := by
  simp only [formatArg] at h
  split at h
  · rename_i text hstr
    obtain ⟨hshort, rfl⟩ := Decimal.str_eq_some.mp hstr
    exact ⟨n, hshort, (Except.ok.inj h).symm⟩
  · cases h

/-- An argument of the class of integers is an integer. -/
theorem int_of_argTyped {arg : PathArg} (htyped : argTyped tool arg = true) (hcls : arg.cls = .int) {given : Args}
    (hcoerce : coerceIds given tool.schema = .ok args) (haccepts : validator.accepts tool args = true)
    (hget : Dict.get arg.name args = some v) : ∃ n : Int, v = .int n := by
  obtain ⟨-, hprop⟩ := Bool.and_eq_true_iff.mp htyped
  obtain ⟨⟨name, prop⟩, hmem, hboth⟩ := List.any_eq_true.mp hprop
  obtain ⟨hname, htakes⟩ := Bool.and_eq_true_iff.mp hboth
  obtain rfl := of_decide_eq_true hname
  rw [hcls] at htakes
  have htype := validator.types tool args haccepts _ prop v hmem hget
  rw [isIdType_type htakes] at htype
  rcases coerceIds_takesId tool.schema.hnodup hmem htakes hcoerce hget with rfl | hint
  · exact absurd htype (by decide)
  · exact hint

/-- What an argument of the schema's type is as a text. -/
theorem formatArg_typed {arg : PathArg} (htyped : argTyped tool arg = true) {given : Args}
    (hcoerce : coerceIds given tool.schema = .ok args) (haccepts : validator.accepts tool args = true)
    (hget : Dict.get arg.name args = some v) {x : List Char} (hformat : formatArg texts v = .ok x) :
    FormatsTo (.place arg) x := by
  have hint : arg.cls = .int → ∃ n : Int, v = .int n := fun hcls =>
    int_of_argTyped htyped hcls hcoerce haccepts hget
  obtain ⟨-, hprop⟩ := Bool.and_eq_true_iff.mp htyped
  obtain ⟨⟨name, prop⟩, hmem, hboth⟩ := List.any_eq_true.mp hprop
  obtain ⟨hname, hcls⟩ := Bool.and_eq_true_iff.mp hboth
  obtain rfl := of_decide_eq_true hname
  have htype := validator.types tool args haccepts _ prop v hmem hget
  obtain ⟨name, cls⟩ := arg
  cases cls with
  | int =>
      obtain ⟨n, rfl⟩ := hint rfl
      exact isInt_of_formatArg hformat
  | number =>
      rw [isTypeNamed_type hcls] at htype
      rcases integer_of_hasKind htype with ⟨n, rfl⟩ | ⟨q, representable, hwhole, rfl⟩
      · exact (isInt_of_formatArg hformat).isNumber
      · obtain rfl := Except.ok.inj hformat
        exact texts.whole q representable hwhole
  | text => trivial

/-- What a path becomes: its literals, and texts of the classes of its arguments. -/
theorem formatPath_typed {given : Args} (hcoerce : coerceIds given tool.schema = .ok args)
    (haccepts : validator.accepts tool args = true) {path : List (PathPart PathArg)}
    (htyped : path.all (partTyped tool) = true) (h : formatPath texts args path = .ok segs) :
    List.Forall₂ FormatsTo path segs := by
  induction path generalizing segs with
  | nil =>
      cases h
      exact .nil
  | cons part path ih =>
      obtain ⟨hpart, hpath⟩ := Bool.and_eq_true_iff.mp htyped
      cases part with
      | lit text =>
          obtain ⟨rest, hrest, rfl⟩ := ok_of_map h
          exact .cons rfl (ih hpath hrest)
      | place arg =>
          simp only [formatPath] at h
          split at h
          · cases h
          · rename_i v hget
            split at h
            · cases h
            · rename_i x hformat
              obtain ⟨rest, hrest, rfl⟩ := ok_of_map h
              exact .cons (formatArg_typed hpart hcoerce haccepts hget hformat) (ih hpath hrest)

/-! ## Where a call leads -/

/-- The route that the call of a tool runs: its own, but `download_media` reads the message. -/
def McpTool.executed (tool : McpTool) : Tool :=
  match tool.handler with
  | .media _ => .getSingleMessage
  | _ => tool.route

def baseParts (platform : Platform) : List (PathPart PathArg) := (platformBase platform).map PathPart.lit

/-- The call meets its own route, before any other. -/
def meetsOwn (platform : Platform) (tool : McpTool) (call : Rest) : Bool :=
  match firstOf argClasses (platformTable platform) call.method (baseParts platform ++ call.path) with
  | some r => intoAll argClasses (baseParts platform ++ call.path) r.template && r.name = tool.executed
  | none => false

/-- **The check of the catalog against the tables.** -/
theorem allTools_meet (platform : Platform) : ∀ tool ∈ allTools, supported tool platform = true →
    (tool.handler.call.all fun call => meetsOwn platform tool call) = true := by
  cases platform with
  | telegram => decide +kernel
  | max => decide +kernel

theorem segments_prefix (platform : Platform) :
    segments (platformPrefix platform).toList = (platformBase platform).map String.toList := by
  cases platform with
  | telegram => decide +kernel
  | max => decide +kernel

theorem segments_fullPath (platform : Platform) (h : segs ≠ []) :
    segments (fullPath platform segs) =
      (platformBase platform).map String.toList ++ segs.flatMap fun x => segments x := by
  unfold fullPath
  rw [segments_append, segments_prefix]
  exact congrArg _ (splitOn_joinPath h)

/-- A text that is one segment of a path. -/
def OneSegment (x : List Char) : Prop := x ≠ [] ∧ '/' ∉ x

theorem flatMap_segments (h : ∀ x ∈ segs, OneSegment x) : (segs.flatMap fun x => segments x) = segs := by
  have hsingle : (segs.flatMap fun x => segments x) = segs.flatMap fun x => [x] :=
    List.flatMap_congr fun x hx => List.splitOn_eq_singleton (h x hx).2
  rw [hsingle, List.flatMap_singleton']

theorem takes_base (platform : Platform) {path : List (PathPart PathArg)}
    (h : List.Forall₂ (PathPart.takes argClasses) path segs) :
    List.Forall₂ (PathPart.takes argClasses) (baseParts platform ++ path)
      ((platformBase platform).map String.toList ++ segs) := by
  unfold baseParts
  induction platformBase platform with
  | nil => exact h
  | cons b base ih => exact .cons rfl ih

theorem takes_of_formatsTo {path : List (PathPart PathArg)} (h : List.Forall₂ FormatsTo path segs)
    (hone : ∀ x ∈ segs, OneSegment x) : List.Forall₂ (PathPart.takes argClasses) path segs := by
  induction h with
  | nil => exact .nil
  | @cons part x path segs hx _ ih =>
      obtain ⟨hhead, htail⟩ := List.forall_mem_cons.mp hone
      refine .cons ?_ (ih htail)
      cases part with
      | lit text => exact hx
      | place arg =>
          obtain ⟨name, cls⟩ := arg
          cases cls with
          | int => exact hx
          | number => exact hx
          | text => exact hhead

variable {platform : Platform}

/-- **One segment each.** The call meets its own route. -/
theorem find_own (htool : tool ∈ allTools) (hcall : tool.handler.call = some call)
    (hsupported : supported tool platform = true) (hformat : List.Forall₂ FormatsTo call.path segs)
    (hne : segs ≠ []) (hone : ∀ x ∈ segs, OneSegment x) :
    ∃ r, find platform call.method (fullPath platform segs) = some r ∧ r.name = tool.executed := by
  have hmeets := allTools_meet platform tool htool hsupported
  rw [hcall] at hmeets
  have hcheck : meetsOwn platform tool call = true := hmeets
  unfold meetsOwn at hcheck
  split at hcheck
  · rename_i r hfirst
    obtain ⟨hinto, hname⟩ := Bool.and_eq_true_iff.mp hcheck
    refine ⟨r, ?_, of_decide_eq_true hname⟩
    unfold find
    rw [segments_fullPath platform hne, flatMap_segments hone]
    exact find_of_parts (takes_base platform (takes_of_formatsTo hformat hone)) hfirst hinto
  · cases hcheck

/-! ### Texts that are no segment -/

/-- The calls that put a text into their path. -/
def folderCalls : List (String × List (PathPart PathArg)) :=
  [("PATCH", ["folders", folderArg]), ("POST", ["folders", folderArg, "delete"])]

def hasText (path : List (PathPart PathArg)) : Bool :=
  path.any fun
    | .place ⟨_, .text⟩ => true
    | _ => false

/-- Only the calls for a folder have a text in their path, and only MAX has them. -/
theorem allTools_text : ∀ tool ∈ allTools, (tool.handler.call.all fun call => !hasText call.path ||
    folderCalls.contains (call.method, call.path) && !supported tool .telegram) = true := by
  decide +kernel

theorem IsNumber.oneSegment {x : List Char} (h : IsNumber x) : OneSegment x := by
  refine ⟨h.1, fun hmem => ?_⟩
  have hslash := h.2 '/' hmem
  revert hslash
  decide

/-- Without a text all segments are as they should be. -/
theorem oneSegment_of_not_hasText {path : List (PathPart PathArg)} (h : List.Forall₂ FormatsTo path segs)
    (htyped : path.all (partTyped tool) = true) (htext : hasText path = false) : ∀ x ∈ segs, OneSegment x := by
  induction h with
  | nil => exact fun x hx => absurd hx List.not_mem_nil
  | @cons part x path segs hx _ ih =>
      obtain ⟨hpart, hpath⟩ := Bool.and_eq_true_iff.mp htyped
      obtain ⟨hnot, hrest⟩ := Bool.or_eq_false_iff.mp htext
      refine List.forall_mem_cons.mpr ⟨?_, ih hpath hrest⟩
      cases part with
      | lit text =>
          obtain rfl : x = text.toList := hx
          simpa [partTyped, OneSegment] using hpart
      | place arg =>
          obtain ⟨name, cls⟩ := arg
          cases cls with
          | int => exact (IsInt.isNumber hx).oneSegment
          | number => exact IsNumber.oneSegment hx
          | text => cases hnot

/-- Behind `/folders/`, with `n` segments behind the folder: no route is longer, and one that is as long has a
    parameter there. -/
def folderCheck (n : Nat) (r : Route Convertor Tool) : Bool :=
  r.template.length < 6 + n || (r.template[4]?.any fun s => PathPart.apart argClasses (.lit "folders") s) ||
    r.template.length = 6 + n && r.template[5]? = some (.param .str)

theorem maxTable_folders : ∀ call ∈ folderCalls, ∀ r ∈ maxTable, r.allows call.1 = true →
    folderCheck (call.2.length - 2) r = true := by
  decide +kernel

/-- **No segment, no route.** -/
theorem find_folder {method : String} {t : List Char} (tail : List (List Char))
    (hcheck : ∀ r ∈ maxTable, r.allows method = true → folderCheck tail.length r = true)
    (htail : ∀ x ∈ tail, OneSegment x) (ht : ¬ OneSegment t) :
    find .max method (fullPath .max ("folders".toList :: t :: tail)) = none := by
  have hsegs : segments (fullPath .max ("folders".toList :: t :: tail)) =
      maxBase.map String.toList ++ "folders".toList :: (segments t ++ tail) := by
    have hfolders : segments "folders".toList = ["folders".toList] := by decide +kernel
    rw [segments_fullPath .max (List.cons_ne_nil _ _), List.flatMap_cons, List.flatMap_cons, flatMap_segments htail,
      hfolders]
    rfl
  unfold find
  rw [hsegs, List.find?_eq_none]
  intro r hr hmatches
  obtain ⟨hfits, hallows⟩ := Bool.and_eq_true_iff.mp hmatches
  have hlength := length_of_fitsAll hfits
  have hbase : (maxBase.map String.toList).length = 4 := rfl
  have hpos := List.length_pos_of_ne_nil (segments_ne_nil t)
  simp only [List.length_append, List.length_cons, hbase] at hlength
  have hr := hcheck r hr hallows
  unfold folderCheck at hr
  rw [Bool.or_eq_true, Bool.or_eq_true, Bool.and_eq_true] at hr
  rcases hr with (hshort | hapart) | ⟨hlong, hparam⟩
  · have hlt := of_decide_eq_true hshort
    omega
  · -- another area of the API
    obtain ⟨s, hs, hapart⟩ := (Option.any_eq_true _ _).mp hapart
    have hlast := fitsLast_of_fitsAll hfits hs rfl
    rw [PathPart.fitsLast_of_apart hapart rfl] at hlast
    cases hlast
  · -- the text is one segment, so it is empty
    have heq := of_decide_eq_true hlong
    have hone : (segments t).length = 1 := by omega
    have hslash : '/' ∉ t := by
      intro hmem
      have htwo := two_le_length_splitOn hmem
      unfold segments at hone
      omega
    obtain rfl : t = [] := by
      by_contra hne
      exact ht ⟨hne, hslash⟩
    have hlast := fitsLast_of_fitsAll hfits (of_decide_eq_true hparam) rfl
    cases hlast

/-- A call for a folder: its segments are literals but for one. -/
theorem find_folderCall (hmem : (call.method, call.path) ∈ folderCalls)
    (hformat : List.Forall₂ FormatsTo call.path segs) (hbad : ∃ x ∈ segs, ¬ OneSegment x) :
    find .max call.method (fullPath .max segs) = none := by
  have hcheck := maxTable_folders _ hmem
  have hfolders : OneSegment "folders".toList := ⟨by decide, by decide +kernel⟩
  have hdelete : OneSegment "delete".toList := ⟨by decide, by decide +kernel⟩
  obtain ⟨x, hx, hbad⟩ := hbad
  rcases List.mem_cons.mp hmem with heq | hmem
  · obtain ⟨hmethod, hpath⟩ := Prod.mk.inj heq
    rw [hpath] at hformat hcheck
    cases hformat with
    | cons hfirst hformat =>
        cases hformat with
        | @cons _ t _ _ _ hformat =>
            cases hformat
            obtain rfl := hfirst
            refine find_folder [] hcheck (List.forall_mem_nil _) ?_
            rcases List.mem_cons.mp hx with rfl | hx
            · exact absurd hfolders hbad
            · obtain rfl := List.mem_singleton.mp hx
              exact hbad
  · obtain ⟨hmethod, hpath⟩ := Prod.mk.inj (List.mem_singleton.mp hmem)
    rw [hpath] at hformat hcheck
    cases hformat with
    | cons hfirst hformat =>
        cases hformat with
        | @cons _ t _ _ _ hformat =>
            cases hformat with
            | cons hlast hformat =>
                cases hformat
                obtain rfl := hfirst
                obtain rfl := hlast
                refine find_folder ["delete".toList] hcheck (List.forall_mem_singleton.mpr hdelete) ?_
                rcases List.mem_cons.mp hx with rfl | hx
                · exact absurd hfolders hbad
                · rcases List.mem_cons.mp hx with rfl | hx
                  · exact hbad
                  · obtain rfl := List.mem_singleton.mp hx
                    exact absurd hdelete hbad

/-- **Where a call leads.** A call with arguments of the schema's types runs the route it is authorized for, or no
    route at all: when a text of its path is no segment. -/
theorem find_cases (htool : tool ∈ allTools) (hcall : tool.handler.call = some call)
    (hsupported : supported tool platform = true) {given : Args} (hcoerce : coerceIds given tool.schema = .ok args)
    (haccepts : validator.accepts tool args = true) (hformat : formatPath texts args call.path = .ok segs) :
    (∃ r, find platform call.method (fullPath platform segs) = some r ∧ r.name = tool.executed) ∨
      (∃ x ∈ segs, ¬ OneSegment x) ∧ find platform call.method (fullPath platform segs) = none := by
  have htyped := allTools_typed tool htool
  rw [hcall] at htyped
  obtain ⟨hnonempty, hall⟩ := Bool.and_eq_true_iff.mp (show pathTyped tool call = true from htyped)
  have hforall := formatPath_typed hcoerce haccepts hall hformat
  have hne : segs ≠ [] := by
    rintro rfl
    rw [List.forall₂_nil_right_iff.mp hforall] at hnonempty
    cases hnonempty
  by_cases hone : ∀ x ∈ segs, OneSegment x
  · exact .inl (find_own htool hcall hsupported hforall hne hone)
  · have htext := allTools_text tool htool
    rw [hcall] at htext
    rcases Bool.or_eq_true_iff.mp (show (!hasText call.path || _) = true from htext) with hnot | hfolder
    · exact absurd (oneSegment_of_not_hasText hforall hall (by simpa using hnot)) hone
    · obtain ⟨hmem, htelegram⟩ := Bool.and_eq_true_iff.mp hfolder
      cases platform with
      | telegram =>
          rw [hsupported] at htelegram
          cases htelegram
      | max =>
          push Not at hone
          exact .inr ⟨hone, find_folderCall (List.contains_iff_mem.mp hmem) hforall hone⟩

end MyPerson.Mcp
