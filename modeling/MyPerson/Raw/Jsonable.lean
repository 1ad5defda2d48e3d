import Mathlib.Algebra.Group.Nat.Defs
import MyPerson.Lib.Dict

/-!
# `Raw.Jsonable` — platform objects as raw

`app/utils/raw.py`: `jsonable`, which turns what the platforms' clients hand over into values a jsonb column takes,
and `strip_bytes_markers`, which turns the stored markers of byte strings into nulls. A marker is a dictionary like
any other, so one that the platform itself sent is taken for a byte string.

## Contents
- `Text`, `Moment`, `Value`;
- `jsonable`, `stripBytesMarkers`;
- `IsJson`, `dropBytes`, `HasMarker`;
- `jsonable_valid`.
-/

namespace MyPerson.Raw

open Lib

/-! ## Texts -/

/-- A code point, surrogates among them. -/
abbrev CodePoint := Fin 0x110000

/-- A `str`. -/
abbrev Text := List CodePoint

def codePoint (n : Nat) : CodePoint := Fin.ofNat 0x110000 n

def ofString (s : String) : Text := s.toList.map fun c => codePoint c.toNat

def nul : CodePoint := codePoint 0

def isSurrogate (c : CodePoint) : Bool := 0xD800 ≤ c.val && c.val ≤ 0xDFFF

/-- `value.encode("utf-8", "replace").decode("utf-8")`: each surrogate becomes a question mark. -/
def replaceSurrogates (s : Text) : Text := s.map fun c => if isSurrogate c then codePoint '?'.toNat else c

/-- `_text`. -/
def text (value : Text) : Text :=
  let value := if value.contains nul then value.filter (· ≠ nul) else value
  if value.any isSurrogate then replaceSurrogates value else value

/-- A text that jsonb takes. -/
def Clean (s : Text) : Prop := ∀ c ∈ s, c ≠ nul ∧ isSurrogate c = false

instance (s : Text) : Decidable (Clean s) := List.decidableBAll _ _

theorem text_clean (s : Text) : Clean (text s) := by
  have hquestion : codePoint '?'.toNat ≠ nul ∧ isSurrogate (codePoint '?'.toNat) = false := by decide
  have hreplaced : ∀ t : Text, (∀ c ∈ t, c ≠ nul) →
      Clean (if t.any isSurrogate then replaceSurrogates t else t) := by
    intro t ht c hc
    split at hc
    · obtain ⟨c', hc', rfl⟩ := List.mem_map.mp hc
      split
      · exact hquestion
      · rename_i hnot
        exact ⟨ht c' hc', Bool.eq_false_iff.mpr hnot⟩
    · rename_i hnone
      exact ⟨ht c hc, Bool.eq_false_iff.mpr fun hsur => hnone (List.any_eq_true.mpr ⟨c, hc, hsur⟩)⟩
  refine hreplaced _ fun c hc => ?_
  split at hc
  · exact of_decide_eq_true (List.mem_filter.mp hc).2
  · rename_i hnot
    rintro rfl
    exact hnot (List.contains_iff_mem.mpr hc)

theorem text_of_clean {s : Text} (h : Clean s) : text s = s := by
  have hnul : ¬ s.contains nul = true := fun hmem => (h nul (List.contains_iff_mem.mp hmem)).1 rfl
  have hsur : ¬ s.any isSurrogate = true := by
    intro hany
    obtain ⟨c, hc, hc'⟩ := List.any_eq_true.mp hany
    rw [(h c hc).2] at hc'
    cases hc'
  unfold text
  rw [if_neg hnul]
  exact if_neg hsur

/-! ## Dates -/

/-- The last `width` decimal digits: `%0<width>d` of a number that has no more. -/
def digits (width n : Nat) : Text := (List.range width).reverse.map fun i => codePoint ('0'.toNat + n / 10 ^ i % 10)

/-- A `date`, or a `datetime` with its offset from UTC in microseconds. -/
inductive Moment
  | date (year month day : Nat)
  | datetime (year month day hour minute second microsecond : Nat) (offset : Option Int)

def isoDate (year month day : Nat) : Text :=
  digits 4 year ++ ofString "-" ++ digits 2 month ++ ofString "-" ++ digits 2 day

/-- `_format_offset`. -/
def formatOffset : Option Int → Text
  | none => []
  | some offset =>
      let us := offset.natAbs
      ofString (if offset < 0 then "-" else "+") ++ digits 2 (us / 3600000000) ++ ofString ":" ++
        digits 2 (us / 60000000 % 60) ++
        (if us % 60000000 ≠ 0 then ofString ":" ++ digits 2 (us / 1000000 % 60) else []) ++
        (if us % 1000000 ≠ 0 then ofString "." ++ digits 6 (us % 1000000) else [])

def Moment.isoformat : Moment → Text
  | .date year month day => isoDate year month day
  | .datetime year month day hour minute second microsecond offset =>
      isoDate year month day ++ ofString "T" ++ digits 2 hour ++ ofString ":" ++ digits 2 minute ++ ofString ":" ++
        digits 2 second ++ (if microsecond ≠ 0 then ofString "." ++ digits 6 microsecond else []) ++
        formatOffset offset

theorem clean_append {s t : Text} (hs : Clean s) (ht : Clean t) : Clean (s ++ t) := fun c hc =>
  (List.mem_append.mp hc).elim (hs c) (ht c)

theorem clean_nil : Clean [] := fun _ hc => absurd hc List.not_mem_nil

theorem clean_digits (width n : Nat) : Clean (digits width n) := by
  intro c hc
  obtain ⟨i, -, rfl⟩ := List.mem_map.mp hc
  have hdigit : ∀ d : Nat, d < 10 →
      codePoint ('0'.toNat + d) ≠ nul ∧ isSurrogate (codePoint ('0'.toNat + d)) = false := by
    decide
  exact hdigit _ (Nat.mod_lt _ (by decide))

theorem clean_ite {P : Prop} [Decidable P] {s t : Text} (hs : Clean s) (ht : Clean t) : Clean (if P then s else t) := by
  split
  · exact hs
  · exact ht

theorem clean_isoformat (m : Moment) : Clean m.isoformat := by
  have hdash : Clean (ofString "-") := by decide
  have hcolon : Clean (ofString ":") := by decide
  have hdot : Clean (ofString ".") := by decide
  have hdate : ∀ y m d, Clean (isoDate y m d) := fun y m d =>
    clean_append (clean_append (clean_append (clean_append (clean_digits 4 y) hdash) (clean_digits 2 m)) hdash)
      (clean_digits 2 d)
  have hoffset : ∀ offset, Clean (formatOffset offset) := by
    rintro (_ | offset)
    · exact clean_nil
    · have hsign : Clean (ofString (if offset < 0 then "-" else "+")) := by split <;> decide
      refine clean_append (clean_append (clean_append (clean_append (clean_append hsign (clean_digits 2 _)) hcolon)
        (clean_digits 2 _)) (clean_ite (clean_append hcolon (clean_digits 2 _)) clean_nil))
        (clean_ite (clean_append hdot (clean_digits 6 _)) clean_nil)
  cases m with
  | date y m d => exact hdate y m d
  | datetime y m d h mi s us offset =>
      have hT : Clean (ofString "T") := by decide
      refine clean_append (clean_append (clean_append (clean_append (clean_append (clean_append (clean_append
        (clean_append (hdate y m d) hT) (clean_digits 2 h)) hcolon) (clean_digits 2 mi)) hcolon) (clean_digits 2 s))
        (clean_ite (clean_append hdot (clean_digits 6 us)) clean_nil)) (hoffset offset)

/-! ## Values -/

/-- A dictionary key: a string, or another object with what `str` makes of it. -/
inductive Key
  | str (s : Text)
  | other (object : Nat) (asText : Text)
deriving DecidableEq

/-- `str(k)`. -/
def Key.toText : Key → Text
  | .str s => s
  | .other _ asText => asText

/-- What a client's object may hold. A member of an `int` or `str` enum is an integer or a string too; a set has
    the order in which it is read; a model has its dump, an object of Telethon its dictionary, any other object
    what `str` makes of it. -/
inductive Value
  | none
  | bool (b : Bool)
  | int (n : Int)
  | intEnum (n : Int)
  | float (bits : UInt64)
  | str (s : Text)
  | strEnum (s : Text)
  | bytes (data : List UInt8)
  | date (m : Moment)
  | enum (value : Value)
  | dict (entries : List (Key × Value))
  | list (items : List Value)
  | tuple (items : List Value)
  | set (items : List Value)
  | model (modelDump : Value)
  | tlObject (toDict : Value)
  | object (asText : Text)

/-- `math.isfinite` of a double. -/
def isFinite (bits : UInt64) : Bool := bits.toNat / 2 ^ 52 % 2048 ≠ 2047

def markerKey : Key := .str (ofString "_bytes")

def bytesMarker (value : List UInt8) : Value := .dict [(markerKey, .int value.length)]

mutual

def jsonable : Value → Value
  | .none => .none
  | .bool b => .bool b
  | .int n => .int n
  | .intEnum n => .intEnum n
  | .str s => .str (text s)
  | .strEnum s => if text s = s then .strEnum s else .str (text s)
  | .float bits => if isFinite bits then .float bits else .none
  | .dict entries => .dict (Dict.ofPairs (jsonableEntries entries))
  | .list items => .list (jsonableItems items)
  | .tuple items => .list (jsonableItems items)
  | .set items => .list (jsonableItems items)
  | .bytes data => bytesMarker data
  | .date m => .str m.isoformat
  | .enum value => jsonable value
  | .model modelDump => jsonable modelDump
  | .tlObject toDict => jsonable toDict
  | .object asText => .str (text asText)

def jsonableItems : List Value → List Value
  | [] => []
  | v :: items => jsonable v :: jsonableItems items

def jsonableEntries : List (Key × Value) → List (Key × Value)
  | [] => []
  | (k, v) :: entries => (.str (text k.toText), jsonable v) :: jsonableEntries entries

end

/-- An integer, but not a boolean. -/
def Value.isInt : Value → Bool
  | .int _ => true
  | .intEnum _ => true
  | _ => false

def isBytesMarker : Value → Bool
  | .dict [(key, value)] => key = markerKey && value.isInt
  | _ => false

mutual

def stripBytesMarkers : Value → Value
  | .dict entries => if isBytesMarker (.dict entries) then .none else .dict (stripEntries entries)
  | .list items => .list (stripItems items)
  | value => value

def stripItems : List Value → List Value
  | [] => []
  | v :: items => stripBytesMarkers v :: stripItems items

def stripEntries : List (Key × Value) → List (Key × Value)
  | [] => []
  | (k, v) :: entries => (k, stripBytesMarkers v) :: stripEntries entries

end

theorem jsonableItems_eq (items : List Value) : jsonableItems items = items.map jsonable := by
  induction items with
  | nil => rfl
  | cons v items ih => rw [jsonableItems, ih, List.map_cons]

theorem jsonableEntries_eq (entries : List (Key × Value)) :
    jsonableEntries entries = entries.map fun e => (.str (text e.1.toText), jsonable e.2) := by
  induction entries with
  | nil => rfl
  | cons e entries ih => rw [jsonableEntries, ih, List.map_cons]

theorem stripItems_eq (items : List Value) : stripItems items = items.map stripBytesMarkers := by
  induction items with
  | nil => rfl
  | cons v items ih => rw [stripItems, ih, List.map_cons]

theorem stripEntries_eq (entries : List (Key × Value)) :
    stripEntries entries = entries.map fun e => (e.1, stripBytesMarkers e.2) := by
  induction entries with
  | nil => rfl
  | cons e entries ih => rw [stripEntries, ih, List.map_cons]

/-- The values a value is made of. -/
def Value.parts : Value → List Value
  | .enum value => [value]
  | .dict entries => entries.map Prod.snd
  | .list items => items
  | .tuple items => items
  | .set items => items
  | .model modelDump => [modelDump]
  | .tlObject toDict => [toDict]
  | _ => []

theorem sizeOf_part {v w : Value} (h : w ∈ v.parts) : sizeOf w < sizeOf v := by
  have hitems : ∀ items : List Value, w ∈ items → sizeOf w < 1 + sizeOf items := fun items hw => by
    have := List.sizeOf_lt_of_mem hw
    omega
  cases v with
  | dict entries =>
      obtain ⟨e, he, rfl⟩ := List.mem_map.mp h
      have hentry := List.sizeOf_lt_of_mem he
      have hpart : sizeOf e = 1 + sizeOf e.1 + sizeOf e.2 := rfl
      rw [Value.dict.sizeOf_spec]
      omega
  | list items => exact Value.list.sizeOf_spec items ▸ hitems items h
  | tuple items => exact Value.tuple.sizeOf_spec items ▸ hitems items h
  | set items => exact Value.set.sizeOf_spec items ▸ hitems items h
  | enum value =>
      rw [List.mem_singleton.mp h, Value.enum.sizeOf_spec]
      omega
  | model value =>
      rw [List.mem_singleton.mp h, Value.model.sizeOf_spec]
      omega
  | tlObject value =>
      rw [List.mem_singleton.mp h, Value.tlObject.sizeOf_spec]
      omega
  | _ => exact absurd h List.not_mem_nil

/-- Induction over the parts. -/
theorem Value.induction_parts {P : Value → Prop} (step : ∀ v, (∀ w ∈ v.parts, P w) → P v) (v : Value) : P v :=
  step v fun w _ => Value.induction_parts step w
termination_by sizeOf v
decreasing_by exact sizeOf_part ‹_›

/-! ## What jsonb takes -/

/-- A value of the JSON types; with `withBytes` byte strings may stand in it. -/
inductive IsJson (withBytes : Prop) : Value → Prop
  | none : IsJson withBytes .none
  | bool (b : Bool) : IsJson withBytes (.bool b)
  | int (n : Int) : IsJson withBytes (.int n)
  | intEnum (n : Int) : IsJson withBytes (.intEnum n)
  | float (bits : UInt64) (h : isFinite bits = true) : IsJson withBytes (.float bits)
  | str (s : Text) (h : Clean s) : IsJson withBytes (.str s)
  | strEnum (s : Text) (h : Clean s) : IsJson withBytes (.strEnum s)
  | bytes (data : List UInt8) (h : withBytes) : IsJson withBytes (.bytes data)
  | list (items : List Value) (h : ∀ v ∈ items, IsJson withBytes v) : IsJson withBytes (.list items)
  | dict (entries : List (Key × Value)) (hkeys : ∀ e ∈ entries, ∃ s, e.1 = .str s ∧ Clean s)
      (hnodup : (entries.map Prod.fst).Nodup) (h : ∀ e ∈ entries, IsJson withBytes e.2) :
      IsJson withBytes (.dict entries)

theorem jsonable_dict (entries : List (Key × Value)) : jsonable (.dict entries)
    = .dict (Dict.ofPairs (entries.map fun e => (.str (text e.1.toText), jsonable e.2))) := by
  rw [jsonable, jsonableEntries_eq]

theorem jsonable_list (items : List Value) : jsonable (.list items) = .list (items.map jsonable) := by
  rw [jsonable, jsonableItems_eq]

theorem isJson_marker {withBytes : Prop} (n : Int) : IsJson withBytes (.dict [(markerKey, .int n)]) := by
  have hclean : Clean (ofString "_bytes") := by decide
  refine .dict _ (fun e he => ?_) (List.nodup_singleton _) fun e he => ?_
  · rw [List.mem_singleton.mp he]
    exact ⟨_, rfl, hclean⟩
  · rw [List.mem_singleton.mp he]
    exact .int _

theorem isJson_items {withBytes : Prop} {items : List Value}
    (h : ∀ v ∈ items, IsJson withBytes (jsonable v)) : IsJson withBytes (.list (jsonableItems items)) := by
  rw [jsonableItems_eq]
  refine .list _ fun v hv => ?_
  obtain ⟨w, hw, rfl⟩ := List.mem_map.mp hv
  exact h w hw

/-- **Valid.** Whatever is converted, the result is of the JSON types. -/
theorem isJson_jsonable (v : Value) : IsJson False (jsonable v) := by
  induction v using Value.induction_parts with
  | step v ih =>
    cases v with
    | none => exact .none
    | bool b => exact .bool b
    | int n => exact .int n
    | intEnum n => exact .intEnum n
    | float bits =>
        rw [jsonable]
        split
        · exact .float bits ‹_›
        · exact .none
    | str s => exact .str _ (text_clean s)
    | strEnum s =>
        rw [jsonable]
        split
        · rename_i heq
          exact .strEnum s (heq ▸ text_clean s)
        · exact .str _ (text_clean s)
    | bytes data => exact isJson_marker data.length
    | date m => exact .str _ (clean_isoformat m)
    | object s => exact .str _ (text_clean s)
    | list items => exact isJson_items ih
    | tuple items => exact isJson_items ih
    | set items => exact isJson_items ih
    | enum value => exact ih value (List.mem_singleton_self value)
    | model value => exact ih value (List.mem_singleton_self value)
    | tlObject value => exact ih value (List.mem_singleton_self value)
    | dict entries =>
        rw [jsonable_dict]
        refine .dict _ (fun e he => ?_) (Dict.nodup_ofPairs _) fun e he => ?_
        · obtain ⟨e', -, rfl⟩ := List.mem_map.mp (Dict.mem_ofPairs he)
          exact ⟨_, rfl, text_clean _⟩
        · obtain ⟨e', he', rfl⟩ := List.mem_map.mp (Dict.mem_ofPairs he)
          exact ih e'.2 (List.mem_map_of_mem he')

/-- A dictionary with clean string keys keeps its keys and their order. -/
theorem jsonable_entries {entries : List (Key × Value)} (hkeys : ∀ e ∈ entries, ∃ s, e.1 = .str s ∧ Clean s)
    (hnodup : (entries.map Prod.fst).Nodup) :
    jsonable (.dict entries) = .dict (entries.map fun e => (e.1, jsonable e.2)) := by
  have hsame : (entries.map fun e => (Key.str (text e.1.toText), jsonable e.2))
      = entries.map fun e => (e.1, jsonable e.2) := by
    refine List.map_congr_left fun e he => ?_
    obtain ⟨s, hs, hclean⟩ := hkeys e he
    rw [hs, Key.toText, text_of_clean hclean]
  have hdistinct : ((entries.map fun e => (e.1, jsonable e.2)).map Prod.fst).Nodup := by
    rw [List.map_map]
    exact hnodup
  rw [jsonable_dict, hsame, Dict.ofPairs_eq hdistinct]

/-- **Identity.** A value of the JSON types is left as it is. -/
theorem jsonable_of_isJson {v : Value} (h : IsJson False v) : jsonable v = v := by
  induction h with
  | none => rfl
  | bool b => rfl
  | int n => rfl
  | intEnum n => rfl
  | float bits hfinite => rw [jsonable, if_pos hfinite]
  | str s hclean => rw [jsonable, text_of_clean hclean]
  | strEnum s hclean => rw [jsonable, if_pos (text_of_clean hclean)]
  | bytes data hfalse => exact hfalse.elim
  | list items _ ih => rw [jsonable_list, List.map_congr_left ih, List.map_id']
  | dict entries hkeys hnodup _ ih =>
      have hsame : (entries.map fun e => (e.1, jsonable e.2)) = entries := by
        refine (List.map_congr_left fun e he => ?_).trans (List.map_id' entries)
        rw [ih e he]
      rw [jsonable_entries hkeys hnodup, hsame]

/-! ## What is stripped -/

mutual

/-- The value with null in place of each byte string, and of each dictionary that `gone` names. -/
def nulled (gone : Value → Bool) : Value → Value
  | .bytes _ => .none
  | .dict entries => if gone (.dict entries) then .none else .dict (nulledEntries gone entries)
  | .list items => .list (nulledItems gone items)
  | value => value

def nulledItems (gone : Value → Bool) : List Value → List Value
  | [] => []
  | v :: items => nulled gone v :: nulledItems gone items

def nulledEntries (gone : Value → Bool) : List (Key × Value) → List (Key × Value)
  | [] => []
  | (k, v) :: entries => (k, nulled gone v) :: nulledEntries gone entries

end

/-- The value with null in place of each byte string. -/
def dropBytes (v : Value) : Value := nulled (fun _ => false) v

/-- The value with null in place of each byte string and of each dictionary that looks like a marker. -/
def dropMarked (v : Value) : Value := nulled isBytesMarker v

/-- Somewhere in the value stands a dictionary that looks like a marker. -/
inductive HasMarker : Value → Prop
  | here {v : Value} (h : isBytesMarker v = true) : HasMarker v
  | inside {v w : Value} (hw : w ∈ v.parts) (h : HasMarker w) : HasMarker v

section

variable {gone : Value → Bool}

theorem nulledItems_eq (items : List Value) : nulledItems gone items = items.map (nulled gone) := by
  induction items with
  | nil => rfl
  | cons v items ih => rw [nulledItems, ih, List.map_cons]

theorem nulledEntries_eq (entries : List (Key × Value)) :
    nulledEntries gone entries = entries.map fun e => (e.1, nulled gone e.2) := by
  induction entries with
  | nil => rfl
  | cons e entries ih => rw [nulledEntries, ih, List.map_cons]

theorem nulled_list (items : List Value) : nulled gone (.list items) = .list (items.map (nulled gone)) := by
  rw [nulled, nulledItems_eq]

theorem nulled_dict (entries : List (Key × Value)) : nulled gone (.dict entries)
    = if gone (.dict entries) then .none else .dict (entries.map fun e => (e.1, nulled gone e.2)) := by
  rw [nulled, nulledEntries_eq]

end

theorem strip_list (items : List Value) : stripBytesMarkers (.list items) = .list (items.map stripBytesMarkers) := by
  rw [stripBytesMarkers, stripItems_eq]

theorem strip_dict (entries : List (Key × Value)) : stripBytesMarkers (.dict entries)
    = if isBytesMarker (.dict entries) then .none else .dict (entries.map fun e => (e.1, stripBytesMarkers e.2)) := by
  rw [stripBytesMarkers, stripEntries_eq]

/-- The conversion makes no integer of anything else. -/
theorem isInt_jsonable {withBytes : Prop} {v : Value} (h : IsJson withBytes v) : (jsonable v).isInt = v.isInt := by
  cases h with
  | float bits hfinite => rw [jsonable, if_pos hfinite]
  | strEnum s hclean => rw [jsonable, if_pos (text_of_clean hclean)]
  | list items _ => rfl
  | dict entries _ _ _ => rfl
  | _ => rfl

/-- A dictionary looks like a marker after the conversion exactly when it did before. -/
theorem isBytesMarker_map {withBytes : Prop} {entries : List (Key × Value)}
    (h : ∀ e ∈ entries, IsJson withBytes e.2) :
    isBytesMarker (.dict (entries.map fun e => (e.1, jsonable e.2))) = isBytesMarker (.dict entries) := by
  cases entries with
  | nil => rfl
  | cons e entries =>
      cases entries with
      | nil =>
          show (_ && (jsonable e.2).isInt) = (_ && e.2.isInt)
          rw [isInt_jsonable (h e List.mem_cons_self)]
      | cons e' entries => rfl

/-- **Strip.** What is stripped from a converted value is its byte strings and what looks like their markers. -/
theorem strip_jsonable {v : Value} (h : IsJson True v) : stripBytesMarkers (jsonable v) = dropMarked v := by
  unfold dropMarked
  induction h with
  | none => rfl
  | bool b => rfl
  | int n => rfl
  | intEnum n => rfl
  | float bits hfinite =>
      rw [jsonable, if_pos hfinite]
      rfl
  | str s hclean =>
      rw [jsonable, text_of_clean hclean]
      rfl
  | strEnum s hclean =>
      rw [jsonable, if_pos (text_of_clean hclean)]
      rfl
  | bytes data _ =>
      show stripBytesMarkers (bytesMarker data) = _
      unfold bytesMarker
      rw [strip_dict]
      rfl
  | list items _ ih =>
      rw [jsonable_list, strip_list, nulled_list, List.map_map]
      exact congrArg _ (List.map_congr_left ih)
  | dict entries hkeys hnodup hvalues ih =>
      rw [jsonable_entries hkeys hnodup, strip_dict, nulled_dict, isBytesMarker_map hvalues, List.map_map]
      split
      · rfl
      · refine congrArg _ (List.map_congr_left fun e he => ?_)
        rw [← ih e he]
        rfl

/-- Only byte strings are lost exactly when nothing looks like a marker. -/
theorem dropMarked_eq_iff {v : Value} (h : IsJson True v) : dropMarked v = dropBytes v ↔ ¬ HasMarker v := by
  unfold dropMarked dropBytes
  induction h with
  | list items _ ih =>
      rw [nulled_list, nulled_list, Value.list.injEq, List.map_inj_left]
      constructor
      · rintro hall (hhere | ⟨hw, hmarker⟩)
        · cases hhere
        · exact (ih _ hw).mp (hall _ hw) hmarker
      · exact fun hnone v hv => (ih v hv).mpr fun hmarker => hnone (.inside hv hmarker)
  | dict entries _ _ _ ih =>
      rw [nulled_dict, nulled_dict, if_neg Bool.false_ne_true]
      by_cases hhere : isBytesMarker (.dict entries) = true
      · rw [if_pos hhere]
        exact iff_of_false nofun fun hnone => hnone (.here hhere)
      · rw [if_neg hhere, Value.dict.injEq, List.map_inj_left]
        constructor
        · rintro hall (hhere' | ⟨hw, hmarker⟩)
          · exact hhere hhere'
          · obtain ⟨e, he, rfl⟩ := List.mem_map.mp hw
            exact (ih e he).mp (Prod.mk.inj (hall e he)).2 hmarker
        · intro hnone e he
          rw [(ih e he).mpr fun hmarker => hnone (.inside (List.mem_map_of_mem he) hmarker)]
  | _ =>
      refine iff_of_true rfl ?_
      rintro (hhere | ⟨hw, -⟩)
      · cases hhere
      · exact absurd hw List.not_mem_nil

/-- **Raw.** The conversion of any value is of the JSON types; it leaves values of these types as they are, so
    converting twice changes nothing; and stripping a converted value puts null in place of its byte strings and
    of the dictionaries that look like their markers, so in place of byte strings only exactly when it has no such
    dictionary. -/
theorem jsonable_valid (v : Value) :
    IsJson False (jsonable v) ∧ (IsJson False v → jsonable v = v) ∧ jsonable (jsonable v) = jsonable v ∧
      (IsJson True v → stripBytesMarkers (jsonable v) = dropMarked v ∧
        (stripBytesMarkers (jsonable v) = dropBytes v ↔ ¬ HasMarker v)) := by
  have hvalid := isJson_jsonable v
  refine ⟨hvalid, jsonable_of_isJson, jsonable_of_isJson hvalid, fun h => ⟨strip_jsonable h, ?_⟩⟩
  rw [strip_jsonable h]
  exact dropMarked_eq_iff h

/-- The preview of a photo is stripped, and so is a dictionary that only looks like a marker. -/
theorem jsonable_valid_preview :
    IsJson True (.list [.bytes [255, 216], .dict [(markerKey, .int 3)]]) ∧
      stripBytesMarkers (jsonable (.list [.bytes [255, 216], .dict [(markerKey, .int 3)]])) = .list [.none, .none] := by
  have hjson : IsJson True (.list [.bytes [255, 216], .dict [(markerKey, .int 3)]]) := by
    refine .list _ fun v hv => ?_
    rcases List.mem_cons.mp hv with rfl | hv
    · exact .bytes _ trivial
    · rw [List.mem_singleton.mp hv]
      exact isJson_marker 3
  refine ⟨hjson, ((jsonable_valid _).2.2.2 hjson).1.trans ?_⟩
  rfl

/-- A dictionary of the platform that looks like a marker is lost. -/
theorem genuine_marker_lost :
    ¬ ∀ v : Value, IsJson True v → stripBytesMarkers (jsonable v) = dropBytes v := by
  intro h
  have hlost := h _ (isJson_marker 3)
  rw [strip_jsonable (isJson_marker 3)] at hlost
  cases hlost

end MyPerson.Raw
