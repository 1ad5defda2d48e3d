import MyPerson.Lib.Decimal
import MyPerson.Lib.Dict
import MyPerson.Lib.Double
import MyPerson.Lib.Json

/-!
# `Mcp.SafeInts` — ids past clients that read numbers as doubles

`safe_ints`, `_to_id` and `coerce_ids` of `app/mcp/tools.py`. What a tool returns goes out with the integers that a
double may not hold turned into strings; what comes back as an id is turned into an integer. Other objects than
dictionaries, lists, tuples and scalars do not occur in results, and the keys of a dictionary are strings. Python
neither writes nor reads integers of more than 4300 digits.

## Contents
- `Scalar`, `Value`, `safeInts`;
- `toId`, `coerceIds`;
- `Value.emitted`, what goes out; `Value.at`, `Node.emit`, `emitted_at`;
- `SentBack`, `toId_sentBack`;
- `HasLongId`, why `coerce_ids` raises (`coerceIds_crash`);
- `Delivered`, what a call of `coerce_ids` makes of one argument;
- `ids_survive`.
-/

namespace MyPerson.Mcp

open Lib

/-! ## Values -/

inductive Scalar
  | null
  | bool (b : Bool)
  | int (n : Int)
  | float (d : Double)
  | str (s : String)

inductive Value
  | scalar (s : Scalar)
  | list (items : List Value)
  | tuple (items : List Value)
  | dict (entries : List (String × Value))

/-- An integer as a value. -/
abbrev Value.int (n : Int) : Value := .scalar (.int n)

/-- `MAX_SAFE_INT`. -/
def maxSafeInt : Int := 2 ^ 53 - 1

/-- How a call ends without a result: a `ToolError`, or another exception with its type. -/
inductive Failure
  | tool (text : String)
  | crash (kind text : String)
deriving DecidableEq, Repr

/-- `str` of an integer with too many digits. -/
def tooLongToWrite : Failure :=
  .crash "ValueError" ("Exceeds the limit (4300 digits) for integer string conversion; " ++
    "use sys.set_int_max_str_digits() to increase the limit")

/-- `int` of a text with too many digits. -/
def tooLongToRead (count : Nat) : Failure :=
  .crash "ValueError" ("Exceeds the limit (4300 digits) for integer string conversion: value has " ++
    toString count ++ " digits; use sys.set_int_max_str_digits() to increase the limit")

/-! ## Out: `safe_ints` -/

/-- `safe_ints` of a scalar. -/
def Scalar.safe : Scalar → Except Failure Scalar
  | .int n =>
      if maxSafeInt < |n| then
        match Decimal.str n with
        | some text => .ok (.str text)
        | none => .error tooLongToWrite
      else .ok (.int n)
  | s => .ok s

mutual

/-- `safe_ints`. -/
def safeInts : Value → Except Failure Value
  | .scalar s => s.safe.map .scalar
  | .list items => (safeItems items).map .list
  | .tuple items => (safeItems items).map .list
  | .dict entries => (safeEntries entries).map .dict

def safeItems : List Value → Except Failure (List Value)
  | [] => .ok []
  | v :: items =>
      match safeInts v with
      | .error e => .error e
      | .ok w => (safeItems items).map (w :: ·)

def safeEntries : List (String × Value) → Except Failure (List (String × Value))
  | [] => .ok []
  | (k, v) :: entries =>
      match safeInts v with
      | .error e => .error e
      | .ok w => (safeEntries entries).map ((k, w) :: ·)

end

/-! ## In: `_to_id` and `coerce_ids` -/

def notAnId (key : String) : Failure := .tool s!"Error: {key} must be an integer id"

/-- `_to_id`. -/
def toId (key : String) : Value → Except Failure Int
  | .scalar (.int n) => .ok n
  | .scalar (.float (.finite q _)) =>
      if q.den = 1 ∧ |q| ≤ maxSafeInt then .ok q.num else .error (notAnId key)
  | .scalar (.str s) =>
      if Decimal.isWhole Decimal.isDecimal s.toList then
        match Decimal.parse s with
        | some n => .ok n
        | none => .error (tooLongToRead (Decimal.digitCount s.toList))
      else .error (notAnId key)
  | _ => .error (notAnId key)

/-- The type is `ID_TYPE["type"]`. -/
def isIdType : Option Json → Bool
  | some (.arr [.str a, .str b]) => a = "string" && b = "integer"
  | _ => false

/-- A property that takes an id. -/
def takesId (property : Json) : Bool := isIdType (property.get? "type")

/-- A property that takes a list of ids. -/
def takesIds (property : Json) : Bool :=
  match property.get? "type" with
  | some (.str kind) => kind = "array" && isIdType ((property.get? "items").bind (Json.get? "type"))
  | _ => false

/-- The properties of a schema; a schema is a dictionary, so no name comes twice. -/
structure Schema where
  properties : List (String × Json)
  hnodup     : (properties.map Prod.fst).Nodup

/-- What `coerce_ids` makes of one argument that is not `None`; an argument of another type stays. -/
def coerced (name : String) (property : Json) (value : Value) : Except Failure Value :=
  if takesId property then (toId name value).map Value.int
  else if takesIds property then
    match value with
    | .list items => (items.mapM (toId name)).map fun ns => .list (ns.map Value.int)
    | _ => .error (.tool s!"Error: {name} must be a list of integer ids")
  else .ok value

/-- One round of `coerce_ids`. -/
def coerceProperty (out : List (String × Value)) (property : String × Json) :
    Except Failure (List (String × Value)) :=
  match Dict.get property.1 out with
  | none | some (.scalar .null) => .ok out
  | some value => (coerced property.1 property.2 value).map fun coerced => Dict.set property.1 coerced out

/-- `coerce_ids`. -/
def coerceIds (args : List (String × Value)) (schema : Schema) : Except Failure (List (String × Value)) :=
  schema.properties.foldlM coerceProperty args

/-! ## What goes out -/

/-- The integers in a value. -/
inductive Value.Has (n : Int) : Value → Prop
  | int : Has n (.int n)
  | list {items : List Value} {v : Value} : v ∈ items → Has n v → Has n (.list items)
  | tuple {items : List Value} {v : Value} : v ∈ items → Has n v → Has n (.tuple items)
  | dict {entries : List (String × Value)} {k : String} {v : Value} : (k, v) ∈ entries → Has n v → Has n (.dict entries)

def Scalar.emitted : Scalar → Scalar
  | .int n => if maxSafeInt < |n| then .str (toString n) else .int n
  | s => s

mutual

/-- A value as it goes out, whatever Python can write. -/
def Value.emitted : Value → Value
  | .scalar s => .scalar s.emitted
  | .list items => .list (emittedItems items)
  | .tuple items => .list (emittedItems items)
  | .dict entries => .dict (emittedEntries entries)

def emittedItems : List Value → List Value
  | [] => []
  | v :: items => v.emitted :: emittedItems items

def emittedEntries : List (String × Value) → List (String × Value)
  | [] => []
  | (k, v) :: entries => (k, v.emitted) :: emittedEntries entries

end

theorem emittedItems_eq_map (items : List Value) : emittedItems items = items.map Value.emitted := by
  induction items with
  | nil => rfl
  | cons v items ih => rw [emittedItems, ih, List.map_cons]

theorem emittedEntries_eq_map (entries : List (String × Value)) :
    emittedEntries entries = entries.map fun e => (e.1, e.2.emitted) := by
  induction entries with
  | nil => rfl
  | cons e entries ih => rw [emittedEntries, ih, List.map_cons]

theorem safe_eq {s : Scalar} (h : ∀ n, s = .int n → Decimal.isShort n = true) : s.safe = .ok s.emitted := by
  cases s with
  | int n =>
      simp only [Scalar.safe, Scalar.emitted, Decimal.str, h n rfl, if_true]
      split <;> rfl
  | _ => rfl

mutual

/-- `safe_ints` gives what goes out when its integers have at most 4300 digits. -/
theorem safeInts_eq : ∀ v : Value, (∀ n, v.Has n → Decimal.isShort n = true) → safeInts v = .ok v.emitted
  | .scalar s, h => by
      have hsafe : s.safe = .ok s.emitted := safe_eq fun n hn => h n (hn ▸ .int)
      rw [safeInts, hsafe]
      rfl
  | .list items, h => by
      rw [safeInts, safeItems_eq items fun v hv n hn => h n (.list hv hn)]
      rfl
  | .tuple items, h => by
      rw [safeInts, safeItems_eq items fun v hv n hn => h n (.tuple hv hn)]
      rfl
  | .dict entries, h => by
      rw [safeInts, safeEntries_eq entries fun e he n hn => h n (.dict he hn)]
      rfl

theorem safeItems_eq : ∀ items : List Value, (∀ v ∈ items, ∀ n, v.Has n → Decimal.isShort n = true) →
    safeItems items = .ok (emittedItems items)
  | [], _ => rfl
  | v :: items, h => by
      rw [safeItems, safeInts_eq v (h v List.mem_cons_self)]
      simp only
      rw [safeItems_eq items fun w hw => h w (List.mem_cons_of_mem v hw)]
      rfl

theorem safeEntries_eq : ∀ entries : List (String × Value),
    (∀ e ∈ entries, ∀ n, e.2.Has n → Decimal.isShort n = true) → safeEntries entries = .ok (emittedEntries entries)
  | [], _ => rfl
  | (k, v) :: entries, h => by
      rw [safeEntries, safeInts_eq v (h (k, v) List.mem_cons_self)]
      simp only
      rw [safeEntries_eq entries fun e he => h e (List.mem_cons_of_mem (k, v) he)]
      rfl

end

/-- A small integer has few digits. -/
theorem isShort_of_le {n : Int} (h : |n| ≤ maxSafeInt) : Decimal.isShort n = true := by
  have hsmall : n.natAbs < 10 ^ 16 := by
    have hle : (n.natAbs : Int) ≤ maxSafeInt := by rwa [Int.natCast_natAbs]
    unfold maxSafeInt at hle
    omega
  rw [Decimal.isShort_iff]
  exact hsmall.trans_le (Nat.pow_le_pow_right (by decide) (by decide))

/-- An integer that went out. -/
theorem safeInts_int {n : Int} {w : Value} (h : safeInts (.int n) = .ok w) :
    Decimal.isShort n = true ∧ w = if maxSafeInt < |n| then .scalar (.str (toString n)) else .int n := by
  have hshort : Decimal.isShort n = true := by
    by_cases hout : maxSafeInt < |n|
    · cases hstr : Decimal.str n with
      | none =>
          simp only [safeInts, Scalar.safe, if_pos hout, hstr] at h
          cases h
      | some text => exact (Decimal.str_eq_some.mp hstr).1
    · exact isShort_of_le (not_lt.mp hout)
  refine ⟨hshort, ?_⟩
  have hall : ∀ m, Value.Has m (.int n) → Decimal.isShort m = true := by
    intro m hm
    cases hm
    exact hshort
  rw [safeInts_eq (.int n) hall] at h
  rw [← Except.ok.inj h]
  exact apply_ite Value.scalar _ _ _

/-- A list of integers that went out. -/
theorem safeInts_ints {ns : List Int} {w : Value} (h : safeInts (.list (ns.map Value.int)) = .ok w) :
    ∃ ws, w = .list ws ∧ List.Forall₂ (fun n v => safeInts (.int n) = .ok v) ns ws := by
  have hitems : ∀ {ns : List Int} {ws : List Value}, safeItems (ns.map Value.int) = .ok ws →
      List.Forall₂ (fun n v => safeInts (.int n) = .ok v) ns ws := by
    intro ns
    induction ns with
    | nil =>
        intro ws h
        cases h
        exact .nil
    | cons n ns ih =>
        intro ws h
        rw [List.map_cons, safeItems] at h
        cases hn : safeInts (.int n) with
        | error e =>
            rw [hn] at h
            cases h
        | ok v =>
            rw [hn] at h
            cases hrest : safeItems (ns.map Value.int) with
            | error e =>
                rw [hrest] at h
                cases h
            | ok vs =>
                rw [hrest] at h
                cases h
                exact .cons hn (ih hrest)
  rw [safeInts] at h
  cases hlist : safeItems (ns.map Value.int) with
  | error e =>
      rw [hlist] at h
      cases h
  | ok ws =>
      rw [hlist] at h
      cases h
      exact ⟨ws, rfl, hitems hlist⟩

/-! ## Places in a value -/

/-- A step into a list, a tuple or a dictionary. -/
inductive Step
  | item (index : Nat)
  | entry (key : String)

/-- What stands at a place: a scalar, or the outline of a list, a tuple or a dictionary. -/
inductive Node
  | scalar (s : Scalar)
  | items (isTuple : Bool) (count : Nat)
  | entries (keys : List String)

def Value.child : Value → Step → Option Value
  | .list items, .item i => items[i]?
  | .tuple items, .item i => items[i]?
  | .dict entries, .entry k => Dict.get k entries
  | _, _ => none

def Value.at (v : Value) : List Step → Option Value
  | [] => some v
  | step :: path => (v.child step).bind fun w => w.at path

def Value.node : Value → Node
  | .scalar s => .scalar s
  | .list items => .items false items.length
  | .tuple items => .items true items.length
  | .dict entries => .entries (entries.map Prod.fst)

/-- What a place turns into on the way out: an integer that a double may not hold becomes its decimal string, a
    tuple becomes a list, and nothing else changes. -/
def Node.emit : Node → Node
  | .scalar (.int n) =>
      if n < -maxSafeInt ∨ maxSafeInt < n then .scalar (.str (toString n)) else .scalar (.int n)
  | .items _ count => .items false count
  | node => node

theorem child_emitted (v : Value) (step : Step) : v.emitted.child step = (v.child step).map Value.emitted := by
  cases v with
  | scalar s => rfl
  | list items =>
      cases step with
      | item i => rw [Value.emitted, emittedItems_eq_map, Value.child, Value.child, List.getElem?_map]
      | entry k => rfl
  | tuple items =>
      cases step with
      | item i => rw [Value.emitted, emittedItems_eq_map, Value.child, Value.child, List.getElem?_map]
      | entry k => rfl
  | dict entries =>
      cases step with
      | item i => rfl
      | entry k => rw [Value.emitted, emittedEntries_eq_map, Value.child, Value.child, Dict.get_map]

theorem node_emitted (v : Value) : v.emitted.node = v.node.emit := by
  cases v with
  | scalar s =>
      cases s with
      | int n =>
          have hout : maxSafeInt < |n| ↔ n < -maxSafeInt ∨ maxSafeInt < n := by
            rw [lt_abs]
            omega
          simp only [Value.emitted, Scalar.emitted, Value.node, Node.emit, hout]
          split <;> rfl
      | null => rfl
      | bool b => rfl
      | float d => rfl
      | str s => rfl
  | list items => rw [Value.emitted, emittedItems_eq_map, Value.node, List.length_map]; rfl
  | tuple items => rw [Value.emitted, emittedItems_eq_map, Value.node, List.length_map]; rfl
  | dict entries => rw [Value.emitted, emittedEntries_eq_map, Value.node, List.map_map]; rfl

/-- **Out.** At every place stands what the value has there, as it is emitted. -/
theorem emitted_at (v : Value) (path : List Step) :
    (v.emitted.at path).map Value.node = ((v.at path).map Value.node).map Node.emit := by
  induction path generalizing v with
  | nil => exact congrArg some (node_emitted v)
  | cons step path ih =>
      rw [Value.at, Value.at, child_emitted]
      cases v.child step with
      | none => rfl
      | some w => exact ih w

/-! ## A client that reads numbers as doubles -/

/-- What may come back for a value that was emitted: a string as it is; for a number the double the client holds,
    written with or without a fraction; a list with its items. -/
inductive SentBack : Value → Value → Prop
  | str (s : String) : SentBack (.scalar (.str s)) (.scalar (.str s))
  | float {n : Int} {d : Double} (hread : d.Reads n) : SentBack (.int n) (.scalar (.float d))
  | whole {n k : Int} (representable : IsDouble k) (hread : (Double.finite k representable).Reads n) :
      SentBack (.int n) (.int k)
  | list {vs ws : List Value} (hitems : List.Forall₂ SentBack vs ws) : SentBack (.list vs) (.list ws)

/-- **Alone.** An id comes back as the integer that it is. -/
theorem toId_sentBack {n : Int} {w v : Value} (key : String) (hout : safeInts (.int n) = .ok w)
    (h : SentBack w v) : toId key v = .ok n := by
  obtain ⟨hshort, rfl⟩ := safeInts_int hout
  by_cases hout : maxSafeInt < |n|
  · -- too large for a double: a decimal string went out
    rw [if_pos hout] at h
    cases h
    simp only [toId, Decimal.isWhole_toString, Decimal.parse_toString hshort, if_true]
  · rw [if_neg hout] at h
    have hle : |n| ≤ maxSafeInt := not_lt.mp hout
    have hexact : |n| ≤ 2 ^ 53 := hle.trans (by decide)
    cases h with
    | float hread =>
        obtain ⟨representable, rfl⟩ := Double.reads_int hexact hread
        have hcast : |(n : ℚ)| ≤ maxSafeInt := by exact_mod_cast hle
        exact if_pos ⟨rfl, hcast⟩
    | whole representable hread =>
        obtain ⟨_, heq⟩ := Double.reads_int hexact hread
        rw [Double.finite.injEq, Int.cast_inj] at heq
        rw [heq]
        rfl

theorem mapM_toId_sentBack (key : String) {ns : List Int} {ws vs : List Value}
    (hout : List.Forall₂ (fun n w => safeInts (.int n) = .ok w) ns ws) (h : List.Forall₂ SentBack ws vs) :
    vs.mapM (toId key) = .ok ns := by
  induction hout generalizing vs with
  | nil =>
      cases h
      rfl
  | cons hone hrest ih =>
      cases h with
      | cons hhead htail =>
          rw [List.mapM_cons, toId_sentBack key hone hhead, ih htail]
          rfl

/-- What a property that takes an id makes of one that was sent back. -/
theorem coerced_id {name : String} {property : Json} {n : Int} {w v : Value} (htakes : takesId property = true)
    (hout : safeInts (.int n) = .ok w) (h : SentBack w v) : coerced name property v = .ok (.int n) := by
  unfold coerced
  rw [if_pos htakes, toId_sentBack name hout h]
  rfl

/-- What a property that takes a list of ids makes of one that was sent back. -/
theorem coerced_ids {name : String} {property : Json} {ns : List Int} {w v : Value}
    (htakes : takesIds property = true) (hout : safeInts (.list (ns.map Value.int)) = .ok w) (h : SentBack w v) :
    coerced name property v = .ok (.list (ns.map Value.int)) := by
  have hnot : ¬ takesId property = true := by
    intro hid
    unfold takesIds at htakes
    unfold takesId at hid
    cases htype : property.get? "type" with
    | none =>
        rw [htype] at hid
        cases hid
    | some kind =>
        rw [htype] at hid htakes
        cases kind with
        | str kind => cases hid
        | _ => cases htakes
  obtain ⟨ws, rfl, hemitted⟩ := safeInts_ints hout
  cases h with
  | list hitems =>
      unfold coerced
      rw [if_neg hnot, if_pos htakes]
      exact congrArg (Except.map _) (mapM_toId_sentBack name hemitted hitems)

/-! ## Arguments of a call -/

variable {args args' : List (String × Value)} {p : String × Json} {name : String} {v w : Value} {e : Failure}

/-- A round assigns what the property makes of its argument. -/
theorem coerceProperty_of_coerced (hget : Dict.get p.1 args = some v) (hnull : v ≠ .scalar .null)
    (h : coerced p.1 p.2 v = .ok w) : coerceProperty args p = .ok (Dict.set p.1 w args) := by
  have hround : coerceProperty args p = (coerced p.1 p.2 v).map fun w => Dict.set p.1 w args := by
    unfold coerceProperty
    rw [hget]
    split
    · rename_i heq
      cases heq
    · rename_i heq
      exact absurd (Option.some.inj heq) hnull
    · rename_i heq
      rw [Option.some.inj heq]
  rw [hround, h]
  rfl

/-- A round leaves the other arguments. -/
theorem get_coerceProperty (h : coerceProperty args p = .ok args') (hne : p.1 ≠ name) :
    Dict.get name args' = Dict.get name args := by
  unfold coerceProperty at h
  split at h
  · cases h
    rfl
  · cases h
    rfl
  · rename_i value hsome hget
    cases hcoerced : coerced p.1 p.2 value with
    | error e =>
        rw [hcoerced] at h
        cases h
    | ok value' =>
        rw [hcoerced] at h
        cases h
        rw [Dict.get_set, if_neg hne]

/-- A round fails by its own argument alone. -/
theorem coerceProperty_error (hget : Dict.get p.1 args' = Dict.get p.1 args)
    (h : coerceProperty args' p = .error e) : coerceProperty args p = .error e := by
  unfold coerceProperty at h ⊢
  rw [hget] at h
  split at h
  · cases h
  · cases h
  · rename_i value hsome hget
    cases hcoerced : coerced p.1 p.2 value with
    | error e' =>
        rw [hcoerced] at h
        cases h
        rfl
    | ok value' =>
        rw [hcoerced] at h
        cases h

/-- A text that is a whole number with too many digits. -/
def tooLong (s : String) : Bool := Decimal.isWhole Decimal.isDecimal s.toList && (Decimal.parse s).isNone

theorem toId_crash {key kind text : String} (h : toId key v = .error (.crash kind text)) :
    ∃ s, v = .scalar (.str s) ∧ tooLong s = true := by
  unfold toId at h
  split at h
  · cases h
  · split at h
    · cases h
    · cases h
  · rename_i s
    split at h
    · rename_i hwhole
      cases hparse : Decimal.parse s with
      | none => exact ⟨s, rfl, by rw [tooLong, hwhole, hparse]; rfl⟩
      | some n =>
          rw [hparse] at h
          cases h
    · cases h
  · cases h

/-- Some id among the arguments of these properties is too long for `int`. -/
def HasLongId (properties : List (String × Json)) (args : List (String × Value)) : Prop :=
  ∃ p ∈ properties, ∃ s, tooLong s = true ∧ (takesId p.2 = true ∧ Dict.get p.1 args = some (.scalar (.str s)) ∨
    takesIds p.2 = true ∧ ∃ items, Dict.get p.1 args = some (.list items) ∧ .scalar (.str s) ∈ items)

theorem mapM_toId_crash {key kind text : String} {items : List Value}
    (h : items.mapM (toId key) = .error (.crash kind text)) : ∃ s, .scalar (.str s) ∈ items ∧ tooLong s = true := by
  induction items with
  | nil => cases h
  | cons v items ih =>
      rw [List.mapM_cons] at h
      cases hid : toId key v with
      | error e =>
          rw [hid] at h
          cases h
          obtain ⟨s, rfl, hlong⟩ := toId_crash hid
          exact ⟨s, List.mem_cons_self, hlong⟩
      | ok n =>
          rw [hid] at h
          cases hrest : items.mapM (toId key) with
          | error e =>
              rw [hrest] at h
              cases h
              obtain ⟨s, hmem, hlong⟩ := ih hrest
              exact ⟨s, List.mem_cons_of_mem v hmem, hlong⟩
          | ok ns =>
              rw [hrest] at h
              cases h

theorem coerced_crash {kind text : String} (h : coerced name p.2 v = .error (.crash kind text)) :
    ∃ s, tooLong s = true ∧ (takesId p.2 = true ∧ v = .scalar (.str s) ∨
      takesIds p.2 = true ∧ ∃ items, v = .list items ∧ .scalar (.str s) ∈ items) := by
  unfold coerced at h
  split at h
  · rename_i htakes
    cases hid : toId name v with
    | error e =>
        rw [hid] at h
        cases h
        obtain ⟨s, hs, hlong⟩ := toId_crash hid
        exact ⟨s, hlong, .inl ⟨htakes, hs⟩⟩
    | ok n =>
        rw [hid] at h
        cases h
  · split at h
    · rename_i htakes
      split at h
      · rename_i items
        cases hids : items.mapM (toId name) with
        | error e =>
            rw [hids] at h
            cases h
            obtain ⟨s, hmem, hlong⟩ := mapM_toId_crash hids
            exact ⟨s, hlong, .inr ⟨htakes, items, rfl, hmem⟩⟩
        | ok ns =>
            rw [hids] at h
            cases h
      · cases h
    · cases h

/-- A round raises another exception for an id that is too long. -/
theorem coerceProperty_crash {kind text : String} (h : coerceProperty args p = .error (.crash kind text)) :
    ∃ s, tooLong s = true ∧ (takesId p.2 = true ∧ Dict.get p.1 args = some (.scalar (.str s)) ∨
      takesIds p.2 = true ∧ ∃ items, Dict.get p.1 args = some (.list items) ∧ .scalar (.str s) ∈ items) := by
  unfold coerceProperty at h
  split at h
  · cases h
  · cases h
  · rename_i value hnull hget
    cases hcoerced : coerced p.1 p.2 value with
    | error e =>
        rw [hcoerced] at h
        cases h
        obtain ⟨s, hlong, hs⟩ := coerced_crash hcoerced
        rw [hget]
        simpa using ⟨s, hlong, hs⟩
    | ok value' =>
        rw [hcoerced] at h
        cases h

/-- `coerce_ids` raises another exception only for an id that is too long. -/
theorem coerceIds_crash {properties : List (String × Json)} {kind text : String}
    (hnodup : (properties.map Prod.fst).Nodup)
    (h : properties.foldlM coerceProperty args = .error (.crash kind text)) : HasLongId properties args := by
  induction properties generalizing args with
  | nil => cases h
  | cons p properties ih =>
      obtain ⟨hhead, htail⟩ := List.nodup_cons.mp hnodup
      rw [List.foldlM_cons] at h
      cases hround : coerceProperty args p with
      | error e =>
          rw [hround] at h
          cases h
          obtain ⟨s, hlong, hs⟩ := coerceProperty_crash hround
          exact ⟨p, List.mem_cons_self, s, hlong, hs⟩
      | ok args' =>
          rw [hround] at h
          obtain ⟨p', hmem, s, hlong, hs⟩ := ih htail h
          -- the round left the argument of the later property
          rw [get_coerceProperty hround fun heq => hhead (heq ▸ List.mem_map_of_mem hmem)] at hs
          exact ⟨p', List.mem_cons_of_mem p hmem, s, hlong, hs⟩

/-- In the result of `coerce_ids` an argument is `w`, or another argument was refused. -/
def Delivered (properties : List (String × Json)) (args : List (String × Value)) (name : String) (w : Value) :
    Except Failure (List (String × Value)) → Prop
  | .ok out => Dict.get name out = some w
  | .error e => ∃ p ∈ properties, p.1 ≠ name ∧ coerceProperty args p = .error e

variable {properties : List (String × Json)}

theorem delivered_cons (hround : coerceProperty args p = .ok args') (hnot : p.1 ∉ properties.map Prod.fst)
    (h : Delivered properties args' name w (properties.foldlM coerceProperty args')) :
    Delivered (p :: properties) args name w ((p :: properties).foldlM coerceProperty args) := by
  have hfold : (p :: properties).foldlM coerceProperty args = properties.foldlM coerceProperty args' := by
    rw [List.foldlM_cons, hround]
    rfl
  rw [hfold]
  cases hrun : properties.foldlM coerceProperty args' with
  | ok out =>
      rw [hrun] at h
      exact h
  | error e =>
      rw [hrun] at h
      obtain ⟨p', hmem, hne, herror⟩ := h
      have hapart : p.1 ≠ p'.1 := fun heq => hnot (heq ▸ List.mem_map_of_mem hmem)
      exact ⟨p', List.mem_cons_of_mem p hmem, hne,
        coerceProperty_error (get_coerceProperty hround hapart) herror⟩

theorem delivered_of_error (herror : coerceProperty args p = .error e) (hne : p.1 ≠ name) :
    Delivered (p :: properties) args name w ((p :: properties).foldlM coerceProperty args) := by
  have hfold : (p :: properties).foldlM coerceProperty args = .error e := by
    rw [List.foldlM_cons, herror]
    rfl
  rw [hfold]
  exact ⟨p, List.mem_cons_self, hne, herror⟩

/-- The rounds of other properties leave an argument. -/
theorem delivered_of_not_mem (hnodup : (properties.map Prod.fst).Nodup) (hnot : name ∉ properties.map Prod.fst)
    (hget : Dict.get name args = some w) :
    Delivered properties args name w (properties.foldlM coerceProperty args) := by
  induction properties generalizing args with
  | nil => exact hget
  | cons p properties ih =>
      obtain ⟨hhead, htail⟩ := List.nodup_cons.mp hnodup
      obtain ⟨hne, hnot⟩ := not_or.mp (List.mem_cons.not.mp hnot)
      cases hround : coerceProperty args p with
      | error e => exact delivered_of_error hround (Ne.symm hne)
      | ok args' =>
          have hkept := (get_coerceProperty hround (Ne.symm hne)).trans hget
          exact delivered_cons hround hhead (ih htail hnot hkept)

/-- One of the rounds is that of the argument. -/
theorem delivered_of_coerced {property : Json} (hnodup : (properties.map Prod.fst).Nodup)
    (hmem : (name, property) ∈ properties) (hget : Dict.get name args = some v) (hnull : v ≠ .scalar .null)
    (hcoerced : coerced name property v = .ok w) :
    Delivered properties args name w (properties.foldlM coerceProperty args) := by
  induction properties generalizing args with
  | nil => cases hmem
  | cons p properties ih =>
      obtain ⟨hhead, htail⟩ := List.nodup_cons.mp hnodup
      rcases List.mem_cons.mp hmem with rfl | hmem
      · have hround := coerceProperty_of_coerced (p := (name, property)) hget hnull hcoerced
        refine delivered_cons hround hhead (delivered_of_not_mem htail hhead ?_)
        rw [Dict.get_set, if_pos rfl]
      · have hne : p.1 ≠ name := fun heq => hhead (heq ▸ List.mem_map_of_mem hmem)
        cases hround : coerceProperty args p with
        | error e => exact delivered_of_error hround hne
        | ok args' =>
            have hkept := (get_coerceProperty hround hne).trans hget
            exact delivered_cons hround hhead (ih htail hmem hkept)

theorem SentBack.ne_null (h : SentBack w v) : v ≠ .scalar .null := by
  rintro rfl
  cases h

/-- **Ids past a client that reads numbers as doubles.** A result whose integers have at most 4300 digits goes out, and
    every place of it as `Node.emit` says; an id that went out and was sent back, alone or in a list, arrives as it
    was. -/
theorem ids_survive :
    (∀ v : Value, (∀ n, v.Has n → Decimal.isShort n = true) → ∃ w, safeInts v = .ok w ∧ ∀ path : List Step,
      (w.at path).map Value.node = ((v.at path).map Value.node).map Node.emit) ∧
    (∀ (n : Int) (w v : Value), safeInts (.int n) = .ok w → SentBack w v → ∀ key, toId key v = .ok n) ∧
    ∀ (schema : Schema) (args : List (String × Value)) (name : String) (property : Json) (w v : Value),
      (name, property) ∈ schema.properties → Dict.get name args = some v → SentBack w v →
        (∀ n : Int, takesId property → safeInts (.int n) = .ok w →
          Delivered schema.properties args name (.int n) (coerceIds args schema)) ∧
        (∀ ns : List Int, takesIds property → safeInts (.list (ns.map Value.int)) = .ok w →
          Delivered schema.properties args name (.list (ns.map Value.int)) (coerceIds args schema)) := by
  refine ⟨fun v hshort => ⟨v.emitted, safeInts_eq v hshort, emitted_at v⟩, ?_, ?_⟩
  · intro n w v hout h key
    exact toId_sentBack key hout h
  · intro schema args name property w v hmem hget h
    refine ⟨fun n htakes hout => ?_, fun ns htakes hout => ?_⟩
    · exact delivered_of_coerced schema.hnodup hmem hget h.ne_null (coerced_id htakes hout h)
    · exact delivered_of_coerced schema.hnodup hmem hget h.ne_null (coerced_ids htakes hout h)

/-- The schema of a tool that takes a list of chats. -/
def chatIdsSchema : Schema where
  properties := [("chat_ids", .obj [("type", .str "array"),
    ("items", .obj [("type", .arr [.str "string", .str "integer"])])])]
  hnodup     := List.nodup_singleton "chat_ids"

/-- A MAX id and a small one: the client sends the first as a string and the second as a number. -/
theorem ids_survive_list :
    Delivered chatIdsSchema.properties [("chat_ids", .list [.scalar (.str "117466202990583689"), .int (-5)])]
      "chat_ids" (.list [.int 117466202990583689, .int (-5)])
      (coerceIds [("chat_ids", .list [.scalar (.str "117466202990583689"), .int (-5)])] chatIdsSchema) := by
  have hsmall : |(-5 : ℤ)| ≤ 2 ^ 53 := by decide
  have hread := Double.finite_reads (isDouble_of_le hsmall) (Double.int_lt_overflow hsmall)
  have hsent : SentBack (.list [.scalar (.str "117466202990583689"), .int (-5)])
      (.list [.scalar (.str "117466202990583689"), .int (-5)]) :=
    .list (.cons (.str _) (.cons (.whole _ hread) .nil))
  exact (ids_survive.2.2 chatIdsSchema _ "chat_ids" _ _ _ List.mem_cons_self rfl hsent).2
    [117466202990583689, -5] rfl rfl

/-- An integer of 4301 digits does not go out. -/
theorem ids_survive_fails :
    ¬ ∀ v : Value, ∃ w, safeInts v = .ok w ∧ ∀ path : List Step,
      (w.at path).map Value.node = ((v.at path).map Value.node).map Node.emit := by
  intro h
  obtain ⟨w, hout, -⟩ := h (.int (10 ^ Decimal.maxStrDigits))
  obtain ⟨hshort, -⟩ := safeInts_int hout
  have hten : (10 : Int).natAbs = 10 := rfl
  rw [Decimal.isShort_iff, Int.natAbs_pow, hten] at hshort
  exact lt_irrefl _ hshort

/-- The test of the repository: numbers at the bound stay, a number past it goes out as its digits. -/
example : safeInts (.dict [("a", .list [.int 117466202990583689, .int (2 ^ 53 - 1), .scalar (.bool true)]),
      ("t", .tuple [.int (-2 ^ 53)])]) =
    .ok (.dict [("a", .list [.scalar (.str "117466202990583689"), .int (2 ^ 53 - 1), .scalar (.bool true)]),
      ("t", .list [.scalar (.str "-9007199254740992")])]) := by rfl

end MyPerson.Mcp
