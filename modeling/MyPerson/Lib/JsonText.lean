import MyPerson.Lib.Decimal
import MyPerson.Lib.Dict
import MyPerson.Lib.Json
import Mathlib.Data.List.TakeDrop

/-!
# `Lib.JsonText` — JSON as text

The writer is Python's `json.dumps`, which escapes every character outside printable ASCII, and the reader its
`json.loads`: the whole grammar, with the last of two equal keys and with escaped surrogate pairs. A number with a
fraction or an exponent goes through `float`, which is the user's. An escaped surrogate without its pair is refused:
strings here have none.

## Contents
- `Layout`, `compact`, `spaced`: what stands after a comma and a colon;
- `write`, `dumps`; `value`, `loads`;
- `Json.exact`: whole numbers only, and no key twice;
- `loads_dumps`, the round trip.
-/

namespace Lib

open Decimal

namespace JsonText

def isBlank (c : Char) : Bool := c = ' ' || c = '\t' || c = '\n' || c = '\r'

/-- The blanks that a writer puts after a comma and after a colon. -/
structure Layout where
  afterComma : List Char
  afterColon : List Char
  comma_blank : ∀ c ∈ afterComma, isBlank c = true
  colon_blank : ∀ c ∈ afterColon, isBlank c = true

/-- `separators=(",", ":")`. -/
def compact : Layout := ⟨[], [], fun _ h => absurd h List.not_mem_nil, fun _ h => absurd h List.not_mem_nil⟩

/-- The separators that `json.dumps` takes by itself. -/
def spaced : Layout :=
  ⟨[' '], [' '], fun _ h => List.mem_singleton.mp h ▸ rfl, fun _ h => List.mem_singleton.mp h ▸ rfl⟩

/-! ## Writing -/

/-- Four hexadecimal digits. -/
def hex4 (n : Nat) : List Char :=
  [Nat.digitChar (n / 4096 % 16), Nat.digitChar (n / 256 % 16), Nat.digitChar (n / 16 % 16), Nat.digitChar (n % 16)]

def writeUnit (n : Nat) : List Char := '\\' :: 'u' :: hex4 n

def writeChar (c : Char) : List Char :=
  if c = '"' then ['\\', '"']
  else if c = '\\' then ['\\', '\\']
  else if c = '\n' then ['\\', 'n']
  else if c = '\r' then ['\\', 'r']
  else if c = '\t' then ['\\', 't']
  else if c = '\x0c' then ['\\', 'f']
  else if c = '\x08' then ['\\', 'b']
  else if 32 ≤ c.toNat ∧ c.toNat ≤ 126 then [c]
  else if c.toNat < 0x10000 then writeUnit c.toNat
  else writeUnit (0xd800 + (c.toNat - 0x10000) / 0x400) ++ writeUnit (0xdc00 + (c.toNat - 0x10000) % 0x400)

def writeString (s : String) : List Char := '"' :: s.toList.flatMap writeChar ++ ['"']

section Writing

variable (l : Layout) (float : Rat → List Char)

mutual

def write : Json → List Char
  | .null => ['n', 'u', 'l', 'l']
  | .bool true => ['t', 'r', 'u', 'e']
  | .bool false => ['f', 'a', 'l', 's', 'e']
  | .int n => (toString n).toList
  | .real q => float q
  | .str s => writeString s
  | .arr [] => ['[', ']']
  | .arr (v :: vs) => '[' :: write v ++ writeItems vs
  | .obj [] => ['{', '}']
  | .obj ((k, v) :: fs) => '{' :: writeString k ++ ':' :: l.afterColon ++ write v ++ writeFields fs

/-- The items after the first, and the bracket. -/
def writeItems : List Json → List Char
  | [] => [']']
  | v :: vs => ',' :: l.afterComma ++ write v ++ writeItems vs

def writeFields : List (String × Json) → List Char
  | [] => ['}']
  | (k, v) :: fs => ',' :: l.afterComma ++ writeString k ++ ':' :: l.afterColon ++ write v ++ writeFields fs

end

/-- `json.dumps`. -/
def dumps (v : Json) : List Char := write l float v

end Writing

/-! ## Reading -/

def skip (cs : List Char) : List Char := cs.dropWhile isBlank

def hexValue (c : Char) : Option Nat :=
  if '0' ≤ c ∧ c ≤ '9' then some (c.toNat - 48)
  else if 'a' ≤ c ∧ c ≤ 'f' then some (c.toNat - 97 + 10)
  else if 'A' ≤ c ∧ c ≤ 'F' then some (c.toNat - 65 + 10)
  else none

/-- The code unit of four hexadecimal digits. -/
def readHex4 : List Char → Option (Nat × List Char)
  | a :: b :: c :: d :: cs => do
      let a ← hexValue a
      let b ← hexValue b
      let c ← hexValue c
      let d ← hexValue d
      some (((a * 16 + b) * 16 + c) * 16 + d, cs)
  | _ => none

/-- The character of a pair of code units, the second escaped too. -/
def readPair (hi : Nat) : List Char → Option (Char × List Char)
  | '\\' :: 'u' :: cs =>
      (readHex4 cs).bind fun p =>
        if 0xdc00 ≤ p.1 ∧ p.1 < 0xe000 then
          some (Char.ofNat (0x10000 + (hi - 0xd800) * 0x400 + (p.1 - 0xdc00)), p.2)
        else none
  | _ => none

/-- The character of an escaped code unit, with the second unit of a pair. -/
def readUnit (cs : List Char) : Option (Char × List Char) :=
  (readHex4 cs).bind fun p =>
    if 0xd800 ≤ p.1 ∧ p.1 < 0xdc00 then readPair p.1 p.2
    else if 0xdc00 ≤ p.1 ∧ p.1 < 0xe000 then none
    else some (Char.ofNat p.1, p.2)

/-- The character that a backslash makes of the next one. -/
def simpleEscape (c : Char) : Option Char :=
  if c = '"' ∨ c = '\\' ∨ c = '/' then some c
  else if c = 'b' then some '\x08'
  else if c = 'f' then some '\x0c'
  else if c = 'n' then some '\n'
  else if c = 'r' then some '\r'
  else if c = 't' then some '\t'
  else none

/-- What follows a backslash. -/
def readEscape : List Char → Option (Char × List Char)
  | [] => none
  | c :: cs => if c = 'u' then readUnit cs else (simpleEscape c).map fun c => (c, cs)

/-- The characters of a string, up to its closing quote. -/
def readChars : Nat → List Char → Option (List Char × List Char)
  | 0, _ => none
  | _ + 1, [] => none
  | n + 1, c :: cs =>
      if c = '"' then some ([], cs)
      else if c = '\\' then
        (readEscape cs).bind fun p => (readChars n p.2).map fun q => (p.1 :: q.1, q.2)
      else if c.toNat < 32 then none
      else (readChars n cs).map fun q => (c :: q.1, q.2)

def readString (cs : List Char) : Option (String × List Char) :=
  (readChars (cs.length + 1) cs).map fun p => (String.ofList p.1, p.2)

/-- The digits at the start. -/
def readDigits (cs : List Char) : List Char × List Char := cs.span Char.isDigit

/-- The digits of a whole number: a zero stands alone. -/
def readNatural : List Char → Option (List Char × List Char)
  | [] => none
  | c :: cs => if c = '0' then some ([c], cs) else if c.isDigit then some (readDigits (c :: cs)) else none

def readWhole : List Char → Option (List Char × List Char)
  | [] => none
  | c :: cs => if c = '-' then (readNatural cs).map fun p => (c :: p.1, p.2) else readNatural (c :: cs)

/-- A point and digits, or nothing. -/
def readFraction (cs : List Char) : List Char × List Char :=
  match cs with
  | '.' :: rest => if (readDigits rest).1 = [] then ([], cs) else ('.' :: (readDigits rest).1, (readDigits rest).2)
  | _ => ([], cs)

/-- An exponent, or nothing. -/
def readExponent (cs : List Char) : List Char × List Char :=
  match cs with
  | [] => ([], cs)
  | e :: rest =>
      if e = 'e' ∨ e = 'E' then
        let p := match rest with
          | '+' :: rest => (['+'], readDigits rest)
          | '-' :: rest => (['-'], readDigits rest)
          | _ => ([], readDigits rest)
        if p.2.1 = [] then ([], cs) else (e :: p.1 ++ p.2.1, p.2.2)
      else ([], cs)

section Reading

variable (float : List Char → Rat)

/-- A number: whole, or what `float` reads. -/
def readNumber (cs : List Char) : Option (Json × List Char) :=
  (readWhole cs).map fun p =>
    let f := readFraction p.2
    let e := readExponent f.2
    if f.1 = [] ∧ e.1 = [] then (.int (wholeValue p.1), p.2) else (.real (float (p.1 ++ f.1 ++ e.1)), e.2)

mutual

/-- The value at the start of a text. -/
def value : Nat → List Char → Option (Json × List Char)
  | 0, _ => none
  | _ + 1, [] => none
  | n + 1, c :: cs =>
      if c = '"' then (readString cs).map fun p => (.str p.1, p.2)
      else if c = '[' then
        if (skip cs).head? = some ']' then some (.arr [], (skip cs).tail) else items n [] (skip cs)
      else if c = '{' then
        if (skip cs).head? = some '}' then some (.obj [], (skip cs).tail) else fields n [] (skip cs)
      else if ['n', 'u', 'l', 'l'] <+: c :: cs then some (.null, cs.drop 3)
      else if ['t', 'r', 'u', 'e'] <+: c :: cs then some (.bool true, cs.drop 3)
      else if ['f', 'a', 'l', 's', 'e'] <+: c :: cs then some (.bool false, cs.drop 4)
      else readNumber float (c :: cs)

/-- The items of an array after those read, from the start of one. -/
def items : Nat → List Json → List Char → Option (Json × List Char)
  | 0, _, _ => none
  | n + 1, acc, cs =>
      match value n cs with
      | none => none
      | some (v, cs) =>
          match skip cs with
          | ']' :: cs => some (.arr (acc ++ [v]), cs)
          | ',' :: cs => items n (acc ++ [v]) (skip cs)
          | _ => none

/-- The fields of an object after those read, from the quote of a key. -/
def fields : Nat → List (String × Json) → List Char → Option (Json × List Char)
  | 0, _, _ => none
  | _ + 1, _, [] => none
  | n + 1, acc, c :: cs =>
      if c ≠ '"' then none
      else
        match readString cs with
        | none => none
        | some (k, cs) =>
            match skip cs with
            | ':' :: cs =>
                match value n (skip cs) with
                | none => none
                | some (v, cs) =>
                    match skip cs with
                    | '}' :: cs => some (.obj (Dict.ofPairs (acc ++ [(k, v)])), cs)
                    | ',' :: cs => fields n (acc ++ [(k, v)]) (skip cs)
                    | _ => none
            | _ => none

end

/-- `json.loads`, `none` when it raises. -/
def loads (cs : List Char) : Option Json :=
  match value float cs.length (skip cs) with
  | some (v, rest) => if skip rest = [] then some v else none
  | none => none

end Reading

/-! ## Strings, back and forth -/

theorem hexValue_digitChar {n : Nat} (h : n < 16) : hexValue (Nat.digitChar n) = some n := by
  have hall : ∀ n < 16, hexValue (Nat.digitChar n) = some n := by decide
  exact hall n h

theorem readHex4_hex4 {n : Nat} (h : n < 0x10000) (cs : List Char) : readHex4 (hex4 n ++ cs) = some (n, cs) := by
  have hmod : ∀ k, k % 16 < 16 := fun k => Nat.mod_lt k (by decide)
  simp only [hex4, List.cons_append, List.nil_append, readHex4, hexValue_digitChar (hmod _), Option.bind_eq_bind,
    Option.bind_some, Option.some.injEq, Prod.mk.injEq, and_true]
  omega

/-- A unit outside the surrogates is a character by itself. -/
theorem readUnit_hex4 {n : Nat} (h : n < 0xd800 ∨ 0xdfff < n) (hn : n < 0x10000) (cs : List Char) :
    readUnit (hex4 n ++ cs) = some (Char.ofNat n, cs) := by
  have hhi : ¬ (0xd800 ≤ n ∧ n < 0xdc00) := by omega
  have hlo : ¬ (0xdc00 ≤ n ∧ n < 0xe000) := by omega
  rw [readUnit, readHex4_hex4 hn, Option.bind_some, if_neg hhi, if_neg hlo]

theorem readPair_unit {hi lo : Nat} (h : 0xdc00 ≤ lo ∧ lo < 0xe000) (cs : List Char) :
    readPair hi (writeUnit lo ++ cs) =
      some (Char.ofNat (0x10000 + (hi - 0xd800) * 0x400 + (lo - 0xdc00)), cs) := by
  rw [writeUnit, List.cons_append, List.cons_append, readPair, readHex4_hex4 (by omega), Option.bind_some, if_pos h]

/-- A character beyond the sixteen bits is read from its two units. -/
theorem readUnit_pair {n : Nat} (h : 0x10000 ≤ n) (hn : n < 0x110000) (cs : List Char) :
    readUnit (hex4 (0xd800 + (n - 0x10000) / 0x400) ++ (writeUnit (0xdc00 + (n - 0x10000) % 0x400) ++ cs)) =
      some (Char.ofNat n, cs) := by
  have hhi : 0xd800 ≤ 0xd800 + (n - 0x10000) / 0x400 ∧ 0xd800 + (n - 0x10000) / 0x400 < 0xdc00 := by omega
  have hlo : 0xdc00 ≤ 0xdc00 + (n - 0x10000) % 0x400 ∧ 0xdc00 + (n - 0x10000) % 0x400 < 0xe000 := by omega
  have hsum : 0x10000 + (0xd800 + (n - 0x10000) / 0x400 - 0xd800) * 0x400 +
      (0xdc00 + (n - 0x10000) % 0x400 - 0xdc00) = n := by omega
  rw [readUnit, readHex4_hex4 (by omega), Option.bind_some, if_pos hhi, readPair_unit hlo, hsum]

theorem readChars_unit {n : Nat} {c : Char} {cs rest : List Char} (h : readUnit cs = some (c, rest)) :
    readChars (n + 1) ('\\' :: 'u' :: cs) = (readChars n rest).map fun q => (c :: q.1, q.2) := by
  simp only [readChars, readEscape, h, Char.reduceEq, if_true, if_false, Option.bind_some]

theorem readChars_simple {n : Nat} {c e : Char} (hu : e ≠ 'u') (h : simpleEscape e = some c) (cs : List Char) :
    readChars (n + 1) ('\\' :: e :: cs) = (readChars n cs).map fun q => (c :: q.1, q.2) := by
  simp only [readChars, readEscape, h, hu, Char.reduceEq, if_true, if_false, Option.map_some, Option.bind_some]

/-- What the writer makes of a character is read as that character. -/
theorem readChars_writeChar (c : Char) (n : Nat) (cs : List Char) :
    readChars (n + 1) (writeChar c ++ cs) = (readChars n cs).map fun q => (c :: q.1, q.2) := by
  unfold writeChar
  by_cases h1 : c = '"'
  · subst h1
    exact readChars_simple (by decide) rfl cs
  by_cases h2 : c = '\\'
  · subst h2
    exact readChars_simple (by decide) rfl cs
  by_cases h3 : c = '\n'
  · subst h3
    exact readChars_simple (by decide) rfl cs
  by_cases h4 : c = '\r'
  · subst h4
    exact readChars_simple (by decide) rfl cs
  by_cases h5 : c = '\t'
  · subst h5
    exact readChars_simple (by decide) rfl cs
  by_cases h6 : c = '\x0c'
  · subst h6
    exact readChars_simple (by decide) rfl cs
  by_cases h7 : c = '\x08'
  · subst h7
    exact readChars_simple (by decide) rfl cs
  simp only [if_neg h1, if_neg h2, if_neg h3, if_neg h4, if_neg h5, if_neg h6, if_neg h7]
  split
  · -- printable
    rename_i hprint
    have hlow : ¬ c.toNat < 32 := by omega
    simp only [List.cons_append, List.nil_append, readChars, if_neg h1, if_neg h2, if_neg hlow]
  · split
    · -- one unit
      rename_i hsmall
      have hvalid : c.toNat < 0xd800 ∨ 0xdfff < c.toNat := by
        rcases c.valid with h | h
        · exact .inl h
        · exact .inr h.1
      have hunit := readUnit_hex4 hvalid hsmall cs
      rw [Char.ofNat_toNat] at hunit
      exact readChars_unit hunit
    · -- a surrogate pair
      rename_i hlarge
      have hbound : c.toNat < 0x110000 := by
        rcases c.valid with h | h
        · exact Nat.lt_trans h (by decide)
        · exact h.2
      have hpair := readUnit_pair (by omega) hbound cs
      rw [Char.ofNat_toNat] at hpair
      rw [List.append_assoc]
      exact readChars_unit hpair

theorem writeChar_ne_nil (c : Char) : writeChar c ≠ [] := by
  unfold writeChar writeUnit
  split_ifs <;> simp

theorem length_le_written (cs : List Char) : cs.length ≤ (cs.flatMap writeChar).length := by
  induction cs with
  | nil => exact Nat.le_refl 0
  | cons c cs ih =>
      have hpos := List.length_pos_iff.mpr (writeChar_ne_nil c)
      rw [List.flatMap_cons, List.length_append, List.length_cons]
      omega

theorem readChars_written (cs rest : List Char) :
    ∀ {n : Nat}, cs.length < n → readChars n (cs.flatMap writeChar ++ '"' :: rest) = some (cs, rest) := by
  induction cs with
  | nil =>
      intro n hn
      obtain ⟨n, rfl⟩ := Nat.exists_eq_succ_of_ne_zero (Nat.ne_of_gt hn)
      simp [readChars]
  | cons c cs ih =>
      intro n hn
      obtain ⟨n, rfl⟩ := Nat.exists_eq_succ_of_ne_zero (Nat.ne_of_gt (Nat.zero_lt_of_lt hn))
      rw [List.flatMap_cons, List.append_assoc, readChars_writeChar, ih (Nat.lt_of_succ_lt_succ hn)]
      rfl

theorem readString_written (s : String) (rest : List Char) :
    readString (s.toList.flatMap writeChar ++ '"' :: rest) = some (s, rest) := by
  have hlength := length_le_written s.toList
  rw [readString, readChars_written _ _ (by rw [List.length_append]; omega)]
  simp

/-! ## Numbers, back and forth -/

/-- No number goes on there. -/
def Ends (rest : List Char) : Prop := ∀ c ∈ rest.head?, c.isDigit = false ∧ c ≠ '.' ∧ c ≠ 'e' ∧ c ≠ 'E'

theorem ends_nil : Ends [] := fun _ h => nomatch h

theorem ends_cons {c : Char} {cs : List Char} (h : c.isDigit = false ∧ c ≠ '.' ∧ c ≠ 'e' ∧ c ≠ 'E') :
    Ends (c :: cs) := by
  rintro c' hc'
  obtain rfl := Option.some.inj hc'
  exact h

theorem readDigits_append {ds rest : List Char} (h : ∀ c ∈ ds, c.isDigit = true) (hrest : Ends rest) :
    readDigits (ds ++ rest) = (ds, rest) := by
  rw [readDigits, List.span_eq_takeWhile_dropWhile, List.takeWhile_append_of_pos h, List.dropWhile_append_of_pos h]
  cases rest with
  | nil => simp
  | cons c cs =>
      have hc := (hrest c rfl).1
      simp [hc]

/-- The digits of a number do not start with a zero, but for zero itself. -/
theorem toDigits_head (n : Nat) : ∃ c cs, Nat.toDigits 10 n = c :: cs ∧ (c = '0' → cs = []) := by
  induction n using Nat.strongRecOn with
  | _ n ih =>
      by_cases hn : n < 10
      · exact ⟨n.digitChar, [], Nat.toDigits_of_lt_base hn, fun _ => rfl⟩
      · have hle : 10 ≤ n := Nat.le_of_not_lt hn
        obtain ⟨c, cs, heq, hzero⟩ := ih (n / 10) (by omega)
        refine ⟨c, cs ++ [(n % 10).digitChar], ?_, fun hc => ?_⟩
        · rw [Nat.toDigits_of_base_le (by decide) hle, heq]
          rfl
        · -- a number whose digits are `0` alone is zero
          have hvalue := value_toDigits (n / 10)
          rw [heq, hc, hzero hc] at hvalue
          have : n / 10 = 0 := hvalue.symm
          omega

theorem readNatural_toDigits (n : Nat) {rest : List Char} (h : Ends rest) :
    readNatural (Nat.toDigits 10 n ++ rest) = some (Nat.toDigits 10 n, rest) := by
  have hdigits : ∀ c ∈ Nat.toDigits 10 n, c.isDigit = true := fun c hc =>
    Nat.isDigit_of_mem_toDigits (by decide) (by decide) hc
  obtain ⟨c, cs, heq, hzero⟩ := toDigits_head n
  rw [heq] at hdigits ⊢
  rw [List.cons_append, readNatural]
  by_cases hc : c = '0'
  · rw [if_pos hc, hzero hc]
    rfl
  · rw [if_neg hc, if_pos (hdigits c List.mem_cons_self), ← List.cons_append, readDigits_append hdigits h]

theorem readWhole_toString (n : Int) {rest : List Char} (h : Ends rest) :
    readWhole ((toString n).toList ++ rest) = some ((toString n).toList, rest) := by
  rw [toList_toString]
  split
  · rw [List.cons_append, readWhole, if_pos rfl, readNatural_toDigits _ h]
    rfl
  · obtain ⟨c, cs, heq, hc, -⟩ := toDigits_cons n.natAbs
    have hread := readNatural_toDigits n.natAbs h
    rw [heq] at hread ⊢
    rw [List.cons_append, readWhole, if_neg hc]
    exact hread

theorem readNumber_toString (float : List Char → Rat) (n : Int) {rest : List Char} (h : Ends rest) :
    readNumber float ((toString n).toList ++ rest) = some (.int n, rest) := by
  have hfraction : readFraction rest = ([], rest) := by
    unfold readFraction
    split
    · exact absurd rfl (h '.' rfl).2.1
    · rfl
  have hexponent : readExponent rest = ([], rest) := by
    unfold readExponent
    split
    · rfl
    · rename_i e rest'
      rw [if_neg (not_or.mpr (h e rfl).2.2)]
  rw [readNumber, readWhole_toString n h]
  simp only [Option.map_some, hfraction, hexponent, and_self, if_true, wholeValue_toString]

/-! ## Values, back and forth -/

end JsonText

namespace Json

mutual

/-- The numbers are whole, and no object has a key twice: what the text of a value keeps. -/
def exact : Json → Bool
  | .real _ => false
  | .arr vs => exactItems vs
  | .obj fs => decide (fs.map Prod.fst).Nodup && exactFields fs
  | _ => true

def exactItems : List Json → Bool
  | [] => true
  | v :: vs => exact v && exactItems vs

def exactFields : List (String × Json) → Bool
  | [] => true
  | (_, v) :: fs => exact v && exactFields fs

end

theorem exactFields_of_forall {fs : List (String × Json)} (h : ∀ f ∈ fs, f.2.exact = true) : exactFields fs = true := by
  induction fs with
  | nil => rfl
  | cons f fs ih =>
      rw [exactFields, Bool.and_eq_true]
      exact ⟨h f List.mem_cons_self, ih fun f' hf' => h f' (List.mem_cons_of_mem f hf')⟩

theorem forall_of_exactFields {fs : List (String × Json)} (h : exactFields fs = true) : ∀ f ∈ fs, f.2.exact = true := by
  induction fs with
  | nil => exact fun _ hf => absurd hf List.not_mem_nil
  | cons f fs ih =>
      rw [exactFields, Bool.and_eq_true] at h
      rintro f' hf'
      rcases List.mem_cons.mp hf' with rfl | hf'
      · exact h.1
      · exact ih h.2 f' hf'

end Json

namespace JsonText

theorem skip_blank {blanks cs : List Char} {c : Char} (h : ∀ b ∈ blanks, isBlank b = true) (hc : isBlank c = false) :
    skip (blanks ++ c :: cs) = c :: cs := by
  rw [skip, List.dropWhile_append_of_pos h, List.dropWhile_cons_of_neg (by simp [hc])]

theorem skip_cons {cs : List Char} {c : Char} (hc : isBlank c = false) : skip (c :: cs) = c :: cs :=
  show skip ([] ++ c :: cs) = c :: cs from skip_blank (fun _ h => absurd h List.not_mem_nil) hc

section

variable (l : Layout) (repr : Rat → List Char) (float : List Char → Rat)

/-- The text of the value is read as the value, whatever stands after it. -/
def Reads (v : Json) : Prop :=
  ∀ (n : Nat) (rest : List Char), (write l repr v).length ≤ n → Ends rest →
    value float n (write l repr v ++ rest) = some (v, rest)

variable {l repr float}

theorem value_string (n : Nat) (cs : List Char) :
    value float (n + 1) ('"' :: cs) = (readString cs).map fun p => (.str p.1, p.2) := by
  rw [value, if_pos rfl]

theorem value_array (n : Nat) (cs : List Char) :
    value float (n + 1) ('[' :: cs) =
      if (skip cs).head? = some ']' then some (.arr [], (skip cs).tail) else items float n [] (skip cs) := by
  rw [value, if_neg (by decide), if_pos rfl]

theorem value_object (n : Nat) (cs : List Char) :
    value float (n + 1) ('{' :: cs) =
      if (skip cs).head? = some '}' then some (.obj [], (skip cs).tail) else fields float n [] (skip cs) := by
  rw [value, if_neg (by decide), if_neg (by decide), if_pos rfl]

theorem value_number {c : Char} (h : c = '-' ∨ c.isDigit = true) (n : Nat) (cs : List Char) :
    value float (n + 1) (c :: cs) = readNumber float (c :: cs) := by
  have hne : ∀ d : Char, d ≠ '-' → d.isDigit = false → c ≠ d := by
    rintro d hminus hdigit rfl
    rcases h with h | h
    · exact hminus h
    · exact Bool.false_ne_true (hdigit.symm.trans h)
  have hfront : ∀ (d : Char) (ds : List Char), d ≠ '-' → d.isDigit = false → ¬ d :: ds <+: c :: cs := by
    intro d ds hminus hdigit hle
    exact hne d hminus hdigit (List.cons_prefix_cons.mp hle).1.symm
  rw [value, if_neg (hne '"' (by decide) (by decide)), if_neg (hne '[' (by decide) (by decide)),
    if_neg (hne '{' (by decide) (by decide)), if_neg (hfront 'n' _ (by decide) (by decide)),
    if_neg (hfront 't' _ (by decide) (by decide)), if_neg (hfront 'f' _ (by decide) (by decide))]

variable (l repr) in
/-- How the text of a value starts: neither blank nor closing. -/
theorem write_head {v : Json} (h : v.exact = true) :
    ∃ c cs, write l repr v = c :: cs ∧ isBlank c = false ∧ c ≠ ']' := by
  cases v with
  | null => exact ⟨_, _, rfl, by decide, by decide⟩
  | bool b => cases b <;> exact ⟨_, _, rfl, by decide, by decide⟩
  | int n =>
      obtain ⟨c, cs, heq, -, hdec⟩ := toDigits_cons n.natAbs
      rw [write, toList_toString, heq]
      split
      · exact ⟨_, _, rfl, by decide, by decide⟩
      · have hdigit : c.isDigit = true :=
          Nat.isDigit_of_mem_toDigits (b := 10) (n := n.natAbs) (by decide) (by decide) (heq ▸ List.mem_cons_self)
        refine ⟨c, cs, rfl, ?_, ?_⟩
        · cases hb : isBlank c with
          | false => rfl
          | true =>
              simp only [isBlank, Bool.or_eq_true, decide_eq_true_eq] at hb
              rcases hb with ((rfl | rfl) | rfl) | rfl <;> exact absurd hdigit (by decide)
        · rintro rfl
          exact absurd hdigit (by decide)
  | real q => cases h
  | str s => exact ⟨_, _, rfl, by decide, by decide⟩
  | arr vs =>
      cases vs with
      | nil => exact ⟨'[', _, by rw [write], by decide, by decide⟩
      | cons v vs => exact ⟨'[', _, by rw [write, List.cons_append], by decide, by decide⟩
  | obj fs =>
      cases fs with
      | nil => exact ⟨'{', _, by rw [write], by decide, by decide⟩
      | cons f fs => exact ⟨'{', _, by simp only [write, List.cons_append]; rfl, by decide, by decide⟩

theorem ends_items (vs : List Json) (rest : List Char) : Ends (writeItems l repr vs ++ rest) := by
  cases vs <;> exact ends_cons (by decide)

theorem ends_fields (fs : List (String × Json)) (rest : List Char) : Ends (writeFields l repr fs ++ rest) := by
  cases fs with
  | nil => exact ends_cons (by decide)
  | cons f fs => exact ends_cons (by decide)

/-- An array's items from the first on; the induction is on those after it. -/
theorem items_written (vs : List Json) :
    ∀ {v : Json} {n : Nat} (acc : List Json) (rest : List Char), (∀ w ∈ v :: vs, w.exact = true ∧ Reads l repr float w) →
      (write l repr v ++ writeItems l repr vs).length ≤ n →
      items float n acc (write l repr v ++ (writeItems l repr vs ++ rest)) = some (.arr (acc ++ v :: vs), rest) := by
  induction vs with
  | nil =>
      intro v n acc rest hreads hn
      rw [List.length_append, writeItems, List.length_singleton] at hn
      obtain ⟨n, rfl⟩ := Nat.exists_eq_succ_of_ne_zero (Nat.ne_of_gt (Nat.lt_of_lt_of_le (Nat.succ_pos _) hn))
      rw [items, (hreads v List.mem_cons_self).2 n _ (Nat.le_of_succ_le_succ hn) (ends_items [] rest)]
      simp only [writeItems, List.cons_append, List.nil_append, skip_cons (c := ']') (by decide)]
  | cons v' vs ih =>
      intro v n acc rest hreads hn
      have hv' := hreads v' (List.mem_cons_of_mem v List.mem_cons_self)
      rw [List.length_append, writeItems, List.cons_append, List.cons_append, List.length_cons, List.append_assoc,
        List.length_append] at hn
      obtain ⟨n, rfl⟩ := Nat.exists_eq_succ_of_ne_zero (Nat.ne_of_gt (Nat.lt_of_lt_of_le (by omega) hn))
      rw [items, (hreads v List.mem_cons_self).2 n _ (by omega) (ends_items (v' :: vs) rest)]
      simp only [writeItems, List.cons_append, List.append_assoc, skip_cons (c := ',') (by decide)]
      obtain ⟨c, cs, heq, hblank, -⟩ := write_head l repr hv'.1
      have hskip : skip (l.afterComma ++ (write l repr v' ++ (writeItems l repr vs ++ rest))) =
          write l repr v' ++ (writeItems l repr vs ++ rest) := by
        rw [heq]
        exact skip_blank l.comma_blank hblank
      rw [hskip, ih (acc ++ [v]) rest (fun w hw => hreads w (List.mem_cons_of_mem v hw)) (by omega), List.append_assoc]
      rfl

/-- One field, from the quote of its key to what stands after its value. -/
theorem field_written {k : String} {v : Json} {n : Nat} {acc : List (String × Json)} {rest : List Char}
    (hexact : v.exact = true) (hreads : Reads l repr float v) (hn : (write l repr v).length ≤ n) (hrest : Ends rest) :
    fields float (n + 1) acc (writeString k ++ ':' :: l.afterColon ++ write l repr v ++ rest) =
      match skip rest with
      | '}' :: cs => some (.obj (Dict.ofPairs (acc ++ [(k, v)])), cs)
      | ',' :: cs => fields float n (acc ++ [(k, v)]) (skip cs)
      | _ => none := by
  obtain ⟨c, cs, heq, hblank, -⟩ := write_head l repr hexact
  have hskip : skip (l.afterColon ++ (write l repr v ++ rest)) = write l repr v ++ rest := by
    rw [heq]
    exact skip_blank l.colon_blank hblank
  have hstring := readString_written k (':' :: (l.afterColon ++ (write l repr v ++ rest)))
  simp only [writeString, List.cons_append, List.append_assoc, List.nil_append, fields, ne_eq, not_true_eq_false,
    if_false]
  rw [hstring]
  simp only [skip_cons (c := ':') (by decide), hskip, hreads n rest hn hrest]

theorem fields_written (fs : List (String × Json)) :
    ∀ {k : String} {v : Json} {n : Nat} (acc : List (String × Json)) (rest : List Char),
      (∀ f ∈ (k, v) :: fs, f.2.exact = true ∧ Reads l repr float f.2) →
      (write l repr v ++ writeFields l repr fs).length ≤ n →
      fields float n acc (writeString k ++ ':' :: l.afterColon ++ write l repr v ++ (writeFields l repr fs ++ rest)) =
        some (.obj (Dict.ofPairs (acc ++ (k, v) :: fs)), rest) := by
  induction fs with
  | nil =>
      intro k v n acc rest hreads hn
      obtain ⟨hexact, hv⟩ := hreads (k, v) List.mem_cons_self
      rw [List.length_append, writeFields, List.length_singleton] at hn
      obtain ⟨n, rfl⟩ := Nat.exists_eq_succ_of_ne_zero (Nat.ne_of_gt (Nat.lt_of_lt_of_le (Nat.succ_pos _) hn))
      rw [field_written hexact hv (Nat.le_of_succ_le_succ hn) (ends_fields [] rest)]
      simp only [writeFields, List.cons_append, List.nil_append, skip_cons (c := '}') (by decide)]
  | cons f fs ih =>
      obtain ⟨k', v'⟩ := f
      intro k v n acc rest hreads hn
      obtain ⟨hexact, hv⟩ := hreads (k, v) List.mem_cons_self
      rw [List.length_append, writeFields, List.length_append, List.length_append, List.length_append,
        List.length_append, List.length_cons] at hn
      obtain ⟨n, rfl⟩ := Nat.exists_eq_succ_of_ne_zero (Nat.ne_of_gt (Nat.lt_of_lt_of_le (by omega) hn))
      have hlength : (write l repr v).length ≤ n := by omega
      rw [field_written hexact hv hlength (ends_fields ((k', v') :: fs) rest)]
      have hskip : ∀ cs : List Char, skip (l.afterComma ++ (writeString k' ++ cs)) = writeString k' ++ cs := fun cs =>
        skip_blank l.comma_blank (by decide)
      have ih := ih (acc ++ [(k, v)]) rest (fun f hf => hreads f (List.mem_cons_of_mem _ hf)) (n := n)
        (by rw [List.length_append]; simp only [List.length_cons] at hn; omega)
      simp only [writeFields, List.cons_append, List.append_assoc, skip_cons (c := ',') (by decide), hskip] at ih ⊢
      exact ih

theorem reads_string (s : String) : Reads l repr float (.str s) := by
  intro n rest hn _
  rw [write, writeString, List.cons_append, List.length_cons] at hn
  obtain ⟨n, rfl⟩ := Nat.exists_eq_succ_of_ne_zero (Nat.ne_of_gt (Nat.lt_of_lt_of_le (Nat.succ_pos _) hn))
  simp only [write, writeString, List.cons_append, List.append_assoc, List.nil_append]
  rw [value_string, readString_written]
  rfl

theorem reads_int (m : Int) : Reads l repr float (.int m) := by
  intro n rest hn hrest
  have hnumber := readNumber_toString float m hrest
  rw [write] at hn ⊢
  obtain ⟨c, cs, heq, -, -⟩ := toDigits_cons m.natAbs
  have hdigit : c.isDigit = true :=
    Nat.isDigit_of_mem_toDigits (b := 10) (n := m.natAbs) (by decide) (by decide) (heq ▸ List.mem_cons_self)
  have hhead : ∃ d ds, (toString m).toList = d :: ds ∧ (d = '-' ∨ d.isDigit = true) := by
    rw [toList_toString, heq]
    split
    · exact ⟨_, _, rfl, .inl rfl⟩
    · exact ⟨_, _, rfl, .inr hdigit⟩
  obtain ⟨d, ds, htext, hd⟩ := hhead
  rw [htext] at hn hnumber ⊢
  obtain ⟨n, rfl⟩ := Nat.exists_eq_succ_of_ne_zero (Nat.ne_of_gt (Nat.lt_of_lt_of_le (Nat.succ_pos _) hn))
  rw [List.cons_append, value_number hd]
  exact hnumber

theorem reads_array {vs : List Json} (h : ∀ v ∈ vs, v.exact = true ∧ Reads l repr float v) :
    Reads l repr float (.arr vs) := by
  intro n rest hn _
  cases vs with
  | nil =>
      obtain ⟨n, rfl⟩ := Nat.exists_eq_succ_of_ne_zero (Nat.ne_of_gt (Nat.lt_of_lt_of_le (Nat.succ_pos _) hn))
      simp only [write, List.cons_append, List.nil_append, value_array, skip_cons (c := ']') (by decide), List.head?_cons,
        if_true, List.tail_cons]
  | cons v vs =>
      rw [write, List.cons_append, List.length_cons] at hn
      obtain ⟨n, rfl⟩ := Nat.exists_eq_succ_of_ne_zero (Nat.ne_of_gt (Nat.lt_of_lt_of_le (Nat.succ_pos _) hn))
      obtain ⟨c, cs, heq, hblank, hclose⟩ := write_head l repr (h v List.mem_cons_self).1
      have hskip : skip (write l repr v ++ (writeItems l repr vs ++ rest)) =
          write l repr v ++ (writeItems l repr vs ++ rest) := by
        rw [heq]
        exact skip_cons hblank
      have hopen : ¬ (write l repr v ++ (writeItems l repr vs ++ rest)).head? = some ']' := by
        rw [heq]
        exact fun hc => hclose (Option.some.inj hc)
      simp only [write, List.cons_append, List.append_assoc]
      rw [value_array, hskip, if_neg hopen, items_written vs [] rest h (Nat.le_of_succ_le_succ hn)]
      rfl

theorem reads_object {fs : List (String × Json)} (hnodup : (fs.map Prod.fst).Nodup)
    (h : ∀ f ∈ fs, f.2.exact = true ∧ Reads l repr float f.2) : Reads l repr float (.obj fs) := by
  intro n rest hn _
  cases fs with
  | nil =>
      obtain ⟨n, rfl⟩ := Nat.exists_eq_succ_of_ne_zero (Nat.ne_of_gt (Nat.lt_of_lt_of_le (Nat.succ_pos _) hn))
      simp only [write, List.cons_append, List.nil_append, value_object, skip_cons (c := '}') (by decide),
        List.head?_cons, if_true, List.tail_cons]
  | cons f fs =>
      obtain ⟨k, v⟩ := f
      simp only [write, List.cons_append, List.length_cons, List.length_append] at hn
      obtain ⟨n, rfl⟩ := Nat.exists_eq_succ_of_ne_zero (Nat.ne_of_gt (Nat.lt_of_lt_of_le (Nat.succ_pos _) hn))
      have hfields := fields_written fs [] rest h (n := n) (by rw [List.length_append]; omega)
      rw [List.nil_append, Dict.ofPairs_eq hnodup] at hfields
      have hskip : ∀ cs : List Char, skip (writeString k ++ cs) = writeString k ++ cs := fun cs => skip_cons (by decide)
      have hopen : ∀ cs : List Char, ¬ (writeString k ++ cs).head? = some '}' := by
        intro cs hc
        exact absurd (Option.some.inj hc) (by decide)
      simp only [write, List.cons_append, List.append_assoc] at hfields ⊢
      rw [value_object, hskip, if_neg (hopen _)]
      exact hfields

mutual

theorem reads_of_exact : ∀ v : Json, v.exact = true → Reads l repr float v
  | .null, _ => by
      intro n rest hn _
      obtain ⟨n, rfl⟩ := Nat.exists_eq_succ_of_ne_zero (Nat.ne_of_gt (Nat.lt_of_lt_of_le (Nat.succ_pos _) hn))
      simp [write, value]
  | .bool true, _ => by
      intro n rest hn _
      obtain ⟨n, rfl⟩ := Nat.exists_eq_succ_of_ne_zero (Nat.ne_of_gt (Nat.lt_of_lt_of_le (Nat.succ_pos _) hn))
      simp [write, value]
  | .bool false, _ => by
      intro n rest hn _
      obtain ⟨n, rfl⟩ := Nat.exists_eq_succ_of_ne_zero (Nat.ne_of_gt (Nat.lt_of_lt_of_le (Nat.succ_pos _) hn))
      simp [write, value]
  | .int m, _ => reads_int m
  | .real _, h => by cases h
  | .str s, _ => reads_string s
  | .arr vs, h => reads_array (reads_items vs h)
  | .obj fs, h => by
      rw [Json.exact, Bool.and_eq_true] at h
      exact reads_object (of_decide_eq_true h.1) (reads_fields fs h.2)

theorem reads_items : ∀ vs : List Json, Json.exactItems vs = true → ∀ v ∈ vs, v.exact = true ∧ Reads l repr float v
  | [], _, _, hv => absurd hv List.not_mem_nil
  | w :: ws, h, v, hv => by
      rw [Json.exactItems, Bool.and_eq_true] at h
      rcases List.mem_cons.mp hv with heq | hv
      · exact heq ▸ ⟨h.1, reads_of_exact w h.1⟩
      · exact reads_items ws h.2 v hv

theorem reads_fields : ∀ fs : List (String × Json), Json.exactFields fs = true →
    ∀ f ∈ fs, f.2.exact = true ∧ Reads l repr float f.2
  | [], _, _, hf => absurd hf List.not_mem_nil
  | (k, w) :: fs, h, f, hf => by
      rw [Json.exactFields, Bool.and_eq_true] at h
      rcases List.mem_cons.mp hf with heq | hf
      · exact heq ▸ ⟨h.1, reads_of_exact w h.1⟩
      · exact reads_fields fs h.2 f hf

end

/-- **Round trip.** What `json.dumps` writes of a value, in either layout, `json.loads` reads as this value. -/
theorem loads_dumps {v : Json} (h : v.exact = true) : loads float (dumps l repr v) = some v := by
  obtain ⟨c, cs, heq, hblank, -⟩ := write_head l repr h
  have hskip : skip (dumps l repr v) = write l repr v := by
    rw [dumps, heq]
    exact skip_cons hblank
  have hreads : Reads l repr float v := reads_of_exact v h
  have hread := hreads _ [] (Nat.le_refl (write l repr v).length) ends_nil
  rw [List.append_nil] at hread
  rw [loads, hskip, dumps, hread]
  rfl

end

end JsonText

end Lib
