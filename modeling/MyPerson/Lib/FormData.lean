import MyPerson.Lib.Delimited
import Mathlib.Data.List.TakeWhile

/-!
# `Lib.FormData` — a reader of `multipart/form-data`

The format of RFC 7578, over bytes: parts between delimiter lines, each with header lines, an empty line and a
body; in `Content-Disposition` the kind `form-data` and its parameters, whose values are tokens or quoted
strings, where a backslash quotes the byte after it and neither CR nor LF may stand. Text before the first
delimiter and after the last one is ignored.

## Contents
- `utf8`, `ofUtf8`;
- `quoted`, `token`, `params`;
- `header?`, `headers`, `part?`, `parts`, `parse`.
-/

namespace Lib.FormData

abbrev Bytes := List UInt8

/-- `str.encode()`. -/
def utf8 (s : String) : Bytes := s.toList.flatMap String.utf8EncodeChar

theorem utf8_append (s t : String) : utf8 (s ++ t) = utf8 s ++ utf8 t := by
  unfold utf8
  rw [String.toList_append, List.flatMap_append]

/-- `bytes.decode()`, `none` when it raises. -/
def ofUtf8 (b : Bytes) : Option String := b.toByteArray.utf8Decode?.map fun cs => String.ofList cs.toList

theorem ofUtf8_utf8 (s : String) : ofUtf8 (utf8 s) = some s := by
  have hbytes : (utf8 s).toByteArray = s.toList.utf8Encode := rfl
  rw [ofUtf8, hbytes, List.utf8Decode?_utf8Encode]
  simp

/-- An ASCII byte stands for its character and for nothing else. -/
theorem mem_utf8EncodeChar {c : Char} {b : UInt8} (hb : b.toNat < 128) :
    b ∈ String.utf8EncodeChar c ↔ c.toNat = b.toNat := by
  have hofNat : ∀ n : Nat, n < 256 → (b = UInt8.ofNat n ↔ b.toNat = n) := by
    intro n hn
    rw [← UInt8.toNat_inj, UInt8.toNat_ofNat_of_lt' hn]
  have hval : c.toNat = c.val.toNat := rfl
  unfold String.utf8EncodeChar
  dsimp only
  rw [hval]
  split
  · rw [List.mem_singleton, hofNat _ (by omega)]
    exact eq_comm
  · split
    · simp only [List.mem_cons, List.not_mem_nil, or_false]
      rw [hofNat _ (by omega), hofNat _ (by omega)]
      omega
    · split
      · simp only [List.mem_cons, List.not_mem_nil, or_false]
        rw [hofNat _ (by omega), hofNat _ (by omega), hofNat _ (by omega)]
        omega
      · simp only [List.mem_cons, List.not_mem_nil, or_false]
        rw [hofNat _ (by omega), hofNat _ (by omega), hofNat _ (by omega), hofNat _ (by omega)]
        omega

theorem mem_utf8 {s : String} {b : UInt8} (hb : b.toNat < 128) :
    b ∈ utf8 s ↔ ∃ c ∈ s.toList, c.toNat = b.toNat := by
  unfold utf8
  rw [List.mem_flatMap]
  exact exists_congr fun c => and_congr_right fun _ => mem_utf8EncodeChar hb

/-! ## Bytes -/

abbrev lf : UInt8 := 10
abbrev cr : UInt8 := 13
abbrev space : UInt8 := 32
abbrev quote : UInt8 := 34
abbrev dash : UInt8 := 45
abbrev colon : UInt8 := 58
abbrev semicolon : UInt8 := 59
abbrev equals : UInt8 := 61
abbrev backslash : UInt8 := 92

def crlf : Bytes := [cr, lf]

/-- A byte of a token: neither a control byte nor space nor one of the special bytes. -/
def isToken (b : UInt8) : Bool := 32 < b.toNat && b.toNat < 127 && !(utf8 "()<>@,;:\\\"/[]?=").contains b

/-- A byte that stands for itself in a quoted string. -/
def isPlain (b : UInt8) : Bool := b ≠ quote && b ≠ backslash && b ≠ cr && b ≠ lf

def lower (s : Bytes) : Bytes := s.map fun b => if 65 ≤ b.toNat ∧ b.toNat ≤ 90 then b + 32 else b

/-! ## Parameters -/

/-- The rest of a quoted string, after its opening quote. -/
def quoted : Bytes → Option (Bytes × Bytes)
  | [] => none
  | [b] => if b = quote then some ([], []) else none
  | b :: e :: s =>
      if b = quote then some ([], e :: s)
      else if b = cr ∨ b = lf then none
      else if b = backslash then
        if e = cr ∨ e = lf then none else (quoted s).map fun p => (e :: p.1, p.2)
      else (quoted (e :: s)).map fun p => (b :: p.1, p.2)

def token (s : Bytes) : Bytes × Bytes := (s.takeWhile isToken, s.dropWhile isToken)

/-- `token / quoted-string`. -/
def paramValue : Bytes → Option (Bytes × Bytes)
  | [] => none
  | b :: s => if b = quote then quoted s else if isToken b then some (token (b :: s)) else none

/-- `*( ";" name "=" value )`; the first argument bounds their number. -/
def params : Nat → Bytes → Option (List (Bytes × Bytes))
  | _, [] => some []
  | 0, _ :: _ => none
  | n + 1, b :: s =>
      if b = semicolon then
        match token (s.dropWhile (· = space)) with
        | (key, e :: rest) =>
            if e = equals ∧ key ≠ [] then
              (paramValue rest).bind fun p => (params n p.2).map fun ps => (lower key, p.1) :: ps
            else none
        | (_, []) => none
      else none

/-! ## Headers -/

structure Header where
  name  : Bytes
  value : Bytes
deriving DecidableEq, Repr

def header? (line : Bytes) : Option Header :=
  (cut [colon] line).bind fun p =>
    if p.1 ≠ [] ∧ p.1.all isToken then some ⟨p.1, p.2.dropWhile (· = space)⟩ else none

/-- The header lines up to the empty one, and what follows; the first argument bounds their number. -/
def headers : Nat → Bytes → Option (List Header × Bytes)
  | 0, _ => none
  | n + 1, s =>
      (cut crlf s).bind fun p =>
        if p.1 = [] then some ([], p.2)
        else (header? p.1).bind fun h => (headers n p.2).map fun q => (h :: q.1, q.2)

/-- `Content-Disposition: form-data` with its parameters. -/
def disposition (value : Bytes) : Option (List (Bytes × Bytes)) :=
  if lower (token value).1 = utf8 "form-data" then params ((token value).2.length + 1) (token value).2 else none

/-! ## Parts -/

structure Part where
  /-- The names of the part's headers. -/
  headers     : List Bytes
  name        : Bytes
  fileName    : Option Bytes
  contentType : Option Bytes
  body        : Bytes
deriving DecidableEq, Repr

/-- The value of a header. -/
def valueOf (hs : List Header) (name : String) : Option Bytes :=
  (hs.find? fun h => lower h.name = utf8 name).map Header.value

def part? (s : Bytes) : Option Part :=
  (headers (s.length + 1) s).bind fun p =>
    ((valueOf p.1 "content-disposition").bind disposition).bind fun ps =>
      (ps.lookup (utf8 "name")).map fun name =>
        ⟨p.1.map Header.name, name, ps.lookup (utf8 "filename"), valueOf p.1 "content-type", p.2⟩

/-- The delimiter, without its first byte. -/
def dashBoundary (boundary : Bytes) : Bytes := lf :: dash :: dash :: boundary

/-- The parts, after a delimiter; the first argument bounds their number. -/
def parts (boundary : Bytes) : Nat → Bytes → Option (List Part)
  | 0, _ => none
  | n + 1, s =>
      if [dash, dash] <+: s then some []
      else if crlf <+: s then
        (cut (cr :: dashBoundary boundary) (s.drop 2)).bind fun p =>
          (part? p.1).bind fun part => (parts boundary n p.2).map fun ps => part :: ps
      else none

def parse (boundary body : Bytes) : Option (List Part) :=
  (cut (cr :: dashBoundary boundary) (crlf ++ body)).bind fun p => parts boundary (body.length + 1) p.2

/-! ## What is read back -/

theorem quoted_cons_plain {b : UInt8} {s : Bytes} (hb : isPlain b = true) (hs : s ≠ []) :
    quoted (b :: s) = (quoted s).map fun p => (b :: p.1, p.2) := by
  simp only [isPlain, Bool.and_eq_true, decide_eq_true_eq] at hb
  obtain ⟨⟨⟨hquote, hback⟩, hcr⟩, hlf⟩ := hb
  cases s with
  | nil => exact absurd rfl hs
  | cons e s =>
      unfold quoted
      rw [if_neg hquote, if_neg (by simp [hcr, hlf]), if_neg hback]
      cases s <;> rfl

/-- Plain bytes up to the closing quote stand for themselves. -/
theorem quoted_plain {v : Bytes} (hv : ∀ b ∈ v, isPlain b = true) (rest : Bytes) :
    quoted (v ++ quote :: rest) = some (v, rest) := by
  induction v with
  | nil => cases rest <;> simp [quoted]
  | cons b v ih =>
      obtain ⟨hb, hv⟩ := List.forall_mem_cons.mp hv
      rw [List.cons_append, quoted_cons_plain hb (by simp), ih hv]
      rfl

/-- **Quoted string.** A quoted string is no longer than what it is read from, and as long only when it stands for
    itself. -/
theorem quoted_spec (s : Bytes) : ∀ {v rest : Bytes}, quoted s = some (v, rest) →
    ∃ c, s = c ++ quote :: rest ∧ v.length ≤ c.length ∧
      (v.length = c.length → c = v ∧ ∀ b ∈ v, isPlain b = true) := by
  induction s using quoted.induct with
  | case1 => exact fun h => nomatch h
  | case2 =>
      intro v rest h
      rw [quoted, if_pos rfl] at h
      obtain ⟨rfl, rfl⟩ := Prod.mk.inj (Option.some.inj h)
      exact ⟨[], rfl, Nat.le_refl _, fun _ => ⟨rfl, fun _ hb => nomatch hb⟩⟩
  | case3 b hb =>
      intro v rest h
      rw [quoted, if_neg hb] at h
      cases h
  | case4 e s =>
      intro v rest h
      rw [quoted, if_pos rfl] at h
      obtain ⟨rfl, rfl⟩ := Prod.mk.inj (Option.some.inj h)
      exact ⟨[], rfl, Nat.le_refl _, fun _ => ⟨rfl, fun _ hb => nomatch hb⟩⟩
  | case5 b e s hquote hline =>
      intro v rest h
      rw [quoted, if_neg hquote, if_pos hline] at h
      cases h
  | case6 e s hend hquote hline =>
      intro v rest h
      rw [quoted, if_neg hquote, if_neg hline, if_pos rfl, if_pos hend] at h
      cases h
  | case7 e s hend hquote hline ih =>
      intro v rest h
      rw [quoted, if_neg hquote, if_neg hline, if_pos rfl, if_neg hend] at h
      obtain ⟨⟨v', rest'⟩, hread, heq⟩ := Option.map_eq_some_iff.mp h
      obtain ⟨rfl, rfl⟩ := Prod.mk.inj heq
      obtain ⟨c, rfl, hle, -⟩ := ih hread
      refine ⟨backslash :: e :: c, rfl, ?_, fun hlen => ?_⟩
      · simp only [List.length_cons]
        omega
      · simp only [List.length_cons] at hlen
        omega
  | case8 b e s hquote hline hback ih =>
      intro v rest h
      rw [quoted, if_neg hquote, if_neg hline, if_neg hback] at h
      obtain ⟨⟨v', rest'⟩, hread, heq⟩ := Option.map_eq_some_iff.mp h
      obtain ⟨rfl, rfl⟩ := Prod.mk.inj heq
      obtain ⟨c, hc, hle, hplain⟩ := ih hread
      refine ⟨b :: c, by rw [hc]; rfl, Nat.succ_le_succ hle, fun hlen => ?_⟩
      obtain ⟨rfl, hall⟩ := hplain (Nat.succ.inj hlen)
      have hb : isPlain b = true := by
        simp only [isPlain, Bool.and_eq_true, decide_eq_true_eq]
        push Not at hline
        exact ⟨⟨⟨hquote, hback⟩, hline.1⟩, hline.2⟩
      exact ⟨rfl, List.forall_mem_cons.mpr ⟨hb, hall⟩⟩

theorem token_append {v : Bytes} (hv : v.all isToken = true) {b : UInt8} (hb : isToken b = false) (rest : Bytes) :
    token (v ++ b :: rest) = (v, b :: rest) := by
  unfold token
  have hall := List.all_eq_true.mp hv
  rw [List.takeWhile_append_of_pos hall, List.dropWhile_append_of_pos hall]
  simp [hb]

/-- One parameter with a quoted value. -/
theorem params_cons {key : Bytes} (hkey : key.all isToken = true) (hne : key ≠ []) (n : Nat) (s : Bytes) :
    params (n + 1) (semicolon :: space :: (key ++ equals :: quote :: s))
      = (quoted s).bind fun p => (params n p.2).map fun ps => (lower key, p.1) :: ps := by
  have hspace : (space :: (key ++ equals :: quote :: s)).dropWhile (· = space) = key ++ equals :: quote :: s := by
    cases key with
    | nil => exact absurd rfl hne
    | cons k key =>
        have hk : k ≠ space := by
          rintro rfl
          exact absurd (List.all_eq_true.mp hkey _ List.mem_cons_self) (by decide)
        simp [hk]
  conv_lhs => unfold params
  rw [if_pos rfl, hspace, token_append hkey (by decide)]
  dsimp only
  rw [if_pos ⟨rfl, hne⟩, paramValue, if_pos rfl]

theorem header_cons {name : Bytes} (hname : name.all isToken = true) (hne : name ≠ []) {b : UInt8} (hb : b ≠ space)
    (s : Bytes) : header? (name ++ colon :: space :: b :: s) = some ⟨name, b :: s⟩ := by
  have hcolon : colon ∉ name := fun hmem => absurd (List.all_eq_true.mp hname _ hmem) (by decide)
  unfold header?
  rw [show name ++ colon :: space :: b :: s = name ++ ([colon] ++ space :: b :: s) from rfl, cut_of_not_mem hcolon]
  rw [Option.bind_some]
  dsimp only
  rw [if_pos ⟨hne, hname⟩]
  simp [hb]

theorem headers_cons {line : Bytes} {h : Header} (hline : header? line = some h) (hne : line ≠ []) (hcr : cr ∉ line)
    (n : Nat) (s : Bytes) :
    headers (n + 1) (line ++ (crlf ++ s)) = (headers n s).map fun q => (h :: q.1, q.2) := by
  conv_lhs => unfold headers crlf
  rw [cut_of_not_mem hcr, Option.bind_some]
  dsimp only
  rw [if_neg hne, hline]
  rfl

theorem headers_end (n : Nat) (s : Bytes) : headers (n + 1) (crlf ++ s) = some ([], s) := by
  unfold headers crlf
  rw [cut_at_start (by simp)]
  rfl

end Lib.FormData
