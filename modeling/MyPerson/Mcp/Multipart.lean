import MyPerson.Lib.FormData

/-!
# `Mcp.Multipart` — the form data of the internal calls

`encode_multipart` of `app/mcp/invoke.py` against the format it writes: what a reader of `Lib.FormData` gets back
from the body. The names of the fields are the code's own; a file name is the caller's and stands unescaped
between quotes, so the reader gets it back exactly when no byte of it means something there.

## Contents
- `encodeMultipart`;
- the segments of a body;
- one part, one file name;
- `multipart_round_trip`.
-/

namespace MyPerson.Mcp.Multipart

open Lib Lib.FormData

/-! ## The encoder -/

/-- The value of a part. -/
inductive Value
  | text (s : String)
  | flag (b : Bool)
  | number (n : Int)
  | file (fileName : String) (data : Bytes) (contentType : Option String)

/-- `str(_q(value))`, and the bytes of a file. -/
def Value.content : Value → Bytes
  | .text s => utf8 s
  | .flag b => utf8 (if b then "true" else "false")
  | .number n => utf8 (toString n)
  | .file _ data _ => data

/-- `ctype or 'application/octet-stream'`. -/
def typeOf (contentType : Option String) : String := (contentType.filter (· ≠ "")).getD "application/octet-stream"

/-- The header lines of a part, with the empty one. -/
def headerText (name : String) : Value → String
  | .file fileName _ contentType =>
      "Content-Disposition: form-data; name=\"" ++ name ++ "\"; filename=\"" ++ fileName ++ "\"\r\n" ++
        ("Content-Type: " ++ typeOf contentType ++ "\r\n\r\n")
  | _ => "Content-Disposition: form-data; name=\"" ++ name ++ "\"\r\n\r\n"

def encodePart (boundary : String) (part : String × Value) : Bytes :=
  utf8 ("--" ++ boundary ++ "\r\n") ++ utf8 (headerText part.1 part.2) ++ part.2.content ++ utf8 "\r\n"

/-- `encode_multipart`: the body and its content type. -/
def encodeMultipart (boundary : String) (parts : List (String × Value)) : Bytes × String :=
  (parts.flatMap (encodePart boundary) ++ utf8 ("--" ++ boundary ++ "--\r\n"),
    "multipart/form-data; boundary=" ++ boundary)

/-- `"mcp" + secrets.token_hex(12)`. -/
def IsBoundary (boundary : String) : Prop :=
  ∃ hex : List Char, boundary = "mcp" ++ String.ofList hex ∧ hex.length = 24 ∧ ∀ c ∈ hex, c ∈ "0123456789abcdef".toList

/-- The fields of `send_file`, `send_voice`, `send_video_note` and `send_album`. -/
def fieldNames : List String :=
  ["chat_id", "file", "files", "caption", "reply_to_message_id", "parse_mode", "schedule_date", "voice_note",
    "duration_ms"]

/-- A part as the tools build it. -/
structure Built (part : String × Value) : Prop where
  name : part.1 ∈ fieldNames
  contentType : ∀ fileName data contentType, part.2 = .file fileName data contentType → contentType = none

/-- Nothing in the file name means something between quotes. -/
def PlainName (fileName : String) : Prop := ∀ c ∈ fileName.toList, c ∉ ['"', '\\', '\r', '\n']

instance (fileName : String) : Decidable (PlainName fileName) := List.decidableBAll _ _

def PlainFile (part : String × Value) : Prop :=
  ∀ fileName data contentType, part.2 = .file fileName data contentType → PlainName fileName

/-- The part as form data. -/
def form (part : String × Value) : Part :=
  match part.2 with
  | .file fileName data contentType =>
      ⟨[utf8 "Content-Disposition", utf8 "Content-Type"], utf8 part.1, some (utf8 fileName),
        some (utf8 (typeOf contentType)), data⟩
  | value => ⟨[utf8 "Content-Disposition"], utf8 part.1, none, none, value.content⟩

/-! ## Header lines -/

def dispositionValue (name : String) (rest : Bytes) : Bytes :=
  utf8 "form-data" ++ semicolon :: space :: (utf8 "name" ++ equals :: quote :: (utf8 name ++ quote :: rest))

def nameLine (name : String) (rest : Bytes) : Bytes :=
  utf8 "Content-Disposition" ++ colon :: space :: dispositionValue name rest

def fileNameParam (rest : Bytes) : Bytes :=
  semicolon :: space :: (utf8 "filename" ++ equals :: quote :: rest)

def typeLine (contentType : String) : Bytes := utf8 "Content-Type" ++ colon :: space :: utf8 contentType

/-- What stands between the delimiters. -/
def segment (part : String × Value) : Bytes :=
  match part.2 with
  | .file fileName data contentType =>
      nameLine part.1 (fileNameParam (utf8 fileName ++ [quote])) ++
        (crlf ++ (typeLine (typeOf contentType) ++ (crlf ++ (crlf ++ data))))
  | value => nameLine part.1 [] ++ (crlf ++ (crlf ++ value.content))

theorem nameLine_append (name : String) (rest more : Bytes) :
    nameLine name rest ++ more = nameLine name (rest ++ more) := by
  simp [nameLine, dispositionValue]

theorem fileNameParam_append (rest more : Bytes) : fileNameParam rest ++ more = fileNameParam (rest ++ more) := by
  simp [fileNameParam]

theorem utf8_nameText (name : String) (rest : Bytes) :
    utf8 "Content-Disposition: form-data; name=\"" ++ (utf8 name ++ quote :: rest) = nameLine name rest := by
  have hliteral : utf8 "Content-Disposition: form-data; name=\"" = utf8 "Content-Disposition" ++ colon :: space ::
      (utf8 "form-data" ++ semicolon :: space :: (utf8 "name" ++ [equals, quote])) := by decide
  rw [hliteral]
  simp [nameLine, dispositionValue]

/-- A part is its delimiter line, its segment and the line's end. -/
theorem encodePart_eq (boundary : String) (part : String × Value) :
    encodePart boundary part = dash :: dash :: utf8 boundary ++ (crlf ++ (segment part ++ crlf)) := by
  have hdashes : utf8 "--" = [dash, dash] := by decide
  have hcrlf : utf8 "\r\n" = crlf := by decide
  have hend : utf8 "\"\r\n\r\n" = quote :: (crlf ++ crlf) := by decide
  have hfile : utf8 "\"; filename=\"" = quote :: fileNameParam [] := by decide
  have hclose : utf8 "\"\r\n" = quote :: crlf := by decide
  have htype : utf8 "Content-Type: " = utf8 "Content-Type" ++ [colon, space] := by decide
  have hblank : utf8 "\r\n\r\n" = crlf ++ crlf := by decide
  obtain ⟨name, value⟩ := part
  unfold encodePart segment headerText
  cases value with
  | file fileName data contentType =>
      dsimp only
      rw [← utf8_nameText]
      simp only [utf8_append, hdashes, hcrlf, hfile, hclose, htype, hblank]
      simp [fileNameParam, typeLine, Value.content]
  | _ =>
      dsimp only
      rw [← utf8_nameText]
      simp only [utf8_append, hdashes, hcrlf, hend]
      simp

/-! ## Reading one part -/

/-- A text without the characters that mean something between quotes. -/
theorem isPlain_of_plainName {fileName : String} (h : PlainName fileName) : ∀ b ∈ utf8 fileName, isPlain b = true := by
  intro b hb
  have hne : ∀ x : UInt8, x.toNat < 128 → (∀ c : Char, c.toNat = x.toNat → c ∈ ['"', '\\', '\r', '\n']) → b ≠ x := by
    rintro x hx hchar rfl
    obtain ⟨c, hc, hcb⟩ := (mem_utf8 hx).mp hb
    exact h c hc (hchar c hcb)
  have hof : ∀ c d : Char, c.toNat = d.toNat → c = d := fun c d hcd => Char.ext (UInt32.toNat_inj.mp hcd)
  simp only [isPlain, Bool.and_eq_true, decide_eq_true_eq]
  refine ⟨⟨⟨hne quote (by decide) ?_, hne backslash (by decide) ?_⟩, hne cr (by decide) ?_⟩, hne lf (by decide) ?_⟩
  · intro c hc
    rw [hof c '"' hc]
    decide
  · intro c hc
    rw [hof c '\\' hc]
    decide
  · intro c hc
    rw [hof c '\r' hc]
    decide
  · intro c hc
    rw [hof c '\n' hc]
    decide

theorem plainName_of_isPlain {fileName : String} (h : ∀ b ∈ utf8 fileName, isPlain b = true) : PlainName fileName := by
  intro c hc hspecial
  have hnot : ∀ x : UInt8, x.toNat < 128 → isPlain x = false → c.toNat ≠ x.toNat := by
    intro x hx hspecial heq
    have hmem := (mem_utf8 hx).mpr ⟨c, hc, heq⟩
    exact absurd ((h x hmem).symm.trans hspecial) (by decide)
  simp only [List.mem_cons, List.not_mem_nil, or_false] at hspecial
  rcases hspecial with rfl | rfl | rfl | rfl
  · exact hnot quote (by decide) (by decide) rfl
  · exact hnot backslash (by decide) (by decide) rfl
  · exact hnot cr (by decide) (by decide) rfl
  · exact hnot lf (by decide) (by decide) rfl

theorem isPlain_fieldName {name : String} (h : name ∈ fieldNames) : ∀ b ∈ utf8 name, isPlain b = true := by
  have hall : (fieldNames.all fun name => (utf8 name).all isPlain) = true := by decide
  exact List.all_eq_true.mp (List.all_eq_true.mp hall name h)

variable {name : String} {rest : Bytes}

theorem header_nameLine :
    header? (nameLine name rest) = some ⟨utf8 "Content-Disposition", dispositionValue name rest⟩ := by
  have hfirst : ∃ s, dispositionValue name rest = 102 :: s := ⟨_, rfl⟩
  obtain ⟨s, hs⟩ := hfirst
  unfold nameLine
  rw [hs]
  exact header_cons (by decide) (by decide) (by decide) s

theorem header_typeLine : header? (typeLine (typeOf none)) = some ⟨utf8 "Content-Type", utf8 (typeOf none)⟩ := by decide

theorem params_nil (n : Nat) : params n [] = some [] := by cases n <;> rfl

/-- The parameters after the kind: the name, then what follows it. -/
theorem disposition_nameLine {r : Bytes} (hname : ∀ b ∈ utf8 name, isPlain b = true) :
    ∃ n, disposition (dispositionValue name r)
      = (params (n + 1) r).map fun ps => (utf8 "name", utf8 name) :: ps := by
  have htoken : token (dispositionValue name r) = (utf8 "form-data",
      semicolon :: space :: (utf8 "name" ++ equals :: quote :: (utf8 name ++ quote :: r))) :=
    token_append (by decide) (by decide) _
  have hlower : lower (utf8 "form-data") = utf8 "form-data" := by decide
  have hkey : lower (utf8 "name") = utf8 "name" := by decide
  unfold disposition
  rw [htoken]
  dsimp only
  rw [if_pos hlower, params_cons (by decide) (by decide), quoted_plain hname, Option.bind_some, hkey]
  exact ⟨_, rfl⟩

theorem params_fileName {n : Nat} {g : Bytes} : params (n + 1) (fileNameParam g)
    = (quoted g).bind fun p => (params n p.2).map fun ps => (utf8 "filename", p.1) :: ps := by
  have hkey : lower (utf8 "filename") = utf8 "filename" := by decide
  unfold fileNameParam
  rw [params_cons (by decide) (by decide), hkey]

/-- Header lines hold no byte of a line end. -/
theorem not_mem_nameLine {x : UInt8} (hx : x = cr ∨ x = lf) (hname : ∀ b ∈ utf8 name, isPlain b = true)
    (hrest : x ∉ rest) : x ∉ nameLine name rest := by
  have hliteral : cr ∉ utf8 "Content-Disposition: form-data; name=\"" ∧
      lf ∉ utf8 "Content-Disposition: form-data; name=\"" := by decide
  have hplain : isPlain x = false ∧ x ≠ quote := by rcases hx with rfl | rfl <;> decide
  rw [← utf8_nameText]
  intro hmem
  rcases List.mem_append.mp hmem with hin | hin
  · exact hx.elim (fun h => hliteral.1 (h ▸ hin)) fun h => hliteral.2 (h ▸ hin)
  · rcases List.mem_append.mp hin with hin | hin
    · exact absurd ((hname x hin).symm.trans hplain.1) (by decide)
    · rcases List.mem_cons.mp hin with heq | hin
      · exact hplain.2 heq
      · exact hrest hin

theorem not_mem_fileNameParam {x : UInt8} (hx : x = cr ∨ x = lf) {g : Bytes} (hg : x ∉ g) : x ∉ fileNameParam g := by
  have hliteral : cr ∉ fileNameParam [] ∧ lf ∉ fileNameParam [] := by decide
  have hsplit : fileNameParam g = fileNameParam [] ++ g := by rw [fileNameParam_append, List.nil_append]
  rw [hsplit]
  intro hmem
  rcases List.mem_append.mp hmem with hin | hin
  · exact hx.elim (fun h => hliteral.1 (h ▸ hin)) fun h => hliteral.2 (h ▸ hin)
  · exact hg hin

theorem not_mem_plainName {x : UInt8} (hx : x = cr ∨ x = lf) {fileName : String} (h : PlainName fileName) :
    x ∉ utf8 fileName ++ [quote] := by
  have hplain : isPlain x = false ∧ x ≠ quote := by rcases hx with rfl | rfl <;> decide
  intro hmem
  rcases List.mem_append.mp hmem with hin | hin
  · exact absurd ((isPlain_of_plainName h x hin).symm.trans hplain.1) (by decide)
  · exact hplain.2 (List.mem_singleton.mp hin)

theorem nameLine_ne_nil : nameLine name rest ≠ [] := by
  unfold nameLine
  exact fun h => absurd (List.append_eq_nil_iff.mp h).2 (List.cons_ne_nil _ _)

theorem valueOf_disposition (value : Bytes) (hs : List Header) :
    valueOf (⟨utf8 "Content-Disposition", value⟩ :: hs) "content-disposition" = some value := by
  have hlower : lower (utf8 "Content-Disposition") = utf8 "content-disposition" := by decide
  simp [valueOf, hlower]

/-- **Field.** A part without a file name is read back. -/
theorem part_field (value : Value) (hname : ∀ b ∈ utf8 name, isPlain b = true) :
    part? (nameLine name [] ++ (crlf ++ (crlf ++ value.content)))
      = some ⟨[utf8 "Content-Disposition"], utf8 name, none, none, value.content⟩ := by
  have htype : lower (utf8 "Content-Disposition") ≠ utf8 "content-type" := by decide
  have hkey : utf8 "filename" ≠ utf8 "name" := by decide
  obtain ⟨n, hparams⟩ := disposition_nameLine (r := []) hname
  obtain ⟨m, hm⟩ := Nat.exists_eq_add_of_le'
    (show 2 ≤ (nameLine name [] ++ (crlf ++ (crlf ++ value.content))).length + 1 by simp [crlf]; omega)
  unfold part?
  rw [hm, headers_cons header_nameLine nameLine_ne_nil (not_mem_nameLine (Or.inl rfl) hname (by decide)),
    headers_end]
  rw [Option.map_some, Option.bind_some]
  dsimp only
  rw [valueOf_disposition, Option.bind_some, hparams, params_nil]
  simp [valueOf, htype, hkey]

/-- **File.** A part with a plain file name is read back. -/
theorem part_file {fileName : String} {data : Bytes} (hname : ∀ b ∈ utf8 name, isPlain b = true)
    (hfile : PlainName fileName) :
    part? (nameLine name (fileNameParam (utf8 fileName ++ [quote])) ++
        (crlf ++ (typeLine (typeOf none) ++ (crlf ++ (crlf ++ data)))))
      = some ⟨[utf8 "Content-Disposition", utf8 "Content-Type"], utf8 name, some (utf8 fileName),
          some (utf8 (typeOf none)), data⟩ := by
  have hplain := isPlain_of_plainName hfile
  have hdisposition : lower (utf8 "Content-Disposition") ≠ utf8 "content-type" := by decide
  have htype : lower (utf8 "Content-Type") = utf8 "content-type" := by decide
  have hkey : utf8 "filename" ≠ utf8 "name" := by decide
  have hline : cr ∉ nameLine name (fileNameParam (utf8 fileName ++ [quote])) :=
    not_mem_nameLine (Or.inl rfl) hname (not_mem_fileNameParam (Or.inl rfl) (not_mem_plainName (Or.inl rfl) hfile))
  obtain ⟨n, hparams⟩ := disposition_nameLine (r := fileNameParam (utf8 fileName ++ [quote])) hname
  obtain ⟨m, hm⟩ := Nat.exists_eq_add_of_le'
    (show 3 ≤ (nameLine name (fileNameParam (utf8 fileName ++ [quote])) ++
      (crlf ++ (typeLine (typeOf none) ++ (crlf ++ (crlf ++ data))))).length + 1 by simp [crlf]; omega)
  unfold part?
  rw [hm, headers_cons header_nameLine nameLine_ne_nil hline, headers_cons header_typeLine (by decide) (by decide),
    headers_end]
  rw [Option.map_some, Option.map_some, Option.bind_some]
  dsimp only
  rw [valueOf_disposition, Option.bind_some, hparams, params_fileName, quoted_plain hplain, Option.bind_some, params_nil]
  simp [valueOf, hdisposition, htype, List.lookup_cons, beq_eq_false_iff_ne.mpr hkey]

/-- A part as the tools build it, with a plain file name, is read back from its segment. -/
theorem part_segment {part : String × Value} (hbuilt : Built part) (hplain : PlainFile part) :
    part? (segment part) = some (form part) := by
  obtain ⟨name, value⟩ := part
  have hname := isPlain_fieldName hbuilt.name
  cases value with
  | file fileName data contentType =>
      obtain rfl := hbuilt.contentType fileName data contentType rfl
      exact part_file hname (hplain fileName data none rfl)
  | text s => exact part_field (.text s) hname
  | flag b => exact part_field (.flag b) hname
  | number n => exact part_field (.number n) hname

/-! ## A file name that is read back -/

/-- The line that is read as the first header begins as it was written. -/
theorem first_line {g w d seg line rest₁ rest₂ : Bytes} (hname : ∀ b ∈ utf8 name, isPlain b = true)
    (hseg : cut d (nameLine name (fileNameParam g) ++ (crlf ++ w)) = some (seg, rest₁))
    (hline : cut crlf seg = some (line, rest₂)) :
    ∃ g', line = nameLine name (fileNameParam g') ∧ g' <+: g := by
  have hsegPrefix : seg <+: nameLine name (fileNameParam g) ++ (crlf ++ w) := by
    rw [cut_some hseg, List.append_assoc]
    exact List.prefix_append _ _
  have hlinePrefix : line ++ crlf <+: seg := by
    rw [cut_some hline]
    exact List.prefix_append _ _
  have hle : line.length ≤ (nameLine name (fileNameParam g)).length :=
    cut_le_of_prefix hline hsegPrefix (List.append_assoc _ _ _).symm
  have hopen : nameLine name (fileNameParam g) = nameLine name (fileNameParam []) ++ g := by
    rw [nameLine_append, fileNameParam_append, List.nil_append]
  have hwhole := hlinePrefix.trans hsegPrefix
  have hshort : line <+: nameLine name (fileNameParam g) :=
    List.prefix_of_prefix_length_le ((List.prefix_append line crlf).trans hwhole) (List.prefix_append _ _) hle
  -- no line end before the quote
  have hlong : (nameLine name (fileNameParam [])).length ≤ line.length := by
    by_contra hlt
    have hend : line ++ [cr] <+: nameLine name (fileNameParam []) := by
      have hfirst : line ++ [cr] <+: nameLine name (fileNameParam g) ++ (crlf ++ w) :=
        (show line ++ [cr] <+: line ++ crlf from ⟨[lf], by simp [crlf]⟩).trans hwhole
      refine List.prefix_of_prefix_length_le hfirst ?_ ?_
      · rw [hopen, List.append_assoc]
        exact List.prefix_append _ _
      · rw [List.length_append, List.length_singleton]
        omega
    have hmem : cr ∈ nameLine name (fileNameParam []) :=
      hend.subset (List.mem_append_right _ List.mem_cons_self)
    exact not_mem_nameLine (Or.inl rfl) hname (by decide) hmem
  rw [hopen] at hshort
  obtain ⟨g', hg'⟩ : nameLine name (fileNameParam []) <+: line :=
    List.prefix_of_prefix_length_le (List.prefix_append _ g) hshort hlong
  refine ⟨g', ?_, ?_⟩
  · rw [← hg', nameLine_append, fileNameParam_append, List.nil_append]
  · rw [← hg'] at hshort
    exact (List.prefix_append_right_inj _).mp hshort

/-- **File name.** Only a plain file name is read back, wherever the part is cut. -/
theorem plainName_of_read {fileName : String} {w d seg rest₁ : Bytes} {q : Part}
    (hname : ∀ b ∈ utf8 name, isPlain b = true)
    (hseg : cut d (nameLine name (fileNameParam (utf8 fileName ++ [quote])) ++ (crlf ++ w)) = some (seg, rest₁))
    (hpart : part? seg = some q) (hq : q.fileName = some (utf8 fileName)) : PlainName fileName := by
  obtain ⟨⟨hs, body⟩, hheaders, hpart⟩ := Option.bind_eq_some_iff.mp hpart
  obtain ⟨ps, hps, hpart⟩ := Option.bind_eq_some_iff.mp hpart
  obtain ⟨_, -, rfl⟩ := Option.map_eq_some_iff.mp hpart
  obtain ⟨value, hvalue, hps⟩ := Option.bind_eq_some_iff.mp hps
  obtain ⟨⟨line, rest₂⟩, hline, hheaders⟩ := Option.bind_eq_some_iff.mp hheaders
  dsimp only at hheaders
  by_cases hempty : line = []
  · rw [if_pos hempty] at hheaders
    obtain ⟨rfl, -⟩ := Prod.mk.inj (Option.some.inj hheaders)
    cases hvalue
  · rw [if_neg hempty] at hheaders
    obtain ⟨h, hheader, hheaders⟩ := Option.bind_eq_some_iff.mp hheaders
    obtain ⟨⟨hs', body'⟩, -, heq⟩ := Option.map_eq_some_iff.mp hheaders
    obtain ⟨rfl, -⟩ := Prod.mk.inj heq
    obtain ⟨g, rfl, hg⟩ := first_line hname hseg hline
    rw [header_nameLine] at hheader
    obtain rfl := Option.some.inj hheader
    rw [valueOf_disposition] at hvalue
    obtain rfl := Option.some.inj hvalue
    obtain ⟨n, hdisposition⟩ := disposition_nameLine (r := fileNameParam g) hname
    rw [hdisposition, params_fileName] at hps
    obtain ⟨ps', hps', rfl⟩ := Option.map_eq_some_iff.mp hps
    obtain ⟨⟨v, rest₃⟩, hquoted, hps'⟩ := Option.bind_eq_some_iff.mp hps'
    obtain ⟨ps'', -, rfl⟩ := Option.map_eq_some_iff.mp hps'
    have hkey : (utf8 "filename" == utf8 "name") = false := by decide
    have hv : v = utf8 fileName := by simpa [List.lookup_cons, hkey] using hq
    subst hv
    obtain ⟨c, rfl, hle, hplain⟩ := quoted_spec g hquoted
    have hlen := hg.length_le
    simp only [List.length_append, List.length_cons, List.length_nil] at hlen
    exact plainName_of_isPlain (hplain (by omega)).2

/-! ## Between the delimiters -/

theorem not_mem_boundary {boundary : String} (h : IsBoundary boundary) : cr ∉ dashBoundary (utf8 boundary) := by
  obtain ⟨hex, rfl, -, hhex⟩ := h
  intro hmem
  rcases List.mem_cons.mp hmem with hfirst | hmem
  · exact absurd hfirst (by decide)
  rcases List.mem_cons.mp hmem with hdash | hmem
  · exact absurd hdash (by decide)
  rcases List.mem_cons.mp hmem with hdash | hmem
  · exact absurd hdash (by decide)
  obtain ⟨c, hc, hcr⟩ := (mem_utf8 (by decide)).mp hmem
  have hlist : (String.ofList hex).toList = hex := String.toList_ofList
  rw [String.toList_append, hlist] at hc
  have hascii : ("mcp".toList ++ "0123456789abcdef".toList).all (fun c => c.toNat ≠ cr.toNat) = true := by decide
  have hc : c ∈ "mcp".toList ++ "0123456789abcdef".toList :=
    List.mem_append.mpr ((List.mem_append.mp hc).imp_right (hhex c))
  exact of_decide_eq_true (List.all_eq_true.mp hascii c hc) hcr

variable {b : Bytes}

/-- A line that holds no line feed, and what follows it. -/
theorem not_infix_line {line rest : Bytes} (hline : lf ∉ line) (hstart : ¬ dash :: dash :: b <+: rest)
    (hrest : ¬ dashBoundary b <:+: rest) : ¬ dashBoundary b <:+: line ++ (crlf ++ rest) := by
  intro h
  have hne : lf ≠ cr := by decide
  have hline' : lf ∉ line ++ [cr] := by simpa [hne] using hline
  rw [show line ++ (crlf ++ rest) = (line ++ [cr]) ++ lf :: rest by simp [crlf]] at h
  exact (infix_after hline' h).elim hstart hrest

theorem not_infix_content {content : Bytes} (h : ¬ b <:+: content) : ¬ dashBoundary b <:+: crlf ++ content := by
  have hsuffix : b <:+: dash :: dash :: b := ⟨[dash, dash], [], by simp⟩
  rw [← List.nil_append (crlf ++ content)]
  refine not_infix_line List.not_mem_nil (fun hstart => h ?_) fun hinside => h ?_
  · exact hsuffix.trans hstart.isInfix
  · exact (hsuffix.trans (List.suffix_cons lf _).isInfix).trans hinside

/-- **No delimiter.** Between its header lines and in its content, a part holds no delimiter. -/
theorem dashBoundary_not_in_segment {part : String × Value} (hbuilt : Built part) (hplain : PlainFile part)
    (hcontent : ¬ b <:+: part.2.content) : ¬ dashBoundary b <:+: segment part := by
  have hblank : ∀ content : Bytes, ¬ dash :: dash :: b <+: crlf ++ content := fun content h =>
    absurd (List.cons_prefix_cons.mp h).1 (by decide)
  obtain ⟨name, value⟩ := part
  have hname := isPlain_fieldName hbuilt.name
  cases value with
  | file fileName data contentType =>
      obtain rfl := hbuilt.contentType fileName data contentType rfl
      have hfile := hplain fileName data none rfl
      have hlf : lf ∉ fileNameParam (utf8 fileName ++ [quote]) :=
        not_mem_fileNameParam (Or.inr rfl) (not_mem_plainName (Or.inr rfl) hfile)
      refine not_infix_line (not_mem_nameLine (Or.inr rfl) hname hlf) (fun h => ?_) ?_
      · exact absurd (List.cons_prefix_cons.mp h).1 (by decide)
      · exact not_infix_line (by decide) (hblank data) (not_infix_content hcontent)
  | text s =>
      exact not_infix_line (not_mem_nameLine (Or.inr rfl) hname (by decide)) (hblank _) (not_infix_content hcontent)
  | flag f =>
      exact not_infix_line (not_mem_nameLine (Or.inr rfl) hname (by decide)) (hblank _) (not_infix_content hcontent)
  | number n =>
      exact not_infix_line (not_mem_nameLine (Or.inr rfl) hname (by decide)) (hblank _) (not_infix_content hcontent)

/-! ## The whole body -/

variable {boundary : String} {ps : List (String × Value)}

/-- What follows a delimiter. -/
def after (boundary : String) : List (String × Value) → Bytes
  | [] => dash :: dash :: crlf
  | p :: ps => crlf ++ (segment p ++ (cr :: dashBoundary (utf8 boundary) ++ after boundary ps))

theorem after_cons (p : String × Value) : after boundary (p :: ps)
    = crlf ++ (segment p ++ (cr :: dashBoundary (utf8 boundary) ++ after boundary ps)) := rfl

theorem encodeMultipart_eq : crlf ++ (encodeMultipart boundary ps).1
    = cr :: dashBoundary (utf8 boundary) ++ after boundary ps := by
  have hopen : utf8 "--" = [dash, dash] := by decide
  have hclose : utf8 "--\r\n" = dash :: dash :: crlf := by decide
  unfold encodeMultipart
  dsimp only
  induction ps with
  | nil => simp [utf8_append, hopen, hclose, crlf, dashBoundary, after]
  | cons p ps ih =>
      rw [List.flatMap_cons, encodePart_eq, after_cons, ← ih]
      simp [crlf, dashBoundary]

/-- One part is read from behind a delimiter. -/
theorem parts_after_cons {p : String × Value} {n : Nat} : parts (utf8 boundary) (n + 1) (after boundary (p :: ps))
    = (cut (cr :: dashBoundary (utf8 boundary))
        (segment p ++ (cr :: dashBoundary (utf8 boundary) ++ after boundary ps))).bind fun q =>
          (part? q.1).bind fun part => (parts (utf8 boundary) n q.2).map fun rest => part :: rest := by
  have hopen : ∀ s : Bytes, ¬ [dash, dash] <+: crlf ++ s := fun s h =>
    absurd (List.cons_prefix_cons.mp h).1 (by decide)
  rw [after_cons]
  conv_lhs => unfold parts
  rw [if_neg (hopen _), if_pos (List.prefix_append _ _)]
  rfl

theorem parts_after_nil {n : Nat} : parts (utf8 boundary) (n + 1) (after boundary []) = some [] := by
  unfold parts after
  rw [if_pos ⟨crlf, rfl⟩]

/-- The name of a file is read back only from a plain one. -/
theorem plainFile_of_read {p : String × Value} {q : Part} {d seg rest w : Bytes} (hbuilt : Built p)
    (hcut : cut d (segment p ++ w) = some (seg, rest)) (hpart : part? seg = some q) (hq : q = form p) :
    PlainFile p := by
  intro fileName data contentType hfile
  obtain ⟨name, value⟩ := p
  obtain rfl : value = .file fileName data contentType := hfile
  have hname := isPlain_fieldName hbuilt.name
  have hread : q.fileName = some (utf8 fileName) := by rw [hq]; rfl
  unfold segment at hcut
  simp only [List.append_assoc] at hcut
  exact plainName_of_read hname hcut hpart hread

/-- **Parts.** The parts are read back exactly when every file name is plain. -/
theorem parts_after_iff (hb : IsBoundary boundary) (hbuilt : ∀ p ∈ ps, Built p)
    (hcontent : ∀ p ∈ ps, ¬ utf8 boundary <:+: p.2.content) {n : Nat} (hn : ps.length < n) :
    parts (utf8 boundary) n (after boundary ps) = some (ps.map form) ↔ ∀ p ∈ ps, PlainFile p := by
  induction ps generalizing n with
  | nil =>
      obtain ⟨m, rfl⟩ := Nat.exists_eq_add_of_le' (Nat.succ_le_of_lt hn)
      exact iff_of_true parts_after_nil fun p hp => nomatch hp
  | cons p ps ih =>
      obtain ⟨m, rfl⟩ := Nat.exists_eq_add_of_le' (Nat.lt_of_le_of_lt (Nat.le_add_left 1 ps.length) hn)
      obtain ⟨hbuiltp, hbuilt⟩ := List.forall_mem_cons.mp hbuilt
      obtain ⟨hcontentp, hcontent⟩ := List.forall_mem_cons.mp hcontent
      have htail := ih hbuilt hcontent (Nat.succ_lt_succ_iff.mp hn)
      rw [parts_after_cons, List.forall_mem_cons, List.map_cons]
      constructor
      · intro hread
        obtain ⟨⟨seg, rest⟩, hcut, hread⟩ := Option.bind_eq_some_iff.mp hread
        obtain ⟨q, hpart, hread⟩ := Option.bind_eq_some_iff.mp hread
        obtain ⟨qs, hqs, heq⟩ := Option.map_eq_some_iff.mp hread
        obtain ⟨hq, rfl⟩ := List.cons.inj heq
        have hplain := plainFile_of_read hbuiltp hcut hpart hq
        rw [cut_of_infix_free (not_mem_boundary hb) (dashBoundary_not_in_segment hbuiltp hplain hcontentp)] at hcut
        obtain ⟨-, rfl⟩ := Prod.mk.inj (Option.some.inj hcut)
        exact ⟨hplain, htail.mp hqs⟩
      · rintro ⟨hplain, hps⟩
        rw [cut_of_infix_free (not_mem_boundary hb) (dashBoundary_not_in_segment hbuiltp hplain hcontentp),
          Option.bind_some, part_segment hbuiltp hplain, Option.bind_some, htail.mpr hps]
        rfl

theorem length_le_body : ps.length ≤ (encodeMultipart boundary ps).1.length := by
  unfold encodeMultipart
  rw [List.length_append]
  refine Nat.le_add_right_of_le ?_
  induction ps with
  | nil => exact Nat.zero_le _
  | cons p ps ih =>
      rw [List.flatMap_cons, List.length_append, encodePart_eq, List.length_cons]
      simp only [List.length_append, List.length_cons]
      omega

/-- **Round trip.** What `encode_multipart` writes is read back as the parts it was given exactly when no file name
    holds a quote, a backslash, CR or LF. -/
theorem multipart_round_trip (hb : IsBoundary boundary) (hbuilt : ∀ p ∈ ps, Built p)
    (hcontent : ∀ p ∈ ps, ¬ utf8 boundary <:+: p.2.content) :
    parse (utf8 boundary) (encodeMultipart boundary ps).1 = some (ps.map form) ↔ ∀ p ∈ ps, PlainFile p := by
  unfold parse
  rw [encodeMultipart_eq, cut_at_start (List.cons_ne_nil _ _), Option.bind_some]
  exact parts_after_iff hb hbuilt hcontent (Nat.lt_succ_of_le length_le_body)

theorem isBoundary_zeros : IsBoundary "mcp000000000000000000000000" := by
  refine ⟨List.replicate 24 '0', by decide, by decide, fun c hc => ?_⟩
  rw [List.eq_of_mem_replicate hc]
  decide

theorem multipart_round_trip_file :
    parse (utf8 "mcp000000000000000000000000") (encodeMultipart "mcp000000000000000000000000"
      [("chat_id", .number (-7)), ("file", .file "отчёт.pdf" [37, 80] none)]).1
      = some [form ("chat_id", .number (-7)), form ("file", .file "отчёт.pdf" [37, 80] none)] := by
  refine (multipart_round_trip isBoundary_zeros ?_ ?_).mpr ?_
  · intro p hp
    have hp : p = ("chat_id", .number (-7)) ∨ p = ("file", .file "отчёт.pdf" [37, 80] none) := by simpa using hp
    rcases hp with rfl | rfl
    · exact ⟨by decide, fun _ _ _ h => nomatch h⟩
    · refine ⟨by decide, fun fileName data contentType h => ?_⟩
      cases h
      rfl
  · decide
  · intro p hp fileName data contentType hfile
    have hp : p = ("chat_id", .number (-7)) ∨ p = ("file", .file "отчёт.pdf" [37, 80] none) := by simpa using hp
    rcases hp with rfl | rfl
    · cases hfile
    · cases hfile
      decide

/-- The part that is uploaded as `a"\r\nX: "` has a header of the uploader's. -/
theorem file_name_adds_header :
    (∃ p, parse (utf8 "mcp000000000000000000000000") (encodeMultipart "mcp000000000000000000000000"
      [("file", .file "a\"\r\nX: \"" [37] none)]).1 = some [p] ∧ utf8 "X" ∈ p.headers ∧
      p.fileName = some (utf8 "a")) ∧
    ¬ ∀ boundary ps, IsBoundary boundary → (∀ p ∈ ps, Built p) →
      (∀ p ∈ ps, ¬ utf8 boundary <:+: p.2.content) →
      parse (utf8 boundary) (encodeMultipart boundary ps).1 = some (ps.map form) := by
  have hread : parse (utf8 "mcp000000000000000000000000") (encodeMultipart "mcp000000000000000000000000"
      [("file", .file "a\"\r\nX: \"" [37] none)]).1
      = some [⟨[utf8 "Content-Disposition", utf8 "X", utf8 "Content-Type"], utf8 "file", some (utf8 "a"),
          some (utf8 "application/octet-stream"), [37]⟩] := by decide +kernel
  refine ⟨⟨_, hread, by decide, rfl⟩, fun h => ?_⟩
  have hall := h "mcp000000000000000000000000" [("file", .file "a\"\r\nX: \"" [37] none)]
    isBoundary_zeros ?_ (by decide)
  · rw [hread] at hall
    exact absurd hall (by decide)
  · intro p hp
    obtain rfl := List.mem_singleton.mp hp
    refine ⟨by decide, fun fileName data contentType hfile => ?_⟩
    cases hfile
    rfl

end MyPerson.Mcp.Multipart
