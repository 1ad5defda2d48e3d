import Mathlib.Data.List.TakeWhile
import MyPerson.Lib.Decimal

/-!
# `MaxMedia.Download` — the ranged download of an attachment

`download_media` of `app/max/api/messages.py` from the resolved attachment on, with `open_stream` and
`UpstreamStream.chunks` of `app/max/media.py`. The size of a file comes from the stored attachment, from the
CDN's `Content-Range` or from its `Content-Length`; a CDN that ignores the range sends the whole file, and the part
before the offset is dropped here, across the borders of chunks. A 200 that does not say how long the file is counts
as a failure of the CDN, and a number of more than 4300 digits is a `ValueError`.

## Contents
- the range that is asked for, the upstream answer, the stream;
- `chunksFrom_flatten`: what is dropped;
- `ranged_download`.
-/

namespace MyPerson.MaxMedia

open Lib

abbrev Bytes := List UInt8

/-! ## Numbers in headers -/

/-- `str.isdigit` of a header value, which is ASCII. -/
def isdigit (s : List Char) : Bool := !s.isEmpty && s.all Char.isDigit

/-- The number of digits. -/
def toInt (s : List Char) : Nat := s.foldl (fun n c => 10 * n + (c.toNat - '0'.toNat)) 0

/-- `int` of digits, `none` when it raises. -/
def int? (s : List Char) : Option Nat := if s.length ≤ Decimal.maxStrDigits then some (toInt s) else none

/-- `content_range.rsplit("/", 1)[1]`, where there is a slash. -/
def afterSlash (s : List Char) : Option (List Char) :=
  if s.contains '/' then some (s.reverse.takeWhile (· ≠ '/')).reverse else none

/-- `str.isspace`, of the characters a header value may have. -/
def isSpace (c : Char) : Bool :=
  c = ' ' || (9 ≤ c.toNat && c.toNat ≤ 13) || (28 ≤ c.toNat && c.toNat ≤ 31) || c.toNat = 0x85 || c.toNat = 0xA0

def strip (s : List Char) : List Char := ((s.dropWhile isSpace).reverse.dropWhile isSpace).reverse

/-- `re.match(r"bytes=(\d+)-$", value)`: the digits of the prefix form. -/
def matchRange (value : List Char) : Option (List Char) :=
  if "bytes=".toList.isPrefixOf value ∧ value.getLast? = some '-' ∧ isdigit (value.drop 6).dropLast then
    some (value.drop 6).dropLast
  else none

/-! ## The upstream answer -/

structure Response where
  status  : Nat
  header  : String → Option String
  chunks  : List Bytes

/-- What the headers say of the size: the digits after the slash of a 206, the length of a 200. -/
def Response.totalDigits (r : Response) : Option (List Char) :=
  if r.status = 206 then (afterSlash ((r.header "Content-Range").getD "").toList).filter isdigit
  else if r.status = 200 then (some ((r.header "Content-Length").getD "").toList).filter isdigit
  else none

/-- The size that the headers say. -/
def Response.total (r : Response) : Option Nat := r.totalDigits.bind int?

structure UpstreamStream where
  contentType : String
  offset      : Nat
  total       : Option Nat
  response    : Response

inductive OpenError
  | rangeNotSatisfiable (size : String)
  | mediaUpstreamError (text : String)
  /-- `int` of too many digits. -/
  | valueError

/-- The `Range` header of the request to the CDN. -/
def rangeHeader (offset : Nat) : Option String :=
  if offset ≠ 0 then some ("bytes=" ++ toString offset ++ "-") else none

/-- `open_stream`; `get` sends the request with a `Range` header or without one. -/
def openStream (get : Option String → Except String Response) (offset : Nat) : Except OpenError UpstreamStream :=
  match get (rangeHeader offset) with
  | .error text => .error (.mediaUpstreamError text)
  | .ok response =>
      let stream (total : Option Nat) : UpstreamStream :=
        ⟨(response.header "Content-Type").getD "application/octet-stream", offset, total, response⟩
      -- a 200 without its length is no stream
      if response.status = 206 ∨ response.status = 200 ∧ response.totalDigits.isSome then
        match response.totalDigits with
        | none => .ok (stream none)
        | some digits =>
            match int? digits with
            | some total => .ok (stream (some total))
            | none => .error .valueError
      else if response.status = 416 then
        let contentRange := ((response.header "Content-Range").getD "").toList
        .error (.rangeNotSatisfiable (((afterSlash contentRange).map String.ofList).getD "*"))
      else .error (.mediaUpstreamError ("CDN answered HTTP " ++ toString response.status))

/-- The loop of `chunks`: `skip` bytes are still to be dropped. -/
def chunksFrom (skip : Nat) : List Bytes → List Bytes
  | [] => []
  | chunk :: rest =>
      if skip ≠ 0 then
        if chunk.length ≤ skip then chunksFrom (skip - chunk.length) rest
        else chunk.drop skip :: chunksFrom 0 rest
      else chunk :: chunksFrom 0 rest

def UpstreamStream.chunks (u : UpstreamStream) : List Bytes :=
  chunksFrom (if u.response.status = 200 ∧ u.offset ≠ 0 then u.offset else 0) u.response.chunks

/-! ## The route -/

structure ResolvedMedia where
  filename : String
  size     : Option Nat

/-- A header of the answer. -/
inductive Header
  /-- `Accept-Ranges: bytes`. -/
  | acceptRanges
  | contentDisposition (filename : String)
  /-- `X-Expected-Size`. -/
  | expectedSize (total : Nat)
  | contentLength (length : Int)
  /-- `Content-Range: bytes first-last/total`. -/
  | contentRange (first last : Int) (total : Nat)
deriving DecidableEq

structure Stream where
  status    : Nat
  mediaType : String
  headers   : List Header
  chunks    : List Bytes

inductive Answer
  | httpError (status : Nat) (detail : String)
  | rangeNotSatisfiable (size : String)
  /-- `int` of too many digits leaves the route. -/
  | valueError
  | stream (s : Stream)

/-- The headers of a stream of a file of `total` bytes from the offset on. -/
def streamHeaders (filename : String) (offset : Nat) (total : Option Nat) : List Header :=
  [.acceptRanges, .contentDisposition filename] ++
    match total with
    | none => []
    | some total =>
        [.expectedSize total, .contentLength ((total : Int) - offset)] ++
          if offset ≠ 0 then [.contentRange offset ((total : Int) - 1) total] else []

/-- What the `Range` header asks for, as digits. -/
def requestedDigits (range : Option String) : Option (List Char) := matchRange (strip (range.getD "").toList)

def requested (range : Option String) : Option Nat := (requestedDigits range).map toInt

/-- The `Range` header has more digits than `int` takes. -/
def tooLong (range : Option String) : Bool := (requestedDigits range).any fun digits => (int? digits).isNone

/-- `download_media`, once the attachment is resolved or has failed to be. -/
def downloadMedia (resolved : Except (Nat × String) ResolvedMedia) (range : Option String)
    (get : Option String → Except String Response) : Answer :=
  match resolved with
  | .error e => .httpError e.1 e.2
  | .ok resolved =>
      if tooLong range then .valueError else
      let offset := (requested range).getD 0
      match resolved.size.filter fun size => (requested range).isSome ∧ size ≤ offset with
      | some size => .rangeNotSatisfiable (toString size)
      | none =>
          match openStream get offset with
          | .error (.rangeNotSatisfiable size) => .rangeNotSatisfiable size
          | .error (.mediaUpstreamError text) => .httpError 502 text
          | .error .valueError => .valueError
          | .ok upstream =>
              .stream
                { status := if offset ≠ 0 then 206 else 200
                  mediaType := upstream.contentType
                  headers := streamHeaders resolved.filename offset (upstream.total.or resolved.size)
                  chunks := upstream.chunks }

/-! ## Dropping the prefix -/

/-- **Skip.** However the body is cut into chunks, what is left out is its first `skip` bytes. -/
theorem chunksFrom_flatten (skip : Nat) (chunks : List Bytes) :
    (chunksFrom skip chunks).flatten = chunks.flatten.drop skip := by
  induction chunks generalizing skip with
  | nil => exact (List.drop_nil).symm
  | cons chunk rest ih =>
      unfold chunksFrom
      rw [List.flatten_cons]
      by_cases hskip : skip ≠ 0
      · rw [if_pos hskip]
        by_cases hlength : chunk.length ≤ skip
        · rw [if_pos hlength, ih, List.drop_append, List.drop_eq_nil_of_le hlength, List.nil_append]
        · rw [if_neg hlength, List.flatten_cons, ih, List.drop_zero,
            List.drop_append_of_le_length (Nat.le_of_lt (Nat.lt_of_not_le hlength))]
      · obtain rfl := Decidable.not_not.mp hskip
        rw [if_neg hskip, List.flatten_cons, ih, List.drop_zero, List.drop_zero]

/-! ## What is declared -/

variable {file : Bytes} {offset : Nat}

/-- The upstream sends the whole file with 200 and the file from the offset on with 206, and what its headers say
    of the size is right. -/
structure Delivers (file : Bytes) (offset : Nat) (r : Response) : Prop where
  whole  : r.status = 200 → r.chunks.flatten = file
  ranged : r.status = 206 → r.chunks.flatten = file.drop offset
  total  : ∀ n, r.total = some n → n = file.length

/-- The stream has the bytes of the file from the offset on, and its headers say so. -/
structure Declares (file : Bytes) (offset : Nat) (s : Stream) : Prop where
  bytes  : s.chunks.flatten = file.drop offset
  length : ∀ n : Int, .contentLength n ∈ s.headers → 0 ≤ n ∧ n = s.chunks.flatten.length
  range  : ∀ (first last : Int) (total : Nat), .contentRange first last total ∈ s.headers →
    total = file.length ∧ 0 ≤ first ∧ first ≤ last ∧ last < total ∧
      s.chunks.flatten = (file.drop first.toNat).take (last - first + 1).toNat

/-- **Bytes.** Whatever the upstream answers, the stream is the file from the offset on. -/
theorem chunks_flatten {r : Response} (h : Delivers file offset r) (hstatus : r.status = 206 ∨ r.status = 200)
    (contentType : String) (total : Option Nat) :
    (UpstreamStream.chunks ⟨contentType, offset, total, r⟩).flatten = file.drop offset := by
  unfold UpstreamStream.chunks
  rw [chunksFrom_flatten]
  dsimp only
  rcases hstatus with hstatus | hstatus
  · have hranged : ¬ (r.status = 200 ∧ offset ≠ 0) := by
      rw [hstatus]
      exact fun h => absurd h.1 (by decide)
    rw [if_neg hranged, h.ranged hstatus, List.drop_zero]
  · rw [h.whole hstatus]
    by_cases hoffset : offset = 0
    · rw [if_neg fun hskip => hskip.2 hoffset, hoffset]
    · rw [if_pos ⟨hstatus, hoffset⟩]

theorem mem_contentLength {filename : String} {total : Option Nat} {n : Int} :
    .contentLength n ∈ streamHeaders filename offset total ↔ ∃ t, total = some t ∧ n = t - offset := by
  unfold streamHeaders
  cases total with
  | none => simp
  | some t => split_ifs <;> simp

theorem mem_contentRange {filename : String} {total : Option Nat} {first last : Int} {t : Nat} :
    .contentRange first last t ∈ streamHeaders filename offset total ↔
      offset ≠ 0 ∧ total = some t ∧ first = offset ∧ last = t - 1 := by
  unfold streamHeaders
  cases total with
  | none => simp
  | some t' =>
      split_ifs with hoffset
      · simp only [List.cons_append, List.nil_append, List.mem_cons, List.not_mem_nil, or_false, reduceCtorEq,
          false_or, Header.contentRange.injEq, Option.some.injEq]
        constructor
        · rintro ⟨rfl, rfl, rfl⟩
          exact ⟨hoffset, rfl, rfl, rfl⟩
        · rintro ⟨-, rfl, rfl, rfl⟩
          exact ⟨rfl, rfl, rfl⟩
      · simp [hoffset]

/-- **Headers.** Of a stream of the right bytes the headers are right exactly when nothing is asked for past the
    end, or nothing is declared. -/
theorem declares_iff {total : Option Nat} {status : Nat} {mediaType filename : String} {chunks : List Bytes}
    (hchunks : chunks.flatten = file.drop offset) (htotal : ∀ n, total = some n → n = file.length) :
    Declares file offset ⟨status, mediaType, streamHeaders filename offset total, chunks⟩ ↔
      offset = 0 ∨ offset < file.length ∨ total = none := by
  constructor
  · intro h
    by_contra hnot
    simp only [not_or, Nat.not_lt] at hnot
    obtain ⟨hoffset, hpast, hsome⟩ := hnot
    obtain ⟨t, ht⟩ := Option.ne_none_iff_exists'.mp hsome
    obtain ⟨-, -, hle, hlt, -⟩ := h.range offset (t - 1) t (mem_contentRange.mpr ⟨hoffset, ht, rfl, rfl⟩)
    have hsize := htotal t ht
    omega
  · intro h
    refine ⟨hchunks, fun n hn => ?_, fun first last t hrange => ?_⟩
    · obtain ⟨t, ht, rfl⟩ := mem_contentLength.mp hn
      obtain rfl := htotal t ht
      have hle : offset ≤ file.length := by
        rcases h with h | h | h
        · omega
        · omega
        · rw [h] at ht
          cases ht
      rw [hchunks, List.length_drop]
      omega
    · obtain ⟨hoffset, ht, rfl, rfl⟩ := mem_contentRange.mp hrange
      obtain rfl := htotal t ht
      have hlt : offset < file.length := by
        rcases h with h | h | h
        · exact absurd h hoffset
        · exact h
        · rw [h] at ht
          cases ht
      refine ⟨rfl, by omega, by omega, by omega, ?_⟩
      have hcount : ((file.length : Int) - 1 - offset + 1).toNat = (file.drop offset).length := by
        rw [List.length_drop]
        omega
      rw [hchunks, hcount, Int.toNat_natCast, List.take_length]

/-! ## The whole route -/

variable {resolved : ResolvedMedia} {range : Option String} {get : Option String → Except String Response}

/-- The CDN streams: a 206, or a 200 with its length, and no number has too many digits. -/
def Response.Streams (r : Response) : Prop :=
  (r.status = 206 ∨ r.status = 200 ∧ r.totalDigits.isSome) ∧ (r.totalDigits.isSome → r.total.isSome)

theorem Response.Streams.status {r : Response} (h : r.Streams) : r.status = 206 ∨ r.status = 200 :=
  h.1.imp id And.left

/-- An answer that says how long the file is is streamed. -/
theorem Response.streams_of_total {r : Response} (h : r.total ≠ none) : r.Streams := by
  have hdigits : r.totalDigits.isSome = true := by
    by_contra hnone
    rw [Option.not_isSome_iff_eq_none] at hnone
    exact h (by rw [Response.total, hnone]; rfl)
  refine ⟨?_, fun _ => Option.isSome_iff_ne_none.mpr h⟩
  by_cases h206 : r.status = 206
  · exact .inl h206
  · by_cases h200 : r.status = 200
    · exact .inr ⟨h200, hdigits⟩
    · rw [Response.totalDigits, if_neg h206, if_neg h200] at hdigits
      cases hdigits

theorem openStream_iff {u : UpstreamStream} : openStream get offset = .ok u ↔
    ∃ r, get (rangeHeader offset) = .ok r ∧ r.Streams ∧
      u = ⟨(r.header "Content-Type").getD "application/octet-stream", offset, r.total, r⟩ := by
  unfold openStream
  cases hget : get (rangeHeader offset) with
  | error text => exact iff_of_false nofun nofun
  | ok r =>
      simp only [Except.ok.injEq, exists_eq_left']
      by_cases hstatus : r.status = 206 ∨ r.status = 200 ∧ r.totalDigits.isSome
      · rw [if_pos hstatus]
        unfold Response.Streams Response.total
        rw [and_iff_right hstatus]
        cases hdigits : r.totalDigits with
        | none => simp [eq_comm]
        | some digits => cases hint : int? digits <;> simp [hint, eq_comm]
      · rw [if_neg hstatus]
        refine iff_of_false (fun h => ?_) fun h => hstatus h.1.1
        split at h <;> cases h

theorem downloadMedia_stream (resolved : ResolvedMedia) {s : Stream} (hoffset : offset = (requested range).getD 0) :
    downloadMedia (.ok resolved) range get = .stream s ↔ tooLong range = false ∧
      (∀ n, resolved.size = some n → requested range = none ∨ offset < n) ∧
        ∃ u, openStream get offset = .ok u ∧
          s = ⟨if offset ≠ 0 then 206 else 200, u.contentType,
            streamHeaders resolved.filename offset (u.total.or resolved.size), u.chunks⟩ := by
  unfold downloadMedia
  dsimp only
  by_cases hlong : tooLong range = true
  · rw [if_pos hlong]
    exact iff_of_false nofun fun h => Bool.false_ne_true (h.1.symm.trans hlong)
  rw [if_neg hlong, ← hoffset, and_iff_right ((Bool.not_eq_true _).mp hlong)]
  cases hrefused : resolved.size.filter fun size => (requested range).isSome ∧ size ≤ offset with
  | some n =>
      obtain ⟨hn, hpast⟩ := Option.filter_eq_some_iff.mp hrefused
      obtain ⟨hsome, hle⟩ := of_decide_eq_true hpast
      refine iff_of_false nofun fun h => ?_
      rcases h.1 n hn with hnone | hlt
      · rw [hnone] at hsome
        cases hsome
      · omega
  | none =>
      have hinside : ∀ n, resolved.size = some n → requested range = none ∨ offset < n := by
        intro n hn
        rw [hn, Option.filter_some] at hrefused
        cases hrange : requested range with
        | none => exact Or.inl rfl
        | some o =>
            refine Or.inr (Nat.lt_of_not_le fun hle => ?_)
            rw [if_pos (decide_eq_true ⟨by rw [hrange]; rfl, hle⟩)] at hrefused
            cases hrefused
      dsimp only
      cases hopen : openStream get offset with
      | error e =>
          refine iff_of_false (fun h => ?_) fun h => nomatch h.2
          cases e <;> cases h
      | ok u =>
          constructor
          · rintro ⟨⟩
            exact ⟨hinside, u, rfl, rfl⟩
          · rintro ⟨-, u', heq, rfl⟩
            obtain rfl := Except.ok.inj heq
            rfl

/-- The stream of an answer declares what it has under the condition on the offset and the sizes. -/
theorem stream_declares_iff {u : UpstreamStream} (hopen : openStream get offset = .ok u)
    (hsize : ∀ n, resolved.size = some n → n = file.length)
    (hget : ∀ r, get (rangeHeader offset) = .ok r → Delivers file offset r) {status : Nat} :
    Declares file offset ⟨status, u.contentType, streamHeaders resolved.filename offset (u.total.or resolved.size),
        u.chunks⟩ ↔ offset = 0 ∨ offset < file.length ∨ u.total.or resolved.size = none := by
  obtain ⟨r, hr, hstreams, rfl⟩ := openStream_iff.mp hopen
  have hdelivers := hget r hr
  refine declares_iff (chunks_flatten hdelivers hstreams.status _ _) fun n hn => ?_
  cases htotal : r.total with
  | some m =>
      rw [htotal] at hn
      obtain rfl := Option.some.inj hn
      exact hdelivers.total m htotal
  | none =>
      rw [htotal] at hn
      exact hsize n hn

/-- **Ranged download.** For a file with a right stored size and a right upstream, every stream has the bytes from
    the offset on and right headers exactly when the offset is zero or inside the file, or the stored size is known
    (and the range refused), or the upstream does not say how long the file is, or the offset has too many digits. -/
theorem ranged_download (hoffset : offset = (requested range).getD 0)
    (hsize : ∀ n, resolved.size = some n → n = file.length)
    (hget : ∀ r, get (rangeHeader offset) = .ok r → Delivers file offset r) :
    (∀ s, downloadMedia (.ok resolved) range get = .stream s → Declares file offset s) ↔
      offset = 0 ∨ offset < file.length ∨ resolved.size.isSome ∨
        (∀ r, get (rangeHeader offset) = .ok r → r.total = none) ∨ tooLong range = true := by
  constructor
  · intro hall
    by_contra hnot
    simp only [not_or, Nat.not_lt, not_forall, Bool.not_eq_true] at hnot
    obtain ⟨hzero, hpast, hunknown, ⟨r, hr, htotal⟩, hshort⟩ := hnot
    have hnone : resolved.size = none := Option.isNone_iff_eq_none.mp (Option.isSome_eq_false_iff.mp hunknown)
    -- an answer that says how long the file is is streamed
    have hopen := openStream_iff.mpr ⟨r, hr, Response.streams_of_total htotal, rfl⟩
    have hdeclares := hall _ ((downloadMedia_stream resolved hoffset).mpr
      ⟨hshort, fun n hn => (nomatch hnone.symm.trans hn), _, hopen, rfl⟩)
    rcases (stream_declares_iff hopen hsize hget).mp hdeclares with h | h | h
    · exact hzero h
    · omega
    · rw [hnone, Option.or_none] at h
      exact htotal h
  · intro hcond s hs
    obtain ⟨hshort, hinside, u, hopen, rfl⟩ := (downloadMedia_stream resolved hoffset).mp hs
    refine (stream_declares_iff hopen hsize hget).mpr ?_
    rcases hcond with h | h | h | h | h
    · exact Or.inl h
    · exact Or.inr (Or.inl h)
    · -- with a stored size the range is inside the file, or there is none
      obtain ⟨n, hn⟩ := Option.isSome_iff_exists.mp h
      rcases hinside n hn with hrange | hlt
      · rw [hrange] at hoffset
        exact Or.inl hoffset
      · exact Or.inr (Or.inl (hsize n hn ▸ hlt))
    · cases hsome : resolved.size with
      | some n =>
          rcases hinside n hsome with hrange | hlt
          · rw [hrange] at hoffset
            exact Or.inl hoffset
          · exact Or.inr (Or.inl (hsize n hsome ▸ hlt))
      | none =>
          obtain ⟨r, hr, -, rfl⟩ := openStream_iff.mp hopen
          exact Or.inr (Or.inr (by rw [Option.or_none]; exact h r hr))
    · rw [hshort] at h
      cases h

/-- A CDN that ignores the range and a file of three bytes. -/
def wholeFile : Response :=
  { status := 200, header := fun name => if name = "Content-Length" then some "3" else none, chunks := [[1, 2], [3]] }

/-- A voice message, which is stored without its size. -/
def voice : ResolvedMedia := ⟨"voice_1.ogg", none⟩

theorem size_voice : ∀ n, voice.size = some n → n = 3 := fun _ h => nomatch (show none = some _ from h)

theorem total_wholeFile : wholeFile.total = some 3 := by rfl

theorem streams_wholeFile : wholeFile.Streams :=
  Response.streams_of_total (by rw [total_wholeFile]; exact Option.some_ne_none 3)

theorem delivers_wholeFile (offset : Nat) : Delivers [1, 2, 3] offset wholeFile where
  whole _ := rfl
  ranged h := nomatch h
  total _ h := (Option.some.inj (total_wholeFile.symm.trans h)).symm

theorem ranged_download_skipped :
    (∃ s, downloadMedia (.ok voice) (some "bytes=2-") (fun _ => .ok wholeFile) = .stream s) ∧
      ∀ s, downloadMedia (.ok voice) (some "bytes=2-") (fun _ => .ok wholeFile) = .stream s →
        Declares [1, 2, 3] 2 s := by
  have hopen : openStream (fun _ => .ok wholeFile) 2 = .ok ⟨"application/octet-stream", 2, some 3, wholeFile⟩ :=
    openStream_iff.mpr ⟨wholeFile, rfl, streams_wholeFile, by rw [total_wholeFile]; rfl⟩
  have hoffset : 2 = (requested (some "bytes=2-")).getD 0 := by decide
  have hstream := (downloadMedia_stream voice hoffset).mpr
    ⟨by decide, fun n h => (nomatch (show none = some n from h)), _, hopen, rfl⟩
  refine ⟨⟨_, hstream⟩, ?_⟩
  exact (ranged_download hoffset size_voice fun _ h => Except.ok.inj h ▸ delivers_wholeFile 2).mpr
    (Or.inr (Or.inl (by decide)))

/-- Asked for more than there is, the route promises a negative length. -/
theorem range_past_end :
    (∃ s, downloadMedia (.ok voice) (some "bytes=5-") (fun _ => .ok wholeFile) = .stream s ∧
      .contentLength (-2) ∈ s.headers) ∧
    ¬ ∀ (file : Bytes) (offset : Nat) (resolved : ResolvedMedia) (range : Option String)
        (get : Option String → Except String Response), offset = (requested range).getD 0 →
        (∀ n, resolved.size = some n → n = file.length) →
        (∀ r, get (rangeHeader offset) = .ok r → Delivers file offset r) →
        ∀ s, downloadMedia (.ok resolved) range get = .stream s → Declares file offset s := by
  have hopen : openStream (fun _ => .ok wholeFile) 5 = .ok ⟨"application/octet-stream", 5, some 3, wholeFile⟩ :=
    openStream_iff.mpr ⟨wholeFile, rfl, streams_wholeFile, by rw [total_wholeFile]; rfl⟩
  have hoffset : 5 = (requested (some "bytes=5-")).getD 0 := by decide
  have hstream := (downloadMedia_stream voice hoffset).mpr
    ⟨by decide, fun n h => (nomatch (show none = some n from h)), _, hopen, rfl⟩
  have hlength : Header.contentLength (-2) ∈ streamHeaders "voice_1.ogg" 5 (some 3) :=
    mem_contentLength.mpr ⟨3, rfl, by decide⟩
  refine ⟨⟨_, hstream, hlength⟩, fun h => ?_⟩
  have hdeclares := h [1, 2, 3] 5 voice (some "bytes=5-") (fun _ => .ok wholeFile) hoffset size_voice
    (fun _ h => Except.ok.inj h ▸ delivers_wholeFile 5) _ hstream
  exact absurd (hdeclares.length (-2) hlength).1 (by decide)

end MyPerson.MaxMedia
