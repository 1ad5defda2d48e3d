import MyPerson.Files.Uploads

/-!
# `Files.Confined` — whose file a token leads to

Nobody forges a digest: a token whose digest is right has a text that was signed (`Unforged`). Then the links that
download are those that were signed, while they last. The size of an upload is bounded whatever the tokens are.

## Contents
- `Stored`: what holds of the files and of the PUTs in every run; `uploads_bounded`;
- `Unforged`: the digests that are right are those of signed texts; `download_iff`.
-/

namespace MyPerson.Files

open Lib
open FormData (Bytes utf8 ofUtf8)

variable {env : Env} {s t : State} {i : Nat}

/-! ## Names -/

theorem isAlnum_dot {name : String} (h : '.' ∈ name.toList) : isAlnum env name = false := by
  unfold isAlnum
  rw [Bool.and_eq_false_iff]
  right
  refine List.all_eq_false.mpr ⟨'.', h, ?_⟩
  simp

theorem isAlnum_metaPath (path : Path) : isAlnum env (metaPath path).2 = false :=
  isAlnum_dot (by simp [metaPath])

theorem isAlnum_of_isMeta {path : Path} (h : isMeta path = true) : isAlnum env path.2 = false := by
  refine isAlnum_dot ?_
  have hsuffix : ".json".toList <:+ path.2.toList := List.isSuffixOf_iff_suffix.mp h
  exact hsuffix.subset (by decide)

theorem ne_metaPath {path path' : Path} (h : isAlnum env path.2 = true) : metaPath path' ≠ path := by
  rintro rfl
  rw [isAlnum_metaPath] at h
  cases h

/-! ## The files in every run -/

/-- What holds of a PUT, by how far it is. -/
def PutOk (env : Env) (files : FileSystem Path) (p : Put) : Prop :=
  match p.phase with
  | .asking => p.written = 0 ∧ p.buffer = [] ∧ p.size = 0 ∧ p.body = []
  | .writing path file =>
      isAlnum env path.2 = true ∧ file < files.next ∧ p.written + p.buffer.length = p.size ∧
        p.body.length = p.size ∧ p.size ≤ maxBytes ∧ ∀ name, files.find name = some file → name = path
  | _ => True

/-- The file has an upload's name, or a PUT writes to it. -/
def State.Uploaded (env : Env) (s : State) (file : Nat) : Prop :=
  (∃ path : Path, s.files.find path = some file ∧ isAlnum env path.2 = true) ∨
    ∃ (i : Nat) (p : Put) (path : Path), s.puts[i]? = some p ∧ p.phase = .writing path file

structure Stored (env : Env) (s : State) : Prop where
  sound   : s.files.Sound
  puts    : ∀ (i : Nat) (p : Put), s.puts[i]? = some p → PutOk env s.files p
  bounded : ∀ file, s.Uploaded env file → (s.files.data file).length ≤ maxBytes

theorem stored_start (now : Rat) (accounts : Int → Option Account) : Stored env (.start now accounts) where
  sound := FileSystem.sound_empty
  puts := by
    intro i p hp
    cases hp
  bounded := by
    intro file hfile
    exact Nat.zero_le _

theorem Stored.writing (h : Stored env s) {p : Put} {path : Path} {file : Nat} (hp : s.puts[i]? = some p)
    (hphase : p.phase = .writing path file) :
    isAlnum env path.2 = true ∧ file < s.files.next ∧ p.written + p.buffer.length = p.size ∧
      p.body.length = p.size ∧ p.size ≤ maxBytes ∧ ∀ name, s.files.find name = some file → name = path := by
  have hok := h.puts i p hp
  rw [PutOk, hphase] at hok
  exact hok

theorem Stored.asking (h : Stored env s) {p : Put} (hp : s.puts[i]? = some p) (hphase : p.phase = .asking) :
    p.written = 0 ∧ p.buffer = [] ∧ p.size = 0 ∧ p.body = [] := by
  have hok := h.puts i p hp
  rw [PutOk, hphase] at hok
  exact hok

/-- Other files, in which the file of the PUT has no other name. -/
theorem PutOk.mono {files files' : FileSystem Path} {p : Put} (h : PutOk env files p) (hnext : files.next ≤ files'.next)
    (hname : ∀ path file, p.phase = .writing path file → file < files.next →
      ∀ name, files'.find name = some file → files.find name = some file ∨ name = path) : PutOk env files' p := by
  unfold PutOk at h ⊢
  cases hphase : p.phase with
  | writing path file =>
      rw [hphase] at h
      obtain ⟨halnum, hlt, hwritten, hbody, hsize, hold⟩ := h
      exact ⟨halnum, Nat.lt_of_lt_of_le hlt hnext, hwritten, hbody, hsize,
        fun name hfile => (hname path file hphase hlt name hfile).elim (hold name) id⟩
  | asking =>
      rw [hphase] at h
      exact h
  | stored size => trivial
  | refused r => trivial
  | gone => trivial

/-- A PUT in the place of another. -/
theorem Stored.setPut (h : Stored env s) {p : Put} (hp : PutOk env s.files p)
    (hbound : ∀ path file, p.phase = .writing path file → (s.files.data file).length ≤ maxBytes) :
    Stored env (s.setPut i p) where
  sound := h.sound
  puts := by
    intro j q hq
    rcases setPut_puts hq with ⟨-, rfl⟩ | ⟨-, hq⟩
    · exact hp
    · exact h.puts j q hq
  bounded := by
    intro file hfile
    rcases hfile with hname | ⟨j, q, path, hq, hphase⟩
    · exact h.bounded file (.inl hname)
    · rcases setPut_puts hq with ⟨-, rfl⟩ | ⟨-, hq⟩
      · exact hbound path file hphase
      · exact h.bounded file (.inr ⟨j, q, path, hq, hphase⟩)

/-- Bytes that end within the bound, written to a file. -/
theorem Stored.writeAt (h : Stored env s) (file : Nat) {pos : Nat} {bytes : Bytes} (hlen : pos + bytes.length ≤ maxBytes) :
    Stored env { s with files := s.files.writeAt file pos bytes } where
  sound := h.sound.writeAt file pos bytes
  puts := h.puts
  bounded := by
    intro file' hfile
    have hold := h.bounded file' hfile
    by_cases heq : file' = file
    · subst heq
      show ((s.files.writeAt file' pos bytes).data file').length ≤ maxBytes
      rw [FileSystem.data_writeAt, length_splice]
      exact Nat.max_le.mpr ⟨hold, hlen⟩
    · exact (congrArg List.length (FileSystem.data_writeAt_ne heq)).trans_le hold

/-- What `open` has held back is passed on. -/
theorem Stored.flush (h : Stored env s) {p : Put} {path : Path} {file : Nat} (hp : s.puts[i]? = some p)
    (hphase : p.phase = .writing path file) : Stored env { s with files := s.flush p file } := by
  obtain ⟨-, -, hwritten, -, hsize, -⟩ := h.writing hp hphase
  exact h.writeAt file (by omega)

/-- Names taken away. -/
theorem Stored.fewer (h : Stored env s) {files : FileSystem Path} (hsound : files.Sound) (hdata : files.data = s.files.data)
    (hnext : files.next = s.files.next) (hfind : ∀ name file, files.find name = some file → s.files.find name = some file) :
    Stored env { s with files := files } where
  sound := hsound
  puts := fun j p hp => (h.puts j p hp).mono hnext.ge fun _ file _ _ name hfile => .inl (hfind name file hfile)
  bounded := by
    intro file hfile
    show (files.data file).length ≤ maxBytes
    rw [hdata]
    refine h.bounded file (hfile.imp ?_ id)
    rintro ⟨path, hpath, halnum⟩
    exact ⟨path, hfind path file hpath, halnum⟩

theorem unlink_find {fs : FileSystem Path} {name name' : Path} {file : Nat} (h : (fs.unlink name).find name' = some file) :
    name ≠ name' ∧ fs.find name' = some file := by
  rw [FileSystem.find_unlink] at h
  split at h
  · cases h
  · exact ⟨‹_›, h⟩

theorem Stored.unlink (h : Stored env s) (path : Path) : Stored env { s with files := s.files.unlink path } :=
  h.fewer (h.sound.unlink path) rfl rfl fun _ _ hfile => (unlink_find hfile).2

/-- The file of a name, opened: a PUT that writes to it has it under this name. -/
theorem Stored.create (h : Stored env s) (path : Path) : Stored env { s with files := (s.files.create path).2 } where
  sound := h.sound.create path
  puts := by
    intro j p hp
    refine (h.puts j p hp).mono (FileSystem.create_next_le _ _) fun path' file hphase hlt name hfile => ?_
    rw [FileSystem.find_create] at hfile
    split at hfile
    · rename_i heq
      rcases FileSystem.create_fst s.files path with hfind | ⟨-, hnext⟩
      · exact .inl (heq ▸ hfind.trans hfile)
      · have hnew : s.files.next = file := hnext ▸ Option.some.inj hfile
        exact absurd hlt (hnew ▸ Nat.lt_irrefl _)
    · exact .inl hfile
  bounded := by
    intro file hfile
    show ((s.files.create path).2.data file).length ≤ maxBytes
    by_cases heq : file = (s.files.create path).1
    · rw [heq, FileSystem.data_create]
      exact Nat.zero_le _
    · rw [FileSystem.data_create_ne heq]
      refine h.bounded file (hfile.imp ?_ id)
      rintro ⟨path', hpath', halnum⟩
      have hfind := (FileSystem.find_create s.files path path').symm.trans hpath'
      split at hfind
      · exact absurd (Option.some.inj hfind).symm heq
      · exact ⟨path', hfind, halnum⟩

/-- The file of a record is none of an upload. -/
theorem Stored.ne_metaFile (h : Stored env s) (path : Path) {file : Nat} (hfile : s.Uploaded env file) :
    file ≠ (s.files.create (metaPath path)).1 := by
  rcases hfile with ⟨path', hpath', halnum⟩ | ⟨j, p, path', hp, hphase⟩
  · exact h.sound.ne_create (ne_metaPath halnum) hpath'
  · obtain ⟨halnum, hlt, -, -, -, hname⟩ := h.writing hp hphase
    rintro rfl
    rcases FileSystem.create_fst s.files (metaPath path) with hfind | ⟨-, hnext⟩
    · exact ne_metaPath halnum (hname _ hfind)
    · exact absurd hlt (hnext ▸ Nat.lt_irrefl _)

/-- A record that is written gives no upload another file. -/
theorem find_writeMeta (fs : FileSystem Path) (path : Path) (text : Bytes) {name : Path} (halnum : isAlnum env name.2 = true) :
    (fs.write (metaPath path) text).find name = fs.find name :=
  (FileSystem.find_write fs _ text name).trans (if_neg (ne_metaPath halnum))

/-- The record of an upload, written: the files of uploads are others. -/
theorem Stored.writeMeta (h : Stored env s) (path : Path) (text : Bytes) :
    Stored env { s with files := s.files.write (metaPath path) text } where
  sound := h.sound.write _ _
  puts := by
    intro j p hp
    refine (h.puts j p hp).mono (FileSystem.create_next_le _ _) fun path' file hphase _ name hfile => .inl ?_
    have hne := h.ne_metaFile path (.inr ⟨j, p, path', hp, hphase⟩)
    rw [FileSystem.find_write] at hfile
    split at hfile
    · exact absurd (Option.some.inj hfile).symm hne
    · exact hfile
  bounded := by
    intro file hfile
    have hold : s.Uploaded env file := by
      refine hfile.imp ?_ id
      rintro ⟨path', hpath', halnum⟩
      exact ⟨path', (find_writeMeta s.files path text halnum).symm.trans hpath', halnum⟩
    exact (congrArg List.length (FileSystem.data_write_ne (h.ne_metaFile path hold))).trans_le (h.bounded file hold)

/-! ## Purging -/

theorem purgeOne_cases {now : Rat} {fs fs' : FileSystem Path} {path : Path} (h : purgeOne env now fs path = .ok fs') :
    fs' = fs ∨ ∃ content, fs.read path = some content ∧ (readMeta env content).bind (metaExpired now) = .ok true ∧
      fs' = (fs.unlink (dataPath path)).unlink path := by
  unfold purgeOne at h
  cases hread : fs.read path with
  | none =>
      simp only [hread] at h
      exact .inl (Except.ok.inj h).symm
  | some content =>
      simp only [hread] at h
      split at h
      · rename_i hmeta
        exact .inr ⟨content, rfl, hmeta, (Except.ok.inj h).symm⟩
      · exact .inl (Except.ok.inj h).symm
      · exact .inl (Except.ok.inj h).symm
      · exact .inl (Except.ok.inj h).symm
      · cases h

/-- What holds of the files and stays when an expired record goes with its upload holds after a purge. -/
theorem purgeFrom_induction {P : FileSystem Path → Prop} {now : Rat} {paths : List Path}
    (hstep : ∀ fs path content, path ∈ paths → P fs → fs.read path = some content →
      (readMeta env content).bind (metaExpired now) = .ok true → P ((fs.unlink (dataPath path)).unlink path)) :
    ∀ {fs : FileSystem Path}, P fs → P (purgeFrom env now paths fs).1 := by
  induction paths with
  | nil => exact fun h => h
  | cons path paths ih =>
      intro fs hfs
      rw [purgeFrom]
      cases hone : purgeOne env now fs path with
      | error e => exact hfs
      | ok fs' =>
          refine ih (fun fs path' content hpath' => hstep fs path' content (List.mem_cons_of_mem path hpath')) ?_
          rcases purgeOne_cases hone with rfl | ⟨content, hread, hmeta, rfl⟩
          · exact hfs
          · exact hstep fs path content List.mem_cons_self hfs hread hmeta

theorem Stored.purge (h : Stored env s) (now : Rat) :
    Stored env { s with files := (purgeExpired env now s.files).1 } :=
  purgeFrom_induction (P := fun files => Stored env { s with files := files })
    (fun _ path _ _ hfs _ _ => (hfs.unlink (dataPath path)).unlink path) h

/-! ## Whole runs -/

theorem PutOk.of_phase {files : FileSystem Path} {p : Put} (h : p.phase ≠ .asking ∧ ∀ path file, p.phase ≠ .writing path file) :
    PutOk env files p := by
  unfold PutOk
  split
  · exact absurd ‹_› h.1
  · exact absurd ‹_› (h.2 _ _)
  · trivial

/-- A PUT that has ended. -/
theorem Stored.endPut (h : Stored env s) {p : Put} (hphase : p.phase ≠ .asking ∧ ∀ path file, p.phase ≠ .writing path file) :
    Stored env (s.setPut i p) :=
  h.setPut (.of_phase hphase) fun path file heq => absurd heq (hphase.2 path file)

theorem Stored.appendPut (h : Stored env s) {p : Put} (hok : PutOk env s.files p)
    (hphase : ∀ path file, p.phase ≠ .writing path file) : Stored env { s with puts := s.puts ++ [p] } where
  sound := h.sound
  puts := by
    intro j q hq
    rcases append_puts hq with ⟨-, rfl⟩ | hq
    · exact hok
    · exact h.puts j q hq
  bounded := by
    intro file hfile
    rcases hfile with hname | ⟨j, q, path, hq, hwriting⟩
    · exact h.bounded file (.inl hname)
    · rcases append_puts hq with ⟨-, rfl⟩ | hq
      · exact absurd hwriting (hphase path file)
      · exact h.bounded file (.inr ⟨j, q, path, hq, hwriting⟩)

theorem field_ok {key : String} {data : Fields} {v : Json} (h : field key data = .ok v) : Dict.get key data = some v := by
  unfold field at h
  split at h
  · cases h
  · rename_i heq
    exact heq.trans (congrArg some (Except.ok.inj h))

theorem accountState_ok {accounts : Int → Option Account} {v : Json} {state : Int × Account}
    (h : accountState accounts v = .ok state) : v = .int state.1 ∧ accounts state.1 = some state.2 := by
  unfold accountState at h
  split at h
  · split at h
    · cases h
    · rename_i heq
      obtain rfl := Except.ok.inj h
      exact ⟨rfl, heq⟩
  · cases h

theorem bind_ok {ε α β : Type} {x : Except ε α} {f : α → Except ε β} {b : β} (h : x >>= f = .ok b) :
    ∃ a, x = .ok a ∧ f a = .ok b := by
  cases x with
  | error e => cases h
  | ok a => exact ⟨a, rfl, h⟩

theorem openPath_ok {accounts : Int → Option Account} {data : Fields} {path : Path}
    (h : openPath env accounts data = .ok path) :
    Dict.get "a" data = some (.int path.1) ∧ Dict.get "u" data = some (.str path.2) ∧ isAlnum env path.2 = true := by
  obtain ⟨a, ha, h₁⟩ := bind_ok h
  obtain ⟨state, hstate, h₂⟩ := bind_ok h₁
  obtain ⟨v, hv, h₃⟩ := bind_ok h₂
  obtain ⟨rfl, -⟩ := accountState_ok hstate
  split at h₃
  · split at h₃
    · cases h₃
    · rename_i path' heq
      obtain rfl := Except.ok.inj h₃
      unfold uploadPath at heq
      split at heq
      · obtain rfl := Except.ok.inj heq
        exact ⟨field_ok ha, field_ok hv, ‹_›⟩
      · cases heq
  · cases h₃

theorem Stored.step {a : Action} (h : Stored env s) (hstep : step env s a = some t) : Stored env t := by
  cases a with
  | tick now =>
      obtain ⟨-, rfl⟩ := step_tick hstep
      exact ⟨h.sound, h.puts, h.bounded⟩
  | account a account =>
      obtain rfl := step_account hstep
      exact ⟨h.sound, h.puts, h.bounded⟩
  | sign e =>
      obtain ⟨-, rfl⟩ := step_sign hstep
      exact ⟨h.sound, h.puts, h.bounded⟩
  | put token name header =>
      rcases step_put hstep with ⟨e, rfl⟩ | ⟨data, -, rfl⟩
      · exact h.appendPut (.of_phase ⟨by simp, by simp⟩) (by simp)
      · exact h.appendPut ⟨rfl, rfl, rfl, rfl⟩ (by simp)
  | openFile i =>
      obtain ⟨p, hp, hphase, ⟨r, -, rfl⟩ | ⟨path, hpath, rfl⟩⟩ := step_openFile hstep
      · exact h.endPut ⟨by simp, by simp⟩
      · obtain ⟨hwritten, hbuffer, hsize, hbody⟩ := h.asking hp hphase
        obtain ⟨-, -, halnum⟩ := openPath_ok hpath
        have hcreate := h.create path
        refine hcreate.setPut ⟨halnum, h.sound.create_lt path, ?_, ?_, ?_, fun name hfile => ?_⟩ ?_
        · simp [hwritten, hbuffer, hsize]
        · simp [hbody, hsize]
        · simp [hsize]
        · exact (h.sound.create path).apart hfile ((FileSystem.find_create _ _ _).trans (if_pos rfl))
        · rintro path' file heq
          obtain ⟨-, rfl⟩ := Phase.writing.inj heq
          exact (congrArg List.length (FileSystem.data_create _ _)).trans_le (Nat.zero_le _)
  | chunk i bytes flushed =>
      obtain ⟨p, path, file, hp, hphase, ⟨hlarge, rfl⟩ | ⟨hfits, rfl⟩⟩ := step_chunk hstep
      all_goals obtain ⟨halnum, hlt, hwritten, hbody, hsize, hname⟩ := h.writing hp hphase
      · exact ((h.flush hp hphase).unlink path).endPut ⟨by simp, by simp⟩
      · have htake : p.written + ((p.buffer ++ bytes).take flushed).length ≤ maxBytes := by
          rw [List.length_take, List.length_append]
          omega
        have hwrite := h.writeAt file htake
        refine hwrite.setPut ?_ fun path' file' heq => ?_
        · rw [PutOk]
          simp only [hphase]
          refine ⟨halnum, hlt, ?_, ?_, hfits, hname⟩
          · rw [List.length_take, List.length_drop, List.length_append]
            omega
          · rw [List.length_append, hbody]
        · simp only [hphase] at heq
          obtain ⟨-, rfl⟩ := Phase.writing.inj heq
          exact hwrite.bounded file (.inr ⟨i, p, path, hp, hphase⟩)
  | finish i =>
      obtain ⟨p, path, file, hp, hphase, rfl⟩ := step_finish hstep
      have hpurge := ((h.flush hp hphase).writeMeta path (metaText env p.record)).purge s.now
      refine hpurge.endPut ⟨?_, fun path' file' => ?_⟩
      · split <;> simp
      · split <;> simp
  | leave i =>
      obtain ⟨p, hp, ⟨hphase, rfl⟩ | ⟨path, file, hphase, rfl⟩⟩ := step_leave hstep
      · exact h.endPut ⟨by simp, by simp⟩
      · exact (h.flush hp hphase).endPut ⟨by simp, by simp⟩

theorem stored_run {ok : State → Action → Prop} {now : Rat} {accounts : Int → Option Account}
    (h : Run (step env) ok (.start now accounts) s) : Stored env s :=
  h.invariant (fun _ _ _ hx _ hstep => hx.step hstep) (stored_start now accounts)

/-- **The bound on an upload.** In every run, whatever PUTs write over each other, no file that has an upload's name
    has more than fifty megabytes. -/
theorem uploads_bounded {now : Rat} {accounts : Int → Option Account}
    (h : Run (step env) Always (.start now accounts) s) {path : Path} {content : Bytes}
    (hpath : isAlnum env path.2 = true) (hread : s.files.read path = some content) : content.length ≤ maxBytes := by
  obtain ⟨file, hfile, rfl⟩ := Option.map_eq_some_iff.mp hread
  exact (stored_run h).bounded file (.inl ⟨path, hfile, hpath⟩)

/-! ## Tokens that were signed -/

/-- Nobody forges the digest of this token: when it is right, its text has been signed. -/
def Unforged (env : Env) (s : State) (token : List Char) : Prop :=
  ∀ body key, secret env = .ok key →
    rsplit token = some (body, hexdigest (env.digest key (utf8 (String.ofList body)))) →
      ∃ e ∈ s.issued, body = tokenBody env e.signed

theorem signed_file (a c m n : Int) (at₀ : Rat) : (Issued.file a c m n at₀).signed =
    [("k", .str "file"), ("a", .int a), ("c", .int c), ("m", .int m), ("i", .int n), ("x", .int (⌊at₀⌋ + linkTtl))] := by
  simp [Issued.signed, Issued.payload, Issued.exp, Issued.signedAt, filePayload, Dict.set]

theorem signed_upload (a : Int) (u : String) (at₀ : Rat) : (Issued.upload a u at₀).signed =
    [("k", .str "upload"), ("a", .int a), ("u", .str u), ("x", .int (⌊at₀⌋ + linkTtl))] := by
  simp [Issued.signed, Issued.payload, Issued.exp, Issued.signedAt, uploadPayload, Dict.set]

/-- The kind of token that it is. -/
def Issued.kind : Issued → String
  | .file .. => "file"
  | .upload .. => "upload"

theorem get_kind (e : Issued) : Dict.get "k" e.signed = some (.str e.kind) := by
  cases e <;> rfl

theorem exact_signed (e : Issued) : (Json.obj e.signed).exact = true := by
  cases e with
  | file a c m n at₀ =>
      rw [signed_file]
      simp [Json.exact, Json.exactFields]
  | upload a u at₀ =>
      rw [signed_upload]
      simp [Json.exact, Json.exactFields]

theorem get_exp (e : Issued) : Dict.get "x" e.signed = some (.int e.exp) := by
  rw [Issued.signed, Dict.get_set, if_pos rfl]

theorem rsplit_eq {token body mac : List Char} (h : rsplit token = some (body, mac)) : token = body ++ '.' :: mac := by
  unfold rsplit at h
  split at h
  · rename_i hdot
    obtain ⟨rfl, rfl⟩ := Prod.mk.inj (Option.some.inj h)
    have hne : token.rdropWhile (· ≠ '.') ≠ [] := by
      intro hnil
      exact absurd (List.rdropWhile_eq_nil_iff.mp hnil '.' hdot) (by decide)
    have hlast : (token.rdropWhile (· ≠ '.')).getLast hne = '.' := by
      have hnot := List.rdropWhile_last_not (· ≠ '.') token hne
      simpa using hnot
    have hbody := List.dropLast_append_getLast hne
    rw [hlast] at hbody
    calc token = token.rdropWhile (· ≠ '.') ++ token.rtakeWhile (· ≠ '.') := List.rdropWhile_append_rtakeWhile.symm
      _ = (token.rdropWhile (· ≠ '.')).dropLast ++ ['.'] ++ token.rtakeWhile (· ≠ '.') := by rw [hbody]
      _ = (token.rdropWhile (· ≠ '.')).dropLast ++ '.' :: token.rtakeWhile (· ≠ '.') := List.append_cons _ _ _ |>.symm
  · cases h

/-- What a signed token says, checked for a kind. -/
theorem checkData_signed {kind : String} {now : Rat} {e : Issued} {data : Fields}
    (h : checkData kind now (.obj e.signed) = .ok data) :
    data = e.signed ∧ e.kind = kind ∧ now ≤ e.exp := by
  simp only [checkData, get_exp, get_kind, isText] at h
  split at h
  · rename_i hkind
    simp only [isBefore] at h
    by_cases hlate : (e.exp : Rat) < now
    · simp only [hlate, decide_true, reduceCtorEq] at h
    · simp only [hlate, decide_false] at h
      exact ⟨(Except.ok.inj h).symm, beq_iff_eq.mp hkind, not_lt.mp hlate⟩
  · cases h

/-- An unforged token that is taken is one that was signed. -/
theorem verify_issued {token : List Char} {kind : String} {now : Rat} {data : Fields} (hun : Unforged env s token)
    (h : verify env token kind now = .ok data) :
    ∃ e ∈ s.issued, token = e.token env ∧ data = e.signed ∧ e.kind = kind ∧ now ≤ e.exp ∧
      secret env = .ok (utf8 env.secret) := by
  unfold verify at h
  split at h
  · cases h
  · rename_i body mac hsplit
    rcases secret_cases env with hsecret | hsecret
    · rw [hsecret] at h
      cases h
    · rw [hsecret] at h
      simp only at h
      split at h
      · cases h
      · cases h
      · rename_i hmac
        obtain rfl := compareDigest_eq hmac
        obtain ⟨e, he, rfl⟩ := hun body _ hsecret hsplit
        rw [readBody_tokenBody (exact_signed e)] at h
        obtain ⟨hdata, hkind, hexp⟩ := checkData_signed h
        exact ⟨e, he, rsplit_eq hsplit, hdata, hkind, hexp, hsecret⟩

theorem verify_token {now : Rat} {e : Issued} (hsecret : secret env = .ok (utf8 env.secret)) (hnow : now ≤ e.exp) :
    verify env (e.token env) e.kind now = .ok e.signed := by
  rw [Issued.token, verify_tokenOf hsecret (exact_signed e)]
  simp only [checkData, get_exp, get_kind, isText, beq_self_eq_true, if_true, isBefore, not_lt.mpr hnow, decide_false]

theorem secret_ok_iff : secret env = .ok (utf8 env.secret) ↔ env.secret ≠ "" := by
  unfold secret
  split
  · rename_i h
    exact ⟨fun hsecret => (nomatch hsecret), fun hne => absurd h hne⟩
  · rename_i h
    exact ⟨fun _ => h, fun _ => rfl⟩

/-- Links are signed with the time of their call. -/
theorem issued_run {ok : State → Action → Prop} {now : Rat} {accounts : Int → Option Account}
    (h : Run (step env) ok (.start now accounts) s) : ∀ e ∈ s.issued, e.signedAt ≤ s.now := by
  refine h.invariant (P := fun s => ∀ e ∈ s.issued, e.signedAt ≤ s.now) (fun x a y hx _ hstep => ?_)
    fun e he => absurd he List.not_mem_nil
  cases a with
  | tick now =>
      obtain ⟨hle, rfl⟩ := step_tick hstep
      exact fun e he => le_trans (hx e he) hle
  | account a account =>
      obtain rfl := step_account hstep
      exact hx
  | sign e =>
      obtain ⟨hmay, rfl⟩ := step_sign hstep
      intro e' he'
      rcases List.mem_append.mp he' with he' | he'
      · exact hx e' he'
      · obtain rfl := List.mem_singleton.mp he'
        cases e' with
        | file a c m n signedAt => exact (of_decide_eq_true hmay).le
        | upload a u signedAt => exact (of_decide_eq_true (Bool.and_eq_true_iff.mp hmay).1).le
  | put token name header =>
      rcases step_put hstep with ⟨e, rfl⟩ | ⟨data, -, rfl⟩
      · exact hx
      · exact hx
  | openFile i =>
      obtain ⟨p, hp, hphase, ⟨r, -, rfl⟩ | ⟨path, hpath, rfl⟩⟩ := step_openFile hstep
      · exact hx
      · exact hx
  | chunk i bytes flushed =>
      obtain ⟨p, path, file, hp, hphase, ⟨hlarge, rfl⟩ | ⟨hfits, rfl⟩⟩ := step_chunk hstep
      · exact hx
      · exact hx
  | finish i =>
      obtain ⟨p, path, file, hp, hphase, rfl⟩ := step_finish hstep
      exact hx
  | leave i =>
      obtain ⟨p, hp, ⟨hphase, rfl⟩ | ⟨path, file, hphase, rfl⟩⟩ := step_leave hstep
      · exact hx
      · exact hx

/-- The request that a link to a file stands for. -/
def mediaRequest (a : Int) (account : Account) (c m n : Int) (range : Option String) : MediaRequest :=
  ⟨(a, account), .int c, .int m, if account.platform = .max then some (.int n) else none, range⟩

theorem downloadFile_signed {accounts : Int → Option Account} {now at₀ : Rat} {token : List Char} {a c m n : Int}
    (range : Option String) (h : verify env token "file" now = .ok (Issued.file a c m n at₀).signed) :
    downloadFile env accounts now token range =
      match accounts a with
      | none => .error (.http 403 "account disabled")
      | some account => .ok (mediaRequest a account c m n range) := by
  have ha : field "a" (Issued.file a c m n at₀).signed = .ok (.int a) := by
    simp [field, signed_file, Dict.get_cons]
  have hc : field "c" (Issued.file a c m n at₀).signed = .ok (.int c) := by
    simp [field, signed_file, Dict.get_cons]
  have hm : field "m" (Issued.file a c m n at₀).signed = .ok (.int m) := by
    simp [field, signed_file, Dict.get_cons]
  have hn : Dict.get "i" (Issued.file a c m n at₀).signed = some (.int n) := by
    simp [signed_file, Dict.get_cons]
  rw [downloadFile, h]
  simp only [ha, hc, hm, hn]
  cases haccount : accounts a with
  | none =>
      have hstate : accountState accounts (.int a) = .error (.http 403 "account disabled") := by
        simp only [accountState, haccount]
      show (accountState accounts (.int a) >>= fun _ => _) = _
      rw [hstate]
      rfl
  | some account =>
      have hstate : accountState accounts (.int a) = .ok (a, account) := by
        simp only [accountState, haccount]
      show (accountState accounts (.int a) >>= fun _ => _) = _
      rw [hstate]
      rfl

/-- **Downloads.** In every run a download is served exactly for the tokens of the links signed so far, a quarter of
    an hour long and while the account is enabled; and the message it asks for is the one that was signed, as the
    account that it was signed for. -/
theorem download_iff {ok : State → Action → Prop} {now : Rat} {accounts : Int → Option Account}
    (h : Run (step env) ok (.start now accounts) s) {token : List Char} (hun : Unforged env s token)
    {range : Option String} {r : MediaRequest} :
    downloadFile env s.accounts s.now token range = .ok r ↔
      env.secret ≠ "" ∧ ∃ a account c m n signedAt, Issued.file a c m n signedAt ∈ s.issued ∧
        token = (Issued.file a c m n signedAt).token env ∧ signedAt ≤ s.now ∧ s.now ≤ (⌊signedAt⌋ + linkTtl : Int) ∧
        s.accounts a = some account ∧ r = mediaRequest a account c m n range := by
  constructor
  · intro hdownload
    cases hverify : verify env token "file" s.now with
    | error e =>
        rw [downloadFile, hverify] at hdownload
        cases hdownload
    | ok data =>
        obtain ⟨e, he, rfl, rfl, hkind, hexp, hsecret⟩ := verify_issued hun hverify
        cases e with
        | upload a u signedAt =>
            have hne : "upload" = "file" := hkind
            exact absurd hne (by decide)
        | file a c m n signedAt =>
            rw [downloadFile_signed range hverify] at hdownload
            cases haccount : s.accounts a with
            | none =>
                rw [haccount] at hdownload
                cases hdownload
            | some account =>
                rw [haccount] at hdownload
                exact ⟨secret_ok_iff.mp hsecret, a, account, c, m, n, signedAt, he, rfl, issued_run h _ he, hexp,
                  haccount,                  (Except.ok.inj hdownload).symm⟩
  · rintro ⟨hsecret, a, account, c, m, n, signedAt, -, htoken, -, hexp, haccount, hr⟩
    have hverify := verify_token (e := .file a c m n signedAt) (secret_ok_iff.mpr hsecret) hexp
    rw [htoken, downloadFile_signed range hverify, haccount, hr]

/-! ### One link and one upload -/

def sampleAccounts (a : Int) : Option Account := if a = 7 then some ⟨"shop", .max⟩ else none

def sampleLink : Issued := .file 7 (-100200) 12 0 1000

/-- The second in which the link expires. -/
def linkState : State := ⟨1900, [sampleLink], sampleAccounts, .empty, []⟩

theorem linkState_run : Run (step sampleEnv) Always (.start 1000 sampleAccounts) linkState := by
  have hexec : exec (step sampleEnv) (.start 1000 sampleAccounts) [.sign sampleLink, .tick 1900] = some linkState := rfl
  exact Run.of_exec hexec

theorem sampleToken_unforged : Unforged sampleEnv linkState sampleToken := by
  intro body key _ hsplit
  have hbody : tokenBody sampleEnv sampleLink.signed =
      "eyJrIjoiZmlsZSIsImEiOjcsImMiOi0xMDAyMDAsIm0iOjEyLCJpIjowLCJ4IjoxOTAwfQ".toList := by decide +kernel
  have hfirst : (rsplit sampleToken).map Prod.fst =
      some "eyJrIjoiZmlsZSIsImEiOjcsImMiOi0xMDAyMDAsIm0iOjEyLCJpIjowLCJ4IjoxOTAwfQ".toList := by decide +kernel
  rw [hsplit] at hfirst
  exact ⟨sampleLink, List.mem_singleton_self _, (Option.some.inj hfirst).trans hbody.symm⟩

theorem download_iff_sample :
    downloadFile sampleEnv linkState.accounts linkState.now sampleToken none =
        .ok (mediaRequest 7 ⟨"shop", .max⟩ (-100200) 12 0 none) ↔
      sampleEnv.secret ≠ "" ∧ ∃ a account c m n signedAt, Issued.file a c m n signedAt ∈ linkState.issued ∧
        sampleToken = (Issued.file a c m n signedAt).token sampleEnv ∧ signedAt ≤ linkState.now ∧
        linkState.now ≤ (⌊signedAt⌋ + linkTtl : Int) ∧ linkState.accounts a = some account ∧
        mediaRequest 7 ⟨"shop", .max⟩ (-100200) 12 0 none = mediaRequest a account c m n none :=
  download_iff linkState_run sampleToken_unforged

def sampleUpload : Issued := .upload 7 "9f3c" 1000

/-- The PUT of the upload while the body comes: three bytes of it, of which two have been passed on. -/
def samplePut : Put := ⟨sampleUpload.signed, some "doc.pdf", none, .writing (7, "9f3c") 0, 3, 2, [3], [1, 2, 3]⟩

/-- The PUT as it opened its file. -/
def openState : State :=
  ⟨1000, [sampleUpload], sampleAccounts, ((FileSystem.empty : FileSystem Path).create (7, "9f3c")).2,
    [{ samplePut with size := 0, written := 0, buffer := [], body := [] }]⟩

def chunkState : State :=
  ⟨1000, [sampleUpload], sampleAccounts,
    ((FileSystem.empty : FileSystem Path).create (7, "9f3c")).2.writeAt 0 0 [1, 2], [samplePut]⟩

/-- The upload is signed. -/
def signedState : State := ⟨1000, [sampleUpload], sampleAccounts, .empty, []⟩

/-- The PUT before it opened its file. -/
def askingState : State :=
  ⟨1000, [sampleUpload], sampleAccounts, .empty,
    [⟨sampleUpload.signed, some "doc.pdf", none, .asking, 0, 0, [], []⟩]⟩

theorem sign_step : step sampleEnv (.start 1000 sampleAccounts) (.sign sampleUpload) = some signedState := by
  have hmay : (State.start 1000 sampleAccounts).mayIssue sampleUpload = true := by decide +kernel
  rw [step, if_pos hmay]
  rfl

theorem asking_step :
    step sampleEnv signedState (.put (sampleUpload.token sampleEnv) (some "doc.pdf") none) = some askingState := by
  have hverify : verify sampleEnv (sampleUpload.token sampleEnv) "upload" signedState.now = .ok sampleUpload.signed :=
    verify_token (e := sampleUpload) rfl (by decide +kernel)
  rw [step, hverify]
  rfl

theorem open_path : openPath sampleEnv sampleAccounts sampleUpload.signed = .ok (7, "9f3c") := by
  have halnum : isAlnum sampleEnv "9f3c" = true := by decide
  rw [sampleUpload, signed_upload]
  simp [openPath, field, Dict.get_cons, accountState, sampleAccounts, uploadPath, halnum, bind, Except.bind]

theorem open_step : step sampleEnv askingState (.openFile 0) = some openState := by
  rw [step]
  simp only [askingState, List.getElem?_cons_zero, if_true, open_path]
  rfl

theorem chunk_step : step sampleEnv openState (.chunk 0 [1, 2, 3] 2) = some chunkState := by
  have hfits : ¬ maxBytes < 0 + [(1 : UInt8), 2, 3].length := by decide
  rw [step]
  simp only [openState, List.getElem?_cons_zero, samplePut, hfits, if_false]
  rfl

theorem chunkState_run : Run (step sampleEnv) Always (.start 1000 sampleAccounts) chunkState := by
  have hsigned : Run (step sampleEnv) Always (.start 1000 sampleAccounts) signedState := .single _ trivial sign_step
  have hasking : Run (step sampleEnv) Always (.start 1000 sampleAccounts) askingState := .tail _ hsigned trivial asking_step
  have hopen : Run (step sampleEnv) Always (.start 1000 sampleAccounts) openState := .tail _ hasking trivial open_step
  exact .tail _ hopen trivial chunk_step

theorem uploads_bounded_sample : [(1 : UInt8), 2].length ≤ maxBytes :=
  uploads_bounded chunkState_run (show isAlnum sampleEnv ((7, "9f3c") : Path).2 = true by decide) rfl

end MyPerson.Files
