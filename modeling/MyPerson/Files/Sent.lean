import MyPerson.Files.Kept

/-!
# `Files.Sent` — whose bytes an upload has

Several PUTs may write to one file, each at its own position, and one that opens the name empties the file under the
others. Whatever they do, the file of an upload has bytes that were sent for this upload: each stands where a body of
a PUT of this upload has it. Only where a PUT goes on past the end of a file that was emptied are there zeros before it.

## Contents
- `Sent`, `State.Under`, `Sourced`: where the bytes of an upload come from;
- what each change of the files and of a PUT keeps, `sourced_run`;
- `upload_confined`.
-/

namespace MyPerson.Files

open Lib
open FormData (Bytes)

variable {env : Env} {s t : State} {i k : Nat} {b : UInt8} {p q : Put} {path : Path} {file : Nat}

/-! ## Where bytes come from -/

/-- A byte at a place of an upload: a PUT of this upload has read it at this place of its body, or it is zero. -/
def Sent (s : State) (path : Path) (k : Nat) (b : UInt8) : Prop :=
  b = 0 ∨ ∃ (i : Nat) (p : Put) (at₀ : Rat), s.puts[i]? = some p ∧ p.From s path.1 path.2 at₀ ∧ p.body[k]? = some b

/-- The file has the name of the upload, or a PUT writes to it that opened it under this name. -/
def State.Under (env : Env) (s : State) (path : Path) (file : Nat) : Prop :=
  (s.files.find path = some file ∧ isAlnum env path.2 = true) ∨
    ∃ (i : Nat) (p : Put), s.puts[i]? = some p ∧ p.phase = .writing path file

structure Sourced (env : Env) (s : State) : Prop where
  /-- What `open` holds back is the end of the body. -/
  held  : ∀ (i : Nat) (p : Put) (path : Path) (file : Nat), s.puts[i]? = some p → p.phase = .writing path file →
    p.body.drop p.written = p.buffer
  apart : ∀ (path path' : Path) (file : Nat), s.Under env path file → s.Under env path' file → path = path'
  bytes : ∀ (path : Path) (file : Nat), s.Under env path file → ∀ k b, (s.files.data file)[k]? = some b → Sent s path k b

theorem sourced_start (now : Rat) (accounts : Int → Option Account) : Sourced env (.start now accounts) where
  held := by
    intro i p path file hp
    cases hp
  apart := by
    rintro path path' file (⟨hfind, -⟩ | ⟨i, p, hp, -⟩)
    · cases hfind
    · cases hp
  bytes := by
    intro path file _ k b hb
    cases hb

/-- Links are added, and bodies are read on. -/
structure Grown (s t : State) : Prop where
  issued : ∀ e ∈ s.issued, e ∈ t.issued
  puts   : ∀ (i : Nat) (p : Put), s.puts[i]? = some p → ∃ q, t.puts[i]? = some q ∧ q.data = p.data ∧ p.body <+: q.body

theorem Grown.of_eq (hissued : ∀ e ∈ s.issued, e ∈ t.issued) (hputs : t.puts = s.puts) : Grown s t where
  issued := hissued
  puts := fun _ p hp => ⟨p, hputs ▸ hp, rfl, List.prefix_rfl⟩

theorem Grown.setPut (hp : s.puts[i]? = some p) (hdata : q.data = p.data) (hbody : p.body <+: q.body)
    {files : FileSystem Path} : Grown s { s.setPut i q with files := files } where
  issued := fun _ he => he
  puts := by
    intro j r hr
    by_cases hj : j = i
    · subst hj
      obtain rfl := Option.some.inj (hp.symm.trans hr)
      exact ⟨q, setPut_self hp, hdata, hbody⟩
    · exact ⟨r, (setPut_ne hj).trans hr, rfl, List.prefix_rfl⟩

theorem Sent.mono (h : Sent s path k b) (hgrown : Grown s t) : Sent t path k b := by
  rcases h with hzero | ⟨i, p, at₀, hp, hfrom, hbyte⟩
  · exact .inl hzero
  · obtain ⟨q, hq, hdata, tail, htail⟩ := hgrown.puts i p hp
    refine .inr ⟨i, q, at₀, hq, ⟨hgrown.issued _ hfrom.1, hdata.trans hfrom.2⟩, ?_⟩
    rw [← htail, List.getElem?_append_left (List.getElem?_eq_some_iff.mp hbyte).1]
    exact hbyte

/-! ## Changes of the files -/

/-- The files of uploads keep their bytes. -/
theorem Sourced.frame (h : Sourced env s) (hgrown : Grown s t)
    (hheld : ∀ (i : Nat) (p : Put) (path : Path) (file : Nat), t.puts[i]? = some p → p.phase = .writing path file →
      p.body.drop p.written = p.buffer)
    (hunder : ∀ path file, t.Under env path file → s.Under env path file ∧ t.files.data file = s.files.data file) :
    Sourced env t where
  held := hheld
  apart := fun path path' file hfile hfile' => h.apart path path' file (hunder _ _ hfile).1 (hunder _ _ hfile').1
  bytes := by
    intro path file hfile k b hb
    obtain ⟨hold, hdata⟩ := hunder path file hfile
    rw [hdata] at hb
    exact (h.bytes path file hold k b hb).mono hgrown

/-- Names taken away. -/
theorem Sourced.fewer (h : Sourced env s) {files : FileSystem Path} (hdata : files.data = s.files.data)
    (hfind : ∀ name file, files.find name = some file → s.files.find name = some file) :
    Sourced env { s with files := files } := by
  refine h.frame (.of_eq (fun _ he => he) rfl) h.held fun path file hfile => ⟨?_, congrFun hdata file⟩
  exact hfile.imp (fun hname => ⟨hfind path file hname.1, hname.2⟩) id

/-- The record of an upload, written. -/
theorem Sourced.writeMeta (h : Sourced env s) (hstored : Stored env s) (path : Path) (text : Bytes) :
    Sourced env { s with files := s.files.write (metaPath path) text } := by
  refine h.frame (.of_eq (fun _ he => he) rfl) h.held fun path' file hfile => ?_
  have hold : s.Under env path' file := hfile.imp
    (fun hname => ⟨(find_writeMeta s.files path text hname.2).symm.trans hname.1, hname.2⟩) id
  refine ⟨hold, FileSystem.data_write_ne (hstored.ne_metaFile path ?_)⟩
  exact hold.imp (fun hname => ⟨path', hname⟩) fun ⟨j, p, hp⟩ => ⟨j, p, path', hp⟩

/-- A PUT writes a part of its body at its place. -/
theorem Sourced.writeAt (h : Sourced env s) (hp : s.puts[i]? = some p) (hphase : p.phase = .writing path file) {at₀ : Rat}
    (hfrom : p.From s path.1 path.2 at₀) {pos : Nat} {bytes : Bytes}
    (hbytes : ∀ k b, bytes[k]? = some b → p.body[pos + k]? = some b) :
    Sourced env { s with files := s.files.writeAt file pos bytes } where
  held := h.held
  apart := h.apart
  bytes := by
    intro path' file' hfile k b hb
    have hgrown : Grown s { s with files := s.files.writeAt file pos bytes } := .of_eq (fun _ he => he) rfl
    by_cases heq : file' = file
    · subst heq
      -- whoever else has the file has it for the same upload
      obtain rfl := h.apart path path' file' (.inr ⟨i, p, hp, hphase⟩) hfile
      rw [FileSystem.data_writeAt] at hb
      rcases splice_origin hb with hold | hzero | ⟨hpos, hnew⟩
      · exact (h.bytes path file' hfile k b hold).mono hgrown
      · exact .inl hzero
      · have hbody := hbytes (k - pos) b hnew
        rw [Nat.add_sub_of_le hpos] at hbody
        exact .inr ⟨i, p, at₀, hp, hfrom, hbody⟩
    · rw [FileSystem.data_writeAt_ne heq] at hb
      exact (h.bytes path' file' hfile k b hb).mono hgrown

/-- What `open` holds back is passed on. -/
theorem Sourced.flush (h : Sourced env s) (hhonest : Honest env s) (hp : s.puts[i]? = some p)
    (hphase : p.phase = .writing path file) : Sourced env { s with files := s.flush p file } := by
  obtain ⟨-, at₀, hfrom⟩ := hhonest.writing hp hphase
  refine h.writeAt hp hphase hfrom fun k b hb => ?_
  rw [← h.held i p path file hp hphase, List.getElem?_drop] at hb
  exact hb

/-! ## Changes of a PUT -/

/-- A PUT that has ended, or has read on. -/
theorem Sourced.setPut (h : Sourced env s) (hp : s.puts[i]? = some p) (hdata : q.data = p.data) (hbody : p.body <+: q.body)
    (hq : ∀ path file, q.phase = .writing path file →
      p.phase = .writing path file ∧ q.body.drop q.written = q.buffer) : Sourced env (s.setPut i q) := by
  refine h.frame (.setPut hp hdata hbody) (fun j r path file hr hphase => ?_) fun path file hfile => ⟨?_, rfl⟩
  · rcases setPut_puts hr with ⟨-, rfl⟩ | ⟨-, hr⟩
    · exact (hq path file hphase).2
    · exact h.held j r path file hr hphase
  · refine hfile.imp id ?_
    rintro ⟨j, r, hr, hphase⟩
    rcases setPut_puts hr with ⟨-, rfl⟩ | ⟨-, hr⟩
    · exact ⟨i, p, hp, (hq path file hphase).1⟩
    · exact ⟨j, r, hr, hphase⟩

theorem Sourced.appendPut (h : Sourced env s) (hphase : ∀ path file, p.phase ≠ .writing path file) :
    Sourced env { s with puts := s.puts ++ [p] } := by
  have hgrown : Grown s { s with puts := s.puts ++ [p] } :=
    ⟨fun _ he => he, fun j r hr => ⟨r, (List.getElem?_append_left (List.getElem?_eq_some_iff.mp hr).1).trans hr, rfl,
      List.prefix_rfl⟩⟩
  refine h.frame hgrown (fun j r path file hr hwriting => ?_) fun path file hfile => ⟨?_, rfl⟩
  · rcases append_puts hr with ⟨-, rfl⟩ | hr
    · exact absurd hwriting (hphase path file)
    · exact h.held j r path file hr hwriting
  · refine hfile.imp id ?_
    rintro ⟨j, r, hr, hwriting⟩
    rcases append_puts hr with ⟨-, rfl⟩ | hr
    · exact absurd hwriting (hphase path file)
    · exact ⟨j, r, hr, hwriting⟩

/-- The file of a PUT is opened: the others are those of before. -/
theorem under_open (hstored : Stored env s) {path' : Path}
    (h : State.Under env { s.setPut i { p with phase := .writing path (s.files.create path).1 } with
      files := (s.files.create path).2 } path' file) :
    (path = path' ∧ file = (s.files.create path).1) ∨ (file ≠ (s.files.create path).1 ∧ s.Under env path' file) := by
  rcases h with ⟨hfind, halnum⟩ | ⟨j, q, hq, hphase⟩
  · have hfind := (FileSystem.find_create s.files path path').symm.trans hfind
    split at hfind
    · rename_i heq
      exact .inl ⟨heq, (Option.some.inj hfind).symm⟩
    · rename_i hne
      exact .inr ⟨hstored.sound.ne_create hne hfind, .inl ⟨hfind, halnum⟩⟩
  · rcases setPut_puts hq with ⟨-, rfl⟩ | ⟨-, hq⟩
    · obtain ⟨heq, hfile⟩ := Phase.writing.inj hphase
      exact .inl ⟨heq, hfile.symm⟩
    · obtain ⟨-, hlt, -, -, -, hname⟩ := hstored.writing hq hphase
      by_cases heq : file = (s.files.create path).1
      · -- the file had its name already, since a new one is nobody's
        rcases FileSystem.create_fst s.files path with hfind | ⟨-, hnext⟩
        · exact .inl ⟨hname path (heq ▸ hfind), heq⟩
        · exact absurd hlt ((heq.trans hnext) ▸ Nat.lt_irrefl _)
      · exact .inr ⟨heq, .inr ⟨j, q, hq, hphase⟩⟩

theorem Sourced.openFile (h : Sourced env s) (hstored : Stored env s) (hp : s.puts[i]? = some p)
    (hphase : p.phase = .asking) :
    Sourced env { s.setPut i { p with phase := .writing path (s.files.create path).1 } with
      files := (s.files.create path).2 } where
  held := by
    intro j q path' file hq hwriting
    rcases setPut_puts hq with ⟨-, rfl⟩ | ⟨-, hq⟩
    · obtain ⟨hwritten, hbuffer, -, hbody⟩ := hstored.asking hp hphase
      simp only [hwritten, hbuffer, hbody, List.drop_nil]
    · exact h.held j q path' file hq hwriting
  apart := by
    intro path₁ path₂ file h₁ h₂
    rcases under_open hstored h₁ with ⟨rfl, hfile⟩ | ⟨hne, h₁⟩
    · rcases under_open hstored h₂ with ⟨heq, -⟩ | ⟨hne, -⟩
      · exact heq
      · exact absurd hfile hne
    · rcases under_open hstored h₂ with ⟨-, hfile⟩ | ⟨-, h₂⟩
      · exact absurd hfile hne
      · exact h.apart path₁ path₂ file h₁ h₂
  bytes := by
    intro path' file hfile k b hb
    rcases under_open hstored hfile with ⟨-, rfl⟩ | ⟨hne, hold⟩
    · -- the file has been emptied, also under others that write to it
      rw [FileSystem.data_create] at hb
      cases hb
    · rw [FileSystem.data_create_ne hne] at hb
      exact (h.bytes path' file hold k b hb).mono
        (.setPut (q := { p with phase := .writing path (s.files.create path).1 }) hp rfl List.prefix_rfl)

/-! ## Whole runs -/

/-- A piece of the body comes: some of what `open` has goes to the file. -/
theorem Sourced.writeChunk (h : Sourced env s) (hhonest : Honest env s) (hp : s.puts[i]? = some p)
    (hphase : p.phase = .writing path file) (bytes : Bytes) (flushed : Nat) :
    Sourced env (s.writeChunk i p file bytes flushed) := by
  obtain ⟨-, at₀, hfrom⟩ := hhonest.writing hp hphase
  obtain ⟨-, -, hwritten, hbody, -, -⟩ := hhonest.stored.writing hp hphase
  have hrest : (p.body ++ bytes).drop p.written = p.buffer ++ bytes := by
    rw [List.drop_append_of_le_length (by omega), h.held i p path file hp hphase]
  have hread : Sourced env (s.setPut i { p with
      size := p.size + bytes.length
      written := p.written + ((p.buffer ++ bytes).take flushed).length
      buffer := (p.buffer ++ bytes).drop flushed
      body := p.body ++ bytes }) := by
    refine h.setPut hp rfl (List.prefix_append _ _) fun path' file' hwriting => ⟨hwriting, ?_⟩
    show (p.body ++ bytes).drop (p.written + ((p.buffer ++ bytes).take flushed).length) = _
    rw [← List.drop_drop, hrest, List.length_take]
    rcases Nat.le_total flushed (p.buffer ++ bytes).length with hle | hge
    · rw [Nat.min_eq_left hle]
    · rw [Nat.min_eq_right hge, List.drop_length, List.drop_of_length_le hge]
  -- what is passed on stands in the new body from the old place on
  refine hread.writeAt (setPut_self hp) hphase hfrom fun k b hb => ?_
  show (p.body ++ bytes)[p.written + k]? = some b
  rw [← List.getElem?_drop, hrest]
  rw [List.getElem?_take] at hb
  exact (Option.ite_none_right_eq_some.mp hb).2

theorem Sourced.finish (h : Sourced env s) (hhonest : Honest env s) (hp : s.puts[i]? = some p)
    (hphase : p.phase = .writing path file) : Sourced env (s.finish env i p path file) := by
  rw [finish_stored hhonest hp hphase]
  have hclosed : Sourced env { s with files := s.closed env p path file } :=
    (h.flush hhonest hp hphase).writeMeta (hhonest.flush hp hphase).stored path _
  obtain ⟨hdata, hfind⟩ := purge_fewer env s.now (s.closed env p path file)
  have hpurged := hclosed.fewer hdata hfind
  exact hpurged.setPut hp rfl List.prefix_rfl fun path' file' hwriting => nomatch hwriting

theorem Sourced.step {a : Action} (h : Sourced env s) (hhonest : Honest env s) (hstep : step env s a = some t) :
    Sourced env t := by
  cases a with
  | tick now =>
      obtain ⟨-, rfl⟩ := step_tick hstep
      exact h.frame (.of_eq (fun _ he => he) rfl) h.held fun _ _ hfile => ⟨hfile, rfl⟩
  | account a account =>
      obtain rfl := step_account hstep
      exact h.frame (.of_eq (fun _ he => he) rfl) h.held fun _ _ hfile => ⟨hfile, rfl⟩
  | sign e =>
      obtain ⟨-, rfl⟩ := step_sign hstep
      exact h.frame (.of_eq (fun _ he => List.mem_append_left _ he) rfl) h.held fun _ _ hfile => ⟨hfile, rfl⟩
  | put token name header =>
      rcases step_put hstep with ⟨e, rfl⟩ | ⟨data, -, rfl⟩
      · exact h.appendPut fun _ _ heq => nomatch heq
      · exact h.appendPut fun _ _ heq => nomatch heq
  | openFile i =>
      obtain ⟨p, hp, hphase, ⟨r, -, rfl⟩ | ⟨path, -, rfl⟩⟩ := step_openFile hstep
      · exact h.setPut hp rfl List.prefix_rfl fun _ _ heq => nomatch heq
      · exact h.openFile hhonest.stored hp hphase
  | chunk i bytes flushed =>
      obtain ⟨p, path, file, hp, hphase, ⟨-, rfl⟩ | ⟨-, rfl⟩⟩ := step_chunk hstep
      · have hless : Sourced env { s with files := (s.flush p file).unlink path } :=
          (h.flush hhonest hp hphase).fewer rfl fun _ _ hfile => (unlink_find hfile).2
        exact hless.setPut hp rfl (List.prefix_append _ _) fun _ _ heq => nomatch heq
      · exact h.writeChunk hhonest hp hphase bytes flushed
  | finish i =>
      obtain ⟨p, path, file, hp, hphase, rfl⟩ := step_finish hstep
      exact h.finish hhonest hp hphase
  | leave i =>
      obtain ⟨p, hp, ⟨hphase, rfl⟩ | ⟨path, file, hphase, rfl⟩⟩ := step_leave hstep
      · exact h.setPut hp rfl List.prefix_rfl fun _ _ heq => nomatch heq
      · exact (h.flush hhonest hp hphase).setPut hp rfl List.prefix_rfl fun _ _ heq => nomatch heq

theorem sourced_run {now : Rat} {accounts : Int → Option Account}
    (h : Run (step env) (Guarded env) (.start now accounts) s) : Sourced env s := by
  have hboth : Honest env s ∧ Sourced env s :=
    h.invariant (P := fun s => Honest env s ∧ Sourced env s)
      (fun _ _ _ hx hok hstep => ⟨hx.1.step hok hstep, hx.2.step hx.1 hstep⟩)
      ⟨honest_start now accounts, sourced_start now accounts⟩
  exact hboth.2

/-! ## Whose upload it is -/

theorem readUpload_ok {fs : FileSystem Path} {now : Rat} {a : Int} {u : String} {name : Json} {bytes : Bytes}
    (h : readUpload env fs now a u = .ok (name, bytes)) :
    isAlnum env u = true ∧ fs.read (a, u) = some bytes ∧ ∃ record info, fs.read (metaPath (a, u)) = some record ∧
      readMeta env record = .ok info ∧ metaExpired now info = .ok false ∧ infoField "file_name" info = .ok name := by
  obtain ⟨path, hpath, h₁⟩ := bind_ok h
  unfold uploadPath at hpath
  split at hpath
  · rename_i halnum
    obtain rfl := Except.ok.inj hpath
    split at h₁
    · rename_i content record hcontent hrecord
      obtain ⟨info, hinfo, h₂⟩ := bind_ok h₁
      obtain ⟨b, hb, h₃⟩ := bind_ok h₂
      cases b with
      | true => cases h₃
      | false =>
          obtain ⟨v, hv, h₄⟩ := bind_ok h₃
          obtain ⟨rfl, rfl⟩ := Prod.mk.inj (Except.ok.inj h₄)
          exact ⟨halnum, hcontent, record, info, hrecord, hinfo, hb, hv⟩
    · cases h₁
  · cases hpath

/-- **Whose upload it is.** In every run without forged tokens, what `read_upload` gives for an account and an id was
    put there by a PUT whose token had been signed for this account and this id, and has not expired; its name is the
    one of this PUT, and its bytes, zeros apart, stand where a PUT with this token read them. -/
theorem upload_confined {now : Rat} {accounts : Int → Option Account}
    (h : Run (step env) (Guarded env) (.start now accounts) s) {a : Int} {u : String} {name : Json} {bytes : Bytes}
    (hread : readUpload env s.files s.now a u = .ok (name, bytes)) :
    ∃ (signedAt : Rat) (i : Nat) (p : Put) (size : Nat), .upload a u signedAt ∈ s.issued ∧ signedAt ≤ s.now ∧
      s.now ≤ (⌊signedAt⌋ + linkTtl : Int) ∧ s.puts[i]? = some p ∧ p.phase = .stored size ∧
      p.data = (Issued.upload a u signedAt).signed ∧ name = p.fileName ∧ bytes.length ≤ maxBytes ∧
      ∀ (k : Nat) (b : UInt8), bytes[k]? = some b → b = 0 ∨
        ∃ (j : Nat) (q : Put), s.puts[j]? = some q ∧ q.data = (Issued.upload a u signedAt).signed ∧ q.body[k]? = some b := by
  have hhonest := honest_run h
  obtain ⟨halnum, hcontent, record, info, hrecord, hinfo, hfresh, hname⟩ := readUpload_ok hread
  obtain ⟨i, p, size, a', u', at₀, hp, hphase, hfrom, -, hpath, rfl⟩ :=
    hhonest.metas _ record hrecord (isAlnum_metaPath (a, u))
  obtain ⟨rfl, rfl⟩ := Prod.mk.inj (metaPath_inj hpath)
  obtain rfl := Except.ok.inj ((readMeta_metaText hfrom.record_exact).symm.trans hinfo)
  have hexp : decide (((Issued.upload a u at₀).exp : Rat) < s.now) = false := by
    have hbind := hfrom.metaExpired env s.now
    rw [hinfo] at hbind
    exact Except.ok.inj (hbind.symm.trans hfresh)
  have hfield : infoField "file_name" (.obj p.record) = .ok p.fileName := by
    simp [infoField, Put.record, Dict.get_cons]
  obtain ⟨file, hfile, rfl⟩ := Option.map_eq_some_iff.mp hcontent
  refine ⟨at₀, i, p, size, hfrom.1, issued_run h _ hfrom.1, not_lt.mp (of_decide_eq_false hexp), hp, hphase, hfrom.2,
    Except.ok.inj (hname.symm.trans hfield), hhonest.stored.bounded file (.inl ⟨(a, u), hfile, halnum⟩), fun k b hb => ?_⟩
  refine ((sourced_run h).bytes (a, u) file (.inl ⟨hfile, halnum⟩) k b hb).imp id ?_
  rintro ⟨j, q, at', hq, hsent, hbody⟩
  -- an id is signed once
  obtain ⟨-, rfl⟩ := hhonest.unique u a a at' at₀ hsent.1 hfrom.1
  exact ⟨j, q, hq, hsent.2, hbody⟩

theorem upload_confined_sample :
    ∃ (signedAt : Rat) (i : Nat) (p : Put) (size : Nat), .upload 7 "9f3c" signedAt ∈ storedState.issued ∧
      signedAt ≤ storedState.now ∧ storedState.now ≤ (⌊signedAt⌋ + linkTtl : Int) ∧ storedState.puts[i]? = some p ∧
      p.phase = .stored size ∧ p.data = (Issued.upload 7 "9f3c" signedAt).signed ∧ storedPut.fileName = p.fileName ∧
      storedPut.body.length ≤ maxBytes ∧ ∀ (k : Nat) (b : UInt8), storedPut.body[k]? = some b → b = 0 ∨
        ∃ (j : Nat) (q : Put), storedState.puts[j]? = some q ∧ q.data = (Issued.upload 7 "9f3c" signedAt).signed ∧
          q.body[k]? = some b :=
  upload_confined storedState_run storedState_read

end MyPerson.Files
