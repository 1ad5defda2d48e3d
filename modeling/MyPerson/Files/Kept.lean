import MyPerson.Files.Confined

/-!
# `Files.Kept` — what an upload leaves to be read

In a run in which no token is forged, the record beside an upload is the one of the PUT that ended there, and this
PUT had a token signed for the account and the id that name it. What a PUT alone at its name has taken in can be
read until the token expires, whatever else the server does, purges included.

## Contents
- `Honest`: where the records come from;
- `Spares`, `Alone`, `Watched`: from the opening of a file to the reading of it; `upload_kept`.
-/

namespace MyPerson.Files

open Lib
open FormData (Bytes utf8 ofUtf8)

variable {env : Env} {s t : State} {i : Nat}

/-! ## Records -/

theorem readMeta_metaText {record : Fields} (h : (Json.obj record).exact = true) :
    readMeta env (metaText env record) = .ok (.obj record) := by
  unfold readMeta metaText
  rw [FormData.ofUtf8_utf8, Option.bind_some, String.toList_ofList, JsonText.loads_dumps h]

/-- The PUT has a token that was signed for this upload. -/
def Put.From (s : State) (p : Put) (a : Int) (u : String) (at₀ : Rat) : Prop :=
  .upload a u at₀ ∈ s.issued ∧ p.data = (Issued.upload a u at₀).signed

section

variable {p : Put} {a : Int} {u : String} {at₀ : Rat}

theorem Put.From.get (h : p.From s a u at₀) : Dict.get "a" p.data = some (.int a) ∧ Dict.get "u" p.data = some (.str u) ∧
    Dict.get "x" p.data = some (.int (Issued.upload a u at₀).exp) := by
  refine ⟨?_, ?_, ?_⟩
  · simp [h.2, signed_upload, Dict.get_cons]
  · simp [h.2, signed_upload, Dict.get_cons]
  · rw [h.2, get_exp]

theorem Put.From.fileName_exact (h : p.From s a u at₀) : p.fileName.exact = true := by
  unfold Put.fileName
  split
  · rfl
  · rfl
  · rw [h.get.2.1]
    rfl

theorem Put.From.record_exact (h : p.From s a u at₀) : (Json.obj p.record).exact = true := by
  have hname := h.fileName_exact
  simp [Put.record, h.get.2.2, Json.exact, Json.exactFields, hname]

variable (env) in
theorem Put.From.metaExpired (h : p.From s a u at₀) (now : Rat) :
    (readMeta env (metaText env p.record)).bind (metaExpired now) =
      .ok (decide (((Issued.upload a u at₀).exp : Rat) < now)) := by
  have hfield : infoField "expires_at" (.obj p.record) = .ok (.int (Issued.upload a u at₀).exp) := by
    simp [infoField, Put.record, h.get.2.2, Dict.get_cons]
  rw [readMeta_metaText h.record_exact]
  show Files.metaExpired now (.obj p.record) = _
  rw [Files.metaExpired, hfield]
  rfl

theorem Put.From.mono (h : p.From s a u at₀) (hissued : ∀ e ∈ s.issued, e ∈ t.issued) : p.From t a u at₀ :=
  ⟨hissued _ h.1, h.2⟩

end

/-! ## Names -/

theorem toList_metaPath (path : Path) : (metaPath path).2.toList = path.2.toList ++ ".json".toList := by
  simp [metaPath]

theorem isMeta_metaPath (path : Path) : isMeta (metaPath path) = true := by
  rw [isMeta, toList_metaPath]
  exact List.isSuffixOf_iff_suffix.mpr (List.suffix_append _ _)

theorem metaPath_dataPath {path : Path} (h : isMeta path = true) : metaPath (dataPath path) = path := by
  obtain ⟨stem, hstem⟩ : ".json".toList <:+ path.2.toList := List.isSuffixOf_iff_suffix.mp h
  have hlength : path.2.length - 5 = stem.length := by
    rw [← String.length_toList, ← hstem, List.length_append]
    simp
  have htake : path.2.toList.take (path.2.length - 5) = stem := by
    rw [hlength, ← hstem, List.take_left]
  refine Prod.ext rfl (String.toList_inj.mp ?_)
  rw [toList_metaPath, ← hstem]
  simp [dataPath, htake]

theorem dataPath_metaPath (path : Path) : dataPath (metaPath path) = path := by
  have h := metaPath_dataPath (isMeta_metaPath path)
  have hfst : (dataPath (metaPath path)).1 = path.1 := rfl
  refine Prod.ext hfst (String.toList_inj.mp ?_)
  have htext := congrArg (fun q : Path => q.2.toList) h
  simp only [toList_metaPath] at htext
  exact List.append_cancel_right htext

theorem metaPath_inj {path path' : Path} (h : metaPath path = metaPath path') : path = path' := by
  rw [← dataPath_metaPath path, h, dataPath_metaPath]

/-! ## Purging -/

/-- A purge takes names away and changes no file. -/
theorem purge_fewer (env : Env) (now : Rat) (fs : FileSystem Path) :
    (purgeExpired env now fs).1.data = fs.data ∧
      ∀ name file, (purgeExpired env now fs).1.find name = some file → fs.find name = some file :=
  purgeFrom_induction
    (P := fun fs' => fs'.data = fs.data ∧ ∀ name file, fs'.find name = some file → fs.find name = some file)
    (fun _ _ _ _ hfs' _ _ => ⟨hfs'.1, fun name file hfile => hfs'.2 name file (unlink_find (unlink_find hfile).2).2⟩)
    ⟨rfl, fun _ _ hfile => hfile⟩

theorem purge_read {now : Rat} {fs : FileSystem Path} {path : Path} {content : Bytes}
    (h : (purgeExpired env now fs).1.read path = some content) : fs.read path = some content := by
  obtain ⟨hdata, hfind⟩ := purge_fewer env now fs
  obtain ⟨file, hfile, rfl⟩ := Option.map_eq_some_iff.mp h
  rw [FileSystem.read, hfind path file hfile, hdata, Option.map_some]

/-- A purge of records that can be read goes through to its end. -/
theorem purge_none {now : Rat} {fs : FileSystem Path}
    (h : ∀ path content, fs.read path = some content → isMeta path = true →
      ∃ b, (readMeta env content).bind (metaExpired now) = .ok b) : (purgeExpired env now fs).2 = none := by
  have hmeta : ∀ path ∈ (fs.entries.map Prod.fst).filter isMeta, isMeta path = true := fun path hpath =>
    (List.mem_filter.mp hpath).2
  have hgo : ∀ (paths : List Path) (fs : FileSystem Path), (∀ path ∈ paths, isMeta path = true) →
      (∀ path content, fs.read path = some content → isMeta path = true →
        ∃ b, (readMeta env content).bind (metaExpired now) = .ok b) → (purgeFrom env now paths fs).2 = none := by
    intro paths
    induction paths with
    | nil => exact fun _ _ _ => rfl
    | cons path paths ih =>
        intro fs hpaths hreads
        have hone : ∃ fs', purgeOne env now fs path = .ok fs' := by
          unfold purgeOne
          cases hread : fs.read path with
          | none => exact ⟨fs, rfl⟩
          | some content =>
              obtain ⟨b, hb⟩ := hreads path content hread (hpaths path List.mem_cons_self)
              simp only [hb]
              cases b with
              | true => exact ⟨_, rfl⟩
              | false => exact ⟨_, rfl⟩
        obtain ⟨fs', hfs'⟩ := hone
        rw [purgeFrom, hfs']
        refine ih fs' (fun path' hpath' => hpaths path' (List.mem_cons_of_mem path hpath')) ?_
        rcases purgeOne_cases hfs' with rfl | ⟨content, -, -, rfl⟩
        · exact hreads
        · intro path' content' hread'
          exact hreads path' content' (FileSystem.of_read_unlink (FileSystem.of_read_unlink hread').2).2
  exact hgo _ fs hmeta h

/-! ## Where the records come from -/

/-- The tokens that a PUT is sent with are not forged. -/
def Guarded (env : Env) (s : State) (a : Action) : Prop :=
  ∀ token name header, a = .put token name header → Unforged env s token

/-- A PUT that was taken has a token that was signed; its file is the one that the token names. -/
def PutFrom (env : Env) (s : State) (p : Put) : Prop :=
  match p.phase with
  | .asking => ∃ a u at₀, p.From s a u at₀
  | .writing path _ => isAlnum env path.2 = true ∧ ∃ at₀, p.From s path.1 path.2 at₀
  | _ => True

structure Honest (env : Env) (s : State) : Prop where
  stored : Stored env s
  unique : ∀ (u : String) (a a' : Int) (at₀ at' : Rat), .upload a u at₀ ∈ s.issued → .upload a' u at' ∈ s.issued →
    a = a' ∧ at₀ = at'
  puts   : ∀ (i : Nat) (p : Put), s.puts[i]? = some p → PutFrom env s p
  /-- A name that is not an upload's is the record of a PUT that ended. -/
  metas  : ∀ (path : Path) (content : Bytes), s.files.read path = some content → isAlnum env path.2 = false →
    ∃ (i : Nat) (p : Put) (size : Nat) (a : Int) (u : String) (at₀ : Rat), s.puts[i]? = some p ∧ p.phase = .stored size ∧
      p.From s a u at₀ ∧ isAlnum env u = true ∧ path = metaPath (a, u) ∧ content = metaText env p.record

theorem honest_start (now : Rat) (accounts : Int → Option Account) : Honest env (.start now accounts) where
  stored := stored_start now accounts
  unique := by
    intro u a a' at₀ at' h _
    cases h
  puts := by
    intro i p hp
    cases hp
  metas := by
    intro path content hread _
    cases hread

theorem PutFrom.mono {p : Put} (h : PutFrom env s p) (hissued : ∀ e ∈ s.issued, e ∈ t.issued) : PutFrom env t p := by
  unfold PutFrom at h ⊢
  cases hphase : p.phase with
  | asking =>
      rw [hphase] at h
      obtain ⟨a, u, at₀, hfrom⟩ := h
      exact ⟨a, u, at₀, hfrom.mono hissued⟩
  | writing path file =>
      rw [hphase] at h
      obtain ⟨halnum, at₀, hfrom⟩ := h
      exact ⟨halnum, at₀, hfrom.mono hissued⟩
  | stored size => trivial
  | refused r => trivial
  | gone => trivial

theorem Honest.asking (h : Honest env s) {p : Put} (hp : s.puts[i]? = some p) (hphase : p.phase = .asking) :
    ∃ a u at₀, p.From s a u at₀ := by
  have hfrom := h.puts i p hp
  rw [PutFrom, hphase] at hfrom
  exact hfrom

theorem Honest.writing (h : Honest env s) {p : Put} {path : Path} {file : Nat} (hp : s.puts[i]? = some p)
    (hphase : p.phase = .writing path file) : isAlnum env path.2 = true ∧ ∃ at₀, p.From s path.1 path.2 at₀ := by
  have hfrom := h.puts i p hp
  rw [PutFrom, hphase] at hfrom
  exact hfrom

/-- A PUT that has not ended, changed. -/
theorem Honest.setPut (h : Honest env s) {p q : Put} (hstored : Stored env (s.setPut i q)) (hp : s.puts[i]? = some p)
    (hphase : ∀ size, p.phase ≠ .stored size) (hq : PutFrom env s q) : Honest env (s.setPut i q) where
  stored := hstored
  unique := h.unique
  puts := by
    intro j r hr
    rcases setPut_puts hr with ⟨-, rfl⟩ | ⟨-, hr⟩
    · exact hq
    · exact h.puts j r hr
  metas := by
    intro path content hread halnum
    obtain ⟨j, r, size, a, u, at₀, hr, hsize, hrest⟩ := h.metas path content hread halnum
    have hne : j ≠ i := by
      rintro rfl
      obtain rfl := Option.some.inj (hr.symm.trans hp)
      exact hphase size hsize
    exact ⟨j, r, size, a, u, at₀, (setPut_ne hne).trans hr, hsize, hrest⟩

theorem Honest.appendPut (h : Honest env s) {p : Put} (hstored : Stored env { s with puts := s.puts ++ [p] })
    (hp : PutFrom env s p) : Honest env { s with puts := s.puts ++ [p] } where
  stored := hstored
  unique := h.unique
  puts := by
    intro j r hr
    rcases append_puts hr with ⟨-, rfl⟩ | hr
    · exact hp
    · exact h.puts j r hr
  metas := by
    intro path content hread halnum
    obtain ⟨j, r, size, a, u, at₀, hr, hrest⟩ := h.metas path content hread halnum
    have hlt := (List.getElem?_eq_some_iff.mp hr).1
    exact ⟨j, r, size, a, u, at₀, (List.getElem?_append_left hlt).trans hr, hrest⟩

/-- Other files, whose records were there before. -/
theorem Honest.withFiles (h : Honest env s) {files : FileSystem Path} (hstored : Stored env { s with files := files })
    (hread : ∀ path content, isAlnum env path.2 = false → files.read path = some content →
      s.files.read path = some content) : Honest env { s with files := files } where
  stored := hstored
  unique := h.unique
  puts := h.puts
  metas := fun path content hcontent halnum => h.metas path content (hread path content halnum hcontent) halnum

/-- Writing to the file of a PUT leaves the records as they are. -/
theorem Honest.writeAt (h : Honest env s) {p : Put} {path : Path} {file : Nat} (hp : s.puts[i]? = some p)
    (hphase : p.phase = .writing path file) {pos : Nat} {bytes : Bytes} (hlen : pos + bytes.length ≤ maxBytes) :
    Honest env { s with files := s.files.writeAt file pos bytes } := by
  obtain ⟨halnum, -, -, -, -, hname⟩ := h.stored.writing hp hphase
  refine h.withFiles (h.stored.writeAt file hlen) fun name content hnot hread => ?_
  obtain ⟨file', hfile', rfl⟩ := Option.map_eq_some_iff.mp hread
  have hne : file' ≠ file := by
    rintro rfl
    obtain rfl := hname name hfile'
    exact Bool.false_ne_true (hnot.symm.trans halnum)
  have hfind : s.files.find name = some file' := hfile'
  rw [FileSystem.data_writeAt_ne hne, FileSystem.read, hfind, Option.map_some]

/-- What `open` has held back is passed on. -/
theorem Honest.flush (h : Honest env s) {p : Put} {path : Path} {file : Nat} (hp : s.puts[i]? = some p)
    (hphase : p.phase = .writing path file) : Honest env { s with files := s.flush p file } := by
  obtain ⟨-, -, hwritten, -, hsize, -⟩ := h.stored.writing hp hphase
  exact h.writeAt hp hphase (by omega)

theorem Honest.create (h : Honest env s) {path : Path} (halnum : isAlnum env path.2 = true) :
    Honest env { s with files := (s.files.create path).2 } := by
  refine h.withFiles (h.stored.create path) fun name content hnot hread => ?_
  have hne : path ≠ name := by
    rintro rfl
    exact Bool.false_ne_true (hnot.symm.trans halnum)
  unfold FileSystem.read at hread ⊢
  rw [FileSystem.find_create, if_neg hne] at hread
  obtain ⟨file, hfile, rfl⟩ := Option.map_eq_some_iff.mp hread
  rw [hfile, Option.map_some, FileSystem.data_create_ne (h.stored.sound.ne_create hne hfile)]

theorem Honest.unlink (h : Honest env s) (path : Path) : Honest env { s with files := s.files.unlink path } :=
  h.withFiles (h.stored.unlink path) fun _ _ _ hread => (FileSystem.of_read_unlink hread).2

/-- The records that there are can be read. -/
theorem Honest.readable (h : Honest env s) (now : Rat) {path : Path} {content : Bytes}
    (hread : s.files.read path = some content) (hmeta : isMeta path = true) :
    ∃ b, (readMeta env content).bind (metaExpired now) = .ok b := by
  obtain ⟨j, r, size, a, u, at₀, -, -, hfrom, -, -, rfl⟩ := h.metas path content hread (isAlnum_of_isMeta hmeta)
  exact ⟨_, hfrom.metaExpired env now⟩

/-- The files as a PUT ends: its own closed, its record written. -/
def State.closed (env : Env) (s : State) (p : Put) (path : Path) (file : Nat) : FileSystem Path :=
  (s.flush p file).write (metaPath path) (metaText env p.record)

theorem closed_read (h : Honest env s) {p : Put} {path : Path} {file : Nat} (hp : s.puts[i]? = some p)
    (hphase : p.phase = .writing path file) {name : Path} {content : Bytes} (hnot : isAlnum env name.2 = false)
    (hread : (s.closed env p path file).read name = some content) :
    (name = metaPath path ∧ content = metaText env p.record) ∨ s.files.read name = some content := by
  have hflush := h.flush hp hphase
  unfold State.closed at hread
  by_cases heq : metaPath path = name
  · subst heq
    rw [FileSystem.read_write] at hread
    exact .inl ⟨rfl, (Option.some.inj hread).symm⟩
  · have hold := (hflush.stored.sound.read_write_ne heq).symm.trans hread
    obtain ⟨file', hfile', rfl⟩ := Option.map_eq_some_iff.mp hold
    obtain ⟨halnum, -, -, -, -, hname⟩ := h.stored.writing hp hphase
    have hne : file' ≠ file := by
      rintro rfl
      obtain rfl := hname name hfile'
      exact Bool.false_ne_true (hnot.symm.trans halnum)
    have hfind : s.files.find name = some file' := hfile'
    right
    rw [FileSystem.read, hfind]
    exact congrArg some (FileSystem.data_writeAt_ne hne).symm

/-- A PUT that ends is answered: nothing stops the purge after it. -/
theorem finish_stored (h : Honest env s) {p : Put} {path : Path} {file : Nat} (hp : s.puts[i]? = some p)
    (hphase : p.phase = .writing path file) :
    s.finish env i p path file = { s.setPut i { p with phase := .stored p.size } with
      files := (purgeExpired env s.now (s.closed env p path file)).1 } := by
  obtain ⟨-, at₀, hfrom⟩ := h.writing hp hphase
  have hnone : (purgeExpired env s.now (s.closed env p path file)).2 = none := by
    refine purge_none fun name content hread hmeta => ?_
    rcases closed_read h hp hphase (isAlnum_of_isMeta hmeta) hread with ⟨-, rfl⟩ | hold
    · exact ⟨_, hfrom.metaExpired env s.now⟩
    · exact h.readable s.now hold hmeta
  unfold State.finish
  simp only
  rw [show (s.flush p file).write (metaPath path) (metaText env p.record) = s.closed env p path file from rfl, hnone]

theorem Honest.finish (h : Honest env s) {p : Put} {path : Path} {file : Nat} (hp : s.puts[i]? = some p)
    (hphase : p.phase = .writing path file) (hstored : Stored env (s.finish env i p path file)) :
    Honest env (s.finish env i p path file) := by
  rw [finish_stored h hp hphase] at hstored ⊢
  obtain ⟨halnum, at₀, hfrom⟩ := h.writing hp hphase
  refine ⟨hstored, h.unique, fun j q hq => ?_, fun name content hread hnot => ?_⟩
  · rcases setPut_puts hq with ⟨-, rfl⟩ | ⟨-, hq⟩
    · trivial
    · exact h.puts j q hq
  · rcases closed_read h hp hphase hnot (purge_read hread) with ⟨rfl, rfl⟩ | hold
    · exact ⟨i, _, p.size, path.1, path.2, at₀, setPut_self hp, rfl, hfrom, halnum, rfl, rfl⟩
    · obtain ⟨j, r, size, a, u, at', hr, hsize, hrest⟩ := h.metas name content hold hnot
      have hne : j ≠ i := by
        rintro rfl
        obtain rfl := Option.some.inj (hr.symm.trans hp)
        cases hsize.symm.trans hphase
      exact ⟨j, r, size, a, u, at', (setPut_ne hne).trans hr, hsize, hrest⟩

theorem Honest.step {a : Action} (h : Honest env s) (hok : Guarded env s a) (hstep : step env s a = some t) :
    Honest env t := by
  have hstored : Stored env t := h.stored.step hstep
  cases a with
  | tick now =>
      obtain ⟨-, rfl⟩ := step_tick hstep
      exact ⟨hstored, h.unique, h.puts, h.metas⟩
  | account a account =>
      obtain rfl := step_account hstep
      exact ⟨hstored, h.unique, h.puts, h.metas⟩
  | sign e =>
      obtain ⟨hmay, rfl⟩ := step_sign hstep
      refine ⟨hstored, ?_, fun j p hp => (h.puts j p hp).mono fun e' he' => List.mem_append_left _ he',
        fun path content hread hnot => ?_⟩
      · -- an id is given once
        have hfresh : ∀ {a u at₀ a' at'}, .upload a u at₀ = e → .upload a' u at' ∉ s.issued := by
          rintro a u at₀ a' at' rfl hmem
          have hall := List.all_eq_true.mp (Bool.and_eq_true_iff.mp hmay).2 _ hmem
          exact of_decide_eq_true hall rfl
        intro u a a' at₀ at' hmem hmem'
        rcases List.mem_append.mp hmem with hmem | hmem <;> rcases List.mem_append.mp hmem' with hmem' | hmem'
        · exact h.unique u a a' at₀ at' hmem hmem'
        · exact absurd hmem (hfresh (List.mem_singleton.mp hmem'))
        · exact absurd hmem' (hfresh (List.mem_singleton.mp hmem))
        · have heq := (List.mem_singleton.mp hmem).trans (List.mem_singleton.mp hmem').symm
          obtain ⟨rfl, -, rfl⟩ := Issued.upload.inj heq
          exact ⟨rfl, rfl⟩
      · obtain ⟨j, r, size, a, u, at₀, hr, hsize, hfrom, hrest⟩ := h.metas path content hread hnot
        exact ⟨j, r, size, a, u, at₀, hr, hsize, hfrom.mono fun e' he' => List.mem_append_left _ he', hrest⟩
  | put token name header =>
      rcases step_put hstep with ⟨e, rfl⟩ | ⟨data, hverify, rfl⟩
      · exact h.appendPut hstored trivial
      · obtain ⟨e, he, -, rfl, hkind, -, -⟩ := verify_issued (hok token name header rfl) hverify
        refine h.appendPut hstored ?_
        cases e with
        | file a c m n at₀ =>
            have hne : "file" = "upload" := hkind
            exact absurd hne (by decide)
        | upload a u at₀ => exact ⟨a, u, at₀, he, rfl⟩
  | openFile i =>
      obtain ⟨p, hp, hphase, ⟨r, -, rfl⟩ | ⟨path, hpath, rfl⟩⟩ := step_openFile hstep
      · exact h.setPut hstored hp (by simp [hphase]) trivial
      · obtain ⟨hget, hget', halnum⟩ := openPath_ok hpath
        obtain ⟨a, u, at₀, hfrom⟩ := h.asking hp hphase
        obtain ⟨ha, hu, -⟩ := hfrom.get
        have haccount : a = path.1 := Json.int.inj (Option.some.inj (ha.symm.trans hget))
        have hid : u = path.2 := Json.str.inj (Option.some.inj (hu.symm.trans hget'))
        subst haccount hid
        exact (h.create halnum).setPut hstored hp (by simp [hphase]) ⟨halnum, at₀, hfrom⟩
  | chunk i bytes flushed =>
      obtain ⟨p, path, file, hp, hphase, ⟨hlarge, rfl⟩ | ⟨hfits, rfl⟩⟩ := step_chunk hstep
      · exact ((h.flush hp hphase).unlink path).setPut hstored hp (by simp [hphase]) trivial
      · obtain ⟨-, -, hwritten, -, hsize, -⟩ := h.stored.writing hp hphase
        have htake : p.written + ((p.buffer ++ bytes).take flushed).length ≤ maxBytes := by
          rw [List.length_take, List.length_append]
          omega
        refine (h.writeAt hp hphase htake).setPut hstored hp (by simp [hphase]) ?_
        have hfrom := h.writing hp hphase
        rw [PutFrom]
        simp only [hphase]
        exact hfrom
  | finish i =>
      obtain ⟨p, path, file, hp, hphase, rfl⟩ := step_finish hstep
      exact h.finish hp hphase hstored
  | leave i =>
      obtain ⟨p, hp, ⟨hphase, rfl⟩ | ⟨path, file, hphase, rfl⟩⟩ := step_leave hstep
      · exact h.setPut hstored hp (by simp [hphase]) trivial
      · exact (h.flush hp hphase).setPut hstored hp (by simp [hphase]) trivial

theorem honest_run {now : Rat} {accounts : Int → Option Account}
    (h : Run (step env) (Guarded env) (.start now accounts) s) : Honest env s :=
  h.invariant (fun _ _ _ hx hok hstep => hx.step hok hstep) (honest_start now accounts)

theorem readUpload_of_read {fs : FileSystem Path} {now : Rat} {a : Int} {u : String} {bytes : Bytes} {p : Put} {at₀ : Rat}
    (hfrom : p.From s a u at₀) (halnum : isAlnum env u = true) (hread : fs.read (a, u) = some bytes)
    (hmeta : fs.read (metaPath (a, u)) = some (metaText env p.record)) (hnow : now ≤ (Issued.upload a u at₀).exp) :
    readUpload env fs now a u = .ok (p.fileName, bytes) := by
  have hexpired : metaExpired now (.obj p.record) = .ok false := by
    have hbind := hfrom.metaExpired env now
    rw [readMeta_metaText hfrom.record_exact, decide_eq_false (not_lt.mpr hnow)] at hbind
    exact hbind
  have hname : infoField "file_name" (.obj p.record) = .ok p.fileName := by
    simp [infoField, Put.record, Dict.get_cons]
  have hpath : uploadPath env a u = .ok (a, u) := if_pos halnum
  unfold readUpload
  simp only [hpath, hread, hmeta, readMeta_metaText hfrom.record_exact, hexpired, hname, bind, Except.bind,
    Bool.false_eq_true, if_false]

/-! ## What others do to an upload -/

/-- The upload of that name and its record are as they were. -/
structure Spares (path : Path) (fs fs' : FileSystem Path) : Prop where
  find   : fs'.find path = fs.find path
  upload : fs'.read path = fs.read path
  record : fs'.read (metaPath path) = fs.read (metaPath path)

theorem Spares.refl (path : Path) (fs : FileSystem Path) : Spares path fs fs := ⟨rfl, rfl, rfl⟩

theorem Spares.trans {path : Path} {fs fs' fs'' : FileSystem Path} (h : Spares path fs fs') (h' : Spares path fs' fs'') :
    Spares path fs fs'' :=
  ⟨h'.find.trans h.find, h'.upload.trans h.upload, h'.record.trans h.record⟩

section

variable {path path' : Path} {fs : FileSystem Path}

theorem read_create_ne (h : fs.Sound) {name name' : Path} (hne : name ≠ name') :
    (fs.create name).2.read name' = fs.read name' := by
  unfold FileSystem.read
  rw [FileSystem.find_create, if_neg hne]
  cases hfind : fs.find name' with
  | none => rfl
  | some file => exact congrArg some (FileSystem.data_create_ne (h.ne_create hne hfind))

theorem spares_create (h : fs.Sound) (halnum : isAlnum env path'.2 = true) (hne : path' ≠ path) :
    Spares path fs (fs.create path').2 where
  find := (FileSystem.find_create fs path' path).trans (if_neg hne)
  upload := read_create_ne h hne
  record := read_create_ne h fun heq => ne_metaPath halnum heq.symm

/-- Writing to a file that has neither of the two names. -/
theorem spares_writeAt {file pos : Nat} {bytes : Bytes} (h : ∀ name, fs.find name = some file → name = path')
    (halnum : isAlnum env path'.2 = true) (hne : path' ≠ path) : Spares path fs (fs.writeAt file pos bytes) := by
  have hread : ∀ name, name ≠ path' → (fs.writeAt file pos bytes).read name = fs.read name := by
    intro name hname
    unfold FileSystem.read
    rw [FileSystem.find_writeAt]
    cases hfind : fs.find name with
    | none => rfl
    | some file' =>
        refine congrArg some (FileSystem.data_writeAt_ne ?_)
        rintro rfl
        exact hname (h name hfind)
  exact ⟨rfl, hread path (Ne.symm hne), hread _ (ne_metaPath halnum)⟩

theorem spares_unlink (halnum : isAlnum env path'.2 = true) (hne : path' ≠ path) : Spares path fs (fs.unlink path') where
  find := (FileSystem.find_unlink fs path' path).trans (if_neg hne)
  upload := FileSystem.read_unlink_ne hne
  record := FileSystem.read_unlink_ne fun heq => ne_metaPath halnum heq.symm

theorem spares_writeMeta (h : fs.Sound) (halnum : isAlnum env path.2 = true) (hne : path' ≠ path) (text : Bytes) :
    Spares path fs (fs.write (metaPath path') text) where
  find := (FileSystem.find_write fs _ text path).trans (if_neg (ne_metaPath halnum))
  upload := h.read_write_ne (ne_metaPath halnum)
  record := h.read_write_ne fun heq => hne (metaPath_inj heq)

/-- A purge that takes neither name away, because no expired record is beside this upload. -/
theorem spares_purge {now : Rat} (halnum : isAlnum env path.2 = true)
    (h : ∀ name content, fs.read name = some content → isMeta name = true →
      (readMeta env content).bind (metaExpired now) = .ok true →
        name ≠ metaPath path ∧ isAlnum env (dataPath name).2 = true) :
    Spares path fs (purgeExpired env now fs).1 := by
  suffices hgo : Spares path fs (purgeExpired env now fs).1 ∧
      ∀ name content, (purgeExpired env now fs).1.read name = some content → fs.read name = some content from hgo.1
  refine purgeFrom_induction
    (P := fun fs' => Spares path fs fs' ∧ ∀ name content, fs'.read name = some content → fs.read name = some content)
    (fun fs' name content hname hfs' hread hexpired => ?_) ⟨.refl path fs, fun _ _ hread => hread⟩
  · obtain ⟨hspares, hless⟩ := hfs'
    have hmeta := (List.mem_filter.mp hname).2
    obtain ⟨hne, hdata⟩ := h name content (hless name content hread) hmeta hexpired
    have hpath : dataPath name ≠ path := by
      rintro rfl
      exact hne (metaPath_dataPath hmeta).symm
    have hname' : name ≠ path := by
      rintro rfl
      exact Bool.false_ne_true ((isAlnum_of_isMeta hmeta).symm.trans halnum)
    have hfirst : Spares path fs' (fs'.unlink (dataPath name)) := spares_unlink hdata hpath
    have hsecond : Spares path (fs'.unlink (dataPath name)) ((fs'.unlink (dataPath name)).unlink name) :=
      ⟨(FileSystem.find_unlink _ _ _).trans (if_neg hname'), FileSystem.read_unlink_ne hname',
        FileSystem.read_unlink_ne hne⟩
    refine ⟨(hspares.trans hfirst).trans hsecond, fun name' content' hread' => hless name' content' ?_⟩
    exact (FileSystem.of_read_unlink (FileSystem.of_read_unlink hread').2).2

end

/-- The purge at the end of a PUT leaves an upload that has not expired. -/
theorem Honest.purge_spares (h : Honest env s) {p : Put} {path path' : Path} {file : Nat} (hp : s.puts[i]? = some p)
    (hphase : p.phase = .writing path' file) (halnum : isAlnum env path.2 = true) {at₀ : Rat}
    (hissued : .upload path.1 path.2 at₀ ∈ s.issued) (hnow : s.now ≤ (Issued.upload path.1 path.2 at₀).exp) :
    Spares path (s.closed env p path' file) (purgeExpired env s.now (s.closed env p path' file)).1 := by
  -- a record beside this upload is of the same token, and has not expired
  have hfresh : ∀ {q : Put} {a : Int} {u : String} {at' : Rat}, q.From s a u at' → metaPath (a, u) = metaPath path →
      (readMeta env (metaText env q.record)).bind (metaExpired s.now) ≠ .ok true := by
    rintro q a u at' hfrom heq hexpired
    have hpair : ((a, u) : Path) = path := metaPath_inj heq
    subst hpair
    obtain ⟨-, rfl⟩ := h.unique u a a at' at₀ hfrom.1 hissued
    rw [hfrom.metaExpired, decide_eq_false (not_lt.mpr hnow)] at hexpired
    cases hexpired
  refine spares_purge halnum fun name content hread hmeta hexpired => ?_
  rcases closed_read h hp hphase (isAlnum_of_isMeta hmeta) hread with ⟨rfl, rfl⟩ | hold
  · obtain ⟨halnum', at', hfrom⟩ := h.writing hp hphase
    refine ⟨fun heq => hfresh hfrom heq hexpired, ?_⟩
    rw [dataPath_metaPath]
    exact halnum'
  · obtain ⟨j, q, size, a, u, at', -, -, hfrom, halnum', rfl, rfl⟩ := h.metas name content hold (isAlnum_of_isMeta hmeta)
    refine ⟨fun heq => hfresh hfrom heq hexpired, ?_⟩
    rw [dataPath_metaPath]
    exact halnum'

/-! ## A PUT alone at its name -/

/-- No token is forged, and no other PUT opens the file of this name. -/
def Alone (env : Env) (i : Nat) (path : Path) (s : State) (a : Action) : Prop :=
  Guarded env s a ∧ ∀ (j : Nat) (p : Put), j ≠ i → a = .openFile j → s.puts[j]? = some p →
    openPath env s.accounts p.data ≠ .ok path

/-- What is under the name, by how far the PUT is; nothing is said of an upload that has expired. -/
def Held (env : Env) (s : State) (p : Put) (path : Path) (exp : Int) : Prop :=
  match p.phase with
  | .asking => False
  | .writing path' file =>
      path' = path ∧ (s.now ≤ exp → s.files.find path = some file ∧
        ∃ content, s.files.read path = some content ∧ content ++ p.buffer = p.body ∧ content.length = p.written)
  | .stored size =>
      size = p.body.length ∧ p.body.length ≤ maxBytes ∧ (s.now ≤ exp →
        s.files.read path = some p.body ∧ s.files.read (metaPath path) = some (metaText env p.record))
  | .refused r =>
      r = .http 413 "upload is larger than 50 MB" ∧ maxBytes < p.body.length ∧ s.files.find path = none
  | .gone => True

structure Watched (env : Env) (i : Nat) (path : Path) (at₀ : Rat) (s : State) : Prop where
  honest : Honest env s
  alnum  : isAlnum env path.2 = true
  alone  : ∀ (j : Nat) (q : Put) (file : Nat), j ≠ i → s.puts[j]? = some q → q.phase ≠ .writing path file
  own    : ∃ p, s.puts[i]? = some p ∧ p.From s path.1 path.2 at₀ ∧ Held env s p path (Issued.upload path.1 path.2 at₀).exp

variable {path : Path} {at₀ : Rat}

/-- What others do leaves the upload. -/
theorem Held.frame {p : Put} {exp : Int} (h : Held env s p path exp) (hnow : s.now ≤ t.now)
    (hspares : s.now ≤ exp → Spares path s.files t.files)
    (hnone : s.files.find path = none → t.files.find path = none) : Held env t p path exp := by
  unfold Held at h ⊢
  cases hphase : p.phase with
  | asking =>
      rw [hphase] at h
      exact h
  | writing path' file =>
      rw [hphase] at h
      refine ⟨h.1, fun ht => ?_⟩
      have hexp := le_trans hnow ht
      obtain ⟨hfind, content, hread, hrest⟩ := h.2 hexp
      exact ⟨(hspares hexp).find.trans hfind, content, (hspares hexp).upload.trans hread, hrest⟩
  | stored size =>
      rw [hphase] at h
      refine ⟨h.1, h.2.1, fun ht => ?_⟩
      have hexp := le_trans hnow ht
      obtain ⟨hread, hrecord⟩ := h.2.2 hexp
      exact ⟨(hspares hexp).upload.trans hread, (hspares hexp).record.trans hrecord⟩
  | refused r =>
      rw [hphase] at h
      exact ⟨h.1, h.2.1, hnone h.2.2⟩
  | gone => trivial

/-- A step of another leaves the watched PUT and its upload. -/
theorem Watched.frame (h : Watched env i path at₀ s) (hhonest : Honest env t) (hissued : ∀ e ∈ s.issued, e ∈ t.issued)
    (hputs : ∀ (j : Nat) (q : Put) (file : Nat), j ≠ i → t.puts[j]? = some q → q.phase ≠ .writing path file)
    (hown : ∀ p, s.puts[i]? = some p → t.puts[i]? = some p) (hnow : s.now ≤ t.now)
    (hspares : s.now ≤ (Issued.upload path.1 path.2 at₀).exp → Spares path s.files t.files)
    (hnone : s.files.find path = none → t.files.find path = none) : Watched env i path at₀ t := by
  obtain ⟨p, hp, hfrom, hheld⟩ := h.own
  exact ⟨hhonest, h.alnum, hputs, p, hown p hp, hfrom.mono hissued, hheld.frame hnow hspares hnone⟩

theorem Watched.setPut_alone (h : Watched env i path at₀ s) {j : Nat} {p : Put}
    (hp : ∀ file, p.phase ≠ .writing path file) (k : Nat) (q : Put) (file : Nat) (hk : k ≠ i)
    (hq : (s.setPut j p).puts[k]? = some q) : q.phase ≠ .writing path file := by
  rcases setPut_puts hq with ⟨-, rfl⟩ | ⟨-, hq⟩
  · exact hp file
  · exact h.alone k q file hk hq

theorem purge_find_none {now : Rat} {fs : FileSystem Path} (h : fs.find path = none) :
    (purgeExpired env now fs).1.find path = none := by
  cases hfind : (purgeExpired env now fs).1.find path with
  | none => rfl
  | some file => exact absurd ((purge_fewer env now fs).2 path file hfind) (by simp [h])

/-- Another PUT takes a step. -/
theorem Watched.other (h : Watched env i path at₀ s) {a : Action} (hok : Alone env i path s a)
    (hstep : step env s a = some t) (hother : ∀ j, a = .openFile j ∨ (∃ bytes n, a = .chunk j bytes n) ∨ a = .finish j ∨
      a = .leave j → j ≠ i) : Watched env i path at₀ t := by
  have hhonest : Honest env t := h.honest.step hok.1 hstep
  have hsound := h.honest.stored.sound
  cases a with
  | tick now =>
      obtain ⟨hle, rfl⟩ := step_tick hstep
      exact h.frame hhonest (fun _ he => he) h.alone (fun _ hp => hp) hle (fun _ => .refl _ _) id
  | account a account =>
      obtain rfl := step_account hstep
      exact h.frame hhonest (fun _ he => he) h.alone (fun _ hp => hp) le_rfl (fun _ => .refl _ _) id
  | sign e =>
      obtain ⟨-, rfl⟩ := step_sign hstep
      exact h.frame hhonest (fun _ he => List.mem_append_left _ he) h.alone (fun _ hp => hp) le_rfl
        (fun _ => .refl _ _) id
  | put token name header =>
      rcases step_put hstep with ⟨e, rfl⟩ | ⟨data, -, rfl⟩
      all_goals
        refine h.frame hhonest (fun _ he => he) (fun j q file hj hq => ?_) (fun p hp => ?_) le_rfl (fun _ => .refl _ _) id
        · rcases append_puts hq with ⟨-, rfl⟩ | hq
          · exact fun hphase => nomatch hphase
          · exact h.alone j q file hj hq
        · exact (List.getElem?_append_left (List.getElem?_eq_some_iff.mp hp).1).trans hp
  | openFile j =>
      have hj := hother j (.inl rfl)
      obtain ⟨p, hp, hphase, ⟨r, -, rfl⟩ | ⟨path', hpath, rfl⟩⟩ := step_openFile hstep
      · exact h.frame hhonest (fun _ he => he) (h.setPut_alone (by simp)) (fun _ hq => (setPut_ne hj.symm).trans hq) le_rfl
          (fun _ => .refl _ _) id
      · have hne : path' ≠ path := by
          rintro rfl
          exact hok.2 j p hj rfl hp hpath
        obtain ⟨-, -, halnum⟩ := openPath_ok hpath
        refine h.frame hhonest (fun _ he => he) (h.setPut_alone fun file heq => hne (Phase.writing.inj heq).1)
          (fun _ hq => (setPut_ne hj.symm).trans hq) le_rfl (fun _ => spares_create hsound halnum hne) fun hnone => ?_
        exact (FileSystem.find_create _ _ _).trans ((if_neg hne).trans hnone)
  | chunk j bytes flushed =>
      have hj := hother j (.inr (.inl ⟨bytes, flushed, rfl⟩))
      obtain ⟨p, path', file, hp, hphase, ⟨hlarge, rfl⟩ | ⟨hfits, rfl⟩⟩ := step_chunk hstep
      all_goals
        obtain ⟨halnum, -, -, -, -, hname⟩ := h.honest.stored.writing hp hphase
        have hne : path' ≠ path := by
          rintro rfl
          exact h.alone j p file hj hp hphase
      · refine h.frame hhonest (fun _ he => he) (h.setPut_alone (by simp)) (fun _ hq => (setPut_ne hj.symm).trans hq)
          le_rfl (fun _ => (spares_writeAt hname halnum hne).trans (spares_unlink halnum hne)) fun hnone => ?_
        exact (FileSystem.find_unlink _ _ _).trans ((if_neg hne).trans hnone)
      · refine h.frame hhonest (fun _ he => he) (h.setPut_alone fun file' heq => ?_)
          (fun _ hq => (setPut_ne hj.symm).trans hq) le_rfl (fun _ => spares_writeAt hname halnum hne) id
        simp only [hphase] at heq
        exact hne (Phase.writing.inj heq).1
  | finish j =>
      have hj := hother j (.inr (.inr (.inl rfl)))
      obtain ⟨p, path', file, hp, hphase, rfl⟩ := step_finish hstep
      obtain ⟨halnum, -, -, -, -, hname⟩ := h.honest.stored.writing hp hphase
      have hne : path' ≠ path := by
        rintro rfl
        exact h.alone j p file hj hp hphase
      have hflush := h.honest.flush hp hphase
      rw [finish_stored h.honest hp hphase] at hhonest ⊢
      refine h.frame hhonest (fun _ he => he) (h.setPut_alone (by simp)) (fun _ hq => (setPut_ne hj.symm).trans hq) le_rfl
        (fun hnow => ?_) fun hnone => purge_find_none ?_
      · obtain ⟨_, -, hfrom, -⟩ := h.own
        exact ((spares_writeAt hname halnum hne).trans (spares_writeMeta hflush.stored.sound h.alnum hne _)).trans
          (h.honest.purge_spares hp hphase h.alnum hfrom.1 hnow)
      · exact (FileSystem.find_write _ _ _ _).trans ((if_neg (ne_metaPath h.alnum)).trans hnone)
  | leave j =>
      have hj := hother j (.inr (.inr (.inr rfl)))
      obtain ⟨p, hp, ⟨hphase, rfl⟩ | ⟨path', file, hphase, rfl⟩⟩ := step_leave hstep
      · exact h.frame hhonest (fun _ he => he) (h.setPut_alone (by simp)) (fun _ hq => (setPut_ne hj.symm).trans hq) le_rfl
          (fun _ => .refl _ _) id
      · obtain ⟨halnum, -, -, -, -, hname⟩ := h.honest.stored.writing hp hphase
        have hne : path' ≠ path := by
          rintro rfl
          exact h.alone j p file hj hp hphase
        exact h.frame hhonest (fun _ he => he) (h.setPut_alone (by simp)) (fun _ hq => (setPut_ne hj.symm).trans hq) le_rfl
          (fun _ => spares_writeAt hname halnum hne) id

/-- The watched PUT, changed together with its files. -/
theorem Watched.change (h : Watched env i path at₀ s) {q : Put} {files : FileSystem Path}
    (hhonest : Honest env { s.setPut i q with files := files }) (hfrom : q.From s path.1 path.2 at₀)
    (hheld : Held env { s.setPut i q with files := files } q path (Issued.upload path.1 path.2 at₀).exp) :
    Watched env i path at₀ { s.setPut i q with files := files } := by
  obtain ⟨p, hp, -, -⟩ := h.own
  refine ⟨hhonest, h.alnum, fun j r file hj hr => ?_, q, setPut_self hp, hfrom, hheld⟩
  exact h.alone j r file hj ((setPut_ne hj).symm.trans hr)

theorem Watched.writing (h : Watched env i path at₀ s) {p : Put} {path' : Path} {file : Nat} (hp : s.puts[i]? = some p)
    (hphase : p.phase = .writing path' file) :
    path' = path ∧ p.From s path.1 path.2 at₀ ∧ (s.now ≤ (Issued.upload path.1 path.2 at₀).exp →
      s.files.find path = some file ∧ ∃ content, s.files.read path = some content ∧ content ++ p.buffer = p.body ∧
        content.length = p.written) := by
  obtain ⟨p', hp', hfrom, hheld⟩ := h.own
  obtain rfl := Option.some.inj (hp'.symm.trans hp)
  rw [Held, hphase] at hheld
  exact ⟨hheld.1, hfrom, hheld.2⟩

/-- What is written at the end of a file is read after what was there. -/
theorem read_writeAt_end {fs : FileSystem Path} {file pos : Nat} {content bytes : Bytes} (hfind : fs.find path = some file)
    (hread : fs.read path = some content) (hpos : content.length = pos) :
    (fs.writeAt file pos bytes).read path = some (content ++ bytes) := by
  have hcontent : fs.data file = content := by
    rw [FileSystem.read, hfind] at hread
    exact Option.some.inj hread
  rw [FileSystem.read, FileSystem.find_writeAt, hfind, Option.map_some, FileSystem.data_writeAt, hcontent, ← hpos, splice_end]

theorem Watched.step {a : Action} (h : Watched env i path at₀ s) (hok : Alone env i path s a)
    (hstep : Files.step env s a = some t) : Watched env i path at₀ t := by
  have hhonest : Honest env t := h.honest.step hok.1 hstep
  by_cases hown : ∃ j, (a = .openFile j ∨ (∃ bytes n, a = .chunk j bytes n) ∨ a = .finish j ∨ a = .leave j) ∧ j = i
  · obtain ⟨j, ha, rfl⟩ := hown
    rcases ha with rfl | ⟨bytes, flushed, rfl⟩ | rfl | rfl
    · -- the file is open
      obtain ⟨p, hp, hphase, -⟩ := step_openFile hstep
      obtain ⟨p', hp', -, hheld⟩ := h.own
      obtain rfl := Option.some.inj (hp'.symm.trans hp)
      rw [Held, hphase] at hheld
      exact hheld.elim
    · obtain ⟨p, path', file, hp, hphase, ⟨hlarge, rfl⟩ | ⟨hfits, rfl⟩⟩ := step_chunk hstep
      all_goals
        obtain ⟨rfl, hfrom, hfile⟩ := h.writing hp hphase
        obtain ⟨-, -, -, hbody, -, -⟩ := h.honest.stored.writing hp hphase
      · refine h.change hhonest hfrom ⟨rfl, ?_, (FileSystem.find_unlink _ _ _).trans (if_pos rfl)⟩
        rw [List.length_append, hbody]
        exact hlarge
      · refine h.change hhonest hfrom ?_
        rw [Held]
        simp only [hphase]
        refine ⟨trivial, fun hnow => ?_⟩
        obtain ⟨hfind, content, hread, hcontent, hlength⟩ := hfile hnow
        refine ⟨hfind, _, read_writeAt_end hfind hread hlength, ?_, ?_⟩
        · rw [List.append_assoc, List.take_append_drop, ← List.append_assoc, hcontent]
        · rw [List.length_append, hlength]
    · obtain ⟨p, path', file, hp, hphase, rfl⟩ := step_finish hstep
      obtain ⟨rfl, hfrom, hfile⟩ := h.writing hp hphase
      obtain ⟨halnum, -, -, hbody, hsize, -⟩ := h.honest.stored.writing hp hphase
      have hflush := h.honest.flush hp hphase
      rw [finish_stored h.honest hp hphase] at hhonest ⊢
      refine h.change hhonest hfrom ⟨hbody.symm, hbody ▸ hsize, fun hnow => ?_⟩
      obtain ⟨hfind, content, hread, hcontent, hlength⟩ := hfile hnow
      have hspares := h.honest.purge_spares hp hphase halnum hfrom.1 hnow
      refine ⟨hspares.upload.trans ?_, hspares.record.trans (FileSystem.read_write _ _ _)⟩
      rw [← hcontent]
      exact (hflush.stored.sound.read_write_ne (ne_metaPath halnum)).trans (read_writeAt_end hfind hread hlength)
    · obtain ⟨p, hp, ⟨hphase, rfl⟩ | ⟨path', file, hphase, rfl⟩⟩ := step_leave hstep
      · obtain ⟨p', hp', hfrom, -⟩ := h.own
        obtain rfl := Option.some.inj (hp'.symm.trans hp)
        exact h.change hhonest hfrom trivial
      · obtain ⟨-, hfrom, -⟩ := h.writing hp hphase
        exact h.change hhonest hfrom trivial
  · exact h.other hok hstep fun j ha hj => hown ⟨j, ha, hj⟩

/-- A PUT that has just opened its file, with nobody else at the name. -/
theorem watched_open (h : Honest env s) (hstep : step env s (.openFile i) = some t) (hok : Guarded env s (.openFile i))
    {p : Put} {file : Nat} (hp : t.puts[i]? = some p) (hphase : p.phase = .writing path file)
    (halone : ∀ (j : Nat) (q : Put) (file : Nat), j ≠ i → t.puts[j]? = some q → q.phase ≠ .writing path file) :
    ∃ at₀, Watched env i path at₀ t := by
  have hhonest : Honest env t := h.step hok hstep
  obtain ⟨halnum, at₀, hfrom⟩ := hhonest.writing hp hphase
  refine ⟨at₀, hhonest, halnum, halone, p, hp, hfrom, ?_⟩
  obtain ⟨p₀, hp₀, hphase₀, ⟨r, -, rfl⟩ | ⟨path', -, rfl⟩⟩ := step_openFile hstep
  · obtain rfl := Option.some.inj (hp.symm.trans (setPut_self hp₀))
    cases hphase
  · obtain rfl := Option.some.inj (hp.symm.trans (setPut_self hp₀))
    obtain ⟨rfl, rfl⟩ := Phase.writing.inj hphase
    obtain ⟨hwritten, hbuffer, -, hbody⟩ := h.stored.asking hp₀ hphase₀
    have hfind : (s.files.create path').2.find path' = some (s.files.create path').1 :=
      (FileSystem.find_create _ _ _).trans (if_pos rfl)
    refine ⟨rfl, fun _ => ⟨hfind, [], ?_, ?_, hwritten.symm⟩⟩
    · show (s.files.create path').2.read path' = some []
      rw [FileSystem.read, hfind, Option.map_some, FileSystem.data_create]
    · exact hbuffer.trans hbody.symm

theorem watched_run {now : Rat} {accounts : Int → Option Account} {s₀ s₁ : State}
    (h₀ : Run (step env) (Guarded env) (.start now accounts) s₀) (hopen : step env s₀ (.openFile i) = some s₁)
    {p₁ : Put} {file : Nat} (hp₁ : s₁.puts[i]? = some p₁) (hphase₁ : p₁.phase = .writing path file)
    (halone : ∀ (j : Nat) (q : Put) (file : Nat), j ≠ i → s₁.puts[j]? = some q → q.phase ≠ .writing path file)
    (h : Run (step env) (Alone env i path) s₁ t) : ∃ at₀, Watched env i path at₀ t := by
  have hok : Guarded env s₀ (.openFile i) := fun _ _ _ heq => by cases heq
  obtain ⟨at₀, hwatched⟩ := watched_open (honest_run h₀) hopen hok hp₁ hphase₁ halone
  exact ⟨at₀, h.invariant (fun _ _ _ hx hok hstep => hx.step hok hstep) hwatched⟩

/-- An answered PUT can be read until its token expires. -/
theorem Watched.stored (h : Watched env i path at₀ s) {p : Put} {size : Nat} (hp : s.puts[i]? = some p)
    (hphase : p.phase = .stored size) : size = p.body.length ∧ p.body.length ≤ maxBytes ∧
      ∃ exp : Int, Dict.get "x" p.data = some (.int exp) ∧ (s.now ≤ exp →
        readUpload env s.files s.now path.1 path.2 = .ok (p.fileName, p.body)) := by
  obtain ⟨p', hp', hfrom, hheld⟩ := h.own
  obtain rfl := Option.some.inj (hp'.symm.trans hp)
  rw [Held, hphase] at hheld
  obtain ⟨hsize, hbound, hread⟩ := hheld
  refine ⟨hsize, hbound, _, hfrom.get.2.2, fun hnow => ?_⟩
  obtain ⟨hcontent, hrecord⟩ := hread hnow
  exact readUpload_of_read hfrom h.alnum hcontent hrecord hnow

theorem Watched.refused (h : Watched env i path at₀ s) {p : Put} {r : Refusal} (hp : s.puts[i]? = some p)
    (hphase : p.phase = .refused r) :
    r = .http 413 "upload is larger than 50 MB" ∧ maxBytes < p.body.length ∧ s.files.read path = none := by
  obtain ⟨p', hp', -, hheld⟩ := h.own
  obtain rfl := Option.some.inj (hp'.symm.trans hp)
  rw [Held, hphase] at hheld
  obtain ⟨hr, hlarge, hnone⟩ := hheld
  refine ⟨hr, hlarge, ?_⟩
  rw [FileSystem.read, hnone, Option.map_none]

/-- **What an upload leaves.** A PUT opens its file while no other PUT writes under the name, and no other opens it
    later; no token is forged. Whatever else happens, once the PUT is answered: a body of at most fifty megabytes can be
    read, whole and under the name it was given, until the token expires; a larger one was refused, and there is
    nothing under the name. -/
theorem upload_kept {now : Rat} {accounts : Int → Option Account} {s₀ s₁ : State}
    (h₀ : Run (step env) (Guarded env) (.start now accounts) s₀) {i : Nat} (hopen : step env s₀ (.openFile i) = some s₁)
    {p₁ : Put} {path : Path} {file : Nat} (hp₁ : s₁.puts[i]? = some p₁) (hphase₁ : p₁.phase = .writing path file)
    (halone : ∀ (j : Nat) (q : Put) (file : Nat), j ≠ i → s₁.puts[j]? = some q → q.phase ≠ .writing path file)
    (h : Run (step env) (Alone env i path) s₁ t) {p : Put} (hp : t.puts[i]? = some p) :
    (∀ size, p.phase = .stored size → size = p.body.length ∧ p.body.length ≤ maxBytes ∧
        ∃ exp : Int, Dict.get "x" p.data = some (.int exp) ∧ (t.now ≤ exp →
          readUpload env t.files t.now path.1 path.2 = .ok (p.fileName, p.body))) ∧
      ∀ r, p.phase = .refused r → r = .http 413 "upload is larger than 50 MB" ∧ maxBytes < p.body.length ∧
        t.files.read path = none := by
  obtain ⟨at₀, hend⟩ := watched_run h₀ hopen hp₁ hphase₁ halone h
  exact ⟨fun size hphase => hend.stored hp hphase, fun r hphase => hend.refused hp hphase⟩

/-! ### One upload -/

theorem uploadToken_unforged : Unforged sampleEnv signedState (sampleUpload.token sampleEnv) := by
  intro body key _ hsplit
  have hlast : rsplit (sampleUpload.token sampleEnv) = some (tokenBody sampleEnv sampleUpload.signed, _) :=
    rsplit_append (fun hc => (mem_hexdigest hc).1 rfl) _
  exact ⟨sampleUpload, List.mem_singleton_self _, (Prod.mk.inj (Option.some.inj (hsplit.symm.trans hlast))).1⟩

theorem askingState_run : Run (step sampleEnv) (Guarded sampleEnv) (.start 1000 sampleAccounts) askingState := by
  have hsigned : Run (step sampleEnv) (Guarded sampleEnv) (.start 1000 sampleAccounts) signedState :=
    .single _ (fun _ _ _ heq => by cases heq) sign_step
  refine .tail _ hsigned (fun token name header heq => ?_) asking_step
  rw [← (Action.put.inj heq).1]
  exact uploadToken_unforged

theorem chunkState_honest : Honest sampleEnv chunkState := by
  have hopen : Run (step sampleEnv) (Guarded sampleEnv) (.start 1000 sampleAccounts) openState :=
    .tail _ askingState_run (fun _ _ _ heq => by cases heq) open_step
  exact honest_run (.tail _ hopen (fun _ _ _ heq => by cases heq) chunk_step)

/-- The PUT as it is answered. -/
def storedPut : Put := { samplePut with phase := .stored 3 }

def storedState : State :=
  { chunkState.setPut 0 storedPut with
    files := (purgeExpired sampleEnv 1000 (chunkState.closed sampleEnv samplePut (7, "9f3c") 0)).1 }

theorem finish_step : step sampleEnv chunkState (.finish 0) = some storedState := by
  have hput : chunkState.puts[0]? = some samplePut := rfl
  have hphase : samplePut.phase = .writing (7, "9f3c") 0 := rfl
  rw [step, hput]
  simp only [hphase]
  rw [finish_stored chunkState_honest hput hphase]
  rfl

theorem storedState_alone : Run (step sampleEnv) (Alone sampleEnv 0 (7, "9f3c")) openState storedState := by
  have hchunk : Run (step sampleEnv) (Alone sampleEnv 0 (7, "9f3c")) openState chunkState :=
    .single _ ⟨fun _ _ _ heq => (by cases heq), fun _ _ _ heq => (by cases heq)⟩ chunk_step
  exact .tail _ hchunk ⟨fun _ _ _ heq => (by cases heq), fun _ _ _ heq => (by cases heq)⟩ finish_step

theorem openState_alone (j : Nat) (q : Put) (file : Nat) (hj : j ≠ 0) (hq : openState.puts[j]? = some q) :
    q.phase ≠ .writing (7, "9f3c") file := by
  obtain ⟨j, rfl⟩ := Nat.exists_eq_succ_of_ne_zero hj
  cases hq

theorem storedState_puts : storedState.puts[0]? = some storedPut := rfl

theorem upload_kept_sample :
    (∀ size, storedPut.phase = .stored size → size = storedPut.body.length ∧ storedPut.body.length ≤ maxBytes ∧
        ∃ exp : Int, Dict.get "x" storedPut.data = some (.int exp) ∧ (storedState.now ≤ exp →
          readUpload sampleEnv storedState.files storedState.now 7 "9f3c" = .ok (storedPut.fileName, storedPut.body))) ∧
      ∀ r, storedPut.phase = .refused r → r = .http 413 "upload is larger than 50 MB" ∧
        maxBytes < storedPut.body.length ∧ storedState.files.read (7, "9f3c") = none :=
  upload_kept askingState_run open_step rfl rfl openState_alone storedState_alone storedState_puts

theorem storedState_run : Run (step sampleEnv) (Guarded sampleEnv) (.start 1000 sampleAccounts) storedState :=
  (Run.tail _ askingState_run (fun _ _ _ heq => by cases heq) open_step).trans
    (storedState_alone.mono fun _ _ h => h.1)

theorem storedState_read :
    readUpload sampleEnv storedState.files storedState.now 7 "9f3c" = .ok (storedPut.fileName, storedPut.body) := by
  obtain ⟨at₀, hend⟩ := watched_run askingState_run open_step rfl rfl openState_alone storedState_alone
  obtain ⟨-, -, exp, hexp, hread⟩ := hend.stored storedState_puts rfl
  have hget : Dict.get "x" storedPut.data = some (.int sampleUpload.exp) := get_exp sampleUpload
  obtain rfl := Json.int.inj (Option.some.inj (hexp.symm.trans hget))
  exact hread (by decide +kernel)

end MyPerson.Files
