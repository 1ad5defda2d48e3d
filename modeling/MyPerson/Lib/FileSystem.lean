import MyPerson.Lib.Dict
import Mathlib.Logic.Function.Basic
import Mathlib.Data.List.Basic

/-!
# `Lib.FileSystem` — names and files

A directory gives names to files, and a file goes on without its name while somebody writes to it. Opening a name
for writing empties the file that is there or makes a new one; each writer then writes at its own position, so
two of them write over each other, and a position past the end leaves zeros before it.

## Contents
- `create`, `writeAt`, `unlink`, `read`, `write`;
- `Sound`: no file has two names, and every operation keeps it;
- what each operation does to the file of a name; `length_splice`, `splice_origin`.
-/

namespace Lib

/-- The names of a directory, and the files: those with a number below `next` have been made. -/
structure FileSystem (κ : Type*) where
  entries : List (κ × Nat)
  data    : Nat → List UInt8
  next    : Nat

/-- Bytes written at a position of a file. -/
def splice (content : List UInt8) (pos : Nat) (bytes : List UInt8) : List UInt8 :=
  (content ++ List.replicate (pos - content.length) 0).take pos ++ bytes ++ content.drop (pos + bytes.length)

theorem length_splice (content : List UInt8) (pos : Nat) (bytes : List UInt8) :
    (splice content pos bytes).length = max content.length (pos + bytes.length) := by
  simp only [splice, List.length_append, List.length_take, List.length_replicate, List.length_drop]
  omega

/-- Written at its end, a file grows by the bytes. -/
theorem splice_end (content bytes : List UInt8) : splice content content.length bytes = content ++ bytes := by
  simp [splice]

/-- A byte of a file after it is written to: one that was there, a zero before the position, or one of those written. -/
theorem splice_origin {content bytes : List UInt8} {pos k : Nat} {b : UInt8}
    (h : (splice content pos bytes)[k]? = some b) :
    content[k]? = some b ∨ b = 0 ∨ pos ≤ k ∧ bytes[k - pos]? = some b := by
  have hlength : ((content ++ List.replicate (pos - content.length) 0).take pos).length = pos := by
    rw [List.length_take, List.length_append, List.length_replicate]
    omega
  unfold splice at h
  rcases Nat.lt_or_ge k pos with hbefore | hpos
  · rw [List.append_assoc, List.getElem?_append_left (hlength.symm ▸ hbefore), List.getElem?_take_of_lt hbefore] at h
    rcases Nat.lt_or_ge k content.length with hold | hgap
    · rw [List.getElem?_append_left hold] at h
      exact .inl h
    · rw [List.getElem?_append_right hgap] at h
      exact .inr (.inl (List.eq_of_mem_replicate (List.mem_of_getElem? h)))
  · rcases Nat.lt_or_ge k (pos + bytes.length) with hbytes | hafter
    · rw [List.append_assoc, List.getElem?_append_right (hlength.symm ▸ hpos), hlength,
        List.getElem?_append_left (by omega)] at h
      exact .inr (.inr ⟨hpos, h⟩)
    · have hsum : (List.take pos (content ++ List.replicate (pos - content.length) 0) ++ bytes).length =
          pos + bytes.length := by rw [List.length_append, hlength]
      rw [List.getElem?_append_right (hsum.symm ▸ hafter), hsum, List.getElem?_drop, Nat.add_sub_of_le hafter] at h
      exact .inl h

namespace FileSystem

variable {κ : Type*} [DecidableEq κ]

def empty : FileSystem κ := ⟨[], fun _ => [], 0⟩

/-- The file of a name. -/
def find (fs : FileSystem κ) (name : κ) : Option Nat := Dict.get name fs.entries

/-- `open(name, "wb")`: the file that the name has, emptied, or a new one. -/
def create (fs : FileSystem κ) (name : κ) : Nat × FileSystem κ :=
  match fs.find name with
  | some r => (r, ⟨fs.entries, Function.update fs.data r [], fs.next⟩)
  | none => (fs.next, ⟨Dict.set name fs.next fs.entries, Function.update fs.data fs.next [], fs.next + 1⟩)

def writeAt (fs : FileSystem κ) (r pos : Nat) (bytes : List UInt8) : FileSystem κ :=
  ⟨fs.entries, Function.update fs.data r (splice (fs.data r) pos bytes), fs.next⟩

def unlink (fs : FileSystem κ) (name : κ) : FileSystem κ := ⟨Dict.erase name fs.entries, fs.data, fs.next⟩

def read (fs : FileSystem κ) (name : κ) : Option (List UInt8) := (fs.find name).map fs.data

/-- The name made to have a file of these bytes. -/
def write (fs : FileSystem κ) (name : κ) (bytes : List UInt8) : FileSystem κ :=
  (fs.create name).2.writeAt (fs.create name).1 0 bytes

/-- No file has two names, and every file that has one has been made. -/
structure Sound (fs : FileSystem κ) : Prop where
  apart : ∀ {name name' : κ} {r : Nat}, fs.find name = some r → fs.find name' = some r → name = name'
  made  : ∀ {name : κ} {r : Nat}, fs.find name = some r → r < fs.next

theorem sound_empty : Sound (empty : FileSystem κ) :=
  ⟨fun h _ => (nomatch h), fun h => (nomatch h)⟩

variable {fs : FileSystem κ} {name name' : κ} {r pos : Nat} {bytes : List UInt8}

/-! ## Names -/

@[simp] theorem find_writeAt (fs : FileSystem κ) (r pos : Nat) (bytes : List UInt8) (name : κ) :
    (fs.writeAt r pos bytes).find name = fs.find name := rfl

theorem find_unlink (fs : FileSystem κ) (name name' : κ) :
    (fs.unlink name).find name' = if name = name' then none else fs.find name' :=
  Dict.get_erase name name' fs.entries

/-- A name that is opened has its file then; the other names keep theirs. -/
theorem find_create (fs : FileSystem κ) (name name' : κ) :
    (fs.create name).2.find name' = if name = name' then some (fs.create name).1 else fs.find name' := by
  unfold create
  cases h : fs.find name with
  | some r =>
      show fs.find name' = _
      split
      · rename_i heq
        exact heq ▸ h
      · rfl
  | none => exact Dict.get_set name name' fs.next fs.entries

/-- The file opened is the one of the name, or one that nobody has. -/
theorem create_fst (fs : FileSystem κ) (name : κ) :
    fs.find name = some (fs.create name).1 ∨ fs.find name = none ∧ (fs.create name).1 = fs.next := by
  unfold create
  cases h : fs.find name with
  | some r => exact .inl rfl
  | none => exact .inr ⟨rfl, rfl⟩

theorem create_next_le (fs : FileSystem κ) (name : κ) : fs.next ≤ (fs.create name).2.next := by
  unfold create
  split
  · exact Nat.le_refl _
  · exact Nat.le_succ _

theorem Sound.create_lt (h : fs.Sound) (name : κ) : (fs.create name).1 < (fs.create name).2.next := by
  unfold create
  cases hfind : fs.find name with
  | some r => exact h.made hfind
  | none => exact Nat.lt_succ_self _

/-! ## Soundness -/

theorem Sound.writeAt (h : fs.Sound) (r pos : Nat) (bytes : List UInt8) : (fs.writeAt r pos bytes).Sound :=
  ⟨h.apart, h.made⟩

theorem Sound.unlink (h : fs.Sound) (name : κ) : (fs.unlink name).Sound := by
  have hfind : ∀ {name' r}, (fs.unlink name).find name' = some r → fs.find name' = some r := by
    intro name' r hr
    rw [find_unlink] at hr
    split at hr
    · cases hr
    · exact hr
  exact ⟨fun h₁ h₂ => h.apart (hfind h₁) (hfind h₂), fun h₁ => h.made (hfind h₁)⟩

theorem Sound.create (h : fs.Sound) (name : κ) : (fs.create name).2.Sound := by
  have hother : ∀ {name' r}, fs.find name' = some r → r = (fs.create name).1 → name = name' := by
    rintro name' r hr rfl
    rcases create_fst fs name with hfind | ⟨-, hnext⟩
    · exact h.apart hfind hr
    · exact absurd (hnext ▸ h.made hr) (Nat.lt_irrefl _)
  constructor
  · intro name₁ name₂ r h₁ h₂
    rw [find_create] at h₁ h₂
    split at h₁ <;> split at h₂
    · rename_i heq₁ heq₂
      exact heq₁.symm.trans heq₂
    · rename_i heq₁ _
      exact heq₁.symm.trans (hother h₂ (Option.some.inj h₁).symm)
    · rename_i _ heq₂
      exact (hother h₁ (Option.some.inj h₂).symm).symm.trans heq₂
    · exact h.apart h₁ h₂
  · intro name' r hr
    rw [find_create] at hr
    split at hr
    · exact Option.some.inj hr ▸ h.create_lt name
    · exact Nat.lt_of_lt_of_le (h.made hr) (create_next_le fs name)

theorem Sound.write (h : fs.Sound) (name : κ) (bytes : List UInt8) : (fs.write name bytes).Sound :=
  (h.create name).writeAt _ _ _

/-! ## Contents -/

omit [DecidableEq κ] in
@[simp] theorem data_writeAt (fs : FileSystem κ) (r pos : Nat) (bytes : List UInt8) :
    (fs.writeAt r pos bytes).data r = splice (fs.data r) pos bytes := Function.update_self _ _ _

omit [DecidableEq κ] in
theorem data_writeAt_ne {r' : Nat} (h : r' ≠ r) : (fs.writeAt r pos bytes).data r' = fs.data r' :=
  Function.update_of_ne h _ _

theorem data_create (fs : FileSystem κ) (name : κ) : (fs.create name).2.data (fs.create name).1 = [] := by
  unfold create
  split
  · exact Function.update_self _ _ _
  · exact Function.update_self _ _ _

theorem data_create_ne (h : r ≠ (fs.create name).1) : (fs.create name).2.data r = fs.data r := by
  revert h
  unfold create
  split
  · exact fun h => Function.update_of_ne h _ _
  · exact fun h => Function.update_of_ne h _ _

theorem find_write (fs : FileSystem κ) (name : κ) (bytes : List UInt8) (name' : κ) :
    (fs.write name bytes).find name' = if name = name' then some (fs.create name).1 else fs.find name' :=
  find_create fs name name'

theorem data_write (fs : FileSystem κ) (name : κ) (bytes : List UInt8) :
    (fs.write name bytes).data (fs.create name).1 = bytes := by
  rw [write, data_writeAt, data_create]
  simp [splice]

theorem data_write_ne (h : r ≠ (fs.create name).1) : (fs.write name bytes).data r = fs.data r :=
  (data_writeAt_ne h).trans (data_create_ne h)

@[simp] theorem read_write (fs : FileSystem κ) (name : κ) (bytes : List UInt8) :
    (fs.write name bytes).read name = some bytes := by
  rw [read, find_write, if_pos rfl, Option.map_some, data_write]

/-- The file that another name is given is not the file of this one. -/
theorem Sound.ne_create (h : fs.Sound) (hne : name ≠ name') (hr : fs.find name' = some r) :
    r ≠ (fs.create name).1 := by
  rintro rfl
  rcases create_fst fs name with hfind | ⟨-, hnext⟩
  · exact hne (h.apart hfind hr)
  · exact absurd (hnext ▸ h.made hr) (Nat.lt_irrefl _)

theorem Sound.read_write_ne (h : fs.Sound) (hne : name ≠ name') : (fs.write name bytes).read name' = fs.read name' := by
  unfold read
  rw [find_write, if_neg hne]
  cases hr : fs.find name' with
  | none => rfl
  | some r => exact congrArg some (data_write_ne (h.ne_create hne hr))

theorem read_unlink_ne (hne : name ≠ name') : (fs.unlink name).read name' = fs.read name' := by
  rw [read, find_unlink, if_neg hne]
  rfl

theorem read_unlink (fs : FileSystem κ) (name : κ) : (fs.unlink name).read name = none := by
  rw [read, find_unlink, if_pos rfl]
  rfl

/-- What can be read after a name is gone has another name. -/
theorem of_read_unlink (h : (fs.unlink name).read name' = some bytes) : name ≠ name' ∧ fs.read name' = some bytes := by
  by_cases heq : name = name'
  · rw [heq, read_unlink] at h
    cases h
  · rw [read_unlink_ne heq] at h
    exact ⟨heq, h⟩

end FileSystem

end Lib
