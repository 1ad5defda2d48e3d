import Mathlib.Data.List.DropRight

/-!
# `Lib.Base64` — bytes as text of 64 characters

Three bytes are four characters of the alphabet that URLs take, and `=` fills the last group. The reader is the one
of CPython's `binascii`, which is far more lenient than the writer: it takes `+` and `/` too, passes over every
other character, stops at the padding of a group that has two characters or more, and refuses a text only when a
group is left open.

## Contents
- `encode`, `scan`, `decode`, `strip`, `repad`;
- `decode_encode`, `repad_strip`, `mem_encode`.
-/

namespace Lib.Base64

/-! ## Writing -/

def alphabet : List Char := "ABCDEFGHIJKLMNOPQRSTUVWXYZabcdefghijklmnopqrstuvwxyz0123456789-_".toList

/-- The character of six bits. -/
def char (n : Nat) : Char := alphabet.getD n 'A'

def encode : List UInt8 → List Char
  | [] => []
  | [a] => [char (a.toNat / 4), char (a.toNat % 4 * 16), '=', '=']
  | [a, b] => [char (a.toNat / 4), char (a.toNat % 4 * 16 + b.toNat / 16), char (b.toNat % 16 * 4), '=']
  | a :: b :: c :: rest =>
      char (a.toNat / 4) :: char (a.toNat % 4 * 16 + b.toNat / 16) :: char (b.toNat % 16 * 4 + c.toNat / 64) ::
        char (c.toNat % 64) :: encode rest

/-! ## Reading -/

/-- The six bits of a character of either alphabet. -/
def value (c : Char) : Option Nat :=
  if 'A' ≤ c ∧ c ≤ 'Z' then some (c.toNat - 65)
  else if 'a' ≤ c ∧ c ≤ 'z' then some (c.toNat - 97 + 26)
  else if '0' ≤ c ∧ c ≤ '9' then some (c.toNat - 48 + 52)
  else if c = '+' ∨ c = '-' then some 62
  else if c = '/' ∨ c = '_' then some 63
  else none

/-- Where the reader is: the characters of the open group, the bits of the last one not yet given, and the padding
    since. -/
structure Reader where
  quad : Nat
  left : Nat
  pads : Nat

def Reader.start : Reader := ⟨0, 0, 0⟩

def scan (r : Reader) : List Char → Option (List UInt8)
  | [] => if r.quad = 0 then some [] else none
  | c :: cs =>
      if c = '=' then
        if 2 ≤ r.quad then
          -- the padding of a whole group ends the text, whatever follows
          if 4 ≤ r.quad + (r.pads + 1) then some [] else scan ⟨r.quad, r.left, r.pads + 1⟩ cs
        else scan r cs
      else
        match value c with
        | none => scan r cs
        | some v =>
            match r.quad with
            | 0 => scan ⟨1, v, 0⟩ cs
            | 1 => (scan ⟨2, v % 16, 0⟩ cs).map (UInt8.ofNat (r.left * 4 + v / 16) :: ·)
            | 2 => (scan ⟨3, v % 4, 0⟩ cs).map (UInt8.ofNat (r.left * 16 + v / 4) :: ·)
            | _ => (scan .start cs).map (UInt8.ofNat (r.left * 64 + v) :: ·)

/-- `base64.urlsafe_b64decode` of a text, `none` when it raises. -/
def decode (cs : List Char) : Option (List UInt8) := if cs.all (·.toNat < 128) then scan .start cs else none

/-! ## The round trip -/

theorem value_char {n : Nat} (h : n < 64) : value (char n) = some n := by
  have hall : ∀ n < 64, value (char n) = some n := by decide +kernel
  exact hall n h

theorem mem_alphabet : ∀ c ∈ alphabet, c ≠ '=' ∧ c ≠ '.' ∧ c.toNat < 128 := by
  have hall : (alphabet.all fun c => c != '=' && c != '.' && Nat.blt c.toNat 128) = true := by decide +kernel
  intro c hc
  have hc' := List.all_eq_true.mp hall c hc
  simp only [Bool.and_eq_true, bne_iff_ne, ne_eq, Nat.blt_eq] at hc'
  exact ⟨hc'.1.1, hc'.1.2, hc'.2⟩

theorem char_mem (n : Nat) : char n ∈ alphabet := by
  unfold char
  rw [List.getD_eq_getElem?_getD]
  cases h : alphabet[n]? with
  | none => decide
  | some c => exact List.mem_of_getElem? h

theorem char_ne (n : Nat) : char n ≠ '=' := (mem_alphabet _ (char_mem n)).1

/-- What is written is of the alphabet, or padding. -/
theorem mem_encode {bs : List UInt8} {c : Char} (h : c ∈ encode bs) : c ∈ alphabet ∨ c = '=' := by
  induction bs using encode.induct with
  | case1 => cases h
  | case2 a =>
      simp only [encode, List.mem_cons, List.not_mem_nil, or_false] at h
      rcases h with rfl | rfl | rfl | rfl
      · exact .inl (char_mem _)
      · exact .inl (char_mem _)
      · exact .inr rfl
      · exact .inr rfl
  | case3 a b =>
      simp only [encode, List.mem_cons, List.not_mem_nil, or_false] at h
      rcases h with rfl | rfl | rfl | rfl
      · exact .inl (char_mem _)
      · exact .inl (char_mem _)
      · exact .inl (char_mem _)
      · exact .inr rfl
  | case4 a b c' rest ih =>
      simp only [encode, List.mem_cons] at h
      rcases h with rfl | rfl | rfl | rfl | h
      · exact .inl (char_mem _)
      · exact .inl (char_mem _)
      · exact .inl (char_mem _)
      · exact .inl (char_mem _)
      · exact ih h

theorem scan_char {n : Nat} (h : n < 64) (r : Reader) (cs : List Char) :
    scan r (char n :: cs) = match r.quad with
      | 0 => scan ⟨1, n, 0⟩ cs
      | 1 => (scan ⟨2, n % 16, 0⟩ cs).map (UInt8.ofNat (r.left * 4 + n / 16) :: ·)
      | 2 => (scan ⟨3, n % 4, 0⟩ cs).map (UInt8.ofNat (r.left * 16 + n / 4) :: ·)
      | _ => (scan .start cs).map (UInt8.ofNat (r.left * 64 + n) :: ·) := by
  rw [scan, if_neg (char_ne n), value_char h]

theorem byte_eq {n : Nat} {a : UInt8} (h : n = a.toNat) : UInt8.ofNat n = a := by
  rw [h]
  exact UInt8.ofNat_toNat

theorem scan_encode (bs : List UInt8) : scan .start (encode bs) = some bs := by
  induction bs using encode.induct with
  | case1 => rfl
  | case2 a =>
      have ha : a.toNat < 256 := a.toNat_lt
      rw [encode, scan_char (by omega)]
      simp only [Reader.start]
      rw [scan_char (by omega)]
      simp only [scan, byte_eq (a := a) (n := a.toNat / 4 * 4 + a.toNat % 4 * 16 / 16) (by omega)]
      rfl
  | case3 a b =>
      have ha : a.toNat < 256 := a.toNat_lt
      have hb : b.toNat < 256 := b.toNat_lt
      rw [encode, scan_char (by omega)]
      simp only [Reader.start]
      rw [scan_char (by omega)]
      simp only
      rw [scan_char (by omega)]
      simp only [byte_eq (a := a) (n := a.toNat / 4 * 4 + (a.toNat % 4 * 16 + b.toNat / 16) / 16) (by omega),
        byte_eq (a := b) (n := (a.toNat % 4 * 16 + b.toNat / 16) % 16 * 16 + b.toNat % 16 * 4 / 4) (by omega)]
      rfl
  | case4 a b c rest ih =>
      have ha : a.toNat < 256 := a.toNat_lt
      have hb : b.toNat < 256 := b.toNat_lt
      have hc : c.toNat < 256 := c.toNat_lt
      rw [encode, scan_char (by omega)]
      simp only [Reader.start]
      rw [scan_char (by omega)]
      simp only
      rw [scan_char (by omega)]
      simp only
      rw [scan_char (by omega)]
      simp only [ih, byte_eq (a := a) (n := a.toNat / 4 * 4 + (a.toNat % 4 * 16 + b.toNat / 16) / 16) (by omega),
        byte_eq (a := b) (n := (a.toNat % 4 * 16 + b.toNat / 16) % 16 * 16 +
          (b.toNat % 16 * 4 + c.toNat / 64) / 4) (by omega),
        byte_eq (a := c) (n := (b.toNat % 16 * 4 + c.toNat / 64) % 4 * 64 + c.toNat % 64) (by omega)]
      rfl

theorem decode_encode (bs : List UInt8) : decode (encode bs) = some bs := by
  have hascii : (encode bs).all (·.toNat < 128) = true := by
    refine List.all_eq_true.mpr fun c hc => decide_eq_true ?_
    rcases mem_encode hc with hc | rfl
    · exact (mem_alphabet c hc).2.2
    · decide
  rw [decode, if_pos hascii, scan_encode]

/-! ## Without the padding -/

/-- The text without the padding at its end: `rstrip("=")`. -/
def strip (cs : List Char) : List Char := cs.rdropWhile (· = '=')

/-- The text with as much padding as its length wants: `"=" * (-len % 4)`. -/
def repad (cs : List Char) : List Char := cs ++ List.replicate (-(cs.length : Int) % 4).toNat '='

theorem strip_append {body : List Char} (h : '=' ∉ body) (k : Nat) : strip (body ++ List.replicate k '=') = body := by
  induction k with
  | zero =>
      rw [List.replicate_zero, List.append_nil, strip, List.rdropWhile_eq_self_iff]
      intro hne heq
      exact h (of_decide_eq_true heq ▸ List.getLast_mem hne)
  | succ k ih =>
      rw [List.replicate_succ', ← List.append_assoc, strip, List.rdropWhile_concat_pos _ _ _ (by rfl)]
      exact ih

/-- A text is its characters and the padding of the last group. -/
theorem encode_eq (bs : List UInt8) :
    ∃ body k, encode bs = body ++ List.replicate k '=' ∧ '=' ∉ body ∧ (body.length + k) % 4 = 0 ∧ k < 4 := by
  have hnot : ∀ n, ¬ '=' = char n := fun n h => char_ne n h.symm
  induction bs using encode.induct with
  | case1 => exact ⟨[], 0, rfl, List.not_mem_nil, rfl, by decide⟩
  | case2 a =>
      exact ⟨[char (a.toNat / 4), char (a.toNat % 4 * 16)], 2, rfl, by simp [hnot], by simp, by decide⟩
  | case3 a b =>
      exact ⟨[char (a.toNat / 4), char (a.toNat % 4 * 16 + b.toNat / 16), char (b.toNat % 16 * 4)], 1, rfl,
        by simp [hnot], by simp, by decide⟩
  | case4 a b c rest ih =>
      obtain ⟨body, k, heq, hbody, hlength, hk⟩ := ih
      refine ⟨char (a.toNat / 4) :: char (a.toNat % 4 * 16 + b.toNat / 16) ::
        char (b.toNat % 16 * 4 + c.toNat / 64) :: char (c.toNat % 64) :: body, k, ?_, by simp [hnot, hbody], ?_, hk⟩
      · rw [encode, heq]
        rfl
      · simp only [List.length_cons]
        omega

/-- The padding that was taken off is put back. -/
theorem repad_strip (bs : List UInt8) : repad (strip (encode bs)) = encode bs := by
  obtain ⟨body, k, heq, hbody, hlength, hk⟩ := encode_eq bs
  rw [heq, strip_append hbody, repad]
  congr
  omega

end Lib.Base64
