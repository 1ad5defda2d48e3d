import Mathlib.Data.List.Infix

/-!
# `Lib.Utf16` — text as UTF-16 code units

`encode` gives the code units of a text of Unicode scalar values: one below U+10000, a surrogate pair from there
on. A part of the text is the slice of the units that begins where the units of the text before it end
(`slice_encode`).
-/

namespace Lib.Utf16

/-- The code units of a character. -/
def units (c : Char) : List UInt16 :=
  if c.toNat < 0x10000 then [UInt16.ofNat c.toNat]
  else [UInt16.ofNat (0xD800 + (c.toNat - 0x10000) / 0x400), UInt16.ofNat (0xDC00 + (c.toNat - 0x10000) % 0x400)]

def encode (text : List Char) : List UInt16 := text.flatMap units

/-- The two bytes of a code unit, the low one first. -/
def bytesLE (u : UInt16) : List UInt8 := [UInt8.ofNat (u.toNat % 256), UInt8.ofNat (u.toNat / 256)]

def encodeLE (text : List Char) : List UInt8 := (encode text).flatMap bytesLE

theorem encode_append (s t : List Char) : encode (s ++ t) = encode s ++ encode t := List.flatMap_append

theorem length_encodeLE (text : List Char) : (encodeLE text).length = 2 * (encode text).length := by
  unfold encodeLE
  induction encode text with
  | nil => rfl
  | cons u us ih =>
      rw [List.flatMap_cons, List.length_append, ih, List.length_cons]
      have htwo : (bytesLE u).length = 2 := rfl
      omega

theorem units_ne_nil (c : Char) : units c ≠ [] := by
  unfold units
  split <;> exact List.cons_ne_nil _ _

theorem encode_eq_nil {text : List Char} : encode text = [] ↔ text = [] := by
  constructor
  · intro h
    cases text with
    | nil => rfl
    | cons c text => exact absurd (List.append_eq_nil_iff.mp h).1 (units_ne_nil c)
  · rintro rfl
    rfl

theorem length_encode_le {s t : List Char} (h : s <+: t) : (encode s).length ≤ (encode t).length := by
  obtain ⟨rest, rfl⟩ := h
  rw [encode_append, List.length_append]
  exact Nat.le_add_right _ _

/-- **Slice.** The units of a part stand behind those of the text before it. -/
theorem slice_encode {before content text : List Char} (h : before ++ content <+: text) :
    ((encode text).drop (encode before).length).take (encode content).length = encode content := by
  obtain ⟨rest, rfl⟩ := h
  rw [encode_append, encode_append, List.append_assoc, List.drop_left, List.take_left]

end Lib.Utf16
