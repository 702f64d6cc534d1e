/-!
# Characters in UTF-8

A character takes one to four bytes, and its first byte says how many.  The other
bytes of a character are all of a different kind, so that a byte below `0x80` is a
character of its own wherever it stands.

## Main definitions

* `Utf8.width` — how far a reader moves on from a byte.

## Main results

* `Utf8.width_eq_utf8ByteSize` — from the first byte of a character, by the bytes of
  that character.
* `Utf8.width_eq_one` — from a byte inside a character, by one.
-/

namespace SelectorLexer

namespace Utf8

/-- The number of bytes that `b` announces.  A byte that starts no character
announces only itself. -/
def width (b : UInt8) : Nat :=
  if b < 0xC0 then 1
  else if b < 0xE0 then 2
  else if b < 0xF0 then 3
  else if b < 0xF8 then 4
  else 1

theorem width_pos (b : UInt8) : 0 < width b := by
  unfold width
  repeat' split
  all_goals decide

/-- The widths of all bytes, read off the bits that UTF-8 fixes in them. -/
theorem width_eq_of_bits (b : UInt8) :
    width b =
      if b &&& 0x80 = 0 then 1
      else if b &&& 0xE0 = 0xC0 then 2
      else if b &&& 0xF0 = 0xE0 then 3
      else if b &&& 0xF8 = 0xF0 then 4
      else 1 := by
  rcases b with ⟨b⟩
  revert b
  decide +kernel

/-- The byte that starts a character announces the bytes of that character. -/
theorem width_eq_utf8ByteSize (b : UInt8) (h : b.IsUTF8FirstByte) :
    width b = b.utf8ByteSize h := by
  rw [width_eq_of_bits]
  unfold UInt8.utf8ByteSize
  rcases h with h | h | h | h <;> grind

/-- A byte that starts no character announces only itself. -/
theorem width_eq_one (b : UInt8) (h : ¬ b.IsUTF8FirstByte) : width b = 1 := by
  rw [width_eq_of_bits]
  simp only [UInt8.IsUTF8FirstByte, not_or] at h
  simp [h]

/-- A byte below `0x80` starts a character, since it is one. -/
theorem isUTF8FirstByte_of_lt {b : UInt8} (h : b < 0x80) : b.IsUTF8FirstByte := by
  refine .inl ?_
  rcases b with ⟨b⟩
  revert b
  decide +kernel

end Utf8

end SelectorLexer
