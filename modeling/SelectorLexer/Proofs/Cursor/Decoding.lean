import SelectorLexer.Proofs.Cursor.Resync

/-!
# Reading is decoding

A cursor looks at one byte first.  A byte below `0x80` is taken for the character that it
encodes, and only for the other bytes the text is decoded.  It is not checked that the byte
stands at a boundary, and it need not be: inside a character there are no such bytes, so that
the short way gives what decoding would give.

Decoding the bytes from an offset on gives the character that stands there, and nothing at
the end and inside a character, since neither an end nor the later bytes of a character begin
a character.  So what a cursor reads is what is decoded at its offset, wherever that is, and
`endChar` where nothing is.

## Main definitions

* `Source.IsInside` — the offsets inside a character.

## Main results

* `Source.isInside_iff` — they are all offsets of the text besides the boundaries.
* `Source.charAt?_eq_utf8DecodeChar?` — the character at an offset is what is decoded there.
* `Cursor.peek_eq_charAt?` — it is what a cursor reads there.
* `Cursor.isBoundary_of_byte_lt` — where a byte below `0x80` is read, there is a boundary.
* `Cursor.peek_decodes_utf8` — what is read at every place of a text.
-/

namespace SelectorLexer

open String (utf8Len)

/-! ### Offsets inside a character -/

/-- Every offset of a text is at a cut or inside a character. -/
theorem exists_cut_or_char_around (cs : List Char) {i : Nat} (hi : i ≤ utf8Len cs) :
    (∃ before after, cs = before ++ after ∧ i = utf8Len before) ∨
      ∃ before x after, cs = before ++ x :: after ∧ utf8Len before < i ∧
        i < utf8Len before + x.utf8Size := by
  induction cs generalizing i with
  | nil => exact .inl ⟨[], [], rfl, Nat.le_zero.mp hi⟩
  | cons x rest ih =>
    rcases Nat.eq_zero_or_pos i with rfl | hpos
    · exact .inl ⟨[], x :: rest, rfl, rfl⟩
    rcases Nat.lt_or_ge i x.utf8Size with hlt | hge
    · exact .inr ⟨[], x, rest, rfl, hpos, by simpa using hlt⟩
    -- behind the first character, the offset is counted from its end
    rw [String.utf8Len_cons] at hi
    rcases ih (i := i - x.utf8Size) (by omega) with
      ⟨before, after, rfl, hcut⟩ | ⟨before, y, after, rfl, hlt, hlt'⟩
    · refine .inl ⟨x :: before, after, rfl, ?_⟩
      rw [String.utf8Len_cons]
      omega
    · refine .inr ⟨x :: before, y, after, rfl, ?_, ?_⟩ <;> rw [String.utf8Len_cons] <;> omega

namespace Source

variable {s : Source} {i : Nat}

/-- An offset lies inside a character if the character starts in front of it and ends
behind it. -/
def IsInside (s : Source) (i : Nat) : Prop :=
  ∃ before x after, s.text.toList = before ++ x :: after ∧ utf8Len before < i ∧
    i < utf8Len before + x.utf8Size

/-- **The offsets inside a character are those of the text that are no boundary.** -/
theorem isInside_iff : s.IsInside i ↔ i ≤ s.text.utf8ByteSize ∧ ¬ s.IsBoundary i := by
  constructor
  · rintro ⟨before, x, after, hchars, hlt, hlt'⟩
    refine ⟨?_, not_isBoundary_of_lt hchars hlt hlt'⟩
    rw [utf8ByteSize_eq_utf8Len, hchars, String.utf8Len_append, String.utf8Len_cons]
    omega
  · rintro ⟨hle, hb⟩
    rw [utf8ByteSize_eq_utf8Len] at hle
    rcases exists_cut_or_char_around _ hle with hcut | hinside
    · exact absurd (isBoundary_iff_utf8Len.mpr hcut) hb
    · exact hinside

/-- There is no character at the end of the text and at an offset that is no boundary. -/
theorem charAt?_eq_none_iff (hi : i ≤ s.text.utf8ByteSize) :
    s.charAt? i = none ↔ i = s.text.utf8ByteSize ∨ ¬ s.IsBoundary i := by
  by_cases hb : s.IsBoundary i
  · obtain ⟨before, after, hchars, rfl⟩ := isBoundary_iff_utf8Len.mp hb
    rw [charAt?_utf8Len hchars, utf8ByteSize_eq_utf8Len, hchars, String.utf8Len_append]
    simp [hb, String.utf8Len_eq_zero]
  · simp [hb, charAt?_of_not_isBoundary hb]

/-! ### Characters, decoded -/

/-- **The character at an offset is what is decoded from the bytes there**, if anything is. -/
theorem charAt?_eq_utf8DecodeChar? (s : Source) (i : Nat) :
    s.charAt? i = s.text.toByteArray.utf8DecodeChar? i := by
  by_cases hb : s.IsBoundary i
  · obtain ⟨before, after, hchars, rfl⟩ := isBoundary_iff_utf8Len.mp hb
    have hbytes : s.text.toByteArray.extract (utf8Len before) s.text.toByteArray.size =
        after.utf8Encode := by
      rw [text_eq_append_of_toList hchars, String.toByteArray_append, ← String.toByteArray_ofList]
      apply ByteArray.extract_append_eq_right
      · rw [String.size_toByteArray, String.utf8ByteSize_ofList]
      · rw [ByteArray.size_append]
    rw [charAt?_utf8Len hchars, ByteArray.utf8DecodeChar?_eq_utf8DecodeChar?_extract, hbytes]
    cases after with
    | nil => rfl
    | cons x rest => rw [List.utf8DecodeChar?_utf8Encode_cons, List.head?_cons]
  · -- what can be decoded starts at a boundary
    rw [charAt?_of_not_isBoundary hb, eq_comm, ← Option.not_isSome_iff_eq_none]
    intro hsome
    exact hb (String.Pos.Raw.isValid_iff_isSome_utf8DecodeChar?.mpr (.inr hsome))

end Source

namespace Cursor

variable {c : Cursor}

/-- **A cursor reads the character at its offset**, and `endChar` where there is none. -/
theorem peek_eq_charAt? (hfits : c.source.text.utf8ByteSize ≤ maxOffset) :
    c.peek = (c.source.charAt? c.pos).getD endChar := by
  by_cases hb : c.source.IsBoundary c.pos
  · obtain ⟨before, after, hsplits⟩ := (exists_splits_iff hfits).mpr hb
    rw [hsplits.peek_eq, hsplits.charAt?_eq]
  · rw [peek_of_not_isBoundary hb, Source.charAt?_of_not_isBoundary hb]
    rfl

/-- The byte that is read is zero at the end and where the text has a zero. -/
theorem byte_eq_zero_iff : c.byte = 0 ↔ c.atEnd = true ∨ c.source.byteAt? c.pos = some 0 := by
  cases hend : c.atEnd with
  | true => simp [byte_of_atEnd hend]
  | false => simp [byteAt?_pos hend]

/-- **Where a byte below `0x80` is read, there is a boundary**, and the byte is the character
that is read. -/
theorem isBoundary_of_byte_lt (hfits : c.source.text.utf8ByteSize ≤ maxOffset)
    (hpos : c.pos ≤ c.source.size) (h : c.byte < 0x80) :
    c.source.IsBoundary c.pos ∧ c.peek = Char.ofUInt8 c.byte := by
  cases hend : c.atEnd with
  | true =>
    have hsize : c.pos = c.source.text.utf8ByteSize := by
      rw [← Source.size_of_le hfits]
      exact Nat.le_antisymm hpos (atEnd_iff.mp hend)
    rw [hsize, peek_of_atEnd hend, byte_of_atEnd hend]
    exact ⟨c.source.isBoundary_size, rfl⟩
  | false =>
    refine ⟨?_, by rw [peek, hend, if_neg Bool.false_ne_true, if_pos h]⟩
    by_contra hb
    exact not_isUTF8FirstByte_byte hend hb (Utf8.isUTF8FirstByte_of_lt h)

/-- **What a cursor reads is what is decoded at its offset**, at a boundary or not.  Nothing
is decoded at the end and inside a character.  So the cursor reads `endChar` there, and else
only where the text has a zero byte.  A byte below `0x80` is the character that is read, and
it stands at a boundary. -/
theorem peek_decodes_utf8 {text : String} (hfits : text.utf8ByteSize ≤ maxOffset) {pos : Nat}
    (hpos : pos ≤ (⟨text⟩ : Source).size) (start : Nat) :
    let s : Source := ⟨text⟩
    let c : Cursor := ⟨s, pos, start⟩
    let decoded := text.toByteArray.utf8DecodeChar? pos
    c.peek = decoded.getD endChar ∧
      (∀ before after, text.toList = before ++ after → pos = utf8Len before →
        decoded = after.head?) ∧
      (decoded = none ↔ pos = s.size ∨ ¬ s.IsBoundary pos) ∧
      (c.peek = endChar ↔ pos = s.size ∨ s.byteAt? pos = some 0 ∨ s.IsInside pos) ∧
      (c.byte = 0 ↔ pos = s.size ∨ s.byteAt? pos = some 0) ∧
      (c.byte < 0x80 → c.peek.toNat = c.byte.toNat ∧ s.IsBoundary pos) := by
  intro s c decoded
  have hsize : s.size = text.utf8ByteSize := Source.size_of_le hfits
  have hdecoded : s.charAt? pos = decoded := s.charAt?_eq_utf8DecodeChar? pos
  have hpeek : c.peek = decoded.getD endChar := by
    rw [← hdecoded]
    exact peek_eq_charAt? hfits
  have hnone : decoded = none ↔ pos = s.size ∨ ¬ s.IsBoundary pos := by
    rw [← hdecoded, Source.charAt?_eq_none_iff (hsize ▸ hpos), hsize]
  have hend : c.atEnd = true ↔ pos = s.size := by
    rw [atEnd_iff]
    exact ⟨Nat.le_antisymm hpos, fun h => Nat.le_of_eq h.symm⟩
  refine ⟨hpeek, ?cut, hnone, ?sentinel, ?zero, ?small⟩
  case cut =>
    rintro before after hchars rfl
    rw [← hdecoded]
    exact Source.charAt?_utf8Len hchars
  case sentinel =>
    have hinside : s.IsInside pos ↔ ¬ s.IsBoundary pos := by
      rw [Source.isInside_iff, ← hsize]
      exact and_iff_right hpos
    have hzero : decoded = some '\x00' ↔ s.byteAt? pos = some 0 := by
      rw [Source.byteAt?_eq_zero_iff, hdecoded]
    rw [hpeek, hinside, ← hzero, or_left_comm, ← hnone]
    cases decoded with
    | none => simp
    | some x => simp [endChar]
  case zero =>
    rw [byte_eq_zero_iff, hend]
  case small =>
    intro hbyte
    obtain ⟨hb, hchar⟩ := isBoundary_of_byte_lt hfits hpos hbyte
    rw [hchar]
    exact ⟨UInt8.toNat_toUInt32 c.byte, hb⟩

/-- The same is read inside a character and at a null character, and the next one again. -/
theorem peek_decodes_utf8_around_null :
    let text := "é\x00b"
    let s : Source := ⟨text⟩
    text.utf8ByteSize ≤ maxOffset ∧ 3 ≤ s.size ∧
      (s.IsInside 1 ∧ (⟨s, 1, 1⟩ : Cursor).byte = 0xA9 ∧ (⟨s, 1, 1⟩ : Cursor).peek = endChar) ∧
      (s.byteAt? 2 = some 0 ∧ (⟨s, 2, 0⟩ : Cursor).peek = endChar) ∧
      (⟨s, 3, 0⟩ : Cursor).byte = 0x62 ∧ (⟨s, 3, 0⟩ : Cursor).peek.toNat = 0x62 := by
  intro text s
  have hfits : text.utf8ByteSize ≤ maxOffset := by decide
  have hinside : s.IsInside 1 := ⟨[], 'é', ['\x00', 'b'], by decide +kernel, by decide, by decide⟩
  have hnull : s.byteAt? 2 = some 0 := by decide +kernel
  have hbyte : (⟨s, 3, 0⟩ : Cursor).byte = 0x62 := by decide +kernel
  have hsize : 3 ≤ s.size := by decide
  have hone : 1 ≤ s.size := by decide
  have htwo : 2 ≤ s.size := by decide
  obtain ⟨-, -, -, hread, -, -⟩ := peek_decodes_utf8 hfits hone 1
  obtain ⟨-, -, -, hread', -, -⟩ := peek_decodes_utf8 hfits htwo 0
  obtain ⟨-, -, -, -, -, hsmall⟩ := peek_decodes_utf8 hfits hsize 0
  refine ⟨hfits, hsize, ⟨hinside, by decide +kernel, hread.mpr (.inr (.inr hinside))⟩,
    ⟨hnull, hread'.mpr (.inr (.inl hnull))⟩, hbyte, ?_⟩
  rw [(hsmall (by rw [hbyte]; decide)).1, hbyte]
  decide

end Cursor

end SelectorLexer
