import SelectorLexer.Span
import SelectorLexer.Utf8

/-!
# Sources

A source is a text that is read by byte offset.  An offset is a boundary when the
text can be cut there into two texts; the other offsets up to the end lie inside a
character.  A read of a byte is possible at every offset before the end, a read of a
character only at a boundary, and a part of the text can be taken between two
boundaries.

A cursor sees the first `size` bytes of a source: all of them, unless there are more
than offsets can count.

Two things are worth a remark about a text, although it can be read all the same: a
byte order mark at its start, which is a character like any other here, and a null
byte, which reads like the end of the text.  They are the flaws of a source.

## Main definitions

* `Source`, `Source.size` — a text, and the bytes of it that can be reached.
* `Source.IsBoundary` — the offsets between characters.
* `Source.byteAt?`, `Source.charAt?`, `Source.between?` — a byte, a character and a
  part of the text.
* `Flaw`, `Source.flaws` — what is remarkable about the text.

## Main results

* `Source.isBoundary_iff` — boundaries are the places where the text can be cut.
* `Source.charAt?_of_eq_append`, `Source.between?_of_eq_append` — what is read at a cut.
* `Source.byteAt?_of_charAt?` — what the first byte of a character says about it.
-/

namespace SelectorLexer

/-- A text that is read by byte offset. -/
structure Source where
  /-- The text. -/
  text : String
  deriving DecidableEq, Repr, Inhabited

namespace Source

/-- The number of bytes that a cursor can reach. -/
def size (s : Source) : Nat := min s.text.utf8ByteSize maxOffset

/-- A source is empty when no byte of it can be reached. -/
def isEmpty (s : Source) : Bool := s.size == 0

theorem size_le (s : Source) : s.size ≤ s.text.utf8ByteSize := Nat.min_le_left _ _

theorem size_of_le {s : Source} (h : s.text.utf8ByteSize ≤ maxOffset) :
    s.size = s.text.utf8ByteSize := Nat.min_eq_left h

/-! ### Boundaries -/

/-- A boundary is an offset between two characters, or at either end of the text. -/
def IsBoundary (s : Source) (i : Nat) : Prop := String.Pos.Raw.IsValid s.text ⟨i⟩

instance (s : Source) (i : Nat) : Decidable (s.IsBoundary i) :=
  inferInstanceAs (Decidable (String.Pos.Raw.IsValid s.text ⟨i⟩))

/-- The boundaries are the offsets at which the text can be cut in two. -/
theorem isBoundary_iff {s : Source} {i : Nat} :
    s.IsBoundary i ↔ ∃ before after, s.text = before ++ after ∧ i = before.utf8ByteSize := by
  simp [IsBoundary, String.Pos.Raw.isValid_iff_exists_append, String.Pos.Raw.ext_iff]

theorem isBoundary_zero (s : Source) : s.IsBoundary 0 :=
  isBoundary_iff.2 ⟨"", s.text, by simp, by simp⟩

theorem isBoundary_size (s : Source) : s.IsBoundary s.text.utf8ByteSize :=
  isBoundary_iff.2 ⟨s.text, "", by simp, rfl⟩

theorem IsBoundary.le {s : Source} {i : Nat} (h : s.IsBoundary i) : i ≤ s.text.utf8ByteSize := by
  obtain ⟨before, after, hs, rfl⟩ := isBoundary_iff.1 h
  simp [hs]

/-- A boundary as a position in the text. -/
def position (s : Source) (i : Nat) (h : s.IsBoundary i) : s.text.Pos := s.text.pos ⟨i⟩ h

@[simp] theorem byteIdx_offset_position {s : Source} {i : Nat} (h : s.IsBoundary i) :
    (s.position i h).offset.byteIdx = i := rfl

theorem splits_position {s : Source} {before after : String} (hs : s.text = before ++ after)
    (h : s.IsBoundary before.utf8ByteSize) : (s.position _ h).Splits before after :=
  ⟨hs, rfl⟩

/-! ### Bytes -/

/-- The byte at an offset, if the text reaches that far. -/
def byteAt? (s : Source) (i : Nat) : Option UInt8 :=
  if h : (⟨i⟩ : String.Pos.Raw) < s.text.rawEndPos then some (s.text.getUTF8Byte ⟨i⟩ h) else none

theorem exists_byteAt? {s : Source} {i : Nat} (h : i < s.text.utf8ByteSize) :
    ∃ b, s.byteAt? i = some b :=
  ⟨_, dif_pos h⟩

theorem byteAt?_eq (s : Source) (i : Nat) : s.byteAt? i = s.text.toByteArray[i]? := by
  unfold byteAt?
  split
  · next h =>
    have hi : i < s.text.toByteArray.size := by simpa [String.Pos.Raw.lt_iff] using h
    rw [String.getUTF8Byte_eq_getElem, getElem?_pos s.text.toByteArray i hi]
  · next h =>
    have hi : ¬ i < s.text.toByteArray.size := by simpa [String.Pos.Raw.lt_iff] using h
    rw [getElem?_neg s.text.toByteArray i hi]

/-- An offset before the end is a boundary when its byte starts a character. -/
theorem isBoundary_iff_of_byteAt? {s : Source} {i : Nat} {b : UInt8} (h : s.byteAt? i = some b) :
    s.IsBoundary i ↔ b.IsUTF8FirstByte := by
  unfold byteAt? at h
  split at h
  · next hi =>
    cases h
    rw [IsBoundary, String.Pos.Raw.isValid_iff_isUTF8FirstByte]
    constructor
    · rintro (hend | ⟨_, hb⟩)
      · simp [hend, String.Pos.Raw.lt_iff] at hi
      · exact hb
    · exact fun hb => .inr ⟨hi, hb⟩
  · cases h

/-! ### Characters -/

/-- The character that starts at an offset, if one does. -/
def charAt? (s : Source) (i : Nat) : Option Char :=
  if h : s.IsBoundary i then (s.position i h).get? else none

theorem charAt?_of_not_isBoundary {s : Source} {i : Nat} (h : ¬ s.IsBoundary i) :
    s.charAt? i = none :=
  dif_neg h

/-- At a cut, the character is the first one of what follows. -/
theorem charAt?_of_eq_append {s : Source} {before after : String}
    (hs : s.text = before ++ after) : s.charAt? before.utf8ByteSize = after.toList.head? := by
  have hb : s.IsBoundary before.utf8ByteSize := isBoundary_iff.2 ⟨before, after, hs, rfl⟩
  have hp := splits_position hs hb
  rw [charAt?, dif_pos hb]
  cases h : after.toList with
  | nil =>
    have : after = "" := String.toList_inj.1 (by simpa using h)
    exact String.Pos.get?_eq_none (hp.eq_endPos_iff.2 this)
  | cons c rest =>
    have hc : after = String.singleton c ++ String.ofList rest := by
      rw [← String.ofList_cons, ← h, String.ofList_toList]
    rw [hc] at hp
    rw [String.Pos.get?_eq_some_get hp.ne_endPos_of_singleton,
      String.Pos.Splits.get_eq_of_singleton hp.next, List.head?_cons]

/-- The first byte of a character announces how many bytes it has, and is the character
itself if it is below `0x80`. -/
theorem byteAt?_of_charAt? {s : Source} {i : Nat} {c : Char} (h : s.charAt? i = some c) :
    ∃ b, s.byteAt? i = some b ∧ Utf8.width b = c.utf8Size ∧ (b < 0x80 → Char.ofUInt8 b = c) := by
  unfold charAt? at h
  split at h
  · next hi =>
    have hne : s.position i hi ≠ s.text.endPos := by
      intro he
      rw [String.Pos.get?_eq_none he] at h
      cases h
    rw [String.Pos.get?_eq_some_get hne] at h
    cases h
    have hsize : i < s.text.utf8ByteSize := String.Pos.byteIdx_lt_utf8ByteSize _ hne
    have hlt : (⟨i⟩ : String.Pos.Raw) < s.text.rawEndPos := hsize
    have hbyte : s.text.getUTF8Byte ⟨i⟩ hlt = (s.position i hi).byte hne :=
      String.Pos.getUTF8Byte_offset (p := s.position i hi) (h := hlt)
    have hwidth : Utf8.width ((s.position i hi).byte hne) = ((s.position i hi).get hne).utf8Size := by
      rw [Utf8.width_eq_utf8ByteSize _ String.Pos.isUTF8FirstByte_byte, String.Pos.utf8ByteSize_byte]
    refine ⟨_, by rw [byteAt?, dif_pos hlt, hbyte], hwidth, fun hsmall => ?_⟩
    -- a byte below `0x80` announces one byte, so it is the whole encoding
    have hone : ((s.position i hi).get hne).utf8Size = 1 := by
      rw [← hwidth, Utf8.width, if_pos (UInt8.lt_trans hsmall (by decide))]
    have henc := String.Pos.utf8Encode_get_eq_extract _ hne
    rw [hone, byteIdx_offset_position, ByteArray.extract_add_one hsize,
      List.utf8Encode_singleton, List.toByteArray_inj, String.utf8EncodeChar_eq_singleton hone,
      List.cons.injEq] at henc
    rw [← hbyte, String.getUTF8Byte_eq_getElem, ← henc.1]
    have hle := Char.utf8Size_eq_one_iff.1 hone
    refine Char.ext ((UInt32.toUInt32_toUInt8 _).trans (UInt32.mod_eq_of_lt ?_))
    exact UInt32.lt_of_le_of_lt hle (by decide)
  · cases h

/-! ### Parts of the text -/

/-- The text from one boundary to another that does not come before it. -/
def between? (s : Source) (start stop : Nat) : Option String :=
  if h : start ≤ stop ∧ s.IsBoundary start ∧ s.IsBoundary stop then
    some (String.extract (s.position start h.2.1) (s.position stop h.2.2))
  else
    none

/-- What is taken between two boundaries are the bytes between them. -/
theorem toByteArray_of_between? {s : Source} {start stop : Nat} {part : String}
    (h : s.between? start stop = some part) :
    part.toByteArray = s.text.toByteArray.extract start stop := by
  unfold between? at h
  split at h
  · rw [← Option.some.inj h, String.toByteArray_extract, byteIdx_offset_position,
      byteIdx_offset_position]
  · cases h

/-- Between two cuts stands what was cut out. -/
theorem between?_of_eq_append {s : Source} {before part after : String}
    (hs : s.text = before ++ part ++ after) :
    s.between? before.utf8ByteSize (before.utf8ByteSize + part.utf8ByteSize) = some part := by
  have h1 : s.IsBoundary before.utf8ByteSize :=
    isBoundary_iff.2 ⟨before, part ++ after, by rw [hs, String.append_assoc], rfl⟩
  have h2 : s.IsBoundary (before.utf8ByteSize + part.utf8ByteSize) :=
    isBoundary_iff.2 ⟨before ++ part, after, hs, by simp⟩
  rw [between?, dif_pos ⟨Nat.le_add_right _ _, h1, h2⟩]
  congr 1
  have hcut := ByteArray.extract_append_size_add' (a := before.toByteArray)
    (b := part.toByteArray ++ after.toByteArray) (i := 0) (j := part.utf8ByteSize)
    String.size_toByteArray.symm
  rw [← String.toByteArray_inj, String.toByteArray_extract, byteIdx_offset_position,
    byteIdx_offset_position, hs, String.append_assoc, String.toByteArray_append,
    String.toByteArray_append]
  rw [Nat.add_zero] at hcut
  rw [hcut, ByteArray.extract_append_eq_left String.size_toByteArray.symm]

end Source

/-! ### Flaws -/

/-- Something remarkable about a text. -/
inductive Flaw where
  /-- The text starts with a byte order mark. -/
  | byteOrderMark : Flaw
  /-- The byte at `pos` is zero. -/
  | nullByte (pos : Nat) : Flaw
  deriving DecidableEq, Repr

/-- The bytes that a flaw is about. -/
def Flaw.span : Flaw → Span
  | byteOrderMark => ⟨0, 3⟩
  | nullByte pos => ⟨pos, pos + 1⟩

namespace Source

/-- Does the text start with the three bytes of a byte order mark? -/
def startsWithByteOrderMark (s : Source) : Bool :=
  s.byteAt? 0 == some 0xEF && s.byteAt? 1 == some 0xBB && s.byteAt? 2 == some 0xBF

/-- The offsets of the null bytes, in ascending order, as far as offsets can count. -/
def nullOffsets (s : Source) : List Nat :=
  (List.range s.text.utf8ByteSize).filter fun i => i ≤ maxOffset && s.byteAt? i == some 0

/-- The flaws of a source: the byte order mark before the null bytes, and these in the
order of the text. -/
def flaws (s : Source) : List Flaw :=
  (if s.startsWithByteOrderMark then [.byteOrderMark] else []) ++ s.nullOffsets.map .nullByte

end Source

end SelectorLexer
