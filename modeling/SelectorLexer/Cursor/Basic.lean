import SelectorLexer.Source

/-!
# Cursors

A cursor reads a source from left to right.  It stands at an offset, and it knows
where the token that is being read starts.  A character that it passes counts either
as trivia, and then the token starts after it at the earliest, or as content of the
token.

The end of the source reads as the null character.  So does a null byte inside the
source, and so does every offset inside a character; only `atEnd` says that there is
nothing more to read, and `pass` stays in place only there.

A mark remembers where a cursor stands.  Nothing ties a mark to a source: a cursor
on a shorter source refuses a mark past its end, and one on a source with other
characters may come to stand inside one of them.  From there, `pass` moves on byte
by byte until it is between characters again.

## Main definitions

* `Cursor`, `Cursor.start` — a place in a source, and the first one.
* `Cursor.atEnd`, `Cursor.byte`, `Cursor.peek` — what there is to read.
* `Cursor.pass` — past the next character.
* `Cursor.openToken`, `Cursor.span`, `Cursor.lexeme` — the token being read.
* `Cursor.between`, `Cursor.since` — parts of the text.
* `Mark`, `Cursor.mark`, `Cursor.rewind` — going back.

## Main results

* `Cursor.pass_eq_ok_iff` — where `pass` goes, when the sum of offsets is one.
* `Cursor.remaining_lt_of_pass` — before the end, `pass` moves on.
-/

namespace SelectorLexer

/-- What a character counts as when a cursor passes it. -/
inductive Part where
  /-- The character stands in front of the token. -/
  | trivia : Part
  /-- The character belongs to the token. -/
  | content : Part
  deriving DecidableEq, Repr, Inhabited

/-- Where a cursor stood. -/
structure Mark where
  /-- The offset of the cursor. -/
  pos : Nat
  /-- The offset where its token started. -/
  tokenStart : Nat
  deriving DecidableEq, Repr, Inhabited

/-- A place in a source. -/
structure Cursor where
  /-- The source that is read. -/
  source : Source
  /-- The offset of what is read next. -/
  pos : Nat := 0
  /-- The offset where the token that is being read starts. -/
  tokenStart : Nat := 0
  deriving DecidableEq, Repr, Inhabited

/-- What is read where there is no character: at the end, and inside characters. -/
def endChar : Char := '\x00'

namespace Cursor

/-- The cursor at the start of a source. -/
def start (s : Source) : Cursor := ⟨s, 0, 0⟩

/-! ### Reading -/

/-- At the end there is nothing more to read. -/
def atEnd (c : Cursor) : Bool := c.source.size ≤ c.pos

/-- The number of bytes that are left to read. -/
def remaining (c : Cursor) : Nat := c.source.size - c.pos

/-- The byte that is read next, zero at the end. -/
def byte (c : Cursor) : UInt8 := if c.atEnd then 0 else (c.source.byteAt? c.pos).getD 0

/-- The character that is read next, or `endChar` if none starts here.  A byte below
`0x80` is its own character, wherever it stands. -/
def peek (c : Cursor) : Char :=
  if c.atEnd then endChar
  else if c.byte < 0x80 then Char.ofUInt8 c.byte
  else (c.source.charAt? c.pos).getD endChar

@[simp] theorem atEnd_iff {c : Cursor} : c.atEnd = true ↔ c.source.size ≤ c.pos := by
  simp [atEnd]

@[simp] theorem atEnd_eq_false_iff {c : Cursor} : c.atEnd = false ↔ c.pos < c.source.size := by
  simp [atEnd]

theorem byte_of_atEnd {c : Cursor} (h : c.atEnd = true) : c.byte = 0 := by simp [byte, h]

/-- Before the end, the byte that is read is the one at the offset of the cursor. -/
theorem byteAt?_pos {c : Cursor} (h : c.atEnd = false) :
    c.source.byteAt? c.pos = some c.byte := by
  have hlt := Nat.lt_of_lt_of_le (atEnd_eq_false_iff.1 h) c.source.size_le
  obtain ⟨b, hb⟩ := Source.exists_byteAt? hlt
  simp [byte, h, hb]

theorem peek_of_atEnd {c : Cursor} (h : c.atEnd = true) : c.peek = endChar := by simp [peek, h]

/-- Where a character other than `endChar` is read, the source goes on. -/
theorem atEnd_eq_false_of_peek {c : Cursor} (h : c.peek ≠ endChar) : c.atEnd = false := by
  cases hc : c.atEnd with
  | false => rfl
  | true => exact absurd (peek_of_atEnd hc) h

/-! ### Moving on -/

/-- The cursor at another offset, with what it passed on the way counted as `part`. -/
def moveTo (c : Cursor) (part : Part) (pos : Nat) : Cursor :=
  match part with
  | .trivia => { c with pos, tokenStart := pos }
  | .content => { c with pos }

@[simp] theorem source_moveTo (c : Cursor) (part : Part) (pos : Nat) :
    (c.moveTo part pos).source = c.source := by
  cases part <;> rfl

@[simp] theorem pos_moveTo (c : Cursor) (part : Part) (pos : Nat) :
    (c.moveTo part pos).pos = pos := by
  cases part <;> rfl

@[simp] theorem tokenStart_moveTo_trivia (c : Cursor) (pos : Nat) :
    (c.moveTo .trivia pos).tokenStart = pos := rfl

@[simp] theorem tokenStart_moveTo_content (c : Cursor) (pos : Nat) :
    (c.moveTo .content pos).tokenStart = c.tokenStart := rfl

/-- Pass the next character.  The cursor moves on by the bytes that the next byte
announces, but not past the end; at the end it stays. -/
def pass (c : Cursor) (part : Part) : Checked Cursor :=
  if c.atEnd then
    .ok c
  else
    match addOffset c.pos (Utf8.width c.byte) with
    | .error fault => .error fault
    | .ok next => .ok (c.moveTo part (min next c.source.size))

theorem pass_of_atEnd {c : Cursor} (h : c.atEnd = true) (part : Part) :
    c.pass part = .ok c := by
  simp [pass, h]

/-- Before the end, the cursor moves to the end of what the next byte announces. -/
theorem pass_eq_ok_iff {c c' : Cursor} {part : Part} (h : c.atEnd = false) :
    c.pass part = .ok c' ↔
      c.pos + Utf8.width c.byte ≤ maxOffset ∧
        c' = c.moveTo part (min (c.pos + Utf8.width c.byte) c.source.size) := by
  rw [pass, h, if_neg Bool.false_ne_true]
  cases hsum : addOffset c.pos (Utf8.width c.byte) with
  | error fault =>
    constructor
    · intro hpass
      cases hpass
    · rintro ⟨hle, -⟩
      rw [addOffset_of_le hle] at hsum
      cases hsum
  | ok next =>
    obtain ⟨hle, rfl⟩ := addOffset_eq_ok_iff.mp hsum
    rw [and_iff_right hle, Except.ok.injEq, eq_comm]

theorem source_of_pass {c c' : Cursor} {part : Part} (h : c.pass part = .ok c') :
    c'.source = c.source := by
  cases he : c.atEnd with
  | true =>
    rw [pass_of_atEnd he] at h
    rw [Except.ok.inj h]
  | false => rw [((pass_eq_ok_iff he).1 h).2, source_moveTo]

/-- Before the end, the cursor moves on. -/
theorem pos_lt_of_pass {c c' : Cursor} {part : Part} (he : c.atEnd = false)
    (h : c.pass part = .ok c') : c.pos < c'.pos := by
  have hw := Utf8.width_pos c.byte
  have hs := atEnd_eq_false_iff.1 he
  rw [((pass_eq_ok_iff he).1 h).2, pos_moveTo]
  omega

theorem pos_le_of_pass {c c' : Cursor} {part : Part} (h : c.pass part = .ok c') :
    c.pos ≤ c'.pos := by
  cases he : c.atEnd with
  | true =>
    rw [pass_of_atEnd he] at h
    exact Nat.le_of_eq (congrArg pos (Except.ok.inj h))
  | false => exact Nat.le_of_lt (pos_lt_of_pass he h)

/-- Before the end, less is left after a step. -/
theorem remaining_lt_of_pass {c c' : Cursor} {part : Part} (he : c.atEnd = false)
    (h : c.pass part = .ok c') : c'.remaining < c.remaining := by
  have hpos := pos_lt_of_pass he h
  have hs := atEnd_eq_false_iff.1 he
  rw [remaining, remaining, source_of_pass h]
  omega

/-! ### The token being read -/

/-- Let the token start here. -/
def openToken (c : Cursor) : Cursor := { c with tokenStart := c.pos }

/-- The offsets from the start of the token to the cursor. -/
def span (c : Cursor) : Span := ⟨c.tokenStart, c.pos⟩

@[simp] theorem source_openToken (c : Cursor) : c.openToken.source = c.source := rfl

@[simp] theorem pos_openToken (c : Cursor) : c.openToken.pos = c.pos := rfl

@[simp] theorem tokenStart_openToken (c : Cursor) : c.openToken.tokenStart = c.pos := rfl

/-! ### Parts of the text -/

/-- The text between two offsets.  The end is checked against the source before the
start is checked against the end.  A part that would cut a character is empty. -/
def between (c : Cursor) (start stop : Nat) : Checked String :=
  if c.source.size < stop then .error (.endPastSource stop c.source.size)
  else if stop < start then .error (.startPastEnd start stop)
  else .ok ((c.source.between? start stop).getD "")

/-- The text from an offset to the cursor. -/
def since (c : Cursor) (start : Nat) : Checked String := c.between start c.pos

/-- The text from the start of the token to the cursor. -/
def lexeme (c : Cursor) : Checked String := c.between c.tokenStart c.pos

/-! ### Going back -/

/-- Remember where the cursor stands. -/
def mark (c : Cursor) : Mark := ⟨c.pos, c.tokenStart⟩

/-- Go back to a mark, unless it lies past the end of the source. -/
def rewind (c : Cursor) (m : Mark) : Checked Cursor :=
  if m.pos ≤ c.source.size then .ok { c with pos := m.pos, tokenStart := m.tokenStart }
  else .error (.markPastSource m.pos c.source.size)

theorem rewind_eq_ok_iff {c c' : Cursor} {m : Mark} :
    c.rewind m = .ok c' ↔ m.pos ≤ c.source.size ∧ c' = ⟨c.source, m.pos, m.tokenStart⟩ := by
  unfold rewind
  split
  · next h => simp [h, eq_comm]
  · next h => simp [h]

end Cursor

end SelectorLexer
