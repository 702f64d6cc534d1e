import Mathlib.Data.String.Basic
import SelectorLexer.Cursor.Run

/-!
# Cursors between characters

A cursor works with byte offsets, and what is said about it is said about
characters.  The two meet at a cut: a cursor on a boundary of its source has some
characters behind it and some in front of it, and `Cursor.Splits` names them.  Where
such a cursor reads, it reads the first character in front of it; where it moves, it
moves characters from the front to the back.

Cuts are spoken of only in sources that offsets can count.  In a longer one the
cursor sees an end where the text goes on.

## Main definitions

* `Cursor.Splits` — the characters on both sides of a cursor.
* `Cursor.past` — the cursor after some characters, passed one by one.

## Main results

* `Source.isBoundary_iff_utf8Len`, `Source.charAt?_utf8Len` — boundaries, as cuts
  between characters.
* `Cursor.exists_splits_iff` — the cursors that stand at a cut.
* `Cursor.Splits.peek_eq_iff` — what is read at a cut.
* `Cursor.Splits.pass_cons`, `Cursor.Splits.passWhile` — where `pass` and
  `passWhile` lead.
* `Cursor.Splits.between` — the text between two cuts.
-/

namespace SelectorLexer

open String (utf8Len)

/-- Where a text is cut between characters, it is cut between texts. -/
theorem text_eq_append_of_toList {text : String} {before after : List Char}
    (h : text.toList = before ++ after) :
    text = String.ofList before ++ String.ofList after := by
  rw [← String.ofList_append, ← h, String.ofList_toList]

/-- Of two cuts through a text, the later one cuts what is behind the earlier one. -/
theorem exists_eq_append_of_utf8Len_le {before after before' after' : List Char}
    (h : before ++ after = before' ++ after') (hle : utf8Len before ≤ utf8Len before') :
    ∃ mid, before' = before ++ mid ∧ after = mid ++ after' := by
  rcases List.append_eq_append_iff.mp h with ⟨mid, rfl, rfl⟩ | ⟨mid, rfl, rfl⟩
  · exact ⟨mid, rfl, rfl⟩
  · -- the front that is no longer goes on with no bytes, so with no characters
    rw [String.utf8Len_append] at hle
    obtain rfl : mid = [] := String.utf8Len_eq_zero.mp (by omega)
    exact ⟨[], by rw [List.append_nil, List.append_nil], rfl⟩

/-- A text can be cut at an offset in one way only. -/
theorem append_inj_of_utf8Len_eq {before after before' after' : List Char}
    (h : before ++ after = before' ++ after') (hlen : utf8Len before = utf8Len before') :
    before = before' ∧ after = after' := by
  obtain ⟨mid, rfl, rfl⟩ := exists_eq_append_of_utf8Len_le h (Nat.le_of_eq hlen)
  rw [String.utf8Len_append] at hlen
  obtain rfl : mid = [] := String.utf8Len_eq_zero.mp (by omega)
  exact ⟨(List.append_nil before).symm, rfl⟩

theorem utf8ByteSize_eq_utf8Len (text : String) : text.utf8ByteSize = utf8Len text.toList := by
  rw [← String.utf8ByteSize_ofList, String.ofList_toList]

theorem utf8Len_replicate (n : Nat) (x : Char) :
    utf8Len (List.replicate n x) = n * x.utf8Size := by
  induction n with
  | zero => simp
  | succ n ih => simp [List.replicate_succ, ih, Nat.succ_mul]

namespace Source

/-- A boundary has whole characters in front of it. -/
theorem isBoundary_iff_utf8Len {s : Source} {i : Nat} :
    s.IsBoundary i ↔ ∃ before after, s.text.toList = before ++ after ∧ i = utf8Len before := by
  rw [isBoundary_iff]
  constructor
  · rintro ⟨before, after, htext, rfl⟩
    exact ⟨before.toList, after.toList, by rw [htext, String.toList_append],
      utf8ByteSize_eq_utf8Len before⟩
  · rintro ⟨before, after, hchars, rfl⟩
    exact ⟨String.ofList before, String.ofList after, text_eq_append_of_toList hchars,
      (String.utf8ByteSize_ofList before).symm⟩

/-- At a cut stands the first character behind it. -/
theorem charAt?_utf8Len {s : Source} {before after : List Char}
    (h : s.text.toList = before ++ after) : s.charAt? (utf8Len before) = after.head? := by
  rw [← String.utf8ByteSize_ofList, charAt?_of_eq_append (text_eq_append_of_toList h),
    String.toList_ofList]

end Source

namespace Cursor

/-! ### Cuts -/

/-- The cursor stands between the characters `before` and the characters `after`,
in a source of which it can reach every byte. -/
structure Splits (c : Cursor) (before after : List Char) : Prop where
  /-- Offsets can count the bytes of the source. -/
  fits : c.source.text.utf8ByteSize ≤ maxOffset
  /-- The two sides make up the text. -/
  chars : c.source.text.toList = before ++ after
  /-- The cursor stands where they meet. -/
  pos : c.pos = utf8Len before

/-- A new cursor has the whole text in front of it. -/
theorem splits_start {text : String} (h : text.utf8ByteSize ≤ maxOffset) :
    (Cursor.start ⟨text⟩).Splits [] text.toList :=
  ⟨h, rfl, rfl⟩

/-- The cursors at a cut are those on a boundary of their source. -/
theorem exists_splits_iff {c : Cursor} (h : c.source.text.utf8ByteSize ≤ maxOffset) :
    (∃ before after, c.Splits before after) ↔ c.source.IsBoundary c.pos := by
  rw [Source.isBoundary_iff_utf8Len]
  constructor
  · rintro ⟨before, after, hs⟩
    exact ⟨before, after, hs.chars, hs.pos⟩
  · rintro ⟨before, after, hchars, hpos⟩
    exact ⟨before, after, h, hchars, hpos⟩

namespace Splits

variable {c : Cursor} {before after : List Char}

theorem text_eq (h : c.Splits before after) :
    c.source.text = String.ofList before ++ String.ofList after :=
  text_eq_append_of_toList h.chars

theorem isBoundary (h : c.Splits before after) : c.source.IsBoundary c.pos :=
  (exists_splits_iff h.fits).mp ⟨before, after, h⟩

/-- At a cut, the source has the bytes of both sides. -/
theorem size_eq (h : c.Splits before after) :
    c.source.size = utf8Len before + utf8Len after := by
  rw [Source.size_of_le h.fits, utf8ByteSize_eq_utf8Len, h.chars, String.utf8Len_append]

/-- The token start plays no part in a cut. -/
theorem openToken (h : c.Splits before after) : c.openToken.Splits before after :=
  ⟨h.fits, h.chars, h.pos⟩

/-! ### Reading at a cut -/

/-- The end is where no characters are left. -/
theorem atEnd_iff (h : c.Splits before after) : c.atEnd = true ↔ after = [] := by
  rw [Cursor.atEnd_iff, h.size_eq, h.pos]
  cases after with
  | nil => simp
  | cons x rest =>
    have := x.utf8Size_pos
    simp only [String.utf8Len_cons, reduceCtorEq, iff_false]
    omega

theorem atEnd_cons {x : Char} {rest : List Char} (h : c.Splits before (x :: rest)) :
    c.atEnd = false := by
  rw [← Bool.not_eq_true, h.atEnd_iff]
  exact List.cons_ne_nil x rest

/-- In front of the end there is a character. -/
theorem exists_cons (h : c.Splits before after) (hend : c.atEnd = false) :
    ∃ x rest, after = x :: rest := by
  cases after with
  | nil =>
    rw [h.atEnd_iff.mpr rfl] at hend
    cases hend
  | cons x rest => exact ⟨x, rest, rfl⟩

theorem charAt?_eq (h : c.Splits before after) : c.source.charAt? c.pos = after.head? := by
  rw [h.pos, Source.charAt?_utf8Len h.chars]

/-- The next byte announces the next character, and is that character when it is
below `0x80`. -/
theorem byte_cons {x : Char} {rest : List Char} (h : c.Splits before (x :: rest)) :
    Utf8.width c.byte = x.utf8Size ∧ (c.byte < 0x80 → Char.ofUInt8 c.byte = x) := by
  obtain ⟨b, hb, hwidth, hsmall⟩ := Source.byteAt?_of_charAt? (h.charAt?_eq.trans List.head?_cons)
  obtain rfl : c.byte = b := Option.some.inj ((byteAt?_pos h.atEnd_cons).symm.trans hb)
  exact ⟨hwidth, hsmall⟩

theorem peek_cons {x : Char} {rest : List Char} (h : c.Splits before (x :: rest)) :
    c.peek = x := by
  unfold peek
  rw [h.atEnd_cons, if_neg Bool.false_ne_true]
  split
  · next hsmall => exact h.byte_cons.2 hsmall
  · rw [h.charAt?_eq]
    rfl

/-- A cursor at a cut reads the first character in front of it, or `endChar`. -/
theorem peek_eq (h : c.Splits before after) : c.peek = after.head?.getD endChar := by
  cases after with
  | nil => exact peek_of_atEnd (h.atEnd_iff.mpr rfl)
  | cons x rest => exact h.peek_cons

/-- Only `endChar` can be read where there is no character. -/
theorem peek_eq_iff (h : c.Splits before after) {x : Char} (hx : x ≠ endChar) :
    c.peek = x ↔ after.head? = some x := by
  rw [h.peek_eq]
  cases after with
  | nil => simp [hx.symm]
  | cons y rest => simp

end Splits

/-! ### Moving over characters -/

/-- The cursor after it has passed some characters, one by one. -/
def past (c : Cursor) (part : Part) : List Char → Cursor
  | [] => c
  | x :: run => (c.moveTo part (c.pos + x.utf8Size)).past part run

@[simp] theorem past_nil (c : Cursor) (part : Part) : c.past part [] = c := rfl

theorem past_cons (c : Cursor) (part : Part) (x : Char) (run : List Char) :
    c.past part (x :: run) = (c.moveTo part (c.pos + x.utf8Size)).past part run := rfl

theorem past_append (c : Cursor) (part : Part) (run more : List Char) :
    c.past part (run ++ more) = (c.past part run).past part more := by
  induction run generalizing c with
  | nil => rfl
  | cons x run ih => rw [List.cons_append, past_cons, past_cons, ih]

/-- Content that is passed belongs to the token, wherever that started. -/
theorem past_content (c : Cursor) (run : List Char) :
    c.past .content run = ⟨c.source, c.pos + utf8Len run, c.tokenStart⟩ := by
  induction run generalizing c with
  | nil => rfl
  | cons x run ih =>
    rw [past_cons, ih]
    simp only [source_moveTo, pos_moveTo, tokenStart_moveTo_content, String.utf8Len_cons, mk.injEq,
      true_and, and_true]
    omega

/-- Trivia that is passed takes the token start along, unless there is none of it. -/
theorem past_trivia (c : Cursor) (run : List Char) :
    c.past .trivia run =
      ⟨c.source, c.pos + utf8Len run,
        if run = [] then c.tokenStart else c.pos + utf8Len run⟩ := by
  induction run generalizing c with
  | nil => rfl
  | cons x run ih =>
    rw [past_cons, ih]
    have hsum : c.pos + x.utf8Size + utf8Len run = c.pos + utf8Len (x :: run) := by
      rw [String.utf8Len_cons]
      omega
    rw [source_moveTo, pos_moveTo, tokenStart_moveTo_trivia, hsum, if_neg (List.cons_ne_nil x run)]
    congr 1
    -- after the last character, the token starts where the cursor is
    split
    · next hrun => simp [hrun]
    · rfl

namespace Splits

variable {c : Cursor} {before after : List Char}

/-- Passing characters moves them from one side of the cut to the other. -/
theorem past {run : List Char} (h : c.Splits before (run ++ after)) (part : Part) :
    (c.past part run).Splits (before ++ run) after := by
  have hchars : c.source.text.toList = before ++ run ++ after := by
    rw [h.chars, List.append_assoc]
  have hpos : c.pos + utf8Len run = utf8Len (before ++ run) := by
    rw [h.pos, String.utf8Len_append]
  cases part with
  | content =>
    rw [past_content]
    exact ⟨h.fits, hchars, hpos⟩
  | trivia =>
    rw [past_trivia]
    exact ⟨h.fits, hchars, hpos⟩

theorem past_singleton {x : Char} {rest : List Char} (h : c.Splits before (x :: rest))
    (part : Part) : (c.past part [x]).Splits (before ++ [x]) rest :=
  past h part

/-- At a cut, `pass` passes one character. -/
theorem pass_cons {x : Char} {rest : List Char} (h : c.Splits before (x :: rest)) (part : Part) :
    c.pass part = .ok (c.past part [x]) := by
  have hsize := h.size_eq
  have hfits := h.fits
  rw [← Source.size_of_le h.fits, hsize, String.utf8Len_cons, ← h.pos] at hfits
  rw [String.utf8Len_cons, ← h.pos] at hsize
  rw [Cursor.pass_eq_ok_iff h.atEnd_cons, h.byte_cons.1]
  refine ⟨by omega, ?_⟩
  -- the character ends before the source does, so nothing is cut off
  rw [past_cons, past_nil, Nat.min_eq_left (by omega)]

/-- At the end there is no character to pass. -/
theorem pass (h : c.Splits before after) (part : Part) :
    c.pass part = .ok (c.past part (after.take 1)) := by
  cases after with
  | nil => exact pass_of_atEnd (h.atEnd_iff.mpr rfl) part
  | cons x rest => exact h.pass_cons part

/-- At a cut, `passWhile` passes the longest run of characters that are accepted. -/
theorem passWhile (h : c.Splits before after) (part : Part) (p : Char → Bool) :
    c.passWhile part p = .ok (c.past part (after.takeWhile p)) := by
  induction after generalizing c before with
  | nil => exact passWhile_of_atEnd (h.atEnd_iff.mpr rfl) part p
  | cons x rest ih =>
    by_cases hx : p x = true
    · rw [passWhile_of_pass h.atEnd_cons (by rwa [h.peek_cons]) (h.pass_cons part),
        ih (h.past_singleton part), List.takeWhile_cons_of_pos hx, ← past_append,
        List.singleton_append]
    · rw [passWhile_of_not (by rw [h.peek_cons]; simpa using hx),
        List.takeWhile_cons_of_neg hx, past_nil]

/-- The text between a cut and an earlier one. -/
theorem between {part : List Char} (h : c.Splits (before ++ part) after) :
    c.between (utf8Len before) c.pos = .ok (String.ofList part) := by
  have hsize := h.size_eq
  have hpos := h.pos
  rw [String.utf8Len_append] at hsize hpos
  have htext : c.source.text =
      String.ofList before ++ String.ofList part ++ String.ofList after := by
    rw [h.text_eq, String.ofList_append]
  have hpart := Source.between?_of_eq_append htext
  rw [String.utf8ByteSize_ofList, String.utf8ByteSize_ofList, ← hpos] at hpart
  rw [Cursor.between, if_neg (by omega), if_neg (by omega), hpart, Option.getD_some]

end Splits

end Cursor

end SelectorLexer
