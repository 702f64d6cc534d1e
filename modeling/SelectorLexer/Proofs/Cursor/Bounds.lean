import SelectorLexer.Proofs.Cursor.Splits

/-!
# Cursors that stay within their source

A cursor is in bounds when its token does not start behind it and it does not stand behind
the end of its source.  That is less than standing between characters, and it has to be:
a mark from another source may lead a cursor into the middle of a character.  It is still
enough for every step to be possible.  A byte that announces more than itself starts a
character, and the characters of a text end within the text; every other byte is passed by
itself.  So the sum that a step forms is never larger than the source.

A cursor that has never gone back to a mark of another text stands between characters, and
so does the start of its token.  In a text that is longer than offsets can count, its own
place is between characters at least.

These properties are kept by the few operations that move a cursor, and what those keep is
kept by everything that is built from them.  This is what `Stable` is for.

## Main definitions

* `Cursor.InBounds` — the token starts before the cursor, and the cursor is in the source.
* `Cursor.OnBoundaries` — besides, both places are between characters.
* `Cursor.Stable` — a property that no operation on cursors destroys.
* `Cursor.Within`, `Cursor.Reaches` — what is left of the two in longer texts.

## Main results

* `Cursor.pos_add_width_le` — what the next byte announces is part of the source.
* `Cursor.exists_pass`, `Cursor.exists_passWhile` — moving on is never a fault.
* `Cursor.stable_inBounds`, `Cursor.stable_onBoundaries` — the two properties are stable.
* `Cursor.stable_within`, `Cursor.stable_reach` — in texts of any length, a cursor does not leave
  its source, and moves from boundary to boundary.
* `Cursor.InBounds.lexeme`, `Cursor.OnBoundaries.lexeme` — the text of the token.
* `Cursor.between_of_isBoundary` — the text between two boundaries.
* `Cursor.between_eq_error_iff`, `Cursor.rewind_eq_error_iff` — what can still be refused.
-/

namespace SelectorLexer

open String (utf8Len)

/-- In front of the end, the character at a boundary can be cut out of the text. -/
theorem Source.IsBoundary.exists_eq_append {s : Source} {i : Nat} (h : s.IsBoundary i)
    (hi : i < s.text.utf8ByteSize) :
    ∃ before x after, s.text = before ++ String.singleton x ++ after ∧
      i = before.utf8ByteSize ∧ s.charAt? i = some x := by
  obtain ⟨before, after, hchars, rfl⟩ := Source.isBoundary_iff_utf8Len.mp h
  cases after with
  | nil =>
    rw [utf8ByteSize_eq_utf8Len, hchars, List.append_nil] at hi
    omega
  | cons x rest =>
    refine ⟨String.ofList before, x, String.ofList rest, ?_,
      (String.utf8ByteSize_ofList before).symm, Source.charAt?_utf8Len hchars⟩
    rw [text_eq_append_of_toList hchars, String.append_assoc, String.ofList_cons]

namespace Cursor

/-! ### Places of a cursor -/

/-- The token starts no later than the cursor stands, and the cursor stands no later than
its source ends. -/
structure InBounds (c : Cursor) : Prop where
  /-- Offsets can count the bytes of the source. -/
  fits : c.source.text.utf8ByteSize ≤ maxOffset
  start_le : c.tokenStart ≤ c.pos
  pos_le : c.pos ≤ c.source.size

/-- The cursor is in bounds, and cuts no character; neither does the start of its token. -/
structure OnBoundaries (c : Cursor) : Prop extends InBounds c where
  isBoundary_pos : c.source.IsBoundary c.pos
  isBoundary_start : c.source.IsBoundary c.tokenStart

theorem onBoundaries_start {s : Source} (h : s.text.utf8ByteSize ≤ maxOffset) :
    (Cursor.start s).OnBoundaries :=
  ⟨⟨h, Nat.le_refl 0, Nat.zero_le _⟩, s.isBoundary_zero, s.isBoundary_zero⟩

/-! ### Moving on -/

section Moving

variable {c c' : Cursor} {part : Part}

/-- **What the next byte announces is part of the source**, wherever the cursor stands. -/
theorem pos_add_width_le (hfits : c.source.text.utf8ByteSize ≤ maxOffset)
    (hend : c.atEnd = false) : c.pos + Utf8.width c.byte ≤ c.source.size := by
  have hlt := atEnd_eq_false_iff.mp hend
  by_cases hfirst : c.byte.IsUTF8FirstByte
  · -- the byte starts a character, which ends in the source
    obtain ⟨before, after, h⟩ := (exists_splits_iff hfits).mpr
      ((Source.isBoundary_iff_of_byteAt? (byteAt?_pos hend)).mpr hfirst)
    obtain ⟨x, rest, rfl⟩ := h.exists_cons hend
    rw [h.byte_cons.1, h.size_eq, h.pos, String.utf8Len_cons]
    omega
  · rw [Utf8.width_eq_one _ hfirst]
    omega

/-- Before the end, a step goes as far as the next byte announces. -/
theorem pass_of_fits (hfits : c.source.text.utf8ByteSize ≤ maxOffset) (hend : c.atEnd = false)
    (part : Part) : c.pass part = .ok (c.moveTo part (c.pos + Utf8.width c.byte)) := by
  have hle := pos_add_width_le hfits hend
  rw [pass_eq_ok_iff hend]
  refine ⟨?_, by rw [Nat.min_eq_left hle]⟩
  rw [Source.size_of_le hfits] at hle
  exact Nat.le_trans hle hfits

/-- A step is never a fault. -/
theorem exists_pass (hfits : c.source.text.utf8ByteSize ≤ maxOffset) (part : Part) :
    ∃ c', c.pass part = .ok c' := by
  cases hend : c.atEnd with
  | true => exact ⟨c, pass_of_atEnd hend part⟩
  | false => exact ⟨_, pass_of_fits hfits hend part⟩

/-- Neither is a run of steps, whatever the characters are asked for. -/
theorem exists_passWhile (hfits : c.source.text.utf8ByteSize ≤ maxOffset) (part : Part)
    (p : Char → Bool) : ∃ c', c.passWhile part p = .ok c' := by
  induction hn : c.remaining using Nat.strong_induction_on generalizing c with
  | _ n ih =>
    cases hend : c.atEnd with
    | true => exact ⟨c, passWhile_of_atEnd hend part p⟩
    | false =>
      cases hp : p c.peek with
      | false => exact ⟨c, passWhile_of_not hp part⟩
      | true =>
        obtain ⟨next, hnext⟩ := exists_pass hfits part
        have hless := remaining_lt_of_pass hend hnext
        rw [← source_of_pass hnext] at hfits
        obtain ⟨last, hlast⟩ := ih _ (hn ▸ hless) hfits rfl
        exact ⟨last, (passWhile_of_pass hend hp hnext).trans hlast⟩

end Moving

/-! ### What is kept -/

/-- A property of cursors that is kept when a cursor moves on, when it opens a token, and
when it goes back to where a cursor with the property stood, on whatever source. -/
structure Stable (P : Cursor → Prop) : Prop where
  pass : ∀ {c c' : Cursor} {part : Part}, P c → c.pass part = .ok c' → P c'
  openToken : ∀ {c : Cursor}, P c → P c.openToken
  rewind : ∀ {c d c' : Cursor}, P c → P d → c.rewind d.mark = .ok c' → P c'

theorem Stable.passWhile {P : Cursor → Prop} (hP : Stable P) {c c' : Cursor} {part : Part}
    {p : Char → Bool} (hc : P c) (h : c.passWhile part p = .ok c') : P c' := by
  fun_induction Cursor.passWhile c part p with
  | case1 => cases h
  | case2 c _ next hnext _ ih => exact ih (hP.pass hc hnext) h
  | case3 => rwa [← Except.ok.inj h]

section Passing

variable {c c' : Cursor} {part : Part}

theorem InBounds.pass (h : c.InBounds) (hpass : c.pass part = .ok c') : c'.InBounds := by
  cases hend : c.atEnd with
  | true =>
    rw [pass_of_atEnd hend] at hpass
    rwa [← Except.ok.inj hpass]
  | false =>
    have hle := pos_add_width_le h.fits hend
    have hstart := h.start_le
    rw [pass_of_fits h.fits hend] at hpass
    obtain rfl := Except.ok.inj hpass
    refine ⟨by rw [source_moveTo]; exact h.fits, ?_, by rwa [source_moveTo, pos_moveTo]⟩
    cases part with
    | trivia => exact Nat.le_refl _
    | content =>
      rw [tokenStart_moveTo_content, pos_moveTo]
      omega

theorem OnBoundaries.pass (h : c.OnBoundaries) (hpass : c.pass part = .ok c') :
    c'.OnBoundaries := by
  obtain ⟨before, after, hsplits⟩ := (exists_splits_iff h.fits).mpr h.isBoundary_pos
  have hin := h.toInBounds.pass hpass
  rw [hsplits.pass part] at hpass
  obtain rfl := Except.ok.inj hpass
  rw [← List.take_append_drop 1 after] at hsplits
  have hpos := (hsplits.past part).isBoundary
  refine ⟨hin, hpos, ?_⟩
  cases part with
  | trivia =>
    -- the token starts where the cursor stands, unless nothing was passed
    rw [past_trivia] at hpos ⊢
    show c.source.IsBoundary _
    split
    · exact h.isBoundary_start
    · exact hpos
  | content =>
    rw [past_content]
    exact h.isBoundary_start

end Passing

/-- **A cursor stays in bounds**, also when it goes back to a mark from another source. -/
theorem stable_inBounds : Stable InBounds where
  pass := InBounds.pass
  openToken h := ⟨h.fits, Nat.le_refl _, h.pos_le⟩
  rewind hc hd h := by
    obtain ⟨hle, rfl⟩ := rewind_eq_ok_iff.mp h
    exact ⟨hc.fits, hd.start_le, hle⟩

/-- **On one source, a cursor stays between characters.** -/
theorem stable_onBoundaries (s : Source) : Stable fun c => c.source = s ∧ c.OnBoundaries where
  pass h hpass := ⟨(source_of_pass hpass).trans h.1, h.2.pass hpass⟩
  openToken h :=
    ⟨h.1, ⟨h.2.fits, Nat.le_refl _, h.2.pos_le⟩, h.2.isBoundary_pos, h.2.isBoundary_pos⟩
  rewind hc hd h := by
    obtain ⟨hsource, hc⟩ := hc
    obtain ⟨rfl, hd⟩ := hd
    obtain ⟨hle, rfl⟩ := rewind_eq_ok_iff.mp h
    rw [hsource]
    exact ⟨rfl, ⟨hd.fits, hd.start_le, hd.pos_le⟩, hd.isBoundary_pos, hd.isBoundary_start⟩

/-! ### In texts of any length -/

/-- On one source, the cursor stands no further than it can reach. -/
def Within (s : Source) (c : Cursor) : Prop := c.source = s ∧ c.pos ≤ s.size

/-- **A cursor does not leave its source**, in texts of any length. -/
theorem stable_within (s : Source) : Stable (Within s) where
  pass := by
    rintro c c' part ⟨rfl, hle⟩ hpass
    refine ⟨source_of_pass hpass, ?_⟩
    cases hend : c.atEnd with
    | true =>
      rw [pass_of_atEnd hend] at hpass
      rwa [← Except.ok.inj hpass]
    | false =>
      rw [((pass_eq_ok_iff hend).mp hpass).2, pos_moveTo]
      exact Nat.min_le_right _ _
  openToken h := h
  rewind hc _ h := by
    obtain ⟨hle, rfl⟩ := rewind_eq_ok_iff.mp h
    exact ⟨hc.1, hc.1 ▸ hle⟩

/-- On one source, the cursor stands between characters, and no further than it can reach. -/
def Reaches (s : Source) (c : Cursor) : Prop :=
  c.source = s ∧ c.pos ≤ s.size ∧ s.IsBoundary c.pos

/-- A step that is not refused leads over the whole character. -/
theorem Reaches.pass {s : Source} {c c' : Cursor} {part : Part} (h : c.Reaches s)
    (hpass : c.pass part = .ok c') : c'.Reaches s := by
  obtain ⟨rfl, hle, hb⟩ := h
  refine ⟨source_of_pass hpass, ?_⟩
  cases hend : c.atEnd with
  | true =>
    rw [pass_of_atEnd hend] at hpass
    rw [← Except.ok.inj hpass]
    exact ⟨hle, hb⟩
  | false =>
    have hlt := Nat.lt_of_lt_of_le (atEnd_eq_false_iff.mp hend) c.source.size_le
    obtain ⟨before, x, after, htext, hpos, hchar⟩ := hb.exists_eq_append hlt
    obtain ⟨b, hbyte, hwidth, -⟩ := Source.byteAt?_of_charAt? hchar
    obtain rfl : c.byte = b := Option.some.inj ((byteAt?_pos hend).symm.trans hbyte)
    obtain ⟨hmax, rfl⟩ := (pass_eq_ok_iff hend).mp hpass
    rw [hwidth] at hmax
    have hstop : c.pos + x.utf8Size = (before ++ String.singleton x).utf8ByteSize := by
      rw [String.utf8ByteSize_append, String.utf8ByteSize_singleton, hpos]
    have hsize := congrArg String.utf8ByteSize htext
    rw [String.utf8ByteSize_append, ← hstop] at hsize
    -- the character ends in the text, and offsets can count as far
    have hreach : c.pos + x.utf8Size ≤ c.source.size := Nat.le_min.mpr ⟨by omega, hmax⟩
    rw [pos_moveTo, hwidth, Nat.min_eq_left hreach]
    exact ⟨hreach, Source.isBoundary_iff.mpr ⟨_, _, htext, hstop⟩⟩

/-- **A cursor moves from boundary to boundary**, in texts of any length. -/
theorem stable_reach (s : Source) : Stable (Reaches s) where
  pass := Reaches.pass
  openToken h := h
  rewind hc hd h := by
    obtain ⟨-, rfl⟩ := rewind_eq_ok_iff.mp h
    exact ⟨hc.1, hd.2⟩

/-! ### Asking for the token -/

/-- The token of a cursor in bounds has a length. -/
theorem InBounds.length_span {c : Cursor} (h : c.InBounds) :
    c.span.length = .ok (c.pos - c.tokenStart) :=
  Span.length_eq_ok_iff.mpr (Nat.add_sub_cancel' h.start_le)

/-- Its text can be asked for, though it is empty if the token cuts a character. -/
theorem InBounds.lexeme {c : Cursor} (h : c.InBounds) :
    c.lexeme = .ok ((c.source.between? c.tokenStart c.pos).getD "") := by
  rw [Cursor.lexeme, between, if_neg (Nat.not_lt.mpr h.pos_le), if_neg (Nat.not_lt.mpr h.start_le)]

/-- Between two boundaries stand the bytes of the text from one to the other. -/
theorem between_of_isBoundary {c : Cursor} {i j : Nat} (hle : i ≤ j) (hsize : j ≤ c.source.size)
    (hi : c.source.IsBoundary i) (hj : c.source.IsBoundary j) :
    ∃ part, c.source.between? i j = some part ∧ c.between i j = .ok part ∧
      part.toByteArray = c.source.text.toByteArray.extract i j := by
  obtain ⟨part, hpart⟩ : ∃ part, c.source.between? i j = some part :=
    ⟨_, dif_pos ⟨hle, hi, hj⟩⟩
  refine ⟨part, hpart, ?_, Source.toByteArray_of_between? hpart⟩
  rw [between, if_neg (Nat.not_lt.mpr hsize), if_neg (Nat.not_lt.mpr hle), hpart,
    Option.getD_some]

/-- Between characters, the text is all that the source holds from one place to the other. -/
theorem OnBoundaries.lexeme {c : Cursor} (h : c.OnBoundaries) :
    ∃ part, c.source.between? c.tokenStart c.pos = some part ∧ c.lexeme = .ok part ∧
      part.toByteArray = c.source.text.toByteArray.extract c.tokenStart c.pos :=
  between_of_isBoundary h.start_le h.pos_le h.isBoundary_start h.isBoundary_pos

/-! ### Asking for other places -/

/-- A part of the text is refused for its end, and otherwise for its start. -/
theorem between_eq_error_iff {c : Cursor} {start stop : Nat} {f : Fault} :
    c.between start stop = .error f ↔
      (c.source.size < stop ∧ f = .endPastSource stop c.source.size) ∨
        (stop ≤ c.source.size ∧ stop < start ∧ f = .startPastEnd start stop) := by
  unfold between
  split
  · next hlt => simp [hlt, eq_comm]
  · next hle =>
    rw [Nat.not_lt] at hle
    split
    · next hlt => simp [hle, hlt, Nat.not_lt.mpr hle, eq_comm]
    · next hle' => simp [hle', Nat.not_lt.mpr hle]

theorem rewind_eq_error_iff {c : Cursor} {m : Mark} {f : Fault} :
    c.rewind m = .error f ↔ c.source.size < m.pos ∧ f = .markPastSource m.pos c.source.size := by
  unfold rewind
  split
  · next hle => simp [Nat.not_lt.mpr hle]
  · next hlt => simp [Nat.lt_of_not_le hlt, eq_comm]

end Cursor

end SelectorLexer
