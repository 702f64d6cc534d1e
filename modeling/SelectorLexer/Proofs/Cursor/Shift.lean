import SelectorLexer.Proofs.Cursor.Bounds
import SelectorLexer.Token

/-!
# The same text further on

A cursor works with the offsets of its source, but what it does depends only on the text
that it sees.  A source can hold the text of another one further on, behind other text,
and end with it.  Then each cursor on the one has a counterpart on the other, and whatever
the first cursor does, the second does as many bytes further on.

A source also ends for its cursors where offsets can count no further, although the text
may go on.  So the text that the cursors of a source can reach is held by the source in
the same way, with nothing in front of it.

## Main definitions

* `Mark.shift`, `Span.shift`, `Token.shift` — places further on.
* `Source.IsTail` — one source holds the text of another, and ends with it.
* `Cursor.shift` — the counterpart of a cursor.

## Main results

* `Source.IsTail.byteAt?_add`, `Source.IsTail.charAt?_add`, `Source.IsTail.between?_add` —
  what is read of a tail.
* `Cursor.peek_shift`, `Cursor.pass_shift`, `Cursor.passWhile_shift`, `Cursor.rewind_shift`,
  `Cursor.lexeme_shift` — what the counterpart of a cursor does.
-/

namespace SelectorLexer

/-! ### Places further on -/

/-- The mark that is `n` bytes further on. -/
def Mark.shift (n : Nat) (m : Mark) : Mark := ⟨n + m.pos, n + m.tokenStart⟩

/-- The span that is `n` bytes further on. -/
def Span.shift (n : Nat) (s : Span) : Span := ⟨n + s.start, n + s.stop⟩

/-- The token that is `n` bytes further on. -/
def Token.shift (n : Nat) (t : Token) : Token := ⟨t.kind, t.span.shift n⟩

@[simp] theorem Mark.shift_inj {n : Nat} {m m' : Mark} : m.shift n = m'.shift n ↔ m = m' := by
  cases m
  cases m'
  simp [Mark.shift]

@[simp] theorem Span.length_shift (n : Nat) (s : Span) : (s.shift n).length = s.length := by
  rw [length, length, shift]
  rcases Nat.lt_or_ge s.stop s.start with hlt | hle
  · rw [subOffset_of_lt (Nat.add_lt_add_left hlt n), subOffset_of_lt hlt]
  · rw [subOffset_of_le (Nat.add_le_add_left hle n), subOffset_of_le hle, Nat.add_sub_add_left]

@[simp] theorem Span.isEmpty_shift (n : Nat) (s : Span) : (s.shift n).isEmpty = s.isEmpty := by
  rw [Bool.eq_iff_iff, isEmpty_iff, isEmpty_iff, shift, Nat.add_left_cancel_iff]

@[simp] theorem Span.shift_zero (s : Span) : s.shift 0 = s := by simp [Span.shift]

@[simp] theorem Token.shift_zero (t : Token) : t.shift 0 = t := by simp [Token.shift]

/-! ### Tails of a source -/

namespace Source

/-- Between two boundaries stands what can be cut out there. -/
theorem exists_eq_append_of_between? {s : Source} {start stop : Nat} {part : String}
    (h : s.between? start stop = some part) :
    ∃ before after, s.text = before ++ part ++ after ∧ start = before.utf8ByteSize ∧
      stop = before.utf8ByteSize + part.utf8ByteSize := by
  obtain ⟨hle, hstart, hstop⟩ : start ≤ stop ∧ s.IsBoundary start ∧ s.IsBoundary stop := by
    by_contra hnot
    rw [between?, dif_neg hnot] at h
    cases h
  obtain ⟨before, behind, hbefore, rfl⟩ := isBoundary_iff.mp hstart
  obtain ⟨front, after, hfront, rfl⟩ := isBoundary_iff.mp hstop
  -- the later of the two cuts is made in what follows the earlier one
  obtain ⟨mid, hmid, -⟩ : ∃ mid, front.toList = before.toList ++ mid ∧
      behind.toList = mid ++ after.toList := by
    apply exists_eq_append_of_utf8Len_le
    · rw [← String.toList_append, ← String.toList_append, ← hbefore, ← hfront]
    · rwa [← utf8ByteSize_eq_utf8Len, ← utf8ByteSize_eq_utf8Len]
  obtain rfl : front = before ++ String.ofList mid := by
    rw [← String.toList_inj, hmid, String.toList_append, String.toList_ofList]
  rw [String.utf8ByteSize_append] at h ⊢
  rw [between?_of_eq_append hfront] at h
  obtain rfl := Option.some.inj h
  exact ⟨before, after, hfront, rfl, rfl⟩

/-- From the offset `n` on, the source `t` holds the text of `s`, and there it ends for all
cursors. -/
structure IsTail (s t : Source) (n : Nat) : Prop where
  /-- What comes behind the text is out of reach. -/
  text_eq : ∃ front back, t.text = front ++ s.text ++ back ∧ n = front.utf8ByteSize
  size_eq : t.size = n + s.text.utf8ByteSize

/-- A text is a tail of every text that ends with it. -/
theorem isTail_append {front text : String} (h : (front ++ text).utf8ByteSize ≤ maxOffset) :
    (⟨text⟩ : Source).IsTail ⟨front ++ text⟩ front.utf8ByteSize where
  text_eq := ⟨front, "", (String.append_empty).symm, rfl⟩
  size_eq := by rw [size_of_le h, String.utf8ByteSize_append]

/-- What the cursors of a source can reach is a tail of it. -/
theorem isTail_of_size {seen unseen : String}
    (h : (⟨seen ++ unseen⟩ : Source).size = seen.utf8ByteSize) :
    (⟨seen⟩ : Source).IsTail ⟨seen ++ unseen⟩ 0 where
  text_eq := ⟨"", unseen, by rw [String.empty_append], rfl⟩
  size_eq := by rw [h, Nat.zero_add]

namespace IsTail

variable {s t : Source} {n i : Nat}

/-- Offsets can count the bytes of a tail. -/
theorem fits (h : s.IsTail t n) : s.text.utf8ByteSize ≤ maxOffset := by
  have hsize := h.size_eq
  have hle : t.size ≤ maxOffset := Nat.min_le_right _ _
  omega

theorem size_eq_add (h : s.IsTail t n) : t.size = n + s.size := by
  rw [h.size_eq, size_of_le h.fits]

theorem byteAt?_add (h : s.IsTail t n) (hi : i < s.text.utf8ByteSize) :
    t.byteAt? (n + i) = s.byteAt? i := by
  obtain ⟨front, back, htext, rfl⟩ := h.text_eq
  rw [← String.size_toByteArray] at hi ⊢
  have hall : front.toByteArray.size + i <
      (front.toByteArray ++ (s.text.toByteArray ++ back.toByteArray)).size := by
    rw [ByteArray.size_append, ByteArray.size_append]
    omega
  rw [byteAt?_eq, byteAt?_eq, htext, String.append_assoc, String.toByteArray_append,
    String.toByteArray_append, getElem?_pos _ (front.toByteArray.size + i) hall,
    getElem?_pos _ i hi,
    ByteArray.getElem_append_right (Nat.le_add_right _ _)]
  simp only [Nat.add_sub_cancel_left]
  rw [ByteArray.getElem_append_left hi]

/-- A tail can be cut where the source that holds it can. -/
theorem isBoundary_add_iff (h : s.IsTail t n) (hi : i ≤ s.text.utf8ByteSize) :
    t.IsBoundary (n + i) ↔ s.IsBoundary i := by
  rcases Nat.lt_or_eq_of_le hi with hlt | rfl
  · obtain ⟨b, hb⟩ := exists_byteAt? hlt
    rw [isBoundary_iff_of_byteAt? ((h.byteAt?_add hlt).trans hb), isBoundary_iff_of_byteAt? hb]
  · obtain ⟨front, back, htext, rfl⟩ := h.text_eq
    refine iff_of_true (isBoundary_iff.mpr ⟨front ++ s.text, back, htext, ?_⟩) s.isBoundary_size
    rw [String.utf8ByteSize_append]

theorem charAt?_add (h : s.IsTail t n) (hi : i < s.text.utf8ByteSize) :
    t.charAt? (n + i) = s.charAt? i := by
  by_cases hb : s.IsBoundary i
  · obtain ⟨front, back, htext, rfl⟩ := h.text_eq
    obtain ⟨before, after, hcut, rfl⟩ := isBoundary_iff.mp hb
    have hafter : after.toList ≠ [] := by
      intro hnil
      rw [hcut, String.utf8ByteSize_append, utf8ByteSize_eq_utf8Len after, hnil,
        String.utf8Len_nil] at hi
      omega
    have hmore : t.text = front ++ before ++ (after ++ back) := by
      rw [htext, hcut]
      simp only [String.append_assoc]
    rw [← String.utf8ByteSize_append, charAt?_of_eq_append hmore, charAt?_of_eq_append hcut,
      String.toList_append, List.head?_append_of_ne_nil _ hafter]
  · rw [charAt?_of_not_isBoundary hb,
      charAt?_of_not_isBoundary (mt (h.isBoundary_add_iff (Nat.le_of_lt hi)).mp hb)]

theorem between?_add {start stop : Nat} (h : s.IsTail t n) (hstart : start ≤ stop)
    (hstop : stop ≤ s.text.utf8ByteSize) :
    t.between? (n + start) (n + stop) = s.between? start stop := by
  cases hpart : s.between? start stop with
  | some part =>
    obtain ⟨front, back, htext, rfl⟩ := h.text_eq
    obtain ⟨before, after, hcut, rfl, rfl⟩ := exists_eq_append_of_between? hpart
    have hmore : t.text = front ++ before ++ part ++ (after ++ back) := by
      rw [htext, hcut]
      simp only [String.append_assoc]
    rw [← Nat.add_assoc, ← String.utf8ByteSize_append, between?_of_eq_append hmore]
  | none =>
    -- one of the ends cuts a character, and it does so in both sources
    unfold between? at hpart ⊢
    rw [dif_neg]
    rintro ⟨-, hb, hb'⟩
    rw [h.isBoundary_add_iff (Nat.le_trans hstart hstop)] at hb
    rw [h.isBoundary_add_iff hstop] at hb'
    rw [dif_pos ⟨hstart, hb, hb'⟩] at hpart
    cases hpart

end IsTail

end Source

/-! ### Cursors on a tail -/

namespace Cursor

/-- The counterpart of a cursor on a source that holds its text from the offset `n` on. -/
def shift (t : Source) (n : Nat) (c : Cursor) : Cursor := ⟨t, n + c.pos, n + c.tokenStart⟩

section Shift

variable {t : Source} {n : Nat} {c c' : Cursor} {part : Part}

@[simp] theorem source_shift : (c.shift t n).source = t := rfl

@[simp] theorem pos_shift : (c.shift t n).pos = n + c.pos := rfl

@[simp] theorem tokenStart_shift : (c.shift t n).tokenStart = n + c.tokenStart := rfl

@[simp] theorem mark_shift : (c.shift t n).mark = c.mark.shift n := rfl

@[simp] theorem span_shift : (c.shift t n).span = c.span.shift n := rfl

theorem moveTo_shift (part : Part) (pos : Nat) :
    (c.shift t n).moveTo part (n + pos) = (c.moveTo part pos).shift t n := by
  cases part <;> rfl

/-! ### Reading -/

theorem atEnd_shift (h : c.source.IsTail t n) : (c.shift t n).atEnd = c.atEnd := by
  rw [Bool.eq_iff_iff, atEnd_iff, atEnd_iff, source_shift, pos_shift, h.size_eq_add,
    Nat.add_le_add_iff_left]

theorem byte_shift (h : c.source.IsTail t n) : (c.shift t n).byte = c.byte := by
  unfold byte
  rw [atEnd_shift h]
  cases hend : c.atEnd with
  | true => rfl
  | false =>
    have hlt := Nat.lt_of_lt_of_le (atEnd_eq_false_iff.mp hend) c.source.size_le
    rw [source_shift, pos_shift, h.byteAt?_add hlt]

theorem peek_shift (h : c.source.IsTail t n) : (c.shift t n).peek = c.peek := by
  unfold peek
  rw [atEnd_shift h, byte_shift h]
  cases hend : c.atEnd with
  | true => rfl
  | false =>
    have hlt := Nat.lt_of_lt_of_le (atEnd_eq_false_iff.mp hend) c.source.size_le
    rw [source_shift, pos_shift, h.charAt?_add hlt]

/-- The text of the token is the same. -/
theorem lexeme_shift (h : c.source.IsTail t n) (hc : c.InBounds) :
    (c.shift t n).lexeme = c.lexeme := by
  have hstart := hc.start_le
  have hpos := hc.pos_le
  have hsize := h.size_eq_add
  rw [hc.lexeme, lexeme, between, source_shift, pos_shift, tokenStart_shift, if_neg (by omega),
    if_neg (by omega), h.between?_add hstart (Nat.le_trans hpos c.source.size_le)]

/-! ### Moving -/

theorem pass_shift (h : c.source.IsTail t n) (hpass : c.pass part = .ok c') :
    (c.shift t n).pass part = .ok (c'.shift t n) := by
  cases hend : c.atEnd with
  | true =>
    rw [pass_of_atEnd hend] at hpass
    rw [pass_of_atEnd (by rwa [atEnd_shift h]), Except.ok.inj hpass]
  | false =>
    have hle := pos_add_width_le h.fits hend
    have hsize := h.size_eq_add
    have hmax : t.size ≤ maxOffset := Nat.min_le_right _ _
    rw [pass_of_fits h.fits hend] at hpass
    rw [pass_eq_ok_iff (by rwa [atEnd_shift h]), byte_shift h, source_shift, pos_shift,
      ← Except.ok.inj hpass]
    -- the character ends in the tail, so it is not cut off in either source
    refine ⟨by omega, ?_⟩
    rw [Nat.min_eq_left (by omega), Nat.add_assoc, moveTo_shift]

theorem passWhile_shift {p : Char → Bool} (h : c.source.IsTail t n)
    (hpass : c.passWhile part p = .ok c') :
    (c.shift t n).passWhile part p = .ok (c'.shift t n) := by
  fun_induction Cursor.passWhile c part p with
  | case1 => cases hpass
  | case2 c hgo next hnext _ ih =>
    rw [passWhile_of_pass (by rw [atEnd_shift h]; exact hgo.1) (by rw [peek_shift h]; exact hgo.2)
      (pass_shift h hnext)]
    exact ih (by rwa [source_of_pass hnext]) hpass
  | case3 c hstop =>
    rw [passWhile, dif_neg (by rwa [atEnd_shift h, peek_shift h]), Except.ok.inj hpass]

theorem rewind_shift {m : Mark} (h : c.source.IsTail t n) (hrewind : c.rewind m = .ok c') :
    (c.shift t n).rewind (m.shift n) = .ok (c'.shift t n) := by
  obtain ⟨hle, rfl⟩ := rewind_eq_ok_iff.mp hrewind
  rw [rewind_eq_ok_iff, source_shift, h.size_eq_add]
  exact ⟨Nat.add_le_add_left hle n, rfl⟩

end Shift

end Cursor

end SelectorLexer
