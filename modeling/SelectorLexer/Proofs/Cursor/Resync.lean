import Mathlib.Data.Nat.Find
import Mathlib.Order.Bounds.Defs
import SelectorLexer.Proofs.Cursor.Bounds
import SelectorLexer.Proofs.Cursor.Steps

/-!
# The way out of a character

A mark from another source may lead a cursor into the middle of a character.  It reads
nothing there, and it passes one byte at a time, since no byte inside a character announces
more than itself.  A character has at most four bytes, so after at most three steps the
cursor is between characters again, at the first boundary there is.  From then on it moves
from each boundary to the next one.

So wherever a cursor stands, no step leads it past a boundary.

## Main results

* `Source.not_isBoundary_of_lt` — inside a character there is no boundary.
* `Source.exists_isLeast_isBoundary` — the next boundary is at most three bytes away.
* `Cursor.peek_of_not_isBoundary`, `Cursor.pass_of_not_isBoundary` — what a cursor reads
  and where it goes inside a character.
* `Cursor.exists_passMany_of_isLeast` — the steps to the next boundary.
* `Cursor.not_isBoundary_of_pass` — no step leads past a boundary.
* `Cursor.passMany_resynchronizes` — the way from any place.
-/

namespace SelectorLexer

open String (utf8Len)

/-! ### Boundaries and characters -/

namespace Source

variable {s : Source} {i : Nat}

/-- **Inside a character there is no boundary.** -/
theorem not_isBoundary_of_lt {before after : List Char} {x : Char}
    (h : s.text.toList = before ++ x :: after) (hlt : utf8Len before < i)
    (hlt' : i < utf8Len before + x.utf8Size) : ¬ s.IsBoundary i := by
  intro hb
  obtain ⟨front, back, hfront, rfl⟩ := isBoundary_iff_utf8Len.mp hb
  obtain ⟨mid, rfl, hmid⟩ := exists_eq_append_of_utf8Len_le (h.symm.trans hfront) (Nat.le_of_lt hlt)
  rw [String.utf8Len_append] at hlt hlt'
  -- what lies between the two cuts starts with the whole character
  cases mid with
  | nil =>
    rw [String.utf8Len_nil] at hlt
    omega
  | cons y mid =>
    obtain ⟨rfl, -⟩ := List.cons.inj hmid
    rw [String.utf8Len_cons] at hlt'
    omega

/-- From any offset, three bytes are enough to come to a boundary. -/
theorem exists_isBoundary_le (hi : i ≤ s.text.utf8ByteSize) :
    ∃ q, s.IsBoundary q ∧ i ≤ q ∧ q ≤ i + 3 := by
  suffices h : ∀ cs : List Char, i ≤ utf8Len cs →
      ∃ before after, cs = before ++ after ∧ i ≤ utf8Len before ∧ utf8Len before ≤ i + 3 by
    rw [utf8ByteSize_eq_utf8Len] at hi
    obtain ⟨before, after, hchars, hle⟩ := h _ hi
    exact ⟨_, isBoundary_iff_utf8Len.mpr ⟨before, after, hchars, rfl⟩, hle⟩
  clear hi
  intro cs hi
  induction cs generalizing i with
  | nil => exact ⟨[], [], rfl, hi, Nat.zero_le _⟩
  | cons x rest ih =>
    have hx := x.utf8Size_le_four
    rw [String.utf8Len_cons] at hi
    rcases Nat.lt_or_ge x.utf8Size i with hlt | hge
    · obtain ⟨before, after, rfl, hle, hle'⟩ := ih (i := i - x.utf8Size) (by omega)
      refine ⟨x :: before, after, rfl, ?_, ?_⟩ <;> rw [String.utf8Len_cons] <;> omega
    · rcases Nat.eq_zero_or_pos i with rfl | hpos
      · exact ⟨[], x :: rest, rfl, Nat.le_refl _, Nat.zero_le _⟩
      · refine ⟨[x], rest, rfl, ?_, ?_⟩ <;> rw [String.utf8Len_cons, String.utf8Len_nil] <;> omega

/-- **The next boundary is at most three bytes away.** -/
theorem exists_isLeast_isBoundary (hi : i ≤ s.text.utf8ByteSize) :
    ∃ q, IsLeast {j | s.IsBoundary j ∧ i ≤ j} q ∧ q ≤ i + 3 := by
  obtain ⟨near, hnear, hle, hle'⟩ := exists_isBoundary_le hi
  have hex : ∃ j, s.IsBoundary j ∧ i ≤ j := ⟨near, hnear, hle⟩
  refine ⟨Nat.find hex, ⟨Nat.find_spec hex, ?_⟩, ?_⟩
  · intro j hj
    exact Nat.find_min' hex hj
  · exact Nat.le_trans (Nat.find_min' hex ⟨hnear, hle⟩) hle'

end Source

namespace Cursor

variable {c c' : Cursor} {part : Part}

/-! ### Inside a character -/

/-- Inside a character the next byte starts no character. -/
theorem not_isUTF8FirstByte_byte (hend : c.atEnd = false) (h : ¬ c.source.IsBoundary c.pos) :
    ¬ c.byte.IsUTF8FirstByte := by
  rwa [← Source.isBoundary_iff_of_byteAt? (byteAt?_pos hend)]

/-- Inside a character nothing is read. -/
theorem peek_of_not_isBoundary (h : ¬ c.source.IsBoundary c.pos) : c.peek = endChar := by
  cases hend : c.atEnd with
  | true => exact peek_of_atEnd hend
  | false =>
    have hlarge : ¬ c.byte < 0x80 :=
      mt Utf8.isUTF8FirstByte_of_lt (not_isUTF8FirstByte_byte hend h)
    rw [peek, hend, if_neg Bool.false_ne_true, if_neg hlarge, Source.charAt?_of_not_isBoundary h]
    rfl

/-- Inside a character a step passes one byte. -/
theorem pass_of_not_isBoundary (hfits : c.source.text.utf8ByteSize ≤ maxOffset)
    (hend : c.atEnd = false) (h : ¬ c.source.IsBoundary c.pos) (part : Part) :
    c.pass part = .ok (c.moveTo part (c.pos + 1)) := by
  rw [pass_of_fits hfits hend, Utf8.width_eq_one _ (not_isUTF8FirstByte_byte hend h)]

/-- Where there is no boundary for some bytes, as many steps pass them one by one. -/
theorem exists_passMany_of_not_isBoundary (hfits : c.source.text.utf8ByteSize ≤ maxOffset) {n : Nat}
    (hn : c.pos + n ≤ c.source.size)
    (h : ∀ i, c.pos ≤ i → i < c.pos + n → ¬ c.source.IsBoundary i) (part : Part) :
    ∃ d, c.passMany part n = .ok d ∧ d.source = c.source ∧ d.pos = c.pos + n := by
  induction n generalizing c with
  | zero => exact ⟨c, rfl, rfl, rfl⟩
  | succ n ih =>
    have hend : c.atEnd = false := atEnd_eq_false_iff.mpr (by omega)
    have hpass := pass_of_not_isBoundary hfits hend (h _ (Nat.le_refl _) (by omega)) part
    obtain ⟨d, hd, hsource, hpos⟩ := ih (c := c.moveTo part (c.pos + 1))
      (by rwa [source_moveTo])
      (by rw [source_moveTo, pos_moveTo]; omega)
      (by
        rw [source_moveTo, pos_moveTo]
        intro i hle hlt
        exact h i (by omega) (by omega))
    rw [source_moveTo] at hsource
    rw [pos_moveTo] at hpos
    exact ⟨d, (passMany_succ hpass n).trans hd, hsource, by omega⟩

/-- The steps to the next boundary pass one byte each, and nothing is read in front of it. -/
theorem exists_passMany_of_isLeast (hfits : c.source.text.utf8ByteSize ≤ maxOffset) {q : Nat}
    (hq : IsLeast {i | c.source.IsBoundary i ∧ c.pos ≤ i} q) {n : Nat} (hn : c.pos + n ≤ q)
    (part : Part) :
    ∃ d, c.passMany part n = .ok d ∧ d.source = c.source ∧ d.pos = c.pos + n ∧
      (c.pos + n < q → d.peek = endChar ∧ d.atEnd = false) := by
  have hsize : q ≤ c.source.size := by
    rw [Source.size_of_le hfits]
    exact hq.1.1.le
  have hinside : ∀ i, c.pos ≤ i → i < q → ¬ c.source.IsBoundary i := by
    intro i hi hlt hb
    exact Nat.not_le.mpr hlt (hq.2 ⟨hb, hi⟩)
  obtain ⟨d, hd, hsource, hpos⟩ := exists_passMany_of_not_isBoundary hfits (Nat.le_trans hn hsize)
    (fun i hi hlt => hinside i hi (Nat.lt_of_lt_of_le hlt hn)) part
  refine ⟨d, hd, hsource, hpos, ?_⟩
  intro hlt
  rw [← hpos] at hlt
  refine ⟨peek_of_not_isBoundary ?_, atEnd_eq_false_iff.mpr ?_⟩
  · rw [hsource]
    exact hinside _ (by omega) hlt
  · rw [hsource]
    omega

/-- **No step leads past a boundary**, wherever the cursor stands. -/
theorem not_isBoundary_of_pass (hfits : c.source.text.utf8ByteSize ≤ maxOffset)
    (hpass : c.pass part = .ok c') {i : Nat} (hlt : c.pos < i) (hlt' : i < c'.pos) :
    ¬ c.source.IsBoundary i := by
  cases hend : c.atEnd with
  | true =>
    rw [pass_of_atEnd hend] at hpass
    rw [← Except.ok.inj hpass] at hlt'
    omega
  | false =>
    by_cases hb : c.source.IsBoundary c.pos
    · obtain ⟨before, after, hsplits⟩ := (exists_splits_iff hfits).mpr hb
      obtain ⟨x, rest, rfl⟩ := hsplits.exists_cons hend
      rw [hsplits.pass_cons] at hpass
      rw [← Except.ok.inj hpass, past_cons, past_nil, pos_moveTo, hsplits.pos] at hlt'
      rw [hsplits.pos] at hlt
      exact Source.not_isBoundary_of_lt hsplits.chars hlt hlt'
    · rw [pass_of_not_isBoundary hfits hend hb] at hpass
      rw [← Except.ok.inj hpass, pos_moveTo] at hlt'
      omega

/-! ### From boundary to boundary -/

section Boundaries

variable {before after : List Char}

theorem pos_past (c : Cursor) (part : Part) (run : List Char) :
    (c.past part run).pos = c.pos + utf8Len run := by
  cases part with
  | content => rw [past_content]
  | trivia => rw [past_trivia]

/-- From a cut, all steps lead to boundaries that are not behind it. -/
theorem Splits.isBoundary_of_passMany (h : c.Splits before after) {n : Nat}
    (hpass : c.passMany part n = .ok c') : c.source.IsBoundary c'.pos ∧ c.pos ≤ c'.pos := by
  rw [h.passMany] at hpass
  rw [← Except.ok.inj hpass, pos_past]
  refine ⟨?_, Nat.le_add_right _ _⟩
  rw [Source.isBoundary_iff_utf8Len, h.pos, ← String.utf8Len_append]
  exact ⟨_, after.drop n, by rw [h.chars, List.append_assoc, List.take_append_drop], rfl⟩

/-- From a cut, the steps lead to every boundary that is not behind it. -/
theorem Splits.exists_passMany_of_isBoundary (h : c.Splits before after) (part : Part) {i : Nat}
    (hi : c.source.IsBoundary i) (hle : c.pos ≤ i) :
    ∃ n d, c.passMany part n = .ok d ∧ d.pos = i := by
  obtain ⟨front, back, hchars, rfl⟩ := Source.isBoundary_iff_utf8Len.mp hi
  rw [h.pos] at hle
  obtain ⟨mid, rfl, rfl⟩ := exists_eq_append_of_utf8Len_le (h.chars.symm.trans hchars) hle
  refine ⟨mid.length, _, h.passMany part _, ?_⟩
  rw [pos_past, List.take_left, h.pos, String.utf8Len_append]

end Boundaries

/-- **A cursor finds its way out of a character.**  From any place in a text, the next boundary
is at most three bytes away, and as many steps lead to it, one byte each.  Before that nothing
is read, although the text goes on.  From there on the steps lead to boundaries, and to all
that are left.  No step on the text, wherever it is made, leads past a boundary. -/
theorem passMany_resynchronizes {text : String} (hfits : text.utf8ByteSize ≤ maxOffset)
    {pos : Nat} (hpos : pos ≤ (⟨text⟩ : Source).size) (start : Nat) (part : Part) :
    let s : Source := ⟨text⟩
    let c : Cursor := ⟨s, pos, start⟩
    ∃ q, IsLeast {i | s.IsBoundary i ∧ pos ≤ i} q ∧ q - pos ≤ 3 ∧
      (∀ n ≤ q - pos, ∃ d, c.passMany part n = .ok d ∧ d.pos = pos + n ∧
        (n < q - pos → d.peek = endChar ∧ d.atEnd = false)) ∧
      (∀ n, ∃ d, c.passMany part (q - pos + n) = .ok d ∧ s.IsBoundary d.pos ∧ q ≤ d.pos) ∧
      (∀ i, s.IsBoundary i → q ≤ i →
        ∃ n d, c.passMany part (q - pos + n) = .ok d ∧ d.pos = i) ∧
      ∀ d d' : Cursor, d.source = s → d.pass part = .ok d' →
        ∀ i, d.pos < i → i < d'.pos → ¬ s.IsBoundary i := by
  intro s c
  obtain ⟨q, hq, hnear⟩ := Source.exists_isLeast_isBoundary (Nat.le_trans hpos s.size_le)
  obtain ⟨hb, hle⟩ := hq.1
  have hway : ∀ n ≤ q - pos, ∃ d, c.passMany part n = .ok d ∧ d.source = s ∧ d.pos = pos + n ∧
      (pos + n < q → d.peek = endChar ∧ d.atEnd = false) := by
    intro n hn
    have hreach : pos + n ≤ q := by omega
    exact exists_passMany_of_isLeast hfits hq hreach part
  -- the cursor that stands at the boundary
  obtain ⟨out, hout, hsource, houtpos, -⟩ := hway (q - pos) (Nat.le_refl _)
  rw [Nat.add_sub_cancel' hle] at houtpos
  obtain ⟨before, after, hsplits⟩ : ∃ before after, out.Splits before after := by
    rw [exists_splits_iff (by rw [hsource]; exact hfits), hsource, houtpos]
    exact hb
  refine ⟨q, hq, by omega, ?_, ?_, ?_, ?_⟩
  · intro n hn
    obtain ⟨d, hd, -, hdpos, hinside⟩ := hway n hn
    exact ⟨d, hd, hdpos, fun hlt => hinside (by omega)⟩
  · intro n
    have hd := hsplits.passMany part n
    have hbd := hsplits.isBoundary_of_passMany hd
    rw [hsource, houtpos] at hbd
    exact ⟨_, (passMany_add hout n).trans hd, hbd⟩
  · intro i hi hqi
    obtain ⟨n, d, hd, hdpos⟩ := hsplits.exists_passMany_of_isBoundary part
      (by rw [hsource]; exact hi) (by rw [houtpos]; exact hqi)
    exact ⟨n, d, (passMany_add hout n).trans hd, hdpos⟩
  · intro d d' hds hpass i hlt hlt'
    rw [← hds]
    exact not_isBoundary_of_pass (by rw [hds]; exact hfits) hpass hlt hlt'

/-- Behind the first byte of a character of four bytes, with a token that started elsewhere. -/
theorem passMany_resynchronizes_four_bytes :
    let s : Source := ⟨"é😀b"⟩
    let c : Cursor := ⟨s, 3, 1⟩
    s.text.utf8ByteSize ≤ maxOffset ∧ 3 ≤ s.size ∧ ¬ s.IsBoundary 3 ∧
      IsLeast {i | s.IsBoundary i ∧ 3 ≤ i} 6 ∧
      (∃ d, c.passMany .content 2 = .ok d ∧ d.pos = 5 ∧ d.peek = endChar ∧ d.atEnd = false) ∧
      (∃ d, c.passMany .content 3 = .ok d ∧ d.pos = 6) ∧
      ∃ n d, c.passMany .content (3 + n) = .ok d ∧ d.pos = 7 := by
  intro s c
  have hfits : s.text.utf8ByteSize ≤ maxOffset := by decide
  have hpos : 3 ≤ s.size := by decide
  obtain ⟨q, hq, -, hway, -, hall, -⟩ := passMany_resynchronizes hfits hpos 1 .content
  have hleast : IsLeast {i | s.IsBoundary i ∧ 3 ≤ i} 6 := by
    refine ⟨⟨by decide +kernel, by decide⟩, ?_⟩
    rintro i ⟨hi, hle⟩
    by_contra hlt
    have hno : ∀ i < 6, 3 ≤ i → ¬ s.IsBoundary i := by decide +kernel
    exact hno i (Nat.lt_of_not_le hlt) hle hi
  obtain rfl : q = 6 := Nat.le_antisymm (hq.2 hleast.1) (hleast.2 hq.1)
  obtain ⟨d, hd, hdpos, hinside⟩ := hway 2 (by decide)
  obtain ⟨d', hd', hdpos', -⟩ := hway 3 (by decide)
  exact ⟨hfits, hpos, by decide +kernel, hleast, ⟨d, hd, hdpos, hinside (by decide)⟩,
    ⟨d', hd', hdpos'⟩, hall 7 (by decide +kernel) (by decide)⟩

end Cursor

end SelectorLexer
