import SelectorLexer.Proofs.Keyword.Bounds
import SelectorLexer.Proofs.Keyword.Shift
import SelectorLexer.Proofs.Selector.Reading

/-!
# The same selector further on

The keywords of a selector are read by one scan after another.  So a source that holds the
same text further on has the same keywords, as many bytes further on, and so do the pieces
of a layout that stands behind another one.

## Main definitions

* `Selector.Segment.shift` — a segment further on.

## Main results

* `Selector.Piece.segments_add` — the segments of pieces further on.
* `Selector.readSegments_shift` — reading a source that holds the same text.
-/

namespace SelectorLexer

open String (utf8Len)

namespace Selector

/-! ### Segments -/

/-- The segment that is `n` bytes further on. -/
def Segment.shift (n : Nat) (g : Segment) : Segment := ⟨g.token.shift n, g.text⟩

@[simp] theorem Segment.shift_zero (g : Segment) : g.shift 0 = g := by simp [Segment.shift]

theorem map_token_shift (n : Nat) (gs : List Segment) :
    (gs.map (Segment.shift n)).map Segment.token =
      (gs.map Segment.token).map (Token.shift n) := by
  rw [List.map_map, List.map_map]
  rfl

/-- Pieces further on have their segments further on. -/
theorem Piece.segments_add {a : Alphabet} (n start : Nat) (ps : List (Piece a)) :
    segments (n + start) ps = (segments start ps).map (Segment.shift n) := by
  induction ps generalizing start with
  | nil => rfl
  | cons p ps ih =>
    rw [segments_cons, segments_cons, List.map_cons, ← ih]
    simp only [Segment.shift, Token.shift, Span.shift, Nat.add_assoc]

/-! ### Reading -/

/-- **Reading further on finds the same segments further on.** -/
theorem readSegments_shift {o : Options} {t : Source} {n : Nat} {c last : Cursor}
    {found : List Segment} (ht : c.source.IsTail t n) (hc : c.InBounds)
    (h : readSegments o c = .ok (found, last)) :
    readSegments o (c.shift t n) = .ok (found.map (Segment.shift n), last.shift t n) := by
  fun_induction readSegments o c generalizing found with
  | case1 => cases h
  | case2 c next hscan =>
    cases h
    exact readSegments_of_none (Keyword.scan_shift ht hscan)
  | case3 c token next hscan _ ih =>
    obtain ⟨text, htext, h⟩ := Checked.bind_eq_ok_iff.mp h
    obtain ⟨⟨rest, last⟩, hrest, h⟩ := Checked.bind_eq_ok_iff.mp h
    cases h
    have hin : next.InBounds := Keyword.stable_scan Cursor.stable_inBounds hc hscan
    have hnext : next.source.IsTail t n := by rwa [Keyword.source_of_scan hscan]
    rw [readSegments_of_some (Keyword.scan_shift ht hscan)
      ((Cursor.lexeme_shift hnext hin).trans htext), ih hnext hin hrest]
    rfl

end Selector

end SelectorLexer
