import SelectorLexer.Proofs.Selector.Acceptance
import SelectorLexer.Proofs.Selector.Shift

/-!
# As far as a reading reaches

A text that is longer than offsets can count is read as if it ended where they end.  That
place may cut a character, and then the text is no selector: the cursor moves from one
boundary to the next, and a step over the character is refused.  So whatever the length of
a text, if it is read as a selector then what was read of it is a text of its own, and is
laid out like any other selector.

The converse is true as well.  What stands behind that place makes no difference, so that a
selector may be followed by anything there.  Only a flaw in the text comes before all reading.

## Main results

* `Selector.isBoundary_size_of_outcome` — a selector is not cut off inside a character.
* `Selector.readSegments_append` — what is out of reach makes no difference to a reading.
* `Selector.exists_spells_of_outcome`, `Selector.parse_of_spells_seen` — what is read as a
  selector is laid out, as far as the reading reaches, and the other way round.
-/

namespace SelectorLexer

open String (utf8Len)

/-- A text of as many bytes as offsets can count is all that is reached of a longer one. -/
theorem Source.size_append_of_eq_maxOffset {seen : String} (h : seen.utf8ByteSize = maxOffset)
    (unseen : String) : (⟨seen ++ unseen⟩ : Source).size = seen.utf8ByteSize := by
  rw [size, String.utf8ByteSize_append, h]
  exact Nat.min_eq_right (Nat.le_add_right _ _)

namespace Selector

/-! ### Reading -/

/-- Reading keeps every stable property of the cursor. -/
theorem stable_readSegments {P : Cursor → Prop} (hP : Cursor.Stable P) {o : Options}
    {c last : Cursor} {found : List Segment} (hc : P c)
    (h : readSegments o c = .ok (found, last)) : P last := by
  fun_induction readSegments o c generalizing found with
  | case1 => cases h
  | case2 c next hscan =>
    cases h
    exact Keyword.stable_scan hP hc hscan
  | case3 c t next hscan _ ih =>
    obtain ⟨text, -, h⟩ := Checked.bind_eq_ok_iff.mp h
    obtain ⟨⟨rest, end'⟩, hrest, h⟩ := Checked.bind_eq_ok_iff.mp h
    cases h
    exact ih (Keyword.stable_scan hP hc hscan) hrest

variable {text : String} {o : Options} {p : Parse} {s : Selector}

/-- A selector comes of a reading that leaves nothing. -/
theorem readSegments_of_outcome (hp : parse text o = .ok p) (hs : p.outcome = .ok s) :
    ∃ found last, readSegments o (.start ⟨text⟩) = .ok (found, last) ∧
      (last.atEnd && last.span.isEmpty) = true ∧ found ≠ [] ∧
      s = ⟨⟨text⟩, found.map Segment.token⟩ := by
  cases hflaws : (⟨text⟩ : Source).flaws with
  | cons flaw flaws =>
    rw [parse, hflaws] at hp
    cases hp
    cases hs
  | nil =>
    rw [parse, hflaws] at hp
    obtain ⟨⟨found, last⟩, hread, hp⟩ := Checked.bind_eq_ok_iff.mp hp
    cases hend : last.atEnd && last.span.isEmpty with
    | false =>
      simp only [hend] at hp
      cases hp
      cases hs
    | true =>
      cases found with
      | nil =>
        simp only [hend] at hp
        cases hp
        cases hs
      | cons g gs =>
        simp only [hend] at hp
        cases hp
        cases hs
        exact ⟨g :: gs, last, hread, hend, List.cons_ne_nil g gs, rfl⟩

/-- **A selector is not cut off inside a character.** -/
theorem isBoundary_size_of_outcome (hp : parse text o = .ok p) (hs : p.outcome = .ok s) :
    (⟨text⟩ : Source).IsBoundary (⟨text⟩ : Source).size := by
  obtain ⟨found, last, hread, hend, -, -⟩ := readSegments_of_outcome hp hs
  obtain ⟨hatEnd, -⟩ : last.atEnd = true ∧ last.span.isEmpty = true := by
    rwa [Bool.and_eq_true] at hend
  obtain ⟨hsource, hle, hb⟩ : last.Reaches ⟨text⟩ :=
    stable_readSegments (Cursor.stable_reach _) ⟨rfl, Nat.zero_le _, Source.isBoundary_zero _⟩
      hread
  rw [Cursor.atEnd_iff, hsource] at hatEnd
  rwa [Nat.le_antisymm hle hatEnd] at hb

/-! ### What is read of a text -/

section Seen

variable {seen unseen : String}

/-- **What is out of reach makes no difference to a reading.** -/
theorem readSegments_append {found : List Segment} {last : Cursor}
    (hseen : (⟨seen ++ unseen⟩ : Source).size = seen.utf8ByteSize)
    (h : readSegments o (.start ⟨seen⟩) = .ok (found, last)) :
    readSegments o (.start ⟨seen ++ unseen⟩) = .ok (found, last.shift ⟨seen ++ unseen⟩ 0) := by
  have htail := Source.isTail_of_size hseen
  have hshift := readSegments_shift htail (Cursor.onBoundaries_start htail.fits).toInBounds h
  rwa [List.map_id'' Segment.shift_zero] at hshift

/-- So what is laid out as far as the reading reaches is read, if nothing else is wrong with the
text. -/
theorem parse_of_spells_seen {l : Layout o.alphabet}
    (hseen : (⟨seen ++ unseen⟩ : Source).size = seen.utf8ByteSize)
    (hflaws : (⟨seen ++ unseen⟩ : Source).flaws = []) (hl : l.Spells seen) :
    parse (seen ++ unseen) o =
      .ok ⟨.ok (l.selector (seen ++ unseen)),
        l.events ++ [(l.selector (seen ++ unseen)).event]⟩ := by
  have htail := Source.isTail_of_size hseen
  have hread := readSegments_append hseen
    (readSegments_of_isFront htail.fits hl.isFront Layout.finished_nil)
  have hsplits : (⟨⟨seen⟩, utf8Len l.chars, utf8Len l.chars⟩ : Cursor).Splits l.chars [] :=
    ⟨htail.fits, hl.isFront.eq_append, rfl⟩
  have hend := (atEnd_and_isEmpty_iff (o := o) hsplits).mpr rfl
  rw [← Span.isEmpty_shift 0, ← Cursor.atEnd_shift htail,
    ← Cursor.span_shift (t := ⟨seen ++ unseen⟩)] at hend
  rw [parse, hflaws]
  simp only [hread, Checked.ok_bind]
  rw [if_pos hend]
  obtain ⟨pieces, blanks, hblanks⟩ := l
  cases pieces with
  | nil => exact absurd rfl hl.1
  | cons p ps => rfl

end Seen

/-- **What is read as a selector is laid out**, as far as the reading reaches. -/
theorem exists_spells_of_outcome (hp : parse text o = .ok p) (hs : p.outcome = .ok s) :
    ∃ (seen unseen : String) (l : Layout o.alphabet), text = seen ++ unseen ∧
      seen.utf8ByteSize = (⟨text⟩ : Source).size ∧ l.Spells seen ∧ s = l.selector text := by
  obtain ⟨seen, unseen, htext, hseen⟩ := Source.isBoundary_iff.mp (isBoundary_size_of_outcome hp hs)
  obtain rfl : text = seen ++ unseen := htext
  obtain ⟨found, last, hread, hend, hfound, rfl⟩ := readSegments_of_outcome hp hs
  have htail := Source.isTail_of_size hseen
  have hfits := htail.fits
  -- what was seen of the text is read to the same segments, and to its end
  obtain ⟨l, rest, hl, hfinished⟩ := exists_isFront o.alphabet seen.toList
  have hseen' := readSegments_append hseen (readSegments_of_isFront hfits hl hfinished)
  rw [hread] at hseen'
  obtain ⟨rfl, rfl⟩ := Prod.mk.inj (Except.ok.inj hseen')
  obtain rfl : rest = [] := by
    rw [Cursor.atEnd_shift htail, Cursor.span_shift, Span.isEmpty_shift] at hend
    exact (atEnd_and_isEmpty_iff ⟨hfits, hl.eq_append, rfl⟩).mp hend
  refine ⟨seen, unseen, l, rfl, hseen.symm, ⟨?_, ?_⟩, ?_⟩
  · intro hpieces
    rw [hpieces] at hfound
    exact hfound rfl
  · rw [hl.eq_append, List.append_nil]
  · rfl

end Selector

end SelectorLexer
