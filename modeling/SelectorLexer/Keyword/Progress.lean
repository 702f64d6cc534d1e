import SelectorLexer.Keyword.Basic

/-!
# A scan leads forward

A scan may drop blanks, and it may go back, but only to the end of the blanks that it
dropped.  One that finds a keyword has passed its colon.  So scanning again and again
comes to an end, as long as every scan finds a keyword or one more character is passed
after it.

## Main results

* `Keyword.source_of_scan`, `Keyword.pos_le_of_scan` — a scan stays in its source and
  never ends before the place where it began.
* `Keyword.pos_lt_of_scan`, `Keyword.remaining_lt_of_scan` — a scan that finds a keyword
  ends after the place where it began, and leaves less to read.
-/

namespace SelectorLexer

namespace Keyword

/-- A probe leads forward in the same source, and past the colon that makes a keyword. -/
theorem le_of_probe {a : Alphabet} {c last : Cursor} {found : Bool}
    (h : probe a c = .ok (found, last)) :
    last.source = c.source ∧ c.pos ≤ last.pos ∧
      (found = true → c.pos < c.source.size ∧ c.pos < last.pos) := by
  simp only [probe, Checked.bind_eq_ok_iff] at h
  obtain ⟨first, hfirst, name, hname, h⟩ := h
  have hsource := (Cursor.source_of_passWhile hname).trans (Cursor.source_of_pass hfirst)
  have hle := Nat.le_trans (Cursor.pos_le_of_pass hfirst) (Cursor.pos_le_of_passWhile hname)
  split at h
  · next hcolon =>
    rw [Checked.bind_eq_ok_iff] at h
    obtain ⟨colon, hpass, h⟩ := h
    cases h
    -- a colon is not what the end reads as, so the cursor passes it
    have hend : name.atEnd = false := Cursor.atEnd_eq_false_of_peek (by rw [hcolon]; decide)
    have hlt := Cursor.pos_lt_of_pass hend hpass
    rw [Cursor.atEnd_eq_false_iff, hsource] at hend
    exact ⟨(Cursor.source_of_pass hpass).trans hsource, by omega, fun _ => by omega⟩
  · cases h
    exact ⟨hsource, hle, fun hf => by cases hf⟩

/-- Giving up leads to the mark or changes nothing. -/
theorem le_of_giveUp {policy : FailurePolicy} {before c : Cursor} {last : Cursor}
    (hle : before.pos ≤ c.pos) (h : giveUp policy before.mark c = .ok last) :
    last.source = c.source ∧ before.pos ≤ last.pos := by
  cases policy with
  | goBack =>
    obtain ⟨_, rfl⟩ := Cursor.rewind_eq_ok_iff.1 h
    exact ⟨rfl, Nat.le_refl _⟩
  | stay =>
    cases h
    exact ⟨rfl, hle⟩

/-- A scan leads forward in the same source, and past a keyword that it finds. -/
theorem le_of_scan {o : Options} {wanted : KindSet} {c last : Cursor} {t : Option Token}
    (h : scan o wanted c = .ok (t, last)) :
    last.source = c.source ∧ c.pos ≤ last.pos ∧
      (t.isSome = true → c.pos < c.source.size ∧ c.pos < last.pos) := by
  unfold scan at h
  split at h
  · rw [Checked.bind_eq_ok_iff] at h
    obtain ⟨name, hname, h⟩ := h
    have hsource : name.source = c.source := by
      rw [Cursor.source_of_passWhile hname, Cursor.source_openToken]
    have hle : c.pos ≤ name.pos := by
      have := Cursor.pos_le_of_passWhile hname
      rwa [Cursor.pos_openToken] at this
    split at h
    · rw [Checked.bind_eq_ok_iff] at h
      obtain ⟨⟨found, probed⟩, hprobe, h⟩ := h
      obtain ⟨hs, hp, hlt⟩ := le_of_probe hprobe
      cases found with
      | true =>
        cases h
        have := hlt rfl
        rw [hsource] at this
        exact ⟨hs.trans hsource, by omega, fun _ => by omega⟩
      | false =>
        simp only [Bool.false_eq_true, if_false, Checked.bind_eq_ok_iff] at h
        obtain ⟨left, hleft, h⟩ := h
        cases h
        obtain ⟨hs', hp'⟩ := le_of_giveUp hp hleft
        exact ⟨hs'.trans (hs.trans hsource), by omega, fun hf => by cases hf⟩
    · cases h
      exact ⟨hsource, hle, fun hf => by cases hf⟩
  · cases h
    exact ⟨rfl, Nat.le_refl _, fun hf => by cases hf⟩

theorem source_of_scan {o : Options} {wanted : KindSet} {c last : Cursor} {t : Option Token}
    (h : scan o wanted c = .ok (t, last)) : last.source = c.source :=
  (le_of_scan h).1

theorem pos_le_of_scan {o : Options} {wanted : KindSet} {c last : Cursor} {t : Option Token}
    (h : scan o wanted c = .ok (t, last)) : c.pos ≤ last.pos :=
  (le_of_scan h).2.1

theorem pos_lt_of_scan {o : Options} {wanted : KindSet} {c last : Cursor} {t : Token}
    (h : scan o wanted c = .ok (some t, last)) : c.pos < last.pos :=
  ((le_of_scan h).2.2 rfl).2

/-- Less is left after a scan that finds a keyword. -/
theorem remaining_lt_of_scan {o : Options} {wanted : KindSet} {c last : Cursor} {t : Token}
    (h : scan o wanted c = .ok (some t, last)) : last.remaining < c.remaining := by
  obtain ⟨hs, _, hlt⟩ := le_of_scan h
  have := hlt rfl
  rw [Cursor.remaining, Cursor.remaining, hs]
  omega

end Keyword

end SelectorLexer
