import SelectorLexer.Proofs.Cursor.Resync
import SelectorLexer.Proofs.LongestRun

/-!
# How far a cursor goes

A step adds up an offset and a width, and two things are done in case the sum is too large:
one that cannot be stored is refused, and one behind the end is cut off there.  Neither ever
happens in a source that offsets can count.  The last character of a text ends with the text,
so that a width never promises more bytes than are left, not even in the longest text there
can be.  What a step passes is then known exactly: a whole character at a boundary, and one
byte inside a character.

A run of steps goes on for as long as the characters are accepted.  It is the characters
that are asked, and only those up to the first that is refused.  What is read at the end is
not asked, although it is the same as a null character, which is.

## Main results

* `Cursor.pass_moves_by_width` — the stride of a step.
* `Cursor.atEnd_or_eq_false_of_passWhile` — where a run stops, from any place.
* `Cursor.passWhile_passes_longest_run` — what a run passes, from a cut.
-/

namespace SelectorLexer

open String (utf8Len)

namespace Cursor

variable {c last : Cursor} {part : Part}

/-! ### One step -/

/-- **A step goes as far as the next byte announces.**  From any place in front of the end,
the sum of the offsets can be stored and lies in the source, so that nothing is cut off from
it.  At a boundary it is the end of the character there, and elsewhere the next offset. -/
theorem pass_moves_by_width (hfits : c.source.text.utf8ByteSize ≤ maxOffset)
    (hpos : c.pos < c.source.size) (part : Part) :
    let next := c.pos + Utf8.width c.byte
    addOffset c.pos (Utf8.width c.byte) = .ok next ∧
      next ≤ c.source.size ∧ min next c.source.size = next ∧
      c.pass part = .ok (c.moveTo part next) ∧
      (c.source.IsBoundary c.pos → ∃ before x after,
        c.source.text.toList = before ++ x :: after ∧ c.pos = utf8Len before ∧
          next = c.pos + x.utf8Size) ∧
      (¬ c.source.IsBoundary c.pos → next = c.pos + 1) := by
  intro next
  have hend : c.atEnd = false := atEnd_eq_false_iff.mpr hpos
  have hnext : next ≤ c.source.size := pos_add_width_le hfits hend
  have hstored : next ≤ maxOffset := by
    calc next ≤ c.source.size := hnext
      _ = c.source.text.utf8ByteSize := Source.size_of_le hfits
      _ ≤ maxOffset := hfits
  refine ⟨addOffset_of_le hstored, hnext, Nat.min_eq_left hnext, pass_of_fits hfits hend part,
    ?boundary, ?inside⟩
  case boundary =>
    intro hb
    obtain ⟨before, after, hsplits⟩ := (exists_splits_iff hfits).mpr hb
    obtain ⟨x, rest, rfl⟩ := hsplits.exists_cons hend
    exact ⟨before, x, rest, hsplits.chars, hsplits.pos, by rw [← hsplits.byte_cons.1]⟩
  case inside =>
    intro hb
    show c.pos + Utf8.width c.byte = c.pos + 1
    rw [Utf8.width_eq_one _ (not_isUTF8FirstByte_byte hend hb)]

/-- A text as long as offsets can count ends in a character of four bytes.  One cursor stands
in front of that character, and one inside. -/
theorem pass_moves_by_width_at_maxOffset :
    let n := maxOffset - 4
    let s : Source := ⟨String.ofList (List.replicate n 'a' ++ ['😀'])⟩
    s.text.utf8ByteSize = maxOffset ∧ n + 1 < s.size ∧
      (⟨s, n, 0⟩ : Cursor).pass .trivia = .ok ⟨s, maxOffset, maxOffset⟩ ∧
      (⟨s, n + 1, 0⟩ : Cursor).pass .content = .ok ⟨s, n + 2, 0⟩ := by
  intro n s
  -- the text is too long to be looked at, and nothing but its length counts
  have hn : n + 4 = maxOffset := rfl
  clear_value n
  have hchars : s.text.toList = List.replicate n 'a' ++ ['😀'] := String.toList_ofList
  have hlen : utf8Len (List.replicate n 'a') = n := by
    rw [utf8Len_replicate]
    exact Nat.mul_one n
  have hwidth : ('😀').utf8Size = 4 := by decide
  have hsize : s.text.utf8ByteSize = maxOffset := by
    rw [← String.utf8Len_toList, hchars]
    simp [hlen, hwidth, hn]
  have hfits : s.text.utf8ByteSize ≤ maxOffset := Nat.le_of_eq hsize
  have hreach : s.size = n + 4 := by rw [Source.size_of_le hfits, hsize, hn]
  obtain ⟨-, -, -, hpass, hwhole, -⟩ :=
    pass_moves_by_width (c := ⟨s, n, 0⟩) hfits (by simp [hreach]) .trivia
  obtain ⟨-, -, -, hpass', -, hinside⟩ :=
    pass_moves_by_width (c := ⟨s, n + 1, 0⟩) hfits (by simp [hreach]) .content
  refine ⟨hsize, by omega, ?_, ?_⟩
  · obtain ⟨before, x, after, hcut, hpos, hnext⟩ :=
      hwhole (Source.isBoundary_iff_utf8Len.mpr ⟨_, _, hchars, hlen.symm⟩)
    obtain ⟨-, hx⟩ := append_inj_of_utf8Len_eq (hchars.symm.trans hcut) (hlen.trans hpos)
    obtain ⟨rfl, -⟩ := List.cons.inj hx
    rw [hpass, hnext, hwidth, hn]
    rfl
  · have hno : ¬ s.IsBoundary (n + 1) := by
      apply Source.not_isBoundary_of_lt hchars <;> omega
    rw [hpass', hinside hno]
    rfl

/-! ### A run -/

/-- **A run stops at the end, or in front of a character that is refused**, wherever it
started. -/
theorem atEnd_or_eq_false_of_passWhile {p : Char → Bool}
    (h : c.passWhile part p = .ok last) : last.atEnd = true ∨ p last.peek = false := by
  fun_induction passWhile c part p with
  | case1 => cases h
  | case2 c _ next _ _ ih => exact ih h
  | case3 c hstop =>
    obtain rfl := Except.ok.inj h
    by_cases hend : c.atEnd = true
    · exact .inl hend
    · refine .inr ?_
      simpa [hend] using hstop

/-- So a second run has nothing to pass, whatever the characters count as. -/
theorem passWhile_of_passWhile {p : Char → Bool} (h : c.passWhile part p = .ok last)
    (part' : Part) : last.passWhile part' p = .ok last := by
  rcases atEnd_or_eq_false_of_passWhile h with hend | hrefused
  · exact passWhile_of_atEnd hend part' p
  · exact passWhile_of_not hrefused part'

/-- **A run passes the longest run of characters that are accepted.**  Null characters are
asked like all others, and what is read at the end is not: only the answers for the run and
for the character behind it make a difference.  As content the run leaves the start of the
token where it was, and as trivia it takes it along, if it passes anything at all.  The same
run once more passes nothing. -/
theorem passWhile_passes_longest_run {before after : List Char}
    (hfits : c.source.text.utf8ByteSize ≤ maxOffset)
    (hchars : c.source.text.toList = before ++ after) (hpos : c.pos = utf8Len before)
    (p : Char → Bool) :
    ∃ run rest, after = run ++ rest ∧ (∀ x ∈ run, p x = true) ∧
      (∀ run', run' <+: after → (∀ x ∈ run', p x = true) → run' <+: run) ∧
      c.passWhile .content p = .ok ⟨c.source, c.pos + utf8Len run, c.tokenStart⟩ ∧
      c.passWhile .trivia p = .ok ⟨c.source, c.pos + utf8Len run,
        if run = [] then c.tokenStart else c.pos + utf8Len run⟩ ∧
      (∀ q : Char → Bool, (∀ x ∈ run ++ rest.take 1, q x = p x) →
        ∀ part, c.passWhile part q = c.passWhile part p) ∧
      ∀ part last, c.passWhile part p = .ok last →
        ∀ part', last.passWhile part' p = .ok last := by
  have hsplits : c.Splits before after := ⟨hfits, hchars, hpos⟩
  refine ⟨after.takeWhile p, after.dropWhile p, List.takeWhile_append_dropWhile.symm, ?accepted,
    ?longest, ?content, ?trivia, ?asked, ?again⟩
  case accepted =>
    intro x hx
    exact List.mem_takeWhile_imp hx
  case longest =>
    intro run' hfront hall
    exact isPrefix_takeWhile hfront hall
  case content => rw [hsplits.passWhile, past_content]
  case trivia => rw [hsplits.passWhile, past_trivia]
  case asked =>
    intro q hq part
    rw [hsplits.passWhile, hsplits.passWhile, takeWhile_congr_of_asked hq]
  case again =>
    intro part last hlast part'
    exact passWhile_of_passWhile hlast part'

/-- One run accepts everything, also what is read at the end.  The other one stops at a null
character, and passes nothing when it starts there. -/
theorem passWhile_passes_longest_run_null :
    let c : Cursor := ⟨⟨"éa\x00b😀"⟩, 2, 1⟩
    let all : Char → Bool := fun _ => true
    let nonNull : Char → Bool := fun x => x != '\x00'
    (c.source.text.utf8ByteSize ≤ maxOffset ∧
      c.source.text.toList = ['é'] ++ ['a', '\x00', 'b', '😀'] ∧ c.pos = utf8Len ['é']) ∧
    c.passWhile .content all = .ok ⟨c.source, 9, 1⟩ ∧
    c.passWhile .trivia nonNull = .ok ⟨c.source, 3, 3⟩ ∧
    (⟨c.source, 3, 3⟩ : Cursor).passWhile .content nonNull = .ok ⟨c.source, 3, 3⟩ := by
  intro c all nonNull
  have hfits : c.source.text.utf8ByteSize ≤ maxOffset := by decide
  have hchars : c.source.text.toList = ['é'] ++ ['a', '\x00', 'b', '😀'] := by decide +kernel
  have hpos : c.pos = utf8Len ['é'] := by decide
  obtain ⟨run, rest, hcut, -, hlongest, hcontent, -⟩ :=
    passWhile_passes_longest_run hfits hchars hpos all
  obtain rfl : ['a', '\x00', 'b', '😀'] = run := by
    have hwhole := hlongest _ (List.prefix_refl _) (by simp [all])
    exact hwhole.eq_of_length_le (by simp [hcut])
  obtain ⟨run', rest', hcut', haccepted, hlongest', -, htrivia, -, hagain⟩ :=
    passWhile_passes_longest_run hfits hchars hpos nonNull
  obtain ⟨more, rfl⟩ := hlongest' ['a'] ⟨['\x00', 'b', '😀'], rfl⟩ (by simp [nonNull])
  obtain rfl : more = [] := by
    cases more with
    | nil => rfl
    | cons y more =>
      obtain rfl : '\x00' = y := by simp at hcut'; exact hcut'.1
      have hnull := haccepted '\x00' (by simp)
      simp [nonNull] at hnull
  exact ⟨⟨hfits, hchars, hpos⟩, hcontent, htrivia, hagain .trivia _ htrivia .content⟩

end Cursor

end SelectorLexer
