import SelectorLexer.Proofs.Cursor.Decoding
import SelectorLexer.Proofs.Keyword.Failure

/-!
# Scanning from inside a character

A cursor that went back to a mark of another source may stand inside a character.  It reads
`endChar` there, which is no blank and starts no name.  So a scan drops nothing and probes
nothing: all that it does is to open a token at the cursor, and the rest of the character is
not taken for anything.

The steps of the cursor lead out of the character, one byte at a time.  At the boundary behind
it, a scan does what it does there for every cursor.  A scan opens a token before it reads,
so that the way on which the cursor came, and the token that it brings along, are forgotten.

## Main results

* `Keyword.scan_of_peek_endChar` — where `endChar` is read, a scan only opens a token.
* `Keyword.scan_congr_place` — a scan depends on the place of the cursor only.
* `Cursor.exists_foldlM_pass` — where steps lead does not depend on what the characters that
  they pass count as.
* `Keyword.scan_inside_character` — a scan from inside a character, and one behind it.
-/

namespace SelectorLexer

/-! ### Scans that only open a token -/

namespace Keyword

variable {o : Options} {wanted : KindSet} {c c' : Cursor}

/-- **Where `endChar` is read, a scan only opens a token.** -/
theorem scan_of_peek_endChar (hwanted : wanted.contains .keyword = true)
    (h : c.peek = endChar) : scan o wanted c = .ok (none, c.openToken) := by
  have hsign : endChar ∈ signs := by decide
  have hpeek : c.openToken.peek = endChar := h
  have hblank : isBlank c.openToken.peek = false := by
    rw [hpeek, isBlank_eq_false_of_mem_signs hsign]
  have hstart : o.alphabet.isStart c.openToken.peek = false := by
    rw [hpeek]
    exact Alphabet.isStart_eq_false_of_isContinue
      (Alphabet.isContinue_eq_false_of_mem_signs _ hsign)
  rw [scan, if_pos hwanted, Cursor.passWhile_of_not hblank, Checked.ok_bind, hstart]
  rfl

/-- **A scan depends on the place of the cursor only**, and not on its token. -/
theorem scan_congr_place (hwanted : wanted.contains .keyword = true)
    (hsource : c'.source = c.source) (hpos : c'.pos = c.pos) :
    scan o wanted c' = scan o wanted c := by
  have hopen : c'.openToken = c.openToken := by
    rw [Cursor.openToken, Cursor.openToken, hpos, hsource]
  rw [scan, scan, if_pos hwanted, if_pos hwanted, hopen]

end Keyword

/-! ### Steps of either kind -/

namespace Cursor

variable {c c' d : Cursor} {part : Part}

/-- From the same place a step leads to the same place, whatever the character counts as. -/
theorem exists_pass_congr (hsource : c'.source = c.source) (hpos : c'.pos = c.pos)
    (h : c.pass part = .ok d) (part' : Part) :
    ∃ d', c'.pass part' = .ok d' ∧ d'.source = d.source ∧ d'.pos = d.pos := by
  have hatEnd : c'.atEnd = c.atEnd := by rw [atEnd, atEnd, hsource, hpos]
  have hbyte : c'.byte = c.byte := by rw [byte, byte, hatEnd, hsource, hpos]
  cases hend : c.atEnd with
  | true =>
    rw [pass_of_atEnd hend] at h
    rw [← Except.ok.inj h]
    exact ⟨c', pass_of_atEnd (hatEnd.trans hend) part', hsource, hpos⟩
  | false =>
    obtain ⟨hsum, rfl⟩ := (pass_eq_ok_iff hend).mp h
    refine ⟨_, (pass_eq_ok_iff (hatEnd.trans hend)).mpr ⟨?_, rfl⟩, ?_, ?_⟩
    · rwa [hpos, hbyte]
    · rw [source_moveTo, source_moveTo, hsource]
    · rw [pos_moveTo, pos_moveTo, hpos, hbyte, hsource]

/-- **Where some steps lead does not depend on what the characters count as**, and they need
not all count as the same. -/
theorem exists_foldlM_pass (hsource : c'.source = c.source) (hpos : c'.pos = c.pos)
    (steps : List Part) (h : c.passMany part steps.length = .ok d) :
    ∃ d', steps.foldlM pass c' = .ok d' ∧ d'.source = d.source ∧ d'.pos = d.pos := by
  induction steps generalizing c c' with
  | nil =>
    obtain rfl := Except.ok.inj h
    exact ⟨c', rfl, hsource, hpos⟩
  | cons step steps ih =>
    rw [List.length_cons, passMany] at h
    obtain ⟨next, hnext, hd⟩ := Checked.bind_eq_ok_iff.mp h
    obtain ⟨next', hnext', hsource', hpos'⟩ := exists_pass_congr hsource hpos hnext step
    rw [List.foldlM_cons, hnext', Checked.ok_bind]
    exact ih hsource' hpos' hd

theorem source_of_foldlM_pass {steps : List Part} (h : steps.foldlM pass c = .ok d) :
    d.source = c.source := by
  induction steps generalizing c with
  | nil => rw [← Except.ok.inj h]
  | cons step steps ih =>
    rw [List.foldlM_cons] at h
    obtain ⟨next, hnext, hd⟩ := Checked.bind_eq_ok_iff.mp h
    rw [ih hd, source_of_pass hnext]

/-- Where `endChar` is read in front of the end, a run goes nowhere unless `endChar` is
accepted. -/
theorem exists_passWhile_of_peek_endChar (hfits : c.source.text.utf8ByteSize ≤ maxOffset)
    (hend : c.atEnd = false) (h : c.peek = endChar) (part : Part) (p : Char → Bool) :
    ∃ last, c.passWhile part p = .ok last ∧ (p endChar = false → last = c) ∧
      (p endChar = true → c.pos < last.pos) := by
  obtain ⟨last, hlast⟩ := exists_passWhile hfits part p
  refine ⟨last, hlast, ?_, ?_⟩
  · intro hp
    rw [passWhile_of_not (by rwa [h])] at hlast
    exact (Except.ok.inj hlast).symm
  · intro hp
    obtain ⟨next, hnext⟩ := exists_pass hfits part
    rw [passWhile_of_pass hend (by rwa [h]) hnext] at hlast
    exact Nat.lt_of_lt_of_le (pos_lt_of_pass hend hnext) (pos_le_of_passWhile hlast)

end Cursor

namespace Keyword

variable {o : Options} {wanted : KindSet} {c : Cursor}

/-- **A scan from inside a character finds nothing and only opens a token, and one behind the
character finds what is there.**  Inside a character no step of a run is made either, unless
`endChar` is accepted.  From there as many steps lead to the next boundary as there are bytes
up to it, and no fewer, whatever the bytes count as.  Then a scan has the same answer, and
leaves the same cursor, as for a cursor that was stepped to the boundary from the start of the
text. -/
theorem scan_inside_character (hwanted : wanted.contains .keyword = true)
    (hfits : c.source.text.utf8ByteSize ≤ maxOffset) (hinside : c.source.IsInside c.pos)
    (o : Options) :
    scan o wanted c = .ok (none, ⟨c.source, c.pos, c.pos⟩) ∧
      (∀ part p, ∃ last, c.passWhile part p = .ok last ∧ (p endChar = false → last = c) ∧
        (p endChar = true → c.pos < last.pos)) ∧
      ∃ q, IsLeast {i | c.source.IsBoundary i ∧ c.pos ≤ i} q ∧
        (∃ (steps : List Part) (d : Cursor),
          steps.foldlM Cursor.pass (.start c.source) = .ok d ∧ d.pos = q) ∧
        (∀ steps : List Part, steps.length < q - c.pos →
          ∃ d, steps.foldlM Cursor.pass c = .ok d ∧ c.source.IsInside d.pos) ∧
        ∀ steps : List Part, steps.length = q - c.pos →
          ∃ out, steps.foldlM Cursor.pass c = .ok out ∧ out.pos = q ∧
            ∃ found last, scan o wanted out = .ok (found, last) ∧
              ∀ (steps' : List Part) (d : Cursor),
                steps'.foldlM Cursor.pass (.start c.source) = .ok d → d.pos = q →
                  scan o wanted d = .ok (found, last) := by
  obtain ⟨hle, hb⟩ := Source.isInside_iff.mp hinside
  have hpeek := Cursor.peek_of_not_isBoundary hb
  obtain ⟨q, hq, -⟩ := Source.exists_isLeast_isBoundary hle
  have hsize : q ≤ c.source.text.utf8ByteSize := hq.1.1.le
  have hlt : c.pos < q := by
    refine Nat.lt_of_le_of_ne hq.1.2 ?_
    rintro heq
    exact hb (heq ▸ hq.1.1)
  have hend : c.atEnd = false := by
    rw [Cursor.atEnd_eq_false_iff, Source.size_of_le hfits]
    omega
  -- the way is known for steps that all pass content, and it is the same for others
  have hway : ∀ steps : List Part, c.pos + steps.length ≤ q →
      ∃ d, steps.foldlM Cursor.pass c = .ok d ∧ d.source = c.source ∧
        d.pos = c.pos + steps.length := by
    intro steps hsteps
    obtain ⟨d, hd, hsource, hpos, -⟩ := Cursor.exists_passMany_of_isLeast hfits hq hsteps .content
    obtain ⟨d', hd', hsource', hpos'⟩ := Cursor.exists_foldlM_pass rfl rfl steps hd
    exact ⟨d', hd', hsource'.trans hsource, hpos'.trans hpos⟩
  refine ⟨scan_of_peek_endChar hwanted hpeek,
    Cursor.exists_passWhile_of_peek_endChar hfits hend hpeek, q, hq, ?start, ?fewer, ?out⟩
  case start =>
    have hstart : (Cursor.start c.source).Splits [] c.source.text.toList :=
      Cursor.splits_start hfits
    obtain ⟨n, d, hd, hpos⟩ :=
      hstart.exists_passMany_of_isBoundary .content hq.1.1 (Nat.zero_le q)
    rw [← List.length_replicate (n := n) (a := Part.content)] at hd
    obtain ⟨d', hd', -, hpos'⟩ := Cursor.exists_foldlM_pass rfl rfl _ hd
    exact ⟨_, d', hd', hpos'.trans hpos⟩
  case fewer =>
    intro steps hsteps
    obtain ⟨d, hd, -, hpos⟩ := hway steps (by omega)
    refine ⟨d, hd, Source.isInside_iff.mpr ⟨by omega, ?_⟩⟩
    intro hbd
    have := hq.2 ⟨hbd, by omega⟩
    omega
  case out =>
    intro steps hsteps
    obtain ⟨out, hout, hsource, hpos⟩ := hway steps (by omega)
    have houtpos : out.pos = q := by omega
    obtain ⟨before, after, hsplits⟩ : ∃ before after, out.Splits before after := by
      rw [Cursor.exists_splits_iff (by rwa [hsource]), hsource, houtpos]
      exact hq.1.1
    obtain ⟨found, last, hscan⟩ := exists_scan_of_splits hsplits o wanted
    refine ⟨out, hout, houtpos, found, last, hscan, ?_⟩
    intro steps' d hd hdpos
    rw [← hscan]
    apply scan_congr_place hwanted
    · rw [Cursor.source_of_foldlM_pass hd, hsource]
      rfl
    · rw [hdpos, houtpos]

/-- Behind the first byte of a character of four bytes, with a keyword behind the blank that
comes next.  The steps out of it do not all pass the same. -/
theorem scan_inside_character_four_bytes :
    let c : Cursor := ⟨⟨"é😀 at:"⟩, 3, 1⟩
    (KindSet.keywords.contains .keyword = true ∧ c.source.text.utf8ByteSize ≤ maxOffset ∧
      c.source.IsInside c.pos) ∧
    scan {} .keywords c = .ok (none, ⟨c.source, 3, 3⟩) ∧
    c.passWhile .trivia isBlank = .ok c ∧
    ∃ out d last, [.content, .trivia, .content].foldlM Cursor.pass c = .ok out ∧
      scan {} .keywords out = .ok (some ⟨.keyword, 7, 10⟩, last) ∧
      [.trivia, .trivia].foldlM Cursor.pass (.start c.source) = .ok d ∧
      scan {} .keywords d = .ok (some ⟨.keyword, 7, 10⟩, last) := by
  intro c
  have hwanted := KindSet.contains_keywords
  have hfits : c.source.text.utf8ByteSize ≤ maxOffset := by decide
  have hinside : c.source.IsInside c.pos :=
    ⟨['é'], '😀', [' ', 'a', 't', ':'], by decide +kernel, by decide, by decide⟩
  obtain ⟨hscan, hrun, q, hq, -, -, hout⟩ := scan_inside_character hwanted hfits hinside {}
  obtain rfl : q = 6 := by
    have hsix : c.source.IsBoundary 6 := by decide +kernel
    have hno : ∀ i < 6, 3 ≤ i → ¬ c.source.IsBoundary i := by decide +kernel
    refine Nat.le_antisymm (hq.2 ⟨hsix, by decide⟩) ?_
    by_contra hlt
    exact hno q (Nat.lt_of_not_le hlt) hq.1.2 hq.1.1
  obtain ⟨run, hlast, hstay, -⟩ := hrun .trivia isBlank
  obtain ⟨out, hsteps, -, found, last, hfound, hsame⟩ := hout [.content, .trivia, .content] rfl
  have hd : [.trivia, .trivia].foldlM Cursor.pass (.start c.source) =
      Except.ok (ε := Fault) ⟨c.source, 6, 6⟩ := by decide +kernel
  have hagain := hsame _ _ hd rfl
  have htoken : (scan {} .keywords ⟨c.source, 6, 6⟩).map Prod.fst =
      .ok (some ⟨.keyword, 7, 10⟩) := by decide +kernel
  rw [hagain] at htoken
  obtain rfl : found = some ⟨.keyword, 7, 10⟩ := Except.ok.inj htoken
  refine ⟨⟨hwanted, hfits, hinside⟩, hscan, ?_, out, _, last, hsteps, hfound, hd, hagain⟩
  rw [hlast, hstay (by decide)]

end Keyword

end SelectorLexer
