import SelectorLexer.Proofs.Keyword.Failure

/-!
# Scanning again

A scan opens its token at the cursor and then drops blanks, so that the token starts where
the blanks end, and not where the scan began.  A scan that begins further on among the same
blanks ends at the same place and finds the same.  What was the token before makes no
difference.

The end of the blanks is the last of these places.  It is where a keyword starts that was
found, so that it is found from its own start again.  And it is where a scan in vain leaves
the cursor if it goes back, so that scanning on from there is in vain as well and moves
nothing.

## Main definitions

* `Keyword.scanMany` — some scans, each from where the one before has left the cursor.

## Main results

* `Keyword.scan_behind_blanks` — a scan from further on among the blanks.
* `Keyword.scanMany_of_fixed` — scans that leave the cursor where it is.
* `Keyword.scan_reenters_blanks` — all places where the same scan can begin.
-/

namespace SelectorLexer

open String (utf8Len)

namespace Keyword

variable {o : Options} {wanted : KindSet} {c : Cursor}

/-! ### Several scans -/

/-- Scan `n` times, one scan after the other.  The answers come in order, and the cursor is
the one that the last scan leaves. -/
def scanMany (o : Options) (wanted : KindSet) (c : Cursor) :
    Nat → Checked (List (Option Token) × Cursor)
  | 0 => .ok ([], c)
  | n + 1 => do
    let (found, next) ← scan o wanted c
    let (more, last) ← scanMany o wanted next n
    return (found :: more, last)

@[simp] theorem scanMany_zero (o : Options) (wanted : KindSet) (c : Cursor) :
    scanMany o wanted c 0 = .ok ([], c) := rfl

/-- A scan that leaves the cursor as it is can be repeated at will. -/
theorem scanMany_of_fixed {found : Option Token} (h : scan o wanted c = .ok (found, c))
    (n : Nat) : scanMany o wanted c n = .ok (List.replicate n found, c) := by
  induction n with
  | zero => rfl
  | succ n ih =>
    simp only [scanMany, h, ih, Checked.ok_bind, List.replicate_succ]
    rfl

/-! ### Other places to begin -/

variable {before : List Char}

/-- A scan may as well begin behind some of the blanks, with any token. -/
theorem scan_behind_blanks {blanks rest : List Char} (hwanted : wanted.contains .keyword = true)
    (h : c.Splits before (blanks ++ rest)) (hblanks : ∀ x ∈ blanks, isBlank x = true)
    (start : Nat) :
    scan o wanted ⟨c.source, c.pos + utf8Len blanks, start⟩ = scan o wanted c := by
  have hbehind : (⟨c.source, c.pos + utf8Len blanks, start⟩ : Cursor).Splits
      (before ++ blanks) rest := by
    refine ⟨h.fits, ?_, ?_⟩
    · rw [h.chars, List.append_assoc]
    · rw [String.utf8Len_append, ← h.pos]
  -- the same blanks are left to drop, and the token starts behind them
  rw [scan_eq_of_splits hwanted hbehind, scan_eq_of_splits hwanted h,
    List.takeWhile_append_of_pos hblanks, List.dropWhile_append_of_pos hblanks,
    String.utf8Len_append, Nat.add_assoc]

/-- The boundaries from a cut to the end of the blanks behind it have blanks in front of them
only. -/
theorem exists_blanks_of_isBoundary {after : List Char} (h : c.Splits before after) {q : Nat}
    (hq : c.source.IsBoundary q) (hle : c.pos ≤ q)
    (hle' : q ≤ c.pos + utf8Len (after.takeWhile isBlank)) :
    ∃ blanks rest, after = blanks ++ rest ∧ (∀ x ∈ blanks, isBlank x = true) ∧
      q = c.pos + utf8Len blanks := by
  obtain ⟨front, back, hfront, rfl⟩ := Source.isBoundary_iff_utf8Len.mp hq
  rw [h.pos] at hle hle'
  obtain ⟨mid, rfl, rfl⟩ := exists_eq_append_of_utf8Len_le (h.chars.symm.trans hfront) hle
  rw [String.utf8Len_append] at hle'
  have hrun : (mid ++ back).takeWhile isBlank ++ (mid ++ back).dropWhile isBlank = mid ++ back :=
    List.takeWhile_append_dropWhile
  obtain ⟨more, hmore, -⟩ := exists_eq_append_of_utf8Len_le hrun.symm (by omega)
  refine ⟨mid, back, rfl, ?_, ?_⟩
  · intro x hx
    apply List.mem_takeWhile_imp (l := mid ++ back)
    rw [hmore]
    exact List.mem_append_left more hx
  · rw [String.utf8Len_append, h.pos]

/-- **A scan can begin anywhere among its blanks.**  From every boundary that is not behind
the end of the blanks, whatever the token was before, a scan finds the same and leaves the
cursor at the same place with the same token.  So a keyword is found again from its start.
And if scans go back, one in vain leaves the cursor where any number of further ones are in
vain too, and none of them moves it. -/
theorem scan_reenters_blanks {after : List Char} (hwanted : wanted.contains .keyword = true)
    (hfits : c.source.text.utf8ByteSize ≤ maxOffset)
    (hchars : c.source.text.toList = before ++ after) (hpos : c.pos = utf8Len before)
    (o : Options) :
    let stop := c.pos + utf8Len (after.takeWhile isBlank)
    ∃ found last, scan o wanted c = .ok (found, last) ∧
      (∀ q start, c.source.IsBoundary q → c.pos ≤ q → q ≤ stop →
        scan o wanted ⟨c.source, q, start⟩ = .ok (found, last)) ∧
      (∀ token, found = some token → token.span.start = stop ∧
        ∀ start, scan o wanted ⟨c.source, token.span.start, start⟩ = .ok (some token, last)) ∧
      (o.onFailure = .goBack → found = none →
        ∀ n, scanMany o wanted last n = .ok (List.replicate n none, last)) := by
  intro stop
  let op := opening o.alphabet (after.dropWhile isBlank)
  have hsplits : c.Splits before after := ⟨hfits, hchars, hpos⟩
  have hscan : scan o wanted c =
      .ok (op.token? stop, ⟨c.source, op.stop o.onFailure stop, stop⟩) :=
    scan_eq_of_splits hwanted hsplits
  have hblanks : ∀ x ∈ after.takeWhile isBlank, isBlank x = true := by
    intro x hx
    exact List.mem_takeWhile_imp hx
  -- the last place to begin is the end of the blanks
  have hlast : ∀ start, scan o wanted ⟨c.source, stop, start⟩ = scan o wanted c := by
    intro start
    rw [← List.takeWhile_append_dropWhile (p := isBlank) (l := after)] at hsplits
    exact scan_behind_blanks hwanted hsplits hblanks start
  refine ⟨_, _, hscan, ?anywhere, ?again, ?fixed⟩
  case anywhere =>
    intro q start hq hle hle'
    obtain ⟨blanks, rest, rfl, hall, rfl⟩ := exists_blanks_of_isBoundary hsplits hq hle hle'
    rw [scan_behind_blanks hwanted hsplits hall, hscan]
  case again =>
    intro token htoken
    obtain ⟨name, -, rfl⟩ := Opening.token?_eq_some_iff.mp htoken
    refine ⟨rfl, ?_⟩
    intro start
    rw [← htoken, ← hscan]
    exact hlast start
  case fixed =>
    intro hback hnone n
    have hkey := Opening.isKeyword_of_token? hnone
    rw [hback, Opening.stop_goBack hkey] at hscan ⊢
    refine scanMany_of_fixed ?_ n
    rw [hlast, hscan, hnone]

/-- Between two blanks in front of a keyword, with a token that started elsewhere, and at an
assignment that is scanned three times more. -/
theorem scan_reenters_blanks_assignment :
    let c : Cursor := ⟨⟨"é \u00a0ab: x:=1"⟩, 2, 0⟩
    let d : Cursor := ⟨c.source, 8, 3⟩
    (KindSet.keywords.contains .keyword = true ∧ c.source.text.utf8ByteSize ≤ maxOffset ∧
      c.source.text.toList = ['é'] ++ [' ', '\u00a0', 'a', 'b', ':', ' ', 'x', ':', '=', '1'] ∧
      c.pos = utf8Len ['é'] ∧
      c.source.text.toList = ['é', ' ', '\u00a0', 'a', 'b', ':'] ++ [' ', 'x', ':', '=', '1'] ∧
      d.pos = utf8Len ['é', ' ', '\u00a0', 'a', 'b', ':']) ∧
    (∃ last, scan {} .keywords c = .ok (some ⟨.keyword, 5, 8⟩, last) ∧
      scan {} .keywords ⟨c.source, 3, 1⟩ = .ok (some ⟨.keyword, 5, 8⟩, last) ∧
      scan {} .keywords ⟨c.source, 5, 0⟩ = .ok (some ⟨.keyword, 5, 8⟩, last)) ∧
    ∃ last, scan {} .keywords d = .ok (none, last) ∧
      scanMany {} .keywords last 3 = .ok ([none, none, none], last) := by
  intro c d
  have hwanted := KindSet.contains_keywords
  have hfits : c.source.text.utf8ByteSize ≤ maxOffset := by decide
  have hchars : c.source.text.toList =
      ['é'] ++ [' ', '\u00a0', 'a', 'b', ':', ' ', 'x', ':', '=', '1'] := by decide +kernel
  have hpos : c.pos = utf8Len ['é'] := by decide
  have hchars' : d.source.text.toList =
      ['é', ' ', '\u00a0', 'a', 'b', ':'] ++ [' ', 'x', ':', '=', '1'] := by decide +kernel
  have hpos' : d.pos = utf8Len ['é', ' ', '\u00a0', 'a', 'b', ':'] := by decide
  have htoken : (scan {} .keywords c).map Prod.fst = .ok (some ⟨.keyword, 5, 8⟩) := by
    decide +kernel
  have hnone : (scan {} .keywords d).map Prod.fst = .ok none := by decide +kernel
  obtain ⟨found, last, hscan, hanywhere, hagain, -⟩ :=
    scan_reenters_blanks hwanted hfits hchars hpos {}
  obtain ⟨found', last', hscan', -, -, hfixed⟩ :=
    scan_reenters_blanks (c := d) hwanted hfits hchars' hpos' {}
  rw [hscan] at htoken
  rw [hscan'] at hnone
  obtain rfl : found = some ⟨.keyword, 5, 8⟩ := Except.ok.inj htoken
  obtain rfl : found' = none := Except.ok.inj hnone
  refine ⟨⟨hwanted, hfits, hchars, hpos, hchars', hpos'⟩, ⟨last, hscan, ?_, ?_⟩, last', hscan',
    hfixed rfl rfl 3⟩
  · exact hanywhere 3 1 (by decide +kernel) (by decide) (by decide +kernel)
  · exact (hagain _ rfl).2 0

end Keyword

end SelectorLexer
