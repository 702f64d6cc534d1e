import SelectorLexer.Proofs.Keyword.Recognition

/-!
# How far a scan looks ahead

A scan that stays where it found out shows in its cursor how much it has read.  It has
looked at one character more, to know that a run had come to its end or that no equals
sign follows a colon, and nothing behind that character has been looked at.  So a text may
be changed there without any change to the answer.  This holds of a scan that goes back as
well, since it reads the same and only hides it.

## Main results

* `Opens.congr_rest` — of what is not read, only the first character decides how a text
  opens.
* `Keyword.scan_congr_rest` — so it is with the scan.
* `Keyword.scan_lookahead_bounded` — a text that a scan has not reached makes no difference.
-/

namespace SelectorLexer

open String (utf8Len)

/-- Of what is not read, only the first character decides how a text opens. -/
theorem Opens.congr_rest {a : Alphabet} {op : Opening} {rest rest' : List Char}
    (h : Opens a (op.read ++ rest) op) (hhead : rest.head? = rest'.head?) :
    Opens a (op.read ++ rest') op := by
  generalize hcs : op.read ++ rest = cs at h
  cases h with
  | other hcs' =>
    refine .other fun x hx => hcs' x ?_
    rw [← hcs]
    exact hhead.trans hx
  | plainName hname hstop hcolon =>
    obtain rfl := List.append_cancel_left hcs
    exact .plainName hname (by rwa [← hhead]) (by rwa [← hhead])
  | @assignment name more hname =>
    -- the equals sign is the character that was looked at
    have hrest : rest = '=' :: more := by
      rw [Opening.read, List.append_assoc] at hcs
      exact List.cons_injective (List.append_cancel_left hcs)
    rw [hrest] at hhead
    obtain ⟨more', rfl⟩ := List.head?_eq_some_iff.mp hhead.symm
    rw [Opening.read, List.append_assoc]
    exact .assignment hname
  | @keyword name more hname hequals =>
    have hrest : rest = more := by
      rw [Opening.read, List.append_assoc] at hcs
      exact List.cons_injective (List.append_cancel_left hcs)
    rw [← hrest, hhead] at hequals
    rw [Opening.read, List.append_assoc]
    exact .keyword hname hequals

/-- What a scan meets in a text: blanks, then what it reads behind them, and the rest. -/
theorem exists_opens (a : Alphabet) (cs : List Char) :
    ∃ (blanks : List Char) (op : Opening) (rest : List Char),
      cs = blanks ++ (op.read ++ rest) ∧ (∀ x ∈ blanks, isBlank x = true) ∧
        (∀ x, (op.read ++ rest).head? = some x → isBlank x = false) ∧
        Opens a (op.read ++ rest) op := by
  obtain ⟨rest, hrest⟩ := read_opening_isPrefix a (cs.dropWhile isBlank)
  refine ⟨cs.takeWhile isBlank, opening a (cs.dropWhile isBlank), rest, ?_, ?_, ?_, ?_⟩
  · rw [hrest, List.takeWhile_append_dropWhile]
  · intro x hx
    exact List.mem_takeWhile_imp hx
  · intro x hx
    rw [hrest] at hx
    exact eq_false_of_head?_dropWhile hx
  · rw [hrest]
    exact opens_opening a _

/-- A place that cuts a text cuts the front of the text in which it lies. -/
theorem exists_toList_eq_append_of_isBoundary {u v : String} {p : Nat}
    (hp : (⟨u ++ v⟩ : Source).IsBoundary p) (hle : p ≤ u.utf8ByteSize) :
    ∃ before mid, u.toList = before ++ mid ∧ p = utf8Len before := by
  obtain ⟨front, back, hchars, rfl⟩ := Source.isBoundary_iff_utf8Len.mp hp
  rw [String.toList_append] at hchars
  rw [utf8ByteSize_eq_utf8Len] at hle
  obtain ⟨mid, hmid, -⟩ := exists_eq_append_of_utf8Len_le hchars.symm hle
  exact ⟨front, mid, hmid, rfl⟩

namespace Keyword

/-- Two scans from the same place read the same if they meet the same blanks, the same
characters behind them that are read, and the same character next. -/
theorem scan_congr_rest {o : Options} {wanted : KindSet} {c c' : Cursor}
    {before before' blanks rest rest' : List Char} {op : Opening}
    (hwanted : wanted.contains .keyword = true) (hpos : c'.pos = c.pos)
    (h : c.Splits before (blanks ++ (op.read ++ rest)))
    (h' : c'.Splits before' (blanks ++ (op.read ++ rest')))
    (hblanks : ∀ x ∈ blanks, isBlank x = true)
    (hstop : ∀ x, (op.read ++ rest).head? = some x → isBlank x = false)
    (hop : Opens o.alphabet (op.read ++ rest) op) (hhead : rest.head? = rest'.head?) :
    ∃ found pos start, scan o wanted c = .ok (found, ⟨c.source, pos, start⟩) ∧
      scan o wanted c' = .ok (found, ⟨c'.source, pos, start⟩) := by
  have hsame : (op.read ++ rest').head? = (op.read ++ rest).head? := by
    rw [List.head?_append, List.head?_append, hhead]
  refine ⟨_, _, _, scan_of_splits hwanted h hblanks hstop hop, ?_⟩
  rw [← hpos]
  exact scan_of_splits hwanted h' hblanks (by rwa [hsame]) (hop.congr_rest hhead)

/-- **Text that a scan has not reached makes no difference.**  Let two texts begin with `u`
and differ behind it, and let a scan of the first one that stays where it found out end in
front of the end of `u`.  Then every scan from the same place, whatever it does on failure,
finds the same in both texts and leaves the cursor at the same place.  If it ends right at
the end of `u`, this holds as long as the same character comes next. -/
theorem scan_lookahead_bounded {u v v' : String} {wanted : KindSet} {p : Nat}
    (hfits : (u ++ v).utf8ByteSize ≤ maxOffset) (hfits' : (u ++ v').utf8ByteSize ≤ maxOffset)
    (hwanted : wanted.contains .keyword = true) (hp : (⟨u ++ v⟩ : Source).IsBoundary p)
    (hle : p ≤ u.utf8ByteSize) (a : Alphabet) (tokenStart tokenStart' : Nat) :
    ∃ found last, scan ⟨.stay, a⟩ wanted ⟨⟨u ++ v⟩, p, tokenStart⟩ = .ok (found, last) ∧
      (last.pos < u.utf8ByteSize ∨
          last.pos = u.utf8ByteSize ∧ v.toList.head? = v'.toList.head? →
        ∀ policy, ∃ found pos start,
          scan ⟨policy, a⟩ wanted ⟨⟨u ++ v⟩, p, tokenStart⟩ =
              .ok (found, ⟨⟨u ++ v⟩, pos, start⟩) ∧
            scan ⟨policy, a⟩ wanted ⟨⟨u ++ v'⟩, p, tokenStart'⟩ =
              .ok (found, ⟨⟨u ++ v'⟩, pos, start⟩)) := by
  obtain ⟨before, mid, hu, rfl⟩ := exists_toList_eq_append_of_isBoundary hp hle
  have hsplits : ∀ (w : String) (start : Nat), (u ++ w).utf8ByteSize ≤ maxOffset →
      (⟨⟨u ++ w⟩, utf8Len before, start⟩ : Cursor).Splits before (mid ++ w.toList) := by
    intro w start hw
    exact ⟨hw, by rw [String.toList_append, hu, List.append_assoc], rfl⟩
  have hsize : u.utf8ByteSize = utf8Len before + utf8Len mid := by
    rw [utf8ByteSize_eq_utf8Len, hu, String.utf8Len_append]
  obtain ⟨blanks, op, rest, hmeets, hblanks, hstop, hop⟩ := exists_opens a (mid ++ v.toList)
  have hfirst : (⟨⟨u ++ v⟩, utf8Len before, tokenStart⟩ : Cursor).Splits before
      (blanks ++ (op.read ++ rest)) := by
    rw [← hmeets]
    exact hsplits v tokenStart hfits
  refine ⟨_, _, scan_of_splits hwanted hfirst hblanks hstop hop, ?_⟩
  intro hreach policy
  have hend : op.stop .stay (utf8Len before + utf8Len blanks) =
      utf8Len before + utf8Len (blanks ++ op.read) := by
    rw [Opening.stop, Opening.consumed_stay, String.utf8Len_append, Nat.add_assoc]
  simp only [hend, hsize, Nat.add_lt_add_iff_left, Nat.add_left_cancel_iff] at hreach
  rw [← List.append_assoc] at hmeets
  obtain ⟨more, rfl, rfl⟩ := exists_eq_append_of_utf8Len_le hmeets.symm (by omega)
  have hhead : (more ++ v.toList).head? = (more ++ v'.toList).head? := by
    rw [List.head?_append, List.head?_append]
    cases more with
    | cons x more => rfl
    | nil =>
      rcases hreach with hlt | ⟨-, hnext⟩
      · rw [List.append_nil] at hlt
        omega
      · rw [hnext]
  have hsecond : (⟨⟨u ++ v'⟩, utf8Len before, tokenStart'⟩ : Cursor).Splits before
      (blanks ++ (op.read ++ (more ++ v'.toList))) := by
    have h := hsplits v' tokenStart' hfits'
    simpa only [List.append_assoc] using h
  exact scan_congr_rest hwanted rfl hfirst hsecond hblanks hstop hop hhead

/-- One character behind the colon is enough for a keyword to be one, whatever the text goes
on with.  Without that character, what comes next decides. -/
theorem scan_lookahead_bounded_behind_colon :
    ("é at:p" ++ "ut:").utf8ByteSize ≤ maxOffset ∧ ("é at:p" ++ "=").utf8ByteSize ≤ maxOffset ∧
      KindSet.keywords.contains .keyword = true ∧
      (⟨"é at:p" ++ "ut:"⟩ : Source).IsBoundary 2 ∧ 2 ≤ "é at:p".utf8ByteSize ∧
      (∀ policy,
        scan ⟨policy, .unicode⟩ .keywords ⟨⟨"é at:p" ++ "="⟩, 2, 1⟩ =
          .ok (some ⟨.keyword, 3, 6⟩, ⟨⟨"é at:p" ++ "="⟩, 6, 3⟩)) ∧
      (scan ⟨.stay, .unicode⟩ .keywords ⟨⟨"é at:" ++ "ut:"⟩, 2, 1⟩).map Prod.fst =
          .ok (some ⟨.keyword, 3, 6⟩) ∧
      (scan ⟨.stay, .unicode⟩ .keywords ⟨⟨"é at:" ++ "="⟩, 2, 1⟩).map Prod.fst = .ok none := by
  have hfits : ("é at:p" ++ "ut:").utf8ByteSize ≤ maxOffset := by decide
  have hfits' : ("é at:p" ++ "=").utf8ByteSize ≤ maxOffset := by decide
  have hp : (⟨"é at:p" ++ "ut:"⟩ : Source).IsBoundary 2 := by decide +kernel
  have hfirst : ∀ policy, scan ⟨policy, .unicode⟩ .keywords ⟨⟨"é at:p" ++ "ut:"⟩, 2, 1⟩ =
      .ok (some ⟨.keyword, 3, 6⟩, ⟨⟨"é at:p" ++ "ut:"⟩, 6, 3⟩) := by
    intro policy
    cases policy with
    | goBack => decide +kernel
    | stay => decide +kernel
  obtain ⟨found, last, hscan, hsame⟩ :=
    scan_lookahead_bounded hfits hfits' KindSet.contains_keywords hp (by decide) .unicode 1 1
  rw [hfirst .stay] at hscan
  cases hscan
  refine ⟨hfits, hfits', KindSet.contains_keywords, hp, by decide, ?_, by decide +kernel,
    by decide +kernel⟩
  intro policy
  obtain ⟨found, pos, start, hscan, hscan'⟩ := hsame (.inl (by decide)) policy
  rw [hfirst policy] at hscan
  cases hscan
  exact hscan'

end Keyword

end SelectorLexer
