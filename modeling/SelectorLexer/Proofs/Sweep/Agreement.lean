import SelectorLexer.Proofs.Keyword.Failure
import SelectorLexer.Proofs.Selector.Rejection
import SelectorLexer.Proofs.Sweep.Findings

/-!
# A sweep and a reading of the same text

A text is read as a selector up to the first scan that finds nothing, and it is swept to
its end whatever the scans find.  Up to that first scan the two do the same, so a sweep
finds the pieces of the longest front first.  What it finds next tells whether the reading
got to the end: a scan in vain starts its token behind the front, and the text is over
there exactly if there is nothing left to reject.

A reading refuses texts with flaws before it scans, and a sweep does not.  But a flaw is
no part of a layout, so a sweep of such a text meets a place where nothing more can be
read, just as for any other text that is no selector.

## Main definitions

* `Selector.Segment.finding` — a segment, as a sweep finds it.
* `BehindFront` — what a sweep finds behind the longest front.

## Main results

* `sweep_of_isFront` — a sweep finds the pieces of the longest front, and what is behind.
* `parse_agrees_with_sweep` — the outcome of a reading, told from the findings of a sweep.
-/

namespace SelectorLexer

open String (utf8Len)
open Selector (Layout Piece Finished Segment)

/-! ### The findings of a sweep -/

/-- A segment, as a sweep finds it. -/
def Selector.Segment.finding (g : Segment) : Finding := .keyword g.token g.text

@[simp] theorem filterMap_token?_finding (gs : List Segment) :
    (gs.map Segment.finding).filterMap Finding.token? = gs.map fun g => (g.token, g.text) := by
  rw [List.filterMap_map]
  exact congrFun List.filterMap_eq_map gs

@[simp] theorem filterMap_miss?_finding (gs : List Segment) :
    (gs.map Segment.finding).filterMap Finding.miss? = [] := by
  rw [List.filterMap_map, List.filterMap_eq_nil_iff]
  intro g _
  rfl

/-- What a sweep finds behind a front that ends at the offset `stop`, when nothing more can
be read from the rest of the text. -/
inductive BehindFront (stop : Nat) : List Char → List Finding → Prop where
  /-- The text is over right behind a keyword, or there was no text. -/
  | nothing : BehindFront stop [] []
  /-- The text is over behind some blanks, and the scan that dropped them found nothing. -/
  | blanks : BehindFront stop [] [.miss (.point stop)]
  /-- The text goes on with what is no keyword. -/
  | unread (x : Char) (rest : List Char) (pos : Nat) (more : List Finding) :
    BehindFront stop (x :: rest) (.miss ⟨stop, pos⟩ :: more)

/-- The first finding of a sweep is what its first scan comes to. -/
theorem exists_more_of_miss {o : Options} {c last : Cursor} {found : List Finding}
    (hend : c.atEnd = false) (hscan : Keyword.scan o .keywords c = .ok (none, last))
    (h : sweep o c = .ok found) : ∃ more, found = .miss last.span :: more := by
  rw [sweep, dif_neg (by simp [hend])] at h
  split at h
  · cases h
  · next hsome => rw [hscan] at hsome; cases hsome
  · next hnone =>
    rw [hscan] at hnone
    cases hnone
    split at h
    · cases h
    · obtain ⟨more, -, hmore⟩ := Checked.bind_eq_ok_iff.mp h
      exact ⟨more, (Except.ok.inj hmore).symm⟩

/-- A sweep from the blanks at the end of the longest front. -/
theorem sweep_of_finished {o : Options} {c : Cursor} {before blanks rest : List Char}
    (h : c.Splits before (blanks ++ rest)) (hblanks : ∀ x ∈ blanks, isBlank x = true)
    (hfinished : Finished o.alphabet rest) :
    ∃ more, sweep o c = .ok more ∧ BehindFront (c.pos + utf8Len blanks) rest more := by
  by_cases hnil : blanks ++ rest = []
  · obtain ⟨rfl, rfl⟩ := List.append_eq_nil_iff.mp hnil
    exact ⟨[], sweep_of_atEnd (h.atEnd_iff.mpr hnil), .nothing⟩
  have hend : c.atEnd = false := by rwa [← Bool.not_eq_true, h.atEnd_iff]
  have hscan :=
    Keyword.scan_of_miss KindSet.contains_keywords h hblanks hfinished.1 hfinished.2
  cases rest with
  | nil =>
    -- the scan has dropped the blanks, and there is nothing behind them
    have hlast : (⟨c.source, c.pos + utf8Len blanks, c.pos + utf8Len blanks⟩ : Cursor).atEnd =
        true := by
      rw [Cursor.atEnd_iff, h.size_eq, List.append_nil, h.pos]
    rw [stop_opening_of_not_isStart (by simp)] at hscan
    exact ⟨_, sweep_of_miss hend hscan (Cursor.pass_of_atEnd hlast .trivia)
      (sweep_of_atEnd hlast), .blanks⟩
  | cons x rest =>
    obtain ⟨found, hsweep, -⟩ := sweep_of_splits (o := o) h
    obtain ⟨more, rfl⟩ := exists_more_of_miss hend hscan hsweep
    exact ⟨_, hsweep, .unread x rest _ more⟩

/-- **A sweep from a cut finds the pieces of the longest front**, and then what is behind
it. -/
theorem sweep_of_isFront {o : Options} {l : Layout o.alphabet} {c : Cursor}
    {before cs rest : List Char} (h : c.Splits before cs) (hl : l.IsFront cs rest)
    (hfinished : Finished o.alphabet rest) :
    ∃ more, sweep o c = .ok ((Piece.segments c.pos l.pieces).map Segment.finding ++ more) ∧
      BehindFront (c.pos + utf8Len l.chars) rest more := by
  obtain ⟨pieces, blanks, hblanks⟩ := l
  obtain ⟨rfl, hun⟩ := hl
  simp only [Layout.chars] at h hun ⊢
  induction pieces generalizing c before with
  | nil =>
    rw [Piece.join_nil, List.nil_append] at h ⊢
    exact sweep_of_finished h hblanks hfinished
  | cons p ps ih =>
    obtain ⟨hequals, hun⟩ := hun
    rw [← List.append_assoc] at hequals
    rw [Piece.join_cons, List.append_assoc, List.append_assoc, ← List.append_assoc (Piece.join ps)]
      at h
    have hend : c.atEnd = false := by
      rw [← Bool.not_eq_true, h.atEnd_iff]
      simp [Piece.chars]
    obtain ⟨hscan, hnext, htext⟩ := Selector.scan_of_piece h hequals
    obtain ⟨more, hsweep, hmore⟩ := ih hun hnext
    refine ⟨more, sweep_of_found hend hscan htext hsweep, ?_⟩
    rwa [Piece.join_cons, List.append_assoc, String.utf8Len_append p.chars, ← Nat.add_assoc]

/-! ### The outcome of a reading -/

/-- What a sweep of a whole text finds.  If the text is its longest front, the keywords are
those of the front, and nothing is missed but at the end.  If the text goes on, the first
miss is where the front ends. -/
theorem exists_sweep_of_isFront {text : String} {o : Options} {l : Layout o.alphabet}
    {rest : List Char} (hfits : text.utf8ByteSize ≤ maxOffset)
    (hl : l.IsFront text.toList rest) (hfinished : Finished o.alphabet rest) :
    ∃ found, sweep o (.start ⟨text⟩) = .ok found ∧
      (rest = [] →
        (found.filterMap Finding.token?).map Prod.fst =
          (Piece.segments 0 l.pieces).map Segment.token ∧
        ∀ m ∈ found.filterMap Finding.miss?, m.start = text.utf8ByteSize) ∧
      (rest ≠ [] → utf8Len l.chars < text.utf8ByteSize ∧
        ∃ m misses, found.filterMap Finding.miss? = m :: misses ∧ m.start = utf8Len l.chars) := by
  obtain ⟨more, hsweep, hmore⟩ := sweep_of_isFront (Cursor.splits_start hfits) hl hfinished
  have hsize : text.utf8ByteSize = utf8Len l.chars + utf8Len rest := by
    rw [utf8ByteSize_eq_utf8Len, hl.eq_append, String.utf8Len_append]
  rw [Cursor.start, Nat.zero_add] at hmore
  refine ⟨_, hsweep, ?_⟩
  simp only [Cursor.start, List.filterMap_append, filterMap_token?_finding,
    filterMap_miss?_finding, List.nil_append, List.map_append, List.map_map]
  cases hmore with
  | nothing =>
    refine ⟨fun _ => ⟨List.append_nil _, by simp⟩, fun h => absurd rfl h⟩
  | blanks =>
    refine ⟨fun _ => ⟨List.append_nil _, ?_⟩, fun h => absurd rfl h⟩
    rintro m (_ | ⟨_, ⟨⟩⟩)
    exact hsize.symm
  | unread x rest pos more =>
    refine ⟨fun h => absurd h (List.cons_ne_nil x rest), fun _ => ⟨?_, _, _, rfl, rfl⟩⟩
    have := x.utf8Size_pos
    rw [hsize, String.utf8Len_cons]
    omega

/-- A text that goes on behind its longest front is rejected: for a flaw if it has one, and
otherwise for what comes behind the front. -/
theorem Selector.exists_rejection_of_isFront {text : String} {o : Options} {l : Layout o.alphabet}
    {rest : List Char} (hfits : text.utf8ByteSize ≤ maxOffset)
    (hl : l.IsFront text.toList rest) (hfinished : Finished o.alphabet rest) (hrest : rest ≠ []) :
    ∃ p r, parse text o = .ok p ∧ p.outcome = .error r ∧
      (Flawless text.toList → r = .notKeyword (utf8Len l.chars)) := by
  cases hflaws : (⟨text⟩ : Source).flaws with
  | cons flaw flaws =>
    refine ⟨_, _, by rw [parse, hflaws], rfl, ?_⟩
    intro hflawless
    rw [(Source.flaws_eq_nil_iff hfits).mpr hflawless] at hflaws
    cases hflaws
  | nil =>
    refine ⟨_, _, parse_of_isFront hfits hflaws hl hfinished, ?_, fun _ => rfl⟩
    exact Layout.outcome_verdict_eq_error_iff.mpr (.inl ⟨hrest, rfl⟩)

/-- **A sweep tells what comes of reading a text as a selector.**  The text is a selector
exactly if the sweep finds a keyword and misses none but at the end of the text, and its
segments are then the keywords of the sweep.  Without flaws the text is rejected for what
stands at some place exactly if there is a miss before the end, and the place is that of
the first one; and it is rejected as empty exactly if there is neither a keyword nor such a
miss. -/
theorem parse_agrees_with_sweep {text : String} (hfits : text.utf8ByteSize ≤ maxOffset)
    (o : Options) :
    ∃ p found, Selector.parse text o = .ok p ∧ sweep o (.start ⟨text⟩) = .ok found ∧
      let tokens := (found.filterMap Finding.token?).map Prod.fst
      let misses := found.filterMap Finding.miss?
      ((∃ s, p.outcome = .ok s) ↔ tokens ≠ [] ∧ ∀ m ∈ misses, m.start = text.utf8ByteSize) ∧
      (∀ s, p.outcome = .ok s → s.segments = tokens) ∧
      (Flawless text.toList →
        (∀ pos, p.outcome = .error (.notKeyword pos) ↔
          (∃ m ∈ misses, m.start < text.utf8ByteSize) ∧ misses.head?.map Span.start = some pos) ∧
        (p.outcome = .error .noSegment ↔
          tokens = [] ∧ ¬ ∃ m ∈ misses, m.start < text.utf8ByteSize)) := by
  obtain ⟨l, rest, hl, hfinished⟩ := Selector.exists_isFront o.alphabet text.toList
  obtain ⟨found, hsweep, hwhole, hpart⟩ := exists_sweep_of_isFront hfits hl hfinished
  by_cases hrest : rest = []
  · subst hrest
    obtain ⟨htokens, hmisses⟩ := hwhole rfl
    have hnone : ¬ ∃ m ∈ found.filterMap Finding.miss?, m.start < text.utf8ByteSize := by
      rintro ⟨m, hm, hlt⟩
      exact absurd (hmisses m hm) (by omega)
    refine ⟨_, found, Selector.parse_of_isFront_nil hfits hl, hsweep, ?_⟩
    simp only [htokens, hnone, and_iff_left hmisses]
    cases hpieces : l.pieces with
    | nil => simp [Layout.verdict, hpieces]
    | cons p ps => simp [Layout.verdict, hpieces, Layout.selector, Piece.segments_cons]
  · obtain ⟨hlt, m, misses, hmisses, hstart⟩ := hpart hrest
    obtain ⟨p, r, hp, hr, hplace⟩ := Selector.exists_rejection_of_isFront hfits hl hfinished hrest
    have hmem : ∃ m ∈ found.filterMap Finding.miss?, m.start < text.utf8ByteSize :=
      ⟨m, by rw [hmisses]; exact List.mem_cons_self, by omega⟩
    have hall : ¬ ∀ m ∈ found.filterMap Finding.miss?, m.start = text.utf8ByteSize := by
      intro hall
      obtain ⟨m, hm, hlt⟩ := hmem
      exact absurd (hall m hm) (by omega)
    refine ⟨p, found, hp, hsweep, ?_, ?_, ?_⟩
    · constructor
      · rintro ⟨s, hs⟩
        rw [hr] at hs
        cases hs
      · rintro ⟨-, h⟩
        exact absurd h hall
    · intro s hs
      rw [hr] at hs
      cases hs
    · intro hflawless
      obtain rfl := hplace hflawless
      constructor
      · intro pos
        rw [hr, and_iff_right hmem, hmisses, List.head?_cons, Option.map_some, hstart]
        simp
      · refine iff_of_false ?_ fun h => h.2 hmem
        rw [hr]
        simp

/-- An assignment before the end, a keyword behind it, and blanks at the end. -/
theorem parse_agrees_with_sweep_assignment :
    "é: x:=y: ".utf8ByteSize ≤ maxOffset ∧ Flawless "é: x:=y: ".toList ∧
      ∃ p found, Selector.parse "é: x:=y: " {} = .ok p ∧
        sweep {} (.start ⟨"é: x:=y: "⟩) = .ok found ∧
        found.filterMap Finding.miss? = [⟨4, 4⟩, ⟨5, 5⟩, ⟨6, 6⟩, ⟨10, 10⟩] ∧
        p.outcome = .error (.notKeyword 4) := by
  have hfits : "é: x:=y: ".utf8ByteSize ≤ maxOffset := by decide
  have hflawless : Flawless "é: x:=y: ".toList := ⟨by decide +kernel, by decide +kernel⟩
  have hmisses : (sweep {} (.start ⟨"é: x:=y: "⟩)).map (List.filterMap Finding.miss?) =
      .ok [⟨4, 4⟩, ⟨5, 5⟩, ⟨6, 6⟩, ⟨10, 10⟩] := by
    decide +kernel
  obtain ⟨p, found, hp, hsweep, -, -, herror⟩ := parse_agrees_with_sweep hfits {}
  rw [hsweep] at hmisses
  have hfound := Except.ok.inj hmisses
  refine ⟨hfits, hflawless, p, found, hp, hsweep, hfound, ?_⟩
  rw [(herror hflawless).1 4, hfound]
  exact ⟨⟨⟨4, 4⟩, by decide, by decide⟩, rfl⟩

end SelectorLexer
