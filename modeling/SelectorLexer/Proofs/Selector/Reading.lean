import SelectorLexer.Proofs.Keyword.Recognition
import SelectorLexer.Proofs.Selector.Layout

/-!
# What reading a selector comes to

Reading takes one scan for each piece of the longest front of a text, and one more that
finds nothing.  That last scan ends where it began exactly when nothing is left of the
text: a name that is no keyword is either left in front of the cursor or has been read
into its token, and both show.  So the outcome is a function of the front and of what is
left, and how failures are treated is not part of it.

## Main definitions

* `Selector.Layout.events`, `Selector.Layout.selector` — what the pieces of a front give
  rise to.
* `Selector.Layout.verdict` — what comes of a text with this front.

## Main results

* `Selector.readSegments_of_splits`, `Selector.readSegments_of_isFront` — the scans of one reading.
* `Selector.parse_of_isFront` — reading a text comes to the verdict on its front.
* `Selector.parse_cases` — what can come of reading a text.
* `Selector.Layout.parts_selector` — the parts of a selector are the keywords of its
  layout.
-/

namespace SelectorLexer

open String (utf8Len)

namespace Selector

/-! ### The scans -/

theorem readSegments_of_none {o : Options} {c last : Cursor}
    (h : Keyword.scan o .keywords c = .ok (none, last)) : readSegments o c = .ok ([], last) := by
  rw [readSegments]
  split
  · next hscan => rw [h] at hscan; cases hscan
  · next hscan =>
    rw [h] at hscan
    cases hscan
    rfl
  · next hscan => rw [h] at hscan; cases hscan

theorem readSegments_of_some {o : Options} {c next : Cursor} {t : Token} {text : String}
    (h : Keyword.scan o .keywords c = .ok (some t, next)) (htext : next.lexeme = .ok text) :
    readSegments o c = do
      let (rest, last) ← readSegments o next
      return (⟨t, text⟩ :: rest, last) := by
  rw [readSegments]
  split
  · next hscan => rw [h] at hscan; cases hscan
  · next hscan => rw [h] at hscan; cases hscan
  · next hscan =>
    rw [h] at hscan
    cases hscan
    rw [htext]
    rfl

/-- A scan in front of a piece finds its keyword, and leaves the cursor behind the piece. -/
theorem scan_of_piece {o : Options} {c : Cursor} {before rest : List Char}
    {p : Piece o.alphabet} (h : c.Splits before (p.chars ++ rest))
    (hequals : rest.head? ≠ some '=') :
    let stop := c.pos + utf8Len p.chars
    let last : Cursor := ⟨c.source, stop, c.pos + utf8Len p.blanks⟩
    Keyword.scan o .keywords c =
        .ok (some ⟨.keyword, c.pos + utf8Len p.blanks, stop⟩, last) ∧
      last.Splits (before ++ p.chars) rest ∧ last.lexeme = .ok p.text := by
  intro stop last
  have hstop : c.pos + utf8Len p.blanks + utf8Len p.name + 1 = stop := by
    simp only [stop, p.utf8Len_chars]
    omega
  rw [Piece.chars, List.append_assoc, List.append_assoc, List.singleton_append] at h
  obtain ⟨hscan, hnext, htext⟩ := Keyword.scan_of_keyword (o := o) KindSet.contains_keywords h
    p.isBlank_of_mem p.isName hequals
  rw [hstop] at hscan hnext htext
  rw [List.append_assoc] at hnext
  exact ⟨hscan, hnext, htext⟩

/-- **Reading from a cut reads the pieces of the longest front**, and leaves the cursor
where one more scan does. -/
theorem readSegments_of_splits {o : Options} {l : Layout o.alphabet} {c : Cursor}
    {before cs rest : List Char} (h : c.Splits before cs) (hl : l.IsFront cs rest)
    (hfinished : Finished o.alphabet rest) :
    readSegments o c =
      .ok (Piece.segments c.pos l.pieces,
        ⟨c.source, (opening o.alphabet rest).stop o.onFailure (c.pos + utf8Len l.chars),
          c.pos + utf8Len l.chars⟩) := by
  obtain ⟨pieces, blanks, hblanks⟩ := l
  obtain ⟨rfl, hun⟩ := hl
  simp only [Layout.chars] at h hun ⊢
  induction pieces generalizing c before with
  | nil =>
    rw [Piece.join_nil, List.nil_append] at h ⊢
    exact readSegments_of_none
      (Keyword.scan_of_miss KindSet.contains_keywords h hblanks hfinished.1 hfinished.2)
  | cons p ps ih =>
    obtain ⟨hequals, hun⟩ := hun
    rw [← List.append_assoc] at hequals
    rw [Piece.join_cons, List.append_assoc, List.append_assoc, ← List.append_assoc (Piece.join ps)]
      at h
    obtain ⟨hscan, hnext, htext⟩ := scan_of_piece h hequals
    rw [readSegments_of_some hscan htext, ih hun hnext, Checked.ok_bind, Piece.join_cons,
      List.append_assoc, String.utf8Len_append p.chars, ← Nat.add_assoc]
    rfl

/-- A text is read from its start. -/
theorem readSegments_of_isFront {text : String} {o : Options} {l : Layout o.alphabet}
    {rest : List Char} (hfits : text.utf8ByteSize ≤ maxOffset) (hl : l.IsFront text.toList rest)
    (hfinished : Finished o.alphabet rest) :
    readSegments o (.start ⟨text⟩) =
      .ok (Piece.segments 0 l.pieces,
        ⟨⟨text⟩, (opening o.alphabet rest).stop o.onFailure (utf8Len l.chars),
          utf8Len l.chars⟩) := by
  have h := readSegments_of_splits (Cursor.splits_start hfits) hl hfinished
  rwa [Cursor.start, Nat.zero_add] at h

/-! ### The outcome -/

namespace Layout

variable {a : Alphabet}

/-- The events that tell of the pieces of a front. -/
def events (l : Layout a) : List Event := (Piece.segments 0 l.pieces).map Segment.event

/-- The selector that the pieces make up, when they stand at the front of `text`. -/
def selector (text : String) (l : Layout a) : Selector :=
  ⟨⟨text⟩, (Piece.segments 0 l.pieces).map Segment.token⟩

/-- What comes of reading a text that has the front `l`, when it goes on with `rest`. -/
def verdict (text : String) (l : Layout a) (rest : List Char) : Parse :=
  match rest, l.pieces with
  | _ :: _, _ => ⟨.error (.notKeyword (utf8Len l.chars)), l.events⟩
  | [], [] => ⟨.error .noSegment, l.events⟩
  | [], _ :: _ => ⟨.ok (l.selector text), l.events ++ [(l.selector text).event]⟩

end Layout

/-- A scan that finds nothing leaves nothing to read and nothing in its token only at the
end of the text. -/
theorem atEnd_and_isEmpty_iff {o : Options} {s : Source} {start : Nat} {before rest : List Char}
    (h : (⟨s, start, start⟩ : Cursor).Splits before rest) :
    ((⟨s, (opening o.alphabet rest).stop o.onFailure start, start⟩ : Cursor).atEnd &&
      (⟨s, (opening o.alphabet rest).stop o.onFailure start, start⟩ : Cursor).span.isEmpty) =
        true ↔ rest = [] := by
  have hsize : s.size = start + utf8Len rest := by
    have hpos : start = utf8Len before := h.pos
    rw [hpos]
    exact h.size_eq
  rw [Bool.and_eq_true, Cursor.atEnd_iff, Span.isEmpty_iff]
  simp only [Cursor.span, hsize]
  constructor
  · rintro ⟨hend, hempty⟩
    -- no byte is left behind the start of the token
    rw [← hempty] at hend
    exact String.utf8Len_eq_zero.mp (by omega)
  · rintro rfl
    have hother : opening o.alphabet [] = .other := (Opens.other (by simp)).eq_opening
    have hstop : (opening o.alphabet []).stop o.onFailure start = start := by
      rw [hother, Opening.stop, Opening.consumed_other, String.utf8Len_nil, Nat.add_zero]
    rw [hstop]
    exact ⟨Nat.le_refl _, rfl⟩

/-- **Reading a text without flaws comes to the verdict on its longest front.** -/
theorem parse_of_isFront {text : String} {o : Options} {l : Layout o.alphabet}
    {rest : List Char} (hfits : text.utf8ByteSize ≤ maxOffset)
    (hflaws : (⟨text⟩ : Source).flaws = []) (hl : l.IsFront text.toList rest)
    (hfinished : Finished o.alphabet rest) : parse text o = .ok (l.verdict text rest) := by
  have hread := readSegments_of_isFront hfits hl hfinished
  have hend := atEnd_and_isEmpty_iff (o := o) (s := ⟨text⟩) ⟨hfits, hl.eq_append, rfl⟩
  rw [parse, hflaws]
  simp only [hread, Checked.ok_bind]
  cases rest with
  | cons x rest =>
    rw [if_neg (by rw [hend]; exact List.cons_ne_nil x rest)]
    rfl
  | nil =>
    rw [if_pos (hend.mpr rfl)]
    obtain ⟨pieces, blanks, hblanks⟩ := l
    cases pieces with
    | nil => rfl
    | cons p ps => rfl

/-- What can come of reading a text: its first flaw, or the verdict on its longest front. -/
theorem parse_cases {text : String} {o : Options} {p : Parse}
    (hfits : text.utf8ByteSize ≤ maxOffset) (hp : parse text o = .ok p) :
    (∃ flaw, (⟨text⟩ : Source).flaws.head? = some flaw ∧ p = ⟨.error (.ofFlaw flaw), []⟩) ∨
      ((⟨text⟩ : Source).flaws = [] ∧ ∃ (l : Layout o.alphabet) (rest : List Char),
        l.IsFront text.toList rest ∧ Finished o.alphabet rest ∧ p = l.verdict text rest) := by
  cases hflaws : (⟨text⟩ : Source).flaws with
  | cons flaw flaws =>
    rw [parse, hflaws] at hp
    exact .inl ⟨flaw, rfl, (Except.ok.inj hp).symm⟩
  | nil =>
    obtain ⟨l, rest, hl, hfinished⟩ := exists_isFront o.alphabet text.toList
    rw [parse_of_isFront hfits hflaws hl hfinished] at hp
    exact .inr ⟨rfl, l, rest, hl, hfinished, (Except.ok.inj hp).symm⟩

/-- How failures are treated is no part of the outcome. -/
theorem parse_congr {text : String} {o o' : Options} (hfits : text.utf8ByteSize ≤ maxOffset)
    (h : o.alphabet = o'.alphabet) : parse text o = parse text o' := by
  obtain ⟨policy, a⟩ := o
  obtain ⟨policy', a'⟩ := o'
  cases h
  cases hflaws : (⟨text⟩ : Source).flaws with
  | cons flaw flaws => simp only [parse, hflaws]
  | nil =>
    obtain ⟨l, rest, hl, hfinished⟩ := exists_isFront a text.toList
    rw [parse_of_isFront (o := ⟨policy, a⟩) hfits hflaws hl hfinished,
      parse_of_isFront (o := ⟨policy', a⟩) hfits hflaws hl hfinished]

theorem parse_policy {text : String} (hfits : text.utf8ByteSize ≤ maxOffset) (o : Options)
    (policy : FailurePolicy) : parse text { o with onFailure := policy } = parse text o :=
  parse_congr hfits rfl

/-! ### The parts of a selector -/

/-- Each segment is the text at its span. -/
theorem Piece.between?_segments {a : Alphabet} {s : Source} {ps : List (Piece a)}
    {before after : List Char} (h : s.text.toList = before ++ Piece.join ps ++ after) :
    ∀ g ∈ Piece.segments (utf8Len before) ps,
      s.between? g.token.span.start g.token.span.stop = some g.text := by
  induction ps generalizing before with
  | nil => simp
  | cons p ps ih =>
    rw [Piece.join_cons] at h
    intro g hg
    rw [Piece.segments_cons, List.mem_cons] at hg
    rcases hg with rfl | hg
    · have hchars : s.text.toList =
          before ++ p.blanks ++ (p.name ++ [':']) ++ (Piece.join ps ++ after) := by
        rw [h, Piece.chars]
        simp only [List.append_assoc]
      have htext : s.text = String.ofList (before ++ p.blanks) ++ p.text ++
          String.ofList (Piece.join ps ++ after) := by
        rw [text_eq_append_of_toList hchars, String.ofList_append, Piece.text]
      have hpart := Source.between?_of_eq_append htext
      rw [String.utf8ByteSize_ofList, Piece.text, String.utf8ByteSize_ofList,
        String.utf8Len_append, Nat.add_assoc, ← String.utf8Len_append p.blanks] at hpart
      exact hpart
    · rw [← String.utf8Len_append] at hg
      exact ih (by rw [h]; simp only [List.append_assoc]) g hg

namespace Layout

variable {a : Alphabet} {text : String} {l : Layout a} {rest : List Char}

/-- The pieces may stand in front of anything, even of an equals sign. -/
theorem part?_selector_of_append (h : text.toList = l.chars ++ rest) :
    (l.selector text).segments.map (l.selector text).part? =
      l.pieces.map fun p => some p.text := by
  have hchars : text.toList = [] ++ Piece.join l.pieces ++ (l.blanks ++ rest) := by
    rw [h, chars, List.nil_append, List.append_assoc]
  have hpart : ∀ g ∈ Piece.segments 0 l.pieces,
      (l.selector text).part? g.token = some g.text :=
    Piece.between?_segments (s := ⟨text⟩) hchars
  rw [selector, List.map_map]
  calc (Piece.segments 0 l.pieces).map ((l.selector text).part? ∘ Segment.token)
      = (Piece.segments 0 l.pieces).map (some ∘ Segment.text) := List.map_congr_left hpart
    _ = (l.pieces.map Piece.text).map some := by rw [← List.map_map, Piece.map_text_segments]
    _ = l.pieces.map fun p => some p.text := List.map_map

/-- The parts of a selector are the keywords of its layout. -/
theorem parts_selector_of_append (h : text.toList = l.chars ++ rest) :
    (l.selector text).parts = l.pieces.map Piece.text := by
  have hparts := congrArg (List.map fun part => part.getD "") (part?_selector_of_append h)
  rw [List.map_map, List.map_map] at hparts
  exact hparts

theorem part?_selector (hl : l.IsFront text.toList rest) :
    (l.selector text).segments.map (l.selector text).part? =
      l.pieces.map fun p => some p.text :=
  part?_selector_of_append hl.eq_append

theorem parts_selector (hl : l.IsFront text.toList rest) :
    (l.selector text).parts = l.pieces.map Piece.text :=
  parts_selector_of_append hl.eq_append

end Layout

end Selector

end SelectorLexer
