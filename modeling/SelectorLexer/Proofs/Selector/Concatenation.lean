import SelectorLexer.Proofs.Selector.Rejection
import SelectorLexer.Proofs.Selector.Shift

/-!
# Selectors written one after another

A selector can be put in front of any text, and reading the two together comes to what
reading the second text alone does, with every place in it as far on as the first text is
long.  A second selector makes the first one longer, and blanks leave it as it is.  What is
wrong with the second text stays wrong.

There is one exception, where the first text ends in a colon and the second starts with an
equals sign.  Then an assignment sign stands across the two, and the last name of the first
text is no keyword any more.

## Main definitions

* `Selector.Layout.append` — the layout of two texts that are written together.
* `Selector.AssignmentAcross` — an assignment sign stands across two texts.

## Main results

* `Selector.Layout.IsFront.append` — the front of a text stays one behind a layout.
* `Selector.Layout.segments_selector_append`, `Selector.Layout.parts_selector_append` — the
  selector that two layouts make up.
* `Selector.parse_append` — reading two texts together.
-/

namespace SelectorLexer

open String (utf8Len)

namespace Selector

section Layouts

variable {a : Alphabet}

/-! ### Pieces behind a layout -/

namespace Piece

/-- The piece with the blanks of a layout in front of its own. -/
def indent (l : Layout a) (p : Piece a) : Piece a where
  blanks := l.blanks ++ p.blanks
  name := p.name
  isBlank_of_mem x hx := (List.mem_append.mp hx).elim (l.isBlank_of_mem x) (p.isBlank_of_mem x)
  isName := p.isName

theorem chars_indent (l : Layout a) (p : Piece a) :
    (p.indent l).chars = l.blanks ++ p.chars := List.append_assoc _ _ _

theorem segments_indent (l : Layout a) (start : Nat) (p : Piece a) (ps : List (Piece a)) :
    segments start (p.indent l :: ps) = segments (start + utf8Len l.blanks) (p :: ps) := by
  rw [segments_cons, segments_cons, chars_indent, String.utf8Len_append, indent,
    String.utf8Len_append, Nat.add_assoc, Nat.add_assoc]
  rfl

end Piece

/-! ### Two layouts together -/

namespace Layout

/-- The layout of two texts that are written together: blanks between them belong to the
first piece of the second one, if it has any. -/
def append (l : Layout a) : Layout a → Layout a
  | ⟨[], blanks, hblanks⟩ =>
    ⟨l.pieces, l.blanks ++ blanks,
      fun x hx => (List.mem_append.mp hx).elim (l.isBlank_of_mem x) (hblanks x)⟩
  | ⟨p :: ps, blanks, hblanks⟩ => ⟨l.pieces ++ p.indent l :: ps, blanks, hblanks⟩

variable (l m : Layout a)

theorem chars_append : (l.append m).chars = l.chars ++ m.chars := by
  obtain ⟨pieces, blanks, hblanks⟩ := m
  cases pieces with
  | nil =>
    simp only [append, chars, Piece.join_nil, List.nil_append, List.append_assoc]
  | cons p ps =>
    simp only [append, chars, Piece.join_append, Piece.join_cons, Piece.chars_indent,
      List.append_assoc]

theorem segments_append : Piece.segments 0 (l.append m).pieces =
    Piece.segments 0 l.pieces ++
      (Piece.segments 0 m.pieces).map (Segment.shift (utf8Len l.chars)) := by
  obtain ⟨pieces, blanks, hblanks⟩ := m
  cases pieces with
  | nil => simp only [append, Piece.segments_nil, List.map_nil, List.append_nil]
  | cons p ps =>
    simp only [append]
    rw [Piece.segments_append, Piece.segments_indent, ← Piece.segments_add, Nat.zero_add,
      Nat.add_zero, chars, String.utf8Len_append]

theorem map_text_append : (l.append m).pieces.map Piece.text =
    l.pieces.map Piece.text ++ m.pieces.map Piece.text := by
  rw [← Piece.map_text_segments 0, segments_append, List.map_append, Piece.map_text_segments,
    List.map_map]
  exact congrArg _ (Piece.map_text_segments 0 m.pieces)

variable {l m}

theorem pieces_append_ne_nil (h : l.pieces ≠ []) : (l.append m).pieces ≠ [] := by
  obtain ⟨pieces, blanks, hblanks⟩ := m
  cases pieces with
  | nil => exact h
  | cons p ps => exact List.append_ne_nil_of_left_ne_nil h _

/-- The last piece ends in a colon, and only blanks can come behind it. -/
theorem getLast?_chars_eq_colon_iff (h : l.pieces ≠ []) :
    l.chars.getLast? = some ':' ↔ l.blanks = [] := by
  constructor
  · intro hlast
    by_contra hblanks
    rw [chars, List.getLast?_append_of_ne_nil _ hblanks] at hlast
    exact l.not_mem_blanks (by decide) (List.mem_of_getLast? hlast)
  · intro hblanks
    obtain ⟨ps, p, hpieces⟩ := (List.eq_nil_or_concat' l.pieces).resolve_left h
    simp [chars, hpieces, hblanks, Piece.chars]

/-! ### Fronts of two texts together -/

/-- No byte order mark comes first where a selector does. -/
theorem head?_append_ne_byteOrderMark (h : l.pieces ≠ []) (cs : List Char) :
    (l.chars ++ cs).head? ≠ some '\uFEFF' := by
  have hne : l.chars ≠ [] := by
    obtain ⟨p, ps, hpieces⟩ := List.exists_cons_of_ne_nil h
    simp [chars, hpieces, Piece.chars]
  rw [List.head?_append_of_ne_nil _ hne]
  exact l.head?_chars_ne_byteOrderMark

theorem flawless_append (h : l.pieces ≠ []) {cs : List Char} (hcs : '\x00' ∉ cs) :
    Flawless (l.chars ++ cs) := by
  refine ⟨head?_append_ne_byteOrderMark h cs, ?_⟩
  rw [List.mem_append, not_or]
  exact ⟨l.not_mem_chars_null, hcs⟩

/-- What can be read no further than a longest front starts no keyword. -/
theorem IsLongest.finished {cs rest : List Char} (h : l.IsLongest cs rest) : Finished a rest := by
  obtain ⟨l', rest', hl', hfinished⟩ := exists_isFront a cs
  obtain ⟨-, rfl⟩ := h.eq (hl'.isLongest hfinished)
  exact hfinished

end Layout

/-- The colon at the end of one text and the equals sign at the start of the next are one
assignment sign. -/
def AssignmentAcross (cs cs' : List Char) : Prop :=
  cs.getLast? = some ':' ∧ cs'.head? = some '='

namespace Layout

variable {l m : Layout a} {cs rest : List Char}

/-- **The front of a text stays one behind a layout**, unless an assignment sign stands
across the two. -/
theorem IsFront.append (hm : m.IsFront cs rest) (hacross : ¬AssignmentAcross l.chars cs) :
    (l.append m).IsFront (l.chars ++ cs) rest := by
  refine ⟨by rw [chars_append, hm.eq_append, List.append_assoc], ?_⟩
  obtain ⟨pieces, blanks, hblanks⟩ := m
  obtain ⟨rfl, hun⟩ := hm
  rw [Piece.unassigned_iff] at hun ⊢
  cases pieces with
  | cons p ps => exact .inr (hun.resolve_left (List.cons_ne_nil p ps))
  | nil =>
    -- the blanks of both texts come behind the last piece of the first
    rw [or_iff_not_imp_left]
    intro (hpieces : l.pieces ≠ []) (hequals : (l.blanks ++ blanks ++ rest).head? = some '=')
    rw [List.append_assoc] at hequals
    have hl : l.blanks = [] := by
      by_contra hne
      rw [List.head?_append_of_ne_nil _ hne] at hequals
      exact l.not_mem_blanks (by decide) (List.mem_of_head? hequals)
    rw [hl, List.nil_append] at hequals
    exact hacross ⟨(getLast?_chars_eq_colon_iff hpieces).mpr hl, hequals⟩

/-- **An equals sign behind the last colon takes the last piece away.**  What is left of
the front are the pieces before it, and its own blanks. -/
theorem isFront_of_equals (ps : List (Piece a)) (p : Piece a) (more : List Char) :
    Layout.IsFront ⟨ps, p.blanks, p.isBlank_of_mem⟩ (Piece.join (ps ++ [p]) ++ '=' :: more)
      (p.name ++ ':' :: '=' :: more) := by
  refine ⟨?_, Piece.unassigned_iff.mpr (.inr ?_)⟩
  · simp [chars, Piece.chars]
  · have hhead := p.head?_chars_append_ne ('=' :: more) (x := '=') (by decide)
    rwa [Piece.chars, List.append_assoc, List.append_assoc] at hhead

theorem finished_of_equals (p : Piece a) (more : List Char) :
    Finished a (p.name ++ ':' :: '=' :: more) := by
  refine ⟨p.isBlank_head?_name _, ?_⟩
  rw [(Opens.assignment p.isName).eq_opening]
  rfl

end Layout

end Layouts

/-! ### Selectors of two texts together -/

section Selectors

variable {a : Alphabet} {l m : Layout a} {front back : String}

namespace Layout

/-- A layout can follow a text that is spelled. -/
theorem Spells.append (hl : l.Spells front) (hm : m.chars = back.toList) :
    (l.append m).Spells (front ++ back) :=
  ⟨pieces_append_ne_nil hl.1, by rw [chars_append, hl.2, hm, String.toList_append]⟩

theorem segments_selector_append (hl : l.chars = front.toList) :
    ((l.append m).selector (front ++ back)).segments =
      (l.selector front).segments ++
        (m.selector back).segments.map (Token.shift front.utf8ByteSize) := by
  simp only [selector]
  rw [segments_append, List.map_append, map_token_shift, hl, utf8ByteSize_eq_utf8Len]

theorem parts_selector_append (hl : l.Spells front) (hm : m.chars = back.toList) :
    ((l.append m).selector (front ++ back)).parts =
      (l.selector front).parts ++ (m.selector back).parts := by
  rw [parts_selector (hl.append hm).isFront, parts_selector hl.isFront,
    parts_selector (isFront_of_chars_eq hm), map_text_append]

end Layout

end Selectors

/-! ### Reading two texts together -/

section Reading

variable {a : Alphabet} {front back : String} {o : Options} {p r : Parse}

/-- A selector that is read is the one of a layout. -/
theorem exists_eq_selector_of_parse {text : String} (hfits : text.utf8ByteSize ≤ maxOffset)
    (hp : parse text o = .ok p) {s : Selector} (hs : p.outcome = .ok s) :
    ∃ l : Layout o.alphabet, l.Spells text ∧ s = l.selector text := by
  obtain ⟨l, hl⟩ := exists_spells_of_parse hfits hp hs
  rw [parse_of_spells hfits hl] at hp
  obtain rfl := Except.ok.inj hp
  exact ⟨l, hl, (Except.ok.inj hs).symm⟩

/-- A layout behind a selector makes it longer. -/
theorem outcome_append_of_layout {l m : Layout o.alphabet}
    (hfits : (front ++ back).utf8ByteSize ≤ maxOffset) (hr : parse (front ++ back) o = .ok r)
    (hl : l.Spells front) (hm : m.chars = back.toList) :
    ∃ u, r.outcome = .ok u ∧
      u.segments = (l.selector front).segments ++
        (m.selector back).segments.map (Token.shift front.utf8ByteSize) ∧
      u.name = (l.selector front).name ++ (m.selector back).name := by
  rw [parse_of_spells hfits (hl.append hm)] at hr
  obtain rfl := Except.ok.inj hr
  refine ⟨_, rfl, Layout.segments_selector_append hl.2, ?_⟩
  rw [name, name, name, Layout.parts_selector_append hl hm, String.join_append]

/-- A null character stays one behind a selector. -/
theorem describes_append_of_nullByte {l : Layout a} {pos : Nat} (hl : l.Spells front)
    (h : (Rejection.nullByte pos).Describes a back.toList) :
    (Rejection.nullByte (front.utf8ByteSize + pos)).Describes a (front ++ back).toList := by
  obtain ⟨-, before, after, hchars, hbefore, rfl⟩ := h
  rw [String.toList_append, utf8ByteSize_eq_utf8Len, ← hl.2]
  refine ⟨Layout.head?_append_ne_byteOrderMark hl.1 _, l.chars ++ before, after, ?_, ?_, ?_⟩
  · rw [hchars, List.append_assoc]
  · rw [List.mem_append, not_or]
    exact ⟨l.not_mem_chars_null, hbefore⟩
  · rw [String.utf8Len_append]

/-- What is no keyword stays none behind a selector. -/
theorem describes_append_of_notKeyword {l : Layout a} {pos : Nat} (hl : l.Spells front)
    (hacross : ¬AssignmentAcross front.toList back.toList)
    (h : (Rejection.notKeyword pos).Describes a back.toList) :
    (Rejection.notKeyword (front.utf8ByteSize + pos)).Describes a (front ++ back).toList := by
  obtain ⟨hflawless, m, rest, hm, hrest, rfl⟩ := h
  rw [← hl.2] at hacross
  have hlongest := (hm.isFront.append hacross).isLongest hm.finished
  rw [String.toList_append, utf8ByteSize_eq_utf8Len, ← hl.2]
  refine ⟨Layout.flawless_append hl.1 hflawless.2, l.append m, rest, hlongest, hrest, ?_⟩
  rw [Layout.chars_append, String.utf8Len_append]

/-- Where an assignment sign stands across, the last keyword is none. -/
theorem exists_describes_of_assignmentAcross {l : Layout a} (hl : l.Spells front)
    (hacross : AssignmentAcross front.toList back.toList) (hnull : '\x00' ∉ back.toList) :
    ∃ last, (l.selector front).segments.getLast? = some last ∧
      (Rejection.notKeyword last.span.start).Describes a (front ++ back).toList := by
  obtain ⟨hcolon, hequals⟩ := hacross
  obtain ⟨more, hmore⟩ := List.head?_eq_some_iff.mp hequals
  rw [← hl.2, Layout.getLast?_chars_eq_colon_iff hl.1] at hcolon
  obtain ⟨ps, p, hpieces⟩ := (List.eq_nil_or_concat' l.pieces).resolve_left hl.1
  have hchars : (front ++ back).toList = Piece.join (ps ++ [p]) ++ '=' :: more := by
    rw [String.toList_append, ← hl.2, hmore, Layout.chars, hpieces, hcolon, List.append_nil]
  have hlongest := (Layout.isFront_of_equals ps p more).isLongest
    (Layout.finished_of_equals p more)
  refine ⟨⟨.keyword, utf8Len (Piece.join ps) + utf8Len p.blanks,
    utf8Len (Piece.join ps) + utf8Len p.chars⟩, ?_, ?_, ?_⟩
  · rw [Layout.selector, hpieces, Piece.segments_append, Piece.segments_cons,
      Piece.segments_nil, Nat.zero_add, List.map_append, List.map_singleton,
      List.getLast?_concat]
  · rw [String.toList_append, ← hl.2]
    exact Layout.flawless_append hl.1 hnull
  · rw [hchars]
    refine ⟨_, _, hlongest, ?_, ?_⟩
    · simp
    · rw [Layout.chars, String.utf8Len_append]

/-- **Reading two texts together.**  Behind a selector a text comes to what it comes to on
its own, as far on as the selector is long: the segments of a second selector are added to
those of the first, blanks change nothing, and what is wrong stays wrong.  Only an
assignment sign across the two makes a difference, and then the last keyword of the first
text is where both together stop being a selector. -/
theorem parse_append (hfits : front.utf8ByteSize + back.utf8ByteSize ≤ maxOffset)
    (hp : parse front o = .ok p) {s : Selector} (hs : p.outcome = .ok s) :
    ∃ q r, parse back o = .ok q ∧ parse (front ++ back) o = .ok r ∧
      (∀ t, q.outcome = .ok t → ∃ u, r.outcome = .ok u ∧
        u.segments = s.segments ++ t.segments.map (Token.shift front.utf8ByteSize) ∧
        u.arity = s.arity + t.arity ∧ u.name = s.name ++ t.name) ∧
      (q.outcome = .error .noSegment → ∃ u, r.outcome = .ok u ∧
        u.segments = s.segments ∧ u.arity = s.arity ∧ u.name = s.name) ∧
      (∀ pos, q.outcome = .error (.nullByte pos) →
        r.outcome = .error (.nullByte (front.utf8ByteSize + pos))) ∧
      (∀ pos, q.outcome = .error (.notKeyword pos) →
        ¬AssignmentAcross front.toList back.toList →
        r.outcome = .error (.notKeyword (front.utf8ByteSize + pos))) ∧
      (AssignmentAcross front.toList back.toList → '\x00' ∉ back.toList →
        ∃ last, s.segments.getLast? = some last ∧
          r.outcome = .error (.notKeyword last.span.start)) := by
  have hfront : front.utf8ByteSize ≤ maxOffset := by omega
  have hback : back.utf8ByteSize ≤ maxOffset := by omega
  have hboth : (front ++ back).utf8ByteSize ≤ maxOffset := by
    rwa [String.utf8ByteSize_append]
  obtain ⟨l, hl, rfl⟩ := exists_eq_selector_of_parse hfront hp hs
  obtain ⟨q, hq⟩ := exists_parse hback o
  obtain ⟨r, hr⟩ := exists_parse hboth o
  have hwrong := outcome_eq_error_iff hback hq
  have hwrong' := outcome_eq_error_iff hboth hr
  refine ⟨q, r, hq, hr, ?selector, ?blank, ?null, ?wrong, ?across⟩
  case selector =>
    intro t ht
    obtain ⟨m, hm, rfl⟩ := exists_eq_selector_of_parse hback hq ht
    obtain ⟨u, hu, hsegments, hname⟩ := outcome_append_of_layout hboth hr hl hm.2
    refine ⟨u, hu, hsegments, ?_, hname⟩
    rw [arity, hsegments, List.length_append, List.length_map, arity, arity]
  case blank =>
    intro h
    obtain ⟨-, hblanks⟩ := (hwrong _).mp h
    let m : Layout o.alphabet := ⟨[], back.toList, hblanks⟩
    obtain ⟨u, hu, hsegments, hname⟩ := outcome_append_of_layout (m := m) hboth hr hl rfl
    have hsame : u.segments = (l.selector front).segments :=
      hsegments.trans (List.append_nil _)
    refine ⟨u, hu, hsame, ?_, hname.trans String.append_empty⟩
    rw [arity, hsame, arity]
  case null =>
    intro pos h
    exact (hwrong' _).mpr (describes_append_of_nullByte hl ((hwrong _).mp h))
  case wrong =>
    intro pos h hacross
    exact (hwrong' _).mpr (describes_append_of_notKeyword hl hacross ((hwrong _).mp h))
  case across =>
    intro hacross hnull
    obtain ⟨last, hlast, hdescribes⟩ := exists_describes_of_assignmentAcross hl hacross hnull
    exact ⟨last, hlast, (hwrong' _).mpr hdescribes⟩

/-- The blank between the two belongs to no keyword, and the equals sign takes the last
keyword away. -/
theorem parse_append_at_put :
    "é: at:".utf8ByteSize + "\u00a0put:".utf8ByteSize ≤ maxOffset ∧
      "é: at:".utf8ByteSize + "=1".utf8ByteSize ≤ maxOffset ∧
      ∃ p s, parse "é: at:" {} = .ok p ∧ p.outcome = .ok s ∧
        (∃ r u, parse ("é: at:" ++ "\u00a0put:") {} = .ok r ∧ r.outcome = .ok u ∧
          u.segments = [⟨.keyword, 0, 3⟩, ⟨.keyword, 4, 7⟩, ⟨.keyword, 9, 13⟩] ∧
          u.arity = 3 ∧ u.name = "é:at:put:") ∧
        ∃ r, parse ("é: at:" ++ "=1") {} = .ok r ∧ r.outcome = .error (.notKeyword 4) := by
  have hput : "é: at:".utf8ByteSize + "\u00a0put:".utf8ByteSize ≤ maxOffset := by decide
  have hequals : "é: at:".utf8ByteSize + "=1".utf8ByteSize ≤ maxOffset := by decide
  let l : Layout .unicode :=
    ⟨[⟨[], ['é'], List.all_eq_true.mp (by decide), by decide +kernel⟩,
      ⟨[' '], ['a', 't'], List.all_eq_true.mp (by decide), by decide +kernel⟩],
      [], List.all_eq_true.mp (by decide)⟩
  let m : Layout .unicode :=
    ⟨[⟨['\u00a0'], ['p', 'u', 't'], List.all_eq_true.mp (by decide), by decide +kernel⟩],
      [], List.all_eq_true.mp (by decide)⟩
  have hl : l.Spells "é: at:" := ⟨by simp [l], by decide +kernel⟩
  have hm : m.Spells "\u00a0put:" := ⟨by simp [m], by decide +kernel⟩
  have hp := parse_of_spells (o := {}) (by decide) hl
  have hq := parse_of_spells (o := {}) (by decide) hm
  refine ⟨hput, hequals, _, _, hp, rfl, ?_, ?_⟩
  · obtain ⟨q, r, hq', hr, hselector, -⟩ := parse_append hput hp rfl
    rw [hq] at hq'
    obtain rfl := Except.ok.inj hq'
    obtain ⟨u, hu, hsegments, harity, hname⟩ := hselector _ rfl
    refine ⟨r, u, hr, hu, hsegments.trans (by decide +kernel), harity, hname.trans ?_⟩
    rw [name, name, Layout.parts_selector hl.isFront, Layout.parts_selector hm.isFront]
    decide +kernel
  · obtain ⟨q, r, -, hr, -, -, -, -, hacross⟩ := parse_append hequals hp rfl
    obtain ⟨last, hlast, hr'⟩ := hacross ⟨by decide +kernel, by decide +kernel⟩ (by decide +kernel)
    obtain rfl : ⟨.keyword, 4, 7⟩ = last := Option.some.inj hlast
    exact ⟨r, hr, hr'⟩

end Reading

end Selector

end SelectorLexer
