import SelectorLexer.Proofs.Selector.Rejection

/-!
# What the log of a reading tells

While a text is read, an event tells of each segment as the cursor has it: its text is what
the cursor has read since the token started.  A selector holds no texts.  It keeps the
source and the places of its segments, and cuts its parts out of the source when it is
asked for them.  The two agree.  So the log of a text that is a selector can be written
down from the selector alone, and the log of another text from the selector that stands in
front of the place where the text stops being one.

## Main definitions

* `Selector.segmentEvents` — the events of the segments, as the selector has them.
* `Event.segmentText?`, `Event.kindText?` — what the event of a segment tells.
* `Event.TellsSegment`, `Event.TellsSelector` — how the two events appear in a log.

## Main results

* `Selector.Layout.segmentEvents_selector` — the events are those of the reading.
* `Selector.parse_logs_outcome` — the log of every text, by what came of reading it.
-/

namespace SelectorLexer

open String (utf8Len)

namespace Event

/-- The text in the event of a segment. -/
def segmentText? : Event → Option String
  | .segmentRead _ text _ => some text
  | _ => none

/-- The kind in the event of a segment, as a log spells it. -/
def kindText? : Event → Option String
  | .segmentRead kind _ _ => some (toString kind)
  | _ => none

/-- The event of a segment, as it appears in a log. -/
structure TellsSegment (e : Event) : Prop where
  level : e.level = .trace
  levelName : e.level.name = "TRACE"
  message : e.message = "keyword segment"
  kind : e.kindText? = some "keyword"

/-- The event of a selector, as it appears in a log. -/
structure TellsSelector (e : Event) : Prop where
  level : e.level = .debug
  levelName : e.level.name = "DEBUG"
  message : e.message = "parsed keyword selector"

end Event

namespace Selector

/-! ### The events of a selector -/

/-- One event for each segment of a selector, with the part of the text at its span. -/
def segmentEvents (s : Selector) : List Event :=
  (s.segments.zip s.parts).map fun (t, part) => .segmentRead .keyword part t.span

theorem length_segmentEvents (s : Selector) : s.segmentEvents.length = s.arity := by
  rw [segmentEvents, List.length_map, List.length_zip, length_parts, arity, Nat.min_self]

theorem tellsSegment_of_mem {s : Selector} {e : Event} (he : e ∈ s.segmentEvents) :
    e.TellsSegment := by
  obtain ⟨_, -, rfl⟩ := List.mem_map.mp he
  exact ⟨rfl, rfl, rfl, rfl⟩

theorem tellsSelector_event (s : Selector) : s.event.TellsSelector := ⟨rfl, rfl, rfl⟩

/-- The texts in the events are the parts of the selector. -/
theorem filterMap_segmentText?_segmentEvents (s : Selector) :
    s.segmentEvents.filterMap Event.segmentText? = s.parts := by
  have hlength : s.parts.length ≤ s.segments.length := Nat.le_of_eq s.length_parts
  calc s.segmentEvents.filterMap Event.segmentText?
      = (s.segments.zip s.parts).filterMap (some ∘ Prod.snd) := List.filterMap_map
    _ = (s.segments.zip s.parts).map Prod.snd := congrFun List.filterMap_eq_map _
    _ = s.parts := List.map_snd_zip hlength

/-! ### The events of a reading -/

section Reading

variable {text : String} {o : Options} {rest : List Char}

/-- **What the reading told of the segments is what the selector has of them.** -/
theorem Layout.segmentEvents_selector {a : Alphabet} {l : Layout a}
    (h : text.toList = l.chars ++ rest) : (l.selector text).segmentEvents = l.events := by
  rw [segmentEvents, parts_selector_of_append h, ← Piece.map_text_segments 0, selector,
    List.zip_map', List.map_map, events]
  apply List.map_congr_left
  intro g _
  -- there is only one kind of token
  cases hkind : g.token.kind
  rw [Function.comp_apply, Segment.event, hkind]

/-- The log of a text that is a selector. -/
theorem events_of_outcome_eq_ok (hfits : text.utf8ByteSize ≤ maxOffset) {p : Parse}
    (hp : parse text o = .ok p) {s : Selector} (hs : p.outcome = .ok s) :
    p.events = s.segmentEvents ++ [.selectorRead s.name s.arity] ∧
      s.segments.map s.part? = s.parts.map some := by
  obtain ⟨l, hl⟩ := exists_spells_of_parse hfits hp hs
  rw [parse_of_spells hfits hl] at hp
  obtain rfl := Except.ok.inj hp
  obtain rfl := Except.ok.inj hs
  have hchars : text.toList = l.chars ++ [] := hl.isFront.eq_append
  rw [Layout.segmentEvents_selector hchars, l.part?_selector hl.isFront,
    l.parts_selector hl.isFront, List.map_map]
  exact ⟨rfl, rfl⟩

/-- A text that is no selector leaves no trace, or that of the front in front of the place
that is reported. -/
theorem events_of_outcome_eq_error (hfits : text.utf8ByteSize ≤ maxOffset) {p : Parse}
    (hp : parse text o = .ok p) {r : Rejection} (hr : p.outcome = .error r) :
    p.events = [] ∧ (∀ pos, r ≠ .notKeyword pos) ∨
      ∃ (l : Layout o.alphabet) (rest : List Char), l.IsFront text.toList rest ∧
        r = .notKeyword (utf8Len l.chars) ∧ p.events = l.events := by
  rcases parse_cases hfits hp with ⟨flaw, -, rfl⟩ | ⟨-, l, rest, hl, -, rfl⟩
  · obtain rfl := Except.error.inj hr
    refine .inl ⟨rfl, ?_⟩
    cases flaw <;> simp [Rejection.ofFlaw]
  · rcases Layout.outcome_verdict_eq_error_iff.mp hr with ⟨hrest, rfl⟩ | ⟨rfl, hpieces, rfl⟩
    · cases rest with
      | nil => exact absurd rfl hrest
      | cons x rest => exact .inr ⟨l, _, hl, rfl, rfl⟩
    · refine .inl ⟨?_, by simp⟩
      simp [Layout.verdict, hpieces, Layout.events]

/-- The log of a front is that of the selector that it is, if there is a piece in it. -/
theorem events_of_isFront (hfits : text.utf8ByteSize ≤ maxOffset) {l : Layout o.alphabet}
    (hl : l.IsFront text.toList rest) :
    ∃ front q, (⟨text⟩ : Source).between? 0 (utf8Len l.chars) = some front ∧
      parse front o = .ok q ∧
      ((q.outcome = .error .noSegment ∧ l.events = []) ∨
        ∃ s, q.outcome = .ok s ∧ l.events = s.segmentEvents) := by
  obtain ⟨front, hpart, hchars, hparse⟩ := exists_front_of_isFront hfits hl
  refine ⟨front, _, hpart, hparse, ?_⟩
  have hevents : (l.selector front).segmentEvents = l.events :=
    Layout.segmentEvents_selector (hchars.trans (List.append_nil _).symm)
  obtain ⟨pieces, blanks, hblanks⟩ := l
  cases pieces with
  | nil => exact .inl ⟨rfl, rfl⟩
  | cons p ps => exact .inr ⟨_, rfl, hevents.symm⟩

/-- **The log of a reading fits what came of it.**  If the text is a selector, the log has one
event for each of its segments, in order, each with the part of the selector and its span, and
then the event of the selector; the texts in the log make up its name.  The kind of a segment is
spelled `keyword`.  If the text stops being a selector somewhere, the log has the events of the
segments in front of that place, and no event of a selector.  All other texts leave no trace.
How failures are treated makes no difference. -/
theorem parse_logs_outcome (hfits : text.utf8ByteSize ≤ maxOffset) (o : Options) :
    ∃ p, parse text o = .ok p ∧
      (∀ s, p.outcome = .ok s →
        p.events = s.segmentEvents ++ [.selectorRead s.name s.arity] ∧
        s.segmentEvents.length = s.arity ∧
        (∀ e ∈ s.segmentEvents, e.TellsSegment) ∧
        (Event.selectorRead s.name s.arity).TellsSelector ∧
        s.segments.map s.part? = s.parts.map some ∧
        String.join (p.events.filterMap Event.segmentText?) = s.name) ∧
      (∀ pos, p.outcome = .error (.notKeyword pos) →
        (∀ e ∈ p.events, e.TellsSegment) ∧
        ∃ front q, (⟨text⟩ : Source).between? 0 pos = some front ∧ parse front o = .ok q ∧
          ((q.outcome = .error .noSegment ∧ p.events = []) ∨
            ∃ s, q.outcome = .ok s ∧ p.events = s.segmentEvents)) ∧
      (∀ r, p.outcome = .error r → (∀ pos, r ≠ .notKeyword pos) → p.events = []) ∧
      ∀ policy, parse text { o with onFailure := policy } = .ok p := by
  obtain ⟨p, hp⟩ := exists_parse hfits o
  refine ⟨p, hp, ?selector, ?stops, ?other, ?policy⟩
  case selector =>
    intro s hs
    obtain ⟨hevents, hparts⟩ := events_of_outcome_eq_ok hfits hp hs
    refine ⟨hevents, s.length_segmentEvents, fun e he => tellsSegment_of_mem he,
      s.tellsSelector_event, hparts, ?_⟩
    rw [hevents, List.filterMap_append, filterMap_segmentText?_segmentEvents]
    exact congrArg String.join (List.append_nil _)
  case stops =>
    intro pos hpos
    rcases events_of_outcome_eq_error hfits hp hpos with
      ⟨-, hother⟩ | ⟨l, rest, hl, hplace, hevents⟩
    · exact absurd rfl (hother pos)
    · obtain rfl := Rejection.notKeyword.inj hplace
      obtain ⟨front, q, hpart, hq, hfront⟩ := events_of_isFront hfits hl
      rw [hevents]
      refine ⟨?_, front, q, hpart, hq, hfront⟩
      intro e he
      rcases hfront with ⟨-, hnil⟩ | ⟨s, -, hs⟩
      · rw [hnil] at he
        cases he
      · rw [hs] at he
        exact tellsSegment_of_mem he
  case other =>
    intro r hr hother
    rcases events_of_outcome_eq_error hfits hp hr with ⟨hevents, -⟩ | ⟨l, rest, -, hplace, -⟩
    · exact hevents
    · exact absurd hplace (hother _)
  case policy =>
    intro policy
    rw [parse_policy hfits, hp]

/-- Two segments in front of an assignment, one of them with characters of two bytes. -/
theorem parse_logs_outcome_assignment :
    "pût: é: x:=1".utf8ByteSize ≤ maxOffset ∧
      ∃ p q s, parse "pût: é: x:=1" {} = .ok p ∧ p.outcome = .error (.notKeyword 10) ∧
        parse "pût: é: " {} = .ok q ∧ q.outcome = .ok s ∧
        p.events = [.segmentRead .keyword "pût:" ⟨0, 5⟩, .segmentRead .keyword "é:" ⟨6, 9⟩] ∧
        p.events = s.segmentEvents ∧ (∀ e ∈ p.events, e.TellsSegment) ∧
        q.events = p.events ++ [.selectorRead s.name 2] ∧
        (Event.selectorRead s.name 2).TellsSelector := by
  have hfits : "pût: é: x:=1".utf8ByteSize ≤ maxOffset := by decide
  have hfits' : "pût: é: ".utf8ByteSize ≤ maxOffset := by decide
  obtain ⟨p, hp, -, hstops, -⟩ := parse_logs_outcome hfits {}
  obtain ⟨q, hq, hselector, -⟩ := parse_logs_outcome hfits' {}
  let l : Layout .unicode :=
    ⟨[⟨[], ['p', 'û', 't'], List.all_eq_true.mp (by decide), by decide +kernel⟩,
      ⟨[' '], ['é'], List.all_eq_true.mp (by decide), by decide +kernel⟩], [' '],
      List.all_eq_true.mp (by decide)⟩
  have hfront : l.IsFront "pût: é: x:=1".toList ['x', ':', '=', '1'] :=
    ⟨by decide +kernel, Piece.unassigned_iff.mpr (.inr (by decide))⟩
  have hfinished : Finished .unicode ['x', ':', '=', '1'] := by
    refine ⟨?_, by decide +kernel⟩
    rintro x ⟨⟩
    decide
  have hwhole : l.IsFront "pût: é: ".toList [] :=
    ⟨by decide +kernel, Piece.unassigned_iff.mpr (.inr (by decide))⟩
  -- the same layout says what is read in the whole text and in front of the assignment
  have hp' := parse_of_isFront (o := {}) hfits (by decide +kernel) hfront hfinished
  have hq' := parse_of_isFront_nil (o := {}) hfits' hwhole
  obtain rfl := Except.ok.inj (hp.symm.trans hp')
  obtain rfl := Except.ok.inj (hq.symm.trans hq')
  obtain ⟨htells, front, q, hcut, hread, hfound⟩ := hstops 10 rfl
  have hten : (⟨"pût: é: x:=1"⟩ : Source).between? 0 10 = some "pût: é: " := by decide +kernel
  obtain rfl := Option.some.inj (hcut.symm.trans hten)
  obtain rfl := Except.ok.inj (hread.symm.trans hq)
  rcases hfound with ⟨hnone, -⟩ | ⟨s, hs, hevents⟩
  · cases hnone
  · obtain ⟨hlog, -, -, htold, -⟩ := hselector s hs
    rw [← hevents] at hlog
    obtain rfl := Except.ok.inj hs
    exact ⟨hfits, _, _, _, hp, rfl, hq, rfl, by decide +kernel, hevents, htells, hlog, htold⟩

end Reading

end Selector

end SelectorLexer
