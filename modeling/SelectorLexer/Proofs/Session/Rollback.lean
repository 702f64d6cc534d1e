import SelectorLexer.Proofs.Session.Bounds

/-!
# Going back is exact

A mark holds all that can change about a cursor: where it stands and where its token starts.
The source never changes, and the list of marks only grows, so that a mark is found under its
number whatever the host does in between.  It is not past the end of the source either,
because the cursor it was taken from was not.  So a cursor on the same source, be it the one
that the mark was taken from, a copy of it or a new one, becomes what that cursor was.

From then on it answers as that cursor would have done.  Only the marks are counted on: those
that were taken in between keep their numbers, and new ones get other numbers than they would
have got.

## Main definitions

* `Session.Extends` — what a session keeps of an earlier one.
* `Session.Resumes` — a session that goes on like another one, with some marks more.
* `Session.renumber` — the number of a mark in such a session.

## Main results

* `Session.extends_run` — marks stay, and every cursor stays on its source.
* `Session.rewind_to_mark` — where going back to a mark leads.
* `Session.Resumes.run` — the same steps get the same answers.
* `Session.run_rewinds_exactly` — all of it, for every run on any sources.
-/

namespace SelectorLexer

namespace Session

/-! ### What stays -/

/-- The session `s'` has all marks and cursors of `s` at their places, and perhaps more.  The
cursors read the sources that they read before. -/
structure Extends (s s' : Session) : Prop where
  marks : s.marks <+: s'.marks
  sources : s.cursors.map Cursor.source <+: s'.cursors.map Cursor.source

section Extends

variable {s s' s'' : Session}

theorem extends_refl (s : Session) : s.Extends s := ⟨List.prefix_rfl, List.prefix_rfl⟩

theorem Extends.trans (h : s.Extends s') (h' : s'.Extends s'') : s.Extends s'' :=
  ⟨h.marks.trans h'.marks, h.sources.trans h'.sources⟩

theorem Extends.getElem?_marks (h : s.Extends s') {i : Nat} {m : Mark}
    (hm : s.marks[i]? = some m) : s'.marks[i]? = some m := by
  obtain ⟨more, hmore⟩ := h.marks
  obtain ⟨hi, -⟩ := List.getElem?_eq_some_iff.mp hm
  rw [← hmore, List.getElem?_append_left hi, hm]

theorem Extends.exists_cursor (h : s.Extends s') {i : Nat} {c : Cursor}
    (hc : s.cursors[i]? = some c) : ∃ c', s'.cursors[i]? = some c' ∧ c'.source = c.source := by
  obtain ⟨more, hmore⟩ := h.sources
  have hsource : (s.cursors.map Cursor.source)[i]? = some c.source := by
    rw [List.getElem?_map, hc]
    rfl
  obtain ⟨hi, -⟩ := List.getElem?_eq_some_iff.mp hsource
  rw [← List.getElem?_append_left hi, hmore, List.getElem?_map, Option.map_eq_some_iff] at hsource
  exact hsource

/-- A step does not lead to another source. -/
theorem Moves.source_eq {c : Cursor} (h : s.Moves c) : c.source = s.cursor.source := by
  cases h with
  | pass h => exact Cursor.source_of_pass h
  | passWhile h => exact Cursor.source_of_passWhile h
  | openToken => rfl
  | rewind hm h =>
    obtain ⟨-, rfl⟩ := Cursor.rewind_eq_ok_iff.mp h
    rfl
  | scan h => exact Keyword.source_of_scan h

theorem extends_of_change (h : s.Change s') : s.Extends s' := by
  cases h with
  | nothing => exact extends_refl s
  | select i hi => exact ⟨List.prefix_rfl, List.prefix_rfl⟩
  | add h =>
    refine ⟨List.prefix_rfl, ?_⟩
    rw [addCursor, List.map_append]
    exact List.prefix_append _ _
  | @move c h =>
    have hsources : (s.setCursor c).cursors.map Cursor.source = s.cursors.map Cursor.source := by
      calc (s.setCursor c).cursors.map Cursor.source
          = (s.setCursor s.cursor).cursors.map Cursor.source := by
            rw [setCursor, setCursor, List.map_set, List.map_set, h.source_eq]
        _ = s.cursors.map Cursor.source := by rw [setCursor_cursor]
    exact ⟨List.prefix_rfl, [], by rw [List.append_nil, hsources]⟩
  | mark => exact ⟨List.prefix_append _ _, List.prefix_rfl⟩
  | renew scanner => exact ⟨List.prefix_rfl, List.prefix_rfl⟩

/-- **Marks stay, and every cursor stays on its source**, whatever the host does. -/
theorem extends_run (s : Session) (steps : List Step) : s.Extends (s.run steps).2 := by
  induction steps generalizing s with
  | nil => exact extends_refl s
  | cons step rest ih =>
    rw [run_cons]
    exact (extends_of_change (s.change_step step)).trans (ih _)

end Extends

theorem run_append (s : Session) (front back : List Step) :
    s.run (front ++ back) =
      ((s.run front).1 ++ ((s.run front).2.run back).1, ((s.run front).2.run back).2) := by
  induction front generalizing s with
  | nil => rfl
  | cons step front ih => rw [List.cons_append, run_cons, ih, run_cons, List.cons_append]

/-! ### Going back -/

/-- **Going back to a mark makes a cursor on the same source what the marked one was**, and
changes nothing else. -/
theorem rewind_to_mark {t : Session} {i k : Nat} {c d : Cursor} (hc : t.cursors[i]? = some c)
    (hk : t.marks[k]? = some d.mark) (hsource : c.source = d.source)
    (hd : d.pos ≤ d.source.size) :
    let r := t.run [.use i, .rewind k]
    r.1.map Answer.reply = [.done, .done] ∧ r.2.cursor = d ∧ r.2.marks = t.marks ∧
      r.2.scanner = t.scanner := by
  obtain ⟨hi, hget⟩ := List.getElem?_eq_some_iff.mp hc
  have hback : c.rewind d.mark = .ok d := by
    rw [Cursor.rewind_eq_ok_iff, hsource]
    exact ⟨hd, rfl⟩
  let u : Session := { t with selected := i, selected_lt := hi }
  have huse : t.step (.use i) = (u, .done) := by
    rw [Session.step, dif_pos hi]
  have hu : u.cursor = c := hget
  have hrewind : u.step (.rewind k) = (u.setCursor d, .done) := by
    have hk' : u.marks[k]? = some d.mark := hk
    simp only [Session.step, hk', hu, hback, move]
  intro r
  have hr : r = ([⟨.done, u.cursor.view⟩, ⟨.done, d.view⟩], u.setCursor d) := by
    simp only [r, run_cons, run_nil, huse, hrewind, cursor_setCursor]
  rw [hr]
  exact ⟨rfl, cursor_setCursor u d, rfl, rfl⟩

/-! ### Going on from there -/

/-- The steps that deal with other cursors than the selected one. -/
def Step.namesCursor : Step → Bool
  | .use .. => true
  | .copy => true
  | .fresh .. => true
  | _ => false

/-- The number of a mark when `more` marks come in behind the first `known` ones. -/
def renumber (known more i : Nat) : Nat := if i < known then i else i + more

/-- The step with the marks renumbered. -/
def Step.renumber (known more : Nat) : Step → Step
  | .rewind i => .rewind (Session.renumber known more i)
  | .sameMark i j => .sameMark (Session.renumber known more i) (Session.renumber known more j)
  | step => step

/-- The reply with the marks renumbered. -/
def Reply.renumber (known more : Nat) : Reply → Reply
  | .marked i pos => .marked (Session.renumber known more i) pos
  | reply => reply

/-- The answer with the marks renumbered. -/
def Answer.renumber (known more : Nat) (a : Answer) : Answer := ⟨a.reply.renumber known more, a.view⟩

/-- The session `t` goes on like `s`: the same cursor and scanner are at work, and it has the
marks of `s`, with `more` others behind the first `known`. -/
structure Resumes (known more : Nat) (s t : Session) : Prop where
  cursor : t.cursor = s.cursor
  scanner : t.scanner = s.scanner
  marks : ∃ old extra new, old.length = known ∧ extra.length = more ∧ s.marks = old ++ new ∧
    t.marks = old ++ extra ++ new

namespace Resumes

variable {known more : Nat} {s t : Session}

theorem getElem?_marks (h : Resumes known more s t) (i : Nat) :
    t.marks[Session.renumber known more i]? = s.marks[i]? := by
  obtain ⟨old, extra, new, rfl, rfl, hs, ht⟩ := h.marks
  rw [hs, ht, List.append_assoc, Session.renumber]
  split
  · next hi => rw [List.getElem?_append_left hi, List.getElem?_append_left hi]
  · next hi =>
    rw [List.getElem?_append_right (by omega), List.getElem?_append_right (by omega),
      List.getElem?_append_right (by omega)]
    congr 1
    omega

theorem length_marks (h : Resumes known more s t) :
    t.marks.length = Session.renumber known more s.marks.length := by
  obtain ⟨old, extra, new, rfl, rfl, hs, ht⟩ := h.marks
  rw [hs, ht, Session.renumber]
  simp only [List.length_append]
  rw [if_neg (by omega)]
  omega

/-- A step in both sessions that moves the cursor alike. -/
theorem move (h : Resumes known more s t) (moved : Checked Cursor) :
    (t.move moved).2 = (s.move moved).2.renumber known more ∧
      Resumes known more (s.move moved).1 (t.move moved).1 := by
  cases moved with
  | error fault => exact ⟨rfl, h⟩
  | ok c =>
    refine ⟨rfl, ⟨?_, h.scanner, h.marks⟩⟩
    exact (cursor_setCursor t c).trans (cursor_setCursor s c).symm

theorem tell (h : Resumes known more s t) (text : Checked String) :
    (t.tell text).2 = (s.tell text).2.renumber known more ∧
      Resumes known more (s.tell text).1 (t.tell text).1 := by
  cases text with
  | error fault => exact ⟨rfl, h⟩
  | ok text => exact ⟨rfl, h⟩

theorem scanned (h : Resumes known more s t) (outcome : Checked (Option Token × Cursor)) :
    (t.scanned outcome).2 = (s.scanned outcome).2.renumber known more ∧
      Resumes known more (s.scanned outcome).1 (t.scanned outcome).1 := by
  cases outcome with
  | error fault => exact ⟨rfl, h⟩
  | ok found =>
    refine ⟨rfl, ⟨?_, h.scanner, h.marks⟩⟩
    exact (cursor_setCursor t found.2).trans (cursor_setCursor s found.2).symm

/-- **One step gets the same reply in both sessions**, but for the numbers of marks. -/
theorem step (h : Resumes known more s t) {step : Step} (hstep : step.namesCursor = false) :
    (t.step (step.renumber known more)).2 = (s.step step).2.renumber known more ∧
      Resumes known more (s.step step).1 (t.step (step.renumber known more)).1 := by
  cases step with
  | use i => cases hstep
  | copy => cases hstep
  | fresh i => cases hstep
  | pass part =>
    simp only [Step.renumber, Session.step, h.cursor]
    exact h.move _
  | passWhile part p =>
    simp only [Step.renumber, Session.step, h.cursor]
    exact h.move _
  | openToken =>
    simp only [Step.renumber, Session.step, h.cursor]
    exact h.move _
  | span =>
    simp only [Step.renumber, Session.step, h.cursor]
    cases s.cursor.span.length with
    | error fault => exact ⟨rfl, h⟩
    | ok length => exact ⟨rfl, h⟩
  | lexeme =>
    simp only [Step.renumber, Session.step, h.cursor]
    exact h.tell _
  | between start stop =>
    simp only [Step.renumber, Session.step, h.cursor]
    exact h.tell _
  | since start =>
    simp only [Step.renumber, Session.step, h.cursor]
    exact h.tell _
  | mark =>
    simp only [Step.renumber, Session.step, h.cursor, h.length_marks]
    refine ⟨rfl, ⟨h.cursor, h.scanner, ?_⟩⟩
    -- the new mark comes last in both
    obtain ⟨old, extra, new, hold, hextra, hs, ht⟩ := h.marks
    refine ⟨old, extra, new ++ [s.cursor.mark], hold, hextra, ?_, ?_⟩
    · rw [hs, List.append_assoc]
    · rw [ht, List.append_assoc]
  | rewind i =>
    simp only [Step.renumber, Session.step, h.cursor, h.getElem?_marks]
    cases s.marks[i]? with
    | none => exact ⟨rfl, h⟩
    | some m => exact h.move _
  | sameMark i j =>
    simp only [Step.renumber, Session.step, h.getElem?_marks]
    cases s.marks[i]? with
    | none => exact ⟨rfl, h⟩
    | some m =>
      cases s.marks[j]? with
      | none => exact ⟨rfl, h⟩
      | some m' => exact ⟨rfl, h⟩
  | scan wanted =>
    simp only [Step.renumber, Session.step, h.cursor, h.scanner]
    exact h.scanned _
  | scanTable table =>
    simp only [Step.renumber, Session.step, h.cursor, h.scanner]
    cases s.scanner.scanTable table s.cursor with
    | error reason => exact ⟨rfl, h⟩
    | ok outcome => exact h.scanned outcome
  | save buffer =>
    simp only [Step.renumber, Session.step, h.scanner]
    exact ⟨rfl, h⟩
  | load bytes =>
    simp only [Step.renumber, Session.step, h.scanner]
    exact ⟨rfl, ⟨h.cursor, rfl, h.marks⟩⟩
  | renewScanner options => exact ⟨rfl, ⟨h.cursor, rfl, h.marks⟩⟩

/-- **So does every step of a run.** -/
theorem run (h : Resumes known more s t) {steps : List Step}
    (hsteps : ∀ step ∈ steps, step.namesCursor = false) :
    (t.run (steps.map (Step.renumber known more))).1 =
      (s.run steps).1.map (Answer.renumber known more) := by
  induction steps generalizing s t with
  | nil => rfl
  | cons step rest ih =>
    obtain ⟨hreply, hnext⟩ := h.step (hsteps step List.mem_cons_self)
    rw [List.map_cons, run_cons, run_cons, hreply, hnext.cursor,
      ih hnext fun later hlater => hsteps later (List.mem_cons_of_mem step hlater)]
    rfl

end Resumes

/-! ### Every run -/

/-- The host goes back to a mark with one of its cursors. -/
def goingBack (cursor mark : Nat) : List Step := [.use cursor, .rewind mark]

section AfterMark

variable {s : Session}

/-- The mark of the selected cursor is found under its number ever after. -/
theorem getElem?_marks_of_mark (s : Session) (back : List Step) :
    ((s.step .mark).1.run back).2.marks[s.marks.length]? = some s.cursor.mark := by
  apply (extends_run (s.step .mark).1 back).getElem?_marks
  exact List.getElem?_concat_length

/-- A session in which a mark was taken goes on from it as it would have gone on then. -/
theorem resumes_of_goingBack {back : List Step} {t r : Session}
    (ht : ((s.step .mark).1.run back).2 = t) (hcursor : r.cursor = s.cursor)
    (hmarks : r.marks = t.marks) (hscanner : r.scanner = t.scanner) :
    Resumes (s.marks.length + 1) (t.marks.length - (s.marks.length + 1))
      { (s.step .mark).1 with scanner := t.scanner } r := by
  obtain ⟨extra, hextra⟩ := (extends_run (s.step .mark).1 back).marks
  rw [ht] at hextra
  have hlength : (s.step .mark).1.marks.length = s.marks.length + 1 := List.length_append
  refine ⟨hcursor, hscanner, (s.step .mark).1.marks, extra, [], hlength, ?_, ?_, ?_⟩
  · rw [← hextra, List.length_append, hlength, Nat.add_sub_cancel_left]
  · exact (List.append_nil _).symm
  · rw [hmarks, ← hextra, List.append_nil]

end AfterMark

/-- **Going back is exact.**  In a session on sources that offsets can count, the host takes
a mark and does anything whatever.  The cursor that the mark was taken from is still there,
on its source.  Every cursor on that source, be it this one, a copy or a new one, can go back
to the mark, and is then equal to the cursor that the mark was taken from.  The steps that
follow get the answers that they would have got then, but for the numbers of new marks.  And
two marks on the same source are the same exactly if the cursors that go back to them come to
stand at the same offset with the same start of the token. -/
theorem run_rewinds_exactly {first : Source} {others : List Source}
    (hfits : ∀ x ∈ first :: others, x.text.utf8ByteSize ≤ maxOffset) (o : Options)
    (front back : List Step) :
    let s := ((start first others o).run front).2
    let k := s.marks.length
    let marked := (s.step .mark).1
    let t := (marked.run back).2
    let more := t.marks.length - (k + 1)
    (s.step .mark).2 = .marked k s.cursor.pos ∧ marked.cursor = s.cursor ∧
    (∃ c, t.cursors[s.selected]? = some c ∧ c.source = s.cursor.source) ∧
    (∀ i c, t.cursors[i]? = some c → c.source = s.cursor.source →
      let r := t.run (goingBack i k)
      r.1.map Answer.reply = [.done, .done] ∧ r.2.cursor = s.cursor ∧
      ∀ later : List Step, (∀ step ∈ later, step.namesCursor = false) →
        (r.2.run (later.map (Step.renumber (k + 1) more))).1 =
          (({ marked with scanner := t.scanner } : Session).run later).1.map
            (Answer.renumber (k + 1) more)) ∧
    ∀ mid rest, back = mid ++ .mark :: rest →
      let s' := (marked.run mid).2
      let k' := s'.marks.length
      s'.cursor.source = s.cursor.source →
      ∀ i j c d, t.cursors[i]? = some c → c.source = s.cursor.source →
        t.cursors[j]? = some d → d.source = s.cursor.source →
        ∃ equal, (t.step (.sameMark k k')).2 = .same equal ∧
          (equal = true ↔
            (t.run (goingBack i k)).2.cursor.pos = (t.run (goingBack j k')).2.cursor.pos ∧
            (t.run (goingBack i k)).2.cursor.tokenStart =
              (t.run (goingBack j k')).2.cursor.tokenStart) := by
  intro s k marked t more
  have hs : s.cursor.InBounds := (upholds_inBounds hfits o front).cursor
  have hmark : t.marks[k]? = some s.cursor.mark := getElem?_marks_of_mark s back
  refine ⟨rfl, rfl, ?_, ?_, ?_⟩
  · have hselected : marked.cursors[s.selected]? = some s.cursor :=
      List.getElem?_eq_getElem s.selected_lt
    exact (extends_run marked back).exists_cursor hselected
  · intro i c hc hsource r
    obtain ⟨hreplies, hcursor, hmarks, hscanner⟩ := rewind_to_mark hc hmark hsource hs.pos_le
    refine ⟨hreplies, hcursor, ?_⟩
    intro later hlater
    exact (resumes_of_goingBack rfl hcursor hmarks hscanner).run hlater
  · intro mid rest hback s' k' hsource i j c d hc hc' hd hd'
    -- the second mark was taken in a run of its own
    have hs' : s'.cursor.InBounds := by
      have hrun : s' = ((start first others o).run (front ++ .mark :: mid)).2 := by
        rw [run_append, run_cons]
      rw [hrun]
      exact (upholds_inBounds hfits o _).cursor
    have hmark' : t.marks[k']? = some s'.cursor.mark := by
      have ht : t = ((s'.step .mark).1.run rest).2 := by
        simp only [t, hback, run_append, run_cons, s']
      rw [ht]
      exact getElem?_marks_of_mark s' rest
    obtain ⟨-, hcursor, -⟩ := rewind_to_mark hc hmark hc' hs.pos_le
    obtain ⟨-, hcursor', -⟩ := rewind_to_mark hd hmark' (hd'.trans hsource.symm) hs'.pos_le
    refine ⟨decide (s.cursor.mark = s'.cursor.mark), ?_, ?_⟩
    · simp only [Session.step, hmark, hmark']
    · rw [goingBack, goingBack, hcursor, hcursor', decide_eq_true_iff, Cursor.mark, Cursor.mark,
        Mark.mk.injEq]

/-- A scan, a nested mark, a way back to it, a copy and a new cursor after a mark behind a
character of two bytes.  The new cursor goes back to the first mark, and goes on from there. -/
theorem run_rewinds_exactly_nested :
    let text : Source := ⟨"é ab: c"⟩
    let back : List Step := [.scan .keywords, .mark, .passWhile .content (· != ':'), .rewind 1,
      .copy, .fresh 0, .use 2, .pass .trivia]
    let later : List Step := [.scan .keywords, .lexeme, .mark, .pass .trivia, .rewind 1]
    (∀ x ∈ [text, ⟨"abc"⟩], x.text.utf8ByteSize ≤ maxOffset) ∧
    ∃ s t, ((start text [⟨"abc"⟩] {}).run [.pass .content]).2 = s ∧
      ((s.step .mark).1.run back).2 = t ∧ s.cursor = ⟨text, 2, 0⟩ ∧
      t.cursors.map Cursor.mark = [⟨6, 3⟩, ⟨0, 0⟩, ⟨7, 7⟩, ⟨0, 0⟩] ∧
      (t.run (goingBack 3 0)).2.cursor = s.cursor ∧
      ((t.run (goingBack 3 0)).2.run (later.map (Step.renumber 1 1))).1 =
        (({ (s.step .mark).1 with scanner := t.scanner } : Session).run later).1.map
          (Answer.renumber 1 1) ∧
      (({ (s.step .mark).1 with scanner := t.scanner } : Session).run later).1.map Answer.reply =
        [.scanned (some ⟨.keyword, 3, 6⟩), .text "ab:", .marked 1 6, .done, .done] ∧
      ∃ equal, (t.step (.sameMark 0 1)).2 = .same equal ∧
        (equal = true ↔
          (t.run (goingBack 3 0)).2.cursor.pos = (t.run (goingBack 2 1)).2.cursor.pos ∧
          (t.run (goingBack 3 0)).2.cursor.tokenStart =
            (t.run (goingBack 2 1)).2.cursor.tokenStart) := by
  intro text back later
  have hfits : ∀ x ∈ [text, ⟨"abc"⟩], x.text.utf8ByteSize ≤ maxOffset := by decide
  have hexact := run_rewinds_exactly hfits {} [.pass .content] back
  -- under names the two sessions are not evaluated where they are compared
  obtain ⟨s, hs⟩ : ∃ s, ((start text [⟨"abc"⟩] {}).run [.pass .content]).2 = s := ⟨_, rfl⟩
  obtain ⟨t, ht⟩ : ∃ t, ((s.step .mark).1.run back).2 = t := ⟨_, rfl⟩
  have hk : s.marks.length = 0 := by rw [← hs]; decide +kernel
  have hmore : t.marks.length = 2 := by rw [← ht, ← hs]; decide +kernel
  simp only [hs, ht, hk, hmore] at hexact
  have hcursor : s.cursor = ⟨text, 2, 0⟩ := by rw [← hs]; decide +kernel
  have hcopy : t.cursors[2]? = some ⟨text, 7, 7⟩ := by rw [← ht, ← hs]; decide +kernel
  have hfresh : t.cursors[3]? = some ⟨text, 0, 0⟩ := by rw [← ht, ← hs]; decide +kernel
  have hsource : text = s.cursor.source := by rw [hcursor]
  have hscanned : ((s.step .mark).1.run [.scan .keywords]).2.cursor.source = s.cursor.source := by
    rw [← hs]; decide +kernel
  have hmarks : ((s.step .mark).1.run [.scan .keywords]).2.marks.length = 1 := by
    rw [← hs]; decide +kernel
  obtain ⟨-, -, -, hback, hsame⟩ := hexact
  obtain ⟨-, hrewound, hanswers⟩ := hback 3 _ hfresh hsource
  refine ⟨hfits, s, t, hs, ht, hcursor, ?_, hrewound, ?_, ?_, ?_⟩
  · rw [← ht, ← hs]; decide +kernel
  · exact hanswers later (by simp [later, Step.namesCursor])
  · rw [← ht, ← hs]; decide +kernel
  · have h := hsame [.scan .keywords] _ rfl hscanned 3 2 _ _ hfresh hsource hcopy hsource
    rwa [hmarks] at h

end Session

end SelectorLexer
