import SelectorLexer.Proofs.Keyword.Shift
import SelectorLexer.Proofs.Session.Bounds

/-!
# The text in front of a session

A host that starts somewhere in a text does not depend on what stands in front of that
place.  It does the same as a host that starts with the rest of the text alone, and all
places that it is told are further on by the text in front.  This holds as long as the
host names no place itself.  It may go back, but only to marks that it has taken on the
way, and these are further on by the same text.

One session is the counterpart of the other before each step, and the replies to the step
are counterparts as well.

## Main definitions

* `Session.startAt` — a session on one cursor.
* `Session.Step.namesPlace` — the steps that name a place in a source.
* `Session.Reply.shift`, `Session.Answer.shift` — what is told, further on.
* `Session.shift` — the counterpart of a session.

## Main results

* `Session.Upholds.step_shift`, `Session.Upholds.run_shift` — what the counterpart of a session
  does in one step and in a run.
* `Session.run_ignores_text_before` — the text in front of a session does not matter.
-/

namespace SelectorLexer

/-- What a host sees of a cursor that is `n` bytes further on. -/
def Cursor.View.shift (n : Nat) (v : Cursor.View) : Cursor.View :=
  { v with pos := n + v.pos, tokenStart := n + v.tokenStart }

theorem Cursor.view_shift {t : Source} {n : Nat} {c : Cursor} (h : c.source.IsTail t n) :
    (c.shift t n).view = c.view.shift n := by
  simp [view, View.shift, atEnd_shift h, peek_shift h, byte_shift h]

namespace Session

/-- A session on one cursor and its source. -/
def startAt (c : Cursor) (o : Options) : Session where
  sources := [c.source]
  cursors := [c]
  selected := 0
  selected_lt := by simp
  marks := []
  scanner := ⟨o⟩

/-- At the start of a source this is how every session on it starts. -/
theorem startAt_start (s : Source) (o : Options) : startAt (.start s) o = start s [] o := rfl

/-- Does the step name a place in a source, otherwise than by a cursor or a mark? -/
def Step.namesPlace : Step → Bool
  | .fresh _ => true
  | .between .. => true
  | .since .. => true
  | _ => false

theorem Step.namesOffset_eq_false {step : Step} (h : step.namesPlace = false) :
    step.namesOffset = false := by
  cases step with
  | between start stop => cases h
  | since start => cases h
  | _ => rfl

/-- The reply with the places in it `n` bytes further on.  All other replies tell no place,
or are not given on a single text. -/
def Reply.shift (n : Nat) : Reply → Reply
  | .span place length => .span (place.shift n) length
  | .marked i pos => .marked i (n + pos)
  | .scanned found => .scanned (found.map (Token.shift n))
  | reply => reply

/-- Only a fault has a fault as its counterpart. -/
theorem Reply.shift_ne_fault {n : Nat} {reply : Reply} (h : ∀ f, reply ≠ .fault f) :
    ∀ f, reply.shift n ≠ .fault f := by
  intro f
  cases reply with
  | fault f' => exact absurd rfl (h f')
  | _ => exact Reply.noConfusion

/-- The answer with the places in it `n` bytes further on. -/
def Answer.shift (n : Nat) (a : Answer) : Answer := ⟨a.reply.shift n, a.view.shift n⟩

/-! ### The counterpart of a session -/

/-- The counterpart of a session, when the source `t` holds its text from the offset `n`
on. -/
def shift (t : Source) (n : Nat) (s : Session) : Session where
  sources := s.sources.map fun _ => t
  cursors := s.cursors.map (Cursor.shift t n)
  selected := s.selected
  selected_lt := by simpa using s.selected_lt
  marks := s.marks.map (Mark.shift n)
  scanner := s.scanner

section Counterparts

variable {t : Source} {n : Nat} {s : Session}

@[simp] theorem cursor_shift : (s.shift t n).cursor = s.cursor.shift t n := by
  simp [cursor, shift]

@[simp] theorem scanner_shift : (s.shift t n).scanner = s.scanner := rfl

@[simp] theorem length_cursors_shift :
    (s.shift t n).cursors.length = s.cursors.length := List.length_map _

@[simp] theorem getElem?_marks_shift (i : Nat) :
    (s.shift t n).marks[i]? = s.marks[i]?.map (Mark.shift n) := List.getElem?_map

theorem setCursor_shift (c : Cursor) :
    (s.shift t n).setCursor (c.shift t n) = (s.setCursor c).shift t n := by
  simp [setCursor, shift, List.map_set]

theorem addCursor_shift (c : Cursor) :
    (s.shift t n).addCursor (c.shift t n) = (s.addCursor c).shift t n := by
  simp [addCursor, shift]

theorem move_shift {moved moved' : Checked Cursor} {c : Cursor} (h : moved = .ok c)
    (h' : moved' = .ok (c.shift t n)) :
    (s.shift t n).move moved' = ((s.move moved).1.shift t n, (s.move moved).2.shift n) := by
  rw [h, h', move, move, setCursor_shift]
  rfl

theorem scanned_shift {found : Option Token} {c : Cursor}
    {outcome outcome' : Checked (Option Token × Cursor)} (h : outcome = .ok (found, c))
    (h' : outcome' = .ok (found.map (Token.shift n), c.shift t n)) :
    (s.shift t n).scanned outcome' =
      ((s.scanned outcome).1.shift t n, (s.scanned outcome).2.shift n) := by
  rw [h, h', scanned, scanned, setCursor_shift]
  rfl

end Counterparts

/-! ### Steps and runs -/

section Runs

variable {x t : Source} {n : Nat} {s : Session}

/-- Scanning in the counterpart of a session. -/
theorem scan_shift (hx : s.cursor.source.IsTail t n) (hin : s.cursor.InBounds)
    (wanted : KindSet) :
    (s.shift t n).scanned ((s.shift t n).scanner.scan wanted (s.shift t n).cursor) =
      ((s.scanned (s.scanner.scan wanted s.cursor)).1.shift t n,
        (s.scanned (s.scanner.scan wanted s.cursor)).2.shift n) := by
  obtain ⟨found, last, hscan⟩ := Keyword.exists_scan hin s.scanner.options wanted
  rw [scanner_shift, cursor_shift]
  exact scanned_shift hscan (Keyword.scan_shift hx hscan)

/-- **One step in the counterpart of a session** leads to the counterpart of where it leads,
and so does its reply. -/
theorem Upholds.step_shift (h : Upholds (fun c => c.source = x ∧ c.OnBoundaries) s)
    (hx : x.IsTail t n) {step : Step} (hstep : step.namesPlace = false) :
    (s.shift t n).step step = ((s.step step).1.shift t n, (s.step step).2.shift n) := by
  obtain ⟨hsource, hon⟩ := h.cursor
  rw [← hsource] at hx
  cases step with
  | use i =>
    rw [Session.step, Session.step]
    split
    · next hi =>
      rw [length_cursors_shift] at hi
      rw [dif_pos hi]
      rfl
    · next hi =>
      rw [length_cursors_shift] at hi
      rw [dif_neg hi]
      rfl
  | copy =>
    rw [Session.step, cursor_shift, addCursor_shift, length_cursors_shift]
    rfl
  | pass part =>
    obtain ⟨c, hc⟩ := Cursor.exists_pass hon.fits part
    rw [Session.step, cursor_shift]
    exact move_shift hc (Cursor.pass_shift hx hc)
  | passWhile part p =>
    obtain ⟨c, hc⟩ := Cursor.exists_passWhile hon.fits part p
    rw [Session.step, cursor_shift]
    exact move_shift hc (Cursor.passWhile_shift hx hc)
  | openToken =>
    rw [Session.step, cursor_shift]
    exact move_shift rfl rfl
  | span =>
    simp only [Session.step, cursor_shift, Cursor.span_shift, Span.length_shift, hon.length_span]
    rfl
  | lexeme =>
    rw [Session.step, cursor_shift, Cursor.lexeme_shift hx hon.toInBounds, Session.step]
    cases s.cursor.lexeme <;> rfl
  | mark =>
    simp only [Session.step, cursor_shift, Cursor.mark_shift]
    simp [shift, Reply.shift]
  | rewind i =>
    simp only [Session.step, getElem?_marks_shift, cursor_shift]
    cases hm : s.marks[i]? with
    | none => rfl
    | some m =>
      -- the mark was taken on the same source, so it can be gone back to
      obtain ⟨d, ⟨hd, hdon⟩, rfl⟩ := h.marks m (List.mem_of_getElem? hm)
      have hback : s.cursor.rewind d.mark = .ok ⟨s.cursor.source, d.pos, d.tokenStart⟩ := by
        refine Cursor.rewind_eq_ok_iff.mpr ⟨?_, rfl⟩
        rw [hsource, ← hd]
        exact hdon.pos_le
      exact move_shift hback (Cursor.rewind_shift hx hback)
  | sameMark i j =>
    simp only [Session.step, getElem?_marks_shift]
    cases s.marks[i]? with
    | none => rfl
    | some m =>
      cases s.marks[j]? with
      | none => rfl
      | some m' => simp [Reply.shift]
  | scan wanted => exact scan_shift hx hon.toInBounds wanted
  | scanTable table =>
    simp only [Session.step, Scanner.scanTable]
    cases KindSet.ofTable table with
    | error reason => rfl
    | ok wanted => exact scan_shift hx hon.toInBounds wanted
  | save buffer => rfl
  | load bytes => rfl
  | renewScanner options => rfl
  | fresh i => cases hstep
  | between start stop => cases hstep
  | since start => cases hstep

/-- **A run of the counterpart of a session.** -/
theorem Upholds.run_shift (h : Upholds (fun c => c.source = x ∧ c.OnBoundaries) s)
    (hx : x.IsTail t n) {steps : List Step} (hsteps : ∀ step ∈ steps, step.namesPlace = false) :
    (s.shift t n).run steps = ((s.run steps).1.map (Answer.shift n), (s.run steps).2.shift t n) := by
  induction steps generalizing s with
  | nil => rfl
  | cons step rest ih =>
    have hnext := h.step (Cursor.stable_onBoundaries x) step
    have hview : (s.step step).1.cursor.source.IsTail t n := by rwa [hnext.cursor.1]
    rw [run_cons, run_cons, h.step_shift hx (hsteps step List.mem_cons_self),
      ih hnext fun later hlater => hsteps later (List.mem_cons_of_mem step hlater), cursor_shift,
      Cursor.view_shift hview]
    rfl

end Runs

/-- **The text in front of a session does not matter.**  Let one session start in the middle
of a text, with its token there as well, and another one with the rest of the text alone.
If both do the same steps, and no step names a place, they get the same answers, but for
places, which are further on by the text in front, and none of them is a fault.  After each
step the cursors read the same, and their tokens have the same text. -/
theorem run_ignores_text_before {front text : String}
    (hfits : (front ++ text).utf8ByteSize ≤ maxOffset) (o : Options) {steps : List Step}
    (hsteps : ∀ step ∈ steps, step.namesPlace = false) :
    let n := front.utf8ByteSize
    let behind := startAt ⟨⟨front ++ text⟩, n, n⟩ o
    let alone := startAt (.start ⟨text⟩) o
    (behind.run steps).1 = (alone.run steps).1.map (Answer.shift n) ∧
    (∀ a ∈ (behind.run steps).1, ∀ f, a.reply ≠ .fault f) ∧
    ∀ done, done <+: steps →
      let c := (behind.run done).2.cursor
      let d := (alone.run done).2.cursor
      c.pos = n + d.pos ∧ c.tokenStart = n + d.tokenStart ∧
        c.peek = d.peek ∧ c.byte = d.byte ∧ c.atEnd = d.atEnd ∧
        ∃ part, c.lexeme = .ok part ∧ d.lexeme = .ok part := by
  intro n behind alone
  have htail : (⟨text⟩ : Source).IsTail ⟨front ++ text⟩ n := Source.isTail_append hfits
  have htext : text.utf8ByteSize ≤ maxOffset := htail.fits
  have halone : alone = start ⟨text⟩ [] o := startAt_start ⟨text⟩ o
  have hrun : ∀ done, (∀ step ∈ done, step.namesPlace = false) →
      behind.run done =
        ((alone.run done).1.map (Answer.shift n), (alone.run done).2.shift ⟨front ++ text⟩ n) := by
    intro done hdone
    have hon := upholds_onBoundaries htext o []
    rw [run_nil, ← halone] at hon
    exact hon.run_shift htail hdone
  refine ⟨by rw [hrun steps hsteps], ?_, ?_⟩
  · intro a ha
    rw [hrun steps hsteps] at ha
    obtain ⟨b, hb, rfl⟩ := List.mem_map.mp ha
    obtain ⟨done, step, more, rfl, hreply⟩ := exists_step_of_mem_run hb
    have hplace : step.namesPlace = false := hsteps step (by simp)
    rw [Answer.shift, hreply]
    exact Reply.shift_ne_fault <|
      (upholds_onBoundaries htext o done).step_ne_fault (Step.namesOffset_eq_false hplace)
  intro done hdone c d
  obtain ⟨hsource, hon⟩ := (upholds_onBoundaries htext o done).cursor
  have hc : c = d.shift ⟨front ++ text⟩ n := by
    show (behind.run done).2.cursor = _
    rw [hrun done fun step hstep => hsteps step (hdone.subset hstep), cursor_shift]
  have hd : d.source.IsTail ⟨front ++ text⟩ n := by
    rw [show d.source = ⟨text⟩ from hsource]
    exact htail
  obtain ⟨part, -, hpart, -⟩ := hon.lexeme
  rw [hc]
  refine ⟨rfl, rfl, Cursor.peek_shift hd, Cursor.byte_shift hd, Cursor.atEnd_shift hd, part, ?_,
    hpart⟩
  rw [Cursor.lexeme_shift hd hon.toInBounds]
  exact hpart

/-- Two scans that treat failures differently, a mark between them, and a way back, behind a
character of two bytes. -/
theorem run_ignores_text_before_assignment :
    let front := "é: "
    let text := "\tx1:=y ça:"
    let steps : List Step :=
      [.passWhile .trivia isBlank, .mark, .renewScanner ⟨.stay, .ascii⟩, .scan .keywords, .lexeme,
        .rewind 0, .passWhile .content (· != ' '), .renewScanner {}, .scanTable [true], .span]
    let behind := startAt ⟨⟨front ++ text⟩, front.utf8ByteSize, front.utf8ByteSize⟩ {}
    let alone := startAt (.start ⟨text⟩) {}
    (front ++ text).utf8ByteSize ≤ maxOffset ∧ (∀ step ∈ steps, step.namesPlace = false) ∧
      (alone.run steps).1.map Answer.reply = [.done, .marked 0 1, .done, .scanned none,
        .text "x1:", .done, .done, .done, .scanned (some ⟨.keyword, 7, 11⟩), .span ⟨7, 11⟩ 4] ∧
      (behind.run steps).1.map Answer.reply = [.done, .marked 0 5, .done, .scanned none,
        .text "x1:", .done, .done, .done, .scanned (some ⟨.keyword, 11, 15⟩), .span ⟨11, 15⟩ 4] ∧
      (behind.run steps).2.cursor.lexeme = .ok "ça:" := by
  intro front text steps behind alone
  have hfits : (front ++ text).utf8ByteSize ≤ maxOffset := by decide
  have hsteps : ∀ step ∈ steps, step.namesPlace = false := by simp [steps, Step.namesPlace]
  have halone : (alone.run steps).1.map Answer.reply = [.done, .marked 0 1, .done, .scanned none,
      .text "x1:", .done, .done, .done, .scanned (some ⟨.keyword, 7, 11⟩), .span ⟨7, 11⟩ 4] := by
    decide +kernel
  have hlexeme : (alone.run steps).2.cursor.lexeme = .ok "ça:" := by decide +kernel
  obtain ⟨hanswers, -, hcursors⟩ := run_ignores_text_before hfits {} hsteps
  refine ⟨hfits, hsteps, halone, ?_, ?_⟩
  · have hreplies := congrArg (List.map (Reply.shift front.utf8ByteSize)) halone
    rw [List.map_map] at hreplies
    rw [hanswers, List.map_map]
    exact hreplies.trans (by decide)
  · obtain ⟨-, -, -, -, -, part, hbehind, hpart⟩ := hcursors steps List.prefix_rfl
    exact hbehind.trans (hpart.symm.trans hlexeme)

end Session

end SelectorLexer
