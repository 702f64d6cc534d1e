import SelectorLexer.Proofs.Keyword.Bounds
import SelectorLexer.Session

/-!
# What is safe in a session

A host may do anything in any order: move its cursors, scan with them, copy them, and go
back to any mark it has taken, even on another source.  Still each step makes one of a few
changes, and what can go wrong is little.  The invariant of a session is that every cursor
has a property, and that every mark was taken from some cursor that had it.  If the property
is stable, every step keeps the invariant, and so does every run.

Two properties are used here.  In any session, all cursors are in bounds.  This leaves
only the faults that a host asks for by naming a place: a mark past the end of the source,
or offsets that make up no part of it.  In a session on a single text no mark is foreign,
so that all cursors stand between characters, and the only offsets that can be wrong are
those that the host has made up.

## Main definitions

* `Session.Change` — what a step can make of a session.
* `Session.Upholds` — the invariant of a session, for a property of cursors.
* `Session.Refuses` — the steps that a session refuses, and for which fault.
* `Session.Step.namesOffset` — the steps that ask for a part of the text by offsets.

## Main results

* `Session.change_step` — no step changes more than that.
* `Session.Upholds.change`, `Session.Upholds.run` — stable properties are upheld.
* `Session.Refuses.step_eq`, `Session.refuses_of_step_eq` — a step is a fault exactly if it is
  refused.
* `Session.run_refuses_exactly` — what is true after every run, on any sources.
* `Session.run_stays_between_characters` — what is true after every run on one text.
-/

namespace SelectorLexer

namespace Session

/-! ### What a step can do -/

/-- Where a step can lead the selected cursor. -/
inductive Moves (s : Session) : Cursor → Prop where
  /-- Past the next character. -/
  | pass {part : Part} {c : Cursor} (h : s.cursor.pass part = .ok c) : Moves s c
  /-- Past the characters that satisfy a predicate. -/
  | passWhile {part : Part} {p : Char → Bool} {c : Cursor}
    (h : s.cursor.passWhile part p = .ok c) : Moves s c
  /-- To the same place, where its token starts now. -/
  | openToken : Moves s s.cursor.openToken
  /-- Back to a mark. -/
  | rewind {m : Mark} {c : Cursor} (hm : m ∈ s.marks) (h : s.cursor.rewind m = .ok c) : Moves s c
  /-- To where a scan leaves it. -/
  | scan {wanted : KindSet} {t : Option Token} {c : Cursor}
    (h : s.scanner.scan wanted s.cursor = .ok (t, c)) : Moves s c

/-- What a step can make of a session. -/
inductive Change (s : Session) : Session → Prop where
  /-- Nothing changes, as when the step only asks or is refused. -/
  | nothing : Change s s
  /-- Another cursor is selected. -/
  | select (i : Nat) (h : i < s.cursors.length) :
    Change s { s with selected := i, selected_lt := h }
  /-- A cursor is added: a copy of the selected one, or one at the start of a source. -/
  | add {c : Cursor} (h : c = s.cursor ∨ ∃ x ∈ s.sources, c = .start x) : Change s (s.addCursor c)
  /-- The selected cursor is moved. -/
  | move {c : Cursor} (h : s.Moves c) : Change s (s.setCursor c)
  /-- A mark is taken from the selected cursor. -/
  | mark : Change s { s with marks := s.marks ++ [s.cursor.mark] }
  /-- The scanner is replaced. -/
  | renew (scanner : Scanner) : Change s { s with scanner }

section Changes

variable {s : Session}

theorem change_move {moved : Checked Cursor} (h : ∀ c, moved = .ok c → s.Moves c) :
    s.Change (s.move moved).1 := by
  cases moved with
  | error fault => exact .nothing
  | ok c => exact .move (h c rfl)

theorem change_tell (text : Checked String) : s.Change (s.tell text).1 := by
  cases text with
  | error fault => exact .nothing
  | ok text => exact .nothing

theorem change_scan (wanted : KindSet) :
    s.Change (s.scanned (s.scanner.scan wanted s.cursor)).1 := by
  cases hscan : s.scanner.scan wanted s.cursor with
  | error fault => exact .nothing
  | ok outcome => exact .move (.scan hscan)

/-- **These are all the changes that a step can make.** -/
theorem change_step (s : Session) (step : Step) : s.Change (s.step step).1 := by
  cases step with
  | use i =>
    rw [Session.step]
    split
    · next h => exact .select i h
    · exact .nothing
  | copy => exact .add (.inl rfl)
  | fresh i =>
    rw [Session.step]
    split
    · next x hx => exact .add (.inr ⟨x, List.mem_of_getElem? hx, rfl⟩)
    · exact .nothing
  | pass part => exact change_move fun c hc => .pass hc
  | passWhile part p => exact change_move fun c hc => .passWhile hc
  | openToken => exact .move .openToken
  | span =>
    rw [Session.step]
    split
    · exact .nothing
    · exact .nothing
  | lexeme => exact change_tell _
  | between start stop => exact change_tell _
  | since start => exact change_tell _
  | mark => exact .mark
  | rewind i =>
    rw [Session.step]
    split
    · next m hm => exact change_move fun c hc => .rewind (List.mem_of_getElem? hm) hc
    · exact .nothing
  | sameMark i j =>
    rw [Session.step]
    split
    · exact .nothing
    · exact .nothing
  | scan wanted => exact change_scan wanted
  | scanTable table =>
    rw [Session.step, Scanner.scanTable]
    cases KindSet.ofTable table with
    | error reason => exact .nothing
    | ok wanted => exact change_scan wanted
  | save buffer => exact .nothing
  | load bytes => exact .renew _
  | renewScanner options => exact .renew _

end Changes

/-! ### The invariant -/

/-- Every cursor of the session has the property, and every mark was taken from a cursor
that had it. -/
structure Upholds (P : Cursor → Prop) (s : Session) : Prop where
  /-- New cursors have the property. -/
  start : ∀ x ∈ s.sources, P (.start x)
  cursors : ∀ c ∈ s.cursors, P c
  marks : ∀ m ∈ s.marks, ∃ d : Cursor, P d ∧ d.mark = m

section Kept

variable {P : Cursor → Prop} {s s' : Session}

theorem cursor_mem_cursors (s : Session) : s.cursor ∈ s.cursors := List.get_mem _ _

theorem upholds_start {first : Source} {others : List Source}
    (h : ∀ x ∈ first :: others, P (.start x)) (o : Options) :
    Upholds P (start first others o) := by
  refine ⟨h, ?_, fun m hm => absurd hm List.not_mem_nil⟩
  intro c hc
  obtain ⟨x, hx, rfl⟩ := List.mem_map.mp hc
  exact h x hx

namespace Upholds

/-- The selected cursor has the property. -/
theorem cursor (h : Upholds P s) : P s.cursor := h.cursors _ s.cursor_mem_cursors

theorem moves (h : Upholds P s) (hP : Cursor.Stable P) {c : Cursor} (hc : s.Moves c) : P c := by
  cases hc with
  | pass hpass => exact hP.pass h.cursor hpass
  | passWhile hpass => exact hP.passWhile h.cursor hpass
  | openToken => exact hP.openToken h.cursor
  | rewind hm hback =>
    obtain ⟨d, hd, rfl⟩ := h.marks _ hm
    exact hP.rewind h.cursor hd hback
  | scan hscan => exact Keyword.stable_scan hP h.cursor hscan

/-- **Every change keeps a stable property.** -/
theorem change (h : Upholds P s) (hP : Cursor.Stable P) (hs : s.Change s') : Upholds P s' := by
  cases hs with
  | nothing => exact h
  | select i hi => exact ⟨h.start, h.cursors, h.marks⟩
  | @add c hc =>
    refine ⟨h.start, ?_, h.marks⟩
    intro d hd
    rcases List.mem_append.mp hd with hd | hd
    · exact h.cursors d hd
    · rw [List.mem_singleton.mp hd]
      rcases hc with rfl | ⟨x, hx, rfl⟩
      · exact h.cursor
      · exact h.start x hx
  | @move c hc =>
    refine ⟨h.start, ?_, h.marks⟩
    intro d hd
    rcases List.mem_or_eq_of_mem_set hd with hd | rfl
    · exact h.cursors d hd
    · exact h.moves hP hc
  | mark =>
    refine ⟨h.start, h.cursors, ?_⟩
    intro m hm
    rcases List.mem_append.mp hm with hm | hm
    · exact h.marks m hm
    · exact ⟨s.cursor, h.cursor, (List.mem_singleton.mp hm).symm⟩
  | renew scanner => exact ⟨h.start, h.cursors, h.marks⟩

/-- Every step keeps a stable property. -/
theorem step (h : Upholds P s) (hP : Cursor.Stable P) (step : Step) :
    Upholds P (s.step step).1 :=
  h.change hP (s.change_step step)

/-- **So does every run.** -/
theorem run (h : Upholds P s) (hP : Cursor.Stable P) (steps : List Step) :
    Upholds P (s.run steps).2 := by
  induction steps generalizing s with
  | nil => exact h
  | cons step rest ih =>
    rw [run_cons]
    exact ih (h.step hP step)

end Upholds

end Kept

/-- An answer in a run is the reply to one of its steps, in the session to which the steps
before that one have led. -/
theorem exists_step_of_mem_run {s : Session} {steps : List Step} {a : Answer}
    (ha : a ∈ (s.run steps).1) :
    ∃ front step back, steps = front ++ step :: back ∧
      a.reply = ((s.run front).2.step step).2 := by
  induction steps generalizing s with
  | nil => cases ha
  | cons step rest ih =>
    rw [run_cons] at ha
    rcases List.mem_cons.mp ha with rfl | ha
    · exact ⟨[], step, rest, rfl, rfl⟩
    · obtain ⟨front, later, back, rfl, hreply⟩ := ih ha
      exact ⟨step :: front, later, back, rfl, hreply⟩

/-! ### Faults -/

/-- The steps that a session refuses, and for which fault. -/
inductive Refuses (s : Session) : Step → Fault → Prop where
  /-- A mark past the end of the source. -/
  | mark {i : Nat} {m : Mark} (hm : s.marks[i]? = some m)
    (hlt : s.cursor.source.size < m.pos) :
    Refuses s (.rewind i) (.markPastSource m.pos s.cursor.source.size)
  /-- A part of the text that ends past the end of the source. -/
  | stop {start stop : Nat} (hlt : s.cursor.source.size < stop) :
    Refuses s (.between start stop) (.endPastSource stop s.cursor.source.size)
  /-- A part of the text that starts after its end. -/
  | start {start stop : Nat} (hle : stop ≤ s.cursor.source.size) (hlt : stop < start) :
    Refuses s (.between start stop) (.startPastEnd start stop)
  /-- A part of the text up to the cursor that starts after it. -/
  | since {start : Nat} (hlt : s.cursor.pos < start) :
    Refuses s (.since start) (.startPastEnd start s.cursor.pos)

section Faults

variable {s : Session} {f : Fault}

theorem move_eq_fault_iff {moved : Checked Cursor} :
    (s.move moved).2 = .fault f ↔ moved = .error f := by
  cases moved <;> simp [move]

theorem tell_eq_fault_iff {text : Checked String} :
    (s.tell text).2 = .fault f ↔ text = .error f := by
  cases text <;> simp [tell]

theorem scan_ne_fault (h : s.cursor.InBounds) (wanted : KindSet) :
    (s.scanned (s.scanner.scan wanted s.cursor)).2 ≠ .fault f := by
  obtain ⟨t, last, hscan⟩ := Keyword.exists_scan h s.scanner.options wanted
  rw [Scanner.scan, hscan]
  exact Reply.noConfusion

/-- What a session refuses is a fault. -/
theorem Refuses.step_eq {step : Step} (h : s.Refuses step f)
    (hpos : s.cursor.pos ≤ s.cursor.source.size) : (s.step step).2 = .fault f := by
  cases h with
  | @mark i m hm hlt =>
    simp only [Session.step, hm]
    exact move_eq_fault_iff.mpr (Cursor.rewind_eq_error_iff.mpr ⟨hlt, rfl⟩)
  | stop hlt => exact tell_eq_fault_iff.mpr (Cursor.between_eq_error_iff.mpr (.inl ⟨hlt, rfl⟩))
  | start hle hlt => exact tell_eq_fault_iff.mpr (Cursor.between_eq_error_iff.mpr (.inr ⟨hle, hlt, rfl⟩))
  | since hlt => exact tell_eq_fault_iff.mpr (Cursor.between_eq_error_iff.mpr (.inr ⟨hpos, hlt, rfl⟩))

/-- Nothing else is a fault when the selected cursor is in bounds. -/
theorem refuses_of_step_eq (h : s.cursor.InBounds) {step : Step}
    (hf : (s.step step).2 = .fault f) : s.Refuses step f := by
  cases step with
  | use i =>
    rw [Session.step] at hf
    split at hf <;> cases hf
  | copy => cases hf
  | fresh i =>
    rw [Session.step] at hf
    split at hf <;> cases hf
  | pass part =>
    obtain ⟨c, hc⟩ := Cursor.exists_pass h.fits part
    rw [Session.step, move_eq_fault_iff, hc] at hf
    cases hf
  | passWhile part p =>
    obtain ⟨c, hc⟩ := Cursor.exists_passWhile h.fits part p
    rw [Session.step, move_eq_fault_iff, hc] at hf
    cases hf
  | openToken => cases hf
  | span =>
    simp only [Session.step, h.length_span] at hf
    cases hf
  | lexeme =>
    rw [Session.step, tell_eq_fault_iff, h.lexeme] at hf
    cases hf
  | between start stop =>
    rw [Session.step, tell_eq_fault_iff, Cursor.between_eq_error_iff] at hf
    rcases hf with ⟨hlt, rfl⟩ | ⟨hle, hlt, rfl⟩
    · exact .stop hlt
    · exact .start hle hlt
  | since start =>
    rw [Session.step, tell_eq_fault_iff, Cursor.since, Cursor.between_eq_error_iff] at hf
    rcases hf with ⟨hlt, -⟩ | ⟨-, hlt, rfl⟩
    · exact absurd h.pos_le (Nat.not_le.mpr hlt)
    · exact .since hlt
  | mark => cases hf
  | rewind i =>
    rw [Session.step] at hf
    split at hf
    · next m hm =>
      rw [move_eq_fault_iff, Cursor.rewind_eq_error_iff] at hf
      obtain ⟨hlt, rfl⟩ := hf
      exact .mark hm hlt
    · cases hf
  | sameMark i j =>
    rw [Session.step] at hf
    split at hf <;> cases hf
  | scan wanted => exact absurd hf (scan_ne_fault h wanted)
  | scanTable table =>
    rw [Session.step, Scanner.scanTable] at hf
    cases hwanted : KindSet.ofTable table with
    | error reason =>
      rw [hwanted] at hf
      cases hf
    | ok wanted =>
      rw [hwanted] at hf
      exact absurd hf (scan_ne_fault h wanted)
  | save buffer => cases hf
  | load bytes => cases hf
  | renewScanner options => cases hf

@[simp] theorem tell_fst (s : Session) (text : Checked String) : (s.tell text).1 = s := by
  cases text <;> rfl

theorem move_eq_self_of_fault {moved : Checked Cursor} (hf : (s.move moved).2 = .fault f) :
    (s.move moved).1 = s := by
  rw [move_eq_fault_iff.mp hf]
  rfl

/-- What a session refuses leaves it as it was. -/
theorem Refuses.step_eq_self {step : Step} (h : s.Refuses step f)
    (hf : (s.step step).2 = .fault f) : (s.step step).1 = s := by
  cases h with
  | @mark i m hm hlt =>
    simp only [Session.step, hm] at hf ⊢
    exact move_eq_self_of_fault hf
  | stop hlt => exact tell_fst s _
  | start hle hlt => exact tell_fst s _
  | since hlt => exact tell_fst s _

end Faults

/-! ### Every run -/

/-- In a session on any sources, all cursors are in bounds. -/
theorem upholds_inBounds {first : Source} {others : List Source}
    (hfits : ∀ x ∈ first :: others, x.text.utf8ByteSize ≤ maxOffset) (o : Options)
    (steps : List Step) :
    Upholds Cursor.InBounds ((start first others o).run steps).2 := by
  apply Upholds.run _ Cursor.stable_inBounds
  apply upholds_start
  intro x hx
  exact (Cursor.onBoundaries_start (hfits x hx)).toInBounds

/-- **In every session, only what names a wrong place is a fault.**  After any run on
sources that offsets can count, all cursors are in bounds, so that each has a token with a
length and a text.  A step is a fault exactly if the session refuses it: if it goes back to
a mark past the end of the source, or asks for a part of the text by offsets that make up
none.  Such a step changes nothing. -/
theorem run_refuses_exactly {first : Source} {others : List Source}
    (hfits : ∀ x ∈ first :: others, x.text.utf8ByteSize ≤ maxOffset) (o : Options)
    (steps : List Step) :
    let s := ((start first others o).run steps).2
    (∀ c ∈ s.cursors, c.tokenStart ≤ c.pos ∧ c.pos ≤ c.source.size ∧
      c.span.length = .ok (c.pos - c.tokenStart) ∧ ∃ text, c.lexeme = .ok text) ∧
    (∀ step f, (s.step step).2 = .fault f ↔ s.Refuses step f) ∧
    ∀ step f, (s.step step).2 = .fault f → (s.step step).1 = s := by
  intro s
  have hs : Upholds Cursor.InBounds s := upholds_inBounds hfits o steps
  refine ⟨?_, ?_, ?_⟩
  · intro c hc
    have hin := hs.cursors c hc
    exact ⟨hin.start_le, hin.pos_le, hin.length_span, _, hin.lexeme⟩
  · intro step f
    constructor
    · exact refuses_of_step_eq hs.cursor
    · intro h
      exact h.step_eq hs.cursor.pos_le
  · intro step f hf
    exact (refuses_of_step_eq hs.cursor hf).step_eq_self hf

/-- A mark from a longer source leads into a character of a shorter one, and another mark
past its end. -/
theorem run_refuses_exactly_foreign_mark :
    let steps : List Step :=
      [.pass .content, .mark, .pass .content, .pass .content, .mark, .use 1, .rewind 0]
    (∀ x ∈ [(⟨"abc"⟩ : Source), ⟨"é"⟩], x.text.utf8ByteSize ≤ maxOffset) ∧
    ∃ s, ((start ⟨"abc"⟩ [⟨"é"⟩] {}).run steps).2 = s ∧
      s.cursor = ⟨⟨"é"⟩, 1, 0⟩ ∧ ¬ s.cursor.source.IsBoundary s.cursor.pos ∧
      (∃ text, s.cursor.lexeme = .ok text) ∧
      (s.step (.rewind 1)).2 = .fault (.markPastSource 3 2) ∧ (s.step (.rewind 1)).1 = s := by
  intro steps
  have hfits : ∀ x ∈ [(⟨"abc"⟩ : Source), ⟨"é"⟩], x.text.utf8ByteSize ≤ maxOffset := by decide
  have hcursor : ((start ⟨"abc"⟩ [⟨"é"⟩] {}).run steps).2.cursor = ⟨⟨"é"⟩, 1, 0⟩ := by
    decide +kernel
  have hmark : ((start ⟨"abc"⟩ [⟨"é"⟩] {}).run steps).2.marks[1]? = some ⟨3, 0⟩ := by
    decide +kernel
  obtain ⟨hcursors, hfault, hself⟩ := run_refuses_exactly hfits {} steps
  refine ⟨hfits, _, rfl, hcursor, by rw [hcursor]; decide +kernel, ?_, ?_⟩
  · exact (hcursors _ (cursor_mem_cursors _)).2.2.2
  · have hrefused : ((start ⟨"abc"⟩ [⟨"é"⟩] {}).run steps).2.Refuses (.rewind 1)
        (.markPastSource 3 2) := by
      have h := Refuses.mark hmark (by rw [hcursor]; decide)
      rwa [hcursor] at h
    have hf := (hfault _ _).mpr hrefused
    exact ⟨hf, hself _ _ hf⟩

/-! ### Every run on one text -/

/-- Does the step ask for a part of the text by offsets that the host has made up? -/
def Step.namesOffset : Step → Bool
  | .between .. => true
  | .since .. => true
  | _ => false

/-- In a session on one text, all cursors are between its characters. -/
theorem upholds_onBoundaries {text : String} (hfits : text.utf8ByteSize ≤ maxOffset)
    (o : Options) (steps : List Step) :
    Upholds (fun c => c.source = ⟨text⟩ ∧ c.OnBoundaries)
      ((start ⟨text⟩ [] o).run steps).2 := by
  apply Upholds.run _ (Cursor.stable_onBoundaries ⟨text⟩)
  apply upholds_start
  intro x hx
  rw [List.mem_singleton.mp hx]
  exact ⟨rfl, Cursor.onBoundaries_start hfits⟩

/-- Where all cursors are on one source, no mark lies past its end. -/
theorem Upholds.step_ne_fault {x : Source} {s : Session} {step : Step}
    (h : Upholds (fun c => c.source = x ∧ c.OnBoundaries) s) (hstep : step.namesOffset = false)
    (f : Fault) : (s.step step).2 ≠ .fault f := by
  intro hf
  obtain ⟨hx, hcursor⟩ := h.cursor
  cases refuses_of_step_eq hcursor.toInBounds hf with
  | @mark i m hm hlt =>
    obtain ⟨d, ⟨hd, hon⟩, rfl⟩ := h.marks m (List.mem_of_getElem? hm)
    have hle := hon.pos_le
    rw [hd, ← hx] at hle
    exact absurd hle (Nat.not_le.mpr hlt)
  | stop => cases hstep
  | start => cases hstep
  | since => cases hstep

/-- **In a session on one text, everything stays between characters.**  After any run, every
cursor and the start of its token are on boundaries of the text, and the text of the token
is just what stands between them.  No step is a fault but one that names offsets, so that
there is no fault at all in a run without such steps. -/
theorem run_stays_between_characters {text : String} (hfits : text.utf8ByteSize ≤ maxOffset)
    (o : Options) (steps : List Step) :
    let run := (start ⟨text⟩ [] o).run steps
    (∀ c ∈ run.2.cursors, c.source = ⟨text⟩ ∧
      c.tokenStart ≤ c.pos ∧ c.pos ≤ c.source.size ∧
      c.source.IsBoundary c.tokenStart ∧ c.source.IsBoundary c.pos ∧
      c.span.length = .ok (c.pos - c.tokenStart) ∧
      ∃ part, c.source.between? c.tokenStart c.pos = some part ∧ c.lexeme = .ok part ∧
        part.toByteArray = text.toByteArray.extract c.tokenStart c.pos) ∧
    (∀ step, step.namesOffset = false → ∀ f, (run.2.step step).2 ≠ .fault f) ∧
    ((∀ step ∈ steps, step.namesOffset = false) → ∀ a ∈ run.1, ∀ f, a.reply ≠ .fault f) := by
  intro run
  have hrun := upholds_onBoundaries hfits o steps
  refine ⟨?_, ?_, ?_⟩
  · intro c hc
    obtain ⟨hsource, hon⟩ := hrun.cursors c hc
    obtain ⟨part, hpart, hlexeme, hbytes⟩ := hon.lexeme
    rw [hsource] at hbytes
    exact ⟨hsource, hon.start_le, hon.pos_le, hon.isBoundary_start, hon.isBoundary_pos,
      hon.length_span, part, hpart, hlexeme, hbytes⟩
  · intro step hstep f
    exact hrun.step_ne_fault hstep f
  · intro hsteps a ha f
    obtain ⟨front, step, back, rfl, hreply⟩ := exists_step_of_mem_run ha
    rw [hreply]
    exact (upholds_onBoundaries hfits o front).step_ne_fault (hsteps step (by simp)) f

/-- A scan behind a character of two bytes, on a copy of the cursor, and a way back. -/
theorem run_stays_between_characters_rewind :
    let steps : List Step :=
      [.pass .content, .mark, .copy, .use 1, .scan .keywords, .lexeme, .rewind 0, .lexeme]
    let run := (start ⟨"é ça:"⟩ [] {}).run steps
    "é ça:".utf8ByteSize ≤ maxOffset ∧ (∀ step ∈ steps, step.namesOffset = false) ∧
      run.2.cursors.map Cursor.mark = [⟨2, 0⟩, ⟨2, 0⟩] ∧
      run.1.map Answer.reply = [.done, .marked 0 2, .added 1, .done,
        .scanned (some ⟨.keyword, 3, 7⟩), .text "ça:", .done, .text "é"] ∧
      (∀ c ∈ run.2.cursors, c.source.IsBoundary c.tokenStart ∧ c.source.IsBoundary c.pos) ∧
      ∀ a ∈ run.1, ∀ f, a.reply ≠ .fault f := by
  intro steps run
  have hfits : "é ça:".utf8ByteSize ≤ maxOffset := by decide
  have hsteps : ∀ step ∈ steps, step.namesOffset = false := by simp [steps, Step.namesOffset]
  obtain ⟨hcursors, -, hfault⟩ := run_stays_between_characters hfits {} steps
  refine ⟨hfits, hsteps, by decide +kernel, by decide +kernel, ?_, hfault hsteps⟩
  intro c hc
  obtain ⟨-, -, -, hstart, hpos, -⟩ := hcursors c hc
  exact ⟨hstart, hpos⟩

end Session

end SelectorLexer
