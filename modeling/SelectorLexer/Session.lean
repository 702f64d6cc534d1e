import SelectorLexer.Scanner

/-!
# Sessions

A session is a host at work: some sources, cursors on them, marks taken from the cursors,
and a scanner.  The host acts in steps on the cursor that is selected, and gets a reply
to each step.  A step that names a cursor, a source or a mark that the session does not
have changes nothing, and the session goes on.

So it does after a fault.  Most steps find a fault before they do anything.  A run or a
scan may have come some way when it forms a sum of offsets that is too large, on a source
that is longer than offsets can count.  The host does not take this over: it keeps the
cursor as it was before the step.

Marks belong to no source.  A mark may be taken on one source and go back on another.

## Main definitions

* `Session`, `Session.start` — the state of a host, and the first one.
* `Session.Step`, `Session.Reply` — what a host can do, and what it is told.
* `Session.step`, `Session.run` — one step and a sequence of steps.
* `Cursor.View` — what a host sees of a cursor.
-/

namespace SelectorLexer

/-- What a host sees of a cursor. -/
structure Cursor.View where
  /-- The offset of the cursor. -/
  pos : Nat
  /-- The offset where its token starts. -/
  tokenStart : Nat
  /-- Whether there is nothing more to read. -/
  atEnd : Bool
  /-- The character that is read next. -/
  peek : Char
  /-- The byte that is read next. -/
  byte : UInt8
  deriving DecidableEq, Repr

/-- What a host sees of a cursor. -/
def Cursor.view (c : Cursor) : View := ⟨c.pos, c.tokenStart, c.atEnd, c.peek, c.byte⟩

/-- The state of a host. -/
structure Session where
  /-- The sources that it reads. -/
  sources : List Source
  /-- Its cursors. -/
  cursors : List Cursor
  /-- The cursor that it works with, by its place in the list. -/
  selected : Nat
  /-- There is such a cursor. -/
  selected_lt : selected < cursors.length
  /-- The marks that it took. -/
  marks : List Mark
  /-- Its scanner. -/
  scanner : Scanner

namespace Session

/-- A session starts with a cursor at the start of each source, the first one selected. -/
def start (first : Source) (others : List Source) (o : Options) : Session where
  sources := first :: others
  cursors := (first :: others).map Cursor.start
  selected := 0
  selected_lt := by simp
  marks := []
  scanner := ⟨o⟩

/-! ### Steps and replies -/

/-- What a host can do. -/
inductive Step where
  /-- Select another cursor. -/
  | use (cursor : Nat) : Step
  /-- Add a copy of the selected cursor. -/
  | copy : Step
  /-- Add a cursor at the start of a source. -/
  | fresh (source : Nat) : Step
  /-- Pass the next character. -/
  | pass (part : Part) : Step
  /-- Pass the characters that satisfy a predicate. -/
  | passWhile (part : Part) (p : Char → Bool) : Step
  /-- Let the token start at the cursor. -/
  | openToken : Step
  /-- Ask for the span of the token and its length. -/
  | span : Step
  /-- Ask for the text of the token. -/
  | lexeme : Step
  /-- Ask for the text between two offsets. -/
  | between (start stop : Nat) : Step
  /-- Ask for the text from an offset to the cursor. -/
  | since (start : Nat) : Step
  /-- Take a mark. -/
  | mark : Step
  /-- Go back to a mark. -/
  | rewind (mark : Nat) : Step
  /-- Ask whether two marks are the same. -/
  | sameMark (first second : Nat) : Step
  /-- Scan for one of the kinds wanted. -/
  | scan (wanted : KindSet) : Step
  /-- Scan for one of the kinds that are true in a table. -/
  | scanTable (table : List Bool) : Step
  /-- Save the state of the scanner in a buffer. -/
  | save (buffer : List UInt8) : Step
  /-- Restore the state of the scanner. -/
  | load (bytes : List UInt8) : Step
  /-- Replace the scanner. -/
  | renewScanner (options : Options) : Step

/-- What a host is told. -/
inductive Reply where
  /-- The step was done, and there is nothing to tell. -/
  | done : Reply
  /-- There is no cursor, source or mark of that number. -/
  | unknown : Reply
  /-- A cursor was added at this place in the list. -/
  | added (cursor : Nat) : Reply
  /-- The span of the token, and its length. -/
  | span (span : Span) (length : Nat) : Reply
  /-- A text. -/
  | text (text : String) : Reply
  /-- A mark at `pos` was added at this place in the list. -/
  | marked (mark pos : Nat) : Reply
  /-- Whether the marks are the same. -/
  | same (equal : Bool) : Reply
  /-- The token that a scan found, if any. -/
  | scanned (token : Option Token) : Reply
  /-- The table was too short. -/
  | refused (reason : ShortTable) : Reply
  /-- The number of bytes written, and the buffer afterwards. -/
  | saved (written : Nat) (buffer : List UInt8) : Reply
  /-- Whether the scanner is what it was, and what was told to the observer. -/
  | loaded (unchanged : Bool) (events : List Event) : Reply
  /-- The step met a fault. -/
  | fault (fault : Fault) : Reply
  deriving DecidableEq, Repr

/-! ### The selected cursor -/

/-- The cursor that the session works with. -/
def cursor (s : Session) : Cursor := s.cursors.get ⟨s.selected, s.selected_lt⟩

/-- The session with another cursor in the place of the selected one. -/
def setCursor (s : Session) (c : Cursor) : Session where
  sources := s.sources
  cursors := s.cursors.set s.selected c
  selected := s.selected
  selected_lt := by simpa using s.selected_lt
  marks := s.marks
  scanner := s.scanner

/-- The session with one more cursor. -/
def addCursor (s : Session) (c : Cursor) : Session where
  sources := s.sources
  cursors := s.cursors ++ [c]
  selected := s.selected
  selected_lt := by have := s.selected_lt; simp; omega
  marks := s.marks
  scanner := s.scanner

@[simp] theorem cursor_setCursor (s : Session) (c : Cursor) : (s.setCursor c).cursor = c := by
  simp [cursor, setCursor]

@[simp] theorem setCursor_cursor (s : Session) : s.setCursor s.cursor = s := by
  simp [setCursor, cursor]

@[simp] theorem cursor_addCursor (s : Session) (c : Cursor) :
    (s.addCursor c).cursor = s.cursor := by
  simp [cursor, addCursor, List.getElem_append_left s.selected_lt]

/-! ### One step -/

/-- Move the selected cursor, unless that is a fault.  A step that has met one on its way
does not leave the cursor there. -/
def move (s : Session) : Checked Cursor → Session × Reply
  | .ok c => (s.setCursor c, .done)
  | .error fault => (s, .fault fault)

/-- Tell a text, unless asking for it is a fault. -/
def tell (s : Session) : Checked String → Session × Reply
  | .ok text => (s, .text text)
  | .error fault => (s, .fault fault)

/-- Tell what a scan found, and leave the selected cursor where the scan did. -/
def scanned (s : Session) : Checked (Option Token × Cursor) → Session × Reply
  | .ok (token, c) => (s.setCursor c, .scanned token)
  | .error fault => (s, .fault fault)

/-- Do one step.  After a fault the session is what it was before the step. -/
def step (s : Session) : Step → Session × Reply
  | .use i =>
    if h : i < s.cursors.length then ({ s with selected := i, selected_lt := h }, .done)
    else (s, .unknown)
  | .copy => (s.addCursor s.cursor, .added s.cursors.length)
  | .fresh i =>
    match s.sources[i]? with
    | some source => (s.addCursor (.start source), .added s.cursors.length)
    | none => (s, .unknown)
  | .pass part => s.move (s.cursor.pass part)
  | .passWhile part p => s.move (s.cursor.passWhile part p)
  | .openToken => s.move (.ok s.cursor.openToken)
  | .span =>
    match s.cursor.span.length with
    | .ok length => (s, .span s.cursor.span length)
    | .error fault => (s, .fault fault)
  | .lexeme => s.tell s.cursor.lexeme
  | .between start stop => s.tell (s.cursor.between start stop)
  | .since start => s.tell (s.cursor.since start)
  | .mark => ({ s with marks := s.marks ++ [s.cursor.mark] }, .marked s.marks.length s.cursor.pos)
  | .rewind i =>
    match s.marks[i]? with
    | some m => s.move (s.cursor.rewind m)
    | none => (s, .unknown)
  | .sameMark i j =>
    match s.marks[i]?, s.marks[j]? with
    | some m, some m' => (s, .same (m = m'))
    | _, _ => (s, .unknown)
  | .scan wanted => s.scanned (s.scanner.scan wanted s.cursor)
  | .scanTable table =>
    match s.scanner.scanTable table s.cursor with
    | .ok outcome => s.scanned outcome
    | .error reason => (s, .refused reason)
  | .save buffer =>
    let (written, buffer) := s.scanner.save buffer
    (s, .saved written buffer)
  | .load bytes =>
    let (scanner, events) := s.scanner.load bytes
    ({ s with scanner }, .loaded (scanner = s.scanner) events)
  | .renewScanner options => ({ s with scanner := ⟨options⟩ }, .done)

/-! ### A sequence of steps -/

/-- The reply to a step, and what the host sees of the selected cursor afterwards. -/
structure Answer where
  /-- The reply. -/
  reply : Reply
  /-- The view of the selected cursor. -/
  view : Cursor.View
  deriving DecidableEq, Repr

/-- Do steps one after the other.  The result is the answer to each, and the session
after the last one. -/
def run (s : Session) : List Step → List Answer × Session
  | [] => ([], s)
  | step :: rest =>
    let (next, reply) := s.step step
    let (answers, last) := next.run rest
    (⟨reply, next.cursor.view⟩ :: answers, last)

@[simp] theorem run_nil (s : Session) : s.run [] = ([], s) := rfl

theorem run_cons (s : Session) (step : Step) (rest : List Step) :
    s.run (step :: rest) =
      (⟨(s.step step).2, (s.step step).1.cursor.view⟩ :: ((s.step step).1.run rest).1,
        ((s.step step).1.run rest).2) := rfl

end Session

end SelectorLexer
