import SelectorLexer.Event
import SelectorLexer.Keyword.Progress

/-!
# Keyword selectors

A keyword selector such as `at:put:` is a sequence of keywords, with blanks allowed
around them.  Its canonical name is its keywords written together, and it takes one
argument for each of them.

A text is read as a selector by scanning for keywords up to the first scan that finds
none.  The text is a selector if that scan came to the end and left nothing unread, and
if there was a keyword at all.  A text with a flaw is no selector, whatever else stands
in it: a byte order mark is not a blank, and a null byte would read as the end.

## Main definitions

* `Selector`, `Selector.parts`, `Selector.name`, `Selector.arity` — a selector in the
  text that it was read from.
* `Rejection` — why a text is no selector.
* `Selector.readSegments` — all keywords from a cursor on.
* `Selector.parse` — reading a text, with the events on the way.
-/

namespace SelectorLexer

/-- A keyword selector, in the text that it was read from. -/
structure Selector where
  /-- The text. -/
  source : Source
  /-- The keywords, in the order of the text. -/
  segments : List Token
  deriving DecidableEq, Repr

/-- Why a text is no selector. -/
inductive Rejection where
  /-- The text starts with a byte order mark. -/
  | byteOrderMark : Rejection
  /-- There is a null byte at `pos`. -/
  | nullByte (pos : Nat) : Rejection
  /-- There is no keyword. -/
  | noSegment : Rejection
  /-- What stands at `pos` is no keyword. -/
  | notKeyword (pos : Nat) : Rejection
  deriving DecidableEq, Repr

namespace Rejection

/-- The wording of a rejection. -/
def message : Rejection → String
  | byteOrderMark => "selector starts with a byte order mark"
  | nullByte pos => s!"null byte in selector at byte {pos}"
  | noSegment => "empty keyword selector"
  | notKeyword pos => s!"expected keyword segment at byte {pos}"

/-- A text is rejected for a flaw that it has. -/
def ofFlaw : Flaw → Rejection
  | .byteOrderMark => byteOrderMark
  | .nullByte pos => nullByte pos

end Rejection

namespace Selector

/-! ### A selector -/

/-- The text of a token, if its span is a part of the source. -/
def part? (s : Selector) (t : Token) : Option String :=
  s.source.between? t.span.start t.span.stop

/-- The keywords as texts, each with its colon. -/
def parts (s : Selector) : List String := s.segments.map fun t => (s.part? t).getD ""

/-- The canonical name: the keywords, written together. -/
def name (s : Selector) : String := String.join s.parts

/-- The number of arguments: one for each keyword. -/
def arity (s : Selector) : Nat := s.segments.length

@[simp] theorem length_parts (s : Selector) : s.parts.length = s.arity := by
  simp [parts, arity]

/-! ### Reading one -/

/-- A keyword as it was found by a scan: the token, and the text that the cursor had read
for it. -/
structure Segment where
  /-- The token. -/
  token : Token
  /-- The text from the start of the token to the cursor. -/
  text : String
  deriving DecidableEq, Repr

/-- The event that tells of a segment. -/
def Segment.event (s : Segment) : Event := .segmentRead s.token.kind s.text s.token.span

/-- The event that tells of a selector. -/
def event (s : Selector) : Event := .selectorRead s.name s.arity

/-- The keywords from a cursor on, up to the first scan that finds none, and where that
scan leaves the cursor. -/
def readSegments (o : Options) (c : Cursor) : Checked (List Segment × Cursor) :=
  match h : Keyword.scan o .keywords c with
  | .error fault => .error fault
  | .ok (none, last) => .ok ([], last)
  | .ok (some t, next) => do
    have := Keyword.remaining_lt_of_scan h
    let text ← next.lexeme
    let (rest, last) ← readSegments o next
    return (⟨t, text⟩ :: rest, last)
termination_by c.remaining

/-- What came of reading a text. -/
structure Parse where
  /-- The selector, or why there is none. -/
  outcome : Except Rejection Selector
  /-- The events, in the order in which they happened. -/
  events : List Event

/-- Read a text as a keyword selector. -/
def parse (text : String) (o : Options) : Checked Parse :=
  let source : Source := ⟨text⟩
  match source.flaws with
  | flaw :: _ => .ok ⟨.error (.ofFlaw flaw), []⟩
  | [] => do
    let (found, last) ← readSegments o (.start source)
    let events := found.map Segment.event
    if last.atEnd && last.span.isEmpty then
      match found with
      | [] => return ⟨.error .noSegment, events⟩
      | _ :: _ =>
        let selector : Selector := ⟨source, found.map Segment.token⟩
        return ⟨.ok selector, events ++ [selector.event]⟩
    else
      return ⟨.error (.notKeyword last.tokenStart), events⟩

end Selector

end SelectorLexer
