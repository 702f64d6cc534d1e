import SelectorLexer.Token

/-!
# Events

What is worth telling an observer while selectors are read.  An event says what
happened; its level says how much it matters, and its message names it for a log.

## Main definitions

* `Event` — what can happen.
* `Event.level`, `Event.message` — how an event appears in a log.
-/

namespace SelectorLexer

/-- How much an event matters. -/
inductive Level where
  /-- A result. -/
  | debug : Level
  /-- A step on the way to one. -/
  | trace : Level
  deriving DecidableEq, Repr

/-- The name of a level in a log. -/
def Level.name : Level → String
  | debug => "DEBUG"
  | trace => "TRACE"

/-- What can happen while selectors are read. -/
inductive Event where
  /-- A segment of a selector was found, with this text and at this place. -/
  | segmentRead (kind : TokenKind) (text : String) (span : Span) : Event
  /-- A selector with this name and this number of arguments was read to its end. -/
  | selectorRead (name : String) (arity : Nat) : Event
  /-- A snapshot of `size` bytes was handed to a scanner that has nothing to restore. -/
  | snapshotIgnored (size : Nat) : Event
  deriving DecidableEq, Repr

namespace Event

/-- How much an event matters. -/
def level : Event → Level
  | segmentRead .. => .trace
  | selectorRead .. => .debug
  | snapshotIgnored .. => .trace

/-- The message of an event in a log. -/
def message : Event → String
  | segmentRead .. => "keyword segment"
  | selectorRead .. => "parsed keyword selector"
  | snapshotIgnored .. => "ignoring non-empty keyword scanner snapshot"

end Event

end SelectorLexer
