import SelectorLexer.Event
import SelectorLexer.Keyword.Basic

/-!
# The scanner of a host

A host parser drives a scanner through a fixed set of requests.  It creates one, asks it
to scan at a cursor, and takes a snapshot of its state between tokens so that it can go
back to it.  A keyword scanner keeps no state between scans.  Its snapshot is empty, and
there is nothing to restore from one.

## Main definitions

* `Scanner`, `Scanner.initial` — a scanner, and the one a host starts with.
* `Scanner.scan`, `Scanner.scanTable` — a scan for the kinds of a set or of a table.
* `Scanner.save`, `Scanner.load` — saving and restoring its state.
-/

namespace SelectorLexer

/-- A scanner for keywords. -/
structure Scanner where
  /-- How it is set up. -/
  options : Options := {}
  deriving DecidableEq, Repr, Inhabited

namespace Scanner

/-- The scanner that a host starts with. -/
def initial : Scanner := {}

/-- The number of bytes that a host keeps ready for a snapshot. -/
def snapshotCapacity : Nat := 1024

/-- The state of a scanner between two scans: there is none. -/
def snapshot (_ : Scanner) : List UInt8 := []

/-- Write the snapshot to the front of a buffer.  The answer is the number of bytes written,
and the buffer afterwards. -/
def save (s : Scanner) (buffer : List UInt8) : Nat × List UInt8 :=
  (s.snapshot.length, s.snapshot ++ buffer.drop s.snapshot.length)

/-- Restore the state from a snapshot.  As there is no state, one that holds anything is
ignored, and an event tells so. -/
def load (s : Scanner) (bytes : List UInt8) : Scanner × List Event :=
  (s, if bytes.isEmpty then [] else [.snapshotIgnored bytes.length])

/-- Scan for one of the kinds wanted. -/
def scan (s : Scanner) (wanted : KindSet) (c : Cursor) : Checked (Option Token × Cursor) :=
  Keyword.scan s.options wanted c

/-- Scan for one of the kinds that are true in a table.  A table that is too short is
refused before anything is read. -/
def scanTable (s : Scanner) (table : List Bool) (c : Cursor) :
    Except ShortTable (Checked (Option Token × Cursor)) :=
  (KindSet.ofTable table).map fun wanted => s.scan wanted c

@[simp] theorem save_eq (s : Scanner) (buffer : List UInt8) :
    s.save buffer = (0, buffer) := rfl

@[simp] theorem load_fst (s : Scanner) (bytes : List UInt8) :
    (s.load bytes).1 = s := rfl

end Scanner

end SelectorLexer
