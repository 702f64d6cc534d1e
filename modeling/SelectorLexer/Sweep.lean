import SelectorLexer.Keyword.Progress

/-!
# Sweeping a text for keywords

A host that cannot use the tokens of other kinds sweeps over the text: it scans for a
keyword, and where there is none it passes one more character and scans again.  What it
finds is noted in order, the misses as well as the keywords, so that there is one entry
for each scan.

## Main definitions

* `Finding` — what one scan of a sweep comes to.
* `sweep` — all findings from a cursor to the end of its source.
* `Finding.token?`, `Finding.miss?` — the two kinds of findings apart.
-/

namespace SelectorLexer

/-- What one scan of a sweep comes to. -/
inductive Finding where
  /-- A keyword, and the text that the cursor had read for it. -/
  | keyword (token : Token) (text : String) : Finding
  /-- No keyword; the span leads from the start of the token to where the scan ended. -/
  | miss (span : Span) : Finding
  deriving DecidableEq, Repr

/-- The keyword of a finding, with its text. -/
def Finding.token? : Finding → Option (Token × String)
  | keyword token text => some (token, text)
  | miss _ => none

/-- The span of a finding that is a miss. -/
def Finding.miss? : Finding → Option Span
  | keyword .. => none
  | miss span => some span

/-- A scan and one step lead forward from every place before the end: if the scan stayed
there, the step does not. -/
theorem remaining_lt_of_miss {o : Options} {c last next : Cursor} {t : Option Token}
    (hend : c.atEnd = false) (hscan : Keyword.scan o .keywords c = .ok (t, last))
    (hpass : last.pass .trivia = .ok next) : next.remaining < c.remaining := by
  have hsource := Keyword.source_of_scan hscan
  have hle := Keyword.pos_le_of_scan hscan
  have hsize := Cursor.atEnd_eq_false_iff.1 hend
  have hnext := Cursor.source_of_pass hpass
  cases hlast : last.atEnd with
  | true =>
    rw [Cursor.pass_of_atEnd hlast] at hpass
    cases hpass
    rw [Cursor.atEnd_iff] at hlast
    rw [Cursor.remaining, Cursor.remaining]
    omega
  | false =>
    have hlt := Cursor.pos_lt_of_pass hlast hpass
    rw [Cursor.remaining, Cursor.remaining, hnext, hsource]
    omega

/-- Scan for keywords from a cursor to the end of its source.  After a scan in vain the
next character is dropped. -/
def sweep (o : Options) (c : Cursor) : Checked (List Finding) :=
  if hend : c.atEnd = true then
    .ok []
  else
    match hscan : Keyword.scan o .keywords c with
    | .error fault => .error fault
    | .ok (some t, next) => do
      have := Keyword.remaining_lt_of_scan hscan
      let text ← next.lexeme
      return .keyword t text :: (← sweep o next)
    | .ok (none, last) =>
      match hpass : last.pass .trivia with
      | .error fault => .error fault
      | .ok next => do
        have := remaining_lt_of_miss (Bool.eq_false_iff.2 hend) hscan hpass
        return .miss last.span :: (← sweep o next)
termination_by c.remaining

end SelectorLexer
