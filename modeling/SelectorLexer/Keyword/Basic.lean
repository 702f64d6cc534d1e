import SelectorLexer.Alphabet
import SelectorLexer.Cursor.Run
import SelectorLexer.Token.KindSet

/-!
# Scanning for a keyword

A keyword is a name and the colon right after it, as `at:` in `at:put:`.  One more
character has to be looked at, because in `x:=1` the colon belongs to the assignment
sign `:=`; an `=` after the colon makes the name an ordinary one.

A scan first drops blanks and opens a token at what follows, and those blanks stay
dropped whatever is found.  If a name starts there it is probed: the cursor passes the
name, and the colon if there is one.  When the probe finds a keyword the cursor stays
after the colon.  Otherwise the options say whether it stays where the probe ended or
goes back to the start of the name.

Nothing is read at all when the host cannot use a keyword.

## Main definitions

* `FailurePolicy`, `Options` — how a scan is set up.
* `Keyword.probe` — past a name and the colon after it.
* `Keyword.giveUp` — where a name that is no keyword leaves the cursor.
* `Keyword.scan` — the scan.
-/

namespace SelectorLexer

/-! ### Options -/

/-- What becomes of a name that is not a keyword. -/
inductive FailurePolicy where
  /-- The cursor goes back to the start of the name. -/
  | goBack : FailurePolicy
  /-- The cursor stays where the name was found not to be a keyword. -/
  | stay : FailurePolicy
  deriving DecidableEq, Repr, Inhabited

/-- How a scanner is set up. -/
structure Options where
  /-- What becomes of a name that is not a keyword. -/
  onFailure : FailurePolicy := .goBack
  /-- The letters and digits of names. -/
  alphabet : Alphabet := .unicode
  deriving DecidableEq, Repr, Inhabited

/-! ### The scan -/

namespace Keyword

/-- Pass the name that starts here, and the colon after it.  The name is a keyword when
there is a colon and no `=` follows it. -/
def probe (a : Alphabet) (c : Cursor) : Checked (Bool × Cursor) := do
  let first ← c.pass .content
  let name ← first.passWhile .content a.isContinue
  if name.peek = ':' then
    let colon ← name.pass .content
    return (colon.peek != '=', colon)
  else
    return (false, name)

/-- Where a name that is no keyword leaves the cursor: at the mark before the name, or
where its probe ended. -/
def giveUp (policy : FailurePolicy) (before : Mark) (c : Cursor) : Checked Cursor :=
  match policy with
  | .goBack => c.rewind before
  | .stay => .ok c

/-- Scan for a keyword at the cursor, if it is one of the kinds wanted.  The answer is the
token, if there is one, and where the cursor is left. -/
def scan (o : Options) (wanted : KindSet) (c : Cursor) : Checked (Option Token × Cursor) :=
  if wanted.contains .keyword then do
    let name ← c.openToken.passWhile .trivia isBlank
    if o.alphabet.isStart name.peek then
      let (found, last) ← probe o.alphabet name
      if found then
        return (some ⟨.keyword, last.span⟩, last)
      else
        return (none, ← giveUp o.onFailure name.mark last)
    else
      return (none, name)
  else
    .ok (none, c)

theorem scan_of_not_contains {wanted : KindSet} (h : wanted.contains .keyword = false)
    (o : Options) (c : Cursor) : scan o wanted c = .ok (none, c) := by
  simp [scan, h]

end Keyword

end SelectorLexer
