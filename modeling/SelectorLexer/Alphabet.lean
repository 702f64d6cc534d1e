import SelectorLexer.CodePoints.WhiteSpace
import SelectorLexer.CodePoints.Alphabetic
import SelectorLexer.CodePoints.Numeric

/-!
# Blanks and the characters of a name

A scan tells three kinds of characters apart: blanks, which may stand before a
token, the characters that start a name, and those that continue one.  Blanks are
the same everywhere.  What belongs to a name depends on an `Alphabet`: the letters
and digits of all scripts, or those of ASCII alone.  The underscore belongs to both
and starts a name as well as it continues one.

## Main definitions

* `isBlank` — the characters that may be dropped in front of a token.
* `Alphabet` — which letters and digits a name is made of.
* `Alphabet.isStart`, `Alphabet.isContinue` — the characters of a name.
-/

namespace SelectorLexer

/-- The blanks are the characters with the property White_Space. -/
def isBlank (c : Char) : Bool := CodePoints.whiteSpace.contains c.toNat

/-- The letters and digits that a name is made of. -/
inductive Alphabet where
  /-- The letters, marks and numbers of all scripts. -/
  | unicode : Alphabet
  /-- The letters and digits of ASCII. -/
  | ascii : Alphabet
  deriving DecidableEq, Repr, Inhabited

namespace Alphabet

/-- The letters of an alphabet. -/
def isLetter : Alphabet → Char → Bool
  | unicode, c => CodePoints.alphabetic.contains c.toNat
  | ascii, c => c.isAlpha

/-- The digits of an alphabet; in Unicode these are all characters that are numbers. -/
def isDigit : Alphabet → Char → Bool
  | unicode, c => CodePoints.numeric.contains c.toNat
  | ascii, c => c.isDigit

/-- A name starts with a letter or an underscore. -/
def isStart (a : Alphabet) (c : Char) : Bool := c == '_' || a.isLetter c

/-- A name goes on with what may start it, and with digits. -/
def isContinue (a : Alphabet) (c : Char) : Bool := a.isStart c || a.isDigit c

theorem isContinue_of_isStart {a : Alphabet} {c : Char} (h : a.isStart c = true) :
    a.isContinue c = true := by
  simp [isContinue, h]

@[simp] theorem isStart_underscore (a : Alphabet) : a.isStart '_' = true := rfl

@[simp] theorem isContinue_underscore (a : Alphabet) : a.isContinue '_' = true := rfl

end Alphabet

end SelectorLexer
