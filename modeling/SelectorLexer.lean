import SelectorLexer.Proofs.Alphabet.Restriction
import SelectorLexer.Proofs.Cursor.Bounds
import SelectorLexer.Proofs.Cursor.Decoding
import SelectorLexer.Proofs.Cursor.Resync
import SelectorLexer.Proofs.Cursor.Shift
import SelectorLexer.Proofs.Cursor.Splits
import SelectorLexer.Proofs.Cursor.Strides
import SelectorLexer.Proofs.Keyword.Bounds
import SelectorLexer.Proofs.Keyword.Failure
import SelectorLexer.Proofs.Keyword.Inside
import SelectorLexer.Proofs.Keyword.Lookahead
import SelectorLexer.Proofs.Keyword.Recognition
import SelectorLexer.Proofs.Keyword.Reentry
import SelectorLexer.Proofs.Keyword.Shift
import SelectorLexer.Proofs.Selector.CanonicalName
import SelectorLexer.Proofs.Selector.Concatenation
import SelectorLexer.Proofs.Selector.Log
import SelectorLexer.Proofs.Selector.Rejection
import SelectorLexer.Proofs.Session.Bounds
import SelectorLexer.Proofs.Session.Erasure
import SelectorLexer.Proofs.Session.Gate
import SelectorLexer.Proofs.Session.Shift
import SelectorLexer.Proofs.Source.Flaws
import SelectorLexer.Proofs.Source.Search
import SelectorLexer.Proofs.Sweep.Agreement
import SelectorLexer.Proofs.Sweep.Findings
import SelectorLexer.Session
import SelectorLexer.Proofs.Keyword.Tiling
import SelectorLexer.Proofs.Session.Rollback
import SelectorLexer.Proofs.Rounds
