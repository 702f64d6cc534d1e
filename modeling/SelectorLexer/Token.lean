import SelectorLexer.Span

/-!
# Tokens

The host grammar declares the kinds of tokens that it cannot recognize by itself, in
a fixed order.  The index of a kind is its place in that order.

## Main definitions

* `TokenKind`, `TokenKind.all`, `TokenKind.index` — the kinds, and their order.
* `Token` — a kind with the bytes that it covers.
-/

namespace SelectorLexer

/-- The kinds of tokens that a scan can recognize. -/
inductive TokenKind where
  /-- A keyword: a name followed by a colon, which no `=` follows. -/
  | keyword : TokenKind
  deriving DecidableEq, Repr, Inhabited

namespace TokenKind

/-- All kinds, in the order in which the grammar declares them. -/
def all : List TokenKind := [keyword]

/-- The number of kinds. -/
def count : Nat := all.length

/-- The place of a kind in the order of the grammar. -/
def index : TokenKind → Nat
  | keyword => 0

/-- The name of a kind in the grammar. -/
def name : TokenKind → String
  | keyword => "keyword"

instance : ToString TokenKind where
  toString := name

@[simp] theorem mem_all (k : TokenKind) : k ∈ all := by
  cases k
  decide

/-- The list of all kinds has each one at its index. -/
theorem all_getElem?_index (k : TokenKind) : all[k.index]? = some k := by
  cases k
  rfl

theorem index_lt_count (k : TokenKind) : k.index < count := by
  cases k
  decide

end TokenKind

/-- A recognized token. -/
structure Token where
  /-- Its kind. -/
  kind : TokenKind
  /-- The bytes that it covers. -/
  span : Span
  deriving DecidableEq, Repr, Inhabited

end SelectorLexer
