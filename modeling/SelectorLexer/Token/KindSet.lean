import SelectorLexer.Token

/-!
# Sets of token kinds

Before each scan the host says which kinds it can use.  It does so with a table of
truth values, one for each kind and perhaps more for tokens of its own.  The table is
folded into a byte, with one bit for each kind; the bits that stand for no kind are
kept as they are and mean nothing.

## Main definitions

* `KindSet`, `KindSet.contains` — a set of kinds, and its members.
* `KindSet.singleton`, `KindSet.insert`, `KindSet.ofKinds` — sets by their members.
* `KindSet.ofTable`, `ShortTable` — the set that a table stands for, and the tables
  that stand for none.

## Main results

* `KindSet.contains_iff_testBit` — membership is one bit of the byte.
* `KindSet.contains_ofTable` — membership in the set of a table is one entry of it.
-/

namespace SelectorLexer

/-- A set of token kinds, as the bits of a byte. -/
structure KindSet where
  /-- Bit `k.index` says whether the kind `k` is a member. -/
  bits : UInt8 := 0
  deriving DecidableEq, Repr, Inhabited

namespace KindSet

/-- The set that holds one kind. -/
def singleton (k : TokenKind) : KindSet := ⟨1 <<< UInt8.ofNat k.index⟩

/-- The set with one more kind. -/
def insert (s : KindSet) (k : TokenKind) : KindSet := ⟨s.bits ||| (singleton k).bits⟩

/-- The set of the kinds in a list. -/
def ofKinds (kinds : List TokenKind) : KindSet := kinds.foldl insert {}

/-- A kind is a member when its bit is set. -/
def contains (s : KindSet) (k : TokenKind) : Bool :=
  s.bits &&& (singleton k).bits == (singleton k).bits

/-- The set that asks for keywords. -/
def keywords : KindSet := singleton .keyword

/-- Membership depends on one bit, whatever the others are. -/
theorem contains_iff_testBit (s : KindSet) (k : TokenKind) :
    s.contains k = s.bits.toNat.testBit k.index := by
  cases k
  rcases s with ⟨⟨bits⟩⟩
  revert bits
  decide +kernel

@[simp] theorem contains_singleton (k : TokenKind) : (singleton k).contains k = true := by
  cases k
  rfl

@[simp] theorem contains_keywords : keywords.contains .keyword = true := rfl

end KindSet

/-- A table that has no entry for one of the kinds. -/
structure ShortTable where
  /-- The number of entries that it needs. -/
  expected : Nat
  /-- The number of entries that it has. -/
  found : Nat
  deriving DecidableEq, Repr

/-- The wording of what is wrong with a short table. -/
def ShortTable.message (e : ShortTable) : String :=
  s!"valid-symbol table has {e.found} entries, expected at least {e.expected}"

namespace KindSet

/-- The kinds whose entry in the table is true.  Entries after those of the kinds belong
to the host and are ignored. -/
def ofTable (table : List Bool) : Except ShortTable KindSet :=
  if table.length < TokenKind.count then
    .error ⟨TokenKind.count, table.length⟩
  else
    .ok (ofKinds (TokenKind.all.filter fun k => table.getD k.index false))

/-- The members of the set of a table are the kinds whose entry is true. -/
theorem contains_ofTable {table : List Bool} {s : KindSet} (h : ofTable table = .ok s)
    (k : TokenKind) : table[k.index]? = some (s.contains k) := by
  unfold ofTable at h
  split at h
  · cases h
  · cases k
    cases table with
    | nil => contradiction
    | cons first rest =>
      rw [← Except.ok.inj h]
      cases first <;> simp [TokenKind.all, TokenKind.index, ofKinds, insert, contains, singleton]

end KindSet

end SelectorLexer
