import SelectorLexer.Offset

/-!
# Spans

A span is a range of byte offsets, from `start` up to but not including `stop`.
It is written `start..stop`.  Nothing forces `start ≤ stop`: a reversed span
holds no offset, is not empty either, and has no length.

## Main definitions

* `Span`, `Span.point` — ranges of offsets, and the empty range at one offset.
* `Span.length`, `Span.isEmpty`, `Span.contains` — the size and the members.
-/

namespace SelectorLexer

/-- The byte offsets from `start` up to but not including `stop`. -/
structure Span where
  /-- The first offset. -/
  start : Nat := 0
  /-- The offset after the last one. -/
  stop : Nat := 0
  deriving DecidableEq, Repr, Inhabited

namespace Span

/-- The span at `offset` that holds nothing. -/
def point (offset : Nat) : Span := ⟨offset, offset⟩

/-- The number of bytes in a span; a reversed span has none, not even zero. -/
def length (s : Span) : Checked Nat := subOffset s.stop s.start

/-- A span is empty when it stops where it starts. -/
def isEmpty (s : Span) : Bool := s.start == s.stop

/-- The offsets of a span are those from its start to before its stop. -/
def contains (s : Span) (offset : Nat) : Bool := s.start ≤ offset && offset < s.stop

instance : ToString Span where
  toString s := s!"{s.start}..{s.stop}"

@[simp] theorem length_point (offset : Nat) : (point offset).length = .ok 0 := by
  rw [point, length, subOffset_of_le (Nat.le_refl offset), Nat.sub_self]

@[simp] theorem isEmpty_point (offset : Nat) : (point offset).isEmpty = true := by
  simp [point, isEmpty]

@[simp] theorem isEmpty_iff {s : Span} : s.isEmpty = true ↔ s.start = s.stop := by
  simp [isEmpty]

@[simp] theorem contains_iff {s : Span} {offset : Nat} :
    s.contains offset = true ↔ s.start ≤ offset ∧ offset < s.stop := by
  simp [contains]

/-- A span has a length exactly when it is not reversed. -/
theorem length_eq_ok_iff {s : Span} {n : Nat} : s.length = .ok n ↔ s.start + n = s.stop := by
  rcases Nat.lt_or_ge s.stop s.start with hlt | hle
  · rw [length, subOffset_of_lt hlt]
    constructor
    · intro h
      cases h
    · intro h
      omega
  · rw [length, subOffset_of_le hle, Except.ok.injEq]
    omega

end Span

end SelectorLexer
