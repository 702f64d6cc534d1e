/-!
# Byte offsets and broken preconditions

A place in a text is a byte offset, counted from `0` in the UTF-8 form of the
text.  Offsets are natural numbers, and only those up to `maxOffset` can be
stored: a sum of offsets that would exceed it is refused, and so is the length
of a span that ends before it starts.

What is refused is a `Fault`.  A fault is not an answer about the text.  It says
that a caller asked for something that has no meaning, such as a text that ends
past the source.  A request is checked before it changes anything.  Only an
operation that takes many steps can meet a fault on its way, if the sum that one
of the steps forms is too large, and this takes a source that is longer than
`maxOffset`.  Operations that can meet a fault return a `Checked` value.  It says
what the fault is, and not how far an operation had come.

## Main definitions

* `maxOffset` — the largest offset.
* `Fault`, `Fault.message` — what can be wrong with a request, and its wording.
* `Checked` — a value, or the fault that prevented it.
* `addOffset`, `subOffset` — sums and differences that stay in range.
-/

namespace SelectorLexer

/-- The largest byte offset that can be stored, `2 ^ 32 - 1`. -/
def maxOffset : Nat := 4294967295

/-- Why a request has no meaning. -/
inductive Fault where
  /-- A sum of offsets exceeds `maxOffset`. -/
  | sumTooLarge : Fault
  /-- A difference of offsets is negative. -/
  | differenceNegative : Fault
  /-- A part of the text ends past the `size` bytes of the source. -/
  | endPastSource (stop size : Nat) : Fault
  /-- A part of the text starts after its end. -/
  | startPastEnd (start stop : Nat) : Fault
  /-- A mark lies past the `size` bytes of the source. -/
  | markPastSource (pos size : Nat) : Fault
  deriving DecidableEq, Repr

/-- The wording of a fault. -/
def Fault.message : Fault → String
  | sumTooLarge => "attempt to add with overflow"
  | differenceNegative => "attempt to subtract with overflow"
  | endPastSource stop size => s!"slice end {stop} exceeds source length {size}"
  | startPastEnd start stop => s!"slice start {start} exceeds end {stop}"
  | markPastSource pos size => s!"checkpoint {pos} is past source length {size}"

/-- The value of an operation, or the fault that prevented it. -/
abbrev Checked := Except Fault

instance {α : Type} [DecidableEq α] : DecidableEq (Checked α)
  | .ok a, .ok b => decidable_of_iff (a = b) ⟨congrArg _, Except.ok.inj⟩
  | .error f, .error g => decidable_of_iff (f = g) ⟨congrArg _, Except.error.inj⟩
  | .ok _, .error _ => isFalse fun h => by cases h
  | .error _, .ok _ => isFalse fun h => by cases h

/-- A sequence of two operations succeeds when both do, one after the other. -/
theorem Checked.bind_eq_ok_iff {α β : Type} {x : Checked α} {f : α → Checked β} {b : β} :
    (x >>= f) = .ok b ↔ ∃ a, x = .ok a ∧ f a = .ok b := by
  cases x with
  | error fault =>
    constructor
    · intro h
      cases h
    · rintro ⟨a, ha, _⟩
      cases ha
  | ok a =>
    constructor
    · intro h
      exact ⟨a, rfl, h⟩
    · rintro ⟨a', ha, h⟩
      cases ha
      exact h

@[simp] theorem Checked.ok_bind {α β : Type} (a : α) (f : α → Checked β) :
    ((.ok a : Checked α) >>= f) = f a := rfl

/-- The sum of an offset and a width, if it is still an offset. -/
def addOffset (offset width : Nat) : Checked Nat :=
  if offset + width ≤ maxOffset then .ok (offset + width) else .error .sumTooLarge

theorem addOffset_of_le {offset width : Nat} (h : offset + width ≤ maxOffset) :
    addOffset offset width = .ok (offset + width) :=
  if_pos h

theorem addOffset_eq_ok_iff {offset width sum : Nat} :
    addOffset offset width = .ok sum ↔ offset + width ≤ maxOffset ∧ sum = offset + width := by
  unfold addOffset
  split
  · next hle => simp [hle, eq_comm]
  · next hlt => simp [hlt]

/-- The distance from `start` to `stop`, if `stop` does not come first. -/
def subOffset (stop start : Nat) : Checked Nat :=
  if start ≤ stop then .ok (stop - start) else .error .differenceNegative

theorem subOffset_of_le {stop start : Nat} (h : start ≤ stop) :
    subOffset stop start = .ok (stop - start) :=
  if_pos h

theorem subOffset_of_lt {stop start : Nat} (h : stop < start) :
    subOffset stop start = .error .differenceNegative :=
  if_neg (by omega)

end SelectorLexer
