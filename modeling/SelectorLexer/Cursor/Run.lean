import SelectorLexer.Cursor.Basic

/-!
# Runs of a cursor

A cursor can pass a whole run of characters at once, as long as they are of one kind,
or it can pass all that is left and note what it reads on the way.  Both end because
every step before the end of the source leaves less to read.

## Main definitions

* `Cursor.passWhile` — past a run of characters of one kind.
* `Reading`, `Cursor.readings` — what is read at each place up to the end.

## Main results

* `Cursor.pos_le_of_passWhile`, `Cursor.source_of_passWhile` — a run leads
  forward in the same source.
-/

namespace SelectorLexer

namespace Cursor

/-! ### A run of one kind -/

/-- Pass characters as long as they satisfy `p`.  The end of the source is not asked:
the run ends there even if `p` accepts `endChar`. -/
def passWhile (c : Cursor) (part : Part) (p : Char → Bool) : Checked Cursor :=
  if h : c.atEnd = false ∧ p c.peek = true then
    match hc : c.pass part with
    | .error fault => .error fault
    | .ok next =>
      have := remaining_lt_of_pass h.1 hc
      next.passWhile part p
  else
    .ok c
termination_by c.remaining

theorem passWhile_of_atEnd {c : Cursor} (h : c.atEnd = true) (part : Part) (p : Char → Bool) :
    c.passWhile part p = .ok c := by
  rw [passWhile, dif_neg (by simp [h])]

theorem passWhile_of_not {c : Cursor} {p : Char → Bool} (h : p c.peek = false) (part : Part) :
    c.passWhile part p = .ok c := by
  rw [passWhile, dif_neg (by simp [h])]

/-- One step of a run. -/
theorem passWhile_of_pass {c next : Cursor} {part : Part} {p : Char → Bool}
    (he : c.atEnd = false) (hp : p c.peek = true) (h : c.pass part = .ok next) :
    c.passWhile part p = next.passWhile part p := by
  rw [passWhile, dif_pos ⟨he, hp⟩]
  split
  · next hf => rw [h] at hf; cases hf
  · next hn => rw [h] at hn; rw [Except.ok.inj hn]

theorem source_of_passWhile {c c' : Cursor} {part : Part} {p : Char → Bool}
    (h : c.passWhile part p = .ok c') : c'.source = c.source := by
  fun_induction passWhile c part p with
  | case1 => cases h
  | case2 c _ next hnext _ ih => rw [ih h, source_of_pass hnext]
  | case3 => rw [Except.ok.inj h]

theorem pos_le_of_passWhile {c c' : Cursor} {part : Part} {p : Char → Bool}
    (h : c.passWhile part p = .ok c') : c.pos ≤ c'.pos := by
  fun_induction passWhile c part p with
  | case1 => cases h
  | case2 c _ next hnext _ ih => exact Nat.le_trans (pos_le_of_pass hnext) (ih h)
  | case3 => exact Nat.le_of_eq (congrArg pos (Except.ok.inj h))

end Cursor

/-! ### Everything that is left -/

/-- What a cursor reads at one place. -/
structure Reading where
  /-- The offset of the place. -/
  pos : Nat
  /-- The byte at the place. -/
  byte : UInt8
  /-- The character at the place. -/
  char : Char
  deriving DecidableEq, Repr

namespace Cursor

/-- What the cursor reads here. -/
def reading (c : Cursor) : Reading := ⟨c.pos, c.byte, c.peek⟩

/-- What the cursor reads from here to the end of the source, step by step, and where
it comes to stand. -/
def readings (c : Cursor) (part : Part) : Checked (List Reading × Cursor) :=
  if h : c.atEnd = true then
    .ok ([], c)
  else
    match hc : c.pass part with
    | .error fault => .error fault
    | .ok next =>
      have := remaining_lt_of_pass (Bool.eq_false_iff.2 h) hc
      match next.readings part with
      | .error fault => .error fault
      | .ok (rest, last) => .ok (c.reading :: rest, last)
termination_by c.remaining

end Cursor

end SelectorLexer
