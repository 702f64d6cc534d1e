import SelectorLexer.Proofs.Session.Bounds
import SelectorLexer.Proofs.Session.Gate

/-!
# What can be left out of a session

Some steps of a host only ask, and some are refused.  A host asks for the token that is
being read, compares marks and saves the state of its scanner; it is refused if it goes
back to a mark past the end, names offsets that make up no part of the text, or scans for
nothing that the scanner could find.  None of this changes the session.  In particular a
scanner has no state that it would take from a snapshot, and a scan for other kinds of
tokens does not even open a token.

So a step like that can be left out wherever it stands, and so can any number of them: all
other steps find the session as they would have found it.

## Main definitions

* `Session.Inert` — the steps that ask or are refused.
* `Session.kept` — what a mask keeps of a list.

## Main results

* `Session.Inert.step_eq_self` — an inert step changes nothing.
* `Session.run_erases_inert` — a run without some of its inert steps.
-/

namespace SelectorLexer

namespace Session

/-! ### Inert steps -/

/-- The steps that only ask, or are refused, when they are done in the session `s`. -/
inductive Inert (s : Session) : Step → Prop where
  /-- Save the state of the scanner, in a buffer of any size. -/
  | save (buffer : List UInt8) : Inert s (.save buffer)
  /-- Restore the state of the scanner, from any bytes. -/
  | load (bytes : List UInt8) : Inert s (.load bytes)
  /-- Scan for kinds that do not include keywords. -/
  | scan {wanted : KindSet} (h : wanted.bits.toNat.testBit 0 = false) : Inert s (.scan wanted)
  /-- Scan with a table that is too short. -/
  | shortTable {table : List Bool} (h : table.length < TokenKind.count) :
    Inert s (.scanTable table)
  /-- Scan with a table in which the entry of keywords is false. -/
  | falseEntry {table : List Bool} (h : table[0]? = some false) : Inert s (.scanTable table)
  /-- Ask for the span of the token. -/
  | span : Inert s .span
  /-- Ask for the text of the token. -/
  | lexeme : Inert s .lexeme
  /-- Ask whether two marks are the same. -/
  | sameMark (i j : Nat) : Inert s (.sameMark i j)
  /-- Go back to a mark that is refused. -/
  | rewind {i : Nat} {f : Fault} (h : (s.step (.rewind i)).2 = .fault f) : Inert s (.rewind i)
  /-- Ask for a part of the text by offsets that are refused. -/
  | between {start stop : Nat} {f : Fault} (h : (s.step (.between start stop)).2 = .fault f) :
    Inert s (.between start stop)
  /-- Ask for the text from an offset that is refused. -/
  | since {start : Nat} {f : Fault} (h : (s.step (.since start)).2 = .fault f) :
    Inert s (.since start)

section Inert

variable {s : Session}

/-- **An inert step changes nothing.** -/
theorem Inert.step_eq_self {step : Step} (h : s.Inert step) : (s.step step).1 = s := by
  cases h with
  | save buffer => rfl
  | load bytes => rfl
  | scan hbit =>
    rw [step_scan_of_not_contains ((KindSet.contains_iff_testBit _ .keyword).trans hbit)]
  | shortTable hshort => rw [step_scanTable_of_short hshort]
  | falseEntry hentry => rw [step_scanTable_of_false hentry]
  | span =>
    rw [Session.step]
    split
    · rfl
    · rfl
  | lexeme => exact tell_fst s _
  | sameMark i j =>
    rw [Session.step]
    split
    · rfl
    · rfl
  | rewind hfault =>
    rw [Session.step] at hfault ⊢
    split
    · next m hm =>
      rw [hm] at hfault
      exact move_eq_self_of_fault hfault
    · rfl
  | between => exact tell_fst s _
  | since => exact tell_fst s _

end Inert

/-! ### Runs without them -/

/-- What is left of a list when the entries are left out for which the mask is false.  What
stands behind the end of the mask is kept. -/
def kept {α : Type} : List Bool → List α → List α
  | true :: mask, x :: xs => x :: kept mask xs
  | false :: mask, _ :: xs => kept mask xs
  | [], xs => xs
  | _ :: _, [] => []

@[simp] theorem kept_nil {α : Type} (mask : List Bool) : kept mask ([] : List α) = [] := by
  rcases mask with _ | ⟨_ | _, mask⟩ <;> rfl

/-- **Inert steps can be left out of a run.**  Of the steps of a run, leave out some that are
inert where they stand.  Then all others get the answers that they got in the full run, and
the session comes to the same end. -/
theorem run_erases_inert (s : Session) {steps : List Step} {mask : List Bool}
    (h : ∀ i step, steps[i]? = some step → mask[i]? = some false →
      (s.run (steps.take i)).2.Inert step) :
    (s.run (kept mask steps)).1 = kept mask (s.run steps).1 ∧
      (s.run (kept mask steps)).2 = (s.run steps).2 := by
  induction steps generalizing s mask with
  | nil => simp
  | cons step rest ih =>
    -- what is inert later on in the run is so in the run from the next session on
    have hrest : ∀ b mask', mask = b :: mask' → ∀ i later, rest[i]? = some later →
        mask'[i]? = some false → ((s.step step).1.run (rest.take i)).2.Inert later := by
      rintro b mask' rfl i later hlater hout
      have hinert := h (i + 1) later (by simpa using hlater) (by simpa using hout)
      rwa [List.take_succ_cons, run_cons] at hinert
    rcases mask with _ | ⟨_ | _, mask⟩
    · exact ⟨rfl, rfl⟩
    · have hinert : s.Inert step := h 0 step rfl rfl
      have hself := hinert.step_eq_self
      have hrun := ih (s.step step).1 (hrest _ _ rfl)
      rw [run_cons]
      simp only [kept]
      rw [hself] at hrun ⊢
      exact hrun
    · obtain ⟨hanswers, hlast⟩ := ih (s.step step).1 (hrest _ _ rfl)
      simp only [kept, run_cons]
      rw [hanswers, hlast]
      exact ⟨rfl, rfl⟩

/-- Refused on a shorter source, and asked for inside a character of it. -/
theorem run_erases_inert_foreign_mark :
    let s := start ⟨"at: put:"⟩ [⟨"é"⟩] {}
    let steps : List Step :=
      [.pass .content, .scan ⟨0xFE⟩, .mark, .scan .keywords, .mark, .use 1, .rewind 1, .rewind 0,
        .scanTable [false, true], .since 2, .load [7], .lexeme, .scan .keywords]
    let mask :=
      [true, false, true, true, true, true, false, true, false, false, false, false, true]
    (∀ i step, steps[i]? = some step → mask[i]? = some false →
      (s.run (steps.take i)).2.Inert step) ∧
    (s.run [.pass .content, .mark, .scan .keywords, .mark, .use 1, .rewind 0,
      .scan .keywords]).1.map Answer.reply =
        [.done, .marked 0 1, .scanned (some ⟨.keyword, 1, 3⟩), .marked 1 3, .done, .done,
          .scanned none] := by
  intro s steps mask
  have hinert : ∀ i step, steps[i]? = some step → mask[i]? = some false →
      (s.run (steps.take i)).2.Inert step := by
    intro i step hstep hout
    rcases i with _ | _ | _ | _ | _ | _ | _ | _ | _ | _ | _ | _ | _ | i
    · cases hout
    · cases hstep
      exact .scan (by decide)
    · cases hout
    · cases hout
    · cases hout
    · cases hout
    · cases hstep
      exact .rewind (f := .markPastSource 3 2) (by decide +kernel)
    · cases hout
    · cases hstep
      exact .falseEntry rfl
    · cases hstep
      exact .since (f := .startPastEnd 2 1) (by decide +kernel)
    · cases hstep
      exact .load [7]
    · cases hstep
      exact .lexeme
    · cases hout
    · cases hstep
  have hrun := (run_erases_inert s hinert).1
  refine ⟨hinert, ?_⟩
  have hkept : kept mask steps = [.pass .content, .mark, .scan .keywords, .mark, .use 1, .rewind 0,
      .scan .keywords] := rfl
  rw [hkept] at hrun
  rw [hrun]
  decide +kernel

end Session

end SelectorLexer
