import Mathlib.Data.List.TakeWhile

/-!
# Longest runs

A run is what stands in front of the first character that is not accepted.  It is the
longest of all accepted beginnings of a text, and it is known from the answers for its own
characters and for the one behind it.

## Main results

* `takeWhile_append_of_stop`, `dropWhile_append_of_stop` — a run that nothing can be added
  to is the longest.
* `isPrefix_takeWhile` — no accepted beginning is longer.
* `takeWhile_congr_of_asked` — which answers a run depends on.
-/

namespace SelectorLexer

variable {p q : Char → Bool} {run rest cs : List Char}

/-- A run that is followed by nothing it could take in is the longest. -/
theorem takeWhile_append_of_stop (hrun : ∀ x ∈ run, p x = true)
    (hstop : ∀ x, rest.head? = some x → p x = false) : (run ++ rest).takeWhile p = run := by
  rw [List.takeWhile_append_of_pos hrun]
  cases rest with
  | nil => rw [List.takeWhile_nil, List.append_nil]
  | cons x rest =>
    rw [List.takeWhile_cons_of_neg (by simp [hstop x rfl]), List.append_nil]

theorem dropWhile_append_of_stop (hrun : ∀ x ∈ run, p x = true)
    (hstop : ∀ x, rest.head? = some x → p x = false) : (run ++ rest).dropWhile p = rest := by
  rw [List.dropWhile_append_of_pos hrun]
  cases rest with
  | nil => rfl
  | cons x rest => rw [List.dropWhile_cons_of_neg (by simp [hstop x rfl])]

/-- What comes after the longest run is not accepted. -/
theorem eq_false_of_head?_dropWhile {x : Char} (h : (cs.dropWhile p).head? = some x) :
    p x = false := by
  have hnot := List.head?_dropWhile_not p cs
  rw [h] at hnot
  exact hnot

/-- Every accepted beginning is a beginning of the longest run. -/
theorem isPrefix_takeWhile (hfront : run <+: cs) (hrun : ∀ x ∈ run, p x = true) :
    run <+: cs.takeWhile p := by
  obtain ⟨rest, rfl⟩ := hfront
  rw [List.takeWhile_append_of_pos hrun]
  exact List.prefix_append run _

/-- The longest run depends on the answers for its characters and for the next one only. -/
theorem takeWhile_congr_of_asked
    (h : ∀ x ∈ cs.takeWhile p ++ (cs.dropWhile p).take 1, q x = p x) :
    cs.takeWhile q = cs.takeWhile p := by
  have hrun : ∀ x ∈ cs.takeWhile p, q x = true := by
    intro x hx
    rw [h x (List.mem_append_left _ hx), List.mem_takeWhile_imp hx]
  have hstop : ∀ x, (cs.dropWhile p).head? = some x → q x = false := by
    intro x hx
    obtain ⟨more, hmore⟩ := List.head?_eq_some_iff.mp hx
    rw [h x (by simp [hmore]), eq_false_of_head?_dropWhile hx]
  have hlongest := takeWhile_append_of_stop hrun hstop
  rwa [List.takeWhile_append_dropWhile] at hlongest

/-- Predicates that agree on a text cut it at the same place. -/
theorem takeWhile_congr_of_mem (h : ∀ x ∈ cs, q x = p x) :
    cs.takeWhile q = cs.takeWhile p ∧ cs.dropWhile q = cs.dropWhile p := by
  have htake : cs.takeWhile q = cs.takeWhile p := by
    apply takeWhile_congr_of_asked
    intro x hx
    apply h
    rcases List.mem_append.mp hx with hrun | hnext
    · exact (List.takeWhile_sublist p).subset hrun
    · exact (List.dropWhile_sublist p).subset (List.mem_of_mem_take hnext)
  refine ⟨htake, ?_⟩
  have hsplit : cs.takeWhile q ++ cs.dropWhile q = cs.takeWhile p ++ cs.dropWhile p := by
    rw [List.takeWhile_append_dropWhile, List.takeWhile_append_dropWhile]
  rw [htake] at hsplit
  exact List.append_cancel_left hsplit

end SelectorLexer
