/-!
# Sets of code points

A character property of Unicode is published as a list of ranges of code points.
`CodePoints` is such a list, ascending and without overlap, so that a look-up can
stop at the first range that starts past the code point it looks for.

## Main definitions

* `CodePoints`, `CodePoints.Ascending` — a list of ranges, and its order.
* `CodePoints.contains` — the look-up.

## Main results

* `CodePoints.contains_iff` — in an ascending list, the look-up finds exactly the
  code points that lie in one of the ranges.
-/

namespace SelectorLexer

/-- A set of code points, as its ranges: each pair holds the first and the last
code point of one range. -/
structure CodePoints where
  /-- The ranges, in ascending order. -/
  ranges : List (Nat × Nat)

namespace CodePoints

/-! ### The order of the ranges -/

/-- Each range ends no earlier than it starts, and ends before the next starts. -/
def ascending : List (Nat × Nat) → Bool
  | [] => true
  | [(first, last)] => first ≤ last
  | (first, last) :: (first', last') :: rest =>
      first ≤ last && last < first' && ascending ((first', last') :: rest)

/-- The ranges of the set are in ascending order. -/
def Ascending (s : CodePoints) : Prop := ascending s.ranges = true

instance (s : CodePoints) : Decidable s.Ascending :=
  inferInstanceAs (Decidable (_ = true))

/-- In an ascending list every later range starts after the first one ends. -/
theorem last_lt_of_ascending {first last : Nat} {rest : List (Nat × Nat)}
    (h : ascending ((first, last) :: rest) = true) : ∀ r ∈ rest, last < r.1 := by
  induction rest generalizing first last with
  | nil => simp
  | cons r rest ih =>
    obtain ⟨first', last'⟩ := r
    simp only [ascending, Bool.and_eq_true, decide_eq_true_eq] at h
    intro r hr
    rcases List.mem_cons.1 hr with rfl | hr
    · exact h.1.2
    · have hle : first' ≤ last' := by
        cases rest with
        | nil => simpa [ascending] using h.2
        | cons _ _ =>
          have := h.2
          simp only [ascending, Bool.and_eq_true, decide_eq_true_eq] at this
          exact this.1.1
      have := ih h.2 r hr
      omega

theorem ascending_of_cons {r : Nat × Nat} {rest : List (Nat × Nat)}
    (h : ascending (r :: rest) = true) : ascending rest = true := by
  cases rest with
  | nil => rfl
  | cons r' rest =>
    simp only [ascending, Bool.and_eq_true] at h
    exact h.2

/-! ### The look-up -/

/-- Is `c` in one of the ranges?  The search ends at a range that starts past `c`. -/
def search (c : Nat) : List (Nat × Nat) → Bool
  | [] => false
  | (first, last) :: rest => first ≤ c && (c ≤ last || search c rest)

@[simp] theorem search_nil (c : Nat) : search c [] = false := rfl

theorem search_cons (c first last : Nat) (rest : List (Nat × Nat)) :
    search c ((first, last) :: rest) = (first ≤ c && (c ≤ last || search c rest) : Bool) := rfl

/-- Whatever the search finds lies in one of the ranges. -/
theorem exists_of_search {c : Nat} {ranges : List (Nat × Nat)} (h : search c ranges = true) :
    ∃ r ∈ ranges, r.1 ≤ c ∧ c ≤ r.2 := by
  induction ranges with
  | nil => simp at h
  | cons r rest ih =>
    obtain ⟨first, last⟩ := r
    simp only [search_cons, Bool.and_eq_true, Bool.or_eq_true, decide_eq_true_eq] at h
    rcases h.2 with hl | hl
    · exact ⟨(first, last), by simp, h.1, hl⟩
    · obtain ⟨r, hr, hc⟩ := ih hl
      exact ⟨r, by simp [hr], hc⟩

/-- In an ascending list the search misses nothing. -/
theorem search_of_mem {c : Nat} {ranges : List (Nat × Nat)} (ha : ascending ranges = true)
    {r : Nat × Nat} (hr : r ∈ ranges) (hc : r.1 ≤ c ∧ c ≤ r.2) : search c ranges = true := by
  induction ranges with
  | nil => simp at hr
  | cons r' rest ih =>
    obtain ⟨first, last⟩ := r'
    simp only [search_cons, Bool.and_eq_true, Bool.or_eq_true, decide_eq_true_eq]
    rcases List.mem_cons.1 hr with rfl | hr
    · exact ⟨hc.1, .inl hc.2⟩
    · have hlt := last_lt_of_ascending ha r hr
      refine ⟨?_, .inr (ih (ascending_of_cons ha) hr)⟩
      cases rest with
      | nil => simp at hr
      | cons _ _ =>
        simp only [ascending, Bool.and_eq_true, decide_eq_true_eq] at ha
        omega

/-- Membership of a code point. -/
def contains (s : CodePoints) (c : Nat) : Bool := search c s.ranges

/-- The look-up finds exactly the code points of the ranges. -/
theorem contains_iff {s : CodePoints} (h : s.Ascending) {c : Nat} :
    s.contains c = true ↔ ∃ r ∈ s.ranges, r.1 ≤ c ∧ c ≤ r.2 :=
  ⟨exists_of_search, fun ⟨_, hr, hc⟩ => search_of_mem h hr hc⟩

end CodePoints

end SelectorLexer
