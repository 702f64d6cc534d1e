import SelectorLexer.Alphabet
import SelectorLexer.Cursor.Basic

/-!
# Classes of characters that have nothing in common

A scan leaves the blanks at the first character of a name, and it leaves the name at
the first character that does not continue it.  That each of these places is the only
one possible rests on the classes of characters: no blank belongs to a name, and the
signs that a scan looks for belong to neither.

Whether two sets of code points meet is a question about their ranges, and it is
decided once for the sets at hand.

## Main definitions

* `CodePoints.Disjoint` — two sets of code points whose ranges do not meet.
* `signs` — the characters that end every run.

## Main results

* `Alphabet.isStart_unicode`, `Alphabet.isContinue_unicode` — names in ASCII are names in
  Unicode.
* `Alphabet.isStart_and_isContinue_of_lt` — of ASCII characters, both alphabets make the same.
* `Alphabet.isContinue_eq_false_of_isBlank` — a blank belongs to no name.
* `isBlank_eq_false_of_mem_signs`, `Alphabet.isContinue_eq_false_of_mem_signs` — a sign
  is neither a blank nor part of a name.
* `Alphabet.classes_separate` — all that a scan relies on, for every character.
-/

namespace SelectorLexer

namespace CodePoints

/-- No range of one set meets a range of the other. -/
def Disjoint (s t : CodePoints) : Prop :=
  ∀ r ∈ s.ranges, ∀ r' ∈ t.ranges, r.2 < r'.1 ∨ r'.2 < r.1

instance (s t : CodePoints) : Decidable (s.Disjoint t) :=
  inferInstanceAs (Decidable (∀ r ∈ s.ranges, ∀ r' ∈ t.ranges, r.2 < r'.1 ∨ r'.2 < r.1))

/-- What the look-up finds in one of two disjoint sets, it does not find in the other. -/
theorem Disjoint.contains_eq_false {s t : CodePoints} (h : s.Disjoint t) {c : Nat}
    (hc : s.contains c = true) : t.contains c = false := by
  obtain ⟨r, hr, hlo, hhi⟩ := exists_of_search hc
  cases ht : t.contains c with
  | false => rfl
  | true =>
    obtain ⟨r', hr', hlo', hhi'⟩ := exists_of_search ht
    rcases h r hr r' hr' with hlt | hlt <;> omega

set_option maxRecDepth 8192 in
theorem whiteSpace_disjoint_alphabetic : whiteSpace.Disjoint alphabetic := by decide +kernel

set_option maxRecDepth 8192 in
theorem whiteSpace_disjoint_numeric : whiteSpace.Disjoint numeric := by decide +kernel

end CodePoints

namespace Alphabet

/-! ### The two alphabets -/

/-- The letters of ASCII are the first two ranges of the letters of Unicode. -/
theorem isLetter_unicode {a : Alphabet} {c : Char} (h : a.isLetter c = true) :
    unicode.isLetter c = true := by
  cases a with
  | unicode => exact h
  | ascii =>
    refine (CodePoints.contains_iff CodePoints.alphabetic_ascending).mpr ?_
    have hletter : (c.isUpper || c.isLower) = true := h
    rw [Bool.or_eq_true] at hletter
    rcases hletter with hupper | hlower
    · have hrange : 'A'.val ≤ c.val ∧ c.val ≤ 'Z'.val := of_decide_eq_true hupper
      exact ⟨(0x41, 0x5A), by decide, hrange⟩
    · have hrange : (decide ('a'.val ≤ c.val) && decide (c.val ≤ 'z'.val)) = true := hlower
      rw [Bool.and_eq_true, decide_eq_true_eq, decide_eq_true_eq] at hrange
      exact ⟨(0x61, 0x7A), by decide, hrange⟩

/-- The digits of ASCII are the first range of the numbers of Unicode. -/
theorem isDigit_unicode {a : Alphabet} {c : Char} (h : a.isDigit c = true) :
    unicode.isDigit c = true := by
  cases a with
  | unicode => exact h
  | ascii =>
    refine (CodePoints.contains_iff CodePoints.numeric_ascending).mpr ?_
    simp only [isDigit, Char.isDigit, Bool.and_eq_true, decide_eq_true_eq] at h
    exact ⟨(0x30, 0x39), by decide, h⟩

theorem isContinue_iff {a : Alphabet} {c : Char} :
    a.isContinue c = true ↔ c = '_' ∨ a.isLetter c = true ∨ a.isDigit c = true := by
  simp [isContinue, isStart, or_assoc]

/-- What starts a name in ASCII does so in Unicode. -/
theorem isStart_unicode {a : Alphabet} {c : Char} (h : a.isStart c = true) :
    unicode.isStart c = true := by
  rw [isStart, Bool.or_eq_true] at h ⊢
  exact h.imp_right isLetter_unicode

/-- What continues a name in ASCII does so in Unicode. -/
theorem isContinue_unicode {a : Alphabet} {c : Char} (h : a.isContinue c = true) :
    unicode.isContinue c = true := by
  rw [isContinue_iff] at h ⊢
  exact h.imp_right (.imp isLetter_unicode isDigit_unicode)

/-- Among the characters of ASCII there is no difference. -/
theorem isStart_and_isContinue_of_lt {c : Char} (h : c.toNat < 0x80) :
    ascii.isStart c = unicode.isStart c ∧ ascii.isContinue c = unicode.isContinue c := by
  have hall : ∀ n < 0x80, ascii.isStart (Char.ofNat n) = unicode.isStart (Char.ofNat n) ∧
      ascii.isContinue (Char.ofNat n) = unicode.isContinue (Char.ofNat n) := by
    decide +kernel
  have hc := hall c.toNat h
  rwa [Char.ofNat_toNat] at hc

/-! ### Blanks -/

/-- A blank belongs to no name. -/
theorem isContinue_eq_false_of_isBlank (a : Alphabet) {c : Char} (h : isBlank c = true) :
    a.isContinue c = false := by
  rw [← Bool.not_eq_true]
  intro hc
  rcases isContinue_iff.mp (isContinue_unicode hc) with rfl | hl | hd
  · exact absurd h (by decide)
  · have := CodePoints.whiteSpace_disjoint_alphabetic.contains_eq_false h
    rw [isLetter] at hl
    simp [this] at hl
  · have := CodePoints.whiteSpace_disjoint_numeric.contains_eq_false h
    rw [isDigit] at hd
    simp [this] at hd

theorem isBlank_eq_false_of_isContinue {a : Alphabet} {c : Char} (h : a.isContinue c = true) :
    isBlank c = false := by
  rw [← Bool.not_eq_true]
  intro hc
  rw [isContinue_eq_false_of_isBlank a hc] at h
  cases h

theorem isBlank_eq_false_of_isStart {a : Alphabet} {c : Char} (h : a.isStart c = true) :
    isBlank c = false :=
  isBlank_eq_false_of_isContinue (isContinue_of_isStart h)

end Alphabet

theorem isBlank_byteOrderMark : isBlank '\uFEFF' = false := by decide

/-! ### Signs -/

/-- The characters that a scan asks for by name: the colon, the equals sign, and what is
read at the end. -/
def signs : List Char := [':', '=', endChar]

/-- A sign is no blank. -/
theorem isBlank_eq_false_of_mem_signs {c : Char} (h : c ∈ signs) : isBlank c = false := by
  simp only [signs, List.mem_cons, List.not_mem_nil, or_false] at h
  rcases h with rfl | rfl | rfl <;> decide

namespace Alphabet

/-- A sign belongs to no name. -/
theorem isContinue_eq_false_of_mem_signs (a : Alphabet) {c : Char} (h : c ∈ signs) :
    a.isContinue c = false := by
  simp only [signs, List.mem_cons, List.not_mem_nil, or_false] at h
  rcases h with rfl | rfl | rfl <;> cases a <;> decide

@[simp] theorem isContinue_colon (a : Alphabet) : a.isContinue ':' = false :=
  a.isContinue_eq_false_of_mem_signs (by decide)

@[simp] theorem isContinue_equals (a : Alphabet) : a.isContinue '=' = false :=
  a.isContinue_eq_false_of_mem_signs (by decide)

/-- A byte order mark starts no name. -/
theorem isStart_byteOrderMark (a : Alphabet) : a.isStart '\uFEFF' = false := by
  cases a <;> decide +kernel

/-- What does not continue a name does not start one. -/
theorem isStart_eq_false_of_isContinue {a : Alphabet} {c : Char} (h : a.isContinue c = false) :
    a.isStart c = false := by
  rw [isContinue, Bool.or_eq_false_iff] at h
  exact h.1

/-! ### All classes -/

/-- **The classes of characters keep apart what a scan has to tell apart.**  What starts a
name continues one, and no character is both a blank and part of a name.  The null
character, the colon and the equals sign are in no class, and a byte order mark neither is
a blank nor starts a name.  What belongs to a name in ASCII does so in Unicode, and about
the characters of ASCII the two alphabets agree. -/
theorem classes_separate (a : Alphabet) (c : Char) :
    (a.isStart c = true → a.isContinue c = true) ∧
    ¬ (isBlank c = true ∧ a.isContinue c = true) ∧
    (c ∈ ['\x00', ':', '='] →
      isBlank c = false ∧ a.isStart c = false ∧ a.isContinue c = false) ∧
    (c = '\uFEFF' → isBlank c = false ∧ a.isStart c = false) ∧
    (ascii.isStart c = true → unicode.isStart c = true) ∧
    (ascii.isContinue c = true → unicode.isContinue c = true) ∧
    (c.toNat < 0x80 →
      ascii.isStart c = unicode.isStart c ∧ ascii.isContinue c = unicode.isContinue c) := by
  refine ⟨isContinue_of_isStart, ?blank, ?sign, ?mark, isStart_unicode, isContinue_unicode,
    isStart_and_isContinue_of_lt⟩
  case blank =>
    rintro ⟨hblank, hcontinue⟩
    rw [isContinue_eq_false_of_isBlank a hblank] at hcontinue
    cases hcontinue
  case sign =>
    intro h
    have hsign : c ∈ signs := by
      simp only [signs, endChar, List.mem_cons, List.not_mem_nil, or_false] at h ⊢
      rcases h with rfl | rfl | rfl <;> simp
    have hcontinue := a.isContinue_eq_false_of_mem_signs hsign
    exact ⟨isBlank_eq_false_of_mem_signs hsign, isStart_eq_false_of_isContinue hcontinue, hcontinue⟩
  case mark =>
    rintro rfl
    exact ⟨isBlank_byteOrderMark, a.isStart_byteOrderMark⟩

end Alphabet

end SelectorLexer
