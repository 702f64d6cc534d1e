import SelectorLexer.Proofs.Cursor.Splits

/-!
# Flaws, as characters

The flaws of a source are found by looking at bytes, and they are characters: a byte
that is zero is a null character, since no other character has such a byte in it, and
three bytes at the start that read as a byte order mark are one.

## Main results

* `Source.charAt?_eq_some_iff` — the character at an offset is the one behind a cut.
* `Source.startsWithByteOrderMark_iff` — a byte order mark is the first character.
* `Source.mem_nullOffsets_iff` — the null bytes are the null characters, each at its
  offset.
* `Source.head?_nullOffsets_iff` — the first of them has none in front of it.
* `Source.flaws_eq_nil_of_notMem`, `Source.flaws_eq_nil_iff` — the texts without flaws.
-/

namespace SelectorLexer

open String (utf8Len)

namespace Source

variable {s : Source}

/-- A character stands at an offset when the text can be cut in front of it there. -/
theorem charAt?_eq_some_iff {i : Nat} {x : Char} :
    s.charAt? i = some x ↔
      ∃ before after, s.text.toList = before ++ x :: after ∧ i = utf8Len before := by
  constructor
  · intro h
    have hb : s.IsBoundary i := by
      by_contra hb
      rw [charAt?_of_not_isBoundary hb] at h
      cases h
    obtain ⟨before, after, hchars, rfl⟩ := isBoundary_iff_utf8Len.mp hb
    rw [charAt?_utf8Len hchars, List.head?_eq_some_iff] at h
    obtain ⟨rest, rfl⟩ := h
    exact ⟨before, rest, hchars, rfl⟩
  · rintro ⟨before, after, hchars, rfl⟩
    exact charAt?_utf8Len hchars

/-- Behind a cut come the bytes of the next character. -/
theorem byteAt?_add {before after : List Char} {x : Char} {i : Nat}
    (h : s.text.toList = before ++ x :: after) (hi : i < x.utf8Size) :
    s.byteAt? (utf8Len before + i) = (String.singleton x).toByteArray[i]? := by
  have htext : s.text = String.ofList before ++ (String.singleton x ++ String.ofList after) := by
    rw [text_eq_append_of_toList h, String.ofList_cons]
  have hbefore : (String.ofList before).toByteArray.size = utf8Len before := by
    rw [String.size_toByteArray, String.utf8ByteSize_ofList]
  have hx : i < (String.singleton x).toByteArray.size := by
    rwa [String.size_toByteArray, String.utf8ByteSize_singleton]
  have hall : utf8Len before + i < (String.ofList before).toByteArray.size +
      ((String.singleton x).toByteArray.size + (String.ofList after).toByteArray.size) := by
    omega
  rw [byteAt?_eq, htext, String.toByteArray_append, String.toByteArray_append,
    getElem?_pos _ (utf8Len before + i) (by simpa only [ByteArray.size_append] using hall),
    getElem?_pos _ i hx, ByteArray.getElem_append_right (by omega)]
  simp only [hbefore, Nat.add_sub_cancel_left]
  rw [ByteArray.getElem_append_left hx]

theorem byteAt?_of_toList_eq_cons {rest : List Char} {x : Char} {i : Nat}
    (h : s.text.toList = x :: rest) (hi : i < x.utf8Size) :
    s.byteAt? i = (String.singleton x).toByteArray[i]? := by
  have hcut : s.text.toList = [] ++ x :: rest := h
  have hbyte := byteAt?_add hcut hi
  rwa [String.utf8Len_nil, Nat.zero_add] at hbyte

/-! ### Null bytes -/

/-- Only the null character has a byte in it that is zero. -/
theorem byteAt?_eq_zero_iff {i : Nat} : s.byteAt? i = some 0 ↔ s.charAt? i = some '\x00' := by
  constructor
  · intro h
    -- a byte that is zero starts a character, and it is below `0x80`
    have hb : s.IsBoundary i := (isBoundary_iff_of_byteAt? h).mpr (.inl rfl)
    obtain ⟨before, after, hchars, rfl⟩ := isBoundary_iff_utf8Len.mp hb
    have hchar := charAt?_utf8Len hchars
    cases after with
    | nil =>
      have hsize : s.text.utf8ByteSize = utf8Len before := by
        rw [utf8ByteSize_eq_utf8Len, hchars, List.append_nil]
      rw [byteAt?_eq, getElem?_neg _ _ (by rw [String.size_toByteArray]; omega)] at h
      cases h
    | cons x rest =>
      rw [List.head?_cons] at hchar
      obtain ⟨b, hbyte, -, hsmall⟩ := byteAt?_of_charAt? hchar
      obtain rfl : b = 0 := Option.some.inj (hbyte.symm.trans h)
      rw [hchar, ← hsmall (by decide)]
      rfl
  · intro h
    obtain ⟨before, after, hchars, rfl⟩ := charAt?_eq_some_iff.mp h
    have hbyte := byteAt?_add hchars (i := 0) (by decide)
    rw [Nat.add_zero] at hbyte
    rw [hbyte]
    decide

/-- **The null bytes are the null characters.** -/
theorem mem_nullOffsets_iff {pos : Nat} (hfits : s.text.utf8ByteSize ≤ maxOffset) :
    pos ∈ s.nullOffsets ↔
      ∃ before after, s.text.toList = before ++ '\x00' :: after ∧ pos = utf8Len before := by
  rw [nullOffsets, List.mem_filter, List.mem_range, Bool.and_eq_true, decide_eq_true_eq,
    beq_iff_eq, byteAt?_eq_zero_iff, charAt?_eq_some_iff]
  constructor
  · rintro ⟨-, -, hchar⟩
    exact hchar
  · rintro ⟨before, after, hchars, rfl⟩
    have hsize := utf8ByteSize_eq_utf8Len s.text
    rw [hchars, String.utf8Len_append, String.utf8Len_cons] at hsize
    have := Char.utf8Size_pos '\x00'
    exact ⟨by omega, by omega, before, after, hchars, rfl⟩

theorem pairwise_nullOffsets (s : Source) : s.nullOffsets.Pairwise (· < ·) :=
  List.pairwise_lt_range.filter _

/-- **The first null byte is the null character with none in front of it.** -/
theorem head?_nullOffsets_iff {pos : Nat} (hfits : s.text.utf8ByteSize ≤ maxOffset) :
    s.nullOffsets.head? = some pos ↔
      ∃ before after, s.text.toList = before ++ '\x00' :: after ∧ '\x00' ∉ before ∧
        pos = utf8Len before := by
  have hlt := s.pairwise_nullOffsets
  constructor
  · intro h
    obtain ⟨rest, hoffsets⟩ := List.head?_eq_some_iff.mp h
    rw [hoffsets, List.pairwise_cons] at hlt
    obtain ⟨before, after, hchars, rfl⟩ := (mem_nullOffsets_iff hfits).mp (List.mem_of_head? h)
    refine ⟨before, after, hchars, ?_, rfl⟩
    intro hnull
    -- one more in front of it would have to come later
    obtain ⟨front, back, rfl⟩ := List.append_of_mem hnull
    have hfront : utf8Len front ∈ s.nullOffsets :=
      (mem_nullOffsets_iff hfits).mpr
        ⟨front, back ++ '\x00' :: after, by rw [hchars, List.append_assoc]; rfl, rfl⟩
    have := Char.utf8Size_pos '\x00'
    rw [String.utf8Len_append, String.utf8Len_cons] at hoffsets hlt
    rw [hoffsets, List.mem_cons] at hfront
    rcases hfront with heq | hrest
    · omega
    · have := hlt.1 _ hrest
      omega
  · rintro ⟨before, after, hchars, hnull, rfl⟩
    have hin : utf8Len before ∈ s.nullOffsets :=
      (mem_nullOffsets_iff hfits).mpr ⟨before, after, hchars, rfl⟩
    obtain ⟨first, rest, hoffsets⟩ := List.exists_cons_of_ne_nil (List.ne_nil_of_mem hin)
    have hfirst : s.nullOffsets.head? = some first := by rw [hoffsets, List.head?_cons]
    rw [hoffsets, List.pairwise_cons] at hlt
    rw [hoffsets, List.mem_cons] at hin
    rcases hin with heq | hrest
    · rw [heq, hfirst]
    · -- the first null character would be one of `before`
      obtain ⟨front, back, hcut, rfl⟩ :=
        (mem_nullOffsets_iff hfits).mp (List.mem_of_head? hfirst)
      have hless := hlt.1 _ hrest
      rw [hchars] at hcut
      rcases List.append_eq_append_iff.mp hcut with ⟨more, rfl, -⟩ | ⟨more, rfl, hmore⟩
      · rw [String.utf8Len_append] at hless
        omega
      · cases more with
        | nil =>
          rw [List.append_nil] at hless
          omega
        | cons x more =>
          obtain ⟨rfl, -⟩ := List.cons_eq_cons.mp hmore
          exact absurd (by simp) hnull

/-! ### The byte order mark -/

/-- **A byte order mark is the first character.** -/
theorem startsWithByteOrderMark_iff :
    s.startsWithByteOrderMark = true ↔ s.text.toList.head? = some '\uFEFF' := by
  constructor
  · intro h
    simp only [startsWithByteOrderMark, Bool.and_eq_true, beq_iff_eq] at h
    obtain ⟨⟨h0, h1⟩, h2⟩ := h
    cases hchars : s.text.toList with
    | nil =>
      have htext : s.text = "" := String.toList_inj.mp (by simpa using hchars)
      rw [byteAt?_eq, htext] at h0
      cases h0
    | cons x rest =>
      -- the first byte announces three, and three bytes make up the whole character
      have hchar : s.charAt? 0 = some x := charAt?_eq_some_iff.mpr ⟨[], rest, hchars, rfl⟩
      obtain ⟨b, hb, hwidth, -⟩ := byteAt?_of_charAt? hchar
      obtain rfl : b = 0xEF := Option.some.inj (hb.symm.trans h0)
      have hsize : x.utf8Size = 3 := hwidth.symm
      have hlength : (String.singleton x).toByteArray.size = 3 := by
        rw [String.size_toByteArray, String.utf8ByteSize_singleton, hsize]
      have hbytes : (String.singleton x).toByteArray = (String.singleton '\uFEFF').toByteArray := by
        apply ByteArray.ext_getElem (by rw [hlength]; decide)
        intro i hi hi'
        rw [← Option.some_inj, ← getElem?_pos _ i hi, ← getElem?_pos _ i hi']
        rw [hlength] at hi
        rw [← byteAt?_of_toList_eq_cons hchars (by omega)]
        match i, hi with
        | 0, _ => exact h0
        | 1, _ => exact h1
        | 2, _ => exact h2
      rw [List.head?_cons, String.singleton_inj.mp (String.toByteArray_inj.mp hbytes)]
  · intro h
    obtain ⟨rest, hchars⟩ := List.head?_eq_some_iff.mp h
    have hbyte : ∀ i < 3, s.byteAt? i = (String.singleton '\uFEFF').toByteArray[i]? := by
      intro i hi
      exact byteAt?_of_toList_eq_cons hchars hi
    rw [startsWithByteOrderMark, hbyte 0 (by decide), hbyte 1 (by decide), hbyte 2 (by decide)]
    decide

/-! ### All flaws -/

/-- A text of any length has no flaws if it starts with no byte order mark and has no null
character. -/
theorem flaws_eq_nil_of_notMem (hmark : s.text.toList.head? ≠ some '\uFEFF')
    (hnull : '\x00' ∉ s.text.toList) : s.flaws = [] := by
  have hoffsets : s.nullOffsets = [] := by
    rw [nullOffsets, List.filter_eq_nil_iff]
    intro i _ hi
    rw [Bool.and_eq_true, beq_iff_eq, byteAt?_eq_zero_iff, charAt?_eq_some_iff] at hi
    obtain ⟨-, before, after, hchars, -⟩ := hi
    rw [hchars] at hnull
    exact hnull (List.mem_append_right before List.mem_cons_self)
  rw [flaws, hoffsets, if_neg (mt startsWithByteOrderMark_iff.mp hmark)]
  rfl

/-- A text without flaws starts with no byte order mark and has no null character. -/
theorem flaws_eq_nil_iff (hfits : s.text.utf8ByteSize ≤ maxOffset) :
    s.flaws = [] ↔ s.text.toList.head? ≠ some '\uFEFF' ∧ '\x00' ∉ s.text.toList := by
  constructor
  · intro h
    rw [flaws, List.append_eq_nil_iff, List.map_eq_nil_iff] at h
    obtain ⟨hmark, hoffsets⟩ := h
    refine ⟨?_, ?_⟩
    · intro hfirst
      rw [if_pos (startsWithByteOrderMark_iff.mpr hfirst)] at hmark
      cases hmark
    · intro hnull
      obtain ⟨before, after, hchars⟩ := List.append_of_mem hnull
      have hmem := (mem_nullOffsets_iff hfits).mpr ⟨before, after, hchars, rfl⟩
      rw [hoffsets] at hmem
      cases hmem
  · rintro ⟨hmark, hnull⟩
    exact flaws_eq_nil_of_notMem hmark hnull

/-- The byte order mark comes first among the flaws. -/
theorem head?_flaws_eq_byteOrderMark_iff :
    s.flaws.head? = some .byteOrderMark ↔ s.text.toList.head? = some '\uFEFF' := by
  rw [← startsWithByteOrderMark_iff, flaws]
  cases s.startsWithByteOrderMark with
  | true => simp
  | false => cases s.nullOffsets <;> simp

/-- Without it, the first null byte does. -/
theorem head?_flaws_eq_nullByte_iff {pos : Nat} :
    s.flaws.head? = some (.nullByte pos) ↔
      s.text.toList.head? ≠ some '\uFEFF' ∧ s.nullOffsets.head? = some pos := by
  rw [Ne, ← startsWithByteOrderMark_iff, flaws]
  cases s.startsWithByteOrderMark with
  | true => simp
  | false => cases s.nullOffsets <;> simp

end Source

end SelectorLexer
