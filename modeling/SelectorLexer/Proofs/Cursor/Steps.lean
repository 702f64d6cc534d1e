import SelectorLexer.Proofs.Source.Flaws

/-!
# What a cursor comes past

A cursor that is stepped from the start of a source to its end comes past every character
once.  At each it reads the character, and the first byte of it.  The null characters are
no exception: they read as the end does, and are passed all the same.

The way is the same whatever the characters count as.  As content they leave the start of
the token where it is, as trivia they take it along.

## Main definitions

* `Cursor.passMany` — some steps, one after the other.
* `Reading.ofChars` — what is to be read of characters, from an offset on.

## Main results

* `Cursor.Splits.passMany` — where some steps lead from a cut.
* `Cursor.Splits.readings` — what is read from a cut to the end.
* `Cursor.readings_enumerate_characters` — both for the whole text.
-/

namespace SelectorLexer

open String (utf8Len)

/-! ### The first byte of a character -/

/-- Behind a cut comes the first byte of the next character. -/
theorem Source.byteAt?_utf8Len {s : Source} {before after : List Char} {x : Char}
    (h : s.text.toList = before ++ x :: after) :
    s.byteAt? (utf8Len before) = (String.utf8EncodeChar x).head? := by
  obtain ⟨b, more, hcode⟩ := List.exists_cons_of_ne_nil (String.utf8EncodeChar_ne_nil (c := x))
  have hbyte := byteAt?_add h x.utf8Size_pos
  rw [Nat.add_zero, String.toByteArray_singleton, List.utf8Encode_singleton, hcode,
    getElem?_pos _ 0 (by rw [List.size_toByteArray]; exact Nat.succ_pos _),
    List.getElem_toByteArray] at hbyte
  rw [hbyte, hcode]
  rfl

namespace Cursor

theorem Splits.head?_utf8EncodeChar {c : Cursor} {before rest : List Char} {x : Char}
    (h : c.Splits before (x :: rest)) : (String.utf8EncodeChar x).head? = some c.byte := by
  rw [← Source.byteAt?_utf8Len h.chars, ← h.pos, byteAt?_pos h.atEnd_cons]

/-! ### Several steps -/

/-- Pass `n` characters, one after the other. -/
def passMany (c : Cursor) (part : Part) (n : Nat) : Checked Cursor :=
  match n with
  | 0 => .ok c
  | n + 1 => do
    let next ← c.pass part
    next.passMany part n

@[simp] theorem passMany_zero (c : Cursor) (part : Part) : c.passMany part 0 = .ok c := rfl

theorem passMany_succ {c next : Cursor} {part : Part} (h : c.pass part = .ok next) (n : Nat) :
    c.passMany part (n + 1) = next.passMany part n := by
  rw [passMany, h, Checked.ok_bind]

/-- Steps are done one after the other. -/
theorem passMany_add {c mid : Cursor} {part : Part} {m : Nat} (h : c.passMany part m = .ok mid)
    (n : Nat) : c.passMany part (m + n) = mid.passMany part n := by
  induction m generalizing c with
  | zero =>
    rw [passMany_zero] at h
    rw [Nat.zero_add, Except.ok.inj h]
  | succ m ih =>
    rw [passMany] at h
    obtain ⟨next, hnext, hmid⟩ := Checked.bind_eq_ok_iff.mp h
    rw [Nat.add_right_comm, passMany_succ hnext, ih hmid]

/-- At the end, no step changes anything. -/
theorem passMany_of_atEnd {c : Cursor} (h : c.atEnd = true) (part : Part) (n : Nat) :
    c.passMany part n = .ok c := by
  induction n with
  | zero => rfl
  | succ n ih => rw [passMany_succ (pass_of_atEnd h part), ih]

/-- From a cut, each step passes one character as long as there is one. -/
theorem Splits.passMany {c : Cursor} {before after : List Char} (h : c.Splits before after)
    (part : Part) (n : Nat) : c.passMany part n = .ok (c.past part (after.take n)) := by
  induction after generalizing c before n with
  | nil => rw [passMany_of_atEnd (h.atEnd_iff.mpr rfl), List.take_nil, past_nil]
  | cons x rest ih =>
    cases n with
    | zero => rfl
    | succ n =>
      rw [passMany_succ (h.pass_cons part), ih (h.past_singleton part), ← past_append,
        List.singleton_append, List.take_succ_cons]

/-! ### Everything up to the end -/

theorem readings_of_atEnd {c : Cursor} (h : c.atEnd = true) (part : Part) :
    c.readings part = .ok ([], c) := by
  rw [readings, dif_pos h]

theorem readings_of_pass {c next last : Cursor} {part : Part} {found : List Reading}
    (hend : c.atEnd = false) (hpass : c.pass part = .ok next)
    (hnext : next.readings part = .ok (found, last)) :
    c.readings part = .ok (c.reading :: found, last) := by
  rw [readings, dif_neg (by rw [hend]; exact Bool.false_ne_true)]
  split
  · next hfault =>
    rw [hpass] at hfault
    cases hfault
  · next hok =>
    rw [hpass] at hok
    obtain rfl := Except.ok.inj hok
    rw [hnext]

end Cursor

namespace Reading

/-- What is to be read of characters that stand one after the other, the first of them at
the offset `pos`. -/
def ofChars (pos : Nat) : List Char → List Reading
  | [] => []
  | x :: rest => ⟨pos, (String.utf8EncodeChar x).headD 0, x⟩ :: ofChars (pos + x.utf8Size) rest

@[simp] theorem ofChars_nil (pos : Nat) : ofChars pos [] = [] := rfl

theorem ofChars_cons (pos : Nat) (x : Char) (rest : List Char) :
    ofChars pos (x :: rest) =
      ⟨pos, (String.utf8EncodeChar x).headD 0, x⟩ :: ofChars (pos + x.utf8Size) rest := rfl

/-- There is one reading for each character. -/
theorem map_char_ofChars (pos : Nat) (cs : List Char) : (ofChars pos cs).map char = cs := by
  induction cs generalizing pos with
  | nil => rfl
  | cons x rest ih => rw [ofChars_cons, List.map_cons, ih]

/-- The reading of a character comes behind those of the characters in front of it. -/
theorem getElem?_ofChars (pos : Nat) (before after : List Char) (x : Char) :
    (ofChars pos (before ++ x :: after))[before.length]? =
      some ⟨pos + utf8Len before, (String.utf8EncodeChar x).headD 0, x⟩ := by
  induction before generalizing pos with
  | nil => rfl
  | cons y before ih =>
    have hsum : pos + y.utf8Size + utf8Len before = pos + utf8Len (y :: before) := by
      rw [String.utf8Len_cons]
      omega
    rw [List.cons_append, ofChars_cons, List.length_cons, List.getElem?_cons_succ, ih, hsum]

end Reading

namespace Cursor

/-- **From a cut, a cursor reads all characters that are left**, and comes to stand behind
them. -/
theorem Splits.readings {c : Cursor} {before after : List Char} (h : c.Splits before after)
    (part : Part) :
    c.readings part = .ok (Reading.ofChars c.pos after, c.past part after) := by
  induction after generalizing c before with
  | nil => exact readings_of_atEnd (h.atEnd_iff.mpr rfl) part
  | cons x rest ih =>
    have hreading : c.reading = ⟨c.pos, (String.utf8EncodeChar x).headD 0, x⟩ := by
      rw [reading, h.peek_cons, List.headD_eq_head?_getD, h.head?_utf8EncodeChar,
        Option.getD_some]
    rw [readings_of_pass h.atEnd_cons (h.pass_cons part) (ih (h.past_singleton part)), hreading,
      ← past_append, List.singleton_append, past_cons, past_nil, pos_moveTo, Reading.ofChars_cons]

/-- Some steps from the start of a source lead behind as many characters.  As content they
leave the start of the token behind, as trivia they take it along. -/
theorem past_start (s : Source) (part : Part) (run : List Char) :
    (start s).past part run =
      ⟨s, utf8Len run, match part with | .content => 0 | .trivia => utf8Len run⟩ := by
  cases part with
  | content =>
    rw [past_content, start, Nat.zero_add]
  | trivia =>
    rw [past_trivia, start, Nat.zero_add]
    cases run with
    | nil => rfl
    | cons x run => rw [if_neg (List.cons_ne_nil x run)]

/-- **A cursor comes past every character once.**  From the start of a text to its end it
reads all characters, each with its offset and its first byte.  Along the way the token
starts where it did if the characters are content, and where the cursor stands if they are
trivia.  Behind the end nothing more happens. -/
theorem readings_enumerate_characters {text : String} (hfits : text.utf8ByteSize ≤ maxOffset) :
    let s : Source := ⟨text⟩
    ∃ found : List Reading,
      found.map Reading.char = text.toList ∧
      (∀ before x after, text.toList = before ++ x :: after →
        ∃ b, (String.utf8EncodeChar x).head? = some b ∧
          found[before.length]? = some ⟨utf8Len before, b, x⟩) ∧
      s.size = text.utf8ByteSize ∧
      (start s).readings .content = .ok (found, ⟨s, s.size, 0⟩) ∧
      (start s).readings .trivia = .ok (found, ⟨s, s.size, s.size⟩) ∧
      (∀ n, (start s).passMany .content n = .ok ⟨s, utf8Len (text.toList.take n), 0⟩) ∧
      (∀ n, (start s).passMany .trivia n =
        .ok ⟨s, utf8Len (text.toList.take n), utf8Len (text.toList.take n)⟩) ∧
      ∀ c : Cursor, c.atEnd = true → ∀ part n, c.passMany part n = .ok c := by
  intro s
  have hstart : (start s).Splits [] text.toList := splits_start hfits
  have hsize : s.size = utf8Len text.toList := by
    rw [Source.size_of_le hfits, utf8ByteSize_eq_utf8Len]
  have hreadings : ∀ part, (start s).readings part =
      .ok (Reading.ofChars 0 text.toList, (start s).past part text.toList) :=
    fun part => hstart.readings part
  refine ⟨Reading.ofChars 0 text.toList, Reading.map_char_ofChars 0 _, ?_, Source.size_of_le hfits,
    ?_, ?_, ?_, ?_, ?_⟩
  · intro before x after hchars
    obtain ⟨b, more, hcode⟩ := List.exists_cons_of_ne_nil (String.utf8EncodeChar_ne_nil (c := x))
    have hat := Reading.getElem?_ofChars 0 before after x
    rw [← hchars, Nat.zero_add, hcode] at hat
    exact ⟨b, by rw [hcode]; rfl, hat⟩
  · rw [hreadings, past_start, hsize]
  · rw [hreadings, past_start, hsize]
  · intro n
    rw [hstart.passMany, past_start]
  · intro n
    rw [hstart.passMany, past_start]
  · intro c hend part n
    exact passMany_of_atEnd hend part n

/-- A null character between a character of two bytes and one of four. -/
theorem readings_enumerate_characters_null :
    let s : Source := ⟨"é\x00😀"⟩
    s.text.utf8ByteSize ≤ maxOffset ∧
      ∃ found, found.map Reading.char = ['é', '\x00', '😀'] ∧
        found[1]? = some ⟨2, 0, '\x00'⟩ ∧ found[2]? = some ⟨3, 0xF0, '😀'⟩ ∧
        (start s).readings .content = .ok (found, ⟨s, 7, 0⟩) ∧
        (start s).passMany .trivia 2 = .ok ⟨s, 3, 3⟩ ∧
        (start s).passMany .trivia 5 = .ok ⟨s, 7, 7⟩ := by
  intro s
  have hfits : s.text.utf8ByteSize ≤ maxOffset := by decide
  obtain ⟨found, hchars, hat, -, hcontent, -, -, htrivia, -⟩ := readings_enumerate_characters hfits
  refine ⟨hfits, found, hchars.trans (by decide), ?_, ?_, hcontent,
    (htrivia 2).trans (by decide +kernel), (htrivia 5).trans (by decide +kernel)⟩
  · obtain ⟨b, hb, hfound⟩ := hat ['é'] '\x00' ['😀'] (by decide)
    obtain rfl : 0 = b := Option.some.inj hb
    exact hfound
  · obtain ⟨b, hb, hfound⟩ := hat ['é', '\x00'] '😀' [] (by decide)
    obtain rfl : 0xF0 = b := Option.some.inj hb
    exact hfound

end Cursor

end SelectorLexer
