import Mathlib.Data.List.Sort
import SelectorLexer.Proofs.Cursor.Steps

/-!
# Searching for the flaws of a source

The null bytes of a source are defined offset by offset.  They can as well be found by
searching: look for the first one, then for the first one behind it, and so on, until there
is none.  What is needed of the search for a single byte is that it finds the first place
where the byte stands.

The offset from which the search goes on lies right behind a null byte, so it never lies
behind the end, and all null bytes in front of it have been found.  This is the invariant of
the search.  It holds for any bytes, and it says that the search misses none and finds none
twice.

A cursor meets the same null bytes on its way.  It reads them as it reads the end, and they
are the only places in front of the end where it does.

## Main definitions

* `FindsFirst` — what is relied on of a search for one byte.
* `searchNulls` — the search for all null bytes, from an offset on.

## Main results

* `searchNulls_append` — the search finds the null bytes from its offset on.
* `Source.searchNulls_bytes` — from the start, it finds those of the source.
* `Cursor.mem_nullOffsets_iff` — a stepped cursor meets them.
* `Source.flaws_agree_with_cursor` — all of it together, for the flaws of a text.
-/

namespace SelectorLexer

open String (utf8Len)

/-! ### The search -/

/-- A search for a byte answers with the first place where the byte stands, and has no answer
where there is none. -/
structure FindsFirst (find : UInt8 → List UInt8 → Option Nat) : Prop where
  eq_none : ∀ {b : UInt8} {bytes : List UInt8}, b ∉ bytes → find b bytes = none
  eq_some : ∀ {b : UInt8} {before after : List UInt8}, b ∉ before →
    find b (before ++ b :: after) = some before.length

theorem findsFirst_idxOf? : FindsFirst fun b bytes => bytes.idxOf? b where
  eq_none h := List.idxOf?_eq_none_iff.mpr h
  eq_some {b before after} h := by
    rw [List.idxOf?_eq_some_iff]
    refine ⟨by simp, by simp, ?_⟩
    intro j hj heq
    rw [List.getElem_append_left hj] at heq
    exact h (heq ▸ List.getElem_mem hj)

/-- The places of the null bytes from `offset` on, found one after the other.  Places that
offsets cannot count are left out.  There is no answer if the search would have to go on
behind the end. -/
def searchNulls (find : UInt8 → List UInt8 → Option Nat) (bytes : List UInt8) (offset : Nat) :
    Option (List Nat) :=
  if offset ≤ bytes.length then
    match find 0 (bytes.drop offset) with
    | none => some []
    | some i => do
      let rest ← searchNulls find bytes (offset + i + 1)
      return if offset + i ≤ maxOffset then (offset + i) :: rest else rest
  else
    none
termination_by bytes.length + 1 - offset

theorem idxsOf_eq_nil_of_notMem {b : UInt8} {bytes : List UInt8} (h : b ∉ bytes)
    (offset : Nat) : bytes.idxsOf b offset = [] := by
  rw [List.idxsOf_eq_nil_iff]
  intro b' hb'
  exact beq_false_of_ne fun heq => h (heq ▸ hb')

/-- **The search finds the null bytes from its offset on**, whatever stands in front of it. -/
theorem searchNulls_append {find : UInt8 → List UInt8 → Option Nat} (hfind : FindsFirst find)
    (front back : List UInt8) :
    searchNulls find (front ++ back) front.length =
      some ((back.idxsOf 0 front.length).filter (· ≤ maxOffset)) := by
  induction hn : back.length using Nat.strong_induction_on generalizing front back with
  | _ n ih =>
    have hoffset : front.length ≤ (front ++ back).length := by simp
    rw [searchNulls, if_pos hoffset, List.drop_left]
    by_cases hnull : 0 ∈ back
    · obtain ⟨mid, after, rfl, hmid⟩ := List.eq_append_cons_of_mem hnull
      -- the search goes on behind the first null byte, in front of fewer bytes
      have hless : after.length < n := by
        rw [← hn, List.length_append, List.length_cons]
        omega
      have hrest := ih after.length hless (front ++ mid ++ [0]) after rfl
      have hbytes : front ++ mid ++ [0] ++ after = front ++ (mid ++ 0 :: after) := by simp
      have hnext : (front ++ mid ++ [0]).length = front.length + mid.length + 1 := by
        simp [Nat.add_assoc]
      rw [hbytes, hnext] at hrest
      have hplaces : (mid ++ 0 :: after).idxsOf 0 front.length =
          (front.length + mid.length) :: after.idxsOf 0 (front.length + mid.length + 1) := by
        rw [List.idxsOf_append, idxsOf_eq_nil_of_notMem hmid, List.nil_append,
          List.idxsOf_cons, if_pos (beq_self_eq_true 0)]
      rw [hfind.eq_some hmid, hplaces, List.filter_cons]
      simp only [hrest, decide_eq_true_eq]
      rfl
    · rw [hfind.eq_none hnull, idxsOf_eq_nil_of_notMem hnull]
      rfl

namespace Source

variable {s : Source}

/-- The bytes of the text. -/
def bytes (s : Source) : List UInt8 := s.text.toByteArray.data.toList

theorem length_bytes (s : Source) : s.bytes.length = s.text.utf8ByteSize := by
  rw [bytes, Array.length_toList, ByteArray.size_data, String.size_toByteArray]

theorem byteAt?_eq_getElem?_bytes (s : Source) (i : Nat) : s.byteAt? i = s.bytes[i]? := by
  rw [byteAt?_eq, bytes]
  by_cases h : i < s.text.toByteArray.size
  · rw [getElem?_pos _ i h, getElem?_pos _ i (by simpa using h)]
    rfl
  · rw [getElem?_neg _ i h, getElem?_neg _ i (by simpa using h)]

theorem nullOffsets_eq_idxsOf (s : Source) :
    s.nullOffsets = (s.bytes.idxsOf 0).filter (· ≤ maxOffset) := by
  -- both are in ascending order, so it is enough that they have the same members
  apply s.pairwise_nullOffsets.eq_of_mem_iff (List.pairwise_idxsOf.filter _)
  intro i
  rw [nullOffsets, List.mem_filter, List.mem_range, Bool.and_eq_true, beq_iff_eq,
    byteAt?_eq_getElem?_bytes, List.getElem?_eq_some_iff, ← length_bytes, List.mem_filter,
    List.mem_idxsOf_iff_exists_getElem_pos]
  simp only [beq_iff_eq]
  constructor
  · rintro ⟨-, hle, hnull⟩
    exact ⟨hnull, hle⟩
  · rintro ⟨hnull, hle⟩
    exact ⟨hnull.1, hle, hnull⟩

/-- **From the start of a source, the search finds the null bytes of the source.** -/
theorem searchNulls_bytes {find : UInt8 → List UInt8 → Option Nat} (hfind : FindsFirst find)
    (s : Source) : searchNulls find s.bytes 0 = some s.nullOffsets := by
  rw [nullOffsets_eq_idxsOf]
  exact searchNulls_append hfind [] s.bytes

end Source

/-! ### The way of a cursor -/

namespace Cursor

variable {c : Cursor} {before after : List Char}

/-- After some steps from a cut, the cursor is at the cut behind as many characters. -/
theorem Splits.past_take (h : c.Splits before after) (part : Part) (n : Nat) :
    (c.past part (after.take n)).Splits (before ++ after.take n) (after.drop n) := by
  rw [← List.take_append_drop n after] at h
  exact h.past part

/-- In front of the end, a cursor at a cut reads `endChar` where a null character stands. -/
theorem Splits.peek_eq_endChar_iff (h : c.Splits before after) :
    c.peek = endChar ∧ c.atEnd = false ↔ ∃ rest, after = '\x00' :: rest := by
  constructor
  · rintro ⟨hpeek, hend⟩
    obtain ⟨x, rest, rfl⟩ := h.exists_cons hend
    rw [h.peek_cons] at hpeek
    exact ⟨rest, by rw [hpeek]; rfl⟩
  · rintro ⟨rest, rfl⟩
    exact ⟨h.peek_cons, h.atEnd_cons⟩

/-- **A stepped cursor meets the null bytes.**  They are the places in front of the end where
it reads what it reads at the end. -/
theorem mem_nullOffsets_iff {text : String} (hfits : text.utf8ByteSize ≤ maxOffset)
    (part : Part) (pos : Nat) :
    pos ∈ (⟨text⟩ : Source).nullOffsets ↔
      ∃ n, ((start ⟨text⟩).past part (text.toList.take n)).pos = pos ∧
        ((start ⟨text⟩).past part (text.toList.take n)).peek = endChar ∧
        ((start ⟨text⟩).past part (text.toList.take n)).atEnd = false := by
  have hway := (splits_start hfits).past_take part
  rw [Source.mem_nullOffsets_iff hfits]
  constructor
  · rintro ⟨before, after, hchars, rfl⟩
    have hchars : text.toList = before ++ '\x00' :: after := hchars
    have hat := hway before.length
    rw [hchars, List.take_left, List.drop_left] at hat
    refine ⟨before.length, ?_⟩
    rw [hchars, List.take_left]
    exact ⟨hat.pos, hat.peek_eq_endChar_iff.mpr ⟨after, rfl⟩⟩
  · rintro ⟨n, rfl, hread⟩
    obtain ⟨rest, hrest⟩ := (hway n).peek_eq_endChar_iff.mp hread
    exact ⟨text.toList.take n, rest, by rw [← hrest, List.take_append_drop], (hway n).pos⟩

end Cursor

/-! ### All flaws -/

namespace Source

/-- **The flaws of a text are complete and exact, and a cursor meets the null bytes.**  A byte
order mark of three bytes comes first, exactly if it is the first character.  Then come the
null characters, each one byte long and at its offset, in ascending order; a search that goes
on behind each null byte finds the same.  On the way of a cursor from the start of the text
to its end they are the places where it reads what it reads at the end, although it is not
there, so that a text has none of them if only the end reads like the end. -/
theorem flaws_agree_with_cursor {find : UInt8 → List UInt8 → Option Nat}
    (hfind : FindsFirst find) {text : String} (hfits : text.utf8ByteSize ≤ maxOffset) :
    let s : Source := ⟨text⟩
    ∃ nulls : List Nat,
      searchNulls find s.bytes 0 = some nulls ∧
      s.flaws = (if text.toList.head? = some '\uFEFF' then [.byteOrderMark] else []) ++
        nulls.map .nullByte ∧
      s.flaws.map Flaw.span = (if text.toList.head? = some '\uFEFF' then [⟨0, 3⟩] else []) ++
        nulls.map (fun pos => ⟨pos, pos + 1⟩) ∧
      nulls.Pairwise (· < ·) ∧
      (∀ pos, pos ∈ nulls ↔
        ∃ before after, text.toList = before ++ '\x00' :: after ∧ pos = utf8Len before) ∧
      ∀ part, ∃ way : Nat → Cursor,
        (∀ n, (Cursor.start s).passMany part n = .ok (way n)) ∧
        (∃ n, (way n).atEnd = true) ∧
        (∀ pos, pos ∈ nulls ↔
          ∃ n, (way n).pos = pos ∧ (way n).peek = endChar ∧ (way n).atEnd = false) ∧
        ((∀ pos, .nullByte pos ∉ s.flaws) ↔
          ∀ n, (way n).peek = endChar ↔ (way n).atEnd = true) := by
  intro s
  have hflaws : s.flaws = (if text.toList.head? = some '\uFEFF' then [.byteOrderMark] else []) ++
      s.nullOffsets.map .nullByte := by
    rw [flaws]
    simp only [startsWithByteOrderMark_iff]
    rfl
  refine ⟨s.nullOffsets, searchNulls_bytes hfind s, hflaws, ?spans, s.pairwise_nullOffsets,
    fun pos => mem_nullOffsets_iff hfits, ?way⟩
  case spans =>
    rw [hflaws, List.map_append, List.map_map, apply_ite (List.map Flaw.span)]
    rfl
  case way =>
    intro part
    have hway := (Cursor.splits_start hfits).past_take part
    have hmeets := Cursor.mem_nullOffsets_iff hfits part
    refine ⟨fun n => (Cursor.start s).past part (text.toList.take n),
      fun n => (Cursor.splits_start hfits).passMany part n, ⟨text.toList.length, ?_⟩, hmeets, ?_⟩
    · rw [(hway _).atEnd_iff, List.drop_length]
    · have hnone : (∀ pos, .nullByte pos ∉ s.flaws) ↔ ∀ pos, pos ∉ s.nullOffsets := by
        simp [hflaws]
      rw [hnone]
      constructor
      · intro h n
        refine ⟨?_, Cursor.peek_of_atEnd⟩
        intro hpeek
        by_contra hend
        exact h _ ((hmeets _).mpr ⟨n, rfl, hpeek, Bool.eq_false_iff.mpr hend⟩)
      · intro h pos hpos
        obtain ⟨n, -, hpeek, hend⟩ := (hmeets pos).mp hpos
        rw [(h n).mp hpeek] at hend
        cases hend

/-- Two null characters side by side, and a third one at the end, behind a character of two
bytes. -/
theorem flaws_agree_with_cursor_adjacent_nulls :
    let text := "\uFEFFa\x00\x00é\x00"
    let s : Source := ⟨text⟩
    FindsFirst (fun b bytes => bytes.idxOf? b) ∧ text.utf8ByteSize ≤ maxOffset ∧
      s.flaws = [.byteOrderMark, .nullByte 4, .nullByte 5, .nullByte 8] ∧
      searchNulls (fun b bytes => bytes.idxOf? b) s.bytes 0 = some [4, 5, 8] ∧
      ∃ n c, (Cursor.start s).passMany .trivia n = .ok c ∧ c.pos = 8 ∧ c.peek = endChar ∧
        c.atEnd = false := by
  intro text s
  have hfits : text.utf8ByteSize ≤ maxOffset := by decide
  have hflaws : s.flaws = [.byteOrderMark, .nullByte 4, .nullByte 5, .nullByte 8] := by
    decide +kernel
  obtain ⟨nulls, hsearch, hall, -, -, -, hway⟩ := flaws_agree_with_cursor findsFirst_idxOf? hfits
  have hhead : text.toList.head? = some '\uFEFF' := by decide +kernel
  rw [if_pos hhead] at hall
  have hmap : nulls.map Flaw.nullByte = [4, 5, 8].map Flaw.nullByte :=
    List.append_cancel_left (hall.symm.trans hflaws)
  obtain rfl : nulls = [4, 5, 8] :=
    List.map_injective_iff.mpr (fun _ _ h => Flaw.nullByte.inj h) hmap
  obtain ⟨way, hpass, -, hmeets, -⟩ := hway .trivia
  obtain ⟨n, hread⟩ := (hmeets 8).mp (by simp)
  exact ⟨findsFirst_idxOf?, hfits, hflaws, hsearch, n, way n, hpass n, hread⟩

end Source

end SelectorLexer
