import Mathlib.Logic.Relation
import SelectorLexer.Proofs.Keyword.Bounds

/-!
# Parts of the text that fit together

A host asks for a part of the text by two offsets.  If they make up no part it is told so,
and if one of them cuts a character it is given nothing, without any fault.  So a host that
works with wrong offsets may lose text and not notice it.

Between boundaries nothing is lost.  Two parts that meet at a boundary make up the part
from the start of the first to the end of the second, and so does any number of them, one
behind the other.  All that is left to show is that a host gets such offsets by itself, if
it notes where its cursor stands: every step that leads forward leads from a boundary to a
boundary, a scan that finds a keyword no less than a step over one character.

## Main definitions

* `Cursor.tiles` — the parts between the offsets of a list.
* `Cursor.Forward` — the steps that lead forward.

## Main results

* `Cursor.between_of_not_isBoundary` — what a part is that cuts a character.
* `Cursor.between_append`, `Cursor.tiles_join` — two parts and any number of parts.
* `Cursor.between_tiles_text` — parts of a text, by any offsets and by those of a run.
-/

namespace SelectorLexer

open Relation (ReflTransGen)

namespace Cursor

/-! ### Parts -/

section Parts

variable {c : Cursor} {i j k : Nat}

/-- A part that would cut a character is empty. -/
theorem between_of_not_isBoundary (hle : i ≤ j) (hsize : j ≤ c.source.size)
    (h : ¬ (c.source.IsBoundary i ∧ c.source.IsBoundary j)) : c.between i j = .ok "" := by
  have hnone : c.source.between? i j = none := dif_neg fun hb => h hb.2
  rw [between, if_neg (Nat.not_lt.mpr hsize), if_neg (Nat.not_lt.mpr hle), hnone,
    Option.getD_none]

/-- **Two parts that meet at a boundary make up one.** -/
theorem between_append (hij : i ≤ j) (hjk : j ≤ k) (hsize : k ≤ c.source.size)
    (hi : c.source.IsBoundary i) (hj : c.source.IsBoundary j) (hk : c.source.IsBoundary k) :
    ∃ first second, c.between i j = .ok first ∧ c.between j k = .ok second ∧
      c.between i k = .ok (first ++ second) := by
  obtain ⟨first, -, hfirst, hbytes⟩ := between_of_isBoundary hij (Nat.le_trans hjk hsize) hi hj
  obtain ⟨second, -, hsecond, hbytes'⟩ := between_of_isBoundary hjk hsize hj hk
  obtain ⟨whole, -, hwhole, hbytes''⟩ := between_of_isBoundary (Nat.le_trans hij hjk) hsize hi hk
  obtain rfl : whole = first ++ second := by
    rw [← String.toByteArray_inj, String.toByteArray_append, hbytes, hbytes', hbytes'',
      ByteArray.extract_append_extract, Nat.min_eq_left hij, Nat.max_eq_right hjk]
  exact ⟨first, second, hfirst, hsecond, hwhole⟩

/-- The parts of the text between each offset of a list and the next one. -/
def tiles (c : Cursor) : List Nat → Checked (List String)
  | i :: j :: rest => do
    let part ← c.between i j
    let more ← c.tiles (j :: rest)
    return part :: more
  | _ => .ok []

theorem tiles_cons_cons {part : String} {rest : List Nat} {more : List String}
    (hpart : c.between i j = .ok part) (hmore : c.tiles (j :: rest) = .ok more) :
    c.tiles (i :: j :: rest) = .ok (part :: more) := by
  rw [tiles, hpart, Checked.ok_bind, hmore]
  rfl

/-- **Any number of parts make up one**, from boundary to boundary. -/
theorem tiles_join {rest : List Nat} (horder : (i :: rest).IsChain (· ≤ ·))
    (hplaces : ∀ j ∈ i :: rest, c.source.IsBoundary j ∧ j ≤ c.source.size) :
    let stop := (i :: rest).getLast (List.cons_ne_nil i rest)
    i ≤ stop ∧ ∃ parts, c.tiles (i :: rest) = .ok parts ∧
      c.between i stop = .ok (String.join parts) := by
  obtain ⟨hi, hsize⟩ := hplaces i List.mem_cons_self
  induction rest generalizing i with
  | nil =>
    obtain ⟨part, -, hpart, hbytes⟩ := between_of_isBoundary (Nat.le_refl i) hsize hi hi
    obtain rfl : part = "" := by
      rw [← String.toByteArray_inj, hbytes, ByteArray.extract_same]
      rfl
    exact ⟨Nat.le_refl i, [], rfl, hpart⟩
  | cons j rest ih =>
    obtain ⟨hij, horder⟩ := List.isChain_cons_cons.mp horder
    have hlater := fun k hk => hplaces k (List.mem_cons_of_mem i hk)
    obtain ⟨hj, hjsize⟩ := hlater j List.mem_cons_self
    obtain ⟨hstop, more, hmore, hjoin⟩ := ih horder hlater hj hjsize
    intro stop
    obtain ⟨hb, hle⟩ := hplaces stop (List.getLast_mem _)
    rw [← List.getLast_cons_cons (a := i)] at hstop hjoin
    obtain ⟨part, tail, hpart, htail, hwhole⟩ := between_append hij hstop hle hi hj hb
    obtain rfl := Except.ok.inj (htail.symm.trans hjoin)
    refine ⟨Nat.le_trans hij hstop, part :: more, tiles_cons_cons hpart hmore, ?_⟩
    rw [String.join_cons]
    exact hwhole

end Parts

/-! ### Steps that lead forward -/

/-- The steps that lead forward: over one character, over a run of characters, and over a
keyword that a scan finds. -/
inductive Forward : Cursor → Cursor → Prop where
  /-- Past the next character. -/
  | pass {c next : Cursor} {part : Part} (h : c.pass part = .ok next) : Forward c next
  /-- Past the characters that satisfy a predicate. -/
  | passWhile {c next : Cursor} {part : Part} {p : Char → Bool}
    (h : c.passWhile part p = .ok next) : Forward c next
  /-- Past a keyword, and the blanks in front of it. -/
  | scan {c next : Cursor} {o : Options} {wanted : KindSet} {t : Token}
    (h : Keyword.scan o wanted c = .ok (some t, next)) : Forward c next

section Forward

variable {c d : Cursor} {s : Source}

/-- A step forward leads from boundary to boundary. -/
theorem Forward.reaches (h : Forward c d) (hc : c.Reaches s) : d.Reaches s ∧ c.pos ≤ d.pos := by
  cases h with
  | pass h => exact ⟨hc.pass h, pos_le_of_pass h⟩
  | passWhile h => exact ⟨(stable_reach s).passWhile hc h, pos_le_of_passWhile h⟩
  | scan h => exact ⟨Keyword.stable_scan (stable_reach s) hc h, Keyword.pos_le_of_scan h⟩

/-- And so does any number of them. -/
theorem reaches_of_forward (h : ReflTransGen Forward c d) (hc : c.Reaches s) :
    d.Reaches s ∧ c.pos ≤ d.pos := by
  induction h with
  | refl => exact ⟨hc, Nat.le_refl _⟩
  | tail _ hstep ih =>
    obtain ⟨hd, hle⟩ := ih
    obtain ⟨he, hle'⟩ := hstep.reaches hd
    exact ⟨he, Nat.le_trans hle hle'⟩

/-- The places along a run that leads forward are boundaries in ascending order. -/
theorem places_of_forward {later : List Cursor}
    (h : (c :: later).IsChain (ReflTransGen Forward)) (hc : c.Reaches s) :
    ((c :: later).map pos).IsChain (· ≤ ·) ∧
      ∀ i ∈ (c :: later).map pos, s.IsBoundary i ∧ i ≤ s.size := by
  induction later generalizing c with
  | nil =>
    refine ⟨.singleton _, ?_⟩
    intro i hi
    rw [List.mem_singleton.mp hi]
    exact ⟨hc.2.2, hc.2.1⟩
  | cons d later ih =>
    obtain ⟨hstep, hrest⟩ := List.isChain_cons_cons.mp h
    obtain ⟨hd, hle⟩ := reaches_of_forward hstep hc
    obtain ⟨horder, hplaces⟩ := ih hrest hd
    refine ⟨.cons_cons hle horder, ?_⟩
    intro i hi
    rcases List.mem_cons.mp hi with rfl | hi
    · exact ⟨hc.2.2, hc.2.1⟩
    · exact hplaces i hi

end Forward

/-- **Parts of the text are exact, and they fit together.**  A part is refused for an end
behind the source, and otherwise for a start behind its end, and for nothing else.  Between
boundaries it is made of the bytes there, and if an offset cuts a character it is empty.
Two parts that meet at a boundary make up one.  And if a cursor is moved forward from a
boundary, and its place is noted on the way, then the parts between the places make up the
text from the first place to the last. -/
theorem between_tiles_text {c : Cursor} (hfits : c.source.text.utf8ByteSize ≤ maxOffset) :
    let s := c.source
    (∀ i j,
      (c.between i j = .error (.endPastSource j s.size) ↔ s.size < j) ∧
      (c.between i j = .error (.startPastEnd i j) ↔ j ≤ s.size ∧ j < i) ∧
      (i ≤ j → j ≤ s.size → ∃ part, c.between i j = .ok part ∧
        (s.IsBoundary i ∧ s.IsBoundary j →
          part.toByteArray = s.text.toByteArray.extract i j) ∧
        (¬ (s.IsBoundary i ∧ s.IsBoundary j) → part = ""))) ∧
    (∀ i j k, s.IsBoundary i → s.IsBoundary j → s.IsBoundary k → i ≤ j → j ≤ k →
      ∃ first second, c.between i j = .ok first ∧ c.between j k = .ok second ∧
        c.between i k = .ok (first ++ second)) ∧
    ∀ later, s.IsBoundary c.pos → (c :: later).IsChain (ReflTransGen Forward) →
      ∃ parts, c.tiles ((c :: later).map pos) = .ok parts ∧
        c.between c.pos ((c :: later).getLast (List.cons_ne_nil c later)).pos =
          .ok (String.join parts) := by
  intro s
  have hsize : ∀ {i}, s.IsBoundary i → i ≤ s.size := by
    intro i hi
    rw [Source.size_of_le hfits]
    exact hi.le
  refine ⟨?part, ?two, ?run⟩
  case part =>
    intro i j
    refine ⟨by simp [between_eq_error_iff, s], by simp [between_eq_error_iff, s], ?_⟩
    intro hle hj
    by_cases hb : s.IsBoundary i ∧ s.IsBoundary j
    · obtain ⟨part, -, hpart, hbytes⟩ := between_of_isBoundary hle hj hb.1 hb.2
      exact ⟨part, hpart, fun _ => hbytes, fun h => absurd hb h⟩
    · exact ⟨"", between_of_not_isBoundary hle hj hb, fun h => absurd h hb, fun _ => rfl⟩
  case two =>
    intro i j k hi hj hk hij hjk
    exact between_append hij hjk (hsize hk) hi hj hk
  case run =>
    intro later hb hrun
    obtain ⟨horder, hplaces⟩ := places_of_forward hrun ⟨rfl, hsize hb, hb⟩
    obtain ⟨-, parts, hparts, hjoin⟩ := tiles_join horder hplaces
    have hstop : ((c :: later).map pos).getLast (List.cons_ne_nil c.pos (later.map pos)) =
        ((c :: later).getLast (List.cons_ne_nil c later)).pos := List.getLast_map _
    rw [← hstop]
    exact ⟨parts, hparts, hjoin⟩

/-- A scan drops a blank behind a character of two bytes, and two runs lead to the end of the
text.  An offset inside the last character cuts it. -/
theorem between_tiles_text_across_scan :
    let c : Cursor := ⟨⟨"é at: 😀"⟩, 2, 1⟩
    let later : List Cursor := [⟨c.source, 6, 3⟩, ⟨c.source, 7, 7⟩, ⟨c.source, 11, 7⟩]
    c.source.text.utf8ByteSize ≤ maxOffset ∧ c.source.IsBoundary c.pos ∧
      (c :: later).IsChain (ReflTransGen Forward) ∧
      c.tiles [2, 6, 7, 11] = .ok [" at:", " ", "😀"] ∧ c.between 2 11 = .ok " at: 😀" ∧
      c.between 2 9 = .ok "" ∧ c.between 9 12 = .error (.endPastSource 12 11) ∧
      c.between 9 2 = .error (.startPastEnd 9 2) := by
  intro c later
  have hfits : c.source.text.utf8ByteSize ≤ maxOffset := by decide
  have hb : c.source.IsBoundary c.pos := by decide +kernel
  have hscan : Keyword.scan {} .keywords c =
      .ok (some ⟨.keyword, 3, 6⟩, ⟨c.source, 6, 3⟩) := by decide +kernel
  have hblanks : (⟨c.source, 6, 3⟩ : Cursor).passWhile .trivia isBlank =
      .ok ⟨c.source, 7, 7⟩ := by decide +kernel
  have hlast : (⟨c.source, 7, 7⟩ : Cursor).pass .content = .ok ⟨c.source, 11, 7⟩ := by
    decide +kernel
  have hrun : (c :: later).IsChain (ReflTransGen Forward) :=
    .cons_cons (.single (.scan hscan)) (.cons_cons (.single (.passWhile hblanks))
      (.cons_cons (.single (.pass hlast)) (.singleton _)))
  obtain ⟨hpart, -, htiles⟩ := between_tiles_text hfits
  obtain ⟨parts, hparts, hjoin⟩ := htiles later hb hrun
  have hfound : c.tiles [2, 6, 7, 11] = .ok [" at:", " ", "😀"] := by decide +kernel
  obtain rfl := Except.ok.inj (hfound.symm.trans hparts)
  obtain ⟨-, -, hcut⟩ := hpart 2 9
  obtain ⟨part, hempty, -, hnone⟩ := hcut (by decide) (by decide)
  obtain rfl := hnone (by decide +kernel)
  exact ⟨hfits, hb, hrun, hfound, hjoin, hempty, (hpart 9 12).1.mpr (by decide),
    (hpart 9 2).2.1.mpr (by decide)⟩

end Cursor

end SelectorLexer
