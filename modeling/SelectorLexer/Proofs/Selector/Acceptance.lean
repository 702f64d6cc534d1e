import SelectorLexer.Proofs.Selector.Reading
import SelectorLexer.Proofs.Source.Flaws

/-!
# The texts that are selectors

A text is read as a selector exactly when it is a layout with at least one piece, and
the selector that comes of it has the keywords of these pieces, in order and each at its
place.  For this a layout must have no flaw.  It cannot have one: neither a null
character nor a byte order mark is a blank, a colon or part of a name.

## Main definitions

* `Selector.Layout.Spells` — a layout with a piece in it makes up a whole text.

## Main results

* `Selector.Layout.flaws_eq_nil` — layouts have no flaws.
* `Selector.parse_of_spells`, `Selector.exists_spells_of_parse` — what is laid out is
  read, and what is read is laid out.
* `Selector.parse_accepts_layouts` — both directions, with all there is to know about the
  selector.
-/

namespace SelectorLexer

open String (utf8Len)

namespace Selector

/-! ### The characters of a layout -/

section Characters

variable {a : Alphabet}

theorem Piece.class_of_mem_join {ps : List (Piece a)} {x : Char} (hx : x ∈ Piece.join ps) :
    isBlank x = true ∨ a.isContinue x = true ∨ x = ':' := by
  induction ps with
  | nil => cases hx
  | cons p ps ih =>
    rw [Piece.join_cons, Piece.chars, List.mem_append, List.mem_append, List.mem_append,
      List.mem_singleton] at hx
    rcases hx with (hblank | hname | hcolon) | hrest
    · exact .inl (p.isBlank_of_mem x hblank)
    · exact .inr (.inl (Alphabet.isContinue_of_mem_name p.isName x hname))
    · exact .inr (.inr hcolon)
    · exact ih hrest

namespace Layout

theorem not_mem_chars_null (l : Layout a) : '\x00' ∉ l.chars := by
  have hsign : '\x00' ∈ signs := by decide
  intro hnull
  rw [chars, List.mem_append] at hnull
  rcases hnull with hjoin | hblanks
  · rcases Piece.class_of_mem_join hjoin with hblank | hcont | hcolon
    · rw [isBlank_eq_false_of_mem_signs hsign] at hblank
      cases hblank
    · rw [a.isContinue_eq_false_of_mem_signs hsign] at hcont
      cases hcont
    · cases hcolon
  · exact l.not_mem_blanks hsign hblanks

theorem head?_chars_ne_byteOrderMark (l : Layout a) : l.chars.head? ≠ some '\uFEFF' := by
  obtain ⟨pieces, blanks, hblanks⟩ := l
  intro hhead
  have hclass : isBlank '\uFEFF' = true ∨ a.isStart '\uFEFF' = true := by
    cases pieces with
    | nil => exact .inl (hblanks _ (List.mem_of_head? hhead))
    | cons p ps =>
      rw [chars, Piece.join_cons, List.append_assoc] at hhead
      obtain ⟨x, hx, hclass⟩ := p.head?_chars_append (Piece.join ps ++ blanks)
      rw [Option.some.inj (hx.symm.trans hhead)] at hclass
      exact hclass
  rw [isBlank_byteOrderMark, a.isStart_byteOrderMark] at hclass
  simp at hclass

/-- Layouts have no flaws. -/
theorem flaws_eq_nil {text : String} (hfits : text.utf8ByteSize ≤ maxOffset) {l : Layout a}
    (h : l.chars = text.toList) : (⟨text⟩ : Source).flaws = [] := by
  rw [Source.flaws_eq_nil_iff hfits]
  simp only [← h]
  exact ⟨l.head?_chars_ne_byteOrderMark, l.not_mem_chars_null⟩

theorem isFront_of_chars_eq {l : Layout a} {text : String} (h : l.chars = text.toList) :
    l.IsFront text.toList [] := by
  rw [← h]
  exact l.isFront_chars

/-- The layout makes up the whole text, and there is a keyword in it. -/
def Spells (l : Layout a) (text : String) : Prop := l.pieces ≠ [] ∧ l.chars = text.toList

theorem Spells.isFront {l : Layout a} {text : String} (h : l.Spells text) :
    l.IsFront text.toList [] :=
  isFront_of_chars_eq h.2

end Layout

end Characters

/-! ### Soundness and completeness -/

section Acceptance

variable {text : String} {o : Options}

/-- A text that is its longest front has no flaw, and comes to the verdict on it. -/
theorem parse_of_isFront_nil (hfits : text.utf8ByteSize ≤ maxOffset) {l : Layout o.alphabet}
    (hl : l.IsFront text.toList []) : parse text o = .ok (l.verdict text []) := by
  have hchars : l.chars = text.toList := by rw [hl.eq_append, List.append_nil]
  exact parse_of_isFront hfits (l.flaws_eq_nil hfits hchars) hl Layout.finished_nil

/-- What is laid out is read. -/
theorem parse_of_spells (hfits : text.utf8ByteSize ≤ maxOffset) {l : Layout o.alphabet}
    (h : l.Spells text) :
    parse text o = .ok ⟨.ok (l.selector text), l.events ++ [(l.selector text).event]⟩ := by
  rw [parse_of_isFront_nil hfits h.isFront]
  obtain ⟨pieces, blanks, hblanks⟩ := l
  cases pieces with
  | nil => exact absurd rfl h.1
  | cons p ps => rfl

/-- What is read is laid out. -/
theorem exists_spells_of_parse (hfits : text.utf8ByteSize ≤ maxOffset) {p : Parse}
    (hp : parse text o = .ok p) {s : Selector} (hs : p.outcome = .ok s) :
    ∃ l : Layout o.alphabet, l.Spells text := by
  rcases parse_cases hfits hp with ⟨flaw, -, rfl⟩ | ⟨-, l, rest, hl, -, rfl⟩
  · cases hs
  · refine ⟨l, ?_, ?_⟩
    · rintro hpieces
      cases rest <;> simp [Layout.verdict, hpieces] at hs
    · cases rest with
      | nil => rw [hl.eq_append, List.append_nil]
      | cons x rest => simp [Layout.verdict] at hs

/-- A text that offsets can count is always read to some outcome. -/
theorem exists_parse (hfits : text.utf8ByteSize ≤ maxOffset) (o : Options) :
    ∃ p, parse text o = .ok p := by
  cases hflaws : (⟨text⟩ : Source).flaws with
  | cons flaw flaws =>
    rw [parse, hflaws]
    exact ⟨_, rfl⟩
  | nil =>
    obtain ⟨l, rest, hl, hfinished⟩ := exists_isFront o.alphabet text.toList
    exact ⟨_, parse_of_isFront hfits hflaws hl hfinished⟩

/-- **The selectors are the layouts.**  A text is read as a selector exactly when it is
spelled by a layout, and then the selector has the keywords of that layout: as many, each
with the bytes that it takes up, and each with its text.  How failures are treated makes
no difference. -/
theorem parse_accepts_layouts (hfits : text.utf8ByteSize ≤ maxOffset) (o : Options) :
    ∃ p, parse text o = .ok p ∧
      ((∃ s, p.outcome = .ok s) ↔ ∃ l : Layout o.alphabet, l.Spells text) ∧
      (∀ s (l : Layout o.alphabet), p.outcome = .ok s → l.Spells text →
        s.arity = l.pieces.length ∧
        (∀ before piece after, l.pieces = before ++ piece :: after →
          s.segments[before.length]? =
            some ⟨.keyword, utf8Len (Piece.join before ++ piece.blanks),
              utf8Len (Piece.join before ++ piece.chars)⟩) ∧
        s.segments.map s.part? = l.pieces.map (fun piece => some piece.text) ∧
        s.parts = l.pieces.map Piece.text ∧
        s.name = String.join (l.pieces.map Piece.text)) ∧
      ∀ policy, parse text { o with onFailure := policy } = .ok p := by
  obtain ⟨p, hp⟩ := exists_parse hfits o
  refine ⟨p, hp, ⟨?_, ?_⟩, ?_, ?_⟩
  · rintro ⟨s, hs⟩
    exact exists_spells_of_parse hfits hp hs
  · rintro ⟨l, hl⟩
    rw [parse_of_spells hfits hl] at hp
    obtain rfl := Except.ok.inj hp
    exact ⟨_, rfl⟩
  · intro s l hs hl
    rw [parse_of_spells hfits hl] at hp
    obtain rfl := Except.ok.inj hp
    obtain rfl := Except.ok.inj hs
    have hparts := l.parts_selector hl.isFront
    refine ⟨?_, ?_, l.part?_selector hl.isFront, hparts, ?_⟩
    · rw [arity, Layout.selector, List.length_map, Piece.length_segments]
    · intro before piece after hpieces
      rw [Layout.selector, List.getElem?_map, hpieces, Piece.getElem?_segments]
      rfl
    · rw [name, hparts]
  · intro policy
    rw [parse_policy hfits, hp]

/-- Blanks of two kinds around two keywords. -/
theorem parse_accepts_layouts_at_put :
    " at:\u00a0put:\n".utf8ByteSize ≤ maxOffset ∧
      ∃ p s, parse " at:\u00a0put:\n" {} = .ok p ∧ p.outcome = .ok s ∧ s.arity = 2 ∧
        s.parts = ["at:", "put:"] ∧ s.name = "at:put:" ∧
        parse " at:\u00a0put:\n" ⟨.stay, .unicode⟩ = .ok p := by
  have hfits : " at:\u00a0put:\n".utf8ByteSize ≤ maxOffset := by decide
  obtain ⟨p, hp, hiff, hselector, hpolicy⟩ := parse_accepts_layouts hfits {}
  let l : Layout .unicode :=
    ⟨[⟨[' '], ['a', 't'], List.all_eq_true.mp (by decide), by decide +kernel⟩,
      ⟨['\u00a0'], ['p', 'u', 't'], List.all_eq_true.mp (by decide), by decide +kernel⟩],
      ['\n'], List.all_eq_true.mp (by decide)⟩
  have hl : l.Spells " at:\u00a0put:\n" := ⟨by simp [l], by decide +kernel⟩
  obtain ⟨s, hs⟩ := hiff.mpr ⟨l, hl⟩
  obtain ⟨harity, -, -, hparts, hname⟩ := hselector s l hs hl
  refine ⟨hfits, p, s, hp, hs, harity, ?_, ?_, hpolicy .stay⟩
  · exact hparts.trans (by decide +kernel)
  · exact hname.trans (by decide +kernel)

end Acceptance

end Selector

end SelectorLexer
