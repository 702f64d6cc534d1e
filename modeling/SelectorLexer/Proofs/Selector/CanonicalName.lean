import SelectorLexer.Proofs.Selector.Reach

/-!
# The canonical name of a selector

The canonical name of a selector is what is left of the text when the blanks are dropped
from it.  It is a selector itself, with the same keywords, edge to edge.  Two of them do
not run together, since each ends in a colon, and no colon comes to stand in front of an
equals sign, since none of them starts with one.

## Main definitions

* `Selector.Layout.dropBlanks` — a layout without its blanks.
* `Span.Tile` — spans that lie edge to edge.

## Main results

* `Selector.Layout.chars_dropBlanks` — only the blanks are dropped.
* `Selector.Layout.spells_name_selector` — what is left is the name.
* `Selector.Piece.tile_segments_dropBlanks` — its segments lie edge to edge.
* `Selector.parse_name` — the canonical name is read to itself.
-/

namespace SelectorLexer

open String (utf8Len)

/-- The spans lie edge to edge, the first from `start` on and the last up to `stop`, and
none of them is empty. -/
def Span.Tile : Nat → List Span → Nat → Prop
  | start, [], stop => start = stop
  | start, s :: spans, stop => s.start = start ∧ start < s.stop ∧ Tile s.stop spans stop

namespace Selector

/-! ### Layouts without blanks -/

section Layouts

variable {a : Alphabet}

theorem filter_eq_nil_of_isBlank {cs : List Char} (h : ∀ x ∈ cs, isBlank x = true) :
    cs.filter (fun x => !isBlank x) = [] := by
  rw [List.filter_eq_nil_iff]
  intro x hx
  simp [h x hx]

namespace Piece

/-- The piece without the blanks in front of it. -/
def dropBlanks (p : Piece a) : Piece a := ⟨[], p.name, by simp, p.isName⟩

theorem toList_text (p : Piece a) : p.text.toList = p.dropBlanks.chars := String.toList_ofList

theorem text_comp_dropBlanks : text ∘ dropBlanks = (text : Piece a → String) := rfl

/-- A keyword has no blank in it. -/
theorem isBlank_eq_false_of_mem_dropBlanks {p : Piece a} {x : Char}
    (hx : x ∈ p.name ++ [':']) : isBlank x = false := by
  rw [List.mem_append, List.mem_singleton] at hx
  rcases hx with hname | rfl
  · have hcont := Alphabet.isContinue_of_mem_name p.isName x hname
    exact Alphabet.isBlank_eq_false_of_isContinue hcont
  · exact isBlank_eq_false_of_mem_signs (by decide)

/-- Only the blanks are dropped from a piece. -/
theorem chars_dropBlanks (p : Piece a) :
    p.dropBlanks.chars = p.chars.filter fun x => !isBlank x := by
  have hkeyword : (p.name ++ [':']).filter (fun x => !isBlank x) = p.name ++ [':'] := by
    rw [List.filter_eq_self]
    intro x hx
    simp [isBlank_eq_false_of_mem_dropBlanks hx]
  rw [chars, chars, List.filter_append, filter_eq_nil_of_isBlank p.isBlank_of_mem, hkeyword]
  rfl

theorem join_dropBlanks (ps : List (Piece a)) :
    join (ps.map dropBlanks) = (join ps).filter fun x => !isBlank x := by
  induction ps with
  | nil => rfl
  | cons p ps ih =>
    rw [List.map_cons, join_cons, join_cons, List.filter_append, ih, chars_dropBlanks]

/-- The keywords of pieces, written together. -/
theorem toList_join_text (ps : List (Piece a)) :
    (String.join (ps.map text)).toList = join (ps.map dropBlanks) := by
  rw [String.toList_join, join, List.flatMap_map, List.flatMap_map]
  exact congrArg (List.flatMap · ps) (funext toList_text)

/-- Without blanks, each segment starts where the one before it ends. -/
theorem tile_segments_dropBlanks (start : Nat) (ps : List (Piece a)) :
    Span.Tile start ((segments start (ps.map dropBlanks)).map fun g => g.token.span)
      (start + utf8Len (join (ps.map dropBlanks))) := by
  induction ps generalizing start with
  | nil => exact rfl
  | cons p ps ih =>
    have hcolon := p.dropBlanks.utf8Len_chars
    rw [List.map_cons, segments_cons, List.map_cons, join_cons, String.utf8Len_append,
      ← Nat.add_assoc]
    refine ⟨rfl, ?_, ih _⟩
    show start < start + utf8Len p.dropBlanks.chars
    omega

end Piece

namespace Layout

/-- The layout without any blanks. -/
def dropBlanks (l : Layout a) : Layout a := ⟨l.pieces.map Piece.dropBlanks, [], by simp⟩

/-- Only the blanks are dropped from a layout. -/
theorem chars_dropBlanks (l : Layout a) :
    l.dropBlanks.chars = l.chars.filter fun x => !isBlank x := by
  rw [chars, chars, List.filter_append, filter_eq_nil_of_isBlank l.isBlank_of_mem,
    ← Piece.join_dropBlanks]
  rfl

theorem map_text_dropBlanks (l : Layout a) :
    l.dropBlanks.pieces.map Piece.text = l.pieces.map Piece.text := by
  rw [dropBlanks, List.map_map, Piece.text_comp_dropBlanks]

end Layout

end Layouts

/-! ### The name of a selector -/

section Names

variable {a : Alphabet} {l : Layout a} {text : String} {rest : List Char}

namespace Layout

/-- **The name of a selector is its layout without the blanks.** -/
theorem toList_name_selector (h : text.toList = l.chars ++ rest) :
    (l.selector text).name.toList = l.dropBlanks.chars := by
  rw [name, parts_selector_of_append h, Piece.toList_join_text]
  exact (List.append_nil _).symm

theorem spells_name_selector (hpieces : l.pieces ≠ []) (h : text.toList = l.chars ++ rest) :
    l.dropBlanks.Spells (l.selector text).name :=
  ⟨mt List.map_eq_nil_iff.mp hpieces, (toList_name_selector h).symm⟩

/-- The name has the same keywords. -/
theorem parts_selector_name (hpieces : l.pieces ≠ []) (h : text.toList = l.chars ++ rest) :
    (l.dropBlanks.selector (l.selector text).name).parts = (l.selector text).parts := by
  rw [parts_selector (spells_name_selector hpieces h).isFront, map_text_dropBlanks,
    parts_selector_of_append h]

/-- In the name they lie edge to edge. -/
theorem tile_selector_name (h : text.toList = l.chars ++ rest) :
    Span.Tile 0 ((l.dropBlanks.selector (l.selector text).name).segments.map Token.span)
      (l.selector text).name.utf8ByteSize := by
  have htile := Piece.tile_segments_dropBlanks 0 l.pieces
  rw [Nat.zero_add] at htile
  rw [utf8ByteSize_eq_utf8Len, toList_name_selector h, chars, dropBlanks, List.append_nil,
    selector, List.map_map]
  exact htile

end Layout

end Names

/-! ### Reading the name -/

section Reading

variable {text : String} {o : Options} {p : Parse} {s : Selector}

/-- **The canonical name is read to itself.**  The name of a selector is the text without
its blanks, as far as the reading reaches; that is the whole text if offsets can count it.
It is read to a selector with the same name and keywords, which lie edge to edge. -/
theorem parse_name (hp : parse text o = .ok p) (hs : p.outcome = .ok s) :
    (∃ q t, parse s.name o = .ok q ∧ q.outcome = .ok t ∧ t.name = s.name ∧
      t.parts = s.parts ∧ t.arity = s.arity ∧
      Span.Tile 0 (t.segments.map Token.span) s.name.utf8ByteSize) ∧
    (∀ x ∈ s.name.toList, isBlank x = false) ∧
    (∃ seen unseen, text = seen ++ unseen ∧
      seen.utf8ByteSize = min text.utf8ByteSize maxOffset ∧
      s.name.toList = seen.toList.filter fun x => !isBlank x) ∧
    (text.utf8ByteSize ≤ maxOffset →
      s.name.toList = text.toList.filter fun x => !isBlank x) := by
  obtain ⟨seen, unseen, l, rfl, hsize, ⟨hpieces, hseen⟩, rfl⟩ := exists_spells_of_outcome hp hs
  have hchars : (seen ++ unseen).toList = l.chars ++ unseen.toList := by
    rw [String.toList_append, hseen]
  have hname : (l.selector (seen ++ unseen)).name.toList =
      seen.toList.filter fun x => !isBlank x := by
    rw [Layout.toList_name_selector hchars, l.chars_dropBlanks, hseen]
  refine ⟨?fixed, ?blank, ⟨seen, unseen, rfl, hsize, hname⟩, ?whole⟩
  case fixed =>
    have hfits : (l.selector (seen ++ unseen)).name.utf8ByteSize ≤ maxOffset := by
      calc (l.selector (seen ++ unseen)).name.utf8ByteSize
          ≤ seen.utf8ByteSize := by
            rw [utf8ByteSize_eq_utf8Len, utf8ByteSize_eq_utf8Len, hname]
            exact String.utf8Len_le_of_sublist List.filter_sublist
        _ ≤ maxOffset := by
            rw [hsize]
            exact Nat.min_le_right _ _
    have hparts := Layout.parts_selector_name hpieces hchars
    refine ⟨_, _, parse_of_spells hfits (Layout.spells_name_selector hpieces hchars), rfl, ?_,
      hparts, ?_, Layout.tile_selector_name hchars⟩
    · rw [name, hparts, name]
    · rw [← length_parts, hparts, length_parts]
  case blank =>
    intro x hx
    rw [hname, List.mem_filter] at hx
    simpa using hx.2
  case whole =>
    intro hfits
    rw [Source.size_of_le hfits, String.utf8ByteSize_append] at hsize
    obtain rfl : unseen = "" := String.utf8ByteSize_eq_zero_iff.mp (by omega)
    rw [hname, String.append_empty]

/-- Blanks of two kinds around two keywords. -/
theorem parse_name_at_put :
    ∃ p s, parse " at:\u00a0pût:\n" {} = .ok p ∧ p.outcome = .ok s ∧ s.name = "at:pût:" ∧
      ∃ q t, parse "at:pût:" {} = .ok q ∧ q.outcome = .ok t ∧ t.name = "at:pût:" ∧
        t.parts = ["at:", "pût:"] ∧ t.arity = 2 ∧ Span.Tile 0 (t.segments.map Token.span) 8 := by
  let l : Layout .unicode :=
    ⟨[⟨[' '], ['a', 't'], List.all_eq_true.mp (by decide), by decide +kernel⟩,
      ⟨['\u00a0'], ['p', 'û', 't'], List.all_eq_true.mp (by decide), by decide +kernel⟩],
      ['\n'], List.all_eq_true.mp (by decide)⟩
  have hl : l.Spells " at:\u00a0pût:\n" := ⟨by simp [l], by decide +kernel⟩
  have hp := parse_of_spells (o := {}) (by decide) hl
  obtain ⟨⟨q, t, hq, ht, hname, hparts, harity, htile⟩, -, -, hwhole⟩ := parse_name hp rfl
  have hcanonical : (l.selector " at:\u00a0pût:\n").name = "at:pût:" :=
    String.toList_inj.mp ((hwhole (by decide)).trans (by decide +kernel))
  rw [hcanonical] at hq hname htile
  refine ⟨_, _, hp, rfl, hcanonical, q, t, hq, ht, hname, ?_, harity, htile⟩
  rw [hparts, Layout.parts_selector hl.isFront]
  decide +kernel

/-- Behind a keyword and as many blanks as offsets can count there stands a letter, which is not
read.  The text is a selector, and the letter is not in its name. -/
theorem parse_name_unseen_letter :
    let n := maxOffset - 2
    let text := String.ofList (['a', ':'] ++ List.replicate n ' ' ++ ['b'])
    text.utf8ByteSize = maxOffset + 1 ∧
      ∃ p s, parse text {} = .ok p ∧ p.outcome = .ok s ∧ s.name.toList = ['a', ':'] ∧
        (text.toList.filter fun x => !isBlank x) = ['a', ':', 'b'] ∧
        s.name.toList ≠ text.toList.filter fun x => !isBlank x := by
  intro n text
  -- the blanks are too many to be looked at, and nothing but their number counts
  have hn : n + 2 = maxOffset := rfl
  clear_value n
  have hblanks : ∀ x ∈ List.replicate n ' ', isBlank x = true := by
    intro x hx
    rw [List.eq_of_mem_replicate hx]
    decide
  let seen := String.ofList (['a', ':'] ++ List.replicate n ' ')
  have htext : text = seen ++ "b" := String.ofList_append
  have hseen : seen.utf8ByteSize = maxOffset := by
    rw [String.utf8ByteSize_ofList, String.utf8Len_append, utf8Len_replicate, ← hn, Nat.add_comm n]
    exact congrArg (2 + ·) (Nat.mul_one n)
  have hlength : (seen ++ "b").utf8ByteSize = maxOffset + 1 := by
    rw [String.utf8ByteSize_append, hseen]
    rfl
  have hchars : (seen ++ "b").toList = ['a', ':'] ++ List.replicate n ' ' ++ ['b'] := by
    rw [← htext]
    exact String.toList_ofList
  have hflaws : (⟨seen ++ "b"⟩ : Source).flaws = [] := by
    apply Source.flaws_eq_nil_of_notMem
    · rw [hchars]
      simp
    · rw [hchars]
      simp
  let l : Layout .unicode :=
    ⟨[⟨[], ['a'], by simp, by decide +kernel⟩], List.replicate n ' ', hblanks⟩
  have hl : l.Spells seen := ⟨by simp [l], String.toList_ofList.symm⟩
  have hname : (l.selector (seen ++ "b")).name.toList = ['a', ':'] :=
    Layout.toList_name_selector (by rw [String.toList_append, hl.2])
  have hfilter : ((seen ++ "b").toList.filter fun x => !isBlank x) = ['a', ':', 'b'] := by
    rw [hchars, List.filter_append, List.filter_append, filter_eq_nil_of_isBlank hblanks]
    decide
  have hp := parse_of_spells_seen (o := {}) (Source.size_append_of_eq_maxOffset hseen "b") hflaws hl
  rw [htext]
  refine ⟨hlength, _, _, hp, rfl, hname, hfilter, ?_⟩
  rw [hname, hfilter]
  decide

end Reading

end Selector

end SelectorLexer
