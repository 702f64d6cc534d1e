import Mathlib.Data.String.Basic
import SelectorLexer.Proofs.Keyword.Opening
import SelectorLexer.Selector

/-!
# Selectors as they are laid out in a text

A selector is written as keywords with blanks anywhere around them.  One keyword with
the blanks in front of it is a `Piece`, and pieces with some blanks at the end make up a
`Layout`.  Both carry what makes them well-formed, so a layout is the same as a text of
the grammar

    blank* name ":"  ...  blank* name ":"  blank*

A text that is no selector still has layouts at its front.  Of these only the ones
matter in which no colon is the first half of an assignment sign, and among them one is
the longest: the layout after which neither a blank nor a keyword stands.

## Main definitions

* `Selector.Piece`, `Selector.Layout` — the grammar of selectors.
* `Selector.Piece.segments` — the segments that pieces are, from an offset on.
* `Selector.Layout.IsFront`, `Selector.Finished` — the layouts at the front of a text,
  and what is left after the longest.

## Main results

* `Selector.exists_isFront` — every text has a front with nothing more to read.
* `Selector.Layout.IsFront.isPrefix` — that front is the longest.
-/

namespace SelectorLexer

open String (utf8Len)

namespace Selector

/-! ### Pieces -/

/-- A keyword as it stands in a text, with the blanks in front of it. -/
structure Piece (a : Alphabet) where
  /-- The blanks. -/
  blanks : List Char
  /-- The keyword without its colon. -/
  name : List Char
  isBlank_of_mem : ∀ x ∈ blanks, isBlank x = true
  isName : a.isName name = true

variable {a : Alphabet}

namespace Piece

/-- All characters of a piece. -/
def chars (p : Piece a) : List Char := p.blanks ++ (p.name ++ [':'])

/-- The keyword of a piece, with its colon. -/
def text (p : Piece a) : String := String.ofList (p.name ++ [':'])

/-- The characters of pieces that follow one another. -/
def join (ps : List (Piece a)) : List Char := ps.flatMap chars

/-- The segments of pieces that follow one another, the first one from the offset `start`. -/
def segments : Nat → List (Piece a) → List Segment
  | _, [] => []
  | start, p :: ps =>
    ⟨⟨.keyword, start + utf8Len p.blanks, start + utf8Len p.chars⟩, p.text⟩ ::
      segments (start + utf8Len p.chars) ps

/-- No equals sign comes right after one of the pieces, when `rest` comes after the last. -/
def Unassigned : List (Piece a) → List Char → Prop
  | [], _ => True
  | _ :: ps, rest => (join ps ++ rest).head? ≠ some '=' ∧ Unassigned ps rest

@[simp] theorem join_nil : join ([] : List (Piece a)) = [] := rfl

@[simp] theorem join_cons (p : Piece a) (ps : List (Piece a)) :
    join (p :: ps) = p.chars ++ join ps := rfl

@[simp] theorem join_append (ps qs : List (Piece a)) : join (ps ++ qs) = join ps ++ join qs :=
  List.flatMap_append

@[simp] theorem segments_nil (start : Nat) : segments start ([] : List (Piece a)) = [] := rfl

theorem segments_cons (start : Nat) (p : Piece a) (ps : List (Piece a)) :
    segments start (p :: ps) =
      ⟨⟨.keyword, start + utf8Len p.blanks, start + utf8Len p.chars⟩, p.text⟩ ::
        segments (start + utf8Len p.chars) ps := rfl

@[simp] theorem length_segments (start : Nat) (ps : List (Piece a)) :
    (segments start ps).length = ps.length := by
  induction ps generalizing start with
  | nil => rfl
  | cons p ps ih => rw [segments_cons, List.length_cons, ih, List.length_cons]

/-- Pieces that come later are moved by what comes before them. -/
theorem segments_append (start : Nat) (qs ps : List (Piece a)) :
    segments start (qs ++ ps) = segments start qs ++ segments (start + utf8Len (join qs)) ps := by
  induction qs generalizing start with
  | nil => rfl
  | cons q qs ih =>
    rw [List.cons_append, segments_cons, segments_cons, ih, join_cons, String.utf8Len_append,
      Nat.add_assoc, List.cons_append]

/-- The segment of one piece stands where its keyword does. -/
theorem getElem?_segments (qs ps : List (Piece a)) (p : Piece a) :
    (segments 0 (qs ++ p :: ps))[qs.length]? =
      some ⟨⟨.keyword, utf8Len (join qs ++ p.blanks), utf8Len (join qs ++ p.chars)⟩, p.text⟩ := by
  have hlength : (segments 0 qs).length = qs.length := length_segments 0 qs
  rw [segments_append, List.getElem?_append_right (by omega), hlength, Nat.sub_self,
    segments_cons, List.getElem?_cons_zero, Nat.zero_add, String.utf8Len_append,
    String.utf8Len_append]

theorem map_text_segments (start : Nat) (ps : List (Piece a)) :
    (segments start ps).map Segment.text = ps.map text := by
  induction ps generalizing start with
  | nil => rfl
  | cons p ps ih => rw [segments_cons, List.map_cons, ih, List.map_cons]

theorem utf8Len_chars (p : Piece a) :
    utf8Len p.chars = utf8Len p.blanks + utf8Len p.name + 1 := by
  rw [chars, String.utf8Len_append, String.utf8Len_append, ← Nat.add_assoc]
  rfl

/-- A piece starts with a blank or with a character that starts a name. -/
theorem head?_chars_append (p : Piece a) (rest : List Char) :
    ∃ x, (p.chars ++ rest).head? = some x ∧ (isBlank x = true ∨ a.isStart x = true) := by
  obtain ⟨y, more, hname, hy⟩ := Alphabet.exists_cons_of_isName p.isName
  cases hblanks : p.blanks with
  | nil => exact ⟨y, by simp [chars, hblanks, hname], .inr hy⟩
  | cons x blanks =>
    exact ⟨x, by simp [chars, hblanks], .inl (p.isBlank_of_mem x (by simp [hblanks]))⟩

/-- So it starts with none of the signs. -/
theorem head?_chars_append_ne (p : Piece a) (rest : List Char) {x : Char} (hx : x ∈ signs) :
    (p.chars ++ rest).head? ≠ some x := by
  intro h
  obtain ⟨y, hy, hclass⟩ := p.head?_chars_append rest
  obtain rfl : y = x := Option.some.inj (hy.symm.trans h)
  rcases hclass with hblank | hstart
  · rw [isBlank_eq_false_of_mem_signs hx] at hblank
    cases hblank
  · have hcont := Alphabet.isContinue_of_isStart hstart
    rw [a.isContinue_eq_false_of_mem_signs hx] at hcont
    cases hcont

/-- Only what follows the last piece can turn a colon into an assignment. -/
theorem unassigned_iff {ps : List (Piece a)} {rest : List Char} :
    Unassigned ps rest ↔ ps = [] ∨ rest.head? ≠ some '=' := by
  induction ps with
  | nil => simp [Unassigned]
  | cons p ps ih =>
    rw [Unassigned, ih]
    cases ps with
    | nil => simp
    | cons q ps =>
      have hq : (join (q :: ps) ++ rest).head? ≠ some '=' := by
        rw [join_cons, List.append_assoc]
        exact q.head?_chars_append_ne _ (by decide)
      rw [and_iff_right hq]
      simp

/-- The name of a piece starts with no blank. -/
theorem isBlank_head?_name (p : Piece a) (rest : List Char) :
    ∀ x, (p.name ++ rest).head? = some x → isBlank x = false := by
  obtain ⟨y, more, hname, hy⟩ := Alphabet.exists_cons_of_isName p.isName
  rw [hname]
  intro x hx
  cases hx
  exact Alphabet.isBlank_eq_false_of_isStart hy

/-- A piece can be read off the text that it starts. -/
theorem takeWhile_chars_append (p : Piece a) (rest : List Char) :
    (p.chars ++ rest).takeWhile isBlank = p.blanks := by
  rw [chars, List.append_assoc, List.append_assoc,
    takeWhile_append_of_stop p.isBlank_of_mem (p.isBlank_head?_name _)]

theorem dropWhile_chars_append (p : Piece a) (rest : List Char) :
    (p.chars ++ rest).dropWhile isBlank = p.name ++ ':' :: rest := by
  rw [chars, List.append_assoc, List.append_assoc,
    dropWhile_append_of_stop p.isBlank_of_mem (p.isBlank_head?_name _), List.singleton_append]

theorem opening_chars_append (p : Piece a) {rest : List Char} (h : rest.head? ≠ some '=') :
    opening a ((p.chars ++ rest).dropWhile isBlank) = .keyword p.name := by
  rw [dropWhile_chars_append]
  exact (Opens.keyword p.isName h).eq_opening

/-- Two pieces at the front of one text are the same. -/
theorem eq_of_chars_append {p q : Piece a} {rest rest' : List Char}
    (hp : rest.head? ≠ some '=') (hq : rest'.head? ≠ some '=')
    (h : p.chars ++ rest = q.chars ++ rest') : p = q ∧ rest = rest' := by
  have hblanks : p.blanks = q.blanks := by
    rw [← p.takeWhile_chars_append rest, h, takeWhile_chars_append]
  have hname : p.name = q.name := by
    have hop := p.opening_chars_append hp
    rw [h, q.opening_chars_append hq] at hop
    exact (Opening.keyword.inj hop).symm
  obtain rfl : p = q := by
    cases p
    cases q
    congr
  exact ⟨rfl, List.append_cancel_left h⟩

end Piece

/-! ### Layouts -/

/-- Some pieces, and the blanks after them. -/
structure Layout (a : Alphabet) where
  /-- The pieces. -/
  pieces : List (Piece a)
  /-- The blanks at the end. -/
  blanks : List Char
  isBlank_of_mem : ∀ x ∈ blanks, isBlank x = true

/-- Nothing more of a selector can be read from `rest`: it starts neither with a blank
nor with a keyword. -/
def Finished (a : Alphabet) (rest : List Char) : Prop :=
  (∀ x, rest.head? = some x → isBlank x = false) ∧ (opening a rest).isKeyword = false

namespace Layout

/-- All characters of a layout. -/
def chars (l : Layout a) : List Char := Piece.join l.pieces ++ l.blanks

/-- The layout stands at the front of the text `cs`, which goes on with `rest`, and none
of its colons belongs to an assignment sign. -/
structure IsFront (l : Layout a) (cs rest : List Char) : Prop where
  eq_append : cs = l.chars ++ rest
  unassigned : Piece.Unassigned l.pieces (l.blanks ++ rest)

end Layout

/-- A text that opens with a keyword behind its blanks starts with a piece. -/
theorem Piece.exists_of_isKeyword {cs : List Char}
    (h : (opening a (cs.dropWhile isBlank)).isKeyword = true) :
    ∃ (p : Piece a) (more : List Char), cs = p.chars ++ more ∧ more.head? ≠ some '=' := by
  obtain ⟨name, more, hmore, hname, hequals⟩ := exists_name_of_isKeyword h
  refine ⟨⟨cs.takeWhile isBlank, name, fun x hx => List.mem_takeWhile_imp hx, hname⟩, more, ?_,
    hequals⟩
  rw [Piece.chars, List.append_assoc, List.append_assoc, List.singleton_append, ← hmore,
    List.takeWhile_append_dropWhile]

/-- A front of what comes after a piece makes one with the piece in front of it. -/
theorem Layout.IsFront.cons {p : Piece a} {l : Layout a} {more rest : List Char}
    (h : l.IsFront more rest) (hp : more.head? ≠ some '=') :
    Layout.IsFront ⟨p :: l.pieces, l.blanks, l.isBlank_of_mem⟩ (p.chars ++ more) rest := by
  refine ⟨?_, ?_, h.unassigned⟩
  · rw [h.eq_append, Layout.chars, Layout.chars, Piece.join_cons, List.append_assoc,
      List.append_assoc, List.append_assoc]
  · rw [← List.append_assoc]
    rwa [h.eq_append] at hp

/-- **Every text has a front with nothing more to read.** -/
theorem exists_isFront (a : Alphabet) (cs : List Char) :
    ∃ (l : Layout a) (rest : List Char), l.IsFront cs rest ∧ Finished a rest := by
  cases hkey : (opening a (cs.dropWhile isBlank)).isKeyword with
  | false =>
    -- the blanks are all there is
    refine ⟨⟨[], cs.takeWhile isBlank, fun x hx => List.mem_takeWhile_imp hx⟩,
      cs.dropWhile isBlank, ⟨List.takeWhile_append_dropWhile.symm, trivial⟩, ?_, hkey⟩
    intro x hx
    exact eq_false_of_head?_dropWhile hx
  | true =>
    obtain ⟨p, more, rfl, hequals⟩ := Piece.exists_of_isKeyword hkey
    have hlength : more.length < (p.chars ++ more).length := by
      simp [Piece.chars]
      omega
    -- one piece less to read
    obtain ⟨l, rest, hfront, hfinished⟩ := exists_isFront a more
    exact ⟨_, rest, hfront.cons hequals, hfinished⟩
termination_by cs.length

namespace Layout

/-- Where nothing more can be read, no other layout reaches further: its pieces come
first. -/
theorem exists_pieces_eq_append {l l' : Layout a} {rest rest' : List Char}
    (h : l.IsFront (l'.chars ++ rest') rest) (h' : l'.IsFront (l'.chars ++ rest') rest')
    (hfinished : Finished a rest) : ∃ qs, l.pieces = l'.pieces ++ qs := by
  obtain ⟨ps, blanks, hblanks⟩ := l
  obtain ⟨ps', blanks', hblanks'⟩ := l'
  obtain ⟨heq, hun⟩ := h
  obtain ⟨-, hun'⟩ := h'
  simp only [chars] at heq hun hun' ⊢
  induction ps' generalizing ps with
  | nil => exact ⟨ps, rfl⟩
  | cons p' ps' ih =>
    obtain ⟨hp', hun'⟩ := hun'
    rw [Piece.join_cons, List.append_assoc, List.append_assoc] at heq
    cases ps with
    | nil =>
      -- the text would open with a keyword behind its blanks
      have hop := p'.opening_chars_append hp'
      rw [heq, Piece.join_nil, List.nil_append,
        dropWhile_append_of_stop hblanks hfinished.1] at hop
      have hkey := hfinished.2
      rw [hop] at hkey
      cases hkey
    | cons p ps =>
      obtain ⟨hp, hun⟩ := hun
      rw [Piece.join_cons, List.append_assoc, List.append_assoc] at heq
      obtain ⟨rfl, htail⟩ := Piece.eq_of_chars_append hp' hp heq
      rw [← List.append_assoc, ← List.append_assoc] at htail
      obtain ⟨qs, rfl⟩ := ih ps htail hun hun'
      exact ⟨qs, rfl⟩

/-- **Where nothing more can be read, the front is the longest.** -/
theorem IsFront.isPrefix {l l' : Layout a} {cs rest rest' : List Char}
    (h : l.IsFront cs rest) (hfinished : Finished a rest) (h' : l'.IsFront cs rest') :
    l'.chars <+: l.chars := by
  obtain rfl := h'.eq_append
  obtain ⟨qs, hqs⟩ := exists_pieces_eq_append h h' hfinished
  have heq : Piece.join qs ++ l.blanks ++ rest = l'.blanks ++ rest' := by
    have := h.eq_append
    rw [chars, chars, hqs, Piece.join_append] at this
    simp only [List.append_assoc] at this ⊢
    exact (List.append_cancel_left this).symm
  -- the blanks in front of what is left are blanks of the longer layout
  have hrun : (Piece.join qs ++ l.blanks ++ rest).takeWhile isBlank <+:
      Piece.join qs ++ l.blanks := by
    cases qs with
    | nil =>
      refine ⟨[], ?_⟩
      rw [List.append_nil, Piece.join_nil, List.nil_append,
        takeWhile_append_of_stop l.isBlank_of_mem hfinished.1]
    | cons q qs =>
      rw [Piece.join_cons, List.append_assoc, List.append_assoc, q.takeWhile_chars_append,
        List.append_assoc, Piece.chars, List.append_assoc]
      apply List.prefix_append
  rw [heq, List.takeWhile_append_of_pos l'.isBlank_of_mem] at hrun
  obtain ⟨more, hmore⟩ := (List.prefix_append _ _).trans hrun
  refine ⟨more, ?_⟩
  rw [chars, chars, hqs, Piece.join_append, List.append_assoc, List.append_assoc, hmore]

/-- At the end nothing more can be read. -/
theorem finished_nil : Finished a [] := ⟨by simp, rfl⟩

/-- No sign is a blank. -/
theorem not_mem_blanks (l : Layout a) {x : Char} (hx : x ∈ signs) : x ∉ l.blanks := by
  intro hmem
  have hblank := l.isBlank_of_mem x hmem
  rw [isBlank_eq_false_of_mem_signs hx] at hblank
  cases hblank

/-- A layout is the front of its own text. -/
theorem isFront_chars (l : Layout a) : l.IsFront l.chars [] := by
  refine ⟨(List.append_nil _).symm, Piece.unassigned_iff.mpr (.inr ?_)⟩
  intro h
  rw [List.append_nil] at h
  exact l.not_mem_blanks (by decide) (List.mem_of_head? h)

end Layout

end Selector

end SelectorLexer
