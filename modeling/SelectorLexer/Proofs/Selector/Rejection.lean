import SelectorLexer.Proofs.Selector.Acceptance

/-!
# Why a text is no selector

Each way of rejecting a text says something about its characters, and it is said for
every text that is rejected in this way.  A flaw comes before everything else.  Without
one the text has a longest front that is laid out as a selector.  If nothing is left after
it there is no keyword in it either, and otherwise the place where it ends is the place
that is reported.

That place tells how far the text is right: what stands in front of it is a selector of
its own, or blank, and its keywords are those that were read before the rejection.

## Main definitions

* `Selector.Layout.IsLongest` — a front that is at least as long as all others.
* `Rejection.Describes` — what a rejection says about the characters of a text.
* `Selector.StopsAt` — what is known about the place where a text stops being a selector.

## Main results

* `Selector.outcome_eq_error_iff` — a rejection is given exactly for what it says.
* `Selector.stopsAt_of_outcome` — the place that is reported.
* `Selector.parse_rejects_with_cause` — both together, however failures are treated.
-/

namespace SelectorLexer

open String (utf8Len)

/-! ### What rejections say -/

namespace Selector

/-- The layout stands at the front of the text `cs`, which goes on with `rest`, and no
layout at the front is longer. -/
structure Layout.IsLongest {a : Alphabet} (l : Layout a) (cs rest : List Char) : Prop where
  isFront : l.IsFront cs rest
  le : ∀ (l' : Layout a) (rest' : List Char), l'.IsFront cs rest' →
    utf8Len l'.chars ≤ utf8Len l.chars

end Selector

/-- No byte order mark at the start, and no null character anywhere. -/
def Flawless (cs : List Char) : Prop := cs.head? ≠ some '\uFEFF' ∧ '\x00' ∉ cs

namespace Rejection

/-- What a rejection says about the characters of a text. -/
def Describes (a : Alphabet) (cs : List Char) : Rejection → Prop
  | byteOrderMark => cs.head? = some '\uFEFF'
  | nullByte pos => cs.head? ≠ some '\uFEFF' ∧
      ∃ before after, cs = before ++ '\x00' :: after ∧ '\x00' ∉ before ∧ pos = utf8Len before
  | noSegment => Flawless cs ∧ ∀ x ∈ cs, isBlank x = true
  | notKeyword pos => Flawless cs ∧
      ∃ (l : Selector.Layout a) (rest : List Char), l.IsLongest cs rest ∧ rest ≠ [] ∧
        pos = utf8Len l.chars

/-- Flaws are described in the order in which they are listed. -/
theorem describes_ofFlaw_iff {a : Alphabet} {text : String} {flaw : Flaw}
    (hfits : text.utf8ByteSize ≤ maxOffset) :
    (ofFlaw flaw).Describes a text.toList ↔ (⟨text⟩ : Source).flaws.head? = some flaw := by
  cases flaw with
  | byteOrderMark => exact Source.head?_flaws_eq_byteOrderMark_iff.symm
  | nullByte pos =>
    rw [Source.head?_flaws_eq_nullByte_iff, Source.head?_nullOffsets_iff hfits]
    rfl

/-- What is said of a text speaks of a flaw, or of a text that has none. -/
theorem Describes.flawless_or_eq_ofFlaw {a : Alphabet} {cs : List Char} {r : Rejection}
    (h : r.Describes a cs) : Flawless cs ∨ ∃ flaw, r = ofFlaw flaw := by
  cases r with
  | byteOrderMark => exact .inr ⟨.byteOrderMark, rfl⟩
  | nullByte pos => exact .inr ⟨.nullByte pos, rfl⟩
  | noSegment => exact .inl h.1
  | notKeyword pos => exact .inl h.1

end Rejection

namespace Selector

/-! ### The longest front -/

section Longest

variable {a : Alphabet} {l : Layout a} {cs rest : List Char}

theorem Layout.IsFront.isLongest (h : l.IsFront cs rest) (hfinished : Finished a rest) :
    l.IsLongest cs rest := by
  refine ⟨h, ?_⟩
  intro l' rest' h'
  obtain ⟨more, hmore⟩ := h.isPrefix hfinished h'
  rw [← hmore, String.utf8Len_append]
  apply Nat.le_add_right

/-- Two longest fronts leave the same text. -/
theorem Layout.IsLongest.eq {l' : Layout a} {rest' : List Char} (h : l.IsLongest cs rest)
    (h' : l'.IsLongest cs rest') : l.chars = l'.chars ∧ rest = rest' :=
  append_inj_of_utf8Len_eq (h.isFront.eq_append.symm.trans h'.isFront.eq_append)
    (Nat.le_antisymm (h'.le l rest h.isFront) (h.le l' rest' h'.isFront))

/-- Where nothing more can be read, the whole text is blank only if there is no piece in
front of it and nothing behind. -/
theorem Layout.IsFront.forall_isBlank_iff (h : l.IsFront cs rest) (hfinished : Finished a rest) :
    (∀ x ∈ cs, isBlank x = true) ↔ rest = [] ∧ l.pieces = [] := by
  obtain ⟨pieces, blanks, hblanks⟩ := l
  rw [h.eq_append]
  constructor
  · intro hall
    constructor
    · cases rest with
      | nil => rfl
      | cons x rest =>
        have hx := hall x (by simp)
        rw [hfinished.1 x rfl] at hx
        cases hx
    · cases pieces with
      | nil => rfl
      | cons p ps =>
        obtain ⟨y, more, hname, hy⟩ := Alphabet.exists_cons_of_isName p.isName
        have hmem := hall y (by simp [Layout.chars, Piece.chars, hname])
        rw [Alphabet.isBlank_eq_false_of_isStart hy] at hmem
        cases hmem
  · rintro ⟨rfl, hpieces⟩
    simp only at hpieces
    subst hpieces
    intro x hx
    rw [Layout.chars, Piece.join_nil, List.nil_append, List.append_nil] at hx
    exact hblanks x hx

theorem Layout.outcome_verdict_eq_error_iff {text : String} {r : Rejection} :
    (l.verdict text rest).outcome = .error r ↔
      (rest ≠ [] ∧ r = .notKeyword (utf8Len l.chars)) ∨
        (rest = [] ∧ l.pieces = [] ∧ r = .noSegment) := by
  cases rest with
  | cons x rest => simp [Layout.verdict, eq_comm]
  | nil => cases hpieces : l.pieces <;> simp [Layout.verdict, hpieces, eq_comm]

end Longest

/-! ### Rejections -/

section Rejections

variable {text : String} {o : Options} {p : Parse}

/-- **A rejection is given exactly for what it says.** -/
theorem outcome_eq_error_iff (hfits : text.utf8ByteSize ≤ maxOffset)
    (hp : parse text o = .ok p) (r : Rejection) :
    p.outcome = .error r ↔ r.Describes o.alphabet text.toList := by
  rcases parse_cases hfits hp with ⟨flaw, hflaw, rfl⟩ | ⟨hflaws, l, rest, hl, hfinished, rfl⟩
  · constructor
    · intro h
      obtain rfl := Except.error.inj h
      exact (Rejection.describes_ofFlaw_iff hfits).mpr hflaw
    · intro h
      rcases h.flawless_or_eq_ofFlaw with hflawless | ⟨flaw', rfl⟩
      · rw [(Source.flaws_eq_nil_iff hfits).mpr hflawless] at hflaw
        cases hflaw
      · rw [Rejection.describes_ofFlaw_iff hfits, hflaw] at h
        rw [Option.some.inj h]
  · have hflawless : Flawless text.toList := (Source.flaws_eq_nil_iff hfits).mp hflaws
    rw [Layout.outcome_verdict_eq_error_iff]
    constructor
    · rintro (⟨hrest, rfl⟩ | ⟨hrest, hpieces, rfl⟩)
      · exact ⟨hflawless, l, rest, hl.isLongest hfinished, hrest, rfl⟩
      · exact ⟨hflawless, (hl.forall_isBlank_iff hfinished).mpr ⟨hrest, hpieces⟩⟩
    · intro h
      cases r with
      | byteOrderMark => exact absurd h hflawless.1
      | nullByte pos =>
        obtain ⟨-, before, after, hchars, -⟩ := h
        exact absurd (by rw [hchars]; simp) hflawless.2
      | noSegment =>
        obtain ⟨hrest, hpieces⟩ := (hl.forall_isBlank_iff hfinished).mp h.2
        exact .inr ⟨hrest, hpieces, rfl⟩
      | notKeyword pos =>
        obtain ⟨-, l', rest', hlongest, hrest, rfl⟩ := h
        obtain ⟨hchars, rfl⟩ := (hl.isLongest hfinished).eq hlongest
        exact .inl ⟨hrest, by rw [hchars]⟩

/-! ### The place where a text stops being a selector -/

/-- The front of a text is a text of its own, and nothing is left of it when it is read. -/
theorem exists_front_of_isFront (hfits : text.utf8ByteSize ≤ maxOffset) {l : Layout o.alphabet}
    {rest : List Char} (hl : l.IsFront text.toList rest) :
    ∃ front, (⟨text⟩ : Source).between? 0 (utf8Len l.chars) = some front ∧
      front.toList = l.chars ∧ parse front o = .ok (l.verdict front []) := by
  have htext : text = String.ofList l.chars ++ String.ofList rest :=
    text_eq_append_of_toList hl.eq_append
  have hfront : (String.ofList l.chars).utf8ByteSize ≤ maxOffset := by
    apply Nat.le_trans _ hfits
    rw [htext, String.utf8ByteSize_append]
    apply Nat.le_add_right
  have hchars : (String.ofList l.chars).toList = l.chars := String.toList_ofList
  have hwhole : l.IsFront (String.ofList l.chars).toList [] := by
    rw [hchars]
    exact l.isFront_chars
  refine ⟨_, ?_, hchars, parse_of_isFront_nil hfront hwhole⟩
  have hcut : text = "" ++ String.ofList l.chars ++ String.ofList rest := by
    rwa [String.empty_append]
  have hpart := Source.between?_of_eq_append (s := ⟨text⟩) hcut
  rwa [String.utf8ByteSize_empty, Nat.zero_add, String.utf8ByteSize_ofList] at hpart

/-- The text stops being a selector at the offset `pos`, after the segments `found`. -/
structure StopsAt (o : Options) (text : String) (pos : Nat) (found : List Segment) : Prop where
  /-- The place lies between two characters, in front of the end. -/
  isBoundary : (⟨text⟩ : Source).IsBoundary pos
  lt_size : pos < text.utf8ByteSize
  /-- What stands there is no blank. -/
  not_isBlank : ∃ x, (⟨text⟩ : Source).charAt? pos = some x ∧ isBlank x = false
  /-- If it is a name and a colon, the colon belongs to an assignment sign. -/
  assigned : ∀ before name more, text.toList = before ++ (name ++ ':' :: more) →
    pos = utf8Len before → o.alphabet.isName name = true → more.head? = some '='
  /-- No scan finds a keyword there. -/
  scan_eq : ∀ wanted start,
    ∃ last, Keyword.scan o wanted ⟨⟨text⟩, pos, start⟩ = .ok (none, last)
  /-- The segments are all that were read in the text, and the token started here. -/
  readSegments_eq : ∃ last,
    readSegments o (.start ⟨text⟩) = .ok (found, last) ∧ last.tokenStart = pos
  /-- The text in front of the place is read to the same segments. -/
  parse_front : ∃ front q,
    (⟨text⟩ : Source).between? 0 pos = some front ∧ parse front o = .ok q ∧
      q.outcome =
        if found = [] then .error .noSegment else .ok ⟨⟨front⟩, found.map Segment.token⟩

theorem stopsAt_of_isFront (hfits : text.utf8ByteSize ≤ maxOffset) {l : Layout o.alphabet}
    {x : Char} {rest : List Char} (hl : l.IsFront text.toList (x :: rest))
    (hfinished : Finished o.alphabet (x :: rest)) :
    StopsAt o text (utf8Len l.chars) (Piece.segments 0 l.pieces) := by
  have hsplits : ∀ start,
      (⟨⟨text⟩, utf8Len l.chars, start⟩ : Cursor).Splits l.chars (x :: rest) :=
    fun start => ⟨hfits, hl.eq_append, rfl⟩
  constructor
  case isBoundary => exact (hsplits 0).isBoundary
  case lt_size =>
    have := x.utf8Size_pos
    rw [utf8ByteSize_eq_utf8Len, hl.eq_append, String.utf8Len_append, String.utf8Len_cons]
    omega
  case not_isBlank => exact ⟨x, (hsplits 0).charAt?_eq, hfinished.1 x rfl⟩
  case assigned =>
    intro before name more hchars hpos hname
    obtain ⟨-, hrest⟩ := append_inj_of_utf8Len_eq (hl.eq_append.symm.trans hchars) hpos
    by_contra hequals
    have hkey := hfinished.2
    rw [hrest, (Opens.keyword hname hequals).eq_opening] at hkey
    cases hkey
  case scan_eq =>
    intro wanted start
    have hcut : (⟨⟨text⟩, utf8Len l.chars, start⟩ : Cursor).Splits l.chars ([] ++ x :: rest) :=
      hsplits start
    cases hwanted : wanted.contains .keyword with
    | false => exact ⟨_, Keyword.scan_of_not_contains hwanted o _⟩
    | true => exact ⟨_, Keyword.scan_of_miss hwanted hcut (by simp) hfinished.1 hfinished.2⟩
  case readSegments_eq =>
    exact ⟨_, readSegments_of_isFront hfits hl hfinished, rfl⟩
  case parse_front =>
    obtain ⟨front, hpart, -, hparse⟩ := exists_front_of_isFront hfits hl
    refine ⟨front, _, hpart, hparse, ?_⟩
    obtain ⟨pieces, blanks, hblanks⟩ := l
    cases pieces with
    | nil => rfl
    | cons p ps => rfl

theorem stopsAt_of_outcome (hfits : text.utf8ByteSize ≤ maxOffset) (hp : parse text o = .ok p)
    {pos : Nat} (h : p.outcome = .error (.notKeyword pos)) :
    ∃ found, p.events = found.map Segment.event ∧ StopsAt o text pos found := by
  rcases parse_cases hfits hp with ⟨flaw, -, rfl⟩ | ⟨-, l, rest, hl, hfinished, rfl⟩
  · cases flaw <;> cases h
  · rw [Layout.outcome_verdict_eq_error_iff] at h
    rcases h with ⟨hrest, heq⟩ | ⟨-, -, heq⟩
    · cases rest with
      | nil => exact absurd rfl hrest
      | cons x rest =>
        obtain rfl := Rejection.notKeyword.inj heq
        exact ⟨_, rfl, stopsAt_of_isFront hfits hl hfinished⟩
    · cases heq

/-- **A text is rejected with its cause.**  A rejection is given exactly when what it says
is so, whichever way failures are treated.  The place that it reports is the one where the
text stops being a selector. -/
theorem parse_rejects_with_cause (hfits : text.utf8ByteSize ≤ maxOffset) (o : Options) :
    ∃ p, parse text o = .ok p ∧
      (∀ r, p.outcome = .error r ↔ r.Describes o.alphabet text.toList) ∧
      (∀ pos, p.outcome = .error (.notKeyword pos) →
        ∃ found, p.events = found.map Segment.event ∧ StopsAt o text pos found) ∧
      ∀ policy, parse text { o with onFailure := policy } = .ok p := by
  obtain ⟨p, hp⟩ := exists_parse hfits o
  refine ⟨p, hp, outcome_eq_error_iff hfits hp, ?_, ?_⟩
  · intro pos hpos
    exact stopsAt_of_outcome hfits hp hpos
  · intro policy
    rw [parse_policy hfits, hp]

/-- The place is that of the name, not that of the assignment sign. -/
theorem parse_rejects_with_cause_assignment :
    "é: x:=1".utf8ByteSize ≤ maxOffset ∧
      ∃ p found, parse "é: x:=1" {} = .ok p ∧ p.outcome = .error (.notKeyword 4) ∧
        p.events = found.map Segment.event ∧ StopsAt {} "é: x:=1" 4 found ∧
        parse "é: x:=1" ⟨.stay, .unicode⟩ = .ok p := by
  have hfits : "é: x:=1".utf8ByteSize ≤ maxOffset := by decide
  obtain ⟨p, hp, hiff, hplace, hpolicy⟩ := parse_rejects_with_cause hfits {}
  let l : Layout .unicode :=
    ⟨[⟨[], ['é'], List.all_eq_true.mp (by decide), by decide +kernel⟩], [' '],
      List.all_eq_true.mp (by decide)⟩
  have hfront : l.IsFront "é: x:=1".toList ['x', ':', '=', '1'] :=
    ⟨by decide +kernel, Piece.unassigned_iff.mpr (.inr (by decide))⟩
  have hfinished : Finished .unicode ['x', ':', '=', '1'] := by
    refine ⟨?_, by decide +kernel⟩
    rintro x ⟨⟩
    decide
  have hflawless : Flawless "é: x:=1".toList := ⟨by decide +kernel, by decide +kernel⟩
  have houtcome : p.outcome = .error (.notKeyword 4) :=
    (hiff _).mpr ⟨hflawless, l, _, hfront.isLongest hfinished, by simp, by decide⟩
  obtain ⟨found, hevents, hstops⟩ := hplace 4 houtcome
  exact ⟨hfits, p, found, hp, houtcome, hevents, hstops, hpolicy .stay⟩

end Rejections

end Selector

end SelectorLexer
