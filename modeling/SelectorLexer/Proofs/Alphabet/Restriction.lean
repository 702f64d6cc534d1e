import SelectorLexer.Proofs.Keyword.Failure
import SelectorLexer.Proofs.Keyword.Bounds
import SelectorLexer.Proofs.Selector.Acceptance

/-!
# Names in ASCII among the names in Unicode

The alphabet of ASCII has fewer names than that of Unicode.  It could have others as well,
if it cut a name short that goes on in Unicode.  A keyword is not cut short: its name ends at
a colon, and a colon belongs to no name in either alphabet.  So a keyword in ASCII is the same
keyword in Unicode, a layout of keywords is the same layout, and a selector the same selector.

What ASCII lacks are the names with other characters.  In a text where all other characters
are blanks the alphabets cannot be told apart: they agree on the characters of ASCII by their
tables, and on blanks since those belong to no name at all.

## Main definitions

* `Alphabet.Agree` — a character that is the same to two alphabets.
* `Selector.Layout.widen` — a layout, read in Unicode.

## Main results

* `opening_eq_keyword_unicode`, `Keyword.scan_unicode_of_some` — a keyword is a keyword in
  Unicode.
* `opening_congr`, `Keyword.scan_congr_of_agree`, `Selector.parse_congr_of_agree` — alphabets
  that agree on a text read it alike.
* `Alphabet.ascii_restricts_unicode` — both, for scans and for selectors.
-/

namespace SelectorLexer

open String (utf8Len)

/-! ### Names -/

namespace Alphabet

/-- A name in any alphabet is a name in Unicode. -/
theorem isName_unicode {a : Alphabet} {name : List Char} (h : a.isName name = true) :
    unicode.isName name = true := by
  cases name with
  | nil => cases h
  | cons x rest =>
    rw [isName_cons_iff] at h ⊢
    refine ⟨isStart_unicode h.1, ?_⟩
    intro y hy
    exact isContinue_unicode (h.2 y hy)

/-- A character is the same to two alphabets. -/
structure Agree (a b : Alphabet) (x : Char) : Prop where
  isStart_eq : a.isStart x = b.isStart x
  isContinue_eq : a.isContinue x = b.isContinue x

/-- All alphabets agree on blanks, which belong to no name. -/
theorem agree_of_isBlank (a b : Alphabet) {x : Char} (h : isBlank x = true) : a.Agree b x := by
  have ha := isContinue_eq_false_of_isBlank a h
  have hb := isContinue_eq_false_of_isBlank b h
  refine ⟨?_, ?_⟩
  · rw [isStart_eq_false_of_isContinue ha, isStart_eq_false_of_isContinue hb]
  · rw [ha, hb]

theorem agree_of_lt {x : Char} (h : x.toNat < 0x80) : ascii.Agree unicode x :=
  ⟨(isStart_and_isContinue_of_lt h).1, (isStart_and_isContinue_of_lt h).2⟩

end Alphabet

/-! ### Openings -/

section Openings

variable {a b : Alphabet} {cs : List Char}

/-- A keyword opens the text in Unicode as well: it cannot be longer there, since a colon
follows. -/
theorem opening_eq_keyword_unicode {name : List Char} (h : opening a cs = .keyword name) :
    opening .unicode cs = .keyword name := by
  obtain ⟨rest, hcs, hname, hequals⟩ := opening_eq_keyword_iff.mp h
  exact opening_eq_keyword_iff.mpr ⟨rest, hcs, Alphabet.isName_unicode hname, hequals⟩

/-- A text opens in the same way for alphabets that agree on it. -/
theorem opening_congr (h : ∀ x ∈ cs, a.Agree b x) : opening a cs = opening b cs := by
  have hstart : cs.head?.any a.isStart = cs.head?.any b.isStart := by
    cases cs with
    | nil => rfl
    | cons x rest => simpa using (h x (by simp)).isStart_eq
  obtain ⟨htake, hdrop⟩ := takeWhile_congr_of_mem fun x hx => (h x hx).isContinue_eq
  rw [opening, opening, hstart, htake, hdrop]

end Openings

/-! ### Scans -/

namespace Keyword

variable {c : Cursor} {before after : List Char} {wanted : KindSet} {policy : FailurePolicy}
  {a b : Alphabet}

/-- A keyword that is found is found in Unicode, and the cursor is left at the same place. -/
theorem scan_unicode_of_some {t : Token} {last : Cursor} (h : c.Splits before after)
    (hscan : scan ⟨policy, a⟩ wanted c = .ok (some t, last)) :
    scan ⟨policy, .unicode⟩ wanted c = .ok (some t, last) := by
  cases hwanted : wanted.contains .keyword with
  | false =>
    rw [scan_of_not_contains hwanted] at hscan
    cases hscan
  | true =>
    rw [scan_eq_of_splits hwanted h] at hscan ⊢
    obtain ⟨htoken, -⟩ := Prod.mk.inj (Except.ok.inj hscan)
    obtain ⟨name, hop, -⟩ := Opening.token?_eq_some_iff.mp htoken
    rw [opening_eq_keyword_unicode hop, ← hop]
    exact hscan

/-- Alphabets that agree on a text scan it alike. -/
theorem scan_congr_of_agree (h : c.Splits before after)
    (hagree : ∀ x ∈ c.source.text.toList, a.Agree b x) :
    scan ⟨policy, a⟩ wanted c = scan ⟨policy, b⟩ wanted c := by
  cases hwanted : wanted.contains .keyword with
  | false => rw [scan_of_not_contains hwanted, scan_of_not_contains hwanted]
  | true =>
    have hop : opening a (after.dropWhile isBlank) = opening b (after.dropWhile isBlank) := by
      apply opening_congr
      intro x hx
      apply hagree
      rw [h.chars]
      exact List.mem_append_right before ((List.dropWhile_sublist isBlank).subset hx)
    rw [scan_eq_of_splits hwanted h, scan_eq_of_splits hwanted h, hop]

end Keyword

/-! ### Selectors -/

namespace Selector

variable {a b : Alphabet}

/-- The piece, read in Unicode. -/
def Piece.widen (p : Piece a) : Piece .unicode :=
  ⟨p.blanks, p.name, p.isBlank_of_mem, Alphabet.isName_unicode p.isName⟩

@[simp] theorem Piece.chars_widen (p : Piece a) : p.widen.chars = p.chars := rfl

@[simp] theorem Piece.join_widen (ps : List (Piece a)) : join (ps.map widen) = join ps := by
  rw [join, join, List.flatMap_map]
  rfl

@[simp] theorem Piece.segments_widen (start : Nat) (ps : List (Piece a)) :
    segments start (ps.map widen) = segments start ps := by
  induction ps generalizing start with
  | nil => rfl
  | cons p ps ih =>
    rw [List.map_cons, segments_cons, segments_cons, chars_widen, ih]
    rfl

namespace Layout

/-- The layout, read in Unicode. -/
def widen (l : Layout a) : Layout .unicode := ⟨l.pieces.map Piece.widen, l.blanks, l.isBlank_of_mem⟩

@[simp] theorem chars_widen (l : Layout a) : l.widen.chars = l.chars := by
  simp [chars, widen]

@[simp] theorem selector_widen (text : String) (l : Layout a) :
    l.widen.selector text = l.selector text := by
  simp [selector, widen]

@[simp] theorem events_widen (l : Layout a) : l.widen.events = l.events := by
  simp [events, widen]

theorem Spells.widen {l : Layout a} {text : String} (h : l.Spells text) :
    l.widen.Spells text :=
  ⟨by simpa [Layout.widen] using h.1, by rw [chars_widen, h.2]⟩

end Layout

variable {text : String} {policy : FailurePolicy}

/-- A selector is read to the same selector in Unicode, with the same events. -/
theorem parse_unicode_of_outcome {p : Parse} {s : Selector}
    (hfits : text.utf8ByteSize ≤ maxOffset) (hp : parse text ⟨policy, a⟩ = .ok p)
    (hs : p.outcome = .ok s) : parse text ⟨policy, .unicode⟩ = .ok p := by
  obtain ⟨l, hl⟩ := exists_spells_of_parse hfits hp hs
  rw [parse_of_spells hfits hl] at hp
  rw [parse_of_spells (o := ⟨policy, .unicode⟩) hfits hl.widen, Layout.selector_widen,
    Layout.events_widen]
  exact hp

/-- Where all scans between characters are the same, so is what they read. -/
theorem readSegments_congr {o o' : Options} {s : Source} {c : Cursor}
    (hscan : ∀ d : Cursor, d.source = s → d.OnBoundaries →
      Keyword.scan o .keywords d = Keyword.scan o' .keywords d)
    (hsource : c.source = s) (hc : c.OnBoundaries) :
    readSegments o c = readSegments o' c := by
  fun_induction readSegments o c with
  | case1 c fault hfault =>
    obtain ⟨t, last, hok⟩ := Keyword.exists_scan hc.toInBounds o .keywords
    rw [hfault] at hok
    cases hok
  | case2 c last hnone =>
    rw [hscan c hsource hc] at hnone
    rw [readSegments_of_none hnone]
  | case3 c t next hsome _ ih =>
    obtain ⟨hnext, hkept⟩ :=
      Keyword.stable_scan (Cursor.stable_onBoundaries s) ⟨hsource, hc⟩ hsome
    obtain ⟨part, -, hlexeme, -⟩ := hkept.lexeme
    rw [hscan c hsource hc] at hsome
    rw [readSegments_of_some hsome hlexeme, hlexeme, Checked.ok_bind, ih hnext hkept]

/-- Alphabets that agree on a text read it alike, to a selector or to the same rejection. -/
theorem parse_congr_of_agree (hfits : text.utf8ByteSize ≤ maxOffset)
    (hagree : ∀ x ∈ text.toList, a.Agree b x) :
    parse text ⟨policy, a⟩ = parse text ⟨policy, b⟩ := by
  have hread : readSegments ⟨policy, a⟩ (.start ⟨text⟩) =
      readSegments ⟨policy, b⟩ (.start ⟨text⟩) := by
    refine readSegments_congr (s := ⟨text⟩) ?_ rfl (Cursor.onBoundaries_start hfits)
    intro d hsource hd
    obtain ⟨before, after, hsplits⟩ := (Cursor.exists_splits_iff hd.fits).mpr hd.isBoundary_pos
    exact Keyword.scan_congr_of_agree hsplits (by rwa [hsource])
  simp only [parse, hread]

end Selector

/-! ### The restriction -/

/-- **The alphabet of ASCII takes names away, and changes none.**  From every boundary a scan
that finds a keyword in ASCII finds it in Unicode and leaves the cursor at the same place,
and a text that is a selector in ASCII is the same selector in Unicode.  If all characters of
a text that are no blanks belong to ASCII, every scan of it is the same in both, also one in
vain, and so is what it is read to, be it a selector or a rejection. -/
theorem Alphabet.ascii_restricts_unicode {text : String} (hfits : text.utf8ByteSize ≤ maxOffset)
    (policy : FailurePolicy) :
    let s : Source := ⟨text⟩
    (∀ wanted pos start, s.IsBoundary pos → ∃ found last,
      Keyword.scan ⟨policy, .ascii⟩ wanted ⟨s, pos, start⟩ = .ok (found, last) ∧
        (found.isSome = true →
          Keyword.scan ⟨policy, .unicode⟩ wanted ⟨s, pos, start⟩ = .ok (found, last))) ∧
    (∃ p, Selector.parse text ⟨policy, .ascii⟩ = .ok p ∧
      ∀ sel, p.outcome = .ok sel → Selector.parse text ⟨policy, .unicode⟩ = .ok p) ∧
    ((∀ x ∈ text.toList, isBlank x = false → x.toNat < 0x80) →
      (∀ wanted pos start, s.IsBoundary pos →
        Keyword.scan ⟨policy, .ascii⟩ wanted ⟨s, pos, start⟩ =
          Keyword.scan ⟨policy, .unicode⟩ wanted ⟨s, pos, start⟩) ∧
      Selector.parse text ⟨policy, .ascii⟩ = Selector.parse text ⟨policy, .unicode⟩) := by
  intro s
  have hcut : ∀ pos start, s.IsBoundary pos →
      ∃ before after, (⟨s, pos, start⟩ : Cursor).Splits before after := by
    intro pos start hb
    exact (Cursor.exists_splits_iff hfits).mpr hb
  refine ⟨?keyword, ?selector, ?agreement⟩
  case keyword =>
    intro wanted pos start hb
    obtain ⟨before, after, hsplits⟩ := hcut pos start hb
    obtain ⟨found, last, hscan⟩ := Keyword.exists_scan_of_splits hsplits ⟨policy, .ascii⟩ wanted
    refine ⟨found, last, hscan, ?_⟩
    intro hsome
    obtain ⟨t, rfl⟩ := Option.isSome_iff_exists.mp hsome
    exact Keyword.scan_unicode_of_some hsplits hscan
  case selector =>
    obtain ⟨p, hp⟩ := Selector.exists_parse hfits ⟨policy, .ascii⟩
    exact ⟨p, hp, fun sel hsel => Selector.parse_unicode_of_outcome hfits hp hsel⟩
  case agreement =>
    intro hascii
    have hagree : ∀ x ∈ text.toList, ascii.Agree unicode x := by
      intro x hx
      cases hblank : isBlank x with
      | true => exact agree_of_isBlank ascii unicode hblank
      | false => exact agree_of_lt (hascii x hx hblank)
    refine ⟨?_, Selector.parse_congr_of_agree hfits hagree⟩
    intro wanted pos start hb
    obtain ⟨before, after, hsplits⟩ := hcut pos start hb
    exact Keyword.scan_congr_of_agree hsplits hagree

/-- A keyword in ASCII in front of a name that only Unicode has, a selector with a blank from
outside ASCII, and an assignment behind such a blank. -/
theorem Alphabet.ascii_restricts_unicode_accent :
    let s : Source := ⟨"at:é:"⟩
    let text := "at:\u00a0put:"
    s.text.utf8ByteSize ≤ maxOffset ∧ text.utf8ByteSize ≤ maxOffset ∧
      "\u00a0x:=1".utf8ByteSize ≤ maxOffset ∧
      (∃ last,
        Keyword.scan ⟨.stay, .ascii⟩ .keywords ⟨s, 0, 0⟩ = .ok (some ⟨.keyword, 0, 3⟩, last) ∧
        Keyword.scan ⟨.stay, .unicode⟩ .keywords ⟨s, 0, 0⟩ = .ok (some ⟨.keyword, 0, 3⟩, last)) ∧
      Keyword.scan ⟨.stay, .ascii⟩ .keywords ⟨s, 3, 3⟩ ≠
        Keyword.scan ⟨.stay, .unicode⟩ .keywords ⟨s, 3, 3⟩ ∧
      (∃ p sel, Selector.parse text ⟨.stay, .ascii⟩ = .ok p ∧ p.outcome = .ok sel ∧
        Selector.parse text ⟨.stay, .unicode⟩ = .ok p) ∧
      Selector.parse "\u00a0x:=1" ⟨.stay, .ascii⟩ =
        Selector.parse "\u00a0x:=1" ⟨.stay, .unicode⟩ := by
  intro s text
  have hs : s.text.utf8ByteSize ≤ maxOffset := by decide
  have htext : text.utf8ByteSize ≤ maxOffset := by decide
  have hvain : "\u00a0x:=1".utf8ByteSize ≤ maxOffset := by decide
  refine ⟨hs, htext, hvain, ?keyword, by decide +kernel, ?selector, ?agreement⟩
  case keyword =>
    have htoken : (Keyword.scan ⟨.stay, .ascii⟩ .keywords ⟨s, 0, 0⟩).map Prod.fst =
        .ok (some ⟨.keyword, 0, 3⟩) := by decide +kernel
    obtain ⟨found, last, hscan, hsame⟩ :=
      (Alphabet.ascii_restricts_unicode hs .stay).1 .keywords 0 0 s.isBoundary_zero
    rw [hscan] at htoken
    obtain rfl : found = some ⟨.keyword, 0, 3⟩ := Except.ok.inj htoken
    exact ⟨last, hscan, hsame rfl⟩
  case selector =>
    let l : Selector.Layout .ascii :=
      ⟨[⟨[], ['a', 't'], by simp, by decide⟩,
        ⟨['\u00a0'], ['p', 'u', 't'], List.all_eq_true.mp (by decide), by decide⟩], [], by simp⟩
    have hl : l.Spells text := ⟨by simp [l], by decide +kernel⟩
    obtain ⟨p, hp, hsame⟩ := (Alphabet.ascii_restricts_unicode htext .stay).2.1
    have hread := Selector.parse_of_spells (o := ⟨.stay, .ascii⟩) htext hl
    obtain rfl := Except.ok.inj (hp.symm.trans hread)
    exact ⟨_, _, hp, rfl, hsame _ rfl⟩
  case agreement =>
    have hchars : "\u00a0x:=1".toList = ['\u00a0', 'x', ':', '=', '1'] := by decide +kernel
    have hascii : ∀ x ∈ "\u00a0x:=1".toList, isBlank x = false → x.toNat < 0x80 := by
      rw [hchars]
      intro x hx hblank
      simp only [List.mem_cons, List.not_mem_nil, or_false] at hx
      rcases hx with rfl | rfl | rfl | rfl | rfl
      · exact absurd hblank (by decide)
      all_goals decide
    exact ((Alphabet.ascii_restricts_unicode hvain .stay).2.2 hascii).2

end SelectorLexer
