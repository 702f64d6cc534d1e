import SelectorLexer.Proofs.Keyword.Recognition

/-!
# Where a scan leaves the cursor when it finds nothing

A scan in vain still tells its caller something.  The token starts behind the blanks, so
that the caller knows where the text is that was refused, and the place of the cursor
tells how much of that text was looked at.  If the scan goes back, that is nothing at all.
If it stays, it is the name that stands there, and its colon only if that colon belongs to
an assignment sign: after any other colon the scan would not have been in vain.

Whether the scan finds a keyword does not depend on what it does when it finds none.

## Main results

* `Keyword.scan_eq_of_splits` — a scan at a cut, with the text in front of it cut behind
  the longest run of blanks.
* `Opening.stop_goBack`, `stop_opening_of_not_isStart`, `stop_opening_of_isStart` — where
  the cursor is left.
* `Keyword.scan_failure_leaves_cursor` — all of it together.
-/

namespace SelectorLexer

open String (utf8Len)

/-! ### The places where a scan ends -/

theorem Opening.isKeyword_of_token? {start : Nat} {o : Opening} (h : o.token? start = none) :
    o.isKeyword = false := by
  cases o with
  | keyword name => cases h
  | _ => rfl

/-- A scan that goes back ends where the name starts. -/
theorem Opening.stop_goBack {o : Opening} (h : o.isKeyword = false) (start : Nat) :
    o.stop .goBack start = start := by
  rw [stop, consumed_goBack h, String.utf8Len_nil, Nat.add_zero]

section Stop

variable {a : Alphabet} {cs : List Char}

/-- Where no name starts, nothing is passed. -/
theorem stop_opening_of_not_isStart (h : ∀ x, cs.head? = some x → a.isStart x = false)
    (policy : FailurePolicy) (start : Nat) : (opening a cs).stop policy start = start := by
  rw [(Opens.other h).eq_opening, Opening.stop, Opening.consumed_other, String.utf8Len_nil,
    Nat.add_zero]

/-- Where a name starts that is no keyword, a scan that stays has passed the name, and one
more character if the name is assigned to. -/
theorem stop_opening_of_isStart {x : Char} (hx : cs.head? = some x) (hstart : a.isStart x = true)
    (hkey : (opening a cs).isKeyword = false) (start : Nat) :
    ((∃ more, cs.dropWhile a.isContinue = ':' :: '=' :: more) →
        (opening a cs).stop .stay start = start + utf8Len (cs.takeWhile a.isContinue) + 1) ∧
      ((¬ ∃ more, cs.dropWhile a.isContinue = ':' :: '=' :: more) →
        (opening a cs).stop .stay start = start + utf8Len (cs.takeWhile a.isContinue)) := by
  have hopens := opens_opening a cs
  revert hopens hkey
  generalize opening a cs = op
  intro hkey hopens
  rw [Opening.stop, Opening.consumed_stay]
  cases hopens with
  | other hcs =>
    rw [hcs x hx] at hstart
    cases hstart
  | @plainName name rest hname hstop hcolon =>
    have hall := Alphabet.isContinue_of_mem_name hname
    rw [takeWhile_append_of_stop hall hstop, dropWhile_append_of_stop hall hstop]
    refine ⟨?_, fun _ => rfl⟩
    rintro ⟨more, rfl⟩
    exact absurd rfl hcolon
  | @assignment name rest hname =>
    have hall := Alphabet.isContinue_of_mem_name hname
    rw [takeWhile_append_of_stop hall stop_of_head?_colon,
      dropWhile_append_of_stop hall stop_of_head?_colon]
    refine ⟨fun _ => ?_, fun h => absurd ⟨rest, rfl⟩ h⟩
    rw [Opening.read, String.utf8Len_append, ← Nat.add_assoc]
    rfl
  | keyword => cases hkey

end Stop

namespace Keyword

variable {c : Cursor} {before after : List Char}

/-! ### The scan -/

/-- What a scan at a cut comes to, with the longest run of blanks dropped. -/
theorem scan_eq_of_splits {o : Options} {wanted : KindSet}
    (hwanted : wanted.contains .keyword = true) (h : c.Splits before after) :
    let start := c.pos + utf8Len (after.takeWhile isBlank)
    let op := opening o.alphabet (after.dropWhile isBlank)
    scan o wanted c = .ok (op.token? start, ⟨c.source, op.stop o.onFailure start, start⟩) := by
  have hsplits : c.Splits before (after.takeWhile isBlank ++ after.dropWhile isBlank) := by
    rwa [List.takeWhile_append_dropWhile]
  refine scan_of_splits hwanted hsplits ?_ ?_ (opens_opening o.alphabet _)
  · intro x hx
    exact List.mem_takeWhile_imp hx
  · intro x hx
    exact eq_false_of_head?_dropWhile hx

/-- A scan at a cut has an answer, wherever the token starts. -/
theorem exists_scan_of_splits (h : c.Splits before after) (o : Options) (wanted : KindSet) :
    ∃ found last, scan o wanted c = .ok (found, last) := by
  cases hwanted : wanted.contains .keyword with
  | false => exact ⟨_, _, scan_of_not_contains hwanted o c⟩
  | true => exact ⟨_, _, scan_eq_of_splits hwanted h⟩

/-- **What a scan in vain leaves behind.**  The token starts behind the blanks, whatever
follows them.  The cursor is there as well, unless the scan stays and a name was read: then
it is behind the longest run of characters that continue a name, or behind the colon after
it if the two make up an assignment with the equals sign that comes next.  Either way of
treating failures gives the same answer, and the same cursor if a keyword is found. -/
theorem scan_failure_leaves_cursor {o : Options} {wanted : KindSet}
    (hwanted : wanted.contains .keyword = true)
    (hfits : c.source.text.utf8ByteSize ≤ maxOffset)
    (hchars : c.source.text.toList = before ++ after) (hpos : c.pos = utf8Len before) :
    let start := c.pos + utf8Len (after.takeWhile isBlank)
    let rest := after.dropWhile isBlank
    let name := rest.takeWhile o.alphabet.isContinue
    let next := rest.dropWhile o.alphabet.isContinue
    ∃ found last, scan o wanted c = .ok (found, last) ∧
      (found = none →
        last.source = c.source ∧ last.tokenStart = start ∧
        (o.onFailure = .goBack ∨ rest = [] ∨
            (∃ x, rest.head? = some x ∧ o.alphabet.isStart x = false) →
          last.pos = start) ∧
        (o.onFailure = .stay → (∃ x, rest.head? = some x ∧ o.alphabet.isStart x = true) →
          ((∃ more, next = ':' :: '=' :: more) → last.pos = start + utf8Len name + 1) ∧
          ((¬ ∃ more, next = ':' :: '=' :: more) → last.pos = start + utf8Len name))) ∧
      ∀ policy, ∃ last', scan { o with onFailure := policy } wanted c = .ok (found, last') ∧
        (found.isSome = true → last' = last) := by
  intro start rest name next
  have hsplits : c.Splits before after := ⟨hfits, hchars, hpos⟩
  refine ⟨_, _, scan_eq_of_splits hwanted hsplits, ?_, ?_⟩
  · intro hnone
    have hkey := Opening.isKeyword_of_token? hnone
    refine ⟨rfl, rfl, ?_, ?_⟩
    · rintro (hback | hnil | ⟨x, hx, hstart⟩)
      · show Opening.stop o.onFailure start _ = start
        rw [hback, Opening.stop_goBack hkey]
      · apply stop_opening_of_not_isStart
        intro x hx
        rw [show after.dropWhile isBlank = [] from hnil] at hx
        cases hx
      · apply stop_opening_of_not_isStart
        intro y hy
        rwa [Option.some.inj (hy.symm.trans hx)]
    · rintro hstay ⟨x, hx, hstart⟩
      rw [hstay]
      exact stop_opening_of_isStart hx hstart hkey start
  · intro policy
    refine ⟨_, scan_eq_of_splits hwanted hsplits, ?_⟩
    intro hsome
    -- behind a keyword, nothing is left of the policy
    obtain ⟨t, ht⟩ := Option.isSome_iff_exists.mp hsome
    obtain ⟨run, hop, -⟩ := Opening.token?_eq_some_iff.mp ht
    simp only [hop, Opening.stop_keyword]

/-- A scan that stays has passed the colon of an assignment, one that goes back has not, and
the token starts at the name in both. -/
theorem scan_failure_leaves_cursor_assignment :
    let c : Cursor := ⟨⟨"é x1:=2"⟩, 2, 0⟩
    (KindSet.keywords.contains .keyword = true ∧ c.source.text.utf8ByteSize ≤ maxOffset ∧
      c.source.text.toList = ['é'] ++ [' ', 'x', '1', ':', '=', '2'] ∧
      c.pos = utf8Len ['é']) ∧
    (∃ last, scan ⟨.stay, .unicode⟩ .keywords c = .ok (none, last) ∧
      last.tokenStart = 3 ∧ last.pos = 6) ∧
    ∃ last, scan ⟨.goBack, .unicode⟩ .keywords c = .ok (none, last) ∧
      last.tokenStart = 3 ∧ last.pos = 3 := by
  intro c
  have hwanted := KindSet.contains_keywords
  have hfits : c.source.text.utf8ByteSize ≤ maxOffset := by decide
  have hchars : c.source.text.toList = ['é'] ++ [' ', 'x', '1', ':', '=', '2'] := by
    decide +kernel
  have hpos : c.pos = utf8Len ['é'] := by decide
  have hnone : (scan ⟨.stay, .unicode⟩ .keywords c).map Prod.fst = .ok none := by decide +kernel
  obtain ⟨found, last, hscan, hlast, hpolicy⟩ :=
    scan_failure_leaves_cursor (o := ⟨.stay, .unicode⟩) hwanted hfits hchars hpos
  obtain ⟨found', last', hscan', hlast', -⟩ :=
    scan_failure_leaves_cursor (o := ⟨.goBack, .unicode⟩) hwanted hfits hchars hpos
  obtain ⟨_, hback, -⟩ := hpolicy .goBack
  rw [hscan] at hnone
  rw [hscan'] at hback
  obtain rfl : found = none := Except.ok.inj hnone
  obtain rfl : found' = none := congrArg Prod.fst (Except.ok.inj hback)
  obtain ⟨-, hstart, -, hstay⟩ := hlast rfl
  obtain ⟨-, hstart', hgoBack, -⟩ := hlast' rfl
  refine ⟨⟨hwanted, hfits, hchars, hpos⟩, ⟨last, hscan, hstart, ?_⟩, last', hscan', hstart', ?_⟩
  · exact (hstay rfl ⟨'x', by decide, by decide +kernel⟩).1 ⟨['2'], by decide +kernel⟩
  · exact hgoBack (.inl rfl)

end Keyword

end SelectorLexer
