import SelectorLexer.Keyword.Progress
import SelectorLexer.Proofs.Cursor.Splits
import SelectorLexer.Proofs.Keyword.Opening

/-!
# What a scan finds, and where it leaves the cursor

A scan at a cut drops the blanks in front of the cursor, and how the rest of the text
opens then decides everything: the answer, and with the policy on failures the place
where the cursor is left.  The token starts behind the blanks in any case.

`Keyword.scan_of_splits` says all of this in one equation.  It is the only statement
about a scan for which the scan itself is opened; what else is true of scans at a cut is
true of openings.

## Main definitions

* `Opening.token?` — the answer of a scan.
* `Opening.consumed`, `Opening.stop` — what it has passed, and the place where it ends.

## Main results

* `Keyword.probe_of_opens` — a probe reads what decides how the text opens.
* `Keyword.scan_of_splits` — the answer of a scan and the cursor it leaves.
* `Keyword.scan_recognizes_keyword` — a scan finds a keyword where one stands, all of
  it, and nothing else.
-/

namespace SelectorLexer

open String (utf8Len)

namespace Opening

/-- The token that a scan finds in a text that opens like this at the offset `start`. -/
def token? (start : Nat) : Opening → Option Token
  | keyword name => some ⟨.keyword, start, start + utf8Len name + 1⟩
  | _ => none

/-- The characters that a scan has passed when it ends, of those behind the blanks. -/
def consumed (policy : FailurePolicy) (o : Opening) : List Char :=
  if o.isKeyword || policy = .stay then o.read else []

/-- Where a scan ends whose name starts at the offset `start`. -/
def stop (policy : FailurePolicy) (start : Nat) (o : Opening) : Nat :=
  start + utf8Len (o.consumed policy)

@[simp] theorem token?_keyword (start : Nat) (name : List Char) :
    (keyword name).token? start = some ⟨.keyword, start, start + utf8Len name + 1⟩ := rfl

theorem token?_eq_some_iff {start : Nat} {o : Opening} {t : Token} :
    o.token? start = some t ↔
      ∃ name, o = keyword name ∧ t = ⟨.keyword, start, start + utf8Len name + 1⟩ := by
  cases o with
  | keyword name => simp [eq_comm]
  | other => simp [token?]
  | plainName name => simp [token?]
  | assignment name => simp [token?]

theorem token?_of_isKeyword {o : Opening} (h : o.isKeyword = false) (start : Nat) :
    o.token? start = none := by
  cases o with
  | keyword name => cases h
  | _ => rfl

theorem utf8Len_read_keyword (name : List Char) :
    utf8Len (keyword name).read = utf8Len name + 1 := by
  rw [read, String.utf8Len_append]
  rfl

@[simp] theorem consumed_other (policy : FailurePolicy) : other.consumed policy = [] := by
  rw [consumed, read, ite_self]

@[simp] theorem consumed_stay (o : Opening) : o.consumed .stay = o.read :=
  if_pos (by simp)

theorem consumed_goBack {o : Opening} (h : o.isKeyword = false) : o.consumed .goBack = [] :=
  if_neg (by simp [h])

theorem consumed_isPrefix (a : Alphabet) (cs : List Char) (policy : FailurePolicy) :
    (opening a cs).consumed policy <+: cs := by
  unfold consumed
  split
  · exact read_opening_isPrefix a cs
  · exact List.nil_prefix

theorem stop_keyword (policy : FailurePolicy) (start : Nat) (name : List Char) :
    (keyword name).stop policy start = start + utf8Len name + 1 := by
  rw [stop, consumed, isKeyword, Bool.true_or, if_pos rfl, utf8Len_read_keyword, Nat.add_assoc]

end Opening

namespace Keyword

variable {c : Cursor} {before after : List Char}

/-! ### The probe -/

/-- The first two steps of a probe pass the name. -/
theorem passName_of_splits {a : Alphabet} {name rest : List Char}
    (h : c.Splits before (name ++ rest)) (hname : a.isName name = true)
    (hstop : ∀ x, rest.head? = some x → a.isContinue x = false) :
    (do (← c.pass .content).passWhile .content a.isContinue) =
      Except.ok (ε := Fault) (c.past .content name) := by
  cases name with
  | nil => cases hname
  | cons x more =>
    rw [Alphabet.isName_cons_iff] at hname
    have hfirst : (c.past .content [x]).Splits (before ++ [x]) (more ++ rest) :=
      Cursor.Splits.past_singleton h .content
    rw [h.pass_cons .content, Checked.ok_bind, hfirst.passWhile,
      takeWhile_append_of_stop hname.2 hstop, ← Cursor.past_append, List.singleton_append]

/-- A probe reads what decides how the text opens, and says whether it is a keyword. -/
theorem probe_of_opens {a : Alphabet} {o : Opening} (h : c.Splits before after)
    (ho : Opens a after o) (hother : o ≠ .other) :
    probe a c = .ok (o.isKeyword, c.past .content o.read) := by
  have hprobe : ∀ {name : Cursor},
      (do (← c.pass .content).passWhile .content a.isContinue) = Except.ok (ε := Fault) name →
      probe a c =
        (if name.peek = ':' then do
          let colon ← name.pass .content
          return (colon.peek != '=', colon)
        else return (false, name)) := by
    intro name hname
    obtain ⟨first, hfirst, hname⟩ := Checked.bind_eq_ok_iff.mp hname
    rw [probe, hfirst, Checked.ok_bind, hname, Checked.ok_bind]
  have hcolon : (':' : Char) ≠ endChar := by decide
  have hequals : ('=' : Char) ≠ endChar := by decide
  cases ho with
  | other hcs => exact absurd rfl hother
  | @plainName name rest hname hstop hnext =>
    rw [hprobe (passName_of_splits h hname hstop), if_neg]
    · rfl
    · rw [(h.past .content).peek_eq_iff hcolon]
      exact hnext
  | @assignment name rest hname =>
    have hsplits := h.past .content
    have hlast : (c.past .content (name ++ [':'])).Splits (before ++ (name ++ [':']))
        ('=' :: rest) := Cursor.Splits.past (by simpa using h) .content
    rw [hprobe (passName_of_splits h hname stop_of_head?_colon),
      if_pos hsplits.peek_cons, hsplits.pass_cons .content, Checked.ok_bind,
      ← Cursor.past_append, hlast.peek_cons]
    rfl
  | @keyword name rest hname hnext =>
    have hsplits := h.past .content
    have hlast : (c.past .content (name ++ [':'])).Splits (before ++ (name ++ [':'])) rest :=
      Cursor.Splits.past (by simpa using h) .content
    have hpeek : (c.past .content (name ++ [':'])).peek ≠ '=' := by
      rwa [Ne, hlast.peek_eq_iff hequals]
    rw [hprobe (passName_of_splits h hname stop_of_head?_colon),
      if_pos hsplits.peek_cons, hsplits.pass_cons .content, Checked.ok_bind,
      ← Cursor.past_append, bne_iff_ne.mpr hpeek]
    rfl

/-! ### The scan -/

/-- Dropping blanks from a new token leads to where the rest of the text starts. -/
theorem dropBlanks_of_splits {blanks rest : List Char} (h : c.Splits before (blanks ++ rest))
    (hblanks : ∀ x ∈ blanks, isBlank x = true)
    (hrest : ∀ x, rest.head? = some x → isBlank x = false) :
    c.openToken.passWhile .trivia isBlank =
      .ok ⟨c.source, c.pos + utf8Len blanks, c.pos + utf8Len blanks⟩ := by
  rw [h.openToken.passWhile, takeWhile_append_of_stop hblanks hrest, Cursor.past_trivia]
  congr 2
  split
  · next hnil =>
    rw [hnil, String.utf8Len_nil]
    rfl
  · rfl

/-- What is read in front of a text starts a name unless the text opens without one. -/
theorem isStart_peek_iff {a : Alphabet} {o : Opening} (h : c.Splits before after)
    (ho : Opens a after o) : a.isStart c.peek = true ↔ o ≠ .other := by
  have hend : a.isStart endChar = false := by cases a <;> decide
  have hstart : ∀ {name rest : List Char}, a.isName name = true →
      a.isStart ((name ++ rest).head?.getD endChar) = true := by
    intro name rest hname
    obtain ⟨x, more, rfl, hx⟩ := Alphabet.exists_cons_of_isName hname
    exact hx
  rw [h.peek_eq]
  cases ho with
  | other hcs =>
    cases hhead : after.head? with
    | none => simp [hend]
    | some x => simp [hcs x hhead]
  | plainName hname => exact iff_of_true (hstart hname) Opening.noConfusion
  | assignment hname => exact iff_of_true (hstart hname) Opening.noConfusion
  | keyword hname => exact iff_of_true (hstart hname) Opening.noConfusion

/-- Where a probe that finds no keyword leaves the cursor. -/
theorem giveUp_eq {s : Source} {policy : FailurePolicy} {start : Nat} {o : Opening}
    (hsize : start ≤ s.size) (ho : o.isKeyword = false) :
    giveUp policy (⟨s, start, start⟩ : Cursor).mark ⟨s, start + utf8Len o.read, start⟩ =
      .ok ⟨s, o.stop policy start, start⟩ := by
  cases policy with
  | goBack =>
    rw [giveUp, Cursor.rewind_eq_ok_iff, Opening.stop, Opening.consumed_goBack ho]
    exact ⟨hsize, rfl⟩
  | stay =>
    rw [giveUp, Opening.stop, Opening.consumed_stay]

/-- **What a scan answers, and where it leaves the cursor.**  Behind the blanks the token
starts, and how the text opens there decides the rest. -/
theorem scan_of_splits {o : Options} {wanted : KindSet} {blanks rest : List Char}
    (hwanted : wanted.contains .keyword = true) (h : c.Splits before (blanks ++ rest))
    (hblanks : ∀ x ∈ blanks, isBlank x = true)
    (hrest : ∀ x, rest.head? = some x → isBlank x = false) {op : Opening}
    (hop : Opens o.alphabet rest op) :
    scan o wanted c =
      .ok (op.token? (c.pos + utf8Len blanks),
        ⟨c.source, op.stop o.onFailure (c.pos + utf8Len blanks), c.pos + utf8Len blanks⟩) := by
  have hdrop := dropBlanks_of_splits h hblanks hrest
  have hsize : c.pos + utf8Len blanks ≤ c.source.size := by
    rw [h.size_eq, h.pos, String.utf8Len_append]
    omega
  generalize hstart : c.pos + utf8Len blanks = start at hdrop hsize ⊢
  have hname : (⟨c.source, start, start⟩ : Cursor).Splits (before ++ blanks) rest :=
    ⟨h.fits, by rw [h.chars, List.append_assoc],
      by rw [← hstart, h.pos, String.utf8Len_append]⟩
  have hpeek := isStart_peek_iff hname hop
  rw [scan, if_pos hwanted, hdrop, Checked.ok_bind]
  by_cases hother : op = .other
  · -- no name: nothing is probed
    rw [if_neg (by simp [hpeek, hother]), hother, Opening.stop, Opening.consumed_other]
    rfl
  · rw [if_pos (hpeek.mpr hother), probe_of_opens hname hop hother, Checked.ok_bind,
      Cursor.past_content]
    cases hkey : op.isKeyword with
    | true =>
      -- the cursor stays behind the colon, where the token ends
      cases op with
      | keyword name =>
        rw [Opening.stop_keyword, Opening.utf8Len_read_keyword, ← Nat.add_assoc]
        rfl
      | _ => cases hkey
    | false =>
      simp only [Bool.false_eq_true, if_false, giveUp_eq hsize hkey, Checked.ok_bind,
        Opening.token?_of_isKeyword hkey]
      rfl

/-- A scan that finds nothing leaves the cursor where its failure is treated. -/
theorem scan_of_miss {o : Options} {wanted : KindSet} {blanks rest : List Char}
    (hwanted : wanted.contains .keyword = true) (h : c.Splits before (blanks ++ rest))
    (hblanks : ∀ x ∈ blanks, isBlank x = true)
    (hrest : ∀ x, rest.head? = some x → isBlank x = false)
    (hkey : (opening o.alphabet rest).isKeyword = false) :
    scan o wanted c =
      .ok (none, ⟨c.source, (opening o.alphabet rest).stop o.onFailure (c.pos + utf8Len blanks),
        c.pos + utf8Len blanks⟩) := by
  rw [scan_of_splits hwanted h hblanks hrest (opens_opening o.alphabet rest),
    Opening.token?_of_isKeyword hkey]

/-- A scan that finds a keyword leaves the cursor behind the colon, with the keyword as
the token that was read. -/
theorem scan_of_keyword {o : Options} {wanted : KindSet} {blanks name more : List Char}
    (hwanted : wanted.contains .keyword = true)
    (h : c.Splits before (blanks ++ (name ++ ':' :: more)))
    (hblanks : ∀ x ∈ blanks, isBlank x = true) (hname : o.alphabet.isName name = true)
    (hequals : more.head? ≠ some '=') :
    let start := c.pos + utf8Len blanks
    let last : Cursor := ⟨c.source, start + utf8Len name + 1, start⟩
    scan o wanted c = .ok (some ⟨.keyword, start, start + utf8Len name + 1⟩, last) ∧
      last.Splits (before ++ blanks ++ (name ++ [':'])) more ∧
      last.lexeme = .ok (String.ofList (name ++ [':'])) := by
  intro start last
  have hrest : ∀ x, (name ++ ':' :: more).head? = some x → isBlank x = false := by
    obtain ⟨y, tail, rfl, hy⟩ := Alphabet.exists_cons_of_isName hname
    intro x hx
    cases hx
    exact Alphabet.isBlank_eq_false_of_isStart hy
  have hstart : start = utf8Len (before ++ blanks) := by
    rw [String.utf8Len_append, ← h.pos]
  have hlast : last.Splits (before ++ blanks ++ (name ++ [':'])) more := by
    refine ⟨h.fits, by simp [last, h.chars], ?_⟩
    rw [String.utf8Len_append, ← hstart, String.utf8Len_append, ← Nat.add_assoc]
    rfl
  refine ⟨?_, hlast, ?_⟩
  · rw [scan_of_splits hwanted h hblanks hrest (.keyword hname hequals), Opening.stop_keyword,
      Opening.token?_keyword]
  · show last.between start last.pos = _
    rw [hstart]
    exact hlast.between

/-- **A scan recognizes the keyword at a cut.**  Let `name` be the longest run of
characters that continue a name, behind the longest run of blanks.  The scan finds a
keyword exactly when a character that starts a name comes first, a colon comes right
after the run, and no equals sign after the colon.  Then the token is the run with its
colon, and the cursor has read just that. -/
theorem scan_recognizes_keyword {o : Options} {wanted : KindSet}
    (hwanted : wanted.contains .keyword = true)
    (hfits : c.source.text.utf8ByteSize ≤ maxOffset)
    (hchars : c.source.text.toList = before ++ after) (hpos : c.pos = utf8Len before) :
    let start := c.pos + utf8Len (after.takeWhile isBlank)
    let rest := after.dropWhile isBlank
    let name := rest.takeWhile o.alphabet.isContinue
    let next := rest.dropWhile o.alphabet.isContinue
    ∃ found last, scan o wanted c = .ok (found, last) ∧
      (found.isSome = true ↔
        (∃ x, rest.head? = some x ∧ o.alphabet.isStart x = true) ∧
          next.head? = some ':' ∧ next.tail.head? ≠ some '=') ∧
      ∀ t, found = some t →
        t = ⟨.keyword, start, start + utf8Len name + 1⟩ ∧
          last.source = c.source ∧ last.pos = t.span.stop ∧ last.tokenStart = start ∧
          last.lexeme = .ok (String.ofList name ++ ":") := by
  intro start rest name next
  have hsplits : c.Splits before (after.takeWhile isBlank ++ rest) :=
    ⟨hfits, by rw [hchars, List.takeWhile_append_dropWhile], hpos⟩
  have hblanks : ∀ x ∈ after.takeWhile isBlank, isBlank x = true := by
    intro x hx
    exact List.mem_takeWhile_imp hx
  have hrest : ∀ x, rest.head? = some x → isBlank x = false := by
    intro x hx
    exact eq_false_of_head?_dropWhile hx
  have hscan := scan_of_splits hwanted hsplits hblanks hrest (opens_opening o.alphabet rest)
  refine ⟨_, _, hscan, ?_, ?_⟩
  · rw [Option.isSome_iff_exists]
    constructor
    · rintro ⟨t, ht⟩
      obtain ⟨run, hop, rfl⟩ := Opening.token?_eq_some_iff.mp ht
      exact (opening_eq_keyword_iff_takeWhile.mp hop).1
    · intro hfound
      rw [opening_eq_keyword_iff_takeWhile.mpr ⟨hfound, rfl⟩]
      exact ⟨_, rfl⟩
  · intro t ht
    obtain ⟨run, hop, rfl⟩ := Opening.token?_eq_some_iff.mp ht
    obtain rfl : run = name := (opening_eq_keyword_iff_takeWhile.mp hop).2
    obtain ⟨more, hcut, hname, hequals⟩ := opening_eq_keyword_iff.mp hop
    rw [hcut] at hsplits
    obtain ⟨-, -, hlexeme⟩ := scan_of_keyword hwanted hsplits hblanks hname hequals
    rw [hop, Opening.stop_keyword]
    refine ⟨rfl, rfl, rfl, rfl, hlexeme.trans ?_⟩
    rw [String.ofList_append]

/-- Blanks in front, a null byte behind, and characters of two bytes on both sides. -/
theorem scan_recognizes_keyword_before_null :
    let c : Cursor := ⟨⟨"é\u00a0ça:\x00"⟩, 2, 1⟩
    (KindSet.keywords.contains .keyword = true ∧ c.source.text.utf8ByteSize ≤ maxOffset ∧
      c.source.text.toList = ['é'] ++ ['\u00a0', 'ç', 'a', ':', '\x00'] ∧
      c.pos = utf8Len ['é']) ∧
    ∃ last, scan {} .keywords c = .ok (some ⟨.keyword, 4, 8⟩, last) ∧
      last.pos = 8 ∧ last.tokenStart = 4 ∧ last.lexeme = .ok "ça:" := by
  intro c
  have hfits : c.source.text.utf8ByteSize ≤ maxOffset := by decide
  have hchars : c.source.text.toList = ['é'] ++ ['\u00a0', 'ç', 'a', ':', '\x00'] := by
    decide +kernel
  have hpos : c.pos = utf8Len ['é'] := by decide
  obtain ⟨found, last, hscan, hfound, htoken⟩ :=
    scan_recognizes_keyword (o := {}) KindSet.contains_keywords hfits hchars hpos
  obtain ⟨t, rfl⟩ := Option.isSome_iff_exists.mp
    (hfound.mpr ⟨⟨'ç', by decide, by decide +kernel⟩, by decide +kernel, by decide +kernel⟩)
  obtain ⟨rfl, -, hlast, hstart, hlexeme⟩ := htoken t rfl
  refine ⟨⟨KindSet.contains_keywords, hfits, hchars, hpos⟩, last, hscan, hlast, hstart, ?_⟩
  exact hlexeme.trans (by decide +kernel)

end Keyword

end SelectorLexer
