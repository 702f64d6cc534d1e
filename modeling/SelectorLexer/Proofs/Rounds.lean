import SelectorLexer.Proofs.Cursor.Strides
import SelectorLexer.Proofs.Keyword.Inside
import SelectorLexer.Proofs.Selector.Reach
import SelectorLexer.Proofs.Sweep.Findings

/-!
# Every loop comes to an end

Three loops work with a cursor.  A run passes characters as long as they are accepted, a sweep
scans and drops one character after every scan in vain, and reading a selector scans as long as
keywords are found.  A scan by itself is no measure for them: it may go back, and one in vain
may leave the cursor where it was.  So each loop is taken apart into rounds, and a round is all
that is done before the loop asks again whether to go on.  A round of a run passes a character,
a round of a sweep is a scan and the character dropped after it, and a round of reading is a
scan that finds a keyword.

Every round leads forward.  How far is told in bytes or in characters: a run makes at least one
byte, from whatever place, a sweep from a boundary makes at least one character, and a keyword
has at least two bytes, which are a letter and its colon.  As the cursor does not leave the
source, this bounds the number of rounds, for texts of any length.  In a text that offsets can
count nothing is a fault, so that the loops end as they should.

## Main definitions

* `Rounds` — so many rounds of a loop.
* `PassRound`, `SweepRound`, `Selector.ReadRound` — a round of a run, of a sweep and of reading.
* `Cursor.Behind` — how many characters a cursor has behind it.

## Main results

* `Rounds.exists_far` — if every round leads forward, some rounds lead so much further.
* `Keyword.two_le_of_scan` — a keyword has two bytes, and starts where the scan began or later.
* `rounds_of_passWhile`, `rounds_of_sweep`, `Selector.rounds_of_readSegments` — the loops go in
  rounds.
* `loops_end` — all three come to an end, and after how many rounds.
-/

namespace SelectorLexer

open String (utf8Len)

/-! ### Rounds -/

/-- So many rounds of a loop lead from one cursor to another. -/
inductive Rounds (R : Cursor → Cursor → Prop) : Nat → Cursor → Cursor → Prop where
  /-- No round leads nowhere. -/
  | none (c : Cursor) : Rounds R 0 c c
  /-- One round, and those that come after it. -/
  | next {n : Nat} {c d last : Cursor} (h : R c d) (hrest : Rounds R n d last) :
    Rounds R (n + 1) c last

namespace Rounds

variable {R : Cursor → Cursor → Prop} {n : Nat} {c last : Cursor}

/-- **If every round leads forward by `w`, then `n` rounds lead forward by `w * n`.**  How far a
cursor has come is told by `P`. -/
theorem exists_far {P : Nat → Cursor → Prop} {w k : Nat}
    (hR : ∀ {k c d}, P k c → R c d → ∃ k', k + w ≤ k' ∧ P k' d) (h : Rounds R n c last)
    (hc : P k c) : ∃ k', k + w * n ≤ k' ∧ P k' last := by
  induction h generalizing k with
  | none c => exact ⟨k, Nat.le_refl _, hc⟩
  | next hround hrest ih =>
    obtain ⟨k', hk', hd⟩ := hR hc hround
    obtain ⟨k'', hk'', hlast⟩ := ih hd
    refine ⟨k'', ?_, hlast⟩
    rw [Nat.mul_succ]
    omega

/-- In bytes, the cursor has come as far as its offset says. -/
theorem pos_le {s : Source} {w : Nat}
    (hR : ∀ {c d}, c.Within s → R c d → d.Within s ∧ c.pos + w ≤ d.pos) (h : Rounds R n c last)
    (hc : c.Within s) : last.Within s ∧ c.pos + w * n ≤ last.pos := by
  have hfar : ∀ {k c d}, c.Within s ∧ c.pos = k → R c d →
      ∃ k', k + w ≤ k' ∧ d.Within s ∧ d.pos = k' := by
    rintro k c d ⟨hc, rfl⟩ hround
    obtain ⟨hd, hle⟩ := hR hc hround
    exact ⟨d.pos, hle, hd, rfl⟩
  obtain ⟨k, hk, hlast, rfl⟩ :=
    h.exists_far (P := fun k c => c.Within s ∧ c.pos = k) hfar ⟨hc, rfl⟩
  exact ⟨hlast, hk⟩

end Rounds

/-! ### Runs -/

/-- A round of a run: in front of the end, a character is accepted and passed. -/
structure PassRound (part : Part) (p : Char → Bool) (c d : Cursor) : Prop where
  atEnd : c.atEnd = false
  accepted : p c.peek = true
  pass : c.pass part = .ok d

section Runs

variable {part : Part} {p : Char → Bool} {c d last : Cursor}

theorem PassRound.within {s : Source} (h : PassRound part p c d) (hc : c.Within s) :
    d.Within s ∧ c.pos + 1 ≤ d.pos :=
  ⟨(Cursor.stable_within s).pass hc h.pass, Cursor.pos_lt_of_pass h.atEnd h.pass⟩

/-- A run goes in rounds. -/
theorem rounds_of_passWhile (h : c.passWhile part p = .ok last) :
    ∃ n, Rounds (PassRound part p) n c last := by
  fun_induction Cursor.passWhile c part p with
  | case1 => cases h
  | case2 c hgo next hnext _ ih =>
    obtain ⟨n, hrest⟩ := ih h
    exact ⟨n + 1, .next ⟨hgo.1, hgo.2, hnext⟩ hrest⟩
  | case3 c =>
    obtain rfl := Except.ok.inj h
    exact ⟨0, .none c⟩

/-- **A run ends after at most as many rounds as there are bytes left.** -/
theorem exists_rounds_passWhile (hfits : c.source.text.utf8ByteSize ≤ maxOffset)
    (hpos : c.pos ≤ c.source.size) (part : Part) (p : Char → Bool) :
    ∃ n last, c.passWhile part p = .ok last ∧ Rounds (PassRound part p) n c last ∧
      (last.atEnd = true ∨ p last.peek = false) ∧ n ≤ c.source.size - c.pos := by
  obtain ⟨last, hlast⟩ := Cursor.exists_passWhile hfits part p
  obtain ⟨n, hrounds⟩ := rounds_of_passWhile hlast
  obtain ⟨hin, hle⟩ := hrounds.pos_le (fun hc hround => hround.within hc) ⟨rfl, hpos⟩
  have hsize := hin.2
  exact ⟨n, last, hlast, hrounds, Cursor.atEnd_or_eq_false_of_passWhile hlast, by omega⟩

end Runs

/-! ### A keyword has two bytes -/

namespace Cursor

variable {c last : Cursor} {p : Char → Bool}

/-- What is passed as content does not move the start of the token. -/
theorem tokenStart_of_pass_content (h : c.pass .content = .ok last) :
    last.tokenStart = c.tokenStart := by
  cases hend : c.atEnd with
  | true =>
    rw [pass_of_atEnd hend] at h
    rw [← Except.ok.inj h]
  | false => rw [((pass_eq_ok_iff hend).mp h).2, tokenStart_moveTo_content]

theorem tokenStart_of_passWhile_content (h : c.passWhile .content p = .ok last) :
    last.tokenStart = c.tokenStart := by
  obtain ⟨n, hrounds⟩ := rounds_of_passWhile h
  clear h
  induction hrounds with
  | none c => rfl
  | next hround hrest ih => rw [ih, tokenStart_of_pass_content hround.pass]

/-- What is passed as trivia takes the start of the token along. -/
theorem tokenStart_of_passWhile_trivia (h : c.passWhile .trivia p = .ok last)
    (hc : c.tokenStart = c.pos) : last.tokenStart = last.pos := by
  obtain ⟨n, hrounds⟩ := rounds_of_passWhile h
  clear h
  induction hrounds with
  | none c => exact hc
  | next hround hrest ih =>
    apply ih
    rw [((pass_eq_ok_iff hround.atEnd).mp hround.pass).2, tokenStart_moveTo_trivia, pos_moveTo]

end Cursor

namespace Keyword

variable {o : Options} {wanted : KindSet} {c last : Cursor}

/-- A probe that finds a keyword has passed its first letter and its colon. -/
theorem two_le_of_probe {a : Alphabet} (hend : c.atEnd = false)
    (h : probe a c = .ok (true, last)) :
    last.tokenStart = c.tokenStart ∧ c.pos + 2 ≤ last.pos := by
  simp only [probe, Checked.bind_eq_ok_iff] at h
  obtain ⟨first, hfirst, name, hname, h⟩ := h
  split at h
  · next hcolon =>
    obtain ⟨colon, hpass, h⟩ := Checked.bind_eq_ok_iff.mp h
    obtain ⟨-, rfl⟩ := Prod.mk.inj (Except.ok.inj h)
    constructor
    · rw [Cursor.tokenStart_of_pass_content hpass, Cursor.tokenStart_of_passWhile_content hname,
        Cursor.tokenStart_of_pass_content hfirst]
    · have hname_end : name.atEnd = false :=
        Cursor.atEnd_eq_false_of_peek (by rw [hcolon]; decide)
      calc c.pos + 2 ≤ first.pos + 1 := Nat.succ_le_succ (Cursor.pos_lt_of_pass hend hfirst)
        _ ≤ name.pos + 1 := Nat.succ_le_succ (Cursor.pos_le_of_passWhile hname)
        _ ≤ colon.pos := Cursor.pos_lt_of_pass hname_end hpass
  · cases h

/-- A scan that finds a keyword has dropped blanks, and probed a name that starts behind them. -/
theorem probe_of_scan {t : Token} (h : scan o wanted c = .ok (some t, last)) :
    ∃ name, c.openToken.passWhile .trivia isBlank = .ok name ∧
      o.alphabet.isStart name.peek = true ∧ probe o.alphabet name = .ok (true, last) ∧
      t = ⟨.keyword, last.span⟩ := by
  unfold scan at h
  split at h
  · obtain ⟨name, hname, h⟩ := Checked.bind_eq_ok_iff.mp h
    split at h
    · next hstart =>
      obtain ⟨⟨found, probed⟩, hprobe, h⟩ := Checked.bind_eq_ok_iff.mp h
      cases found with
      | true =>
        cases h
        exact ⟨name, hname, hstart, hprobe, rfl⟩
      | false =>
        simp only [Bool.false_eq_true, if_false, Checked.bind_eq_ok_iff] at h
        obtain ⟨left, -, h⟩ := h
        cases h
    · cases h
  · cases h

/-- **A keyword has two bytes, and starts where the scan began or later.** -/
theorem two_le_of_scan {t : Token} (h : scan o wanted c = .ok (some t, last)) :
    c.pos ≤ t.span.start ∧ t.span = last.span ∧ t.span.start + 2 ≤ last.pos := by
  obtain ⟨name, hname, hstart, hprobe, rfl⟩ := probe_of_scan h
  have hle : c.openToken.pos ≤ name.pos := Cursor.pos_le_of_passWhile hname
  have hopen : name.tokenStart = name.pos := Cursor.tokenStart_of_passWhile_trivia hname rfl
  -- the end reads as a sign, which starts no name
  have hend : name.atEnd = false := by
    apply Cursor.atEnd_eq_false_of_peek
    intro hpeek
    rw [hpeek, Alphabet.isStart_eq_false_of_isContinue
      (Alphabet.isContinue_eq_false_of_mem_signs _ (by decide))] at hstart
    cases hstart
  obtain ⟨hkept, htwo⟩ := two_le_of_probe hend hprobe
  have hspan : last.span.start = name.pos := hkept.trans hopen
  exact ⟨by rw [hspan]; exact hle, rfl, by rw [hspan]; exact htwo⟩

/-- A scan has an answer wherever the token of the cursor starts: it opens one of its own. -/
theorem exists_scan_of_pos_le (hfits : c.source.text.utf8ByteSize ≤ maxOffset)
    (hpos : c.pos ≤ c.source.size) (o : Options) (wanted : KindSet) :
    ∃ t last, scan o wanted c = .ok (t, last) := by
  cases hwanted : wanted.contains .keyword with
  | false => exact ⟨_, _, scan_of_not_contains hwanted o c⟩
  | true =>
    have hopen : c.openToken.InBounds := ⟨hfits, Nat.le_refl _, hpos⟩
    rw [← scan_congr_place hwanted c.source_openToken c.pos_openToken]
    exact exists_scan hopen o wanted

end Keyword

/-! ### Sweeps -/

/-- A round of a sweep: in front of the end, a scan, and one character more if it was in
vain. -/
inductive SweepRound (o : Options) (c : Cursor) : Cursor → Prop where
  /-- A keyword was found. -/
  | found {t : Token} {next : Cursor} (hend : c.atEnd = false)
    (hscan : Keyword.scan o .keywords c = .ok (some t, next)) : SweepRound o c next
  /-- None was found, and the next character is dropped. -/
  | miss {last next : Cursor} (hend : c.atEnd = false)
    (hscan : Keyword.scan o .keywords c = .ok (none, last))
    (hpass : last.pass .trivia = .ok next) : SweepRound o c next

section Sweeps

variable {o : Options} {c d : Cursor} {s : Source} {k : Nat}

/-- A round of a sweep leads from a boundary to a later one. -/
theorem SweepRound.reaches (h : SweepRound o c d) (hc : c.Reaches s) :
    d.Reaches s ∧ c.pos < d.pos := by
  cases h with
  | found hend hscan =>
    exact ⟨Keyword.stable_scan (Cursor.stable_reach s) hc hscan, Keyword.pos_lt_of_scan hscan⟩
  | miss hend hscan hpass =>
    have hlast := Keyword.stable_scan (Cursor.stable_reach s) hc hscan
    refine ⟨hlast.pass hpass, ?_⟩
    have hless := remaining_lt_of_miss hend hscan hpass
    rw [Cursor.remaining, Cursor.remaining, Cursor.source_of_pass hpass,
      Keyword.source_of_scan hscan] at hless
    omega

/-- On one source, the cursor has `k` characters behind it. -/
def Cursor.Behind (s : Source) (k : Nat) (c : Cursor) : Prop :=
  c.Reaches s ∧ ∃ before after, s.text.toList = before ++ after ∧ c.pos = utf8Len before ∧
    before.length = k

theorem Cursor.behind_start (s : Source) : (Cursor.start s).Behind s 0 :=
  ⟨⟨rfl, Nat.zero_le _, s.isBoundary_zero⟩, [], s.text.toList, rfl, rfl, rfl⟩

theorem Cursor.Behind.le (h : c.Behind s k) : k ≤ s.text.toList.length := by
  obtain ⟨-, before, after, hchars, -, rfl⟩ := h
  rw [hchars, List.length_append]
  exact Nat.le_add_right _ _

/-- At a later boundary there are more characters behind the cursor. -/
theorem Cursor.Behind.exists_of_pos_lt (hc : c.Behind s k) (hd : d.Reaches s)
    (hlt : c.pos < d.pos) : ∃ k', k + 1 ≤ k' ∧ d.Behind s k' := by
  obtain ⟨-, before, after, hchars, hpos, rfl⟩ := hc
  obtain ⟨front, back, hfront, hpos'⟩ := Source.isBoundary_iff_utf8Len.mp hd.2.2
  obtain ⟨mid, rfl, -⟩ := exists_eq_append_of_utf8Len_le (hchars.symm.trans hfront) (by omega)
  refine ⟨(before ++ mid).length, ?_, hd, before ++ mid, back, hfront, hpos', rfl⟩
  cases mid with
  | nil =>
    rw [List.append_nil] at hpos'
    omega
  | cons x mid =>
    rw [List.length_append, List.length_cons]
    omega

/-- So there are no more rounds of a sweep than characters. -/
theorem Rounds.le_length_of_sweepRound {n : Nat}
    (h : Rounds (SweepRound o) n (.start s) d) : n ≤ s.text.toList.length := by
  have hfar : ∀ {k c d}, c.Behind s k → SweepRound o c d → ∃ k', k + 1 ≤ k' ∧ d.Behind s k' := by
    intro k c d hc hround
    obtain ⟨hd, hlt⟩ := hround.reaches hc.1
    exact hc.exists_of_pos_lt hd hlt
  obtain ⟨k, hk, hd⟩ := h.exists_far (P := Cursor.Behind s) hfar (Cursor.behind_start s)
  have hle := hd.le
  omega

/-- A sweep goes in rounds, one for each finding, and stops at the end. -/
theorem rounds_of_sweep {found : List Finding} (h : sweep o c = .ok found) :
    ∃ last, Rounds (SweepRound o) found.length c last ∧ last.atEnd = true := by
  fun_induction sweep o c generalizing found with
  | case1 c hend =>
    cases h
    exact ⟨c, .none c, hend⟩
  | case2 => cases h
  | case3 c hend t next hscan _ ih =>
    obtain ⟨text, -, h⟩ := Checked.bind_eq_ok_iff.mp h
    obtain ⟨rest, hrest, h⟩ := Checked.bind_eq_ok_iff.mp h
    cases h
    obtain ⟨last, hrounds, hlast⟩ := ih hrest
    exact ⟨last, .next (.found (Bool.eq_false_iff.mpr hend) hscan) hrounds, hlast⟩
  | case4 => cases h
  | case5 c hend last hscan next hpass _ ih =>
    obtain ⟨rest, hrest, h⟩ := Checked.bind_eq_ok_iff.mp h
    cases h
    obtain ⟨last', hrounds, hlast'⟩ := ih hrest
    exact ⟨last', .next (.miss (Bool.eq_false_iff.mpr hend) hscan hpass) hrounds, hlast'⟩

/-- **A sweep of a text comes to its end.** -/
theorem exists_rounds_sweep {text : String} (hfits : text.utf8ByteSize ≤ maxOffset)
    (o : Options) :
    ∃ found last, sweep o (.start ⟨text⟩) = .ok found ∧
      Rounds (SweepRound o) found.length (.start ⟨text⟩) last ∧ last.atEnd = true := by
  obtain ⟨found, hsweep, -⟩ := sweep_of_splits (o := o) (Cursor.splits_start hfits)
  obtain ⟨last, hrounds, hlast⟩ := rounds_of_sweep hsweep
  exact ⟨found, last, hsweep, hrounds, hlast⟩

end Sweeps

/-! ### Reading a selector -/

namespace Selector

/-- A round of reading: a scan that finds a keyword. -/
def ReadRound (o : Options) (c d : Cursor) : Prop :=
  ∃ t, Keyword.scan o .keywords c = .ok (some t, d)

variable {o : Options} {c d last : Cursor} {s : Source}

theorem ReadRound.two_le (h : ReadRound o c d) : c.pos + 2 ≤ d.pos := by
  obtain ⟨t, hscan⟩ := h
  obtain ⟨hstart, -, htwo⟩ := Keyword.two_le_of_scan hscan
  omega

theorem ReadRound.within (h : ReadRound o c d) (hc : c.Within s) :
    d.Within s ∧ c.pos + 2 ≤ d.pos := by
  refine ⟨?_, h.two_le⟩
  obtain ⟨t, hscan⟩ := h
  exact Keyword.stable_scan (Cursor.stable_within s) hc hscan

/-- So there is at most one round for every two bytes. -/
theorem two_mul_le_of_rounds {n : Nat} (h : Rounds (ReadRound o) n (.start s) d) :
    2 * n ≤ d.pos ∧ d.pos ≤ s.text.utf8ByteSize := by
  have hstart : (Cursor.start s).Within s := ⟨rfl, Nat.zero_le _⟩
  obtain ⟨hd, hle⟩ := h.pos_le (fun hc hround => hround.within hc) hstart
  rw [Cursor.start, Nat.zero_add] at hle
  exact ⟨hle, Nat.le_trans hd.2 s.size_le⟩

/-- Reading goes in rounds, one for each keyword, and stops at a scan that finds none. -/
theorem rounds_of_readSegments {found : List Segment}
    (h : readSegments o c = .ok (found, last)) :
    ∃ mid, Rounds (ReadRound o) found.length c mid ∧
      Keyword.scan o .keywords mid = .ok (none, last) := by
  fun_induction readSegments o c generalizing found with
  | case1 => cases h
  | case2 c next hscan =>
    cases h
    exact ⟨c, .none c, hscan⟩
  | case3 c t next hscan _ ih =>
    obtain ⟨text, -, h⟩ := Checked.bind_eq_ok_iff.mp h
    obtain ⟨⟨rest, end'⟩, hrest, h⟩ := Checked.bind_eq_ok_iff.mp h
    cases h
    obtain ⟨mid, hrounds, hmid⟩ := ih hrest
    exact ⟨mid, .next ⟨t, hscan⟩ hrounds, hmid⟩

/-- **Reading a text comes to a scan that finds no keyword.** -/
theorem exists_rounds_readSegments {text : String} (hfits : text.utf8ByteSize ≤ maxOffset)
    (o : Options) :
    ∃ found mid last, readSegments o (.start ⟨text⟩) = .ok (found, last) ∧
      Rounds (ReadRound o) found.length (.start ⟨text⟩) mid ∧
      Keyword.scan o .keywords mid = .ok (none, last) := by
  obtain ⟨l, rest, hl, hfinished⟩ := exists_isFront o.alphabet text.toList
  have hread := readSegments_of_isFront hfits hl hfinished
  obtain ⟨mid, hrounds, hmid⟩ := rounds_of_readSegments hread
  exact ⟨_, mid, _, hread, hrounds, hmid⟩

/-- **A selector has at most one argument for every two bytes of its text.** -/
theorem two_mul_arity_le {text : String} {p : Parse} {selector : Selector}
    (hp : parse text o = .ok p) (hselector : p.outcome = .ok selector) :
    2 * selector.arity ≤ text.utf8ByteSize := by
  obtain ⟨found, last, hread, -, -, rfl⟩ := readSegments_of_outcome hp hselector
  obtain ⟨mid, hrounds, -⟩ := rounds_of_readSegments hread
  obtain ⟨htwo, hsize⟩ := two_mul_le_of_rounds hrounds
  rw [arity, List.length_map]
  exact Nat.le_trans htwo hsize

end Selector

/-! ### All loops -/

/-- **Every loop over a cursor makes progress and ends.**  Let the cursor stand anywhere in a
text that offsets can count, also inside a character, and let its token start anywhere.  In
front of the end a step leads forward.  A run makes no more rounds than there are bytes left,
and then is at the end or in front of a character that is not accepted.  A scan has an answer,
and leads no further back than it began; a keyword starts no earlier, and has two bytes at
least.

So a sweep of a text has at most as many rounds as the text has characters, and each round of
reading leads forward by two bytes, so that with the last scan there are at most half as many
scans as bytes, and one more.  This is true of texts of any length.  If offsets can count the
text, the sweep comes to its end after as many rounds as it has findings, and reading comes to
a scan that finds no keyword. -/
theorem loops_end (text : String) :
    let s : Source := ⟨text⟩
    (text.utf8ByteSize ≤ maxOffset → ∀ c : Cursor, c.source = s → c.pos ≤ s.size →
      (∀ part, c.pos < s.size →
        ∃ next, c.pass part = .ok next ∧ c.pos < next.pos ∧ next.pos ≤ s.size) ∧
      (∀ part p, ∃ n last, c.passWhile part p = .ok last ∧ Rounds (PassRound part p) n c last ∧
        (last.atEnd = true ∨ p last.peek = false) ∧ n ≤ s.size - c.pos) ∧
      ∀ o wanted, ∃ t last, Keyword.scan o wanted c = .ok (t, last) ∧
        c.pos ≤ last.pos ∧ last.pos ≤ s.size ∧
        ∀ token, t = some token → c.pos ≤ token.span.start ∧ token.span = last.span ∧
          token.span.start + 2 ≤ last.pos) ∧
    (∀ o,
      (∀ n d, Rounds (SweepRound o) n (.start s) d → n ≤ text.toList.length) ∧
      (text.utf8ByteSize ≤ maxOffset → ∃ found last, sweep o (.start s) = .ok found ∧
        Rounds (SweepRound o) found.length (.start s) last ∧ last.atEnd = true)) ∧
    ∀ o,
      (∀ c d, Selector.ReadRound o c d → c.pos + 2 ≤ d.pos) ∧
      (∀ n d, Rounds (Selector.ReadRound o) n (.start s) d →
        n + 1 ≤ text.utf8ByteSize / 2 + 1) ∧
      (text.utf8ByteSize ≤ maxOffset →
        (∃ found mid last, Selector.readSegments o (.start s) = .ok (found, last) ∧
          Rounds (Selector.ReadRound o) found.length (.start s) mid ∧
          Keyword.scan o .keywords mid = .ok (none, last)) ∧
        ∃ p, Selector.parse text o = .ok p) ∧
      ∀ p selector, Selector.parse text o = .ok p → p.outcome = .ok selector →
        2 * selector.arity ≤ text.utf8ByteSize := by
  intro s
  refine ⟨?anywhere, ?sweeps, ?reading⟩
  case anywhere =>
    intro hfits c hsource hpos
    have hfits : c.source.text.utf8ByteSize ≤ maxOffset := by rwa [hsource]
    rw [← hsource] at hpos ⊢
    have hin : c.Within c.source := ⟨rfl, hpos⟩
    refine ⟨?_, exists_rounds_passWhile hfits hpos, ?_⟩
    · intro part hlt
      obtain ⟨next, hnext⟩ := Cursor.exists_pass hfits part
      exact ⟨next, hnext, Cursor.pos_lt_of_pass (Cursor.atEnd_eq_false_iff.mpr hlt) hnext,
        ((Cursor.stable_within c.source).pass hin hnext).2⟩
    · intro o wanted
      obtain ⟨t, last, hscan⟩ := Keyword.exists_scan_of_pos_le hfits hpos o wanted
      refine ⟨t, last, hscan, Keyword.pos_le_of_scan hscan,
        (Keyword.stable_scan (Cursor.stable_within c.source) hin hscan).2, ?_⟩
      rintro token rfl
      exact Keyword.two_le_of_scan hscan
  case sweeps =>
    intro o
    exact ⟨fun n d hrounds => hrounds.le_length_of_sweepRound,
      fun hfits => exists_rounds_sweep hfits o⟩
  case reading =>
    intro o
    refine ⟨fun c d hround => hround.two_le, ?_, ?_, ?_⟩
    · intro n d hrounds
      obtain ⟨htwo, hsize⟩ := Selector.two_mul_le_of_rounds hrounds
      have hbytes : 2 * n ≤ text.utf8ByteSize := Nat.le_trans htwo hsize
      omega
    · intro hfits
      exact ⟨Selector.exists_rounds_readSegments hfits o, Selector.exists_parse hfits o⟩
    · intro p selector hp hselector
      exact Selector.two_mul_arity_le hp hselector

/-- Cursors inside a character, with a token that starts behind them, and in front of a keyword.
There is a null character in the text, and an assignment, at which the two sweeps part. -/
theorem loops_end_inside_character :
    let s : Source := ⟨"é\x00 ab:=c: d"⟩
    let c : Cursor := ⟨s, 1, 5⟩
    let key : Token := ⟨.keyword, 8, 10⟩
    (s.text.utf8ByteSize ≤ maxOffset ∧ c.pos < s.size ∧ ¬ s.IsBoundary c.pos) ∧
    (∃ next, c.pass .content = .ok next ∧ c.pos < next.pos) ∧
    (∃ n last, c.passWhile .content (· != ' ') = .ok last ∧
      Rounds (PassRound .content (· != ' ')) n c last ∧
      (last.atEnd = true ∨ (last.peek != ' ') = false) ∧ n ≤ s.size - c.pos) ∧
    (∃ last, Keyword.scan {} .keywords ⟨s, 7, 9⟩ = .ok (none, last) ∧ 7 ≤ last.pos) ∧
    (∃ last, Keyword.scan {} .keywords ⟨s, 8, 11⟩ = .ok (some key, last) ∧
      key.span.start + 2 ≤ last.pos) ∧
    (∀ policy, ∃ found last, sweep ⟨policy, .unicode⟩ (.start s) = .ok found ∧
      Rounds (SweepRound ⟨policy, .unicode⟩) found.length (.start s) last ∧
      last.atEnd = true ∧ found.length ≤ s.text.toList.length) ∧
    ((sweep {} (.start s)).map List.length = .ok 8 ∧
      (sweep ⟨.stay, .unicode⟩ (.start s)).map List.length = .ok 4) ∧
    ∃ p selector, Selector.parse "é: b: " {} = .ok p ∧ p.outcome = .ok selector ∧
      selector.arity = 2 ∧ 2 * selector.arity ≤ "é: b: ".utf8ByteSize := by
  intro s c key
  have hfits : s.text.utf8ByteSize ≤ maxOffset := by decide
  obtain ⟨hanywhere, hsweeps, -⟩ := loops_end s.text
  obtain ⟨hpass, hrun, -⟩ := hanywhere hfits c rfl (by decide)
  obtain ⟨-, -, hequals⟩ := hanywhere hfits ⟨s, 7, 9⟩ rfl (by decide)
  obtain ⟨-, -, hkey⟩ := hanywhere hfits ⟨s, 8, 11⟩ rfl (by decide)
  refine ⟨⟨hfits, by decide, by decide +kernel⟩, ?_, hrun .content _, ?_, ?_, ?_,
    ⟨by decide +kernel, by decide +kernel⟩, ?_⟩
  · obtain ⟨next, hnext, hlt, -⟩ := hpass .content (by decide)
    exact ⟨next, hnext, hlt⟩
  · obtain ⟨t, last, hscan, hle, -⟩ := hequals {} .keywords
    have htoken : (Keyword.scan {} .keywords ⟨s, 7, 9⟩).map Prod.fst = .ok none := by
      decide +kernel
    rw [hscan] at htoken
    obtain rfl : t = none := Except.ok.inj htoken
    exact ⟨last, hscan, hle⟩
  · obtain ⟨t, last, hscan, -, -, htwo⟩ := hkey {} .keywords
    have htoken : (Keyword.scan {} .keywords ⟨s, 8, 11⟩).map Prod.fst = .ok (some key) := by
      decide +kernel
    rw [hscan] at htoken
    obtain rfl : t = some key := Except.ok.inj htoken
    exact ⟨last, hscan, (htwo key rfl).2.2⟩
  · intro policy
    obtain ⟨hmost, hend⟩ := hsweeps ⟨policy, .unicode⟩
    obtain ⟨found, last, hsweep, hrounds, hlast⟩ := hend hfits
    exact ⟨found, last, hsweep, hrounds, hlast, hmost _ _ hrounds⟩
  · obtain ⟨-, -, hreading⟩ := loops_end "é: b: "
    obtain ⟨-, -, hread, harity⟩ := hreading {}
    obtain ⟨-, p, hp⟩ := hread (by decide)
    have htwo : (Selector.parse "é: b: " {}).map
        (fun p => p.outcome.toOption.map Selector.arity) = .ok (some 2) := by decide +kernel
    rw [hp] at htwo
    obtain ⟨selector, hselector, htwo⟩ := Option.map_eq_some_iff.mp (Except.ok.inj htwo)
    have hselector : p.outcome = .ok selector := by
      cases houtcome : p.outcome with
      | error reason =>
        rw [houtcome] at hselector
        cases hselector
      | ok found =>
        rw [houtcome] at hselector
        rw [Option.some.inj hselector]
    exact ⟨p, selector, hp, hselector, htwo, harity p selector hp hselector⟩

end SelectorLexer
