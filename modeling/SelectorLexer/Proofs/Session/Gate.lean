import Mathlib.Data.List.Forall2
import SelectorLexer.Session

/-!
# What a table of kinds decides

A host says with a table of truth values what it can use, and the scanner knows one kind of
token.  So one entry of the table decides: whether there is to be a scan for keywords, or none
at all.  The entries behind it belong to the host.  In a set of kinds it is one bit that
decides, and the others are kept but mean nothing.

A table without that entry is refused.  A refusal comes before anything is read, and it leaves
the session as it was, with its scanner and all of its cursors.

Hosts that fill the other entries in different ways see the same, step by step and so in a
whole run.

## Main definitions

* `Session.Step.Alike` — steps that ask a scanner for the same, in tables or sets that may
  differ in what means nothing.

## Main results

* `Scanner.scanTable_of_entry` — the entry that is there decides.
* `Session.run_congr_of_alike` — runs of steps that are alike.
* `Session.scanTable_reads_first_entry` — what comes of a table, in every case.
-/

namespace SelectorLexer

namespace KindSet

variable {table : List Bool}

/-- A table is refused if it is too short, and not otherwise. -/
theorem ofTable_eq_error_iff {reason : ShortTable} :
    ofTable table = .error reason ↔
      table.length < TokenKind.count ∧ reason = ⟨TokenKind.count, table.length⟩ := by
  unfold ofTable
  split
  · next hshort => simp [hshort, eq_comm]
  · next hlong => simp [hlong]

/-- A table that has the entry stands for a set, in which keywords are what the entry says. -/
theorem exists_ofTable_of_entry {b : Bool} (h : table[0]? = some b) :
    ∃ wanted, ofTable table = .ok wanted ∧ wanted.contains .keyword = b := by
  cases htable : ofTable table with
  | error reason =>
    have hshort : table.length ≤ 0 := Nat.le_of_lt_succ (ofTable_eq_error_iff.mp htable).1
    rw [List.getElem?_eq_none hshort] at h
    cases h
  | ok wanted =>
    have hentry := contains_ofTable htable .keyword
    rw [TokenKind.index, h] at hentry
    exact ⟨wanted, rfl, (Option.some.inj hentry).symm⟩

/-- A table that is long enough has the entry. -/
theorem exists_entry (h : TokenKind.count ≤ table.length) : ∃ b, table[0]? = some b :=
  ⟨_, List.getElem?_eq_getElem h⟩

end KindSet

/-- Sets that agree on the lowest bit agree on keywords. -/
theorem KindSet.contains_congr_of_testBit {wanted wanted' : KindSet}
    (h : wanted.bits.toNat.testBit 0 = wanted'.bits.toNat.testBit 0) :
    wanted.contains .keyword = wanted'.contains .keyword := by
  rw [contains_iff_testBit, contains_iff_testBit]
  exact h

/-- A scan depends on a set of kinds only by whether keywords are in it. -/
theorem Keyword.scan_congr_wanted {wanted wanted' : KindSet}
    (h : wanted.contains .keyword = wanted'.contains .keyword) (o : Options) (c : Cursor) :
    scan o wanted c = scan o wanted' c := by
  rw [scan, scan, h]

namespace Scanner

variable {s : Scanner} {c : Cursor} {table : List Bool}

theorem scanTable_eq_error_iff {reason : ShortTable} :
    s.scanTable table c = .error reason ↔
      table.length < TokenKind.count ∧ reason = ⟨TokenKind.count, table.length⟩ := by
  rw [← KindSet.ofTable_eq_error_iff, scanTable]
  cases KindSet.ofTable table with
  | error reason' => simp [Except.map]
  | ok wanted => simp [Except.map]

/-- **The entry that is there decides** whether there is a scan for keywords or none. -/
theorem scanTable_of_entry {b : Bool} (h : table[0]? = some b) (s : Scanner) (c : Cursor) :
    s.scanTable table c = .ok (if b = true then s.scan .keywords c else .ok (none, c)) := by
  obtain ⟨wanted, htable, hwanted⟩ := KindSet.exists_ofTable_of_entry h
  rw [scanTable, htable]
  refine congrArg Except.ok ?_
  cases b with
  | true => exact Keyword.scan_congr_wanted (hwanted.trans KindSet.contains_keywords.symm) _ c
  | false => exact Keyword.scan_of_not_contains hwanted _ c

end Scanner

namespace Session

variable {s : Session} {table : List Bool}

/-! ### One step -/

/-- A scan that is not for keywords finds none, and nothing changes. -/
theorem step_scan_of_not_contains {wanted : KindSet} (h : wanted.contains .keyword = false) :
    s.step (.scan wanted) = (s, .scanned none) := by
  rw [step, Scanner.scan, Keyword.scan_of_not_contains h, scanned, setCursor_cursor]

/-- A table that is too short is refused, and nothing changes. -/
theorem step_scanTable_of_short (h : table.length < TokenKind.count) :
    s.step (.scanTable table) = (s, .refused ⟨TokenKind.count, table.length⟩) := by
  rw [step, Scanner.scanTable_eq_error_iff.mpr ⟨h, rfl⟩]

theorem step_scanTable_of_ok {outcome : Checked (Option Token × Cursor)}
    (h : s.scanner.scanTable table s.cursor = .ok outcome) :
    s.step (.scanTable table) = s.scanned outcome := by
  rw [step, h]

theorem step_scanTable_of_true (h : table[0]? = some true) :
    s.step (.scanTable table) = s.step (.scan .keywords) :=
  step_scanTable_of_ok (Scanner.scanTable_of_entry h _ _)

theorem step_scanTable_of_false (h : table[0]? = some false) :
    s.step (.scanTable table) = (s, .scanned none) := by
  rw [step_scanTable_of_ok (Scanner.scanTable_of_entry h _ _), if_neg Bool.false_ne_true, scanned,
    setCursor_cursor]

/-! ### Runs -/

/-- Steps are alike if they are the same, or if they are scans and differ only in what means
nothing: in the entries of a table behind the first, or in the bits of a set besides the
lowest. -/
inductive Step.Alike : Step → Step → Prop where
  | same (step : Step) : Alike step step
  | scan {wanted wanted' : KindSet}
    (h : wanted.bits.toNat.testBit 0 = wanted'.bits.toNat.testBit 0) :
    Alike (.scan wanted) (.scan wanted')
  | scanTable {table table' : List Bool} {b : Bool} (h : table[0]? = some b)
    (h' : table'[0]? = some b) : Alike (.scanTable table) (.scanTable table')

/-- **Steps that are alike come to the same**, from every session. -/
theorem Step.Alike.step_eq {step step' : Step} (h : step.Alike step') (s : Session) :
    s.step step = s.step step' := by
  cases h with
  | same => rfl
  | scan hbit =>
    rw [Session.step, Session.step, Scanner.scan, Scanner.scan,
      Keyword.scan_congr_wanted (KindSet.contains_congr_of_testBit hbit)]
  | scanTable h h' =>
    rw [Session.step, Session.step, Scanner.scanTable_of_entry h, Scanner.scanTable_of_entry h']

/-- **Runs of steps that are alike get the same answers and come to the same end.** -/
theorem run_congr_of_alike (s : Session) {steps steps' : List Step}
    (h : List.Forall₂ Step.Alike steps steps') : s.run steps = s.run steps' := by
  induction h generalizing s with
  | nil => rfl
  | cons hstep _ ih => rw [run_cons, run_cons, hstep.step_eq, ih]

/-- **Of a table, the first entry is all that counts.**  The table is refused exactly if it
does not have that entry, with the numbers of entries that are needed and that there are, and
nothing changes then.  Otherwise it stands for a scan for keywords if the entry is true, and
for none if it is false, which leaves the cursor and its token as they were.  So tables that
agree on the entry, and sets that agree on the lowest bit, come to the same. -/
theorem scanTable_reads_first_entry (s : Session) (table : List Bool) :
    (∀ reason, s.scanner.scanTable table s.cursor = .error reason ↔
        table.length < TokenKind.count ∧ reason = ⟨1, table.length⟩) ∧
      (table.length < TokenKind.count →
        s.step (.scanTable table) = (s, .refused ⟨1, table.length⟩)) ∧
      (TokenKind.count ≤ table.length →
        (table[0]? = some true ∧
            s.scanner.scanTable table s.cursor = .ok (s.scanner.scan .keywords s.cursor) ∧
            s.step (.scanTable table) = s.step (.scan .keywords)) ∨
          (table[0]? = some false ∧
            s.scanner.scanTable table s.cursor = .ok (.ok (none, s.cursor)) ∧
            s.step (.scanTable table) = (s, .scanned none))) ∧
      (∀ table' : List Bool, TokenKind.count ≤ table.length → TokenKind.count ≤ table'.length →
        table[0]? = table'[0]? →
          s.scanner.scanTable table s.cursor = s.scanner.scanTable table' s.cursor ∧
            s.step (.scanTable table) = s.step (.scanTable table')) ∧
      ∀ wanted wanted' : KindSet,
        wanted.bits.toNat.testBit 0 = wanted'.bits.toNat.testBit 0 →
          s.scanner.scan wanted s.cursor = s.scanner.scan wanted' s.cursor ∧
            s.step (.scan wanted) = s.step (.scan wanted') := by
  refine ⟨fun reason => Scanner.scanTable_eq_error_iff, step_scanTable_of_short, ?entry, ?tables,
    ?sets⟩
  case entry =>
    intro hlong
    obtain ⟨b, hentry⟩ := KindSet.exists_entry hlong
    have hscan := Scanner.scanTable_of_entry hentry s.scanner s.cursor
    cases b with
    | true => exact .inl ⟨hentry, hscan, step_scanTable_of_true hentry⟩
    | false => exact .inr ⟨hentry, hscan, step_scanTable_of_false hentry⟩
  case tables =>
    intro table' hlong hlong' hagree
    obtain ⟨b, hentry⟩ := KindSet.exists_entry hlong
    have hentry' : table'[0]? = some b := hagree ▸ hentry
    refine ⟨?_, (Step.Alike.scanTable hentry hentry').step_eq s⟩
    rw [Scanner.scanTable_of_entry hentry, Scanner.scanTable_of_entry hentry']
  case sets =>
    intro wanted wanted' hbit
    exact ⟨Keyword.scan_congr_wanted (KindSet.contains_congr_of_testBit hbit) _ _,
      (Step.Alike.scan hbit).step_eq s⟩

/-- A cursor in front of a keyword, with a token that started earlier: no entry, an entry that is
false in front of one that is true, and entries and bits that mean nothing. -/
theorem scanTable_reads_first_entry_host_entries :
    let s := (start ⟨"é at:"⟩ [] {}).setCursor ⟨⟨"é at:"⟩, 2, 0⟩
    s.step (.scanTable []) = (s, .refused ⟨1, 0⟩) ∧
      s.step (.scanTable [false, true]) = (s, .scanned none) ∧
      s.step (.scanTable [true, false, true]) = s.step (.scanTable [true]) ∧
      s.step (.scanTable [true]) = s.step (.scan .keywords) ∧
      s.step (.scan ⟨0xFF⟩) = s.step (.scan .keywords) ∧
      (s.step (.scan .keywords)).2 = .scanned (some ⟨.keyword, 3, 6⟩) := by
  intro s
  obtain ⟨-, hshort, -⟩ := scanTable_reads_first_entry s []
  obtain ⟨-, -, hfalse, -⟩ := scanTable_reads_first_entry s [false, true]
  obtain ⟨-, -, htrue, hagree, hsets⟩ := scanTable_reads_first_entry s [true]
  refine ⟨hshort (by decide), ?_, ?_, ?_, (hsets .keywords ⟨0xFF⟩ (by decide)).2.symm,
    by decide +kernel⟩
  · rcases hfalse (by decide) with ⟨hentry, -⟩ | ⟨-, -, hstep⟩
    · cases hentry
    · exact hstep
  · exact (hagree [true, false, true] (by decide) (by decide) rfl).2.symm
  · rcases htrue (by decide) with ⟨-, -, hstep⟩ | ⟨hentry, -⟩
    · exact hstep
    · cases hentry

end Session

end SelectorLexer
