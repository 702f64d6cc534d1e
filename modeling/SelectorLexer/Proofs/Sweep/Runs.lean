import SelectorLexer.Proofs.Keyword.Recognition

/-!
# The keywords of a text, run by run

Which keywords stand in a text can be said without a scan.  The text falls into longest
runs of characters that continue a name.  A run is a keyword when a colon comes right
after it that is not part of an assignment sign, and the keyword starts at the first
character of the run that starts a name.

`keywordsFrom` finds them in one pass over the characters.  It has to remember one bit
on the way: whether the run that it is in has already come to a name.  If the run does
not end in the right colon, that bit makes no difference, since nothing will be found
before the next run.  A scan that gives up within such a run may therefore start afresh
at any place of it.

## Main definitions

* `keywordsFrom` — the keywords of a text, with their texts.
* `RunFails` — no keyword can end with the run that a text starts with.
* `MaximalRun` — a longest run of characters that continue a name.

## Main results

* `keywordsFrom_keyword`, `keywordsFrom_miss` — what is found behind a keyword, and
  behind a name that is none.
* `mem_keywordsFrom_iff` — the keywords are found in the maximal runs, and in all of them.
* `pairwise_keywordsFrom` — they are found in the order of the text.
-/

namespace SelectorLexer

open String (utf8Len)

/-- The keyword `name` behind the characters `front` of a text that starts at the offset
`start`: the token, and what it covers. -/
def keywordAt (start : Nat) (front name : List Char) : Token × String :=
  (⟨.keyword, start + utf8Len front, start + utf8Len front + utf8Len name + 1⟩,
    String.ofList (name ++ [':']))

/-- The keyword that a text opens with, if there is one. -/
def Opening.found (start : Nat) : Opening → List (Token × String)
  | keyword name => [keywordAt start [] name]
  | _ => []

/-- The keywords of a text from the offset `start` on.  The bit says whether the characters
just before the text are part of a name. -/
def keywordsFrom (a : Alphabet) : Nat → Bool → List Char → List (Token × String)
  | _, _, [] => []
  | start, named, x :: rest =>
    if a.isStart x && !named then
      (opening a (x :: rest)).found start ++ keywordsFrom a (start + x.utf8Size) true rest
    else
      keywordsFrom a (start + x.utf8Size) (named && a.isContinue x) rest

section Keywords

variable {a : Alphabet} {start : Nat} {x : Char} {rest : List Char}

/-! ### One character -/

theorem keywordsFrom_of_isStart (hx : a.isStart x = true) :
    keywordsFrom a start false (x :: rest) =
      (opening a (x :: rest)).found start ++ keywordsFrom a (start + x.utf8Size) true rest := by
  rw [keywordsFrom, hx]
  rfl

theorem keywordsFrom_of_not_isStart (hx : a.isStart x = false) :
    keywordsFrom a start false (x :: rest) = keywordsFrom a (start + x.utf8Size) false rest := by
  rw [keywordsFrom, hx]
  rfl

theorem keywordsFrom_of_isContinue (hx : a.isContinue x = true) :
    keywordsFrom a start true (x :: rest) = keywordsFrom a (start + x.utf8Size) true rest := by
  rw [keywordsFrom, hx, Bool.not_true, Bool.and_false]
  rfl

/-- Behind a character that belongs to no name, everything starts afresh. -/
theorem keywordsFrom_of_not_isContinue (hx : a.isContinue x = false) (named : Bool) :
    keywordsFrom a start named (x :: rest) = keywordsFrom a (start + x.utf8Size) false rest := by
  rw [keywordsFrom, Alphabet.isStart_eq_false_of_isContinue hx, hx, Bool.and_false]
  rfl

/-! ### Several characters -/

/-- Nothing more is found in the rest of a name. -/
theorem keywordsFrom_name {name : List Char} (hname : ∀ y ∈ name, a.isContinue y = true) :
    keywordsFrom a start true (name ++ rest) =
      keywordsFrom a (start + utf8Len name) true rest := by
  induction name generalizing start with
  | nil => rfl
  | cons y name ih =>
    rw [List.forall_mem_cons] at hname
    rw [List.cons_append, keywordsFrom_of_isContinue hname.1, ih hname.2, String.utf8Len_cons,
      Nat.add_assoc, Nat.add_comm y.utf8Size]

/-- Nothing is found in front of the first name. -/
theorem keywordsFrom_lead {lead : List Char} (hlead : ∀ y ∈ lead, a.isStart y = false) :
    keywordsFrom a start false (lead ++ rest) =
      keywordsFrom a (start + utf8Len lead) false rest := by
  induction lead generalizing start with
  | nil => rfl
  | cons y lead ih =>
    rw [List.forall_mem_cons] at hlead
    rw [List.cons_append, keywordsFrom_of_not_isStart hlead.1, ih hlead.2, String.utf8Len_cons,
      Nat.add_assoc, Nat.add_comm y.utf8Size]

/-- **A keyword is found, and what comes after its colon.** -/
theorem keywordsFrom_keyword {name more : List Char} (hname : a.isName name = true)
    (hequals : more.head? ≠ some '=') :
    keywordsFrom a start false (name ++ ':' :: more) =
      keywordAt start [] name :: keywordsFrom a (start + utf8Len name + 1) false more := by
  have hop := (Opens.keyword hname hequals).eq_opening
  have hcolon : (':' : Char).utf8Size = 1 := by decide
  obtain ⟨y, tail, rfl, hy⟩ := Alphabet.exists_cons_of_isName hname
  rw [Alphabet.isName_cons_iff] at hname
  have hlen : start + y.utf8Size + utf8Len tail = start + utf8Len (y :: tail) := by
    rw [String.utf8Len_cons]
    omega
  rw [List.cons_append] at hop ⊢
  rw [keywordsFrom_of_isStart hy, hop, keywordsFrom_name hname.2,
    keywordsFrom_of_not_isContinue a.isContinue_colon, hlen, hcolon]
  rfl

/-! ### Runs in which nothing is found -/

/-- No keyword can end with the run that the text starts with: what comes after the run is
no colon, or a colon that belongs to an assignment sign. -/
def RunFails (a : Alphabet) (cs : List Char) : Prop :=
  (cs.dropWhile a.isContinue).head? = some ':' →
    (cs.dropWhile a.isContinue).tail.head? = some '='

theorem RunFails.tail (h : RunFails a (x :: rest)) (hx : a.isContinue x = true) :
    RunFails a rest := by
  rwa [RunFails, List.dropWhile_cons_of_pos hx] at h

theorem RunFails.isKeyword_eq_false {cs : List Char} (h : RunFails a cs) :
    (opening a cs).isKeyword = false := by
  cases hop : opening a cs with
  | keyword name =>
    obtain ⟨⟨-, hcolon, hequals⟩, -⟩ := opening_eq_keyword_iff_takeWhile.mp hop
    exact absurd (h hcolon) hequals
  | _ => rfl

theorem runFails_of_isKeyword {cs : List Char} (hx : cs.head? = some x)
    (hstart : a.isStart x = true) (h : (opening a cs).isKeyword = false) : RunFails a cs := by
  intro hcolon
  by_contra hequals
  have hop := opening_eq_keyword_iff_takeWhile.mpr ⟨⟨⟨x, hx, hstart⟩, hcolon, hequals⟩, rfl⟩
  rw [hop] at h
  cases h

theorem runFails_of_isName {name tail : List Char} (hname : a.isName name = true)
    (h : (opening a (name ++ tail)).isKeyword = false) : RunFails a (name ++ tail) := by
  obtain ⟨y, more, rfl, hy⟩ := Alphabet.exists_cons_of_isName hname
  exact runFails_of_isKeyword rfl hy h

theorem Opening.found_of_isKeyword {o : Opening} (h : o.isKeyword = false) :
    o.found start = [] := by
  cases o with
  | keyword name => cases h
  | _ => rfl

/-- **Where the run fails, it makes no difference whether a name came before.** -/
theorem keywordsFrom_congr_of_runFails {cs : List Char} (h : RunFails a cs)
    (named named' : Bool) : keywordsFrom a start named cs = keywordsFrom a start named' cs := by
  induction cs generalizing start named named' with
  | nil => rfl
  | cons x rest ih =>
    cases hcont : a.isContinue x with
    | false =>
      rw [keywordsFrom_of_not_isContinue hcont, keywordsFrom_of_not_isContinue hcont]
    | true =>
      -- whatever is found here or not, the next character is in the same run
      have hfound : (opening a (x :: rest)).found start = [] :=
        Opening.found_of_isKeyword h.isKeyword_eq_false
      rw [keywordsFrom, keywordsFrom, hfound, List.nil_append]
      split <;> split <;> exact ih (h.tail hcont) _ _

theorem keywordsFrom_name_of_runFails {name tail : List Char} (hname : a.isName name = true)
    (h : RunFails a (name ++ tail)) (named : Bool) :
    keywordsFrom a start named (name ++ tail) =
      keywordsFrom a (start + utf8Len name) true tail := by
  rw [keywordsFrom_congr_of_runFails h named true,
    keywordsFrom_name (Alphabet.isContinue_of_mem_name hname)]

theorem utf8Len_take_one (y : Char) (more : List Char) :
    utf8Len ((y :: more).take 1) = y.utf8Size :=
  Nat.zero_add _

/-- A place where no keyword starts can be passed. -/
theorem keywordsFrom_drop_one {tail : List Char}
    (h : ∀ y, tail.head? = some y → a.isStart y = true → RunFails a tail) :
    keywordsFrom a start false tail =
      keywordsFrom a (start + utf8Len (tail.take 1)) false (tail.drop 1) := by
  cases tail with
  | nil => rfl
  | cons y more =>
    rw [utf8Len_take_one]
    cases hy : a.isStart y with
    | false => exact keywordsFrom_of_not_isStart hy
    | true =>
      have hfails := h y rfl hy
      have hcont := Alphabet.isContinue_of_isStart hy
      rw [keywordsFrom_of_isStart hy, Opening.found_of_isKeyword hfails.isKeyword_eq_false,
        List.nil_append]
      exact keywordsFrom_congr_of_runFails (hfails.tail hcont) true false

/-- **Behind a name that is no keyword, the search goes on where a scan gives up**, one
character later. -/
theorem keywordsFrom_miss {o : Opening} {cs tail : List Char} (h : Opens a cs o)
    (ho : o.isKeyword = false) (policy : FailurePolicy) (hcs : cs = o.consumed policy ++ tail) :
    keywordsFrom a start false cs =
      keywordsFrom a (start + utf8Len (o.consumed policy) + utf8Len (tail.take 1)) false
        (tail.drop 1) := by
  have hkey : (opening a cs).isKeyword = false := by rwa [h.eq_opening]
  have hfails : ∀ y, cs.head? = some y → a.isStart y = true → RunFails a cs := by
    intro y hy hstart
    exact runFails_of_isKeyword hy hstart hkey
  cases policy with
  | goBack =>
    rw [Opening.consumed_goBack ho, List.nil_append] at hcs
    rw [Opening.consumed_goBack ho, ← hcs]
    exact keywordsFrom_drop_one hfails
  | stay =>
    rw [Opening.consumed_stay] at hcs ⊢
    cases h with
    | other hother =>
      obtain rfl : cs = tail := hcs
      exact keywordsFrom_drop_one hfails
    | keyword => cases ho
    | @plainName name rest hname hstop hcolon =>
      obtain rfl : rest = tail := List.append_cancel_left hcs
      rw [keywordsFrom_name_of_runFails hname (runFails_of_isName hname hkey), Opening.read]
      -- the run is over, and so is the name
      cases rest with
      | nil => rfl
      | cons y more =>
        rw [keywordsFrom_of_not_isContinue (hstop y rfl), utf8Len_take_one]
        rfl
    | @assignment name rest hname =>
      have hread : (Opening.assignment name).read ++ tail = name ++ ':' :: tail := by
        rw [Opening.read, List.append_assoc, List.singleton_append]
      obtain rfl : '=' :: rest = tail :=
        List.tail_eq_of_cons_eq (List.append_cancel_left (hcs.trans hread))
      rw [keywordsFrom_name_of_runFails hname (runFails_of_isName hname hkey),
        keywordsFrom_of_not_isContinue a.isContinue_colon,
        keywordsFrom_of_not_isContinue a.isContinue_equals, Opening.read, String.utf8Len_append,
        ← Nat.add_assoc]
      rfl

/-! ### Where the keywords stand -/

/-- A keyword of the text `cs`, with what stands around it: the text up to its run, the
characters of the run in front of the name, the name, and the text behind the colon. -/
structure KeywordIn (a : Alphabet) (named : Bool) (cs before lead name more : List Char) :
    Prop where
  eq_append : cs = before ++ (lead ++ (name ++ ':' :: more))
  /-- The run starts afresh. -/
  fresh : before.getLast?.elim named a.isContinue = false
  lead : ∀ y ∈ lead, a.isContinue y = true ∧ a.isStart y = false
  isName : a.isName name = true
  head?_ne : more.head? ≠ some '='

theorem keywordAt_cons (front name : List Char) :
    keywordAt (start + x.utf8Size) front name = keywordAt start (x :: front) name := by
  have hlen : start + x.utf8Size + utf8Len front = start + utf8Len (x :: front) := by
    rw [String.utf8Len_cons]
    omega
  rw [keywordAt, keywordAt, hlen]

theorem elim_getLast?_cons (named : Bool) (p : Char → Bool) (y : Char) (before : List Char) :
    (y :: before).getLast?.elim named p = before.getLast?.elim (p y) p := by
  rw [List.getLast?_cons]
  cases before.getLast? <;> rfl

/-- One more character in front takes the place of the bit. -/
theorem keywordIn_cons_iff {named : Bool} {before lead name more : List Char} :
    KeywordIn a named (x :: rest) (x :: before) lead name more ↔
      KeywordIn a (a.isContinue x) rest before lead name more := by
  constructor
  · rintro ⟨hcs, hfresh, hlead, hname, hequals⟩
    rw [elim_getLast?_cons] at hfresh
    exact ⟨List.tail_eq_of_cons_eq hcs, hfresh, hlead, hname, hequals⟩
  · rintro ⟨rfl, hfresh, hlead, hname, hequals⟩
    rw [← elim_getLast?_cons named] at hfresh
    exact ⟨rfl, hfresh, hlead, hname, hequals⟩

theorem KeywordIn.mono {named named' : Bool} {cs before lead name more : List Char}
    (h : KeywordIn a named cs before lead name more) (hle : named' = true → named = true) :
    KeywordIn a named' cs before lead name more := by
  obtain ⟨hcs, hfresh, hlead, hname, hequals⟩ := h
  refine ⟨hcs, ?_, hlead, hname, hequals⟩
  cases hlast : before.getLast? with
  | some y =>
    rw [hlast] at hfresh
    exact hfresh
  | none =>
    rw [hlast] at hfresh
    rw [Option.elim_none, ← Bool.not_eq_true]
    intro hnamed
    rw [Option.elim_none, hle hnamed] at hfresh
    cases hfresh

/-- A keyword that is found stands in the text. -/
theorem exists_keywordIn_of_mem {named : Bool} {cs : List Char} {k : Token × String}
    (hk : k ∈ keywordsFrom a start named cs) :
    ∃ before lead name more, KeywordIn a named cs before lead name more ∧
      k = keywordAt start (before ++ lead) name := by
  induction cs generalizing start named with
  | nil => cases hk
  | cons x rest ih =>
    rw [keywordsFrom] at hk
    split at hk
    · next hx =>
      rw [Bool.and_eq_true, Bool.not_eq_true'] at hx
      rcases List.mem_append.mp hk with hfound | hrest
      · -- the text opens with it
        cases hop : opening a (x :: rest) with
        | keyword name =>
          rw [hop] at hfound
          obtain ⟨more, hcs, hname, hequals⟩ := opening_eq_keyword_iff.mp hop
          exact ⟨[], [], name, more, ⟨hcs, hx.2, by simp, hname, hequals⟩,
            List.mem_singleton.mp hfound⟩
        | _ => rw [hop] at hfound; cases hfound
      · obtain ⟨before, lead, name, more, hin, rfl⟩ := ih hrest
        exact ⟨x :: before, lead, name, more, keywordIn_cons_iff.mpr (hin.mono fun _ => rfl),
          keywordAt_cons _ _⟩
    · next hx =>
      obtain ⟨before, lead, name, more, hin, rfl⟩ := ih hk
      by_cases hle : a.isContinue x = true → named = true
      · refine ⟨x :: before, lead, name, more, keywordIn_cons_iff.mpr (hin.mono ?_),
          keywordAt_cons _ _⟩
        intro hcont
        rw [hle hcont, hcont, Bool.and_true]
      · -- the character belongs to a run in which no name has come yet
        rw [Classical.not_imp, Bool.not_eq_true] at hle
        obtain ⟨hcont, rfl⟩ := hle
        have hstart : a.isStart x = false := by simpa using hx
        cases before with
        | nil =>
          obtain ⟨rfl, -, hlead, hname, hequals⟩ := hin
          exact ⟨[], x :: lead, name, more,
            ⟨rfl, rfl, List.forall_mem_cons.mpr ⟨⟨hcont, hstart⟩, hlead⟩, hname, hequals⟩,
            keywordAt_cons _ _⟩
        | cons y before =>
          obtain ⟨rfl, hfresh, hlead, hname, hequals⟩ := hin
          rw [elim_getLast?_cons] at hfresh
          refine ⟨x :: y :: before, lead, name, more, ⟨rfl, ?_, hlead, hname, hequals⟩,
            keywordAt_cons _ _⟩
          rw [elim_getLast?_cons, elim_getLast?_cons, hfresh]

/-- A keyword that stands in the text is found. -/
theorem mem_of_keywordIn {named : Bool} {cs before lead name more : List Char}
    (h : KeywordIn a named cs before lead name more) :
    keywordAt start (before ++ lead) name ∈ keywordsFrom a start named cs := by
  induction before generalizing start named cs with
  | nil =>
    obtain ⟨rfl, hfresh, hlead, hname, hequals⟩ := h
    obtain rfl : named = false := hfresh
    rw [List.nil_append, List.nil_append, keywordsFrom_lead (fun y hy => (hlead y hy).2),
      keywordsFrom_keyword hname hequals]
    exact List.mem_cons_self
  | cons x before ih =>
    obtain ⟨rest, rfl⟩ : ∃ rest, cs = x :: rest := ⟨_, h.eq_append⟩
    have hin := keywordIn_cons_iff.mp h
    rw [List.cons_append, ← keywordAt_cons, keywordsFrom]
    split
    · next hx =>
      rw [Bool.and_eq_true] at hx
      apply List.mem_append_right
      apply ih (hin.mono _)
      intro _
      exact Alphabet.isContinue_of_isStart hx.1
    · apply ih (hin.mono _)
      intro hnamed
      exact ((Bool.and_eq_true _ _).mp hnamed).2

/-! ### The order -/

theorem start_le_of_mem {named : Bool} {cs : List Char} {k : Token × String}
    (hk : k ∈ keywordsFrom a start named cs) :
    start ≤ k.1.span.start ∧ k.1.span.start < k.1.span.stop := by
  obtain ⟨before, lead, name, more, -, rfl⟩ := exists_keywordIn_of_mem hk
  simp only [keywordAt]
  omega

/-- **The keywords are found in the order of the text**, and no two of them overlap. -/
theorem pairwise_keywordsFrom (named : Bool) (cs : List Char) :
    (keywordsFrom a start named cs).Pairwise fun k k' =>
      k.1.span.start < k'.1.span.start ∧ k.1.span.stop ≤ k'.1.span.start := by
  induction cs generalizing start named with
  | nil => exact List.Pairwise.nil
  | cons x rest ih =>
    rw [keywordsFrom]
    split
    · next hx =>
      rw [Bool.and_eq_true, Bool.not_eq_true'] at hx
      refine List.pairwise_append.mpr ⟨?_, ih true, ?_⟩
      · cases opening a (x :: rest) <;> simp [Opening.found]
      · intro k hk k' hk'
        cases hop : opening a (x :: rest) with
        | keyword name =>
          rw [hop] at hk
          obtain rfl := List.mem_singleton.mp hk
          -- behind the character stands the rest of the keyword, and then what comes later
          obtain ⟨more, hcs, hname, hequals⟩ := opening_eq_keyword_iff.mp hop
          have hlater : keywordsFrom a (start + x.utf8Size) true rest =
              keywordsFrom a (start + utf8Len name + 1) false more := by
            have hall := @keywordsFrom_keyword a start name more hname hequals
            rw [← hcs, keywordsFrom_of_isStart hx.1, hop] at hall
            exact List.tail_eq_of_cons_eq hall
          rw [hlater] at hk'
          have hle := (start_le_of_mem hk').1
          simp only [keywordAt, String.utf8Len_nil]
          omega
        | _ => rw [hop] at hk; cases hk
    · exact ih _

/-! ### Maximal runs -/

/-- A longest stretch of characters that continue a name: none comes right before it, and
none right after it. -/
structure MaximalRun (a : Alphabet) (before run after : List Char) : Prop where
  isContinue : ∀ y ∈ run, a.isContinue y = true
  left : ∀ y, before.getLast? = some y → a.isContinue y = false
  right : ∀ y, after.head? = some y → a.isContinue y = false

/-- A run with the start of a name in it is some other characters, and a name. -/
theorem isName_dropWhile {run : List Char} (hrun : ∀ y ∈ run, a.isContinue y = true)
    (hstart : ∃ y ∈ run, a.isStart y = true) :
    a.isName (run.dropWhile fun y => !a.isStart y) = true := by
  cases hname : run.dropWhile fun y => !a.isStart y with
  | nil =>
    obtain ⟨y, hy, hstart⟩ := hstart
    have hnot := List.dropWhile_eq_nil_iff.mp hname y hy
    rw [hstart] at hnot
    cases hnot
  | cons y name =>
    have hhead : (run.dropWhile fun y => !a.isStart y).head? = some y := by
      rw [hname]
      rfl
    refine Alphabet.isName_cons_iff.mpr ⟨?_, ?_⟩
    · simpa using eq_false_of_head?_dropWhile hhead
    · intro z hz
      apply hrun z
      apply (List.dropWhile_suffix _).subset
      rw [hname]
      exact List.mem_cons_of_mem y hz

/-- **The keywords are found in the maximal runs, and in all of them** that a colon of
their own follows. -/
theorem mem_keywordsFrom_iff {cs : List Char} {k : Token × String} :
    k ∈ keywordsFrom a 0 false cs ↔
      ∃ before run more, cs = before ++ run ++ ':' :: more ∧
        MaximalRun a before run (':' :: more) ∧ (∃ y ∈ run, a.isStart y = true) ∧
        more.head? ≠ some '=' ∧
        k = (⟨.keyword, utf8Len (before ++ run.takeWhile fun y => !a.isStart y),
            utf8Len (before ++ run) + 1⟩,
          String.ofList ((run.dropWhile fun y => !a.isStart y) ++ [':'])) := by
  constructor
  · intro hk
    obtain ⟨before, lead, name, more, ⟨rfl, hfresh, hlead, hname, hequals⟩, rfl⟩ :=
      exists_keywordIn_of_mem hk
    have hlead' : ∀ y ∈ lead, (!a.isStart y) = true := by
      intro y hy
      rw [(hlead y hy).2]
      rfl
    have hstop : ∀ y, name.head? = some y → (!a.isStart y) = false := by
      obtain ⟨z, tail, rfl, hz⟩ := Alphabet.exists_cons_of_isName hname
      intro y hy
      cases hy
      rw [hz]
      rfl
    refine ⟨before, lead ++ name, more, by simp only [List.append_assoc], ⟨?_, ?_, ?_⟩, ?_,
      hequals, ?_⟩
    · intro y hy
      rcases List.mem_append.mp hy with hy | hy
      · exact (hlead y hy).1
      · exact Alphabet.isContinue_of_mem_name hname y hy
    · intro y hy
      rwa [hy] at hfresh
    · exact stop_of_head?_colon
    · obtain ⟨z, tail, rfl, hz⟩ := Alphabet.exists_cons_of_isName hname
      exact ⟨z, by simp, hz⟩
    · rw [takeWhile_append_of_stop hlead' hstop, dropWhile_append_of_stop hlead' hstop, keywordAt,
        Nat.zero_add, ← List.append_assoc, String.utf8Len_append (before ++ lead)]
  · rintro ⟨before, run, more, rfl, hrun, hstart, hequals, rfl⟩
    have hsplit : (run.takeWhile fun y => !a.isStart y) ++ (run.dropWhile fun y => !a.isStart y) =
        run := List.takeWhile_append_dropWhile
    have hin : KeywordIn a false (before ++ run ++ ':' :: more) before
        (run.takeWhile fun y => !a.isStart y) (run.dropWhile fun y => !a.isStart y) more := by
      refine ⟨?_, ?_, ?_, isName_dropWhile hrun.isContinue hstart, hequals⟩
      · rw [← List.append_assoc _ _ (':' :: more), hsplit, List.append_assoc]
      · cases hlast : before.getLast? with
        | none => rfl
        | some y => exact hrun.left y hlast
      · intro y hy
        refine ⟨hrun.isContinue y ((List.takeWhile_prefix _).subset hy), ?_⟩
        simpa using List.mem_takeWhile_imp hy
    have hk := @mem_of_keywordIn a 0 _ _ _ _ _ _ hin
    rwa [keywordAt, Nat.zero_add, ← String.utf8Len_append,
      List.append_assoc before (run.takeWhile _), hsplit] at hk

end Keywords

end SelectorLexer
