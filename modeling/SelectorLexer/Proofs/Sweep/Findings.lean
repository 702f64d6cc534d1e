import SelectorLexer.Proofs.Sweep.Runs
import SelectorLexer.Sweep

/-!
# What a sweep finds

A sweep finds the keywords of the text in front of it, each of them once and in order,
and it does so whichever way failures are treated.  The two ways differ in where the
sweep goes on after a name that is no keyword: at its second character, or behind all of
it.  Both places are in the same run or just behind it, and in such a run there is
nothing more to find.

The invariant is that a sweep stands at a cut, and that the characters in front of it
have no keywords but those that `keywordsFrom` finds when no name has come before.

## Main results

* `sweep_of_found`, `sweep_of_miss` — one step of a sweep.
* `sweep_of_splits` — the keywords that a sweep finds.
* `sweep_finds_keywords` — where these keywords stand.
-/

namespace SelectorLexer

open String (utf8Len)

section Steps

variable {o : Options} {c : Cursor}

/-! ### The steps -/

theorem sweep_of_atEnd (h : c.atEnd = true) : sweep o c = .ok [] := by
  rw [sweep, dif_pos h]

theorem sweep_of_found {t : Token} {text : String} {next : Cursor} {found : List Finding}
    (hend : c.atEnd = false) (hscan : Keyword.scan o .keywords c = .ok (some t, next))
    (htext : next.lexeme = .ok text) (hrest : sweep o next = .ok found) :
    sweep o c = .ok (.keyword t text :: found) := by
  rw [sweep, dif_neg (by simp [hend])]
  split
  · next h => rw [hscan] at h; cases h
  · next h =>
    rw [hscan] at h
    cases h
    rw [htext, Checked.ok_bind, hrest]
    rfl
  · next h => rw [hscan] at h; cases h

theorem sweep_of_miss {last next : Cursor} {found : List Finding} (hend : c.atEnd = false)
    (hscan : Keyword.scan o .keywords c = .ok (none, last))
    (hpass : last.pass .trivia = .ok next) (hrest : sweep o next = .ok found) :
    sweep o c = .ok (.miss last.span :: found) := by
  rw [sweep, dif_neg (by simp [hend])]
  split
  · next h => rw [hscan] at h; cases h
  · next h => rw [hscan] at h; cases h
  · next h =>
    rw [hscan] at h
    cases h
    split
    · next h => rw [hpass] at h; cases h
    · next h =>
      rw [hpass] at h
      cases h
      rw [hrest]
      rfl

end Steps

/-! ### The sweep -/

/-- **A sweep from a cut finds the keywords in front of it.** -/
theorem sweep_of_splits {o : Options} {c : Cursor} {before cs : List Char}
    (h : c.Splits before cs) :
    ∃ found, sweep o c = .ok found ∧
      found.filterMap Finding.token? = keywordsFrom o.alphabet c.pos false cs := by
  induction hlength : cs.length using Nat.strong_induction_on generalizing c before cs with
  | _ n ih =>
    by_cases hcs : cs = []
    · refine ⟨[], sweep_of_atEnd (h.atEnd_iff.mpr hcs), ?_⟩
      rw [hcs]
      rfl
    have hend : c.atEnd = false := by rwa [← Bool.not_eq_true, h.atEnd_iff]
    obtain ⟨blanks, rest, rfl, hblanks, hrest⟩ : ∃ blanks rest, cs = blanks ++ rest ∧
        (∀ x ∈ blanks, isBlank x = true) ∧ ∀ x, rest.head? = some x → isBlank x = false := by
      refine ⟨cs.takeWhile isBlank, cs.dropWhile isBlank,
        List.takeWhile_append_dropWhile.symm, ?_, ?_⟩
      · intro x hx
        exact List.mem_takeWhile_imp hx
      · intro x hx
        exact eq_false_of_head?_dropWhile hx
    have hskip : keywordsFrom o.alphabet c.pos false (blanks ++ rest) =
        keywordsFrom o.alphabet (c.pos + utf8Len blanks) false rest := by
      apply keywordsFrom_lead
      intro x hx
      apply Alphabet.isStart_eq_false_of_isContinue
      exact Alphabet.isContinue_eq_false_of_isBlank _ (hblanks x hx)
    rw [hskip]
    cases hkey : (opening o.alphabet rest).isKeyword with
    | true =>
      obtain ⟨name, more, rfl, hname, hequals⟩ := exists_name_of_isKeyword hkey
      obtain ⟨hscan, hnext, htext⟩ :=
        Keyword.scan_of_keyword (o := o) KindSet.contains_keywords h hblanks hname hequals
      have hless : more.length < n := by
        rw [← hlength, List.length_append, List.length_append, List.length_cons]
        omega
      obtain ⟨found, hsweep, hfound⟩ := ih _ hless hnext rfl
      refine ⟨_, sweep_of_found hend hscan htext hsweep, ?_⟩
      rw [keywordsFrom_keyword hname hequals, ← hfound]
      rfl
    | false =>
      obtain ⟨tail, htail⟩ := Opening.consumed_isPrefix o.alphabet rest o.onFailure
      have hscan := Keyword.scan_of_miss KindSet.contains_keywords h hblanks hrest hkey
      rw [keywordsFrom_miss (opens_opening o.alphabet rest) hkey o.onFailure htail.symm]
      -- the scan has passed the blanks and what it does not go back on, and one more is dropped
      have hlast : (⟨c.source, (opening o.alphabet rest).stop o.onFailure (c.pos + utf8Len blanks),
          c.pos + utf8Len blanks⟩ : Cursor).Splits
          (before ++ blanks ++ (opening o.alphabet rest).consumed o.onFailure) tail := by
        refine ⟨h.fits, ?_, ?_⟩
        · rw [List.append_assoc, htail, List.append_assoc]
          exact h.chars
        · rw [Opening.stop, h.pos, String.utf8Len_append, String.utf8Len_append]
      have hpass := hlast.pass .trivia
      rw [← List.take_append_drop 1 tail] at hlast
      have hnext := hlast.past .trivia
      have hless : (tail.drop 1).length < n := by
        have hne := List.length_pos_iff.mpr hcs
        rw [← htail, List.length_append, List.length_append] at hlength hne
        rw [List.length_drop]
        omega
      obtain ⟨found, hsweep, hfound⟩ := ih _ hless hnext rfl
      refine ⟨_, sweep_of_miss hend hscan hpass hsweep, ?_⟩
      rw [Cursor.past_trivia] at hfound
      exact hfound

/-- **A sweep finds the keywords of a text, and nothing else.**  They are the maximal runs
that a colon of their own follows, each from the first character that starts a name to the
colon.  The sweep meets them in the order of the text, whichever way failures are
treated. -/
theorem sweep_finds_keywords {text : String} (hfits : text.utf8ByteSize ≤ maxOffset)
    (o : Options) :
    ∃ found, sweep o (.start ⟨text⟩) = .ok found ∧
      (∀ k, k ∈ found.filterMap Finding.token? ↔
        ∃ before run more, text.toList = before ++ run ++ ':' :: more ∧
          MaximalRun o.alphabet before run (':' :: more) ∧
          (∃ y ∈ run, o.alphabet.isStart y = true) ∧ more.head? ≠ some '=' ∧
          k = (⟨.keyword, utf8Len (before ++ run.takeWhile fun y => !o.alphabet.isStart y),
              utf8Len (before ++ run) + 1⟩,
            String.ofList ((run.dropWhile fun y => !o.alphabet.isStart y) ++ [':']))) ∧
      (found.filterMap Finding.token?).Pairwise (fun k k' =>
        k.1.span.start < k'.1.span.start ∧ k.1.span.stop ≤ k'.1.span.start) ∧
      ∀ policy, ∃ found', sweep { o with onFailure := policy } (.start ⟨text⟩) = .ok found' ∧
        found'.filterMap Finding.token? = found.filterMap Finding.token? := by
  have hstart := Cursor.splits_start hfits
  obtain ⟨found, hsweep, hfound⟩ := sweep_of_splits (o := o) hstart
  refine ⟨found, hsweep, ?_, ?_, ?_⟩
  · intro k
    rw [hfound]
    exact mem_keywordsFrom_iff
  · rw [hfound]
    exact pairwise_keywordsFrom false text.toList
  · intro policy
    obtain ⟨found', hsweep', hfound'⟩ :=
      sweep_of_splits (o := { o with onFailure := policy }) hstart
    exact ⟨found', hsweep', hfound'.trans hfound.symm⟩

/-- A digit comes first in the run, and the assignment in front of it is passed over. -/
theorem sweep_finds_keywords_after_digit :
    "x:=1é: 2:".utf8ByteSize ≤ maxOffset ∧
      ∃ found, sweep {} (.start ⟨"x:=1é: 2:"⟩) = .ok found ∧
        ((⟨.keyword, 4, 7⟩, "é:") : Token × String) ∈ found.filterMap Finding.token? ∧
        ∃ found', sweep ⟨.stay, .unicode⟩ (.start ⟨"x:=1é: 2:"⟩) = .ok found' ∧
          found'.filterMap Finding.token? = found.filterMap Finding.token? := by
  have hfits : "x:=1é: 2:".utf8ByteSize ≤ maxOffset := by decide
  obtain ⟨found, hsweep, hmem, -, hpolicy⟩ := sweep_finds_keywords hfits {}
  have hrun : MaximalRun .unicode ['x', ':', '='] ['1', 'é'] [':', ' ', '2', ':'] := by
    refine ⟨List.all_eq_true.mp (by decide +kernel), ?_, ?_⟩
    · rintro y ⟨⟩
      exact Alphabet.isContinue_equals _
    · rintro y ⟨⟩
      exact Alphabet.isContinue_colon _
  refine ⟨hfits, found, hsweep, (hmem _).mpr ?_, hpolicy .stay⟩
  exact ⟨_, _, [' ', '2', ':'], by decide +kernel, hrun, ⟨'é', by decide, by decide +kernel⟩,
    by decide, by decide +kernel⟩

end SelectorLexer
