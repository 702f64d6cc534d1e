import SelectorLexer.Proofs.Alphabet.Disjoint
import SelectorLexer.Proofs.LongestRun

/-!
# How a text opens

Behind the blanks a scan meets one of four things: no name at all, a name that no colon
follows, a name with the assignment sign `:=` after it, or a keyword.  `opening` reads
off which, by the longest run of characters that continue a name.

The same is said without a run by `Opens`, a grammar with one rule for each case.  The
two agree, so that a text opens in one way only: what follows a name in any of the
rules cannot continue it.

## Main definitions

* `Alphabet.isName` — the names of an alphabet.
* `Opening`, `opening` — how a text opens, by its longest run.
* `Opens` — how a text opens, as a grammar.

## Main results

* `opens_opening`, `Opens.eq_opening` — the two are the same.
* `opening_eq_keyword_iff` — the texts that open with a keyword.
-/

namespace SelectorLexer

/-! ### Names -/

/-- A name starts with one of the characters that start a name, and goes on with
characters that continue one. -/
def Alphabet.isName (a : Alphabet) : List Char → Bool
  | [] => false
  | x :: rest => a.isStart x && rest.all a.isContinue

namespace Alphabet

variable {a : Alphabet}

@[simp] theorem isName_cons_iff {x : Char} {rest : List Char} :
    a.isName (x :: rest) = true ↔
      a.isStart x = true ∧ ∀ y ∈ rest, a.isContinue y = true := by
  simp [isName]

/-- Every character of a name continues one. -/
theorem isContinue_of_mem_name {name : List Char} (h : a.isName name = true) :
    ∀ x ∈ name, a.isContinue x = true := by
  cases name with
  | nil => simp
  | cons x rest =>
    rw [isName_cons_iff] at h
    intro y hy
    rcases List.mem_cons.mp hy with rfl | hy
    · exact isContinue_of_isStart h.1
    · exact h.2 y hy

theorem exists_cons_of_isName {name : List Char} (h : a.isName name = true) :
    ∃ x rest, name = x :: rest ∧ a.isStart x = true := by
  cases name with
  | nil => cases h
  | cons x rest => exact ⟨x, rest, rfl, (isName_cons_iff.mp h).1⟩

/-- The longest run from a character that starts a name is a name. -/
theorem isName_takeWhile {cs : List Char} {x : Char} (hx : cs.head? = some x)
    (hstart : a.isStart x = true) : a.isName (cs.takeWhile a.isContinue) = true := by
  cases cs with
  | nil => cases hx
  | cons y rest =>
    cases hx
    rw [List.takeWhile_cons_of_pos (isContinue_of_isStart hstart), isName_cons_iff]
    refine ⟨hstart, ?_⟩
    intro y hy
    exact List.mem_takeWhile_imp hy

end Alphabet

/-! ### Openings -/

/-- What a scan meets behind the blanks. -/
inductive Opening where
  /-- No name. -/
  | other : Opening
  /-- A name that no colon follows. -/
  | plainName (name : List Char) : Opening
  /-- A name with an assignment sign after it. -/
  | assignment (name : List Char) : Opening
  /-- A keyword, given without its colon. -/
  | keyword (name : List Char) : Opening
  deriving DecidableEq, Repr

namespace Opening

/-- Is it a keyword? -/
def isKeyword : Opening → Bool
  | keyword _ => true
  | _ => false

/-- The characters that a scan reads to find out: a name, and the colon after it. -/
def read : Opening → List Char
  | other => []
  | plainName name => name
  | assignment name => name ++ [':']
  | keyword name => name ++ [':']

end Opening

/-- How a text opens. -/
def opening (a : Alphabet) (cs : List Char) : Opening :=
  if cs.head?.any a.isStart then
    match cs.dropWhile a.isContinue with
    | ':' :: rest =>
      if rest.head? = some '=' then .assignment (cs.takeWhile a.isContinue)
      else .keyword (cs.takeWhile a.isContinue)
    | _ => .plainName (cs.takeWhile a.isContinue)
  else
    .other

/-- The ways in which a text can open. -/
inductive Opens (a : Alphabet) : List Char → Opening → Prop where
  /-- What stands first starts no name. -/
  | other {cs : List Char} (hcs : ∀ x, cs.head? = some x → a.isStart x = false) :
      Opens a cs .other
  /-- A name comes first, and neither more of it nor a colon comes next. -/
  | plainName {name rest : List Char} (hname : a.isName name = true)
      (hstop : ∀ x, rest.head? = some x → a.isContinue x = false)
      (hcolon : rest.head? ≠ some ':') : Opens a (name ++ rest) (.plainName name)
  /-- A name comes first, then the sign `:=`. -/
  | assignment {name rest : List Char} (hname : a.isName name = true) :
      Opens a (name ++ ':' :: '=' :: rest) (.assignment name)
  /-- A name comes first, then a colon that is not part of the sign `:=`. -/
  | keyword {name rest : List Char} (hname : a.isName name = true)
      (hequals : rest.head? ≠ some '=') : Opens a (name ++ ':' :: rest) (.keyword name)

section Agreement

variable {a : Alphabet} {cs : List Char}

/-- Every text opens as `opening` says. -/
theorem opens_opening (a : Alphabet) (cs : List Char) : Opens a cs (opening a cs) := by
  have hsplit : cs.takeWhile a.isContinue ++ cs.dropWhile a.isContinue = cs :=
    List.takeWhile_append_dropWhile
  unfold opening
  split
  · next hstart =>
    obtain ⟨x, hx, hstart⟩ := (Option.any_eq_true _ _).mp hstart
    have hname := Alphabet.isName_takeWhile hx hstart
    -- the name is the longest run, and the next two characters decide
    split
    · next rest hrest =>
      rw [hrest] at hsplit
      split
      · next hequals =>
        obtain ⟨more, rfl⟩ := List.head?_eq_some_iff.mp hequals
        rw [← congrArg (Opens a · _) hsplit]
        exact .assignment hname
      · next hequals =>
        rw [← congrArg (Opens a · _) hsplit]
        exact .keyword hname hequals
    · next hcolon =>
      rw [← congrArg (Opens a · _) hsplit]
      refine .plainName hname ?_ ?_
      · intro x hx
        exact eq_false_of_head?_dropWhile hx
      · intro hhead
        obtain ⟨rest, hrest⟩ := List.head?_eq_some_iff.mp hhead
        exact hcolon rest hrest
  · next hstart =>
    refine .other ?_
    intro x hx
    rw [hx] at hstart
    simpa using hstart

/-- A colon ends a name. -/
theorem stop_of_head?_colon {rest : List Char} :
    ∀ x, (':' :: rest).head? = some x → a.isContinue x = false := by
  intro x hx
  cases hx
  exact a.isContinue_colon

/-- No text opens in any other way. -/
theorem Opens.eq_opening {o : Opening} (h : Opens a cs o) : opening a cs = o := by
  have hany : ∀ {name rest : List Char}, a.isName name = true →
      (name ++ rest).head?.any a.isStart = true := by
    intro name rest hname
    obtain ⟨x, more, rfl, hx⟩ := Alphabet.exists_cons_of_isName hname
    simpa using hx
  cases h with
  | other hcs =>
    unfold opening
    rw [if_neg]
    intro hstart
    obtain ⟨x, hx, hstart⟩ := (Option.any_eq_true _ _).mp hstart
    rw [hcs x hx] at hstart
    cases hstart
  | @plainName name rest hname hstop hcolon =>
    have hall := Alphabet.isContinue_of_mem_name hname
    rw [opening, if_pos (hany hname), takeWhile_append_of_stop hall hstop,
      dropWhile_append_of_stop hall hstop]
    split
    · exact absurd rfl hcolon
    · rfl
  | @assignment name rest hname =>
    have hall := Alphabet.isContinue_of_mem_name hname
    rw [opening, if_pos (hany hname), takeWhile_append_of_stop hall stop_of_head?_colon,
      dropWhile_append_of_stop hall stop_of_head?_colon]
    rfl
  | @keyword name rest hname hequals =>
    have hall := Alphabet.isContinue_of_mem_name hname
    rw [opening, if_pos (hany hname), takeWhile_append_of_stop hall stop_of_head?_colon,
      dropWhile_append_of_stop hall stop_of_head?_colon]
    exact if_neg hequals

/-- A text opens with a keyword exactly when it starts with a name and a colon that no
equals sign follows. -/
theorem opening_eq_keyword_iff {name : List Char} :
    opening a cs = .keyword name ↔
      ∃ rest, cs = name ++ ':' :: rest ∧ a.isName name = true ∧ rest.head? ≠ some '=' := by
  constructor
  · intro h
    have hopens := opens_opening a cs
    rw [h] at hopens
    cases hopens with
    | @keyword _ rest hname hequals => exact ⟨rest, rfl, hname, hequals⟩
  · rintro ⟨rest, rfl, hname, hequals⟩
    exact (Opens.keyword hname hequals).eq_opening

theorem exists_name_of_isKeyword (h : (opening a cs).isKeyword = true) :
    ∃ name rest, cs = name ++ ':' :: rest ∧ a.isName name = true ∧ rest.head? ≠ some '=' := by
  cases hop : opening a cs with
  | keyword name => exact ⟨name, opening_eq_keyword_iff.mp hop⟩
  | _ => rw [hop] at h; cases h

/-- The keyword that a text opens with is its longest run. -/
theorem opening_eq_keyword_iff_takeWhile {name : List Char} :
    opening a cs = .keyword name ↔
      ((∃ x, cs.head? = some x ∧ a.isStart x = true) ∧
        (cs.dropWhile a.isContinue).head? = some ':' ∧
        (cs.dropWhile a.isContinue).tail.head? ≠ some '=') ∧
      name = cs.takeWhile a.isContinue := by
  rw [← Option.any_eq_true]
  unfold opening
  split
  · next hstart =>
    split
    · next rest hrest =>
      split
      · next hequals => simp [hrest, hequals]
      · next hequals => simp [hstart, hrest, hequals, eq_comm]
    · next hcolon =>
      have hhead : (cs.dropWhile a.isContinue).head? ≠ some ':' := by
        intro hhead
        obtain ⟨rest, hrest⟩ := List.head?_eq_some_iff.mp hhead
        exact hcolon rest hrest
      simp [hhead]
  · next hstart => simp [hstart]

/-- What is read to find out how a text opens stands at its front. -/
theorem read_opening_isPrefix (a : Alphabet) (cs : List Char) :
    (opening a cs).read <+: cs := by
  have hopens := opens_opening a cs
  revert hopens
  generalize opening a cs = o
  rintro (hcs | ⟨hname, hstop, hcolon⟩ | hname | ⟨hname, hequals⟩)
  · apply List.nil_prefix
  · apply List.prefix_append
  · exact ⟨_, List.append_assoc _ _ _⟩
  · exact ⟨_, List.append_assoc _ _ _⟩

end Agreement

end SelectorLexer
