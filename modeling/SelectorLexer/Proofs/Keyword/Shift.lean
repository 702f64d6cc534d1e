import SelectorLexer.Keyword.Progress
import SelectorLexer.Proofs.Cursor.Shift

/-!
# The same scan further on

A scan looks at its source through the cursor alone, and the mark that it goes back to is
one that it has taken itself.  So a scan on a source that holds the same text further on
finds the same, as many bytes further on.

## Main results

* `Keyword.probe_shift`, `Keyword.giveUp_shift` — the two halves of a scan.
* `Keyword.scan_shift` — the scan.
-/

namespace SelectorLexer

namespace Keyword

variable {t : Source} {n : Nat} {c last : Cursor}

theorem probe_shift {a : Alphabet} {found : Bool} (h : c.source.IsTail t n)
    (hprobe : probe a c = .ok (found, last)) :
    probe a (c.shift t n) = .ok (found, last.shift t n) := by
  simp only [probe, Checked.bind_eq_ok_iff] at hprobe
  obtain ⟨first, hfirst, name, hname, hrest⟩ := hprobe
  have hf : first.source.IsTail t n := by rwa [Cursor.source_of_pass hfirst]
  have hn : name.source.IsTail t n := by rwa [Cursor.source_of_passWhile hname]
  rw [probe, Cursor.pass_shift h hfirst, Checked.ok_bind, Cursor.passWhile_shift hf hname,
    Checked.ok_bind, Cursor.peek_shift hn]
  split at hrest
  · next hcolon =>
    obtain ⟨colon, hpass, hrest⟩ := Checked.bind_eq_ok_iff.mp hrest
    have hc : colon.source.IsTail t n := by rwa [Cursor.source_of_pass hpass]
    cases hrest
    rw [if_pos hcolon, Cursor.pass_shift hn hpass, Checked.ok_bind, Cursor.peek_shift hc]
    rfl
  · next hcolon =>
    cases hrest
    rw [if_neg hcolon]
    rfl

theorem giveUp_shift {policy : FailurePolicy} {before : Mark} (h : c.source.IsTail t n)
    (hgive : giveUp policy before c = .ok last) :
    giveUp policy (before.shift n) (c.shift t n) = .ok (last.shift t n) := by
  cases policy with
  | goBack => exact Cursor.rewind_shift h hgive
  | stay =>
    cases hgive
    rfl

/-- **A scan further on finds the same further on**, and leaves the cursor there. -/
theorem scan_shift {o : Options} {wanted : KindSet} {found : Option Token}
    (h : c.source.IsTail t n) (hscan : scan o wanted c = .ok (found, last)) :
    scan o wanted (c.shift t n) = .ok (found.map (Token.shift n), last.shift t n) := by
  unfold scan at hscan ⊢
  split at hscan
  · next hwanted =>
    rw [if_pos hwanted]
    obtain ⟨name, hname, hscan⟩ := Checked.bind_eq_ok_iff.mp hscan
    have hn : name.source.IsTail t n := by
      rwa [Cursor.source_of_passWhile hname, Cursor.source_openToken]
    have hdrop : (c.shift t n).openToken.passWhile .trivia isBlank = .ok (name.shift t n) :=
      Cursor.passWhile_shift (c := c.openToken) h hname
    rw [hdrop, Checked.ok_bind, Cursor.peek_shift hn]
    split at hscan
    · next hstart =>
      obtain ⟨⟨found', probed⟩, hprobe, hscan⟩ := Checked.bind_eq_ok_iff.mp hscan
      have hp : probed.source.IsTail t n := by rwa [(le_of_probe hprobe).1]
      rw [if_pos hstart, probe_shift hn hprobe, Checked.ok_bind]
      cases found' with
      | true =>
        cases hscan
        rfl
      | false =>
        simp only [Bool.false_eq_true, if_false, Checked.bind_eq_ok_iff] at hscan ⊢
        obtain ⟨left, hleft, hscan⟩ := hscan
        cases hscan
        exact ⟨_, giveUp_shift hp hleft, rfl⟩
    · next hstart =>
      cases hscan
      rw [if_neg hstart]
      rfl
  · next hwanted =>
    cases hscan
    rw [if_neg hwanted]
    rfl

end Keyword

end SelectorLexer
