import SelectorLexer.Keyword.Progress
import SelectorLexer.Proofs.Cursor.Bounds

/-!
# A scan from anywhere

A scan is built from steps of the cursor and from going back to a mark that it took
itself.  So it keeps what these keep.  It is never a fault as long as the cursor is in
bounds, wherever that is: the steps are none, and the mark lies in front of where the
probe has come to, so it lies in the source.

## Main results

* `Keyword.stable_scan` — a scan keeps every stable property of the cursor.
* `Keyword.exists_scan` — a scan from a cursor in bounds has an answer.
-/

namespace SelectorLexer

namespace Keyword

section Kept

variable {P : Cursor → Prop} {c last : Cursor}

theorem stable_probe (hP : Cursor.Stable P) {a : Alphabet} {found : Bool} (hc : P c)
    (h : probe a c = .ok (found, last)) : P last := by
  simp only [probe, Checked.bind_eq_ok_iff] at h
  obtain ⟨first, hfirst, name, hname, h⟩ := h
  have hkept : P name := hP.passWhile (hP.pass hc hfirst) hname
  split at h
  · obtain ⟨colon, hcolon, h⟩ := Checked.bind_eq_ok_iff.mp h
    cases h
    exact hP.pass hkept hcolon
  · cases h
    exact hkept

theorem stable_giveUp (hP : Cursor.Stable P) {policy : FailurePolicy} {before : Cursor}
    (hbefore : P before) (hc : P c) (h : giveUp policy before.mark c = .ok last) : P last := by
  cases policy with
  | goBack => exact hP.rewind hc hbefore h
  | stay =>
    cases h
    exact hc

/-- **A scan keeps every stable property of the cursor.** -/
theorem stable_scan (hP : Cursor.Stable P) {o : Options} {wanted : KindSet} {t : Option Token}
    (hc : P c) (h : scan o wanted c = .ok (t, last)) : P last := by
  unfold scan at h
  split at h
  · obtain ⟨name, hname, h⟩ := Checked.bind_eq_ok_iff.mp h
    have hkept : P name := hP.passWhile (hP.openToken hc) hname
    split at h
    · obtain ⟨⟨found, probed⟩, hprobe, h⟩ := Checked.bind_eq_ok_iff.mp h
      have hprobed : P probed := stable_probe hP hkept hprobe
      cases found with
      | true =>
        cases h
        exact hprobed
      | false =>
        simp only [Bool.false_eq_true, if_false, Checked.bind_eq_ok_iff] at h
        obtain ⟨left, hleft, h⟩ := h
        cases h
        exact stable_giveUp hP hkept hprobed hleft
    · cases h
      exact hkept
  · cases h
    exact hc

end Kept

/-! ### There is an answer -/

section Answers

variable {c : Cursor}

theorem exists_probe (hfits : c.source.text.utf8ByteSize ≤ maxOffset) (a : Alphabet) :
    ∃ found last, probe a c = .ok (found, last) := by
  obtain ⟨first, hfirst⟩ := Cursor.exists_pass hfits .content
  rw [← Cursor.source_of_pass hfirst] at hfits
  obtain ⟨name, hname⟩ := Cursor.exists_passWhile hfits .content a.isContinue
  rw [← Cursor.source_of_passWhile hname] at hfits
  obtain ⟨colon, hcolon⟩ := Cursor.exists_pass hfits .content
  simp only [probe, hfirst, hname, hcolon, Checked.ok_bind]
  split
  · exact ⟨_, _, rfl⟩
  · exact ⟨_, _, rfl⟩

/-- A mark that lies in the source can be gone back to. -/
theorem exists_giveUp {m : Mark} (h : m.pos ≤ c.source.size) (policy : FailurePolicy) :
    ∃ last, giveUp policy m c = .ok last := by
  cases policy with
  | goBack => exact ⟨_, Cursor.rewind_eq_ok_iff.mpr ⟨h, rfl⟩⟩
  | stay => exact ⟨c, rfl⟩

/-- **A scan from a cursor in bounds has an answer.** -/
theorem exists_scan (h : c.InBounds) (o : Options) (wanted : KindSet) :
    ∃ t last, scan o wanted c = .ok (t, last) := by
  cases hwanted : wanted.contains .keyword with
  | false => exact ⟨_, _, scan_of_not_contains hwanted o c⟩
  | true =>
    have hopen : c.openToken.InBounds := Cursor.stable_inBounds.openToken h
    obtain ⟨name, hname⟩ := Cursor.exists_passWhile hopen.fits .trivia isBlank
    have hin : name.InBounds := Cursor.stable_inBounds.passWhile hopen hname
    obtain ⟨found, probed, hprobe⟩ := exists_probe hin.fits o.alphabet
    -- the probe has not left the source, so the mark before it is in bounds
    have hmark : name.mark.pos ≤ probed.source.size := by
      rw [(le_of_probe hprobe).1]
      exact hin.pos_le
    obtain ⟨left, hleft⟩ := exists_giveUp hmark o.onFailure
    simp only [scan, hwanted, if_true, hname, hprobe, hleft, Checked.ok_bind]
    split
    · cases found with
      | true => exact ⟨_, _, rfl⟩
      | false => exact ⟨_, _, rfl⟩
    · exact ⟨_, _, rfl⟩

end Answers

end Keyword

end SelectorLexer
