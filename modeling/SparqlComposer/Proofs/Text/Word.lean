import SparqlComposer.Text.Blank
import SparqlComposer.Text.Word

/-!
# Word characters

No word character is a blank: the two tables of characters have no character in common. A word ends
where another character stands.
-/

namespace SparqlComposer

theorem isWord_of_isAlphanum {c : Char} (h : c.isAlphanum) : isWord c := by
  have hranges : decide (65 ≤ c.val ∧ c.val ≤ 90) ||
      (decide (97 ≤ c.val) && decide (c.val ≤ 122)) ||
      (decide (48 ≤ c.val) && decide (c.val ≤ 57)) := h
  simp only [Bool.or_eq_true, Bool.and_eq_true, decide_eq_true_eq] at hranges
  have hle : c.toNat ≤ 122 := by
    rcases hranges with (⟨-, hle⟩ | ⟨-, hle⟩) | ⟨-, hle⟩
    · exact Nat.le_trans hle (by decide)
    · exact hle
    · exact Nat.le_trans hle (by decide)
  have hlt : c.toNat < 128 := by omega
  rw [isWord, if_pos hlt, h, Bool.true_or]

theorem isWord_of_toLower {c : Char} (h : isWord c.toLower) : isWord c := by
  delta Char.toLower at h
  split at h
  · rename_i hc
    have hupper : c.isUpper := decide_eq_true hc
    have halphanum : (c.isUpper || c.isLower) || c.isDigit := by
      rw [hupper, Bool.true_or, Bool.true_or]
    exact isWord_of_isAlphanum halphanum
  · exact h

theorem isWord_of_lt {c : Char} (h : c.toNat < 128) (hblank : isBlank c) : isWord c = false := by
  have hall : ∀ n < 128, isBlank (Char.ofNat n) → isWord (Char.ofNat n) = false := by decide +kernel
  have hc := hall c.toNat h
  rw [Char.ofNat_toNat] at hc
  exact hc hblank

theorem isWord_of_isBlank {c : Char} (h : isBlank c) : isWord c = false := by
  by_cases hlt : c.toNat < 128
  · exact isWord_of_lt hlt h
  · have hapart : ∀ r ∈ blankRanges, ∀ r' ∈ wordRanges, r.2 < r'.1 ∨ r'.2 < r.1 := by
      decide +kernel
    rw [isWord, if_neg hlt, Bool.eq_false_iff]
    intro hword
    obtain ⟨r, hr, hle, hge⟩ := inRanges_eq_true_iff.mp h
    obtain ⟨r', hr', hle', hge'⟩ := inRanges_eq_true_iff.mp hword
    rcases hapart r hr r' hr' with h | h
    · omega
    · omega

theorem not_isBlank_of_isWord {c : Char} (h : isWord c) : ¬ isBlank c := by
  intro hblank
  rw [isWord_of_isBlank hblank] at h
  exact Bool.false_ne_true h

theorem not_isGap_of_isWord {c : Char} (h : isWord c) : ¬ isGap c :=
  fun hgap ↦ not_isBlank_of_isWord h (isBlank_of_isGap hgap)

theorem takeWhile_append_cons {c : Char} (hc : ¬ isWord c) (w t : Text) :
    (w ++ c :: t).takeWhile isWord = w.takeWhile isWord := by
  induction w with
  | nil => exact List.takeWhile_cons_of_neg hc
  | cons d w ih =>
      rw [List.cons_append, List.takeWhile_cons, List.takeWhile_cons, ih]

theorem takeWhile_append_word {w rest : Text} (hw : ∀ c ∈ w, isWord c)
    (hrest : ∀ c ∈ rest.head?, ¬ isWord c) : (w ++ rest).takeWhile isWord = w := by
  rw [List.takeWhile_append_of_pos hw]
  cases rest with
  | nil => exact List.append_nil w
  | cons c rest => rw [List.takeWhile_cons_of_neg (hrest c rfl), List.append_nil]

end SparqlComposer
