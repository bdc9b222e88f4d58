import Mathlib.Data.Bool.AllAny
import SparqlComposer.Expression.Function
import SparqlComposer.Proofs.Result
import SparqlComposer.Proofs.Text.Word

/-!
# Keywords in any case

A letter of a keyword stands for its two cases, and for a few letters beyond ASCII: the Kelvin sign is
a `k` in capitals, but the long s and the two odd forms of `i` are no case of the letter that they
are read as. So more is read as a keyword than what is one in some case, but nothing more where
there are no such letters.
-/

namespace SparqlComposer

/-! ## Letters in any case -/

/-- A character is a letter in either case; the Kelvin sign is a `k`. -/
def IsCaseOf (letter c : Char) : Prop :=
  c.toLower = letter.toLower ∨ c = '\u212a' ∧ letter.toLower = 'k'

/-- A keyword in any case. -/
abbrev Writes : Text → Text → Prop := List.Forall₂ IsCaseOf

/-- The characters in front of the letters are in one case only. -/
theorem toLower_eq_iff {c mark : Char} (hmark : mark.toNat < 65) : c.toLower = mark ↔ c = mark := by
  delta Char.toLower
  split
  · rename_i hc
    have hge : 65 ≤ c.val.toNat := UInt32.le_iff_toNat_le.mp hc.1
    have hle : c.val.toNat ≤ 90 := UInt32.le_iff_toNat_le.mp hc.2
    have hstep : ('a'.val - 'A'.val).toNat = 32 := by decide
    constructor
    · intro h
      have hval : (c.val + ('a'.val - 'A'.val)).toNat = mark.toNat :=
        congrArg (fun d : Char ↦ d.val.toNat) h
      rw [UInt32.toNat_add, hstep] at hval
      omega
    · rintro rfl
      exact absurd hmark (Nat.not_lt.mpr hge)
  · exact Iff.rfl

theorem eq_or_of_toLower {c d : Char} (h : c.toLower = d) : c = d ∨ c.toNat + 32 = d.toNat := by
  delta Char.toLower at h
  split at h
  · rename_i hc
    subst h
    right
    have hge : 65 ≤ c.val.toNat := UInt32.le_iff_toNat_le.mp hc.1
    have hle : c.val.toNat ≤ 90 := UInt32.le_iff_toNat_le.mp hc.2
    have hstep : ('a'.val - 'A'.val).toNat = 32 := by decide
    change c.val.toNat + 32 = (c.val + ('a'.val - 'A'.val)).toNat
    rw [UInt32.toNat_add, hstep]
    omega
  · exact .inl h

theorem IsCaseOf.eq_iff {letter c mark : Char} (h : IsCaseOf letter c) (hmark : mark.toNat < 65) :
    c = mark ↔ letter = mark := by
  rcases h with h | ⟨rfl, hk⟩
  · rw [← toLower_eq_iff hmark, h, toLower_eq_iff hmark]
  · constructor
    · rintro rfl
      exact absurd hmark (by decide)
    · rintro rfl
      rw [(toLower_eq_iff hmark).mpr rfl] at hk
      subst hk
      exact absurd hmark (by decide)

theorem IsCaseOf.isGap_eq {letter c : Char} (h : IsCaseOf letter c) : isGap letter = isGap c := by
  have heq (mark : Char) (hmark : mark.toNat < 65) : (letter == mark) = (c == mark) := by
    rw [Bool.eq_iff_iff, beq_iff_eq, beq_iff_eq, h.eq_iff hmark]
  rw [isGap, heq ' ' (by decide), heq '\t' (by decide), heq '\n' (by decide),
    heq '\r' (by decide)]
  rfl

theorem IsCaseOf.toLower_eq {letter c : Char} (h : IsCaseOf letter c) (hc : c.toLower = 'a') :
    letter.toLower = 'a' := by
  rcases h with h | ⟨rfl, -⟩
  · exact h.symm.trans hc
  · exact absurd hc (by decide)

theorem isFormOf_iff {letter c : Char} (hc : ¬ isMisleadingLetter c) :
    isFormOf letter c ↔ IsCaseOf letter c := by
  simp only [isMisleadingLetter, Bool.or_eq_true, beq_iff_eq, not_or] at hc
  obtain ⟨⟨hs, hi⟩, hi'⟩ := hc
  simp [isFormOf, IsCaseOf, hs, hi, hi']

theorem IsCaseOf.isFormOf {letter c : Char} (h : IsCaseOf letter c) : isFormOf letter c := by
  rcases h with h | ⟨rfl, hk⟩
  · simp [SparqlComposer.isFormOf, h]
  · simp [SparqlComposer.isFormOf, hk]

theorem isWord_of_isFormOf {letter c : Char} (hletter : isWord letter.toLower)
    (h : isFormOf letter c) : isWord c := by
  simp only [isFormOf, Bool.or_eq_true, Bool.and_eq_true, beq_iff_eq] at h
  rcases h with ((h | ⟨rfl, -⟩) | ⟨rfl, -⟩) | ⟨rfl | rfl, -⟩
  · exact isWord_of_toLower (h ▸ hletter)
  all_goals decide +kernel

theorem isFormOf_space_iff {c : Char} : isFormOf ' ' c ↔ c = ' ' := by
  have hlower : c.toLower = ' ' ↔ c = ' ' := toLower_eq_iff (by decide)
  rw [← hlower]
  simp [isFormOf]

theorem isFormOf_a_iff {c : Char} : isFormOf 'a' c ↔ c ∈ ['A', 'a'] := by
  constructor
  · intro h
    have hlower : c.toLower = 'a' := by simpa [isFormOf] using h
    rcases eq_or_of_toLower hlower with rfl | hc
    · simp
    · obtain rfl : c = 'A' := Char.toNat_inj.mp (Nat.add_right_cancel hc)
      simp
  · have hforms : ∀ c ∈ ['A', 'a'], isFormOf 'a' c := List.all_iff_forall_prop.mp (by decide)
    exact hforms c

theorem isFormOf_s_iff {c : Char} : isFormOf 's' c ↔ c ∈ ['S', 's', '\u017f'] := by
  constructor
  · intro h
    have hforms : c.toLower = 's' ∨ c = '\u017f' := by simpa [isFormOf] using h
    rcases hforms with hlower | rfl
    · rcases eq_or_of_toLower hlower with rfl | hc
      · simp
      · obtain rfl : c = 'S' := Char.toNat_inj.mp (Nat.add_right_cancel hc)
        simp
    · simp
  · have hforms : ∀ c ∈ ['S', 's', '\u017f'], isFormOf 's' c :=
      List.all_iff_forall_prop.mp (by decide)
    exact hforms c

/-! ## Keywords as they are read -/

/-- A keyword as it is read, which is more than any case: the misleading letters count as well. -/
abbrev Folds : Text → Text → Prop := List.Forall₂ fun letter c ↦ isFormOf letter c

theorem Writes.folds {word w : Text} (h : Writes word w) : Folds word w :=
  h.imp fun _ _ ↦ IsCaseOf.isFormOf

/-- Without misleading letters, what is read as a keyword is written as one. -/
theorem Folds.writes {word w : Text} (h : Folds word w) (hw : ∀ c ∈ w, ¬ isMisleadingLetter c) :
    Writes word w := by
  induction h with
  | nil => exact .nil
  | cons hc _ ih =>
      rw [List.forall_mem_cons] at hw
      exact .cons ((isFormOf_iff hw.1).mp hc) (ih hw.2)

theorem keyword?_eq_some_iff_folds {word t taken rest : Text} :
    keyword? word t = some (taken, rest) ↔ t = taken ++ rest ∧ Folds word taken := by
  induction word generalizing t taken with
  | nil =>
      rw [keyword?, Option.some.injEq, Prod.mk.injEq, Folds, List.forall₂_nil_left_iff]
      constructor
      · rintro ⟨rfl, rfl⟩
        exact ⟨rfl, rfl⟩
      · rintro ⟨rfl, rfl⟩
        exact ⟨rfl, rfl⟩
  | cons letter letters ih =>
      cases t with
      | nil =>
          rw [keyword?]
          constructor
          · intro h
            cases h
          · rintro ⟨happend, hfolds⟩
            obtain ⟨rfl, -⟩ := List.nil_eq_append_iff.mp happend
            cases hfolds
      | cons c cs =>
          rw [keyword?]
          constructor
          · intro h
            split at h
            · rename_i hc
              obtain ⟨⟨taken', rest'⟩, hread, heq⟩ := Option.map_eq_some_iff.mp h
              obtain ⟨rfl, rfl⟩ := Prod.mk.inj heq
              obtain ⟨rfl, hfolds⟩ := ih.mp hread
              exact ⟨rfl, .cons hc hfolds⟩
            · cases h
          · rintro ⟨happend, hfolds⟩
            cases hfolds with
            | cons hc hfolds =>
                obtain ⟨rfl, hcs⟩ := List.cons.inj happend
                rw [if_pos hc, ih.mpr ⟨hcs, hfolds⟩]
                rfl

end SparqlComposer
