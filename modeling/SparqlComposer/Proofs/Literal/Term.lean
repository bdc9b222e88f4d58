import SparqlComposer.Proofs.Literal.Part
import SparqlComposer.Proofs.Reading.Word

/-!
# Terms in written texts

A term that is no call is written with one string at most: the string part of a literal. What
follows the string in a literal, and every other term, has no quotation marks, and brackets only
around IRIs.
-/

namespace SparqlComposer

/-! ## Paths -/

theorem written_run {inClass : Char → Bool} (r : Run inClass) (hquote : inClass '"' = false)
    (hbracket : inClass '<' = false) : Written r.text [] := by
  refine .plain (fun hmem ↦ ?_) fun hmem ↦ ?_
  · exact Bool.false_ne_true (hquote.symm.trans (r.inClass_of_mem _ hmem))
  · exact Bool.false_ne_true (hbracket.symm.trans (r.inClass_of_mem _ hmem))

theorem written_optionalMark {c : Char} (hc : c ≠ '"' ∧ c ≠ '<') (present : Bool) :
    Written (optionalMark c present) [] := by
  cases present with
  | false => exact .nil
  | true => exact Written.nil.cons hc

mutual

theorem written_path : (p : PropertyPath) → Written p.text []
  | .element e => by
      rw [PropertyPath.text]
      exact written_pathElement e
  | .joined e joint p => by
      have hjoint : joint.mark ≠ '"' ∧ joint.mark ≠ '<' := by cases joint <;> decide
      rw [PropertyPath.text]
      exact (written_pathElement e).append ((written_path p).cons hjoint)

theorem written_pathElement : (e : PathElement) → Written e.text []
  | .mk negated inverted primary repetition => by
      have hrepetition : Written (repetition.map PathRepetition.mark).toList [] := by
        cases repetition with
        | none => exact .nil
        | some r =>
            have hr : r.mark ≠ '"' ∧ r.mark ≠ '<' := by cases r <;> decide
            exact Written.nil.cons hr
      rw [PathElement.text]
      exact (written_optionalMark (by decide) negated).append
        ((written_optionalMark (by decide) inverted).append
          ((written_pathPrimary primary).append hrepetition))

theorem written_pathPrimary : (p : PathPrimary) → Written p.text []
  | .prefixed name localName => by
      have hlocal := written_run localName (by decide) (by decide)
      rw [PathPrimary.text]
      exact (written_run name (by decide) (by decide)).append (hlocal.cons (by decide))
  | .bracketed iri => by
      rw [PathPrimary.text]
      exact .iri iri
  | .type capital => by
      rw [PathPrimary.text]
      cases capital <;> exact Written.nil.cons (by decide)
  | .group p => by
      have hclose : Written [')'] [] := Written.nil.cons (by decide)
      rw [PathPrimary.text]
      exact ((written_path p).append hclose).cons (by decide)

end

theorem written_prefixedIri {t : Text} (h : afterPrefixedIri? t = some []) : Written t [] := by
  obtain ⟨p, rfl⟩ := exists_primary_of_afterPrefixedIri? h
  rw [List.append_nil]
  exact written_pathPrimary p

/-! ## Literals -/

/-- The string at the start of a text, without what follows it. -/
def stringPart? (t : Text) : Option Text :=
  (afterString? t).map fun tag ↦ t.take (t.length - tag.length)

theorem stringPart?_eq_some {t tag : Text} (h : afterString? t = some tag) :
    ∃ w, t = w ++ tag ∧ afterString? w = some [] ∧ stringPart? t = some w := by
  obtain ⟨w, rfl, hw⟩ := exists_of_afterString? h
  refine ⟨w, rfl, hw, ?_⟩
  rw [stringPart?, h, Option.map_some, take_of_append]

theorem stringPart?_eq_none {t : Text} (h : Written t []) : stringPart? t = none := by
  cases hstring : afterString? t with
  | none => rw [stringPart?, hstring, Option.map_none]
  | some tag =>
      obtain ⟨w, rfl, -⟩ := exists_of_afterString? hstring
      cases (strings_string hstring).symm.trans h.strings_eq

theorem written_languageTag {tag : Text} (h : isLanguageTag tag) : Written tag [] :=
  .plain (Reading.not_mem_of_isLanguageTag h (by decide) (by decide))
    (Reading.not_mem_of_isLanguageTag h (by decide) (by decide))

theorem written_datatypeTag {tag : Text} (h : isDatatypeTag tag) : Written tag [] := by
  simp only [isDatatypeTag, beq_iff_eq, Option.bind_eq_some_iff, afterChar?_eq_some_iff] at h
  obtain ⟨u, ⟨v, rfl, rfl⟩, hiri⟩ := h
  exact ((written_prefixedIri hiri).cons (by decide)).cons (by decide)

theorem written_native {t : Text} (h : isNative (expandTabs t)) :
    Written t (stringPart? t).toList := by
  rcases Reading.cases_of_isNative h with hinteger | ⟨tag, hread, hform⟩
  · rw [isInteger, beq_iff_eq] at hinteger
    obtain ⟨r, rfl⟩ := exists_run hinteger
    have hdigits : Written (r.text ++ []) [] := by
      rw [List.append_nil]
      exact written_run r (by decide) (by decide)
    rw [stringPart?_eq_none hdigits]
    exact hdigits
  · obtain ⟨w, rfl, hw, hpart⟩ := stringPart?_eq_some hread
    rw [hpart]
    refine (Written.string hw).append ?_
    simp only [Bool.or_eq_true] at hform
    rcases hform with (hnone | hlanguage) | hdatatype
    · rw [List.isEmpty_iff.mp hnone]
      exact .nil
    · exact written_languageTag hlanguage
    · exact written_datatypeTag hdatatype

theorem written_variable {t : Text} (h : afterVariable? t = some []) : Written t [] := by
  cases t with
  | nil => exact .nil
  | cons c t =>
      rw [afterVariable?] at h
      split at h
      · rename_i hsigil
        have hc : c ≠ '"' ∧ c ≠ '<' := by
          constructor
          · rintro rfl
            exact absurd hsigil (by decide)
          · rintro rfl
            exact absurd hsigil (by decide)
        obtain ⟨r, rfl⟩ := exists_run h
        rw [List.append_nil]
        exact (written_run r (by decide) (by decide)).cons hc
      · cases h

theorem exists_run_of_iri {t : Text} (h : Kind.iri.admits t = .ok true) :
    ∃ r : Run isIriChar, t = r.text :=
  afterRun?_eq_nil_iff.mp (beq_iff_eq.mp (Except.ok.inj (Kind.hasForm_of_admits rfl h)))

theorem written_token {k : Kind} {t : Text} (hk : k.isToken) (h : k.admits t = .ok true) :
    Written t [] := by
  have hform := Kind.hasForm_of_admits hk h
  have hrun {inClass : Char → Bool} (h : afterRun? inClass t = some [])
      (hquote : inClass '"' = false) (hbracket : inClass '<' = false) : Written t [] := by
    obtain ⟨r, rfl⟩ := afterRun?_eq_nil_iff.mp h
    exact written_run r hquote hbracket
  cases k with
  | var => exact written_variable (beq_iff_eq.mp (Except.ok.inj hform))
  | iri => exact hrun (beq_iff_eq.mp (Except.ok.inj hform)) (by decide) (by decide)
  | prefixName => exact hrun (beq_iff_eq.mp (Except.ok.inj hform)) (by decide) (by decide)
  | prefixedIri => exact written_prefixedIri (beq_iff_eq.mp (Except.ok.inj hform))
  | path =>
      obtain ⟨p, rfl⟩ := isPath_iff_exists.mp (Except.ok.inj hform)
      exact written_path p
  | native => cases hk
  | function => cases hk
  | assignment => cases hk

/-- A term that is no call is written with its string part, if it has one. -/
theorem written_of_admits {k : Kind} {t : Text} (hcall : ¬ k.isCall) (h : k.admits t = .ok true) :
    Written t (stringPart? t).toList := by
  by_cases hk : k.isToken
  · have hwritten := written_token hk h
    rwa [stringPart?_eq_none hwritten]
  · cases k with
    | native => exact written_native (Except.ok.inj (Kind.of_admits h).1)
    | function => exact absurd rfl hcall
    | assignment => exact absurd rfl hcall
    | _ => exact absurd rfl hk

end SparqlComposer
