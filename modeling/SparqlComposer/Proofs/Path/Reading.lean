import Mathlib.Data.Bool.AllAny
import SparqlComposer.Proofs.Expression.Classify
import SparqlComposer.Proofs.Path.Grammar

/-!
# Reading property paths

Paths are read from the left without going back. Nothing is lost by that: what is read is a path of
the grammar, and a path of the grammar is read to its end whatever can follow it there. So a text is
taken for a path exactly when the grammar derives it.
-/

namespace SparqlComposer

/-! ## What is left of a text -/

def pathRest? (t : Text) : Option Text := (afterPath? t).map Subtype.val

def elementRest? (t : Text) : Option Text := (afterPathElement? t).map Subtype.val

def primaryRest? (t : Text) : Option Text := (afterPathPrimary? t).map Subtype.val

theorem isPath_iff {t : Text} : isPath t ↔ pathRest? t = some [] := by
  rw [isPath, pathRest?]
  cases afterPath? t <;> simp

/-- What is left of a text behind a path whose first element has been read. A joint goes with the
path only if another element follows it. -/
def joinedRest? : Text → Option Text
  | [] => some []
  | c :: cs => if isPathJoint c then (pathRest? cs).or (some (c :: cs)) else some (c :: cs)

theorem pathRest?_eq (t : Text) : pathRest? t = (elementRest? t).bind joinedRest? := by
  rw [elementRest?, pathRest?, afterPath?]
  cases afterPathElement? t with
  | none => rfl
  | some rest =>
      obtain ⟨rest, h⟩ := rest
      cases rest with
      | nil => rfl
      | cons c cs =>
          rw [Option.map_some, Option.bind_some, joinedRest?, pathRest?]
          dsimp only
          split
          · cases afterPath? cs <;> rfl
          · rfl

theorem elementRest?_eq (t : Text) :
    elementRest? t = (primaryRest? (dropPathMarks t)).map (dropOne isRepetition) := by
  rw [elementRest?, primaryRest?, afterPathElement?]
  cases afterPathPrimary? (dropPathMarks t) <;> rfl

theorem primaryRest?_eq (t : Text) : primaryRest? t = (afterPrefixedIri? t).or (match t with
    | [] => none
    | c :: cs =>
        if c == 'a' || c == 'A' then some cs
        else if c == '(' then (pathRest? cs).bind (afterChar? ')')
        else none) := by
  rw [primaryRest?, afterPathPrimary?]
  split
  · rename_i rest h
    exact (congrArg (Option.or · _) h).symm
  · rename_i h
    refine Eq.trans ?_ (congrArg (Option.or · _) h).symm
    rw [Option.none_or]
    cases t with
    | nil => rfl
    | cons c cs =>
        dsimp only
        split
        · rfl
        · split
          · rw [pathRest?]
            cases afterPath? cs with
            | none => rfl
            | some inner =>
                rw [Option.map_some, Option.bind_some]
                dsimp only
                split
                · rename_i hclose
                  exact hclose.symm
                · rename_i hclose
                  exact hclose.symm
          · rfl

/-! ## Tokens -/

theorem afterChar?_eq_some_iff {c : Char} {t rest : Text} :
    afterChar? c t = some rest ↔ t = c :: rest := by
  cases t with
  | nil => simp [afterChar?]
  | cons d ds =>
      rw [afterChar?]
      split
      · rename_i hd
        simp [hd]
      · rename_i hd
        simp [hd]

theorem exists_run {inClass : Char → Bool} {t rest : Text} (h : afterRun? inClass t = some rest) :
    ∃ r : Run inClass, t = r.text ++ rest := by
  cases t with
  | nil => cases h
  | cons c cs =>
      rw [afterRun?] at h
      split at h
      · rename_i hc
        obtain rfl := Option.some.inj h
        refine ⟨⟨c :: cs.takeWhile inClass, List.cons_ne_nil _ _, ?_⟩, ?_⟩
        · intro d hd
          rcases List.mem_cons.mp hd with rfl | hd
          · exact hc
          · exact List.all_eq_true.mp List.all_takeWhile d hd
        · simp
      · cases h

/-- A run is read to its end when no further character of the class follows. -/
theorem afterRun?_append {inClass : Char → Bool} (r : Run inClass) {rest : Text}
    (h : ∀ c ∈ rest.head?, ¬ inClass c) : afterRun? inClass (r.text ++ rest) = some rest := by
  obtain ⟨w, hne, hw⟩ := r
  obtain ⟨c, w, rfl⟩ := List.exists_cons_of_ne_nil hne
  have hrest : rest.dropWhile inClass = rest := by
    cases rest with
    | nil => rfl
    | cons d rest => exact List.dropWhile_cons_of_neg (h d rfl)
  have htail : ∀ d ∈ w, inClass d := fun d hd ↦ hw d (List.mem_cons_of_mem c hd)
  rw [List.cons_append, afterRun?, if_pos (hw c List.mem_cons_self),
    List.dropWhile_append_of_pos htail, hrest]

/-- A text is a run when it is read as one to its end. -/
theorem afterRun?_eq_nil_iff {inClass : Char → Bool} {t : Text} :
    afterRun? inClass t = some [] ↔ ∃ r : Run inClass, t = r.text := by
  constructor
  · intro h
    obtain ⟨r, hr⟩ := exists_run h
    exact ⟨r, hr.trans (List.append_nil _)⟩
  · rintro ⟨r, rfl⟩
    have hread : afterRun? inClass (r.text ++ []) = some [] := afterRun?_append r fun _ hc ↦ nomatch hc
    rwa [List.append_nil] at hread

theorem afterBracketedIri?_eq_some_iff {t rest : Text} : afterBracketedIri? t = some rest ↔
    ∃ r : Run isIriChar, t = '<' :: (r.text ++ '>' :: rest) := by
  simp only [afterBracketedIri?, afterIri?, bind, Option.bind_eq_some_iff, afterChar?_eq_some_iff]
  constructor
  · rintro ⟨u, rfl, v, hrun, rfl⟩
    obtain ⟨r, rfl⟩ := exists_run hrun
    exact ⟨r, rfl⟩
  · rintro ⟨r, rfl⟩
    refine ⟨_, rfl, _, afterRun?_append r ?_, rfl⟩
    rintro c hc
    obtain rfl : '>' = c := Option.some.inj hc
    decide

theorem cases_of_afterPrefixedIri? {t rest : Text} (h : afterPrefixedIri? t = some rest) :
    (∃ name localName : Run isWord, t = name.text ++ ':' :: (localName.text ++ rest)) ∨
      ∃ iri : Run isIriChar, t = '<' :: (iri.text ++ '>' :: rest) := by
  rcases Option.or_eq_some_iff.mp h with h | ⟨-, h⟩
  · simp only [afterPrefixedName?, afterPrefix?, afterWord?, bind, Option.bind_eq_some_iff] at h
    obtain ⟨u, ⟨v, hname, hcolon⟩, hlocal⟩ := h
    obtain ⟨name, rfl⟩ := exists_run hname
    obtain rfl := afterChar?_eq_some_iff.mp hcolon
    obtain ⟨localName, rfl⟩ := exists_run hlocal
    exact .inl ⟨name, localName, rfl⟩
  · exact .inr (afterBracketedIri?_eq_some_iff.mp h)

theorem exists_primary_of_afterPrefixedIri? {t rest : Text} (h : afterPrefixedIri? t = some rest) :
    ∃ p : PathPrimary, t = p.text ++ rest := by
  rcases cases_of_afterPrefixedIri? h with ⟨name, localName, rfl⟩ | ⟨iri, rfl⟩
  · exact ⟨.prefixed name localName, by simp [PathPrimary.text]⟩
  · exact ⟨.bracketed iri, by simp [PathPrimary.text]⟩

/-! ## What is read is a path -/

theorem exists_mark_of_dropOne (c : Char) (t : Text) :
    ∃ present, t = optionalMark c present ++ dropOne (· == c) t := by
  cases t with
  | nil => exact ⟨false, rfl⟩
  | cons d t =>
      rw [dropOne]
      split
      · rename_i hd
        obtain rfl := beq_iff_eq.mp hd
        exact ⟨true, rfl⟩
      · exact ⟨false, rfl⟩

theorem exists_repetition_of_dropOne (t : Text) : ∃ repetition : Option PathRepetition,
    t = (repetition.map PathRepetition.mark).toList ++ dropOne isRepetition t := by
  cases t with
  | nil => exact ⟨none, rfl⟩
  | cons c t =>
      rw [dropOne]
      split
      · rename_i hc
        simp only [isRepetition, Bool.or_eq_true, beq_iff_eq] at hc
        rcases hc with (rfl | rfl) | rfl
        · exact ⟨some .atMostOnce, rfl⟩
        · exact ⟨some .anyTimes, rfl⟩
        · exact ⟨some .atLeastOnce, rfl⟩
      · exact ⟨none, rfl⟩

theorem exists_joint {c : Char} (h : isPathJoint c) : ∃ joint : PathJoint, joint.mark = c := by
  simp only [isPathJoint, Bool.or_eq_true, beq_iff_eq] at h
  rcases h with rfl | rfl
  · exact ⟨.sequence, rfl⟩
  · exact ⟨.alternative, rfl⟩

section Sound

variable {n : Nat} {t rest : Text}

/-- What is read of texts of at most `n` characters is a path. -/
def ReadsPaths (n : Nat) : Prop :=
  ∀ t rest, t.length ≤ n → pathRest? t = some rest → ∃ p : PropertyPath, t = p.text ++ rest

theorem ReadsPaths.primary (hpaths : ReadsPaths n) (hlength : t.length ≤ n + 1)
    (h : primaryRest? t = some rest) : ∃ p : PathPrimary, t = p.text ++ rest := by
  rw [primaryRest?_eq] at h
  rcases Option.or_eq_some_iff.mp h with h | ⟨-, h⟩
  · exact exists_primary_of_afterPrefixedIri? h
  cases t with
  | nil => exact nomatch h
  | cons c cs =>
      dsimp only at h
      split at h
      · rename_i hc
        obtain rfl := Option.some.inj h
        simp only [Bool.or_eq_true, beq_iff_eq] at hc
        rcases hc with rfl | rfl
        · exact ⟨.type false, rfl⟩
        · exact ⟨.type true, rfl⟩
      · split at h
        · rename_i hopen
          obtain rfl := beq_iff_eq.mp hopen
          obtain ⟨inner, hinner, hclose⟩ := Option.bind_eq_some_iff.mp h
          obtain ⟨p, rfl⟩ := hpaths cs inner (Nat.le_of_succ_le_succ hlength) hinner
          obtain rfl := afterChar?_eq_some_iff.mp hclose
          exact ⟨.group p, by simp [PathPrimary.text]⟩
        · exact nomatch h

theorem ReadsPaths.element (hpaths : ReadsPaths n) (hlength : t.length ≤ n + 1)
    (h : elementRest? t = some rest) : ∃ e : PathElement, t = e.text ++ rest := by
  rw [elementRest?_eq] at h
  obtain ⟨u, hu, rfl⟩ := Option.map_eq_some_iff.mp h
  have hmarks : (dropPathMarks t).length ≤ n + 1 :=
    Nat.le_trans (length_dropPathMarks_le t) hlength
  obtain ⟨negated, hnegated⟩ := exists_mark_of_dropOne '!' t
  obtain ⟨inverted, hinverted⟩ := exists_mark_of_dropOne '^' (dropOne (· == '!') t)
  obtain ⟨primary, hprimary⟩ := hpaths.primary hmarks hu
  obtain ⟨repetition, hrepetition⟩ := exists_repetition_of_dropOne u
  refine ⟨.mk negated inverted primary repetition, ?_⟩
  calc t = optionalMark '!' negated ++ (optionalMark '^' inverted ++ dropPathMarks t) := by
        rw [dropPathMarks, ← hinverted, ← hnegated]
    _ = optionalMark '!' negated ++ (optionalMark '^' inverted ++ (primary.text ++
          ((repetition.map PathRepetition.mark).toList ++ dropOne isRepetition u))) := by
        rw [hprimary, ← hrepetition]
    _ = _ := by simp only [PathElement.text, List.append_assoc]

theorem length_lt_of_elementRest? (h : elementRest? t = some rest) : rest.length < t.length := by
  obtain ⟨found, -, rfl⟩ := Option.map_eq_some_iff.mp h
  exact found.property

theorem readsPaths (n : Nat) : ReadsPaths n := by
  induction n with
  | zero =>
      intro t rest hlength h
      rw [pathRest?_eq] at h
      obtain ⟨u, hu, -⟩ := Option.bind_eq_some_iff.mp h
      have := length_lt_of_elementRest? hu
      omega
  | succ n ih =>
      intro t rest hlength h
      rw [pathRest?_eq] at h
      obtain ⟨u, hu, hrest⟩ := Option.bind_eq_some_iff.mp h
      have hshorter := length_lt_of_elementRest? hu
      obtain ⟨e, rfl⟩ := ih.element hlength hu
      have hend (heq : rest = u) : ∃ p : PropertyPath, e.text ++ u = p.text ++ rest :=
        ⟨.element e, by rw [heq, PropertyPath.text]⟩
      cases u with
      | nil => exact hend (Option.some.inj hrest).symm
      | cons c cs =>
          rw [joinedRest?] at hrest
          split at hrest
          · rename_i hc
            rcases Option.or_eq_some_iff.mp hrest with hcs | ⟨-, hstop⟩
            · rw [List.length_cons] at hshorter
              obtain ⟨joint, rfl⟩ := exists_joint hc
              obtain ⟨p, rfl⟩ := ih cs rest (by omega) hcs
              exact ⟨.joined e joint p, by simp [PropertyPath.text]⟩
            · exact hend (Option.some.inj hstop).symm
          · exact hend (Option.some.inj hrest).symm

end Sound

/-! ## Paths are read -/

/-- The text ends here, or goes on with one of the marks. -/
def GoesOnWith (marks : List Char) (t : Text) : Prop := ∀ c ∈ t.head?, c ∈ marks

/-- What can follow a path: the end of the group that it stands in. -/
def pathEnds : List Char := [')']

/-- What can follow an element: a joint, or what can follow the path. -/
def elementEnds : List Char := '/' :: '|' :: pathEnds

/-- What can follow the primary of an element: a repetition, or what can follow the element. -/
def primaryEnds : List Char := '?' :: '*' :: '+' :: elementEnds

theorem GoesOnWith.nil (marks : List Char) : GoesOnWith marks [] := by
  intro c hc
  cases hc

theorem GoesOnWith.mono {marks marks' : List Char} {t : Text} (h : GoesOnWith marks t)
    (hmarks : marks ⊆ marks') : GoesOnWith marks' t := fun c hc ↦ hmarks (h c hc)

theorem GoesOnWith.of_head {marks : List Char} {c : Char} (hc : c ∈ marks) (t : Text) :
    GoesOnWith marks (c :: t) := by
  intro d hd
  obtain rfl : c = d := Option.some.inj hd
  exact hc

section Complete

variable {rest : Text}

theorem afterWord?_append (r : Run isWord) (h : GoesOnWith (':' :: primaryEnds) rest) :
    afterWord? (r.text ++ rest) = some rest := by
  have hends : ∀ c ∈ ':' :: primaryEnds, ¬ isWord c := List.all_iff_forall_prop.mp (by decide)
  exact afterRun?_append r fun c hc ↦ hends c (h c hc)

theorem afterPrefixedIri?_prefixed (name localName : Run isWord) (h : GoesOnWith primaryEnds rest) :
    afterPrefixedIri? (name.text ++ ':' :: (localName.text ++ rest)) = some rest := by
  have hname : afterWord? (name.text ++ ':' :: (localName.text ++ rest)) =
      some (':' :: (localName.text ++ rest)) :=
    afterWord?_append name (.of_head List.mem_cons_self _)
  have hlocal : afterWord? (localName.text ++ rest) = some rest :=
    afterWord?_append localName (h.mono (List.subset_cons_self ':' primaryEnds))
  have hboth : afterPrefixedName? (name.text ++ ':' :: (localName.text ++ rest)) = some rest := by
    simp [afterPrefixedName?, afterPrefix?, hname, afterChar?, hlocal]
  rw [afterPrefixedIri?, hboth, Option.some_or]

theorem afterPrefixedIri?_bracketed (iri : Run isIriChar) (rest : Text) :
    afterPrefixedIri? ('<' :: (iri.text ++ '>' :: rest)) = some rest := by
  have hname : afterPrefixedName? ('<' :: (iri.text ++ '>' :: rest)) = none := rfl
  rw [afterPrefixedIri?, hname, Option.none_or]
  exact afterBracketedIri?_eq_some_iff.mpr ⟨iri, rfl⟩

/-- The letter of the keyword is no prefix, since no colon follows it. -/
theorem afterPrefixedIri?_letter (c : Char) (hc : isWord c) (h : GoesOnWith primaryEnds rest) :
    afterPrefixedIri? (c :: rest) = none := by
  have hletter : ∀ d ∈ [c], isWord d := by
    intro d hd
    rw [List.mem_singleton.mp hd]
    exact hc
  have hname : afterWord? (c :: rest) = some rest :=
    afterWord?_append ⟨[c], List.cons_ne_nil c [], hletter⟩
      (h.mono (List.subset_cons_self ':' primaryEnds))
  have hcolon : afterChar? ':' rest = none := by
    rw [Option.eq_none_iff_forall_ne_some]
    rintro u hu
    rw [afterChar?_eq_some_iff.mp hu] at h
    exact absurd (h ':' rfl) (by decide)
  have hbracket : afterBracketedIri? (c :: rest) = none := by
    have hne : c ≠ '<' := by
      rintro rfl
      exact absurd hc (by decide)
    simp [afterBracketedIri?, afterChar?, hne]
  simp [afterPrefixedIri?, afterPrefixedName?, afterPrefix?, hname, hcolon, hbracket]

/-- A primary starts with neither of the marks that can stand before it. -/
theorem PathPrimary.exists_head (p : PathPrimary) :
    ∃ c cs, p.text = c :: cs ∧ c ≠ '!' ∧ c ≠ '^' := by
  cases p with
  | prefixed name localName =>
      obtain ⟨c, cs, hname⟩ := List.exists_cons_of_ne_nil name.ne_nil
      have hc : isWord c := name.inClass_of_mem c (hname ▸ List.mem_cons_self)
      refine ⟨c, cs ++ ':' :: localName.text, by rw [PathPrimary.text, hname]; rfl, ?_, ?_⟩
      · rintro rfl
        exact absurd hc (by decide)
      · rintro rfl
        exact absurd hc (by decide)
  | bracketed iri => exact ⟨'<', _, by rw [PathPrimary.text], by decide, by decide⟩
  | type capital =>
      cases capital with
      | false => exact ⟨'a', [], rfl, by decide, by decide⟩
      | true => exact ⟨'A', [], rfl, by decide, by decide⟩
  | group p => exact ⟨'(', _, by rw [PathPrimary.text], by decide, by decide⟩

theorem dropPathMarks_append (negated inverted : Bool) (p : PathPrimary) (rest : Text) :
    dropPathMarks (optionalMark '!' negated ++ (optionalMark '^' inverted ++ (p.text ++ rest))) =
      p.text ++ rest := by
  obtain ⟨c, cs, hp, hnegation, hinversion⟩ := p.exists_head
  rw [hp]
  cases negated <;> cases inverted <;>
    simp [optionalMark, dropPathMarks, dropOne, hnegation, hinversion]

theorem dropOne_repetition (repetition : Option PathRepetition) (h : GoesOnWith elementEnds rest) :
    dropOne isRepetition ((repetition.map PathRepetition.mark).toList ++ rest) = rest := by
  cases repetition with
  | some r => cases r <;> rfl
  | none =>
      have hends : ∀ c ∈ elementEnds, ¬ isRepetition c :=
        List.all_iff_forall_prop.mp (by decide)
      cases rest with
      | nil => rfl
      | cons c rest => exact if_neg (hends c (h c rfl))

theorem goesOnWith_repetition (repetition : Option PathRepetition)
    (h : GoesOnWith elementEnds rest) :
    GoesOnWith primaryEnds ((repetition.map PathRepetition.mark).toList ++ rest) := by
  cases repetition with
  | some r => cases r <;> exact .of_head (by decide) rest
  | none => exact h.mono (by decide)

mutual

/-- A path is read to its end. -/
theorem PropertyPath.pathRest?_text (p : PropertyPath) {rest : Text}
    (h : GoesOnWith pathEnds rest) : pathRest? (p.text ++ rest) = some rest := by
  cases p with
  | element e =>
      have he := e.elementRest?_text (h.mono (by decide : pathEnds ⊆ elementEnds))
      rw [PropertyPath.text, pathRest?_eq, he, Option.bind_some]
      have hends : ∀ c ∈ pathEnds, ¬ isPathJoint c := List.all_iff_forall_prop.mp (by decide)
      cases rest with
      | nil => rfl
      | cons c rest => exact if_neg (hends c (h c rfl))
  | joined e joint p =>
      have hjoint : joint.mark ∈ elementEnds ∧ isPathJoint joint.mark := by cases joint <;> decide
      have he := e.elementRest?_text (.of_head hjoint.1 (p.text ++ rest))
      have hp := p.pathRest?_text h
      rw [PropertyPath.text, List.append_assoc, List.cons_append, pathRest?_eq, he,
        Option.bind_some, joinedRest?, if_pos hjoint.2, hp, Option.some_or]

theorem PathElement.elementRest?_text (e : PathElement) {rest : Text}
    (h : GoesOnWith elementEnds rest) : elementRest? (e.text ++ rest) = some rest := by
  cases e with
  | mk negated inverted primary repetition =>
      have hprimary := primary.primaryRest?_text (goesOnWith_repetition repetition h)
      rw [PathElement.text]
      simp only [List.append_assoc]
      rw [elementRest?_eq, dropPathMarks_append, hprimary, Option.map_some,
        dropOne_repetition repetition h]

theorem PathPrimary.primaryRest?_text (p : PathPrimary) {rest : Text}
    (h : GoesOnWith primaryEnds rest) : primaryRest? (p.text ++ rest) = some rest := by
  cases p with
  | prefixed name localName =>
      rw [PathPrimary.text, List.append_assoc, List.cons_append, primaryRest?_eq,
        afterPrefixedIri?_prefixed name localName h, Option.some_or]
  | bracketed iri =>
      rw [PathPrimary.text, List.cons_append, List.append_assoc, List.singleton_append,
        primaryRest?_eq, afterPrefixedIri?_bracketed, Option.some_or]
  | type capital =>
      cases capital with
      | false =>
          rw [PathPrimary.text, if_neg Bool.false_ne_true, List.singleton_append, primaryRest?_eq,
            afterPrefixedIri?_letter 'a' (by decide) h]
          rfl
      | true =>
          rw [PathPrimary.text, if_pos rfl, List.singleton_append, primaryRest?_eq,
            afterPrefixedIri?_letter 'A' (by decide) h]
          rfl
  | group p =>
      have hp := p.pathRest?_text (.of_head (by decide : ')' ∈ pathEnds) rest)
      have hiri : afterPrefixedIri? ('(' :: (p.text ++ ')' :: rest)) = none := rfl
      rw [PathPrimary.text, List.cons_append, List.append_assoc, List.singleton_append,
        primaryRest?_eq, hiri, Option.none_or]
      dsimp only
      rw [if_neg (by decide), if_pos (by decide), hp]
      rfl

end

end Complete

theorem isPath_iff_exists {t : Text} : isPath t ↔ ∃ p : PropertyPath, p.text = t := by
  rw [isPath_iff]
  constructor
  · intro h
    obtain ⟨p, rfl⟩ := readsPaths t.length t [] (Nat.le_refl _) h
    exact ⟨p, (List.append_nil p.text).symm⟩
  · rintro ⟨p, rfl⟩
    have hend : GoesOnWith pathEnds [] := fun c hc ↦ nomatch hc
    have hread := p.pathRest?_text hend
    rwa [List.append_nil] at hread

/-- A text is taken for a path exactly when it holds no blanks and the grammar derives it, and never
fails to be judged. -/
theorem Kind.admits_path (t : Text) : ∃ accepted, Kind.path.admits t = .ok accepted ∧
    (accepted = true ↔ (∀ c ∈ t, ¬ isBlank c) ∧ ∃ p : PropertyPath, p.text = t) := by
  by_cases hblank : t.any isBlank
  · refine ⟨false, ?_, (fun h ↦ nomatch h), fun h ↦ ?_⟩
    · rw [admits]
      split
      · rfl
      · exact if_pos hblank
    · obtain ⟨c, hc, hcblank⟩ := List.any_eq_true.mp hblank
      exact absurd hcblank (h.1 c hc)
  · have hnone : ∀ c ∈ t, ¬ isBlank c := fun c hc hcblank ↦
      hblank (List.any_eq_true.mpr ⟨c, hc, hcblank⟩)
    have hpadded : ¬ isPadded t := by
      rw [isPadded, Bool.or_eq_true, Option.any_eq_true, Option.any_eq_true]
      rintro (⟨c, hc, hcblank⟩ | ⟨c, hc, hcblank⟩)
      · exact hnone c (List.mem_of_mem_head? hc) hcblank
      · exact hnone c (List.mem_of_getLast? hc) hcblank
    have htab : '\t' ∉ t := fun hmem ↦ hnone '\t' hmem (by decide)
    refine ⟨isPath t, ?_, ?_⟩
    · have htoken : ¬ (path.isToken && t.any isBlank) := hblank
      rw [admits, if_neg hpadded, if_neg htoken, expandTabs_eq_self htab]
      exact congrArg Except.ok (Bool.and_true _)
    · rw [isPath_iff_exists]
      exact ⟨fun h ↦ ⟨hnone, h⟩, And.right⟩

end SparqlComposer
