import SparqlComposer.Proofs.Capture.Scan
import SparqlComposer.Proofs.Span.Escape

/-!
# Names in property paths

A path mentions the prefixes of its prefixed names, in the order in which they are written, and
nothing else. Its IRIs are hidden as spans, its mark `?` is never taken for the mark of a variable,
since no word follows it, and every prefixed name stands where a word may start.
-/

namespace SparqlComposer

/-! ## Scans of hidden texts -/

theorem Run.closed (r : Run isIriChar) : (Span.bracketed r.text).Closed :=
  fun hmem ↦ absurd (r.inClass_of_mem _ hmem) (by decide)

/-- A scan passes over a hidden span. -/
theorem Blind.scan_span {pattern : CapturePattern} (h : Blind pattern) {s : Span} (hs : s.Closed)
    (before t : Text) : scan pattern 0 before (escaped (s.text ++ t)) =
      scan pattern 0 (s.key.reverse ++ before) (escaped t) := by
  have hword : ∀ c ∈ Md5.ofText s.text, isWord c := fun c ↦ Md5.isWord_of_mem_ofText
  have hscan := h.scan_bracketed hword before (escaped t)
  rw [escaped_span hs, Span.key]
  simpa using hscan

/-- The marks of a path. -/
def pathMarks : List Char := '!' :: '^' :: '(' :: primaryEnds

theorem ne_of_mem_pathMarks {c : Char} (h : c ∈ pathMarks) : c ≠ '"' ∧ c ≠ '<' := by
  have hall : ∀ c ∈ pathMarks, c ≠ '"' ∧ c ≠ '<' := List.all_iff_forall_prop.mp (by decide)
  exact hall c h

theorem GoesOnWith.escaped {marks : List Char} {t : Text} (h : GoesOnWith marks t)
    (hmarks : marks ⊆ pathMarks) : GoesOnWith marks (escaped t) := by
  cases t with
  | nil =>
      rw [escaped_nil]
      exact h
  | cons c t =>
      have hc := h c rfl
      rw [escaped_plain (ne_of_mem_pathMarks (hmarks hc))]
      exact .of_head hc _

/-! ## Names of a tree -/

mutual

/-- The prefixes of the prefixed names of a path, in the order of writing. -/
def PropertyPath.prefixNames : PropertyPath → List (Run isWord)
  | .element e => e.prefixNames
  | .joined e _ p => e.prefixNames ++ p.prefixNames

def PathElement.prefixNames : PathElement → List (Run isWord)
  | .mk _ _ primary _ => primary.prefixNames

def PathPrimary.prefixNames : PathPrimary → List (Run isWord)
  | .prefixed name _ => [name]
  | .bracketed _ | .type _ => []
  | .group p => p.prefixNames

end

/-- A pattern finds the names in a prefixed name that it is asked for, and nothing in the other
parts of a path. -/
structure SeesNames (pattern : CapturePattern) (names : Run isWord → List Text) : Prop where
  blind : Blind pattern
  mark : ∀ before c u, c ∈ pathMarks → (c = '?' → GoesOnWith elementEnds u) →
    pattern before (c :: u) = none
  letter : ∀ before c u, isWord c → GoesOnWith primaryEnds u → pattern before (c :: u) = none
  name : ∀ before (name localName : Run isWord) u, atWordStart before → GoesOnWith primaryEnds u →
    ∃ before', scan pattern 0 before (name.text ++ ':' :: (localName.text ++ u)) =
      names name ++ scan pattern 0 before' u

theorem not_isWord_of_goesOnWith {u : Text} (h : GoesOnWith primaryEnds u) :
    ∀ c ∈ u.head?, ¬ isWord c := by
  have hends : ∀ c ∈ primaryEnds, ¬ isWord c := List.all_iff_forall_prop.mp (by decide)
  exact fun c hc ↦ hends c (h c hc)

theorem not_isWord_of_mem_pathMarks {c : Char} (h : c ∈ pathMarks) : ¬ isWord c := by
  have hall : ∀ c ∈ pathMarks, ¬ isWord c := List.all_iff_forall_prop.mp (by decide)
  exact hall c h

theorem seesNames_prefixUse : SeesNames prefixUse fun name ↦ [name.text] where
  blind := blind_prefixUse
  mark before c u hc _ := by
    apply prefixUse_eq_none
    rw [List.dropWhile_cons_of_neg (not_isWord_of_mem_pathMarks hc)]
    rintro cs heq
    obtain rfl := (List.cons.inj heq).1
    exact absurd hc (by decide)
  letter before c u hc hu := by
    apply prefixUse_eq_none
    rw [List.dropWhile_cons_of_pos hc]
    rintro cs heq
    cases u with
    | nil => cases heq
    | cons d u =>
        rw [List.dropWhile_cons_of_neg (not_isWord_of_goesOnWith hu d rfl)] at heq
        obtain rfl := (List.cons.inj heq).1
        exact absurd (hu ':' rfl) (by decide)
  name before name localName u hstart hu := by
    have hfound := prefixUse_run name localName hstart (not_isWord_of_goesOnWith hu)
    obtain ⟨c, cs, hname⟩ := List.exists_cons_of_ne_nil name.ne_nil
    have hgap := not_isGap_of_isWord (name.inClass_of_mem c (hname ▸ List.mem_cons_self))
    have htext : name.text ++ ':' :: (localName.text ++ u) =
        c :: (cs ++ ':' :: localName.text ++ u) := by
      simp [hname]
    have hlength : name.text.length + 1 + localName.text.length =
        (cs ++ ':' :: localName.text).length + 1 := by
      simp only [hname, List.length_append, List.length_cons]
      omega
    rw [htext, hlength] at hfound
    rw [htext]
    exact ⟨_, scan_of_some hgap hfound⟩

theorem seesNames_variableUse : SeesNames variableUse fun _ ↦ [] where
  blind := blind_variableUse
  mark before c u hc hmark := by
    by_cases hquery : c = '?'
    · subst hquery
      have hword := not_isWord_of_goesOnWith ((hmark rfl).mono (by decide))
      have hempty : u.takeWhile isWord = [] := by
        cases u with
        | nil => rfl
        | cons d u => exact List.takeWhile_cons_of_neg (hword d rfl)
      simp [variableUse, hempty]
    · have hall : ∀ c ∈ pathMarks, c ≠ '?' → ¬ isSigil c := List.all_iff_forall_prop.mp (by decide)
      exact variableUse_eq_none (hall c hc hquery)
  letter before c u hc _ := variableUse_eq_none (not_isSigil_of_isWord hc)
  name before name localName u _ _ := by
    have hsigil : ∀ c ∈ name.text ++ ':' :: localName.text, ¬ isSigil c := by
      intro c hc
      rcases List.mem_append.mp hc with hc | hc
      · exact not_isSigil_of_isWord (name.inClass_of_mem c hc)
      rcases List.mem_cons.mp hc with rfl | hc
      · decide
      · exact not_isSigil_of_isWord (localName.inClass_of_mem c hc)
    have hpass := scan_variableUse_append hsigil before u
    rw [List.append_assoc, List.cons_append] at hpass
    exact ⟨_, hpass⟩

/-! ## Scanning a path -/

section Scan

variable {pattern : CapturePattern} {names : Run isWord → List Text}

theorem SeesNames.scan_mark (h : SeesNames pattern names) {c : Char} (hc : c ∈ pathMarks)
    (before t : Text) (hmark : c = '?' → GoesOnWith elementEnds t) :
    scan pattern 0 before (escaped (c :: t)) = scan pattern 0 (c :: before) (escaped t) := by
  rw [escaped_plain (ne_of_mem_pathMarks hc)]
  exact scan_of_none (h.mark before c _ hc fun hquery ↦ (hmark hquery).escaped (by decide))

theorem SeesNames.scan_optionalMark (h : SeesNames pattern names) {c : Char} (hc : c ∈ pathMarks)
    (hquery : c ≠ '?') (present : Bool) {before : Text} (hstart : atWordStart before) (t : Text) :
    ∃ before', atWordStart before' ∧
      scan pattern 0 before (escaped (optionalMark c present ++ t)) =
        scan pattern 0 before' (escaped t) := by
  cases present with
  | false => exact ⟨before, hstart, rfl⟩
  | true =>
      refine ⟨c :: before, ?_, h.scan_mark hc before t fun heq ↦ absurd heq hquery⟩
      simpa [atWordStart] using not_isWord_of_mem_pathMarks hc

theorem SeesNames.scan_repetition (h : SeesNames pattern names)
    (repetition : Option PathRepetition) (before : Text) {t : Text}
    (ht : GoesOnWith elementEnds t) : ∃ before',
      scan pattern 0 before (escaped ((repetition.map PathRepetition.mark).toList ++ t)) =
        scan pattern 0 before' (escaped t) := by
  cases repetition with
  | none => exact ⟨before, rfl⟩
  | some r =>
      have hmark : r.mark ∈ pathMarks := by cases r <;> decide
      exact ⟨r.mark :: before, h.scan_mark hmark before t fun _ ↦ ht⟩

mutual

theorem PropertyPath.scan_text (h : SeesNames pattern names) (p : PropertyPath)
    {before rest : Text} (hstart : atWordStart before) (hrest : GoesOnWith pathEnds rest) :
    ∃ before', scan pattern 0 before (escaped (p.text ++ rest)) =
      p.prefixNames.flatMap names ++ scan pattern 0 before' (escaped rest) := by
  cases p with
  | element e =>
      rw [PropertyPath.text, PropertyPath.prefixNames]
      exact e.scan_text h hstart (hrest.mono (by decide))
  | joined e joint p =>
      have hjoint : joint.mark ∈ elementEnds ∧ joint.mark ∈ pathMarks ∧ joint.mark ≠ '?' ∧
          ¬ isWord joint.mark := by
        cases joint <;> decide
      obtain ⟨hends, hmarks, hquery, hword⟩ := hjoint
      obtain ⟨b, he⟩ := e.scan_text h hstart (.of_head hends (p.text ++ rest))
      have hstart' : atWordStart (joint.mark :: b) := by simpa [atWordStart] using hword
      obtain ⟨b', hp⟩ := p.scan_text h hstart' hrest
      refine ⟨b', ?_⟩
      rw [PropertyPath.text, PropertyPath.prefixNames, List.append_assoc, List.cons_append, he,
        h.scan_mark hmarks _ _ fun heq ↦ absurd heq hquery, hp, List.flatMap_append,
        List.append_assoc]

theorem PathElement.scan_text (h : SeesNames pattern names) (e : PathElement)
    {before rest : Text} (hstart : atWordStart before) (hrest : GoesOnWith elementEnds rest) :
    ∃ before', scan pattern 0 before (escaped (e.text ++ rest)) =
      e.prefixNames.flatMap names ++ scan pattern 0 before' (escaped rest) := by
  cases e with
  | mk negated inverted primary repetition =>
      rw [PathElement.text, PathElement.prefixNames]
      simp only [List.append_assoc]
      obtain ⟨b, hb, hnegated⟩ := h.scan_optionalMark (c := '!') (by decide) (by decide) negated
        hstart (optionalMark '^' inverted ++ (primary.text ++
          ((repetition.map PathRepetition.mark).toList ++ rest)))
      obtain ⟨b', hb', hinverted⟩ := h.scan_optionalMark (c := '^') (by decide) (by decide) inverted
        hb (primary.text ++ ((repetition.map PathRepetition.mark).toList ++ rest))
      obtain ⟨b'', hprimary⟩ := primary.scan_text h hb' (goesOnWith_repetition repetition hrest)
      obtain ⟨b₃, hrepetition⟩ := h.scan_repetition repetition b'' hrest
      exact ⟨b₃, by rw [hnegated, hinverted, hprimary, hrepetition]⟩

theorem PathPrimary.scan_text (h : SeesNames pattern names) (p : PathPrimary)
    {before rest : Text} (hstart : atWordStart before) (hrest : GoesOnWith primaryEnds rest) :
    ∃ before', scan pattern 0 before (escaped (p.text ++ rest)) =
      p.prefixNames.flatMap names ++ scan pattern 0 before' (escaped rest) := by
  cases p with
  | prefixed name localName =>
      have hplain : escaped (name.text ++ ':' :: (localName.text ++ rest)) =
          name.text ++ ':' :: (localName.text ++ escaped rest) := by
        rw [escaped_append fun c hc ↦ ne_of_isWord (name.inClass_of_mem c hc),
          escaped_plain (by decide),
          escaped_append fun c hc ↦ ne_of_isWord (localName.inClass_of_mem c hc)]
      obtain ⟨b, hname⟩ := h.name before name localName _ hstart (hrest.escaped (by decide))
      refine ⟨b, ?_⟩
      rw [PathPrimary.text, PathPrimary.prefixNames, List.append_assoc, List.cons_append, hplain,
        hname, List.flatMap_singleton]
  | bracketed iri =>
      have htext : (PathPrimary.bracketed iri).text = (Span.bracketed iri.text).text := by
        rw [PathPrimary.text]
        rfl
      rw [htext, PathPrimary.prefixNames]
      exact ⟨_, h.blind.scan_span iri.closed before rest⟩
  | type capital =>
      have hletter {c : Char} (hc : isWord c) : scan pattern 0 before (escaped (c :: rest)) =
          scan pattern 0 (c :: before) (escaped rest) := by
        rw [escaped_plain (ne_of_isWord hc)]
        exact scan_of_none (h.letter before c _ hc (hrest.escaped (by decide)))
      rw [PathPrimary.text, PathPrimary.prefixNames]
      cases capital with
      | false => exact ⟨'a' :: before, hletter (by decide)⟩
      | true => exact ⟨'A' :: before, hletter (by decide)⟩
  | group p =>
      have hopen : '(' ∈ pathMarks := by decide
      have hstart' : atWordStart ('(' :: before) := rfl
      obtain ⟨b, hp⟩ := p.scan_text h hstart' (.of_head (by decide : ')' ∈ pathEnds) rest)
      refine ⟨')' :: b, ?_⟩
      rw [PathPrimary.text, PathPrimary.prefixNames, List.cons_append, List.append_assoc,
        List.singleton_append, h.scan_mark hopen _ _ (fun heq ↦ absurd heq (by decide)), hp,
        h.scan_mark (c := ')') (by decide) _ _ (fun heq ↦ absurd heq (by decide))]

end

end Scan

/-! ## Names of a path -/

theorem not_isBlank_of_isIriChar {c : Char} (h : isIriChar c) : ¬ isBlank c := by
  rw [isIriChar, Bool.and_eq_true] at h
  simpa using h.1

theorem Run.all_not_isBlank {inClass : Char → Bool} (r : Run inClass)
    (h : ∀ c, inClass c → ¬ isBlank c) : r.text.all (!isBlank ·) := by
  rw [List.all_eq_true]
  intro c hc
  simpa using h c (r.inClass_of_mem c hc)

theorem all_optionalMark {c : Char} (h : ¬ isBlank c) (present : Bool) :
    (optionalMark c present).all (!isBlank ·) := by
  cases present with
  | false => rfl
  | true => simpa [optionalMark] using h

mutual

theorem PropertyPath.all_not_isBlank (p : PropertyPath) : p.text.all (!isBlank ·) := by
  cases p with
  | element e =>
      rw [PropertyPath.text]
      exact e.all_not_isBlank
  | joined e joint p =>
      have hjoint : isBlank joint.mark = false := by cases joint <;> decide
      simp only [PropertyPath.text, List.all_append, List.all_cons, e.all_not_isBlank,
        p.all_not_isBlank, hjoint]
      rfl

theorem PathElement.all_not_isBlank (e : PathElement) : e.text.all (!isBlank ·) := by
  cases e with
  | mk negated inverted primary repetition =>
      have hrepetition : (repetition.map PathRepetition.mark).toList.all (!isBlank ·) := by
        cases repetition with
        | none => rfl
        | some r => cases r <;> decide
      simp only [PathElement.text, List.all_append, primary.all_not_isBlank, hrepetition,
        all_optionalMark (by decide : ¬ isBlank '!'), all_optionalMark (by decide : ¬ isBlank '^')]
      rfl

theorem PathPrimary.all_not_isBlank (p : PathPrimary) : p.text.all (!isBlank ·) := by
  have hmark : isBlank ':' = false ∧ isBlank '<' = false ∧ isBlank '>' = false ∧
      isBlank '(' = false ∧ isBlank ')' = false := by decide
  have hword : ∀ c, isWord c → ¬ isBlank c := fun c ↦ not_isBlank_of_isWord
  have hiri : ∀ c, isIriChar c → ¬ isBlank c := fun c ↦ not_isBlank_of_isIriChar
  cases p with
  | prefixed name localName =>
      simp [PathPrimary.text, name.all_not_isBlank hword, localName.all_not_isBlank hword, hmark]
  | bracketed iri => simp [PathPrimary.text, iri.all_not_isBlank hiri, hmark]
  | type capital => cases capital <;> decide
  | group p => simp [PathPrimary.text, p.all_not_isBlank, hmark]

end

/-- A path mentions the prefixes of its prefixed names and nothing else. -/
theorem PropertyPath.names_text (p : PropertyPath) : variablesOf p.text = ∅ ∧
    assignmentsOf p.text = ∅ ∧ prefixesOf p.text = .ofList (p.prefixNames.map Run.text) := by
  have hblank {c : Char} (hc : isBlank c) : c ∉ p.text := by
    intro hmem
    simpa [hc] using List.all_eq_true.mp p.all_not_isBlank c hmem
  have htab : '\t' ∉ escaped p.text :=
    not_mem_escaped (by decide) (by decide) (by decide) (hblank (by decide))
  have hspace : ' ' ∉ escaped p.text :=
    not_mem_escaped (by decide) (by decide) (by decide) (hblank (by decide))
  have hcaptures (pattern : CapturePattern) :
      captures pattern p.text = .ofList (scan pattern 0 [] (escaped p.text)) := by
    rw [captures, expandTabs_eq_self htab]
  have hscan {pattern : CapturePattern} {names : Run isWord → List Text}
      (h : SeesNames pattern names) :
      scan pattern 0 [] (escaped p.text) = p.prefixNames.flatMap names := by
    have hend := GoesOnWith.nil pathEnds
    have hstart : atWordStart [] := rfl
    obtain ⟨b, hp⟩ := p.scan_text h hstart hend
    simpa [escaped_nil, scan] using hp
  refine ⟨?_, ?_, ?_⟩
  · have hnone : p.prefixNames.flatMap (fun _ ↦ ([] : List Text)) = [] := by simp
    rw [variablesOf, hcaptures, hscan seesNames_variableUse, hnone]
    rfl
  · rw [assignmentsOf, hcaptures, scan_assignmentTarget_eq_nil hspace]
    rfl
  · rw [prefixesOf, hcaptures, hscan seesNames_prefixUse, ← List.map_eq_flatMap]

end SparqlComposer
