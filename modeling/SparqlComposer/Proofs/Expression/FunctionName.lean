import SparqlComposer.Proofs.Text.Caseless

/-!
# Names of functions

Among the names of functions the longest one that can be read wins. A name that is written with a
misleading letter is not found again among the known names: it is misspelled, and reading it fails.
Nothing else makes the reading fail.
-/

namespace SparqlComposer

/-! ## The longest reading -/

theorem longerReading_mem (first second : Option (Text × Text)) :
    longerReading first second = first ∨ longerReading first second = second := by
  unfold longerReading
  cases first with
  | none => exact .inr rfl
  | some x =>
      cases second with
      | none => exact .inl rfl
      | some y =>
          dsimp only
          split
          · exact .inr rfl
          · exact .inl rfl

theorem longerReading_le {first second : Option (Text × Text)} {x : Text × Text}
    (h : x ∈ first ∨ x ∈ second) : ∃ y ∈ longerReading first second, x.1.length ≤ y.1.length := by
  unfold longerReading
  cases first with
  | none => exact ⟨x, h.resolve_left (by simp), Nat.le_refl _⟩
  | some x₁ =>
      cases second with
      | none => exact ⟨x, h.resolve_right (by simp), Nat.le_refl _⟩
      | some x₂ =>
          dsimp only
          have hone : x = x₁ ∨ x = x₂ := by simpa [eq_comm] using h
          split
          · rename_i hlt
            refine ⟨x₂, rfl, ?_⟩
            rcases hone with rfl | rfl
            · exact Nat.le_of_lt hlt
            · exact Nat.le_refl _
          · rename_i hlt
            refine ⟨x₁, rfl, ?_⟩
            rcases hone with rfl | rfl
            · exact Nat.le_refl _
            · exact Nat.le_of_not_lt hlt

theorem foldl_longerReading_mem (readings : List (Option (Text × Text)))
    (first : Option (Text × Text)) :
    readings.foldl longerReading first ∈ first :: readings := by
  induction readings generalizing first with
  | nil => exact List.mem_singleton_self _
  | cons second readings ih =>
      have hmem := ih (longerReading first second)
      rw [List.foldl_cons]
      rcases List.mem_cons.mp hmem with heq | hmem
      · rw [heq]
        rcases longerReading_mem first second with heq | heq
        · exact List.mem_cons.mpr (.inl heq)
        · exact List.mem_cons_of_mem _ (List.mem_cons.mpr (.inl heq))
      · exact List.mem_cons_of_mem _ (List.mem_cons_of_mem _ hmem)

/-- No reading is longer than the one that wins, and one of them wins if there are any. -/
theorem foldl_longerReading_le {readings : List (Option (Text × Text))}
    {first r : Option (Text × Text)} {x : Text × Text} (hr : r ∈ first :: readings) (hx : x ∈ r) :
    ∃ y ∈ readings.foldl longerReading first, x.1.length ≤ y.1.length := by
  induction readings generalizing first r x with
  | nil =>
      obtain rfl := List.mem_singleton.mp hr
      exact ⟨x, hx, Nat.le_refl _⟩
  | cons second readings ih =>
      have hstep (h : x ∈ first ∨ x ∈ second) :
          ∃ y ∈ (second :: readings).foldl longerReading first, x.1.length ≤ y.1.length := by
        obtain ⟨y, hy, hle⟩ := longerReading_le h
        obtain ⟨z, hz, hle'⟩ := ih List.mem_cons_self hy
        exact ⟨z, hz, Nat.le_trans hle hle'⟩
      rcases List.mem_cons.mp hr with rfl | hr
      · exact hstep (.inl hx)
      · rcases List.mem_cons.mp hr with rfl | hr
        · exact hstep (.inr hx)
        · exact ih (List.mem_cons_of_mem _ hr) hx

/-! ## Names of functions -/

/-- The name of a function can be read at the start of the text, and no longer one. -/
structure FunctionNameAt (t w : Text) : Prop where
  isPrefix : w <+: t
  folds : ∃ name ∈ functionNames, Folds name w
  longest : ∀ name ∈ functionNames, ∀ w', w' <+: t → Folds name w' → w'.length ≤ w.length

/-- The name of a function that is read is written with a letter that no known name has in any case:
the long s, or an `i` with its dot in capitals or without it. -/
structure Misspells (t w : Text) : Prop extends FunctionNameAt t w where
  misleading : ∃ c ∈ w, c ∈ ['\u017f', '\u0130', '\u0131']

section Names

variable {t w rest : Text}

theorem mem_misleadingLetters_iff {c : Char} :
    c ∈ ['\u017f', '\u0130', '\u0131'] ↔ isMisleadingLetter c := by
  simp [isMisleadingLetter, or_assoc]

theorem exists_functionName?_of_folds {name : Text} (hname : name ∈ functionNames)
    (hstart : w <+: t) (hfolds : Folds name w) :
    ∃ y ∈ functionName? t, w.length ≤ y.1.length := by
  obtain ⟨rest, rfl⟩ := hstart
  have hread : keyword? name (w ++ rest) = some (w, rest) :=
    keyword?_eq_some_iff_folds.mpr ⟨rfl, hfolds⟩
  have hmem : some (w, rest) ∈ none :: functionNames.map (keyword? · (w ++ rest)) :=
    List.mem_cons_of_mem _ (List.mem_map.mpr ⟨name, hname, hread⟩)
  exact foldl_longerReading_le hmem rfl

theorem functionNameAt_of_eq_some (h : functionName? t = some (w, rest)) :
    FunctionNameAt t w ∧ t = w ++ rest := by
  have hmem := foldl_longerReading_mem (functionNames.map (keyword? · t)) none
  change functionName? t ∈ _ at hmem
  rw [h] at hmem
  rcases List.mem_cons.mp hmem with hnone | hmem
  · cases hnone
  · obtain ⟨name, hname, hread⟩ := List.mem_map.mp hmem
    obtain ⟨rfl, hfolds⟩ := keyword?_eq_some_iff_folds.mp hread
    refine ⟨⟨List.prefix_append w rest, ⟨name, hname, hfolds⟩, ?_⟩, rfl⟩
    intro name' hname' w' hstart hfolds'
    obtain ⟨y, hy, hle⟩ := exists_functionName?_of_folds hname' hstart hfolds'
    obtain rfl : (w, rest) = y := Option.some.inj (h.symm.trans hy)
    exact hle

theorem functionName?_eq_some_iff :
    functionName? t = some (w, rest) ↔ FunctionNameAt t w ∧ t = w ++ rest := by
  refine ⟨functionNameAt_of_eq_some, ?_⟩
  rintro ⟨⟨hstart, ⟨name, hname, hfolds⟩, hlongest⟩, happend⟩
  obtain ⟨⟨w', rest'⟩, hy, hle⟩ := exists_functionName?_of_folds hname hstart hfolds
  obtain ⟨⟨hstart', ⟨name', hname', hfolds'⟩, -⟩, happend'⟩ := functionNameAt_of_eq_some hy
  have hlength : w.length = w'.length :=
    Nat.le_antisymm hle (hlongest name' hname' w' hstart' hfolds')
  obtain ⟨rfl, rfl⟩ := List.append_inj (happend.symm.trans happend') hlength
  exact hy

/-- Where no name of a function is read, there is none. -/
theorem not_folds_of_functionName?_eq_none (h : functionName? t = none) {name : Text}
    (hname : name ∈ functionNames) (hstart : w <+: t) : ¬ Folds name w := by
  intro hfolds
  obtain ⟨y, hy, -⟩ := exists_functionName?_of_folds hname hstart hfolds
  rw [h] at hy
  cases hy

theorem misspells_iff :
    Misspells t w ↔ ∃ rest, functionName? t = some (w, rest) ∧ w.any isMisleadingLetter := by
  simp only [functionName?_eq_some_iff, List.any_eq_true, ← mem_misleadingLetters_iff]
  constructor
  · rintro ⟨hat, hmisleading⟩
    obtain ⟨rest, rfl⟩ := hat.isPrefix
    exact ⟨rest, ⟨hat, rfl⟩, hmisleading⟩
  · rintro ⟨rest, ⟨hat, -⟩, hmisleading⟩
    exact ⟨hat, hmisleading⟩

/-- Without misleading letters no name is misspelled. -/
theorem not_misspells (ht : ∀ c ∈ t, ¬ isMisleadingLetter c) : ¬ Misspells t w := by
  rintro ⟨hat, c, hc, hmisleading⟩
  exact ht c (hat.isPrefix.subset hc) (mem_misleadingLetters_iff.mp hmisleading)

/-- The name of a function starts with a letter, misspelled or not, and so with no gap. -/
theorem FunctionNameAt.not_isGap (h : FunctionNameAt t w) : ∀ c ∈ t.head?, ¬ isGap c := by
  have hnames : ∀ name ∈ functionNames, name.head?.any fun letter ↦ isWord letter.toLower := by
    decide
  obtain ⟨⟨rest, rfl⟩, ⟨name, hname, hfolds⟩, -⟩ := h
  have hfirst := hnames name hname
  cases hfolds with
  | nil => cases hfirst
  | cons hc _ =>
      rintro d hd
      obtain rfl := Option.some.inj hd
      exact not_isGap_of_isWord (isWord_of_isFormOf hfirst hc)

end Names

end SparqlComposer
