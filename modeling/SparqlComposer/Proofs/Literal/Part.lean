import SparqlComposer.Proofs.Lexeme.Strings

/-!
# Texts with strings

A query without calls is written with strings, bracketed IRIs, and characters that open neither. Its
strings are then read from its text as they were written. They are the quoted spans of the text too,
and so come through formatting, unless one of them holds a quotation mark between its ends: there
its span ends too early.
-/

namespace SparqlComposer

/-- A character that opens nothing, a bracketed IRI, or a whole string. -/
inductive Part where
  | plain (c : Char) (hquote : c ≠ '"') (hbracket : c ≠ '<')
  | iri (r : Run isIriChar)
  | string (w : Text) (h : afterString? w = some [])

/-- A quotation mark stands in the string between its ends. -/
def HasInnerQuote (w : Text) : Prop := '"' ∈ w.tail.dropLast

namespace Part

def text : Part → Text
  | plain c _ _ => [c]
  | iri r => '<' :: (r.text ++ ['>'])
  | string w _ => w

def string? : Part → Option Text
  | plain _ _ _ | iri _ => none
  | string w _ => some w

def segment : Part → Segment
  | plain c _ _ => .plain c
  | iri r => .span (.bracketed r.text)
  | string w _ => .span (.quoted w.tail.dropLast)

theorem not_mem_text_iri (r : Run isIriChar) : '"' ∉ (iri r).text := by
  have hrun : '"' ∉ r.text := fun hmem ↦ absurd (r.inClass_of_mem _ hmem) (by decide)
  simpa [text] using hrun

/-- The strings of a text are those that it was written with. -/
theorem strings_text (ps : List Part) : strings (ps.flatMap text) = ps.filterMap string? := by
  induction ps with
  | nil => exact strings_nil
  | cons p ps ih =>
      cases p with
      | plain c hquote hbracket =>
          have hc : '"' ∉ [c] := by simpa using hquote.symm
          exact (strings_append hc _).trans ih
      | iri r => exact (strings_append (not_mem_text_iri r) _).trans ih
      | string w h =>
          have hstring := strings_string (afterString?_append h (ps.flatMap text))
          exact hstring.trans (congrArg (w :: ·) ih)

theorem text_segment (p : Part) : p.segment.text = p.text := by
  cases p with
  | plain c _ _ => rfl
  | iri r => rfl
  | string w h =>
      obtain ⟨body, rfl, hbody⟩ := afterString?_eq_some_iff.mp h
      obtain ⟨w, rfl, -⟩ := exists_of_afterStringBody? hbody
      simp [segment, text, Segment.text, Span.text]

theorem segments_text {ps : List Part} (h : ∀ w ∈ ps.filterMap string?, ¬ HasInnerQuote w) :
    segments (ps.flatMap text) = ps.map segment := by
  have hcut : Cut (ps.map segment) := by
    induction ps with
    | nil => trivial
    | cons p ps ih =>
        cases p with
        | plain c hquote hbracket =>
            exact ⟨⟨fun hc ↦ absurd hc hquote, fun hc ↦ absurd hc hbracket⟩, ih h⟩
        | iri r =>
            exact ⟨fun hmem ↦ absurd (r.inClass_of_mem _ hmem) (by decide), ih h⟩
        | string w hw =>
            exact ⟨h w List.mem_cons_self, ih fun w' hw' ↦ h w' (List.mem_cons_of_mem w hw')⟩
  have htext : (ps.map segment).flatMap Segment.text = ps.flatMap text := by
    simp [List.flatMap_map, text_segment]
  rw [← htext, segments_of_cut hcut]

theorem tidy_of_mem_spans {ps : List Part} {s : Span} (h : s ∈ spans (ps.map segment)) :
    s.Tidy := by
  obtain ⟨seg, hseg, hs⟩ := List.mem_filterMap.mp h
  obtain ⟨p, -, rfl⟩ := List.mem_map.mp hseg
  cases p with
  | plain c _ _ => cases hs
  | iri r =>
      obtain rfl := Option.some.inj hs
      exact fun hmem ↦ absurd (r.inClass_of_mem _ hmem) (by decide)
  | string w hw =>
      obtain rfl := Option.some.inj hs
      have htext : (Span.quoted w.tail.dropLast).text = w := text_segment (.string w hw)
      rwa [Span.Tidy, htext]

end Part

/-! ## Written texts -/

/-- The text is written with the strings, in this order. -/
def Written (t : Text) (ws : List Text) : Prop :=
  ∃ ps : List Part, ps.flatMap Part.text = t ∧ ps.filterMap Part.string? = ws

namespace Written

variable {t t' : Text} {ws ws' : List Text}

theorem strings_eq (h : Written t ws) : strings t = ws := by
  obtain ⟨ps, rfl, rfl⟩ := h
  exact Part.strings_text ps

theorem strings_formatted_eq (h : Written t ws) (hquotes : ∀ w ∈ ws, ¬ HasInnerQuote w)
    (hkeys : Restorable t) : strings (formatted t) = ws := by
  rw [strings_formatted hkeys, h.strings_eq]
  obtain ⟨ps, rfl, rfl⟩ := h
  rw [Part.segments_text hquotes]
  exact fun s ↦ Part.tidy_of_mem_spans

theorem nil : Written [] [] := ⟨[], rfl, rfl⟩

theorem append (h : Written t ws) (h' : Written t' ws') : Written (t ++ t') (ws ++ ws') := by
  obtain ⟨ps, rfl, rfl⟩ := h
  obtain ⟨ps', rfl, rfl⟩ := h'
  exact ⟨ps ++ ps', List.flatMap_append, List.filterMap_append⟩

theorem cons {c : Char} (hc : c ≠ '"' ∧ c ≠ '<') (h : Written t ws) : Written (c :: t) ws := by
  obtain ⟨ps, rfl, rfl⟩ := h
  exact ⟨.plain c hc.1 hc.2 :: ps, rfl, rfl⟩

theorem space (h : Written t ws) : Written (' ' :: t) ws := h.cons (by decide)

theorem plain (hquote : '"' ∉ t) (hbracket : '<' ∉ t) : Written t [] := by
  induction t with
  | nil => exact nil
  | cons c t ih =>
      obtain ⟨hc, ht⟩ := List.ne_and_not_mem_of_not_mem_cons hquote
      obtain ⟨hc', ht'⟩ := List.ne_and_not_mem_of_not_mem_cons hbracket
      exact (ih ht ht').cons ⟨hc.symm, hc'.symm⟩

theorem iri (r : Run isIriChar) : Written ('<' :: (r.text ++ ['>'])) [] :=
  ⟨[.iri r], List.append_nil _, rfl⟩

theorem string (h : afterString? t = some []) : Written t [t] :=
  ⟨[.string t h], List.append_nil t, rfl⟩

end Written

/-- The texts are written with the strings, one text after the other. -/
inductive AllWritten : List Text → List Text → Prop where
  | nil : AllWritten [] []
  | cons {t : Text} {ts ws ws' : List Text} (h : Written t ws) (hs : AllWritten ts ws') :
      AllWritten (t :: ts) (ws ++ ws')

namespace AllWritten

variable {ts ts' ws ws' : List Text}

theorem append (h : AllWritten ts ws) (h' : AllWritten ts' ws') :
    AllWritten (ts ++ ts') (ws ++ ws') := by
  induction h with
  | nil => exact h'
  | cons ht _ ih =>
      rw [List.append_assoc]
      exact .cons ht ih

theorem map {α : Type} {f : α → Text} {g : α → List Text} {as : List α}
    (h : ∀ a ∈ as, Written (f a) (g a)) : AllWritten (as.map f) (as.flatMap g) := by
  induction as with
  | nil => exact .nil
  | cons a as ih =>
      exact .cons (h a List.mem_cons_self) (ih fun a' ha' ↦ h a' (List.mem_cons_of_mem a ha'))

theorem of_forall (h : ∀ t ∈ ts, Written t []) : AllWritten ts [] := by
  induction ts with
  | nil => exact .nil
  | cons t ts ih =>
      exact .cons (h t List.mem_cons_self) (ih fun t' ht' ↦ h t' (List.mem_cons_of_mem t ht'))

theorem joinWith {separator : Text} (hseparator : Written separator []) (h : AllWritten ts ws) :
    Written (joinWith separator ts) ws := by
  induction h with
  | nil => exact Written.nil
  | @cons t ts ws ws' ht hts ih =>
      cases ts with
      | nil =>
          cases hts
          rwa [List.append_nil]
      | cons t' ts =>
          have happend := (ht.append hseparator).append ih
          rwa [List.append_nil] at happend

theorem spaced (h : AllWritten ts ws) : Written (spaced ts) ws :=
  h.joinWith (.plain (by decide) (by decide))

end AllWritten

end SparqlComposer
