import SparqlComposer.Proofs.Lexeme.Layout

/-!
# Strings of a text

The strings of a text are found at its quotation marks; how the text between them is divided into
lexemes plays no part. So texts with the same strings in the same order among their spans have the
same strings, whatever stands between the spans.
-/

namespace SparqlComposer

/-! ## Lexemes without quotation marks -/

theorem take_runLength (inClass : Char → Bool) (t : Text) :
    t.take (runLength inClass t) = t.takeWhile inClass :=
  (List.prefix_iff_eq_take.mp (List.takeWhile_prefix inClass)).symm

theorem not_mem_take_runLength {inClass : Char → Bool} {c : Char} (h : ¬ inClass c) (t : Text) :
    c ∉ t.take (runLength inClass t) := by
  rw [take_runLength]
  exact fun hmem ↦ h (List.mem_takeWhile_imp hmem)

theorem not_mem_take_numberLength (t : Text) : '"' ∉ t.take (numberLength t) := by
  have hdigits (u : Text) : '"' ∉ u.take (runLength Char.isDigit u) :=
    not_mem_take_runLength (by decide) u
  rw [numberLength]
  split
  · rename_i rest hdrop
    dsimp only
    split
    · exact hdigits t
    · have hsplit : t = t.takeWhile Char.isDigit ++ '.' :: rest := by
        rw [← hdrop, List.takeWhile_append_dropWhile]
      have htake : t.take (runLength Char.isDigit t + (1 + runLength Char.isDigit rest)) =
          t.takeWhile Char.isDigit ++ '.' :: rest.take (runLength Char.isDigit rest) := by
        calc t.take (runLength Char.isDigit t + (1 + runLength Char.isDigit rest))
            = (t.takeWhile Char.isDigit ++ '.' :: rest).take
                ((t.takeWhile Char.isDigit).length + (1 + runLength Char.isDigit rest)) := by
              rw [← hsplit, runLength]
          _ = t.takeWhile Char.isDigit ++ '.' :: rest.take (runLength Char.isDigit rest) := by
              rw [List.take_length_add_append, Nat.add_comm 1, List.take_succ_cons]
      rw [htake, ← take_runLength, List.mem_append, List.mem_cons, not_or, not_or]
      exact ⟨hdigits t, by decide, hdigits rest⟩
  · exact hdigits t

theorem not_mem_take_plainLength {c : Char} (h : c ≠ '"') (t : Text) :
    '"' ∉ (c :: t).take (plainLength (c :: t)) := by
  have hoperator : '"' ∉ (c :: t).take (operatorLength (c :: t)) := by
    rw [operatorLength]
    split
    · rename_i hmem
      have hall : ∀ o ∈ operators, '"' ∉ o := by decide
      exact hall _ (List.contains_iff_mem.mp hmem)
    · exact List.not_mem_nil
  have hmark : '"' ∉ (c :: t).take (markLength (c :: t)) := by
    rw [markLength]
    split
    · exact List.not_mem_nil
    · simpa using Ne.symm h
  have hnumber := not_mem_take_numberLength (c :: t)
  have hword : '"' ∉ (c :: t).take (runLength isWord (c :: t)) :=
    not_mem_take_runLength (by decide) (c :: t)
  have hmax {m n : Nat} (hm : '"' ∉ (c :: t).take m) (hn : '"' ∉ (c :: t).take n) :
      '"' ∉ (c :: t).take (max m n) := by
    rw [Nat.max_def]
    split
    · exact hn
    · exact hm
  exact hmax (hmax hoperator hnumber) (hmax hword hmark)

/-- Where no quotation mark stands first, the lexeme is no string and holds none. -/
theorem of_nextLexeme? {c : Char} {t rest : Text} {l : Lexeme} (hc : c ≠ '"')
    (h : nextLexeme? (c :: t) = some (l, rest)) : l.string? = none ∧ '"' ∉ l.text := by
  rw [nextLexeme?, afterString?_eq_none hc] at h
  split at h
  · contradiction
  · rename_i rest' _ hiri
    obtain ⟨rfl, rfl⟩ := Prod.mk.inj (Option.some.inj h)
    obtain ⟨r, heq⟩ := afterBracketedIri?_eq_some_iff.mp hiri
    have htext : '<' :: (r.text ++ '>' :: rest') = '<' :: (r.text ++ ['>']) ++ rest' := by simp
    have hrun : '"' ∉ r.text := fun hmem ↦ absurd (r.inClass_of_mem _ hmem) (by decide)
    refine ⟨rfl, ?_⟩
    rw [Lexeme.text, heq, htext, take_of_append]
    simpa using hrun
  · split at h
    · cases h
    · obtain ⟨rfl, rfl⟩ := Prod.mk.inj (Option.some.inj h)
      exact ⟨rfl, not_mem_take_plainLength hc t⟩

/-! ## Strings -/

/-- The strings among the lexemes of a text. -/
def strings (t : Text) : List Text := (lexemes t).filterMap Lexeme.string?

@[simp] theorem strings_nil : strings [] = [] := by
  rw [strings, lexemes_nil]
  rfl

theorem strings_string {w rest : Text} (h : afterString? (w ++ rest) = some rest) :
    strings (w ++ rest) = w :: strings rest := by
  rw [strings, lexemes_string h]
  rfl

/-- Text without quotation marks plays no part in reading the strings that follow it. -/
theorem strings_append {w : Text} (h : '"' ∉ w) (t : Text) : strings (w ++ t) = strings t := by
  induction hn : (w ++ t).length using Nat.strong_induction_on generalizing w t with
  | _ n ih =>
      cases w with
      | nil => rfl
      | cons c w =>
          obtain ⟨hc, hw⟩ := List.ne_and_not_mem_of_not_mem_cons h
          rw [List.cons_append] at hn ⊢
          rw [List.length_cons] at hn
          cases hnext : nextLexeme? (c :: (w ++ t)) with
          | none =>
              rw [strings, lexemes_of_none hnext]
              exact ih _ (by omega) hw t rfl
          | some next =>
              obtain ⟨l, rest⟩ := next
              obtain ⟨hstring, hquote⟩ := of_nextLexeme? hc.symm hnext
              obtain ⟨happend, hne⟩ := append_of_nextLexeme? hnext
              have hpos := List.length_pos_iff.mpr hne
              have hlength := congrArg List.length happend
              rw [List.length_append, List.length_cons] at hlength
              rw [strings, lexemes_of_next hnext, List.filterMap_cons_none hstring]
              -- The lexeme ends in the text `c :: w`, or further on.
              rw [← List.cons_append] at happend
              rcases List.append_eq_append_iff.mp happend with ⟨v, hv, rfl⟩ | ⟨v, hv, rfl⟩
              · have hv' : '"' ∉ v := fun hmem ↦ hquote (hv ▸ List.mem_append_right _ hmem)
                exact (ih _ (by simp only [List.length_append] at *; omega) hv' rest rfl).symm
              · have hv' : '"' ∉ v := fun hmem ↦ h (hv ▸ List.mem_append_right _ hmem)
                exact ih _ (by omega) hv' t rfl

/-- A quotation mark that opens no string plays no part either. -/
theorem strings_of_open {t : Text} (h : afterString? ('"' :: t) = none) :
    strings ('"' :: t) = strings t := by
  rw [strings, lexemes_of_open h]
  rfl

/-! ## Strings of spans -/

namespace Span

/-- A quoted span is a string, and a bracketed one holds no quotation marks. -/
def Tidy : Span → Prop
  | quoted body => afterString? (quoted body).text = some []
  | bracketed body => '"' ∉ body

def strings : Span → List Text
  | quoted body => [(quoted body).text]
  | bracketed _ => []

end Span

theorem strings_text {ss : List Segment} (hcut : Cut ss) (h : ∀ s ∈ spans ss, s.Tidy) :
    strings (ss.flatMap Segment.text) = (spans ss).flatMap Span.strings := by
  induction ss with
  | nil => exact strings_nil
  | cons seg ss ih =>
      cases seg with
      | plain c =>
          have hrest := ih hcut.2 h
          by_cases hc : c = '"'
          · subst hc
            exact (strings_of_open (afterString?_eq_none_of_not_mem (hcut.1.1 rfl))).trans hrest
          · have hquote : '"' ∉ [c] := by simpa using Ne.symm hc
            exact (strings_append hquote _).trans hrest
      | span s =>
          have hrest := ih hcut.2 fun s' hs' ↦ h s' (List.mem_cons_of_mem s hs')
          have hs : s.Tidy := h s List.mem_cons_self
          cases s with
          | quoted body =>
              have hstring := strings_string (afterString?_append hs (ss.flatMap Segment.text))
              exact hstring.trans (congrArg ((Span.quoted body).text :: ·) hrest)
          | bracketed body =>
              have hquote : '"' ∉ (Span.bracketed body).text := by
                rw [Span.Tidy] at hs
                simpa [Span.text] using hs
              exact (strings_append hquote _).trans hrest

/-- Formatting keeps the strings of a text with tidy spans. -/
theorem strings_formatted {t : Text} (h : Restorable t)
    (hspans : ∀ s ∈ spans (segments t), s.Tidy) :
    strings (formatted t) = strings t := by
  have hformatted := strings_text (cut_formattedSegments t) (by rwa [spans_formattedSegments])
  have hwritten := strings_text (cut_segments t) hspans
  rw [text_segments] at hwritten
  rw [h.formatted_eq, hformatted, spans_formattedSegments, hwritten]

end SparqlComposer
