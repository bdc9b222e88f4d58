import SparqlComposer.Proofs.Lexeme.Basic
import SparqlComposer.Proofs.Span.Cut

/-!
# Lexemes of spans

Formatting leaves spans as they are, and a span need not be a single lexeme: between the signs of
two comparisons stands a span. Its lexemes are read from it by themselves as long as no string that
begins in it is left open, but for an equals sign right behind it.
-/

namespace SparqlComposer

/-! ## Reading what is followed by more -/

theorem afterBracketedIri?_append (w u : Text) :
    afterBracketedIri? (w ++ ['>'] ++ u) = (afterBracketedIri? (w ++ ['>'])).map (· ++ u) := by
  cases h : afterBracketedIri? (w ++ ['>']) with
  | some rest =>
      obtain ⟨r, hr⟩ := afterBracketedIri?_eq_some_iff.mp h
      refine afterBracketedIri?_eq_some_iff.mpr ⟨r, ?_⟩
      rw [hr]
      simp
  | none =>
      rw [Option.map_none, Option.eq_none_iff_forall_ne_some]
      intro rest hrest
      obtain ⟨r, hr⟩ := afterBracketedIri?_eq_some_iff.mp hrest
      have hnot : '>' ∉ '<' :: r.text := by
        refine List.not_mem_cons_of_ne_of_not_mem (by decide) fun hmem ↦ ?_
        exact absurd (r.inClass_of_mem _ hmem) (by decide)
      -- The bracket that ends the IRI is the first one in the text: it is not behind `w ++ ['>']`.
      have hfirst : ∃ v, w ++ ['>'] = '<' :: r.text ++ '>' :: v := by
        have hsplit : w ++ '>' :: u = '<' :: r.text ++ '>' :: rest := by simpa using hr
        rcases List.append_eq_append_iff.mp hsplit with ⟨v, hv, htail⟩ | ⟨v, hv, htail⟩
        · cases v with
          | nil => exact ⟨[], by rw [hv, List.append_nil]⟩
          | cons c v =>
              obtain rfl : '>' = c := (List.cons.inj htail).1
              exact absurd (hv ▸ List.mem_append_right w List.mem_cons_self) hnot
        · cases v with
          | nil => exact ⟨[], by rw [hv, List.append_nil]⟩
          | cons c v =>
              obtain rfl : '>' = c := (List.cons.inj htail).1
              exact ⟨v ++ ['>'], by rw [hv]; simp⟩
      obtain ⟨v, hv⟩ := hfirst
      cases h.symm.trans (afterBracketedIri?_eq_some_iff.mpr ⟨r, hv⟩)

theorem numberLength_append {t : Text} (h : '>' ∈ t) (u : Text) :
    numberLength (t ++ u) = numberLength t := by
  have hstop : ∃ c ∈ t, ¬ Char.isDigit c := ⟨'>', h, by decide⟩
  obtain ⟨hlength, hrest⟩ := runLength_append_of_exists hstop u
  have hmem : '>' ∈ t.dropWhile Char.isDigit := by
    rw [← List.takeWhile_append_dropWhile (p := Char.isDigit) (l := t), List.mem_append] at h
    exact h.resolve_left fun hdigit ↦ absurd (List.mem_takeWhile_imp hdigit) (by decide)
  rw [numberLength, numberLength, hlength, hrest]
  cases hdrop : t.dropWhile Char.isDigit with
  | nil => exact absurd (hdrop ▸ hmem) List.not_mem_nil
  | cons c v =>
      rw [hdrop] at hmem
      rw [List.cons_append]
      split
      · rename_i rest heq
        obtain ⟨rfl, rfl⟩ := List.cons.inj heq
        have hv : '>' ∈ v := (List.mem_cons.mp hmem).resolve_left (by decide)
        rw [(runLength_append_of_exists ⟨'>', hv, by decide⟩ u).1]
        rfl
      · rename_i hpoint
        split
        · rename_i rest heq
          obtain ⟨rfl, rfl⟩ := List.cons.inj heq
          exact absurd rfl (hpoint _)
        · rfl

theorem plainLength_append {c : Char} {t : Text} (h : '>' ∈ t) (u : Text) :
    plainLength (c :: t ++ u) = plainLength (c :: t) := by
  have hmem : '>' ∈ c :: t := List.mem_cons_of_mem c h
  have htwo : (c :: t ++ u).take 2 = (c :: t).take 2 := by
    apply List.take_append_of_le_length
    have := List.length_pos_of_mem h
    simp only [List.length_cons]
    omega
  have hstop : ∃ d ∈ c :: t, ¬ isWord d := ⟨'>', hmem, by decide⟩
  have hword := (runLength_append_of_exists hstop u).1
  rw [plainLength, plainLength, numberLength_append hmem, hword, operatorLength, operatorLength,
    htwo]
  rfl

theorem runLength_le_length (inClass : Char → Bool) (t : Text) : runLength inClass t ≤ t.length :=
  (List.takeWhile_sublist inClass).length_le

theorem numberLength_le_length (t : Text) : numberLength t ≤ t.length := by
  have hsplit : runLength Char.isDigit t + (t.dropWhile Char.isDigit).length = t.length := by
    rw [runLength, ← List.length_append, List.takeWhile_append_dropWhile]
  rw [numberLength]
  split
  · rename_i rest hdrop
    rw [hdrop, List.length_cons] at hsplit
    have := runLength_le_length Char.isDigit rest
    dsimp only
    split <;> omega
  · exact runLength_le_length _ t

theorem plainLength_le_length (t : Text) : plainLength t ≤ t.length := by
  have hoperator : operatorLength t ≤ t.length := by
    rw [operatorLength]
    split
    · rename_i hmem
      have hlength := length_of_mem_operators _ (List.contains_iff_mem.mp hmem)
      rw [List.length_take] at hlength
      omega
    · exact Nat.zero_le _
  have hmark : markLength t ≤ t.length := by
    cases t with
    | nil => exact Nat.le_refl 0
    | cons c t =>
        have := markLength_le (c :: t)
        simp only [List.length_cons]
        omega
  have := numberLength_le_length t
  have := runLength_le_length isWord t
  rw [plainLength]
  omega

/-- What follows the closing bracket plays no part in reading a lexeme in front of it. -/
theorem nextLexeme?_append {c : Char} {w u : Text}
    (hstring : c = '"' → afterString? (c :: (w ++ ['>'])) ≠ none) :
    nextLexeme? (c :: (w ++ ['>']) ++ u) =
      (nextLexeme? (c :: (w ++ ['>']))).map fun (l, rest) ↦ (l, rest ++ u) := by
  have hlength := plainLength_append (c := c) (t := w ++ ['>']) (by simp) u
  have hiri : afterBracketedIri? (c :: (w ++ ['>']) ++ u) =
      (afterBracketedIri? (c :: (w ++ ['>']))).map (· ++ u) := afterBracketedIri?_append (c :: w) u
  have htake {t : Text} {n : Nat} (hn : n ≤ t.length) : (t ++ u).take n = t.take n :=
    List.take_append_of_le_length hn
  have htaken {t : Text} (rest : Text) :
      (t ++ u).take ((t ++ u).length - (rest ++ u).length) = t.take (t.length - rest.length) := by
    have hsub : (t ++ u).length - (rest ++ u).length = t.length - rest.length := by
      rw [List.length_append, List.length_append, Nat.add_sub_add_right]
    rw [hsub, htake (Nat.sub_le _ _)]
  cases hs : afterString? (c :: (w ++ ['>'])) with
  | some rest =>
      rw [nextLexeme?, nextLexeme?, afterString?_append hs u, hs]
      exact congrArg (fun t ↦ some (Lexeme.string t, rest ++ u)) (htaken rest)
  | none =>
      have hnone : afterString? (c :: (w ++ ['>']) ++ u) = none :=
        afterString?_eq_none (fun hc ↦ hstring hc hs) _
      rw [nextLexeme?, nextLexeme?, hnone, hs, hiri, hlength]
      cases afterBracketedIri? (c :: (w ++ ['>'])) with
      | some rest => exact congrArg (fun t ↦ some (Lexeme.iri t, rest ++ u)) (htaken rest)
      | none =>
          have hle := plainLength_le_length (c :: (w ++ ['>']))
          dsimp only [Option.map_none]
          split
          · rfl
          · rw [htake hle, List.drop_append_of_le_length hle, Option.map_some]

/-- A quotation mark that opens no string is a lexeme. -/
theorem lexemes_of_open {t : Text} (h : afterString? ('"' :: t) = none) :
    lexemes ('"' :: t) = .plain ['"'] :: lexemes t :=
  lexemes_mark (by decide) (by decide) h (afterBracketedIri?_eq_none (by decide) t)
    fun _ _ hmem ↦ (of_mem_operators hmem).1.2.2 rfl

theorem mem_lexemes_of_open {t : Text} (h : afterString? ('"' :: t) = none) :
    .plain ['"'] ∈ lexemes ('"' :: t) := by
  rw [lexemes_of_open h]
  exact List.mem_cons_self

theorem lexemes_close (u : Text) : lexemes ('>' :: u) = .plain ['>'] :: lexemes u ∨
    u.head? = some '=' ∧ ∃ l ∈ lexemes ('>' :: u), l.isTorn := by
  by_cases hhead : u.head? = some '='
  · obtain ⟨u, rfl⟩ := List.head?_eq_some_iff.mp hhead
    have hoperator : lexemes ('>' :: '=' :: u) = .plain ['>', '='] :: lexemes u :=
      lexemes_operator (by decide) (afterBracketedIri?_eq_none (by decide) _)
    refine .inr ⟨rfl, .plain ['>', '='], ?_, by decide⟩
    rw [hoperator]
    exact List.mem_cons_self
  · left
    refine lexemes_mark (by decide) (by decide) (afterString?_eq_none (by decide) u)
      (afterBracketedIri?_eq_none (by decide) u) fun d hd hmem ↦ hhead ?_
    obtain rfl : d = '=' := by simpa [operators] using hmem
    exact hd

/-- Up to a closing bracket the lexemes are those of what stands there by itself, if no string is
left open, and if the bracket is no part of an operator. -/
theorem lexemes_append_close {w : Text} (u : Text) (h : .plain ['"'] ∉ lexemes (w ++ ['>'])) :
    lexemes (w ++ ['>'] ++ u) = lexemes (w ++ ['>']) ++ lexemes u ∨
      u.head? = some '=' ∧ ∃ l ∈ lexemes (w ++ ['>'] ++ u), l.isTorn := by
  have hclose : lexemes ['>'] = [.plain ['>']] := by
    rcases lexemes_close [] with h | ⟨h, -⟩
    · rwa [lexemes_nil] at h
    · cases h
  induction hn : w.length using Nat.strong_induction_on generalizing w with
  | _ n ih =>
      cases w with
      | nil =>
          rw [List.nil_append, hclose]
          exact lexemes_close u
      | cons c w =>
          have hstring : c = '"' → afterString? (c :: (w ++ ['>'])) ≠ none := by
            rintro rfl hnone
            exact h (mem_lexemes_of_open hnone)
          have hnext := nextLexeme?_append (u := u) hstring
          rw [List.cons_append] at h ⊢
          cases hown : nextLexeme? (c :: (w ++ ['>'])) with
          | none =>
              rw [hown] at hnext
              have hrest := ih w.length (by simp [← hn]) (lexemes_of_none hown ▸ h) rfl
              have hmore : lexemes (c :: (w ++ ['>'] ++ u)) = lexemes (w ++ ['>'] ++ u) :=
                lexemes_of_none hnext
              rwa [lexemes_of_none hown, List.cons_append, hmore]
          | some next =>
              obtain ⟨l, rest⟩ := next
              rw [hown] at hnext
              rw [lexemes_of_next hown] at h
              rw [lexemes_of_next hown, lexemes_of_next hnext]
              obtain ⟨happend, hne⟩ := append_of_nextLexeme? hown
              have hpos := List.length_pos_iff.mpr hne
              have hrest : .plain ['"'] ∉ lexemes rest := fun hmem ↦ h (List.mem_cons_of_mem l hmem)
              rcases List.eq_nil_or_concat rest with rfl | ⟨w', c', hconcat⟩
              · left
                rw [lexemes_nil, List.nil_append, List.singleton_append]
              · rw [List.concat_eq_append] at hconcat
                rw [hconcat, ← List.append_assoc, ← List.cons_append] at happend
                obtain ⟨hleft, hright⟩ := List.append_inj' happend rfl
                obtain rfl : '>' = c' := List.head_eq_of_cons_eq hright
                have hlength := congrArg List.length hleft
                rw [List.length_append] at hlength
                subst hconcat
                rcases ih w'.length (by omega) hrest rfl with heq | ⟨hhead, l', hl', htorn⟩
                · left
                  rw [heq, List.cons_append]
                · exact .inr ⟨hhead, l', List.mem_cons_of_mem l hl', htorn⟩

namespace Span

/-- No string that begins in the span is left open. -/
def Whole (s : Span) : Prop := .plain ['"'] ∉ lexemes s.text

/-- A quoted span without open strings is a string. -/
theorem Whole.afterString? {body : Text} (h : (quoted body).Whole) (hclosed : '"' ∉ body) :
    afterString? (quoted body).text = some [] := by
  cases hstring : SparqlComposer.afterString? (quoted body).text with
  | none =>
      exact absurd (mem_lexemes_of_open hstring) h
  | some rest =>
      obtain ⟨body', heq, hbody⟩ := afterString?_eq_some_iff.mp hstring
      obtain ⟨w, rfl, -⟩ := exists_of_afterStringBody? hbody
      rcases List.eq_nil_or_concat rest with rfl | ⟨rest', c, hconcat⟩
      · rfl
      · have htail : body ++ ['"'] = w ++ '"' :: rest' ++ [c] := by
          rw [hconcat, List.concat_eq_append] at heq
          simpa [text] using heq
        have hbody := (List.append_inj' htail rfl).1
        exact absurd (hbody ▸ List.mem_append_right w List.mem_cons_self) hclosed

/-- The lexemes of a span are those of its text, whatever follows it but an equals sign. -/
theorem lexemes_append {s : Span} (hclosed : s.Closed) (h : s.Whole) (u : Text) :
    lexemes (s.text ++ u) = lexemes s.text ++ lexemes u ∨
      u.head? = some '=' ∧ ∃ l ∈ lexemes (s.text ++ u), l.isTorn := by
  cases s with
  | bracketed body => exact lexemes_append_close (w := '<' :: body) u h
  | quoted body =>
      left
      have hstring := h.afterString? hclosed
      have hmore := lexemes_string (afterString?_append hstring u)
      have hself := lexemes_string (afterString?_append hstring [])
      rw [List.append_nil, lexemes_nil] at hself
      rw [hself]
      exact hmore

end Span

end SparqlComposer
