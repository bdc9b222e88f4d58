import SparqlComposer.Proofs.Layout.Between
import SparqlComposer.Proofs.Span.Escape

/-!
# Lines

A line of a text is told with all that stands in front of it, where its depth can be counted. The
lines of a layout start with a token of the text, and what a token asks for is told by the text that
it starts.
-/

namespace SparqlComposer

/-! ## Lines and braces of a text -/

/-- A line of a text, and all that stands in front of it. Behind the last line break there is no
line. -/
structure IsLine (t before line : Text) : Prop where
  starts : ∀ c ∈ before.getLast?, c = '\n'
  unbroken : '\n' ∉ line
  ends : ∃ after, t = before ++ line ++ '\n' :: after

/-- A line that is not the first one stands behind a line break. -/
theorem IsLine.exists_break {t before line : Text} (h : IsLine t before line)
    (hne : before ≠ []) :
    ∃ b after, before = b ++ ['\n'] ∧ t = b ++ '\n' :: (line ++ '\n' :: after) := by
  obtain ⟨after, hends⟩ := h.ends
  have hlast : before.getLast hne = '\n' :=
    h.starts _ (List.getLast?_eq_some_getLast hne)
  have hbefore : before = before.dropLast ++ ['\n'] := by
    rw [← hlast, List.dropLast_concat_getLast]
  refine ⟨before.dropLast, after, hbefore, ?_⟩
  rw [hends, List.append_assoc]
  nth_rewrite 1 [hbefore]
  rw [List.append_assoc, List.singleton_append]

/-- How many more braces a text opens than it closes. -/
def braceDepth (t : Text) : Int := t.count '{' - t.count '}'

/-- The last character that is no blank. -/
def lastInk (t : Text) : Option Char := (t.filter (!isBlank ·)).getLast?

/-- The word that a text starts with, which is empty when it starts with another character. -/
def leadingWord (t : Text) : Text := t.takeWhile isWord

theorem braceDepth_append (t u : Text) : braceDepth (t ++ u) = braceDepth t + braceDepth u := by
  simp only [braceDepth, List.count_append]
  omega

theorem braceDepth_eq_zero {t : Text} (hopen : '{' ∉ t) (hclose : '}' ∉ t) : braceDepth t = 0 := by
  rw [braceDepth, List.count_eq_zero.mpr hopen, List.count_eq_zero.mpr hclose]
  rfl

theorem braceDepth_append_blanks (t : Text) {blanks : Text} (h : ∀ c ∈ blanks, isBlank c) :
    braceDepth (t ++ blanks) = braceDepth t := by
  have hnone : ∀ c, ¬ isBlank c → c ∉ blanks := fun c hc hmem ↦ hc (h c hmem)
  have hzero := braceDepth_eq_zero (hnone '{' (by decide)) (hnone '}' (by decide))
  rw [braceDepth_append, hzero, Int.add_zero]

theorem lastInk_append_blanks (t : Text) {blanks : Text} (h : ∀ c ∈ blanks, isBlank c) :
    lastInk (t ++ blanks) = lastInk t := by
  have hnone : blanks.filter (!isBlank ·) = [] := by
    rw [List.filter_eq_nil_iff]
    intro c hc
    simp [h c hc]
  rw [lastInk, List.filter_append, hnone, List.append_nil, lastInk]

theorem lastInk_append (t : Text) {u : Text} {c : Char} (hlast : u.getLast? = some c)
    (hc : ¬ isBlank c) : lastInk (t ++ u) = some c := by
  obtain ⟨v, rfl⟩ := List.getLast?_eq_some_iff.mp hlast
  have hkept : [c].filter (!isBlank ·) = [c] := by simp [hc]
  rw [lastInk, ← List.append_assoc, List.filter_append, hkept, List.getLast?_concat]

/-- A line break of two texts stands in the first or in the second. -/
theorem append_eq_break {t u b w : Text} (h : t ++ u = b ++ '\n' :: w) :
    (∃ w', t = b ++ '\n' :: w' ∧ w = w' ++ u) ∨ ∃ b', b = t ++ b' ∧ u = b' ++ '\n' :: w := by
  rcases List.append_eq_append_iff.mp h with ⟨b', hb, hu⟩ | ⟨w', ht, hw⟩
  · exact .inr ⟨b', hb, hu⟩
  · cases w' with
    | nil => exact .inr ⟨[], by simpa using ht.symm, hw.symm⟩
    | cons c w' =>
        obtain ⟨rfl, rfl⟩ := List.cons.inj hw
        exact .inl ⟨w', ht, rfl⟩

namespace Layout

/-! ## Texts of pieces -/

/-- The text of a piece with its span hidden. -/
def Piece.hidden (i : Piece) : Text := i.segments.flatMap Segment.hidden

theorem Piece.hidden_token (t : Token) : (token t).hidden = t.text := by
  rw [hidden, segments, List.flatMap_map]
  exact List.flatMap_singleton' t.text

theorem Piece.hidden_span (s : Span) : (span s).hidden = s.key := List.append_nil s.key

/-- What a layout writes for its first piece, and what comes behind it. -/
theorem hidden_laid_cons (p : Place) (b : Bool) (i : Piece) (v : Pieces) :
    (laid p ((b, i) :: v)).flatMap Segment.hidden =
      (p.behind b).lead i.first ++
        (i.hidden ++ (laid (p.after i.last) v).flatMap Segment.hidden) := by
  rw [laid, List.flatMap_append, List.flatMap_append, List.flatMap_map, List.append_assoc]
  exact congrArg (· ++ _) (List.flatMap_singleton' _)

namespace Piece.Regular

variable {i : Piece} (h : i.Regular)

include h

theorem not_isBlank_of_mem_hidden {c : Char} (hc : c ∈ i.hidden) : ¬ isBlank c := by
  cases i with
  | span s =>
      have hmarks : ¬ isBlank '<' ∧ ¬ isBlank '>' := by decide
      rw [hidden_span] at hc
      rcases Span.of_mem_key hc with hword | rfl | rfl
      · exact not_isBlank_of_isWord hword
      · exact hmarks.1
      · exact hmarks.2
  | token t =>
      rw [hidden_token] at hc
      cases t with
      | word w => exact not_isBlank_of_isWord (h.2 c hc)
      | mark d =>
          obtain rfl := List.mem_singleton.mp hc
          exact h.1

/-- The last character tells whether the piece is a semicolon. -/
theorem exists_getLast?_hidden :
    ∃ c, i.hidden.getLast? = some c ∧ (c = ';' ↔ i.last = .mark ';') := by
  cases i with
  | span s =>
      have hend : '>' ≠ ';' ∧ Token.mark '>' ≠ .mark ';' := by decide
      refine ⟨'>', ?_, iff_of_false hend.1 hend.2⟩
      rw [hidden_span]
      exact List.getLast?_concat
  | token t =>
      rw [hidden_token]
      cases t with
      | mark c => exact ⟨c, rfl, (Token.mark.injEq c ';').symm ▸ Iff.rfl⟩
      | word w =>
          refine ⟨w.getLast h.1, List.getLast?_eq_some_getLast h.1, iff_of_false ?_ ?_⟩
          · intro heq
            have hword := h.2 _ (List.getLast_mem h.1)
            rw [heq] at hword
            exact absurd hword (by decide)
          · exact fun heq ↦ nomatch heq

/-- The depth of a layout counts the braces that are written. -/
theorem depth_after (p : Place) : (p.after i.last).depth = p.depth + braceDepth i.hidden := by
  cases i with
  | span s =>
      have hnone : ∀ c, ¬ (isWord c ∨ c = '<' ∨ c = '>') → c ∉ s.key :=
        fun c hc hmem ↦ hc (Span.of_mem_key hmem)
      have hzero := braceDepth_eq_zero (hnone '{' (by decide)) (hnone '}' (by decide))
      rw [hidden_span, hzero, Int.add_zero]
      rfl
  | token t =>
      rw [hidden_token]
      cases t with
      | word w =>
          have hnone : ∀ c, ¬ isWord c → c ∉ w := fun c hc hmem ↦ hc (h.2 c hmem)
          have hzero := braceDepth_eq_zero (hnone '{' (by decide)) (hnone '}' (by decide))
          rw [Token.text, hzero, Int.add_zero]
          rfl
      | mark c =>
          by_cases hopen : c = '{'
          · subst hopen
            rfl
          · by_cases hclose : c = '}'
            · subst hclose
              rfl
            · have hzero := braceDepth_eq_zero (t := [c]) (by simpa using Ne.symm hopen)
                (by simpa using Ne.symm hclose)
              have hopen' : Piece.last (.token (.mark c)) ≠ .mark '{' :=
                fun heq ↦ hopen (Token.mark.inj heq)
              have hclose' : Piece.last (.token (.mark c)) ≠ .mark '}' :=
                fun heq ↦ hclose (Token.mark.inj heq)
              rw [Token.text, hzero, Int.add_zero, Place.after, if_neg hopen', Place.depthAt,
                if_neg hclose']

end Piece.Regular

/-! ## The start of a line and its first token -/

/-- A text tells what the token that it starts with asks for. -/
structure Leads (t : Token) (content : Text) : Prop where
  head : ∃ c, content.head? = some c ∧ ¬ isBlank c
  startsLine_eq :
    startsLine t = (lineWords.contains (leadingWord content) || content.head? == some '}')
  select_iff : t = .word "SELECT".toList ↔ leadingWord content = "SELECT".toList
  close_iff : t = .mark '}' ↔ content.head? = some '}'

theorem leads_mark {c : Char} {content : Text} (hhead : content.head? = some c)
    (hblank : ¬ isBlank c) (hword : ¬ isWord c) : Leads (.mark c) content := by
  obtain ⟨rest, rfl⟩ := List.head?_eq_some_iff.mp hhead
  have hnone : leadingWord (c :: rest) = [] := List.takeWhile_cons_of_neg hword
  have hempty : lineWords.contains [] = false ∧ [] ≠ "SELECT".toList := by decide
  refine ⟨⟨c, rfl, hblank⟩, ?_, ?_, ?_⟩
  · rw [hnone, hempty.1, Bool.false_or, List.head?_cons]
    exact (Option.some_beq_some ..).symm
  · exact iff_of_false (fun heq ↦ nomatch heq) (hnone ▸ hempty.2)
  · simp

theorem leads_word {w rest : Text} (hne : w ≠ []) (hw : ∀ c ∈ w, isWord c)
    (hrest : ∀ c ∈ rest.head?, ¬ isWord c) : Leads (.word w) (w ++ rest) := by
  obtain ⟨c, cs, rfl⟩ := List.exists_cons_of_ne_nil hne
  have hc := hw c List.mem_cons_self
  have hclose : c ≠ '}' := by
    rintro rfl
    exact absurd hc (by decide)
  have hleading : leadingWord (c :: cs ++ rest) = c :: cs := takeWhile_append_word hw hrest
  refine ⟨⟨c, rfl, not_isBlank_of_isWord hc⟩, ?_, ?_, ?_⟩
  · rw [hleading]
    simp [startsLine, hclose]
  · rw [hleading, Token.word.injEq]
  · simp [hclose]

theorem Piece.Regular.leads {i : Piece} (h : i.Regular) {rest : Text}
    (hrest : i.IsWord → ∀ c ∈ rest.head?, ¬ isWord c) : Leads i.first (i.hidden ++ rest) := by
  cases i with
  | span s =>
      rw [hidden_span]
      exact leads_mark rfl (by decide) (by decide)
  | token t =>
      rw [hidden_token]
      cases t with
      | mark c => exact leads_mark rfl h.1 h.2
      | word w => exact leads_word h.1 h.2 (hrest trivial)

/-- Behind a word, what is written next starts with no word character. -/
theorem not_isWord_head_laid {p : Place} {v : Pieces} (hv : v.Regular) (hstart : ¬ v.StartsInWord)
    (hlast : p.last ≠ some (.mark '(')) :
    ∀ c ∈ ((laid p v).flatMap Segment.hidden).head?, ¬ isWord c := by
  cases v with
  | nil =>
      intro c hc
      obtain rfl := Option.some.inj hc
      decide
  | cons head v =>
      obtain ⟨b, i⟩ := head
      rw [hidden_laid_cons]
      cases hlead : (p.behind b).lead i.first with
      | cons d lead =>
          intro c hc
          obtain rfl := Option.some.inj hc
          have hblank : isBlank d := isBlank_of_mem_lead (hlead ▸ List.mem_cons_self)
          rw [isWord_of_isBlank hblank]
          exact Bool.false_ne_true
      | nil =>
          -- Without a gap there were no blanks either, so the next piece is no word.
          have hgap := lead_eq_nil_iff.mp hlead
          cases b with
          | true =>
              have hsome := isSome_gapBefore (t := i.first) (isSome_gap_afterBlank hlast) hlast
              rw [Place.behind, if_pos rfl] at hgap
              rw [hgap] at hsome
              exact absurd hsome Bool.false_ne_true
          | false =>
              obtain ⟨hi, -, -⟩ := hv
              cases i with
              | span s =>
                  intro c hc
                  obtain rfl := Option.some.inj hc
                  decide
              | token t =>
                  cases t with
                  | word w => exact absurd trivial hstart
                  | mark d =>
                      intro c hc
                      obtain rfl := Option.some.inj hc
                      exact hi.2

/-- A line of a layout starts with the first token of its piece. -/
theorem leads_laid {b : Bool} {i : Piece} {v : Pieces} (h : Pieces.Regular ((b, i) :: v))
    (p : Place) :
    Leads i.first (i.hidden ++ (laid (p.after i.last) v).flatMap Segment.hidden) := by
  obtain ⟨hi, hjoin, hv⟩ := h
  apply hi.leads
  intro hword
  refine not_isWord_head_laid hv (hjoin hword) ?_
  cases i with
  | span s => exact hword.elim
  | token t =>
      cases t with
      | mark c => exact hword.elim
      | word w =>
          intro heq
          cases heq

end Layout

end SparqlComposer
