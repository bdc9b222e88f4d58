import SparqlComposer.Proofs.Lexeme.Layout
import SparqlComposer.Proofs.Session.Render

/-!
# Lexemes of formatted texts

Formatting writes a space in front of every equals sign and every point, and leaves two other marks
that stand together as they are. So it keeps the lexemes of a text but for those in which an equals
sign or a point stands behind another character: these it tears apart.
-/

namespace SparqlComposer

namespace Layout

/-- A mark that asks for a space gets one, but for one behind an opening parenthesis. -/
theorem isSome_gapBefore_spaced {p : Place} {c : Char} (hspaced : isSpaced (.mark c))
    (hlast : p.last.isSome) (hopen : p.last ≠ some (.mark '(')) :
    (p.gapBefore (.mark c)).isSome := by
  have hstart : ¬ (p.last.isNone && p.gap.isNone) := by
    rw [Option.isNone_eq_false_iff.mpr hlast, Bool.false_and]
    exact Bool.false_ne_true
  rw [gapBefore_eq hstart]
  split
  · rw [Place.spaceAfter, if_neg hopen]
    rfl
  · rename_i hline
    rw [hspaced, Bool.and_true] at hline
    simp only [Bool.or_eq_true, bne_iff_ne, not_or, not_not] at hline
    rw [hline.2]
    rfl

theorem apart_regapped (p : Place) (v : Pieces) : (regapped p v).Apart := by
  induction v generalizing p with
  | nil => trivial
  | cons head v ih =>
      obtain ⟨b, i⟩ := head
      refine ⟨fun c hc hhead ↦ ?_, ih _⟩
      cases v with
      | nil => cases hhead
      | cons head' v =>
          obtain ⟨b', i'⟩ := head'
          obtain ⟨hflag, rfl⟩ := Prod.mk.inj (Option.some.inj hhead)
          by_contra hlast
          have hspaced : ∀ c ∈ ['=', '.'], isSpaced (.mark c) :=
            List.all_iff_forall_prop.mp (by decide)
          have hopen : (p.after i.last).last ≠ some (.mark '(') := fun heq ↦
            hlast (Option.some.inj heq)
          have hsome : (((p.after i.last).behind b').gapBefore (.mark c)).isSome := by
            cases b' with
            | true => exact isSome_gapBefore_spaced (hspaced c hc) rfl hopen
            | false => exact isSome_gapBefore_spaced (hspaced c hc) rfl hopen
          exact Bool.false_ne_true (hflag.symm.trans hsome)

theorem Pieces.lexemes_mark {b : Bool} {c : Char} {v : Pieces}
    (h : ∀ d w, v = (false, .token (.mark d)) :: w → [c, d] ∉ operators) :
    Pieces.lexemes ((b, .token (.mark c)) :: v) = .plain [c] :: v.lexemes := by
  match v with
  | [] => rfl
  | (true, .token (.mark _)) :: _ => rfl
  | (b', .token (.word _)) :: _ => cases b' <;> rfl
  | (b', .span _) :: _ => cases b' <;> rfl
  | (false, .token (.mark d)) :: w =>
      rw [Pieces.lexemes, if_neg fun hmem ↦ h d w rfl (List.contains_iff_mem.mp hmem)]

theorem gapBefore_operator {c d : Char} (h : [c, d] ∈ operators)
    (htorn : ¬ (Lexeme.plain [c, d]).isTorn) (p : Place) :
    (p.after (.mark c)).gapBefore (.mark d) = none := by
  have hall : ∀ o ∈ operators, ¬ (Lexeme.plain o).isTorn →
      Place.gapAfter (.mark (o.getD 0 ' ')) = none ∧ startsLine (.mark (o.getD 1 ' ')) = false ∧
        isSpaced (.mark (o.getD 1 ' ')) = false := by decide
  obtain ⟨hgap, hline, hspaced⟩ := hall _ h htorn
  exact lead_eq_nil_iff.mp (lead_eq_nil hgap hline hspaced nofun nofun)

theorem map_snd_regapped (p : Place) (v : Pieces) :
    (regapped p v).map Prod.snd = v.map Prod.snd := by
  induction v generalizing p with
  | nil => rfl
  | cons head v ih => exact congrArg (head.2 :: ·) (ih _)

theorem mem_spans_of_mem_ofSegments {s : Span} {ss : List Segment}
    (h : .span s ∈ (Pieces.ofSegments ss).map Prod.snd) : s ∈ spans ss := by
  obtain ⟨⟨b, i⟩, hmem, rfl⟩ := List.mem_map.mp h
  rw [← spans_ink, ← Pieces.segments_ofSegments]
  exact List.mem_filterMap.mpr ⟨_, List.mem_flatMap.mpr ⟨_, hmem, List.mem_singleton_self _⟩, rfl⟩

/-- Layout changes the lexemes of pieces only where one is torn. -/
theorem lexemes_regapped {v : Pieces} (p : Place) (h : ∀ l ∈ v.lexemes, ¬ l.isTorn) :
    (regapped p v).lexemes = v.lexemes := by
  fun_induction Pieces.lexemes v generalizing p with
  | case1 => rfl
  | case2 b s v ih =>
      have hrest := ih (p.after (.mark '>')) fun l hl ↦ h l (List.mem_append_right _ hl)
      exact congrArg (lexemes s.text ++ ·) hrest
  | case3 b w v ih =>
      have hrest := ih (p.after (.word w)) fun l hl ↦ h l (List.mem_cons_of_mem _ hl)
      exact congrArg (Lexeme.plain w :: ·) hrest
  | case4 b c d v hoperator ih =>
      have hmem := List.contains_iff_mem.mp hoperator
      have hgap := gapBefore_operator hmem (h _ List.mem_cons_self) p
      have hrest := ih ((p.after (.mark c)).after (.mark d)) fun l hl ↦
        h l (List.mem_cons_of_mem _ hl)
      have hpieces : regapped p ((b, .token (.mark c)) :: (false, .token (.mark d)) :: v) =
          (((p.behind b).gapBefore (.mark c)).isSome, .token (.mark c)) ::
            (((p.after (.mark c)).gapBefore (.mark d)).isSome, .token (.mark d)) ::
              regapped ((p.after (.mark c)).after (.mark d)) v := rfl
      rw [hpieces, hgap, Option.isSome_none, Pieces.lexemes, if_pos hoperator, hrest]
  | case5 b c d v hoperator ih =>
      have hrest := ih (p.after (.mark c)) fun l hl ↦ h l (List.mem_cons_of_mem _ hl)
      rw [regapped, Pieces.lexemes_mark, Piece.last, hrest]
      intro d' w heq
      obtain ⟨-, hd⟩ := Prod.mk.inj (List.head_eq_of_cons_eq heq)
      obtain rfl : d = d' := Token.mark.inj (Piece.token.inj hd)
      exact fun hmem ↦ hoperator (List.contains_iff_mem.mpr hmem)
  | case6 b c v hnext ih =>
      have hrest := ih (p.after (.mark c)) fun l hl ↦ h l (List.mem_cons_of_mem _ hl)
      rw [regapped, Pieces.lexemes_mark, Piece.last, hrest]
      intro d w heq hoperator
      have hopen : ∀ o ∈ operators, o.head? ≠ some '(' := by decide
      have hlast : (p.after (.mark c)).last ≠ some (.mark '(') := fun heq ↦
        hopen _ hoperator (congrArg some (Token.mark.inj (Option.some.inj heq)))
      cases v with
      | nil => cases heq
      | cons head v =>
          obtain ⟨b', i⟩ := head
          cases b' with
          | false =>
              obtain ⟨-, rfl⟩ := Prod.mk.inj (List.head_eq_of_cons_eq heq)
              exact hnext d v rfl
          | true =>
              obtain ⟨hflag, -⟩ := Prod.mk.inj (List.head_eq_of_cons_eq heq)
              have hsome := isSome_gapBefore (t := i.first) (isSome_gap_afterBlank hlast) hlast
              exact Bool.false_ne_true (hflag.symm.trans hsome)

/-- Outside the spans nothing is torn in pieces that are set apart. -/
theorem not_isTorn_of_apart {v : Pieces} (hregular : v.Regular) (hapart : v.Apart)
    (hspans : ∀ s, Piece.span s ∈ v.map Prod.snd → ∀ l ∈ lexemes s.text, ¬ l.isTorn) :
    ∀ l ∈ v.lexemes, ¬ l.isTorn := by
  have htail {head : Bool × Piece} {v : Pieces}
      (h : ∀ s, Piece.span s ∈ (head :: v).map Prod.snd → ∀ l ∈ lexemes s.text, ¬ l.isTorn) :
      ∀ s, Piece.span s ∈ v.map Prod.snd → ∀ l ∈ lexemes s.text, ¬ l.isTorn :=
    fun s hs ↦ h s (List.mem_cons_of_mem _ hs)
  have hmark (c : Char) : ¬ (Lexeme.plain [c]).isTorn := Bool.false_ne_true
  fun_induction Pieces.lexemes v with
  | case1 => exact List.forall_mem_nil _
  | case2 b s v ih =>
      intro l hl
      rcases List.mem_append.mp hl with hl | hl
      · exact hspans s List.mem_cons_self l hl
      · exact ih hregular.2.2 hapart.2 (htail hspans) l hl
  | case3 b w v ih =>
      have hword : ¬ (Lexeme.plain w).isTorn := by
        have hnot (c : Char) (hc : ¬ isWord c) : c ∉ w.tail := fun hmem ↦
          hc (hregular.1.2 c (List.mem_of_mem_tail hmem))
        simp [Lexeme.isTorn, hnot '=' (by decide), hnot '.' (by decide)]
      exact List.forall_mem_cons.mpr ⟨hword, ih hregular.2.2 hapart.2 (htail hspans)⟩
  | case4 b c d v hoperator ih =>
      have hjoined : ¬ (Lexeme.plain [c, d]).isTorn := by
        have hopen : ∀ o ∈ operators, o.head? ≠ some '(' := by decide
        intro htorn
        have hlast : Token.mark c = .mark '(' := by
          obtain rfl | rfl : '=' = d ∨ '.' = d := by simpa [Lexeme.isTorn] using htorn
          · exact hapart.1 '=' (by decide) rfl
          · exact hapart.1 '.' (by decide) rfl
        exact hopen _ (List.contains_iff_mem.mp hoperator)
          (congrArg some (Token.mark.inj hlast))
      exact List.forall_mem_cons.mpr
        ⟨hjoined, ih hregular.2.2.2.2 hapart.2.2 (htail (htail hspans))⟩
  | case5 b c d v hoperator ih =>
      exact List.forall_mem_cons.mpr ⟨hmark c, ih hregular.2.2 hapart.2 (htail hspans)⟩
  | case6 b c v hnext ih =>
      exact List.forall_mem_cons.mpr ⟨hmark c, ih hregular.2.2 hapart.2 (htail hspans)⟩

end Layout

open SparqlComposer.Layout

/-! ## Formatted texts -/

section Formatted

variable {t : Text}

theorem lexemes_formatted (h : Restorable t) (hwhole : ∀ s ∈ spans (segments t), s.Whole) :
    lexemes (formatted t) = (regapped Place.start (Pieces.ofSegments (segments t))).lexemes := by
  have hlegible : Legible (formattedSegments t) := by
    refine ⟨cut_formattedSegments t, ?_⟩
    rwa [spans_formattedSegments]
  rw [h.formatted_eq]
  exact lexemes_text (ofSegments_laid (Pieces.regular_ofSegments _) _) hlegible
    (.inl (apart_regapped _ _))

/-- Where nothing is torn in a text, it has the lexemes that it has when it is formatted. -/
theorem lexemes_formatted_eq (h : Restorable t) (hwhole : ∀ s ∈ spans (segments t), s.Whole)
    (htorn : ∀ l ∈ lexemes t, ¬ l.isTorn) : lexemes (formatted t) = lexemes t := by
  have htext := lexemes_text (v := Pieces.ofSegments (segments t)) rfl ⟨cut_segments t, hwhole⟩
    (.inr (by rwa [text_segments]))
  rw [text_segments] at htext
  rw [lexemes_formatted h hwhole, lexemes_regapped _ (htext ▸ htorn), htext]

/-- Nothing is torn in a formatted text, outside its spans. -/
theorem not_isTorn_of_mem_lexemes_formatted (h : Restorable t)
    (hwhole : ∀ s ∈ spans (segments t), s.Whole)
    (hspans : ∀ s ∈ spans (segments t), ∀ l ∈ lexemes s.text, ¬ l.isTorn) :
    ∀ l ∈ lexemes (formatted t), ¬ l.isTorn := by
  have hpieces : Pieces.ofSegments (formattedSegments t) =
      regapped Place.start (Pieces.ofSegments (segments t)) :=
    ofSegments_laid (Pieces.regular_ofSegments _) Place.start
  have hregular := hpieces ▸ Pieces.regular_ofSegments (formattedSegments t)
  rw [lexemes_formatted h hwhole]
  refine not_isTorn_of_apart hregular (apart_regapped _ _) fun s hs ↦ hspans s ?_
  rw [map_snd_regapped] at hs
  exact mem_spans_of_mem_ofSegments hs

end Formatted

/-- A query that is written can be formatted. Where spans come back for their keys and no span leaves a
string open, the formatted text has the lexemes of the written one if none of these is torn; and if
none is torn in a span, where it is hidden from the layout, then only if none is torn at all. -/
theorem Session.format_lexemes {s : Session} {q : QueryId} {t : Text}
    (hrender : (s.call (.query q .render [])).1 = .ok (.text t)) (hkeys : Restorable t)
    (hwhole : ∀ sp ∈ spans (segments t), sp.Whole) :
    ∃ f, (s.call (.query q .format [])).1 = .ok (.text f) ∧
      ((∀ l ∈ lexemes t, ¬ l.isTorn) → lexemes f = lexemes t) ∧
      ((∀ sp ∈ spans (segments t), ∀ l ∈ lexemes sp.text, ¬ l.isTorn) →
        lexemes f = lexemes t → ∀ l ∈ lexemes t, ¬ l.isTorn) := by
  refine ⟨formatted t, call_format hrender, lexemes_formatted_eq hkeys hwhole, ?_⟩
  intro hspans heq
  rw [← heq]
  exact not_isTorn_of_mem_lexemes_formatted hkeys hwhole hspans

/-- An inequality comes apart. -/
theorem Session.format_inequality : ∃ (s : Session) (t f : Text), s.Reachable ∧
    (s.call (.query 0 .render [])).1 = .ok (.text t) ∧
    (s.call (.query 0 .format [])).1 = .ok (.text f) ∧
    .plain "!=".toList ∈ lexemes t ∧ lexemes f ≠ lexemes t := by
  let a := Value.text "?a".toList
  let b := Value.text "?b".toList
  let calls : List Call := [.newQuery .null,
    .pattern (.query 0) .addTriple [a, .text "?p".toList, b],
    .pattern (.query 0) .filter [.text "?a != ?b".toList]]
  let s := empty.run calls
  let t : Text := "SELECT * WHERE \x7b ?a ?p ?b . FILTER (?a != ?b) \x7d".toList
  have hrender : (s.call (.query 0 .render [])).1 = .ok (.text t) :=
    call_render_of_toOption (by decide +kernel) (by decide +kernel)
  have hspans : spans (segments t) = [] := by decide +kernel
  have hkeys : Restorable t := KeysApart.restorable (hspans ▸ nofun)
  have hwhole : ∀ sp ∈ spans (segments t), sp.Whole := hspans ▸ nofun
  have htorn : .plain "!=".toList ∈ lexemes t := by decide +kernel
  obtain ⟨f, hf, -, hapart⟩ := format_lexemes hrender hkeys hwhole
  refine ⟨s, t, f, ⟨calls, rfl⟩, hrender, hf, htorn, fun heq ↦ ?_⟩
  exact hapart (hspans ▸ nofun) heq _ htorn (by decide)

end SparqlComposer
