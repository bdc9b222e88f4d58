import SparqlComposer.Proofs.Layout.Format
import SparqlComposer.Proofs.Lexeme.Span

/-!
# Lexemes of pieces

The pieces of a text are words, marks and spans, with the blanks between them. Its lexemes are told
by them: a word is a lexeme, two marks make an operator when no blanks stand between them, and a
span is read by itself. Only a number with a point, and a bracket in front of an equals sign, are put
together from more than that.
-/

namespace SparqlComposer

theorem afterString?_eq_none_of_not_mem {t : Text} (h : '"' ∉ t) :
    afterString? ('"' :: t) = none := by
  rw [Option.eq_none_iff_forall_ne_some]
  intro rest hrest
  obtain ⟨body, heq, hbody⟩ := afterString?_eq_some_iff.mp hrest
  obtain ⟨w, rfl, -⟩ := exists_of_afterStringBody? hbody
  rw [(List.cons.inj heq).2] at h
  exact h (List.mem_append_right w List.mem_cons_self)

theorem afterBracketedIri?_eq_none_of_not_mem {t : Text} (h : '>' ∉ t) :
    afterBracketedIri? ('<' :: t) = none := by
  rw [Option.eq_none_iff_forall_ne_some]
  intro rest hrest
  obtain ⟨r, heq⟩ := afterBracketedIri?_eq_some_iff.mp hrest
  rw [(List.cons.inj heq).2] at h
  exact h (List.mem_append_right r.text List.mem_cons_self)

namespace Layout

/-! ## Pieces in a text -/

section Segments

variable {ss : List Segment} {v : Pieces}

/-- Where the first piece stands in the text. -/
theorem exists_of_ofSegments {b : Bool} {i : Piece} (h : Pieces.ofSegments ss = (b, i) :: v) :
    ∃ blanks rest, ss = blanks ++ (i.segments ++ rest) ∧ (∀ seg ∈ blanks, seg.isBlank) ∧
      (b = false → blanks = []) ∧ Pieces.ofSegments rest = v := by
  induction ss generalizing b i v with
  | nil => cases h
  | cons seg ss ih =>
      cases seg with
      | span s =>
          obtain ⟨hhead, rfl⟩ := List.cons.inj h
          obtain ⟨-, rfl⟩ := Prod.mk.inj hhead
          exact ⟨[], ss, rfl, List.forall_mem_nil _, fun _ ↦ rfl, rfl⟩
      | plain c =>
          rw [Pieces.ofSegments] at h
          split at h
          · rename_i hblank
            cases hss : Pieces.ofSegments ss with
            | nil =>
                rw [hss] at h
                cases h
            | cons head v' =>
                obtain ⟨b', i'⟩ := head
                rw [hss] at h
                obtain ⟨hhead, rfl⟩ := List.cons.inj h
                obtain ⟨rfl, rfl⟩ := Prod.mk.inj hhead
                obtain ⟨blanks, rest, rfl, hblanks, -, hrest⟩ := ih hss
                refine ⟨.plain c :: blanks, rest, rfl, ?_, fun h ↦ absurd h (by decide), hrest⟩
                exact List.forall_mem_cons.mpr ⟨hblank, hblanks⟩
          · split at h
            · rename_i hword
              unfold Pieces.addToWord at h
              split at h
              · rename_i w v' hss
                obtain ⟨hhead, rfl⟩ := List.cons.inj h
                obtain ⟨-, rfl⟩ := Prod.mk.inj hhead
                obtain ⟨blanks, rest, rfl, -, hnone, hrest⟩ := ih hss
                obtain rfl := hnone rfl
                exact ⟨[], rest, rfl, List.forall_mem_nil _, fun _ ↦ rfl, hrest⟩
              · obtain ⟨hhead, rfl⟩ := List.cons.inj h
                obtain ⟨-, rfl⟩ := Prod.mk.inj hhead
                exact ⟨[], ss, rfl, List.forall_mem_nil _, fun _ ↦ rfl, rfl⟩
            · obtain ⟨hhead, rfl⟩ := List.cons.inj h
              obtain ⟨-, rfl⟩ := Prod.mk.inj hhead
              exact ⟨[], ss, rfl, List.forall_mem_nil _, fun _ ↦ rfl, rfl⟩

/-- The first character of a text is that of a piece. -/
theorem exists_ofSegments_mark {c : Char} (h : (ss.flatMap Segment.text).head? = some c)
    (hword : ¬ isWord c) (hblank : ¬ isBlank c) (hquote : c ≠ '"') (hbracket : c ≠ '<') :
    ∃ v, Pieces.ofSegments ss = (false, .token (.mark c)) :: v := by
  cases ss with
  | nil => cases h
  | cons seg ss =>
      cases seg with
      | plain d =>
          obtain rfl : d = c := Option.some.inj h
          exact ⟨_, ofSegments_mark hblank hword ss⟩
      | span s =>
          cases s with
          | quoted body => exact absurd (Option.some.inj h).symm hquote
          | bracketed body => exact absurd (Option.some.inj h).symm hbracket

theorem startsInWord_of_head {c : Char} (h : (ss.flatMap Segment.text).head? = some c)
    (hword : isWord c) : (Pieces.ofSegments ss).StartsInWord := by
  cases ss with
  | nil => cases h
  | cons seg ss =>
      cases seg with
      | plain d =>
          obtain rfl : d = c := Option.some.inj h
          rw [Pieces.ofSegments, if_neg (not_isBlank_of_isWord hword), if_pos hword]
          unfold Pieces.addToWord
          split <;> trivial
      | span s =>
          exfalso
          cases s with
          | quoted body =>
              obtain rfl : '"' = c := Option.some.inj h
              exact absurd hword (by decide)
          | bracketed body =>
              obtain rfl : '<' = c := Option.some.inj h
              exact absurd hword (by decide)

end Segments

/-! ## Lexemes of pieces -/

/-- The lexemes of pieces. Two marks make an operator when no blanks stand between them, and numbers
with a point are not put together. -/
def Pieces.lexemes : Pieces → List Lexeme
  | [] => []
  | (_, .span s) :: v => SparqlComposer.lexemes s.text ++ lexemes v
  | (_, .token (.word w)) :: v => .plain w :: lexemes v
  | (_, .token (.mark c)) :: (false, .token (.mark d)) :: v =>
      if operators.contains [c, d] then .plain [c, d] :: lexemes v
      else .plain [c] :: lexemes ((false, .token (.mark d)) :: v)
  | (_, .token (.mark c)) :: v => .plain [c] :: lexemes v

/-- Blanks stand in front of every equals sign and every point, but for those behind an opening
parenthesis and at the start. -/
def Pieces.Apart : Pieces → Prop
  | [] => True
  | (_, i) :: v => (∀ c ∈ ['=', '.'], (false, .token (.mark c)) ∈ v.head? → i.last = .mark '(') ∧
      Apart v

theorem lexemes_blanks {blanks : List Segment} (h : ∀ seg ∈ blanks, seg.isBlank)
    (ss : List Segment) : lexemes ((blanks ++ ss).flatMap Segment.text) =
      lexemes (ss.flatMap Segment.text) := by
  induction blanks with
  | nil => rfl
  | cons seg blanks ih =>
      have hrest := ih fun seg' hseg' ↦ h seg' (List.mem_cons_of_mem seg hseg')
      cases seg with
      | plain c => exact (lexemes_blank (h _ List.mem_cons_self) _).trans hrest
      | span s => cases h _ List.mem_cons_self

/-- The text of a mark opens neither a string nor an IRI. -/
theorem of_cut_mark {c : Char} {ss : List Segment} (h : Cut (.plain c :: ss)) :
    afterString? (c :: ss.flatMap Segment.text) = none ∧
      afterBracketedIri? (c :: ss.flatMap Segment.text) = none := by
  constructor
  · by_cases hquote : c = '"'
    · rw [hquote]
      exact afterString?_eq_none_of_not_mem (h.1.1 hquote)
    · exact afterString?_eq_none hquote _
  · by_cases hbracket : c = '<'
    · rw [hbracket]
      exact afterBracketedIri?_eq_none_of_not_mem (h.1.2 hbracket)
    · exact afterBracketedIri?_eq_none hbracket _

/-- The segments are those of a text, and no string is left open in a span. -/
structure Legible (ss : List Segment) : Prop where
  cut : Cut ss
  whole : ∀ s ∈ spans ss, s.Whole

theorem Legible.right {ss ss' : List Segment} (h : Legible (ss ++ ss')) : Legible ss' := by
  refine ⟨h.cut.right, fun s hs ↦ h.whole s ?_⟩
  rw [spans, List.filterMap_append]
  exact List.mem_append_right _ hs

theorem Legible.tail {seg : Segment} {ss : List Segment} (h : Legible (seg :: ss)) : Legible ss :=
  @Legible.right [seg] ss h

/-- Nothing is torn in the text, or layout has torn it apart already. -/
def Untorn (v : Pieces) (t : Text) : Prop := v.Apart ∨ ∀ l ∈ lexemes t, ¬ l.isTorn

theorem Untorn.tail {head : Bool × Piece} {v : Pieces} {t rest : Text} {ls : List Lexeme}
    (h : Untorn (head :: v) t) (heq : lexemes t = ls ++ lexemes rest) : Untorn v rest :=
  h.imp And.right fun hnot l hl ↦ hnot l (heq ▸ List.mem_append_right ls hl)

theorem Untorn.tail_of_cons {head : Bool × Piece} {v : Pieces} {t rest : Text} {l : Lexeme}
    (h : Untorn (head :: v) t) (heq : lexemes t = l :: lexemes rest) : Untorn v rest :=
  @Untorn.tail head v t rest [l] h heq

/-- No lexeme is torn at an equals sign or a point that stands right behind a piece. -/
theorem Untorn.not_exists {b : Bool} {i : Piece} {ss : List Segment} {t : Text} {c : Char}
    (h : Untorn ((b, i) :: Pieces.ofSegments ss) t) (hlast : i.last ≠ .mark '(')
    (hc : c ∈ ['=', '.']) (hhead : (ss.flatMap Segment.text).head? = some c) :
    ¬ ∃ l ∈ lexemes t, l.isTorn := by
  rintro ⟨l, hl, htorn⟩
  rcases h with ⟨hapart, -⟩ | hnot
  · have hmarks : ∀ c ∈ ['=', '.'], ¬ isWord c ∧ ¬ isBlank c ∧ c ≠ '"' ∧ c ≠ '<' :=
      List.all_iff_forall_prop.mp (by decide)
    obtain ⟨hword, hblank, hquote, hbracket⟩ := hmarks c hc
    obtain ⟨v, hv⟩ := exists_ofSegments_mark hhead hword hblank hquote hbracket
    rw [hv] at hapart
    exact hlast (hapart c hc rfl)
  · exact hnot l hl htorn

/-- The lexemes of a text are those of its pieces, if none is torn. -/
theorem lexemes_text {v : Pieces} {ss : List Segment} (hv : Pieces.ofSegments ss = v)
    (hss : Legible ss) (h : Untorn v (ss.flatMap Segment.text)) :
    lexemes (ss.flatMap Segment.text) = v.lexemes := by
  have hregular := Pieces.regular_ofSegments ss
  fun_induction Pieces.lexemes v generalizing ss with
  | case1 =>
      have hink : ink ss = [] := by
        rw [← Pieces.segments_ofSegments, hv]
        rfl
      have hblanks : ∀ seg ∈ ss, seg.isBlank := by simpa [ink] using hink
      have hnil := lexemes_blanks hblanks []
      rwa [List.append_nil, List.flatMap_nil, lexemes_nil] at hnil
  | case2 b s v ih =>
      obtain ⟨blanks, rest, rfl, hblanks, -, rfl⟩ := exists_of_ofSegments hv
      rw [Untorn, lexemes_blanks hblanks] at h
      rw [lexemes_blanks hblanks]
      have hspan : Legible (.span s :: rest) := hss.right
      rcases Span.lexemes_append hspan.cut.1 (hspan.whole s List.mem_cons_self)
        (rest.flatMap Segment.text) with heq | ⟨hhead, htorn⟩
      · have hrest := ih rfl hspan.tail (Untorn.tail h heq)
          (Pieces.regular_ofSegments rest)
        exact heq.trans (congrArg (lexemes s.text ++ ·) hrest)
      · exact absurd htorn (Untorn.not_exists h (by simp [Piece.last]) (by decide) hhead)
  | case3 b w v ih =>
      rw [hv] at hregular
      obtain ⟨⟨hne, hw⟩, hjoin, -⟩ := hregular
      obtain ⟨blanks, rest, rfl, hblanks, -, rfl⟩ := exists_of_ofSegments hv
      rw [Untorn, lexemes_blanks hblanks, List.flatMap_append, Piece.segments,
        flatMap_text_plain] at h
      rw [lexemes_blanks hblanks, List.flatMap_append, Piece.segments, flatMap_text_plain]
      have hstart : ∀ c ∈ (rest.flatMap Segment.text).head?, ¬ isWord c :=
        fun c hc hword ↦ hjoin trivial (startsInWord_of_head hc hword)
      rcases lexemes_word hne hw hstart with heq | ⟨hhead, htorn⟩
      · have hrest := ih rfl hss.right.right (Untorn.tail_of_cons h heq)
          (Pieces.regular_ofSegments rest)
        exact heq.trans (congrArg (Lexeme.plain w :: ·) hrest)
      · exact absurd htorn (Untorn.not_exists h (by simp [Piece.last]) (by decide) hhead)
  | case4 b c d v hoperator ih =>
      obtain ⟨blanks, rest, rfl, hblanks, -, hrest⟩ := exists_of_ofSegments hv
      obtain ⟨blanks', rest', rfl, -, hnone, rfl⟩ := exists_of_ofSegments hrest
      obtain rfl := hnone rfl
      rw [Untorn, lexemes_blanks hblanks] at h
      rw [lexemes_blanks hblanks]
      have hmark : Legible (.plain c :: .plain d :: rest') := hss.right
      have hmem := List.contains_iff_mem.mp hoperator
      have heq := lexemes_operator hmem (of_cut_mark hmark.cut).2
      have htail : Untorn ((false, .token (.mark d)) :: Pieces.ofSegments rest') _ :=
        h.imp And.right id
      have hrest := ih rfl hmark.tail.tail
        (htail.tail_of_cons heq) (Pieces.regular_ofSegments rest')
      exact heq.trans (congrArg (Lexeme.plain [c, d] :: ·) hrest)
  | case5 b c d v hoperator ih =>
      rw [hv] at hregular
      obtain ⟨⟨hblank, hword⟩, -⟩ := hregular
      obtain ⟨blanks, rest, rfl, hblanks, -, hrest⟩ := exists_of_ofSegments hv
      obtain ⟨blanks', rest', rfl, -, hnone, rfl⟩ := exists_of_ofSegments hrest
      obtain rfl := hnone rfl
      rw [Untorn, lexemes_blanks hblanks] at h
      rw [lexemes_blanks hblanks]
      have hmark : Legible (.plain c :: .plain d :: rest') := hss.right
      obtain ⟨hstring, hiri⟩ := of_cut_mark hmark.cut
      have heq := lexemes_mark hword hblank hstring hiri fun e he hmem ↦ by
        obtain rfl : d = e := Option.some.inj he
        exact hoperator (List.contains_iff_mem.mpr hmem)
      have hrest := ih hrest hmark.tail (Untorn.tail_of_cons h heq)
        (Pieces.regular_ofSegments (.plain d :: rest'))
      exact heq.trans (congrArg (Lexeme.plain [c] :: ·) hrest)
  | case6 b c v hnext ih =>
      rw [hv] at hregular
      obtain ⟨⟨hblank, hword⟩, -⟩ := hregular
      obtain ⟨blanks, rest, rfl, hblanks, -, rfl⟩ := exists_of_ofSegments hv
      rw [Untorn, lexemes_blanks hblanks] at h
      rw [lexemes_blanks hblanks]
      have hmark : Legible (.plain c :: rest) := hss.right
      obtain ⟨hstring, hiri⟩ := of_cut_mark hmark.cut
      have heq := lexemes_mark hword hblank hstring hiri fun d hd hmem ↦ by
        obtain ⟨-, hword, hblank, hquote, hbracket⟩ := of_mem_operators hmem
        obtain ⟨v, hv⟩ := exists_ofSegments_mark hd hword hblank hquote hbracket
        exact hnext d v hv
      have hrest := ih rfl hmark.tail (Untorn.tail_of_cons h heq)
        (Pieces.regular_ofSegments rest)
      exact heq.trans (congrArg (Lexeme.plain [c] :: ·) hrest)

end Layout

end SparqlComposer
