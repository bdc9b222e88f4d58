import SparqlComposer.Layout.Parts
import SparqlComposer.Proofs.Layout.Gap

/-!
# Parts and places

Laying out a text from place to place comes to the same as writing its parts one after the other: the
place behind a token is all that the parts written so far have to say about those that follow. The
blank part at the end, if there is one, is the gap that is due.
-/

namespace SparqlComposer

namespace Layout

/-! ## Tokens and their texts -/

theorem isSpace_text_gap (g : Gap) : isSpace g.text := by cases g <;> rfl

theorem Piece.Regular.not_isBlank_of_mem_text {t : Token} (h : (Piece.token t).Regular) {c : Char}
    (hc : c ∈ t.text) : ¬ isBlank c :=
  Bool.eq_false_iff.mp (h.isBlank_eq (List.mem_map_of_mem hc))

theorem Piece.Regular.isSpace_text {t : Token} (h : (Piece.token t).Regular) :
    isSpace t.text = false := by
  rw [Bool.eq_false_iff]
  intro hspace
  obtain ⟨hne, hblank⟩ := Bool.and_eq_true_iff.mp hspace
  cases htext : t.text with
  | nil =>
      rw [htext] at hne
      cases hne
  | cons c cs =>
      have hc : c ∈ t.text := htext ▸ List.mem_cons_self
      exact h.not_isBlank_of_mem_text hc (List.all_eq_true.mp hblank c hc)

/-- A word is not taken for a mark, so that tokens are told apart by their texts. -/
theorem Piece.Regular.text_inj {t u : Token} (ht : (Piece.token t).Regular)
    (hu : (Piece.token u).Regular) (h : t.text = u.text) : t = u := by
  cases t with
  | word w =>
      cases u with
      | word v => exact congrArg Token.word h
      | mark c =>
          obtain rfl : w = [c] := h
          exact absurd (ht.2 c (List.mem_singleton_self c)) hu.2
  | mark c =>
      cases u with
      | word v =>
          obtain rfl : [c] = v := h
          exact absurd (hu.2 c (List.mem_singleton_self c)) ht.2
      | mark d => exact congrArg Token.mark (List.singleton_inj.mp h)

def isRegular : Token → Bool
  | .word w => !w.isEmpty && w.all isWord
  | .mark c => !isBlank c && !isWord c

theorem regular_of_isRegular {t : Token} (h : isRegular t) : (Piece.token t).Regular := by
  cases t with
  | word w => simpa [isRegular, Piece.Regular] using h
  | mark c => simpa [isRegular, Piece.Regular] using h

theorem contains_text {ts : List Token} (hts : ts.all isRegular) {t : Token}
    (ht : (Piece.token t).Regular) : (ts.map Token.text).contains t.text = ts.contains t := by
  rw [Bool.eq_iff_iff, List.contains_iff_mem, List.contains_iff_mem, List.mem_map]
  constructor
  · rintro ⟨u, hu, heq⟩
    have hregular := regular_of_isRegular (List.all_eq_true.mp hts u hu)
    rwa [← hregular.text_inj ht heq]
  · exact fun hmem ↦ ⟨t, hmem, rfl⟩

theorem beq_text (u : Token) (hu : isRegular u) {t : Token} (ht : (Piece.token t).Regular) :
    (t.text == u.text) = decide (t = u) := by
  rw [Bool.eq_iff_iff, beq_iff_eq, decide_eq_true_eq]
  exact ⟨ht.text_inj (regular_of_isRegular hu), congrArg Token.text⟩

section Texts

variable {t : Token} (ht : (Piece.token t).Regular)

include ht

theorem contains_newLineBefore : newLineBefore.contains t.text = startsLine t := by
  have htexts : newLineBefore = (lineWords.map Token.word ++ [Token.mark '}']).map Token.text := by
    decide
  rw [htexts, contains_text (by decide) ht, Bool.eq_iff_iff, List.contains_iff_mem]
  cases t <;> simp [startsLine]

theorem contains_spaceBefore : spaceBefore.contains t.text = isSpaced t := by
  have htexts : spaceBefore = (spacedMarks.map Token.mark).map Token.text := by decide
  rw [htexts, contains_text (by decide) ht, Bool.eq_iff_iff, List.contains_iff_mem]
  cases t <;> simp [isSpaced]

theorem contains_newLineAfter : newLineAfter.contains t.text =
    decide (t = .mark '{' ∨ t = .mark '}' ∨ t = .mark '.') := by
  have htexts : newLineAfter = [Token.mark '{', .mark '}', .mark '.'].map Token.text := by decide
  rw [htexts, contains_text (by decide) ht, Bool.eq_iff_iff, List.contains_iff_mem,
    decide_eq_true_eq]
  simp

end Texts

/-! ## Drafts at a place -/

/-- The parts behind which a gap may be due: none at all, or those up to the last token. -/
inductive EndsIn : Option Token → List Text → Prop where
  | start : EndsIn none []
  | token {t : Token} (ht : (Piece.token t).Regular) (parts : List Text) :
      EndsIn (some t) (t.text :: parts)

theorem EndsIn.dropWhile_isSpace {last : Option Token} {parts : List Text}
    (h : EndsIn last parts) : parts.dropWhile isSpace = parts := by
  cases h with
  | start => rfl
  | token ht parts => rw [List.dropWhile_cons_of_neg (by simp [ht.isSpace_text])]

theorem EndsIn.isSpace_head {last : Option Token} {parts : List Text} (h : EndsIn last parts) :
    isSpace (parts.headD []) = false := by
  cases h with
  | start => rfl
  | token ht parts => exact ht.isSpace_text

theorem EndsIn.headD_eq_iff {last : Option Token} {parts : List Text} (h : EndsIn last parts) :
    parts.headD [] = ['('] ↔ last = some (.mark '(') := by
  cases h with
  | start => simp
  | @token t ht parts =>
      have hopen : isRegular (.mark '(') := by decide
      rw [Option.some_inj]
      exact ⟨ht.text_inj (regular_of_isRegular hopen), fun heq ↦ by rw [heq]; rfl⟩

theorem EndsIn.head?_headD {last : Option Token} {parts : List Text} (h : EndsIn last parts) :
    ((parts.headD []).head? == some '\n') = false := by
  rw [beq_eq_false_iff_ne]
  intro hhead
  cases h with
  | start => cases hhead
  | token ht parts => exact ht.not_isBlank_of_mem_text (List.mem_of_head? hhead) (by decide)

/-- A blank part asks for nothing in front of it, or behind it. -/
theorem Draft.write_of_isSpace {part : Text} (hpart : isSpace part) (d : Draft) :
    d.write part = d.append part := by
  have hne (u : Text) (hu : isSpace u = false) : (part == u) = false := by
    rw [beq_eq_false_iff_ne]
    rintro rfl
    exact Bool.false_ne_true (hu.symm.trans hpart)
  have hnone (texts : List Text) (htexts : texts.all (!isSpace ·)) :
      texts.contains part = false := by
    rw [List.contains_eq_mem, decide_eq_false_iff_not]
    intro hmem
    have hspace := List.all_eq_true.mp htexts part hmem
    rw [hpart] at hspace
    cases hspace
  have hbefore : d.before part = d := by
    rw [before, breakLine, leaveLine, leaveSpace, hnone _ (by decide), hne _ (by decide),
      hne _ (by decide), hnone _ (by decide), Bool.and_false, Bool.or_false]
    rfl
  have hindent : d.indent part = d := by
    rw [indent, countClosing, startLine, countOpening, hne _ (by decide), hne _ (by decide), hpart]
    rfl
  have hafter (d : Draft) : d.after part = d := by
    rw [after, hnone _ (by decide), hne _ (by decide)]
    rfl
  rw [write, hbefore, ite_self, hindent, hafter]

/-- A draft has come to a place with a text in front of it: its last part is the gap that is due. -/
structure Draft.At (d : Draft) (p : Place) (out : Text) : Prop where
  depth_eq : d.depth = p.depth
  exists_parts : ∃ parts, d.parts = (p.gap.map Gap.text).toList ++ parts ∧
    parts.reverse.flatten = out ∧ EndsIn p.last parts

namespace Draft.At

variable {d : Draft} {p : Place} {out : Text}

theorem start : ({} : Draft).At Place.start [] := ⟨rfl, [], rfl, rfl, .start⟩

theorem trimEnd (h : d.At p out) : d.trimEnd.At { p with gap := none } out := by
  obtain ⟨parts, hparts, hout, hends⟩ := h.exists_parts
  refine ⟨h.depth_eq, parts, ?_, hout, hends⟩
  rw [Draft.trimEnd, hparts]
  cases p.gap with
  | none => exact hends.dropWhile_isSpace
  | some g =>
      exact (List.dropWhile_cons_of_pos (isSpace_text_gap g)).trans hends.dropWhile_isSpace

/-- A gap in the place of the one that is due. -/
theorem push_trimEnd (h : d.At p out) (g : Gap) :
    (d.trimEnd.push g.text).At { p with gap := some g } out := by
  obtain ⟨parts, hparts, hout, hends⟩ := h.trimEnd.exists_parts
  exact ⟨h.depth_eq, parts, congrArg (g.text :: ·) hparts, hout, hends⟩

/-- Blanks make for a space, unless a gap is due already. -/
theorem append_blank (h : d.At p out) {part : Text} (hpart : isSpace part) :
    (d.append part).At p.afterBlank out := by
  obtain ⟨parts, hparts, hout, hends⟩ := h.exists_parts
  rw [append, hpart, if_neg (by decide)]
  cases hgap : p.gap with
  | some g =>
      have hlast : isSpace d.last := by
        rw [last, hparts, hgap]
        exact isSpace_text_gap g
      rw [hlast, if_neg (by simp), afterBlank_eq_self (.inl (by rw [hgap]; rfl))]
      exact h
  | none =>
      have hlast : d.last = parts.headD [] := by
        rw [last, hparts, hgap]
        rfl
      have hopen : d.last = ['('] ↔ p.last = some (.mark '(') := hlast ▸ hends.headD_eq_iff
      rw [hlast, hends.isSpace_head, ← hlast]
      by_cases hparenthesis : p.last = some (.mark '(')
      · rw [if_neg (by simpa using hopen.mpr hparenthesis), afterBlank_eq_self (.inr hparenthesis)]
        exact h
      · rw [if_pos (by simpa using mt hopen.mp hparenthesis)]
        refine ⟨h.depth_eq, parts, ?_, hout, hends⟩
        rw [push, hparts, Place.afterBlank, hgap, Place.spaceAfter, if_neg hparenthesis]
        rfl

/-- One space in the place of the gap that is due, but nothing behind an opening parenthesis. -/
theorem append_trimEnd (h : d.At p out) :
    (d.trimEnd.append [' ']).At { p with gap := Place.spaceAfter p.last } out :=
  h.trimEnd.append_blank (by decide)

theorem last_eq_newLine_iff (h : d.At p out) : d.last = ['\n'] ↔ p.gap = some .line := by
  obtain ⟨parts, hparts, -, hends⟩ := h.exists_parts
  rw [last, hparts]
  cases p.gap with
  | some g => cases g <;> simp [Gap.text]
  | none =>
      refine iff_of_false (fun hlast ↦ ?_) (by simp)
      have hspace := hends.isSpace_head
      rw [Option.map_none, Option.toList_none, List.nil_append] at hlast
      rw [hlast] at hspace
      exact absurd hspace (by decide)

section Before

variable {t : Token} (ht : (Piece.token t).Regular)

include ht

theorem breakLine (h : d.At p out) : (d.breakLine t.text).At
    { p with gap := if startsLine t then some .line else p.gap } out := by
  rw [Draft.breakLine, contains_newLineBefore ht]
  split
  · exact h.push_trimEnd .line
  · exact h

theorem leaveLine (h : d.At p out) : (d.leaveLine t.text).At
    { p with
      gap := if t = .word "SELECT".toList && p.depth == 0 then some .emptyLine else p.gap } out := by
  have hselect : (t.text == "SELECT".toList) = decide (t = .word "SELECT".toList) :=
    beq_text (.word "SELECT".toList) (by decide) ht
  rw [Draft.leaveLine, hselect, h.depth_eq]
  split
  · exact h.push_trimEnd .emptyLine
  · exact h

theorem leaveSpace (h : d.At p out) : (d.leaveSpace t.text).At
    { p with
      gap :=
        if t = .word "UNION".toList || (p.gap != some .line && isSpaced t) then
          Place.spaceAfter p.last
        else p.gap } out := by
  have hunion : (t.text == "UNION".toList) = decide (t = .word "UNION".toList) :=
    beq_text (.word "UNION".toList) (by decide) ht
  have hline : (d.last != ['\n']) = (p.gap != some .line) := by
    rw [Bool.eq_iff_iff, bne_iff_ne, bne_iff_ne]
    exact not_congr h.last_eq_newLine_iff
  rw [Draft.leaveSpace, hunion, hline, contains_spaceBefore ht]
  split
  · exact h.append_trimEnd
  · exact h

/-- The gap in front of a token is the last part, once its line breaks and spaces are written. -/
theorem before (h : d.At p out) (hstart : ¬ (p.last.isNone && p.gap.isNone)) :
    (d.before t.text).At { p with gap := p.gapBefore t } out := by
  have hall := ((h.breakLine ht).leaveLine ht).leaveSpace ht
  have hdue : p.dueBefore t =
      if t = .word "SELECT".toList && p.depth == 0 then some .emptyLine
      else if startsLine t then some .line else p.gap := by
    -- `SELECT` does not start a line like the others, so at most one of the two steps does something.
    by_cases hselect : t = .word "SELECT".toList
    · have hline : startsLine t = false := by
        rw [hselect]
        decide
      rw [Place.dueBefore, hline, if_neg Bool.false_ne_true, if_neg Bool.false_ne_true]
    · rw [Place.dueBefore, decide_eq_false hselect, Bool.false_and, if_neg Bool.false_ne_true,
        if_neg Bool.false_ne_true]
  rw [gapBefore_eq hstart, hdue]
  exact hall

/-! ### A token -/

theorem countClosing (h : d.At p out) :
    (d.countClosing t.text).At { p with depth := p.depthAt t } out := by
  have hclosing : (t.text == ['}']) = decide (t = .mark '}') :=
    beq_text (.mark '}') (by decide) ht
  rw [Draft.countClosing, hclosing, Place.depthAt]
  by_cases heq : t = .mark '}'
  · rw [if_pos (decide_eq_true heq), if_pos heq]
    exact ⟨congrArg (· - 1) h.depth_eq, h.exists_parts⟩
  · rw [if_neg (by simpa using heq), if_neg heq]
    exact h

/-- Tabs come behind line breaks only. -/
theorem startLine (h : d.At p out) : (d.startLine t.text).depth = p.depth ∧
    (d.startLine t.text).parts.reverse.flatten =
      out ++ (p.gap.map Gap.text).getD [] ++ Place.indentation p.depth p.gap := by
  obtain ⟨parts, hparts, hout, hends⟩ := h.exists_parts
  have hbreak : (d.last.head? == some '\n') = p.gap.any (· != .space) := by
    rw [last, hparts]
    cases p.gap with
    | some g => cases g <;> rfl
    | none => exact hends.head?_headD
  have hjoined : d.parts.reverse.flatten = out ++ (p.gap.map Gap.text).getD [] := by
    rw [hparts, List.reverse_append, List.flatten_append, hout]
    cases p.gap <;> simp
  rw [Draft.startLine, ht.isSpace_text, hbreak]
  split
  · rename_i hgap
    refine ⟨h.depth_eq, ?_⟩
    rw [Draft.push, List.reverse_cons, List.flatten_append, hjoined, h.depth_eq]
    cases hg : p.gap with
    | none => simp [hg] at hgap
    | some g => cases g <;> simp_all [Place.indentation]
  · rename_i hgap
    refine ⟨h.depth_eq, ?_⟩
    rw [hjoined]
    cases hg : p.gap with
    | none => simp [Place.indentation]
    | some g => cases g <;> simp_all [Place.indentation]

/-- An opening brace is counted, and the token is the last part. -/
theorem append_countOpening (d : Draft) :
    (d.countOpening t.text).append t.text =
      { parts := t.text :: d.parts, depth := if t = .mark '{' then d.depth + 1 else d.depth } := by
  have hopening : (t.text == ['{']) = decide (t = .mark '{') :=
    beq_text (.mark '{') (by decide) ht
  rw [append, ht.isSpace_text, if_pos (by decide), Draft.countOpening, hopening]
  by_cases heq : t = .mark '{'
  · rw [if_pos (decide_eq_true heq), if_pos heq]
    rfl
  · rw [if_neg (by simpa using heq), if_neg heq]
    rfl

theorem after_eq (d : Draft) : d.after t.text =
    { d with parts := ((Place.gapAfter t).map Gap.text).toList ++ d.parts } := by
  have hsemicolon : (t.text == [';']) = decide (t = .mark ';') :=
    beq_text (.mark ';') (by decide) ht
  rw [Draft.after, contains_newLineAfter ht, hsemicolon, Place.gapAfter]
  simp only [decide_eq_true_eq]
  split
  · rfl
  · split <;> rfl

theorem startOrBefore (h : d.At p out) : (if d.parts.isEmpty then d else d.before t.text).At
    { p with gap := p.gapBefore t } out := by
  obtain ⟨parts, hparts, hout, hends⟩ := h.exists_parts
  by_cases hstart : p.last.isNone && p.gap.isNone
  · obtain ⟨hlast, hgap⟩ := Bool.and_eq_true_iff.mp hstart
    rw [Option.isNone_iff_eq_none] at hlast hgap
    rw [hlast] at hends
    cases hends
    have hempty : d.parts.isEmpty := by
      rw [hparts, hgap]
      rfl
    have hsame : p.gapBefore t = p.gap := by
      rw [Place.gapBefore, if_pos hstart, hgap]
    rw [if_pos hempty, hsame]
    exact h
  · have hsome : ¬ d.parts.isEmpty := by
      rw [List.isEmpty_iff, hparts, List.append_eq_nil_iff]
      rintro ⟨hgap, rfl⟩
      cases hlast : p.last with
      | some t =>
          rw [hlast] at hends
          cases hends
      | none => simp_all
    rw [if_neg hsome]
    exact h.before ht hstart

theorem write (h : d.At p out) : (d.write t.text).At (p.after t) (out ++ p.written t) := by
  have hclosed := (h.startOrBefore ht).countClosing ht
  obtain ⟨hdepth, hjoined⟩ := hclosed.startLine ht
  rw [Draft.write, Draft.indent, append_countOpening ht, after_eq ht]
  refine ⟨?_, _, rfl, ?_, .token ht _⟩
  · dsimp only
    rw [hdepth]
    rfl
  · rw [List.reverse_cons, List.flatten_append, hjoined, Place.written]
    simp [Place.depthAt]

end Before

theorem text_eq (h : d.At p out) : d.text = out ++ ['\n'] := by
  obtain ⟨parts, hparts, hout, -⟩ := h.trimEnd.exists_parts
  have htrimmed : d.trimEnd.parts = parts := hparts
  rw [text, push, htrimmed, List.reverse_cons, List.flatten_append, hout]
  rfl

end Draft.At

/-! ## Whole texts -/

/-- A token is a blank or stands for itself in a layout. -/
theorem isGap_or_regular {t : Text} : ∀ u ∈ tokens t, u.isGap ∨ (Piece.token u).Regular := by
  fun_induction tokens t with
  | case1 => exact fun _ hu ↦ nomatch hu
  | case2 c cs hc w rest htokens ih =>
      rw [htokens] at ih
      obtain ⟨hw, hrest⟩ := List.forall_mem_cons.mp ih
      have hw : (Piece.token (.word w)).Regular := hw.resolve_left Bool.false_ne_true
      refine List.forall_mem_cons.mpr ⟨.inr ⟨List.cons_ne_nil c w, ?_⟩, hrest⟩
      exact List.forall_mem_cons.mpr ⟨hc, hw.2⟩
  | case3 c cs hc _ ih =>
      refine List.forall_mem_cons.mpr ⟨.inr ⟨List.cons_ne_nil c [], ?_⟩, ih⟩
      exact List.forall_mem_cons.mpr ⟨hc, fun _ hd ↦ nomatch hd⟩
  | case4 c cs hc ih =>
      refine List.forall_mem_cons.mpr ⟨?_, ih⟩
      by_cases hblank : isBlank c
      · exact .inl hblank
      · exact .inr ⟨hblank, hc⟩

theorem isSpace_text_of_isGap {t : Token} (h : t.isGap) : isSpace t.text := by
  cases t with
  | word w => cases h
  | mark c =>
      have hc : isBlank c := h
      simp [isSpace, Token.text, hc]

theorem Draft.At.foldl_write {d : Draft} {p : Place} {out : Text} (h : d.At p out)
    {ts : List Token} (hts : ∀ t ∈ ts, t.isGap ∨ (Piece.token t).Regular) :
    ((ts.map Token.text).foldl Draft.write d).text = out ++ lines p ts := by
  induction ts generalizing d p out with
  | nil => exact h.text_eq
  | cons t ts ih =>
      obtain ⟨ht, hts⟩ := List.forall_mem_cons.mp hts
      rw [List.map_cons, List.foldl_cons, lines]
      split
      · rename_i hgap
        have hspace := isSpace_text_of_isGap hgap
        rw [Draft.write_of_isSpace hspace]
        exact ih (h.append_blank hspace) hts
      · rename_i hgap
        rw [ih (h.write (ht.resolve_left hgap)) hts, List.append_assoc]

/-- Laying out a text from place to place and writing it part by part come to the same. -/
theorem draftLines_eq (t : Text) : draftLines t = hiddenLines t :=
  Draft.At.start.foldl_write isGap_or_regular

end Layout

/-- A text is formatted by writing its parts one after the other and putting its spans back. -/
theorem formatted_eq_restored (t : Text) :
    formatted t = restored (Layout.draftLines t) (replacements t) := by
  rw [formatted, Layout.draftLines_eq]

end SparqlComposer
