import SparqlComposer.Proofs.Layout.Format

/-!
# Blanks between neighbours

Where blanks stand between two characters or spans, formatting leaves blanks there. The one
exception is the opening parenthesis, behind which it takes all blanks away. To see this, a text is
split at the blanks: its pieces, and the layout of its pieces, are split at the same place.
-/

namespace SparqlComposer

namespace Layout

/-! ## Splitting pieces -/

theorem ofSegments_ne_nil {ss : List Segment} (h : ink ss ≠ []) : Pieces.ofSegments ss ≠ [] := by
  intro hnil
  rw [← Pieces.segments_ofSegments, hnil] at h
  exact h rfl

theorem ink_concat {a : Segment} (ha : a.isBlank = false) (ss : List Segment) :
    ink (ss ++ [a]) = ink ss ++ [a] := by
  rw [ink_append, ink_cons ha]
  rfl

theorem ofSegments_append {ss ss' : List Segment} {a : Segment} (ha : a.isBlank = false)
    (hstart : ¬ (Pieces.ofSegments ss').StartsInWord) :
    Pieces.ofSegments (ss ++ a :: ss') =
      Pieces.ofSegments (ss ++ [a]) ++ Pieces.ofSegments ss' := by
  induction ss with
  | nil =>
      cases a with
      | span s => rfl
      | plain c =>
          have hblank : ¬ isBlank c := fun h ↦ Bool.false_ne_true (ha.symm.trans h)
          by_cases hword : isWord c
          · rw [List.nil_append, List.nil_append, Pieces.ofSegments, Pieces.ofSegments,
              if_neg hblank, if_neg hblank, if_pos hword, if_pos hword, addToWord_eq hstart]
            rfl
          · rw [List.nil_append, List.nil_append, ofSegments_mark hblank hword,
              ofSegments_mark hblank hword]
            rfl
  | cons seg ss ih =>
      have hne : Pieces.ofSegments (ss ++ [a]) ≠ [] := by
        apply ofSegments_ne_nil
        rw [ink_concat ha]
        exact List.append_ne_nil_of_right_ne_nil _ (List.cons_ne_nil a [])
      obtain ⟨⟨b, i⟩, v, hv⟩ := List.exists_cons_of_ne_nil hne
      rw [hv] at ih
      cases seg with
      | span s =>
          rw [List.cons_append, List.cons_append, Pieces.ofSegments, Pieces.ofSegments, ih, hv]
          rfl
      | plain c =>
          rw [List.cons_append, List.cons_append, Pieces.ofSegments, Pieces.ofSegments, ih, hv]
          split
          · rfl
          · split
            · cases b with
              | true => rfl
              | false =>
                  cases i with
                  | span s => rfl
                  | token t => cases t <;> rfl
            · rfl

theorem exists_ofSegments_eq {b : Segment} (hb : b.isBlank = false) (post : List Segment) :
    ∃ flag i rest v, Pieces.ofSegments (b :: post) = (flag, i) :: v ∧ i.segments = b :: rest := by
  cases b with
  | span s => exact ⟨false, .span s, [], Pieces.ofSegments post, rfl, rfl⟩
  | plain c =>
      have hblank : ¬ isBlank c := fun h ↦ Bool.false_ne_true (hb.symm.trans h)
      by_cases hword : isWord c
      · rw [Pieces.ofSegments, if_neg hblank, if_pos hword]
        unfold Pieces.addToWord
        split
        · exact ⟨_, _, _, _, rfl, rfl⟩
        · exact ⟨_, _, _, _, rfl, rfl⟩
      · exact ⟨_, _, _, _, ofSegments_mark hblank hword post, rfl⟩

/-- Behind blanks stands a piece that begins with the next segment. -/
theorem exists_ofSegments_blanks {blanks : List Segment} {b : Segment} (hne : blanks ≠ [])
    (hblanks : ∀ seg ∈ blanks, seg.isBlank) (hb : b.isBlank = false) (post : List Segment) :
    ∃ i rest v, Pieces.ofSegments (blanks ++ b :: post) = (true, i) :: v ∧
      i.segments = b :: rest := by
  obtain ⟨flag, i, rest, v, hpieces, hsegments⟩ := exists_ofSegments_eq hb post
  refine ⟨i, rest, v, ?_, hsegments⟩
  rw [ofSegments_blanks hblanks, if_neg hne, hpieces]
  rfl

/-! ## Splitting a layout -/

/-- The pieces laid out from a place on, without the line break at the end. -/
def written (p : Place) : Pieces → List Segment
  | [] => []
  | (b, i) :: v =>
      ((p.behind b).lead i.first).map .plain ++ i.segments ++ written (p.after i.last) v

def placeAfter (p : Place) : Pieces → Place
  | [] => p
  | (_, i) :: v => placeAfter (p.after i.last) v

theorem laid_append (p : Place) (v w : Pieces) :
    laid p (v ++ w) = written p v ++ laid (placeAfter p v) w := by
  induction v generalizing p with
  | nil => rfl
  | cons head v ih =>
      obtain ⟨b, i⟩ := head
      rw [List.cons_append, laid, ih, written, placeAfter]
      simp only [List.append_assoc]

theorem laid_eq (p : Place) (v : Pieces) : laid p v = written p v ++ [.plain '\n'] := by
  have happend := laid_append p v []
  rwa [List.append_nil] at happend

theorem ink_written {v : Pieces} (h : v.Regular) (p : Place) : ink (written p v) = v.segments := by
  have hend : ink [Segment.plain '\n'] = [] := by decide
  rw [← ink_laid h p, laid_eq, ink_append, hend, List.append_nil]

theorem Piece.Regular.exists_segments_eq {i : Piece} (h : i.Regular) : ∃ ss a,
    i.segments = ss ++ [a] ∧ (a ≠ .plain '(' → i.last ≠ .mark '(') := by
  cases i with
  | span s =>
      have hclose : Token.mark '>' ≠ .mark '(' := by decide
      exact ⟨[], .span s, rfl, fun _ ↦ hclose⟩
  | token t =>
      cases t with
      | mark c =>
          refine ⟨[], .plain c, rfl, fun hne heq ↦ hne ?_⟩
          rw [Token.mark.inj heq]
      | word w =>
          have hw : w = w.dropLast ++ [w.getLast h.1] := (List.dropLast_concat_getLast h.1).symm
          refine ⟨w.dropLast.map .plain, .plain (w.getLast h.1), ?_, fun _ heq ↦ nomatch heq⟩
          exact (congrArg (List.map Segment.plain) hw).trans List.map_append

/-- What is written of pieces ends in a character or a span, which tells the place behind it. -/
theorem exists_written_eq {v : Pieces} (h : v.Regular) (hne : v ≠ []) (p : Place) : ∃ ss a,
    written p v = ss ++ [a] ∧ a.isBlank = false ∧
      (a ≠ .plain '(' → (placeAfter p v).last ≠ some (.mark '(')) := by
  induction v generalizing p with
  | nil => exact absurd rfl hne
  | cons head v ih =>
      obtain ⟨b, i⟩ := head
      obtain ⟨hi, -, hv⟩ := h
      rw [written, placeAfter]
      cases v with
      | nil =>
          obtain ⟨ss, a, hsegments, hlast⟩ := hi.exists_segments_eq
          have ha : a ∈ i.segments := hsegments ▸ List.mem_append_right _ (List.mem_singleton_self a)
          refine ⟨((p.behind b).lead i.first).map .plain ++ ss, a, ?_, hi.isBlank_eq ha, ?_⟩
          · rw [written, hsegments, List.append_nil, List.append_assoc]
          · exact fun hne' heq ↦ hlast hne' (Option.some.inj heq)
      | cons head' v =>
          obtain ⟨ss, a, hwritten, hrest⟩ := ih hv (List.cons_ne_nil head' v) (p.after i.last)
          refine ⟨((p.behind b).lead i.first).map .plain ++ i.segments ++ ss, a, ?_, hrest⟩
          rw [hwritten]
          simp only [List.append_assoc]

end Layout

open SparqlComposer.Layout

/-- A text without the blanks outside its spans. -/
def withoutBlanks (t : Text) : Text := (ink (segments t)).flatMap Segment.text

theorem ink_around {pre blanks post : List Segment} {a b : Segment}
    (hblanks : ∀ seg ∈ blanks, seg.isBlank) (ha : a.isBlank = false) (hb : b.isBlank = false) :
    ink (pre ++ a :: (blanks ++ b :: post)) = ink pre ++ a :: b :: ink post := by
  rw [ink_append, ink_cons ha, ink_append, ink_of_isBlank hblanks, List.nil_append, ink_cons hb]

/-- Blanks between neighbours leave blanks between them, unless the first one is an opening
parenthesis. -/
theorem exists_formattedSegments_eq {t : Text} {pre blanks post : List Segment} {a b : Segment}
    (ht : segments t = pre ++ a :: (blanks ++ b :: post)) (hne : blanks ≠ [])
    (hblanks : ∀ seg ∈ blanks, seg.isBlank) (ha : a.isBlank = false) (hb : b.isBlank = false)
    (hopen : a ≠ .plain '(') : ∃ pre' blanks' post',
      formattedSegments t = pre' ++ a :: (blanks' ++ b :: post') ∧ blanks' ≠ [] ∧
        (∀ seg ∈ blanks', seg.isBlank) ∧ ink pre' = ink pre ∧ ink post' = ink post := by
  obtain ⟨i, rest, w, hright, hi⟩ := exists_ofSegments_blanks hne hblanks hb post
  have hstart : ¬ (Pieces.ofSegments (blanks ++ b :: post)).StartsInWord := by
    rw [hright]
    exact id
  have hleft := Pieces.regular_ofSegments (pre ++ [a])
  have hnonempty : Pieces.ofSegments (pre ++ [a]) ≠ [] := by
    apply ofSegments_ne_nil
    rw [ink_concat ha]
    exact List.append_ne_nil_of_right_ne_nil _ (List.cons_ne_nil a [])
  obtain ⟨pre', a', hwritten, ha', hlast⟩ := exists_written_eq hleft hnonempty Place.start
  -- The last thing written before the blanks is what stood there.
  have hink := ink_written hleft Place.start
  rw [Pieces.segments_ofSegments, hwritten, ink_concat ha', ink_concat ha] at hink
  obtain ⟨hpre, hsame⟩ := List.append_inj' hink rfl
  obtain rfl : a' = a := List.head_eq_of_cons_eq hsame
  let p := placeAfter Place.start (Pieces.ofSegments (pre ++ [a']))
  have hgap : ((p.behind true).gapBefore i.first).isSome :=
    isSome_gapBefore (isSome_gap_afterBlank (hlast hopen)) (hlast hopen)
  have hlead : ((p.behind true).lead i.first).map Segment.plain ≠ [] := by
    intro hnil
    rw [lead_eq_nil_iff.mp (List.map_eq_nil_iff.mp hnil)] at hgap
    exact Bool.false_ne_true hgap
  have hlaid : formattedSegments t = pre' ++ a' ::
      (((p.behind true).lead i.first).map .plain ++ b :: (rest ++ laid (p.after i.last) w)) := by
    rw [formattedSegments, ht, ofSegments_append ha hstart, hright, laid_append, hwritten, laid, hi]
    simp only [List.append_assoc, List.cons_append, List.nil_append]
    rfl
  refine ⟨pre', _, _, hlaid, hlead, isBlank_of_mem_map_lead, hpre, ?_⟩
  have hall := ink_formattedSegments t
  rw [hlaid, ht, ink_around isBlank_of_mem_map_lead ha hb, ink_around hblanks ha hb, hpre] at hall
  have hrest := List.append_cancel_left hall
  exact (List.cons.inj (List.cons.inj hrest).2).2

/-- Formatting changes nothing but blanks outside the spans: the spans are kept in their order, and
so is all other text, and blanks between neighbours leave blanks between them, unless the first one
is an opening parenthesis. -/
theorem formatted_keeps {t : Text} (h : KeysApart (spans (segments t))) :
    spans (segments (formatted t)) = spans (segments t) ∧
      withoutBlanks (formatted t) = withoutBlanks t ∧
      ∀ pre a blanks b post, segments t = pre ++ a :: (blanks ++ b :: post) →
        blanks ≠ [] → (∀ seg ∈ blanks, seg.isBlank) → a.isBlank = false → b.isBlank = false →
          a ≠ .plain '(' → ∃ pre' blanks' post',
            segments (formatted t) = pre' ++ a :: (blanks' ++ b :: post') ∧ blanks' ≠ [] ∧
              (∀ seg ∈ blanks', seg.isBlank) ∧ ink pre' = ink pre ∧ ink post' = ink post := by
  have hsegments := segments_formatted h
  refine ⟨?_, ?_, ?_⟩
  · rw [hsegments, spans_formattedSegments]
  · rw [withoutBlanks, hsegments, ink_formattedSegments, withoutBlanks]
  · intro pre a blanks b post ht hne hblanks ha hb hopen
    rw [hsegments]
    exact exists_formattedSegments_eq ht hne hblanks ha hb hopen

theorem formatted_keeps_pair : ∃ t : Text, t = "ASK\x7b?a <p>  \"x y\"\x7d".toList ∧
    KeysApart (spans (segments t)) ∧ ∃ pre blanks post, blanks ≠ [] ∧
      segments (formatted t) = pre ++ .span (.bracketed ['p']) ::
        (blanks ++ .span (.quoted "x y".toList) :: post) := by
  let t : Text := "ASK\x7b?a <p>  \"x y\"\x7d".toList
  have hspans : spans (segments t) = [.bracketed ['p'], .quoted "x y".toList] := by decide +kernel
  have hkeys : KeysApart (spans (segments t)) := hspans ▸ keysApart_pair
  have ht : segments t = "ASK\x7b?a ".toList.map .plain ++ .span (.bracketed ['p']) ::
      ([.plain ' ', .plain ' '] ++ .span (.quoted "x y".toList) :: [.plain '}']) := by
    decide +kernel
  obtain ⟨-, -, hbetween⟩ := formatted_keeps hkeys
  obtain ⟨pre, blanks, post, hsegments, hne, -⟩ := hbetween _ _ _ _ _ ht (by decide) (by decide)
    rfl rfl (by decide)
  exact ⟨t, rfl, hkeys, pre, blanks, post, hne, hsegments⟩

end SparqlComposer
