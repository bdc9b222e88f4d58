import SparqlComposer.Proofs.Layout.Format

/-!
# Which blanks a text has

A layout asks of the blanks between two pieces only whether there are any. So a text may be written
with other blanks: as long as no blanks come or go, it is cut at the same places, it has the same
pieces, and it is formatted in the same way.
-/

namespace SparqlComposer

open SparqlComposer.Layout

/-- The same segments, but for which and how many blanks there are at a place. -/
inductive Reblanked : List Segment → List Segment → Prop where
  | nil : Reblanked [] []
  | keep (seg : Segment) {ss ss' : List Segment} (h : Reblanked ss ss') :
      Reblanked (seg :: ss) (seg :: ss')
  | blanks {run run' ss ss' : List Segment} (hne : run ≠ []) (hne' : run' ≠ [])
      (hrun : ∀ seg ∈ run, seg.isBlank) (hrun' : ∀ seg ∈ run', seg.isBlank)
      (h : Reblanked ss ss') : Reblanked (run ++ ss) (run' ++ ss')

namespace Reblanked

variable {ss ss' : List Segment}

theorem ink_eq (h : Reblanked ss ss') : ink ss' = ink ss := by
  induction h with
  | nil => rfl
  | keep seg h ih =>
      have hsplit : ∀ ss, ink (seg :: ss) = ink [seg] ++ ink ss := ink_append [seg]
      rw [hsplit, ih, ← hsplit]
  | blanks hne hne' hrun hrun' h ih =>
      rw [ink_append, ink_append, ink_of_isBlank hrun, ink_of_isBlank hrun', ih]

theorem ofSegments_eq (h : Reblanked ss ss') : Pieces.ofSegments ss' = Pieces.ofSegments ss := by
  induction h with
  | nil => rfl
  | keep seg h ih =>
      cases seg with
      | span s => rw [Pieces.ofSegments, Pieces.ofSegments, ih]
      | plain c => rw [Pieces.ofSegments, Pieces.ofSegments, ih]
  | blanks hne hne' hrun hrun' h ih =>
      rw [ofSegments_blanks hrun, ofSegments_blanks hrun', if_neg hne, if_neg hne', ih]

/-- With other blanks a text is cut into segments at the same places. -/
theorem segments_text {t : Text} (h : Reblanked (segments t) ss) :
    segments (ss.flatMap Segment.text) = ss := by
  apply segments_of_cut
  rw [← cut_ink, h.ink_eq, cut_ink]
  exact cut_segments t

end Reblanked

/-- The pieces of a text tell how it is formatted. -/
theorem formatted_congr {t u : Text}
    (h : Pieces.ofSegments (segments u) = Pieces.ofSegments (segments t)) :
    formatted u = formatted t := by
  have hspans : spans (segments u) = spans (segments t) := by
    rw [← spans_ink, ← Pieces.segments_ofSegments, h, Pieces.segments_ofSegments, spans_ink]
  have hreplacements : replacements u = replacements t := by
    rw [replacements, replacements, filterMap_replacement?, filterMap_replacement?, hspans]
  rw [formatted, formatted, hiddenLines_eq, hiddenLines_eq, h, hreplacements]

/-- A text is formatted in the same way whichever blanks it is written with. -/
theorem formatted_reblanked {t : Text} {ss : List Segment} (h : Reblanked (segments t) ss) :
    formatted (ss.flatMap Segment.text) = formatted t := by
  have hpieces : Pieces.ofSegments ss = Pieces.ofSegments (segments t) := h.ofSegments_eq
  apply formatted_congr
  rw [h.segments_text, hpieces]

/-- Blanks in front, between and behind, next to a span with blanks of its own. -/
theorem formatted_reblanked_around : ∃ (t : Text) (ss : List Segment),
    t = " a\t\t<p q> \n".toList ∧ Reblanked (segments t) ss ∧
      ss.flatMap Segment.text = "\n\t a <p q>\t".toList ∧
      formatted (ss.flatMap Segment.text) = formatted t := by
  let t : Text := " a\t\t<p q> \n".toList
  let run (w : String) : List Segment := w.toList.map .plain
  let p : Segment := .span (.bracketed "p q".toList)
  have hsegments : segments t =
      run " " ++ .plain 'a' :: (run "\t\t" ++ p :: (run " \n" ++ [])) := by
    decide +kernel
  have hchange {v w : String} {ss ss' : List Segment} (h : Reblanked ss ss')
      (hv : run v ≠ [] ∧ ∀ seg ∈ run v, seg.isBlank)
      (hw : run w ≠ [] ∧ ∀ seg ∈ run w, seg.isBlank) : Reblanked (run v ++ ss) (run w ++ ss') :=
    .blanks hv.1 hw.1 hv.2 hw.2 h
  let ss : List Segment := run "\n\t " ++ .plain 'a' :: (run " " ++ p :: (run "\t" ++ []))
  have hreblanked : Reblanked (segments t) ss := by
    rw [hsegments]
    apply hchange _ (by decide) (by decide)
    apply Reblanked.keep
    apply hchange _ (by decide) (by decide)
    apply Reblanked.keep
    apply hchange Reblanked.nil (by decide) (by decide)
  exact ⟨t, ss, rfl, hreblanked, by decide, formatted_reblanked hreblanked⟩

end SparqlComposer
