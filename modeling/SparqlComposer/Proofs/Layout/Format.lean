import SparqlComposer.Proofs.Layout.Gap

/-!
# What formatting keeps

A formatted text has the segments that its layout was made of: nothing that is written between the
pieces opens or closes a span. Everything but blanks is therefore kept, in its order, and blanks
between two pieces leave a gap there. Formatting a formatted text changes nothing, since its pieces
are the same and ask for the same gaps.
-/

namespace SparqlComposer

namespace Layout

/-! ## The segments of a layout -/

theorem isBlank_of_mem_map_lead {p : Place} {t : Token} :
    ∀ seg ∈ (p.lead t).map Segment.plain, seg.isBlank := by
  intro seg hseg
  obtain ⟨c, hc, rfl⟩ := List.mem_map.mp hseg
  exact isBlank_of_mem_lead hc

theorem ink_laid {v : Pieces} (h : v.Regular) (p : Place) : ink (laid p v) = v.segments := by
  induction v generalizing p with
  | nil => rfl
  | cons head v ih =>
      obtain ⟨b, i⟩ := head
      obtain ⟨hi, -, hv⟩ := h
      rw [laid, ink_append, ink_append, ink_of_isBlank isBlank_of_mem_map_lead,
        ink_of_not_isBlank fun seg hseg ↦ hi.isBlank_eq hseg, ih hv]
      rfl

/-! ## The pieces of a layout -/

theorem ofSegments_blanks {blanks : List Segment} (hblank : ∀ seg ∈ blanks, seg.isBlank)
    (ss : List Segment) : Pieces.ofSegments (blanks ++ ss) =
      if blanks = [] then Pieces.ofSegments ss else (Pieces.ofSegments ss).behindBlank := by
  have htwice : ∀ v : Pieces, v.behindBlank.behindBlank = v.behindBlank := fun v ↦ by
    cases v <;> rfl
  induction blanks with
  | nil => rfl
  | cons seg blanks ih =>
      have hseg := hblank seg List.mem_cons_self
      have hrest := ih fun seg' hseg' ↦ hblank seg' (List.mem_cons_of_mem seg hseg')
      cases seg with
      | span s => exact absurd hseg Bool.false_ne_true
      | plain c =>
          have hc : isBlank c := hseg
          rw [List.cons_append, Pieces.ofSegments, if_pos hc, hrest,
            if_neg (List.cons_ne_nil _ blanks)]
          split
          · rfl
          · exact htwice _

theorem ofSegments_piece {i : Piece} (h : i.Regular) {ss : List Segment}
    (hjoin : i.IsWord → ¬ (Pieces.ofSegments ss).StartsInWord) :
    Pieces.ofSegments (i.segments ++ ss) = (false, i) :: Pieces.ofSegments ss := by
  cases i with
  | span s => rfl
  | token t =>
      cases t with
      | word w => exact ofSegments_word h.1 h.2 (hjoin trivial)
      | mark c => exact ofSegments_mark h.1 h.2 ss

/-- The pieces with blanks in front of those where a gap is written. -/
def regapped (p : Place) : Pieces → Pieces
  | [] => []
  | (b, i) :: v => (((p.behind b).gapBefore i.first).isSome, i) :: regapped (p.after i.last) v

/-- Words that were apart stay apart, since behind a word blanks always leave a gap. -/
theorem not_startsInWord_regapped {p : Place} {v : Pieces} (hlast : p.last ≠ some (.mark '('))
    (h : ¬ v.StartsInWord) : ¬ (regapped p v).StartsInWord := by
  cases v with
  | nil => exact id
  | cons head v =>
      obtain ⟨b, i⟩ := head
      intro hstart
      cases b with
      | true =>
          have hgap : ((p.behind true).gapBefore i.first).isSome :=
            isSome_gapBefore (isSome_gap_afterBlank hlast) hlast
          rw [regapped, hgap] at hstart
          exact hstart
      | false =>
          rw [regapped] at hstart
          unfold Pieces.StartsInWord at hstart
          split at hstart
          · rename_i heq
            obtain ⟨hhead, -⟩ := List.cons.inj heq
            obtain ⟨-, rfl⟩ := Prod.mk.inj hhead
            exact h trivial
          · exact hstart

theorem ofSegments_laid {v : Pieces} (h : v.Regular) (p : Place) :
    Pieces.ofSegments (laid p v) = regapped p v := by
  induction v generalizing p with
  | nil => rfl
  | cons head v ih =>
      obtain ⟨b, i⟩ := head
      obtain ⟨hi, hjoin, hv⟩ := h
      have hrest := ih hv (p.after i.last)
      have hpiece : Pieces.ofSegments (i.segments ++ laid (p.after i.last) v) =
          (false, i) :: regapped (p.after i.last) v := by
        rw [← hrest]
        apply ofSegments_piece hi
        intro hword
        rw [hrest]
        refine not_startsInWord_regapped ?_ (hjoin hword)
        cases i with
        | span s => exact hword.elim
        | token t =>
            cases t with
            | word w =>
                intro heq
                cases heq
            | mark c => exact hword.elim
      rw [laid, List.append_assoc, ofSegments_blanks isBlank_of_mem_map_lead, hpiece, regapped]
      cases hgap : (p.behind b).gapBefore i.first with
      | none =>
          rw [if_pos (List.map_eq_nil_iff.mpr (lead_eq_nil_iff.mpr hgap))]
          rfl
      | some g =>
          have hlead : ((p.behind b).lead i.first).map Segment.plain ≠ [] := by
            intro hnil
            cases hgap.symm.trans (lead_eq_nil_iff.mp (List.map_eq_nil_iff.mp hnil))
          rw [if_neg hlead]
          rfl

/-- With the blanks of their layout the pieces are laid out in the same way. -/
theorem laid_regapped (p : Place) (v : Pieces) : laid p (regapped p v) = laid p v := by
  induction v generalizing p with
  | nil => rfl
  | cons head v ih =>
      obtain ⟨b, i⟩ := head
      have hlead : (p.behind ((p.behind b).gapBefore i.first).isSome).lead i.first =
          (p.behind b).lead i.first := by
        have hdepth (b' : Bool) : (p.behind b').depthAt i.first = p.depthAt i.first := by
          cases b' <;> rfl
        rw [Place.lead, Place.lead, gapBefore_behind_isSome, hdepth, hdepth]
      rw [regapped, laid, laid, hlead, ih]

end Layout

open SparqlComposer.Layout

/-! ## Formatted texts -/

def formattedSegments (t : Text) : List Segment :=
  laid Place.start (Pieces.ofSegments (segments t))

theorem ink_formattedSegments (t : Text) : ink (formattedSegments t) = ink (segments t) := by
  rw [formattedSegments, ink_laid (Pieces.regular_ofSegments _), Pieces.segments_ofSegments]

theorem spans_formattedSegments (t : Text) : spans (formattedSegments t) = spans (segments t) := by
  rw [← spans_ink, ink_formattedSegments, spans_ink]

theorem cut_formattedSegments (t : Text) : Cut (formattedSegments t) := by
  rw [← cut_ink, ink_formattedSegments, cut_ink]
  exact cut_segments t

namespace Restorable

variable {t : Text}

/-- The spans come back in the layout of the text. -/
theorem formatted_eq (h : Restorable t) :
    formatted t = (formattedSegments t).flatMap Segment.text := by
  have hreplacements : replacements t =
      .ofList ((formattedSegments t).filterMap Segment.replacement?) := by
    rw [replacements, filterMap_replacement?, filterMap_replacement?, spans_formattedSegments]
  have hkeys : KeysDiffer (spans (formattedSegments t)) := by
    rw [spans_formattedSegments]
    exact h.keys
  rw [formatted, hiddenLines_eq, hreplacements]
  exact restored_hidden (cut_formattedSegments t) hkeys (hreplacements ▸ h.order)

theorem segments_formatted (h : Restorable t) : segments (formatted t) = formattedSegments t := by
  rw [h.formatted_eq, segments_of_cut (cut_formattedSegments t)]

end Restorable

section KeysApart

variable {t : Text}

theorem formatted_eq (h : KeysApart (spans (segments t))) :
    formatted t = (formattedSegments t).flatMap Segment.text :=
  h.restorable.formatted_eq

theorem segments_formatted (h : KeysApart (spans (segments t))) :
    segments (formatted t) = formattedSegments t :=
  h.restorable.segments_formatted

/-- Formatting a formatted text changes nothing. -/
theorem formatted_formatted (h : KeysApart (spans (segments t))) :
    formatted (formatted t) = formatted t := by
  have hsegments := segments_formatted h
  have hkeys : KeysApart (spans (segments (formatted t))) := by
    rwa [hsegments, spans_formattedSegments]
  have hpieces : Pieces.ofSegments (formattedSegments t) =
      regapped Place.start (Pieces.ofSegments (segments t)) :=
    ofSegments_laid (Pieces.regular_ofSegments _) Place.start
  calc formatted (formatted t)
      = (laid Place.start (Pieces.ofSegments (segments (formatted t)))).flatMap Segment.text :=
        formatted_eq hkeys
    _ = (laid Place.start (Pieces.ofSegments (segments t))).flatMap Segment.text := by
        rw [hsegments, hpieces, laid_regapped]
    _ = formatted t := (formatted_eq h).symm

end KeysApart

theorem keysApart_pair : KeysApart [.bracketed ['p'], .quoted "x y".toList] := by
  unfold KeysApart
  decide +kernel

/-- A text with two spans and braces. -/
theorem formatted_formatted_pair : ∃ t : Text, t = "ASK\x7b?a <p>  \"x y\"\x7d".toList ∧
    KeysApart (spans (segments t)) ∧ formatted (formatted t) = formatted t := by
  let t : Text := "ASK\x7b?a <p>  \"x y\"\x7d".toList
  have hspans : spans (segments t) = [.bracketed ['p'], .quoted "x y".toList] := by decide +kernel
  have hkeys : KeysApart (spans (segments t)) := hspans ▸ keysApart_pair
  exact ⟨t, rfl, hkeys, formatted_formatted hkeys⟩

end SparqlComposer
