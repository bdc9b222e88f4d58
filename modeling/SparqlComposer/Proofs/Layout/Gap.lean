import SparqlComposer.Proofs.Layout.Piece

/-!
# Gaps

Laying out a text puts blanks between pieces and takes blanks away, and does nothing else. The
pieces of what is laid out are the pieces that were laid out, with blanks in front where a gap was
written, and with these blanks they are laid out in the same way again.
-/

namespace SparqlComposer.Layout

/-! ## Regular pieces -/

/-- A word consists of word characters, and a mark is neither a word character nor a blank. -/
def Piece.Regular : Piece → Prop
  | .token (.word w) => w ≠ [] ∧ ∀ c ∈ w, isWord c
  | .token (.mark c) => ¬ isBlank c ∧ ¬ isWord c
  | .span _ => True

def Piece.IsWord : Piece → Prop
  | .token (.word _) => True
  | _ => False

namespace Pieces

/-- Words are as long as they can be: none follows another one without blanks between them. -/
def Regular : Pieces → Prop
  | [] => True
  | (_, i) :: v => i.Regular ∧ (i.IsWord → ¬ StartsInWord v) ∧ Regular v

def segments (v : Pieces) : List Segment := v.flatMap (·.2.segments)

theorem Regular.behindBlank {v : Pieces} (h : v.Regular) : v.behindBlank.Regular := by
  cases v with
  | nil => trivial
  | cons head v => exact h

theorem Regular.addToWord {v : Pieces} (h : v.Regular) {c : Char} (hc : isWord c) :
    (v.addToWord c).Regular := by
  unfold Pieces.addToWord
  split
  · rename_i w v
    obtain ⟨⟨-, hw⟩, hjoin, hv⟩ := h
    refine ⟨⟨List.cons_ne_nil c w, fun d hd ↦ ?_⟩, hjoin, hv⟩
    rcases List.mem_cons.mp hd with rfl | hd
    · exact hc
    · exact hw d hd
  · rename_i hstart
    refine ⟨⟨List.cons_ne_nil c [], fun d hd ↦ ?_⟩, fun _ hv ↦ ?_, h⟩
    · rw [List.mem_singleton.mp hd]
      exact hc
    · unfold StartsInWord at hv
      split at hv
      · exact hstart _ _ rfl
      · exact hv

theorem regular_ofSegments (ss : List Segment) : (ofSegments ss).Regular := by
  induction ss with
  | nil => trivial
  | cons seg ss ih =>
      cases seg with
      | span s => exact ⟨trivial, False.elim, ih⟩
      | plain c =>
          rw [ofSegments]
          split
          · exact ih.behindBlank
          · rename_i hblank
            split
            · rename_i hword
              exact ih.addToWord hword
            · rename_i hword
              exact ⟨⟨hblank, hword⟩, False.elim, ih⟩

theorem segments_behindBlank (v : Pieces) : v.behindBlank.segments = v.segments := by
  cases v <;> rfl

theorem segments_addToWord (c : Char) (v : Pieces) :
    (v.addToWord c).segments = .plain c :: v.segments := by
  unfold addToWord
  split <;> rfl

/-- The pieces of segments are the segments without blanks. -/
theorem segments_ofSegments (ss : List Segment) : (ofSegments ss).segments = ink ss := by
  induction ss with
  | nil => rfl
  | cons seg ss ih =>
      cases seg with
      | span s =>
          rw [ink_cons rfl, ← ih]
          rfl
      | plain c =>
          rw [ofSegments]
          by_cases hblank : isBlank c
          · have hseg : (Segment.plain c).isBlank := hblank
            rw [if_pos hblank, segments_behindBlank, ih, ink_cons_of_isBlank hseg]
          · have hseg : (Segment.plain c).isBlank = false := Bool.eq_false_iff.mpr hblank
            rw [if_neg hblank, ink_cons hseg, ← ih]
            split
            · exact segments_addToWord c _
            · rfl

end Pieces

theorem Piece.Regular.isBlank_eq {i : Piece} (h : i.Regular) {seg : Segment}
    (hseg : seg ∈ i.segments) : seg.isBlank = false := by
  cases i with
  | span s =>
      rw [List.mem_singleton.mp hseg]
      rfl
  | token t =>
      obtain ⟨c, hc, rfl⟩ := List.mem_map.mp hseg
      rw [Segment.isBlank, Bool.eq_false_iff]
      intro hblank
      cases t with
      | word w => exact not_isBlank_of_isWord (h.2 c hc) hblank
      | mark c' =>
          rw [List.mem_singleton.mp hc] at hblank
          exact h.1 hblank

/-! ## What stands in front of a piece -/

theorem isBlank_of_mem_lead {p : Place} {t : Token} {c : Char} (hc : c ∈ p.lead t) : isBlank c := by
  have hgap : ∀ g : Gap, g.text.all isBlank := by
    intro g
    cases g <;> rfl
  have htab : ∀ n : Nat, ∀ c ∈ List.replicate n '\t', isBlank c := by
    intro n c hc
    rw [List.eq_of_mem_replicate hc]
    decide
  rcases List.mem_append.mp hc with hc | hc
  · cases hg : p.gapBefore t with
    | none => simp [hg] at hc
    | some g =>
        rw [hg] at hc
        exact List.all_eq_true.mp (hgap g) c hc
  · rw [Place.indentation.eq_def] at hc
    split at hc
    · exact htab _ c hc
    · exact htab _ c hc
    · exact htab _ c hc
    · exact nomatch hc
    · exact nomatch hc

theorem lead_eq_nil_iff {p : Place} {t : Token} : p.lead t = [] ↔ p.gapBefore t = none := by
  rw [Place.lead, List.append_eq_nil_iff]
  cases p.gapBefore t with
  | none => exact ⟨fun _ ↦ rfl, fun _ ↦ ⟨rfl, rfl⟩⟩
  | some g =>
      have hne : g.text ≠ [] := by cases g <;> decide
      exact ⟨fun h ↦ absurd h.1 hne, fun h ↦ absurd h (Option.some_ne_none g)⟩

/-- The gap that is due in front of a token, before spaces are put in its place. -/
def Place.dueBefore (p : Place) (t : Token) : Option Gap :=
  if startsLine t then some .line
  else if t = .word "SELECT".toList && p.depth == 0 then some .emptyLine
  else p.gap

theorem gapBefore_eq {p : Place} (h : ¬ (p.last.isNone && p.gap.isNone)) (t : Token) :
    p.gapBefore t =
      if t = .word "UNION".toList || (p.dueBefore t != some .line && isSpaced t) then
        Place.spaceAfter p.last
      else p.dueBefore t := by
  rw [Place.gapBefore, if_neg h]
  rfl

/-- Where a gap is due there is one, but for blanks behind an opening parenthesis. -/
theorem isSome_gapBefore {p : Place} {t : Token} (hgap : p.gap.isSome)
    (hlast : p.last ≠ some (.mark '(')) : (p.gapBefore t).isSome := by
  have hspace : Place.spaceAfter p.last = some .space := if_neg hlast
  have hdue : (p.dueBefore t).isSome := by
    unfold Place.dueBefore
    split
    · rfl
    · split
      · rfl
      · exact hgap
  rw [gapBefore_eq (by simp [Option.isSome_iff_ne_none.mp hgap])]
  split
  · rw [hspace]
    rfl
  · exact hdue

theorem isSome_gap_afterBlank {p : Place} (hlast : p.last ≠ some (.mark '(')) :
    p.afterBlank.gap.isSome := by
  rw [Place.afterBlank, Place.spaceAfter, if_neg hlast]
  cases p.gap <;> rfl

theorem afterBlank_eq_self {p : Place} (h : p.gap.isSome ∨ p.last = some (.mark '(')) :
    p.afterBlank = p := by
  obtain ⟨last, gap, depth⟩ := p
  cases gap with
  | some g => rfl
  | none =>
      have hlast : last = some (.mark '(') := h.resolve_left Bool.false_ne_true
      simp [Place.afterBlank, Place.spaceAfter, hlast]

theorem dueBefore_afterBlank {p : Place} (h : p.gap = none) (t : Token) :
    p.afterBlank.dueBefore t = (p.dueBefore t).or p.afterBlank.gap := by
  unfold Place.dueBefore
  split
  · rfl
  · have hdepth : p.afterBlank.depth = p.depth := rfl
    rw [hdepth, h]
    split <;> rfl

theorem gap_afterBlank_ne {p : Place} (h : p.gap = none) : p.afterBlank.gap ≠ some .line := by
  have hgap : p.afterBlank.gap = Place.spaceAfter p.last := by
    rw [Place.afterBlank, h, Option.none_or]
  rw [hgap, Place.spaceAfter]
  split <;> decide

/-- A gap that is there without blanks is the same with them. -/
theorem gapBefore_afterBlank {p : Place} {t : Token} (h : (p.gapBefore t).isSome) :
    p.afterBlank.gapBefore t = p.gapBefore t := by
  cases hgap : p.gap with
  | some g => rw [afterBlank_eq_self (.inl (by rw [hgap]; rfl))]
  | none =>
      have hlast : p.last.isNone = false := by
        rw [Bool.eq_false_iff]
        intro hnone
        rw [Place.gapBefore, if_pos (by simp [hnone, hgap])] at h
        exact Bool.false_ne_true h
      have hlast' : p.afterBlank.last = p.last := rfl
      rw [gapBefore_eq (p := p) (by simp [hlast])] at h ⊢
      rw [gapBefore_eq (by rw [hlast', hlast]; exact Bool.false_ne_true), dueBefore_afterBlank hgap, hlast']
      cases hdue : p.dueBefore t with
      | some g => rfl
      | none =>
          -- Nothing is due, so the gap is the space that the token asks for.
          have hasks : t = .word "UNION".toList || isSpaced t := by
            by_contra hnot
            rw [hdue] at h
            simp only [Bool.not_eq_true, Bool.or_eq_false_iff] at hnot
            rw [hnot.1, hnot.2] at h
            exact Bool.false_ne_true h
          have hspace : (p.afterBlank.gap != some .line) = true := by
            simpa using gap_afterBlank_ne hgap
          have hnone : (none != some Gap.line) = true := rfl
          rw [Option.none_or, hspace, hnone, Bool.true_and, if_pos hasks, if_pos hasks]

/-- Blanks in front of a token where a gap was written make for the same gap again. -/
theorem gapBefore_behind_isSome (p : Place) (b : Bool) (t : Token) :
    (p.behind ((p.behind b).gapBefore t).isSome).gapBefore t = (p.behind b).gapBefore t := by
  cases b with
  | false =>
      have hbehind : p.behind false = p := rfl
      rw [hbehind]
      cases hgap : (p.gapBefore t).isSome with
      | false => rfl
      | true => exact gapBefore_afterBlank hgap
  | true =>
      cases hgap : ((p.behind true).gapBefore t).isSome with
      | true => rfl
      | false =>
          have hsame : p.afterBlank = p := by
            apply afterBlank_eq_self
            by_contra hnot
            rw [not_or] at hnot
            have hsome := isSome_gapBefore (t := t) (isSome_gap_afterBlank hnot.2) hnot.2
            exact Bool.false_ne_true (hgap.symm.trans hsome)
          rw [Place.behind, Place.behind, if_neg Bool.false_ne_true, if_pos rfl, hsame]

end SparqlComposer.Layout
