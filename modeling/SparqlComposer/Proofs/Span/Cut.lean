import SparqlComposer.Span
import SparqlComposer.Text.Blank

/-!
# Cutting a text into segments

The segments of a text are told by two things: nothing closes a quote or bracket that is left
plain, and every span ends where its opening character is closed first. Segments with these two
properties are found again in the text that they make up, and blanks among them play no part.
-/

namespace SparqlComposer

namespace Span

/-- The closing character of the span does not occur before its end. -/
def Closed : Span → Prop
  | quoted body => '"' ∉ body
  | bracketed body => '>' ∉ body

theorem closed_of_openedBy? {c : Char} {cs rest : Text} {s : Span}
    (h : openedBy? c cs = some (s, rest)) : s.Closed := by
  unfold openedBy? at h
  split at h
  · obtain ⟨⟨body, rest'⟩, hcut, heq⟩ := Option.map_eq_some_iff.mp h
    obtain ⟨rfl, rfl⟩ := Prod.mk.inj heq
    exact (cutAt?_eq_some_iff.mp hcut).2
  · split at h
    · obtain ⟨⟨body, rest'⟩, hcut, heq⟩ := Option.map_eq_some_iff.mp h
      obtain ⟨rfl, rfl⟩ := Prod.mk.inj heq
      exact (cutAt?_eq_some_iff.mp hcut).2
    · exact nomatch h

/-- A closed span is cut off the text that it starts. -/
theorem exists_openedBy? {s : Span} (h : s.Closed) (rest : Text) :
    ∃ c cs, s.text ++ rest = c :: cs ∧ openedBy? c cs = some (s, rest) := by
  cases s with
  | quoted body =>
      have hcut : cutAt? '"' (body ++ '"' :: rest) = some (body, rest) :=
        cutAt?_eq_some_iff.mpr ⟨rfl, h⟩
      exact ⟨'"', body ++ '"' :: rest, by simp [text], by simp [openedBy?, hcut]⟩
  | bracketed body =>
      have hcut : cutAt? '>' (body ++ '>' :: rest) = some (body, rest) :=
        cutAt?_eq_some_iff.mpr ⟨rfl, h⟩
      exact ⟨'<', body ++ '>' :: rest, by simp [text], by simp [openedBy?, hcut]⟩

end Span

theorem cutAt?_eq_none_iff {stop : Char} {t : Text} : cutAt? stop t = none ↔ stop ∉ t := by
  induction t with
  | nil => simp [cutAt?]
  | cons c t ih =>
      rw [cutAt?, List.mem_cons, not_or]
      by_cases hc : c = stop
      · simp [hc]
      · rw [if_neg hc, Option.map_eq_none_iff, ih]
        exact ⟨fun h ↦ ⟨Ne.symm hc, h⟩, And.right⟩

/-- A character opens no span exactly when what would close it is missing. -/
theorem openedBy?_eq_none_iff {c : Char} {cs : Text} :
    Span.openedBy? c cs = none ↔ (c = '"' → '"' ∉ cs) ∧ (c = '<' → '>' ∉ cs) := by
  unfold Span.openedBy?
  split
  · rename_i hc
    subst hc
    rw [Option.map_eq_none_iff, cutAt?_eq_none_iff]
    exact ⟨fun h ↦ ⟨fun _ ↦ h, fun heq ↦ absurd heq (by decide)⟩, fun h ↦ h.1 rfl⟩
  · rename_i hquote
    split
    · rename_i hc
      subst hc
      rw [Option.map_eq_none_iff, cutAt?_eq_none_iff]
      exact ⟨fun h ↦ ⟨fun heq ↦ absurd heq hquote, fun _ ↦ h⟩, fun h ↦ h.2 rfl⟩
    · rename_i hbracket
      exact ⟨fun _ ↦ ⟨fun heq ↦ absurd heq hquote, fun heq ↦ absurd heq hbracket⟩, fun _ ↦ rfl⟩

namespace Segment

def isBlank : Segment → Bool
  | plain c => SparqlComposer.isBlank c
  | span _ => false

def span? : Segment → Option Span
  | plain _ => none
  | span s => some s

end Segment

def spans (ss : List Segment) : List Span := ss.filterMap Segment.span?

/-- The segments without blanks. -/
def ink (ss : List Segment) : List Segment := ss.filter (!·.isBlank)

/-- Nothing closes a plain quote or bracket, and every span is closed first at its end. -/
def Cut : List Segment → Prop
  | [] => True
  | .plain c :: ss => ((c = '"' → '"' ∉ ss.flatMap Segment.text) ∧
      (c = '<' → '>' ∉ ss.flatMap Segment.text)) ∧ Cut ss
  | .span s :: ss => s.Closed ∧ Cut ss

theorem Cut.right {ss ss' : List Segment} (h : Cut (ss ++ ss')) : Cut ss' := by
  induction ss with
  | nil => exact h
  | cons seg ss ih => cases seg <;> exact ih h.2

theorem cut_segments (t : Text) : Cut (segments t) := by
  fun_induction segments t with
  | case1 => trivial
  | case2 c cs s rest h ih => exact ⟨Span.closed_of_openedBy? h, ih⟩
  | case3 c cs h ih =>
      refine ⟨?_, ih⟩
      rw [text_segments]
      exact openedBy?_eq_none_iff.mp h

theorem segments_plain {c : Char} {t : Text} (h : Span.openedBy? c t = none) :
    segments (c :: t) = .plain c :: segments t := by
  rw [segments]
  split
  · rename_i hsome
    cases h.symm.trans hsome
  · rfl

theorem segments_span {s : Span} (h : s.Closed) (t : Text) :
    segments (s.text ++ t) = .span s :: segments t := by
  obtain ⟨c, cs, htext, hopen⟩ := Span.exists_openedBy? h t
  rw [htext, segments]
  split
  · rename_i hsome
    obtain ⟨rfl, rfl⟩ := Prod.mk.inj (Option.some.inj (hopen.symm.trans hsome))
    rfl
  · rename_i hnone
    cases hopen.symm.trans hnone

theorem segments_of_cut {ss : List Segment} (h : Cut ss) :
    segments (ss.flatMap Segment.text) = ss := by
  induction ss with
  | nil => simp [segments]
  | cons seg ss ih =>
      cases seg with
      | plain c =>
          have hopen := openedBy?_eq_none_iff.mpr h.1
          rw [List.flatMap_cons, Segment.text, List.singleton_append, segments_plain hopen, ih h.2]
      | span s => rw [List.flatMap_cons, Segment.text, segments_span h.1, ih h.2]

/-! ## Blanks -/

theorem ink_append (ss ss' : List Segment) : ink (ss ++ ss') = ink ss ++ ink ss' :=
  List.filter_append ss ss'

theorem ink_cons {seg : Segment} (h : seg.isBlank = false) (ss : List Segment) :
    ink (seg :: ss) = seg :: ink ss := by
  rw [ink, List.filter_cons_of_pos (by rw [h]; rfl), ink]

theorem ink_cons_of_isBlank {seg : Segment} (h : seg.isBlank) (ss : List Segment) :
    ink (seg :: ss) = ink ss := by
  rw [ink, List.filter_cons_of_neg (by rw [h]; exact Bool.false_ne_true), ink]

theorem ink_of_isBlank {ss : List Segment} (h : ∀ seg ∈ ss, seg.isBlank) : ink ss = [] := by
  rw [ink, List.filter_eq_nil_iff]
  intro seg hseg
  simp [h seg hseg]

theorem ink_of_not_isBlank {ss : List Segment} (h : ∀ seg ∈ ss, seg.isBlank = false) :
    ink ss = ss := by
  rw [ink, List.filter_eq_self]
  intro seg hseg
  simp [h seg hseg]

theorem spans_ink (ss : List Segment) : spans (ink ss) = spans ss := by
  induction ss with
  | nil => rfl
  | cons seg ss ih =>
      cases seg with
      | plain c =>
          have htail : spans (.plain c :: ss) = spans ss := rfl
          rw [htail, ← ih, ink, List.filter_cons]
          split <;> rfl
      | span s =>
          have hhead : spans (ink (.span s :: ss)) = s :: spans (ink ss) := rfl
          rw [hhead, ih]
          rfl

/-- A character that is no blank is in the text whether or not the blanks are. -/
theorem mem_text_ink {ss : List Segment} {c : Char} (hc : isBlank c = false) :
    c ∈ (ink ss).flatMap Segment.text ↔ c ∈ ss.flatMap Segment.text := by
  simp only [List.mem_flatMap, ink, List.mem_filter, Bool.not_eq_true']
  constructor
  · rintro ⟨seg, ⟨hseg, -⟩, hmem⟩
    exact ⟨seg, hseg, hmem⟩
  · rintro ⟨seg, hseg, hmem⟩
    refine ⟨seg, ⟨hseg, ?_⟩, hmem⟩
    cases seg with
    | plain c' =>
        obtain rfl := List.mem_singleton.mp hmem
        exact hc
    | span s => rfl

theorem cut_ink {ss : List Segment} : Cut (ink ss) ↔ Cut ss := by
  induction ss with
  | nil => rfl
  | cons seg ss ih =>
      cases seg with
      | span s => exact and_congr_right fun _ ↦ ih
      | plain c =>
          by_cases hc : isBlank c
          · have hquote : c ≠ '"' := by
              rintro rfl
              exact absurd hc (by decide)
            have hbracket : c ≠ '<' := by
              rintro rfl
              exact absurd hc (by decide)
            have hseg : (Segment.plain c).isBlank := hc
            rw [ink_cons_of_isBlank hseg, ih, Cut]
            exact ⟨fun h ↦ ⟨⟨fun heq ↦ absurd heq hquote, fun heq ↦ absurd heq hbracket⟩, h⟩,
              And.right⟩
          · have hseg : (Segment.plain c).isBlank = false := Bool.eq_false_iff.mpr hc
            rw [ink_cons hseg, Cut, Cut, ih, mem_text_ink (by decide), mem_text_ink (by decide)]

end SparqlComposer
