import SparqlComposer.Proofs.Span.Restore

/-!
# Escaping from the left

A text is escaped piece by piece: plain characters stay, and a span gives its key. Keys are words in
brackets, so escaping brings no other marks into a text.
-/

namespace SparqlComposer

theorem ne_of_isWord {c : Char} (h : isWord c) : c ≠ '"' ∧ c ≠ '<' := by
  constructor
  · rintro rfl
    exact absurd h (by decide)
  · rintro rfl
    exact absurd h (by decide)

theorem escaped_nil : escaped [] = [] := by
  rw [escaped, segments]
  rfl

theorem escaped_plain {c : Char} (hc : c ≠ '"' ∧ c ≠ '<') (t : Text) :
    escaped (c :: t) = c :: escaped t := by
  have hopen : Span.openedBy? c t = none :=
    openedBy?_eq_none_iff.mpr ⟨fun h ↦ absurd h hc.1, fun h ↦ absurd h hc.2⟩
  rw [escaped, segments_plain hopen]
  rfl

theorem escaped_append {w : Text} (hw : ∀ c ∈ w, c ≠ '"' ∧ c ≠ '<') (t : Text) :
    escaped (w ++ t) = w ++ escaped t := by
  induction w with
  | nil => rfl
  | cons c w ih =>
      rw [List.cons_append, escaped_plain (hw c List.mem_cons_self),
        ih fun d hd ↦ hw d (List.mem_cons_of_mem c hd), List.cons_append]

theorem flatMap_text_plain (v : Text) : (v.map Segment.plain).flatMap Segment.text = v := by
  rw [List.flatMap_map]
  exact List.flatMap_singleton' v

theorem cut_plain {v : Text} (hv : ∀ c ∈ v, c ∉ ['"', '<', '>']) : Cut (v.map .plain) := by
  induction v with
  | nil => trivial
  | cons c v ih =>
      have hc := hv c List.mem_cons_self
      refine ⟨⟨?_, ?_⟩, ih fun d hd ↦ hv d (List.mem_cons_of_mem c hd)⟩
      · rintro rfl
        exact absurd (by decide) hc
      · rintro rfl
        exact absurd (by decide) hc

theorem Cut.append_plain {ss : List Segment} {v : Text} (h : Cut ss)
    (hv : ∀ c ∈ v, c ∉ ['"', '<', '>']) : Cut (ss ++ v.map .plain) := by
  induction ss with
  | nil => exact cut_plain hv
  | cons seg ss ih =>
      cases seg with
      | plain c =>
          obtain ⟨⟨hquote, hbracket⟩, hrest⟩ := h
          rw [List.cons_append, Cut, List.flatMap_append, flatMap_text_plain, List.mem_append,
            List.mem_append, not_or, not_or]
          exact ⟨⟨fun hc ↦ ⟨hquote hc, fun hmem ↦ hv _ hmem (by decide)⟩,
            fun hc ↦ ⟨hbracket hc, fun hmem ↦ hv _ hmem (by decide)⟩⟩, ih hrest⟩
      | span s => exact ⟨h.1, ih h.2⟩

/-- What opens and closes no span stays behind any text. -/
theorem escaped_append_plain {v : Text} (hv : ∀ c ∈ v, c ∉ ['"', '<', '>']) (t : Text) :
    escaped (t ++ v) = escaped t ++ v := by
  have hsegments := segments_of_cut ((cut_segments t).append_plain hv)
  rw [List.flatMap_append, text_segments, flatMap_text_plain] at hsegments
  rw [escaped, hsegments, List.flatMap_append, List.flatMap_map]
  exact congrArg (escaped t ++ ·) (List.flatMap_singleton' v)

theorem escaped_eq_self {t : Text} (h : ∀ c ∈ t, c ≠ '"' ∧ c ≠ '<') : escaped t = t := by
  have happend := escaped_append h []
  rwa [escaped_nil, List.append_nil] at happend

theorem escaped_span {s : Span} (h : s.Closed) (t : Text) :
    escaped (s.text ++ t) = s.key ++ escaped t := by
  rw [escaped, segments_span h]
  rfl

theorem Span.of_mem_key {c : Char} {s : Span} (h : c ∈ s.key) : isWord c ∨ c = '<' ∨ c = '>' := by
  simp only [key, List.mem_append, List.mem_cons, List.not_mem_nil, or_false] at h
  rcases h with (hopen | hword) | hclose
  · exact .inr (.inl hopen)
  · exact .inl (Md5.isWord_of_mem_ofText hword)
  · exact .inr (.inr hclose)

/-- Hiding adds nothing to a text but words in brackets. -/
theorem mem_of_mem_escaped {c : Char} {t : Text} (h : c ∈ escaped t) :
    c ∈ t ∨ isWord c ∨ c = '<' ∨ c = '>' := by
  obtain ⟨seg, hseg, hc⟩ := List.mem_flatMap.mp h
  cases seg with
  | plain d =>
      left
      rw [← text_segments t]
      exact List.mem_flatMap.mpr ⟨.plain d, hseg, hc⟩
  | span s => exact .inr (Span.of_mem_key hc)

theorem not_mem_escaped {c : Char} {t : Text} (hword : ¬ isWord c) (hopen : c ≠ '<')
    (hclose : c ≠ '>') (h : c ∉ t) : c ∉ escaped t := by
  intro hmem
  rcases mem_of_mem_escaped hmem with hc | hc | hc | hc
  · exact h hc
  · exact hword hc
  · exact hopen hc
  · exact hclose hc

end SparqlComposer
