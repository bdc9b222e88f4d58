import SparqlComposer.Proofs.Capture.Scan
import SparqlComposer.Proofs.Span.Escape
import SparqlComposer.Proofs.Text.String

/-!
# Places of names

Names are captured from a text in which spans are hidden and tabs expanded. A place between two
segments of the text is found again there: ahead stands the same word, and behind stands as good as
the same, a space for a tab and the bracket of a key for the end of a span. So the name of every
variable that stands outside the spans is captured, and so is the prefix of every prefixed name.
-/

namespace SparqlComposer

/-! ## Behind a place -/

/-- What stands behind a place of a text, and what the captures read there. The one is as good as
the other: spaces stand for a tab, and what a span is hidden by ends in a bracket. -/
inductive SeenBehind : Text → Text → Prop where
  | start : SeenBehind [] []
  | plain {c : Char} (hc : c ≠ '\t') {b b' : Text} (h : SeenBehind b b') :
      SeenBehind (c :: b) (c :: b')
  | tab {b b' : Text} (h : SeenBehind b b') : SeenBehind ('\t' :: b) (' ' :: b')
  -- A tab may reach over several columns.
  | widerTab {b b' : Text} (h : SeenBehind ('\t' :: b) b') : SeenBehind ('\t' :: b) (' ' :: b')
  | span {c : Char} (hc : c = '"' ∨ c = '>') (b b' : Text) : SeenBehind (c :: b) ('>' :: b')

def spaceForTab (c : Char) : Char := if c = '\t' then ' ' else c

theorem spaceForTab_eq_self {c : Char} (h : c ≠ '\t') : spaceForTab c = c := if_neg h

theorem atWordStart_map (b : Text) : atWordStart (b.map spaceForTab) = atWordStart b := by
  cases b with
  | nil => rfl
  | cons c b =>
      by_cases hc : c = '\t'
      · rw [hc]
        rfl
      · rw [List.map_cons, spaceForTab_eq_self hc]
        rfl

theorem not_mem_of_isFormOf {letter c : Char} (hletter : letter = 'a' ∨ letter = 's')
    (h : isFormOf letter c) : c ∉ [' ', '\t', '>'] := by
  intro hc
  simp only [List.mem_cons, List.not_mem_nil, or_false] at hc
  rcases hletter with rfl | rfl <;> rcases hc with rfl | rfl | rfl <;> exact absurd h (by decide)

namespace SeenBehind

variable {b b' : Text}

theorem atWordStart_eq (h : SeenBehind b b') : atWordStart b' = atWordStart b := by
  cases h with
  | start => rfl
  | plain hc h => rfl
  | tab h => rfl
  | widerTab h => rfl
  | span hc b b' => rcases hc with rfl | rfl <;> rfl

theorem head?_ne_colon (h : SeenBehind b b') (hcolon : b.head? ≠ some ':') :
    b'.head? ≠ some ':' := by
  cases h with
  | start => exact hcolon
  | plain hc h => exact hcolon
  | tab h => simp
  | widerTab h => simp
  | span hc b b' => simp

theorem spaces (h : SeenBehind b b') (n : Nat) :
    SeenBehind ('\t' :: b) (List.replicate n ' ' ++ ' ' :: b') := by
  induction n with
  | zero => exact h.tab
  | succ n ih => exact ih.widerTab

/-- A character that stands for nothing else is in the text itself. -/
theorem exists_of_mark {c : Char} (hc : c ∉ [' ', '\t', '>']) (h : SeenBehind b (c :: b')) :
    ∃ b₀, b = c :: b₀ ∧ SeenBehind b₀ b' := by
  cases h with
  | plain _ h => exact ⟨_, rfl, h⟩
  | tab h => exact absurd (by simp) hc
  | widerTab h => exact absurd (by simp) hc
  | span _ => exact absurd (by simp) hc

/-- A single space is a space of the text or a tab. -/
theorem exists_of_space {c : Char} (hc : c ≠ ' ') (h : SeenBehind b (' ' :: c :: b')) :
    ∃ d b₀, b = d :: b₀ ∧ spaceForTab d = ' ' ∧ SeenBehind b₀ (c :: b') := by
  cases h with
  | plain _ h => exact ⟨' ', _, rfl, rfl, h⟩
  | tab h => exact ⟨'\t', _, rfl, rfl, h⟩
  | widerTab h =>
      cases h with
      | plain htab => exact absurd rfl htab
      | tab => exact absurd rfl hc
      | widerTab => exact absurd rfl hc
      | span hend => exact absurd hend (by decide)

theorem exists_of_keyword {s a : Char} (hs : isFormOf 's' s) (ha : isFormOf 'a' a)
    (h : SeenBehind b (' ' :: s :: a :: b')) : ∃ d b₀, b = d :: s :: a :: b₀ ∧
      (d :: s :: a :: b₀).map spaceForTab = ' ' :: s :: a :: b₀.map spaceForTab ∧
      SeenBehind b₀ b' := by
  have hsmark : s ∉ [' ', '\t', '>'] := not_mem_of_isFormOf (.inr rfl) hs
  have hamark : a ∉ [' ', '\t', '>'] := not_mem_of_isFormOf (.inl rfl) ha
  simp only [List.mem_cons, not_or] at hsmark hamark
  obtain ⟨d, b₁, rfl, hd, h₁⟩ := h.exists_of_space hsmark.1
  obtain ⟨b₂, rfl, h₂⟩ := h₁.exists_of_mark (not_mem_of_isFormOf (.inr rfl) hs)
  obtain ⟨b₃, rfl, h₃⟩ := h₂.exists_of_mark (not_mem_of_isFormOf (.inl rfl) ha)
  refine ⟨d, b₃, rfl, ?_, h₃⟩
  rw [List.map_cons, List.map_cons, List.map_cons, hd, spaceForTab_eq_self hsmark.2.1,
    spaceForTab_eq_self hamark.2.1]

theorem followsTargetAs_map (h : SeenBehind b b') (htarget : followsTargetAs b') :
    followsTargetAs (b.map spaceForTab) := by
  unfold followsTargetAs at htarget
  split at htarget
  · rename_i s a c b'
    simp only [Bool.and_eq_true] at htarget
    obtain ⟨⟨⟨hs, ha⟩, hc⟩, has⟩ := htarget
    obtain ⟨s', a', b'', rfl, hs', ha', hstart⟩ := followsAs_iff.mp has
    have hmark : c ∉ [' ', '\t', '>'] := by
      rcases cases_of_isSigil hc with rfl | rfl <;> decide
    obtain ⟨d, b₁, rfl, hmap, h₁⟩ := h.exists_of_keyword hs ha
    obtain ⟨b₂, rfl, h₂⟩ := h₁.exists_of_mark hmark
    obtain ⟨d', b₃, rfl, hmap', h₃⟩ := h₂.exists_of_keyword hs' ha'
    simp only [List.mem_cons, not_or] at hmark
    have hagain : followsAs (' ' :: s' :: a' :: b₃.map spaceForTab) := by
      refine followsAs_iff.mpr ⟨s', a', _, rfl, hs', ha', ?_⟩
      rw [atWordStart_map, ← h₃.atWordStart_eq]
      exact hstart
    rw [hmap, List.map_cons, hmap', spaceForTab_eq_self hmark.2.1, followsTargetAs, hs, ha, hc,
      hagain]
    rfl
  · cases htarget

end SeenBehind

/-- What is hidden and expanded behind a place is seen there. -/
theorem SeenBehind.segments {b b' : Text} (h : SeenBehind b b') (ss : List Segment) (column : Nat) :
    SeenBehind ((ss.flatMap Segment.text).reverse ++ b)
      ((expandTabsFrom column (ss.flatMap Segment.hidden)).reverse ++ b') := by
  induction ss generalizing b b' column with
  | nil => exact h
  | cons seg ss ih =>
      rw [List.flatMap_cons, List.flatMap_cons]
      cases seg with
      | plain c =>
          rw [Segment.text, Segment.hidden, List.singleton_append, List.singleton_append]
          by_cases hc : c = '\t'
          · subst hc
            obtain ⟨n, column', hexpand⟩ :=
              exists_expandTabsFrom_tab column (ss.flatMap Segment.hidden)
            simpa [hexpand] using ih (h.spaces n) column'
          · obtain ⟨column', hexpand⟩ :=
              exists_expandTabsFrom_cons hc column (ss.flatMap Segment.hidden)
            simpa [hexpand] using ih (h.plain hc) column'
      | span s =>
          obtain ⟨w, d, hd, hs⟩ := s.exists_text_eq
          have hbracketed := expandTabsFrom_bracketed
            (fun _ ↦ Md5.isWord_of_mem_ofText (t := s.text)) column (ss.flatMap Segment.hidden)
          have hexpand : expandTabsFrom column (s.key ++ ss.flatMap Segment.hidden) =
              '<' :: Md5.ofText s.text ++ '>' :: expandTabsFrom
                (column + ((Md5.ofText s.text).length + 2)) (ss.flatMap Segment.hidden) := by
            rw [← hbracketed, Span.key, List.append_assoc, List.singleton_append]
          have hseen := ih (.span hd (w.reverse ++ b) ((Md5.ofText s.text).reverse ++ '<' :: b'))
            (column + ((Md5.ofText s.text).length + 2))
          rw [Segment.text, Segment.hidden, hexpand]
          simpa [hs] using hseen

/-! ## Ahead of a place -/

theorem mem_head?_escaped {c : Char} {t : Text} (h : c ∈ (escaped t).head?) :
    c ∈ t.head? ∨ c = '<' := by
  cases t with
  | nil =>
      rw [escaped_nil] at h
      exact .inl h
  | cons d t =>
      cases hopen : Span.openedBy? d t with
      | none =>
          rw [escaped, segments_plain hopen] at h
          exact .inl h
      | some found =>
          obtain ⟨s, rest⟩ := found
          rw [Span.append_of_openedBy? hopen, escaped_span (Span.closed_of_openedBy? hopen)] at h
          exact .inr (Option.some.inj h).symm

theorem mem_head?_expandTabsFrom {c : Char} {t : Text} {column : Nat}
    (h : c ∈ (expandTabsFrom column t).head?) : c ∈ t.head? ∨ c = ' ' := by
  cases t with
  | nil => exact .inl h
  | cons d t =>
      by_cases htab : d = '\t'
      · subst htab
        obtain ⟨n, column', hexpand⟩ := exists_expandTabsFrom_tab column t
        rw [hexpand] at h
        exact .inr (Option.some.inj h).symm
      · obtain ⟨column', hexpand⟩ := exists_expandTabsFrom_cons htab column t
        rw [hexpand] at h
        exact .inl h

/-- Where no word stands in a text, the captures read none either. -/
theorem not_isWord_of_seen {rest : Text} (h : ∀ c ∈ rest.head?, ¬ isWord c) (column : Nat) :
    ∀ c ∈ (expandTabsFrom column (escaped rest)).head?, ¬ isWord c := by
  intro c hc
  rcases mem_head?_expandTabsFrom hc with hc | rfl
  · rcases mem_head?_escaped hc with hc | rfl
    · exact h c hc
    · decide
  · decide

/-- The marks that escaping and tab stops depend on. -/
def layoutMarks : List Char := ['"', '<', '\t', '\n', '\r']

theorem not_mem_layoutMarks {c : Char} (h : isWord c) : c ∉ layoutMarks := by
  have hnot : ∀ c ∈ layoutMarks, ¬ isWord c := List.all_iff_forall_prop.mp (by decide)
  exact fun hmem ↦ hnot c hmem h

theorem seen_append {w : Text} (hw : ∀ c ∈ w, c ∉ layoutMarks) (rest : Text) (column : Nat) :
    expandTabsFrom column (escaped (w ++ rest)) =
      w ++ expandTabsFrom (column + w.length) (escaped rest) := by
  have hspan : ∀ c ∈ w, c ≠ '"' ∧ c ≠ '<' := by
    intro c hc
    have hmark := hw c hc
    simp only [layoutMarks, List.mem_cons, not_or] at hmark
    exact ⟨hmark.1, hmark.2.1⟩
  have htab : ∀ c ∈ w, c ∉ ['\t', '\n', '\r'] := by
    intro c hc hmem
    exact hw c hc (List.mem_cons_of_mem _ (List.mem_cons_of_mem _ hmem))
  rw [escaped_append hspan, expandTabsFrom_append htab]

/-! ## Places between segments -/

theorem mem_captures {pattern : CapturePattern} {name t : Text} :
    name ∈ captures pattern t ↔ name ∈ scan pattern 0 [] (expandTabs (escaped t)) := by
  rw [captures, OrderedSet.mem_ofList]
  exact iff_of_eq (congrArg (name ∈ ·) (List.map_id _))

/-- The place with these texts behind, read backwards, and ahead is between two segments. -/
def IsBoundary (t behind ahead : Text) : Prop :=
  ∃ ss ss', segments t = ss ++ ss' ∧ behind = (ss.flatMap Segment.text).reverse ∧
    ahead = ss'.flatMap Segment.text

namespace IsBoundary

variable {t behind ahead rest : Text}

theorem start (t : Text) : IsBoundary t [] t := ⟨[], segments t, rfl, rfl, (text_segments t).symm⟩

theorem exists_seen (h : IsBoundary t behind ahead) : ∃ w column,
    expandTabs (escaped t) = w ++ expandTabsFrom column (escaped ahead) ∧
      SeenBehind behind w.reverse := by
  obtain ⟨ss, ss', hss, rfl, rfl⟩ := h
  have hcut : Cut ss' := Cut.right (hss ▸ cut_segments t)
  obtain ⟨column, hexpand⟩ := exists_expandTabsFrom_append (ss.flatMap Segment.hidden)
    (ss'.flatMap Segment.hidden) 0
  refine ⟨_, column, ?_, by simpa using SeenBehind.start.segments ss 0⟩
  rw [expandTabs, escaped, escaped, segments_of_cut hcut, hss, List.flatMap_append, hexpand]

/-- Ahead of a place between segments opens no span, or the next one does. -/
theorem cases_of_cons {c : Char} (h : IsBoundary t behind (c :: rest)) :
    (Span.openedBy? c rest = none ∧ IsBoundary t (c :: behind) rest) ∨
      ∃ ss s ss', segments t = ss ++ .span s :: ss' ∧ behind = (ss.flatMap Segment.text).reverse ∧
        c :: rest = s.text ++ ss'.flatMap Segment.text := by
  obtain ⟨ss, ss', hss, hbehind, hahead⟩ := h
  cases ss' with
  | nil => cases hahead
  | cons seg ss' =>
      cases seg with
      | plain d =>
          obtain ⟨rfl, rfl⟩ := List.cons.inj hahead
          have hcut : Cut (.plain c :: ss') := Cut.right (hss ▸ cut_segments t)
          refine .inl ⟨openedBy?_eq_none_iff.mpr hcut.1, ss ++ [.plain c], ss', ?_, ?_, rfl⟩
          · simpa using hss
          · simp [hbehind, Segment.text]
      | span s => exact .inr ⟨ss, s, ss', hss, hbehind, hahead⟩

/-- Every variable between segments is used or assigned, unless it stands behind an assigned
variable that is named like the keyword. -/
theorem mem_variables {c : Char} {r : Run isWord} (h : IsBoundary t behind (c :: (r.text ++ rest)))
    (hc : isSigil c) (hstart : atWordStart behind) (hrest : ∀ d ∈ rest.head?, ¬ isWord d) :
    r.text ∈ variablesOf t ∨ r.text ∈ assignmentsOf t ∨
      followsTargetAs (behind.map spaceForTab) := by
  obtain ⟨w, column, hseen, hbehind⟩ := h.exists_seen
  have hplain : ∀ d ∈ c :: r.text, d ∉ layoutMarks := by
    intro d hd
    rcases List.mem_cons.mp hd with rfl | hd
    · rcases cases_of_isSigil hc with rfl | rfl <;> decide
    · exact not_mem_layoutMarks (r.inClass_of_mem d hd)
  rw [← List.cons_append, seen_append hplain, List.cons_append] at hseen
  have hend := not_isWord_of_seen hrest (column + (c :: r.text).length)
  have hstart' : atWordStart w.reverse := hbehind.atWordStart_eq.trans hstart
  by_cases has : followsAs w.reverse
  · by_cases htarget : followsTargetAs w.reverse
    · exact .inr (.inr (hbehind.followsTargetAs_map htarget))
    · refine .inr (.inl (mem_captures.mpr ?_))
      rw [hseen]
      exact mem_scan_assignmentTarget r hc has htarget hend
  · refine .inl (mem_captures.mpr ?_)
    rw [hseen]
    exact mem_scan_variableUse r hc hstart' has hend

/-- The prefix of every prefixed name between segments is used, unless a colon stands in front. -/
theorem mem_prefixes {name localName : Run isWord}
    (h : IsBoundary t behind (name.text ++ ':' :: (localName.text ++ rest)))
    (hstart : atWordStart behind) (hcolon : behind.head? ≠ some ':')
    (hrest : ∀ d ∈ rest.head?, ¬ isWord d) : name.text ∈ prefixesOf t := by
  obtain ⟨w, column, hseen, hbehind⟩ := h.exists_seen
  have hplain : ∀ d ∈ name.text ++ ':' :: localName.text, d ∉ layoutMarks := by
    intro d hd
    rcases List.mem_append.mp hd with hd | hd
    · exact not_mem_layoutMarks (name.inClass_of_mem d hd)
    · rcases List.mem_cons.mp hd with rfl | hd
      · decide
      · exact not_mem_layoutMarks (localName.inClass_of_mem d hd)
  have hsplit : name.text ++ ':' :: (localName.text ++ rest) =
      name.text ++ ':' :: localName.text ++ rest := by
    simp
  rw [hsplit, seen_append hplain, List.append_assoc, List.cons_append] at hseen
  refine mem_captures.mpr ?_
  rw [hseen]
  exact mem_scan_prefixUse name localName (hbehind.atWordStart_eq.trans hstart)
    (hbehind.head?_ne_colon hcolon) (not_isWord_of_seen hrest _)

end IsBoundary

end SparqlComposer
