import SparqlComposer.Proofs.Layout.Line

/-!
# Indentation

A layout breaks the line in its gaps and nowhere else. The text that is written so far tells the
place where the layout stands: how deep it is, and whether a semicolon comes last. So what stands
behind a line break is told by what stands in front of it: a line is indented with one tab for every
brace that is open, and with one more where it goes on behind a semicolon.
-/

namespace SparqlComposer.Layout

/-! ## How a line starts -/

/-- The depth of a line with the given content. A brace that it starts with is closed already. -/
def lineDepth (before content : Text) : Int :=
  braceDepth before - if content.head? = some '}' then 1 else 0

/-- Whether a line goes on behind a semicolon, that is with nothing that starts a line anyway. -/
def continues (before content : Text) : Bool :=
  lastInk before == some ';' &&
    !(lineWords.contains (leadingWord content) || content.head? == some '}') &&
      !(leadingWord content == "SELECT".toList && lineDepth before content == 0)

/-- One tab for every open brace, and one more for a line that goes on. -/
def tabs (before content : Text) : Text :=
  List.replicate ((lineDepth before content).toNat + (continues before content).toNat) '\t'

/-- What stands behind a line break, with which the text in front of it ends: nothing at the end, one
empty line before an outermost `SELECT`, and otherwise a line that is indented. -/
inductive FollowsBreak (before : Text) : Text → Prop where
  | nothing : FollowsBreak before []
  | emptyLine {content : Text} (hword : leadingWord content = "SELECT".toList)
      (hdepth : braceDepth before = 0) : FollowsBreak before ('\n' :: content)
  | line {content : Text} {c : Char} (hhead : content.head? = some c) (hc : ¬ isBlank c) :
      FollowsBreak before (tabs before content ++ content)

/-- No blank stands at the end of a line. -/
def EndsClean (before : Text) : Prop := ∀ c ∈ before.getLast?, c = '\n' ∨ ¬ isBlank c

/-! ## The place that a text leads to -/

section Reaches

variable {before : Text} {p : Place} {t : Token}

/-- The text that is written so far tells the place behind it. No empty line is ever due there. -/
structure Reaches (before : Text) (p : Place) : Prop where
  depth_eq : p.depth = braceDepth before
  last : ∀ c ∈ before.getLast?, ¬ isBlank c
  continuation_iff : p.gap = some .continuation ↔ lastInk before = some ';'
  gap_ne : p.gap ≠ some .emptyLine

theorem reaches_start : Reaches [] Place.start where
  depth_eq := rfl
  last _ hc := nomatch hc
  continuation_iff := iff_of_false (fun h ↦ nomatch h) (fun h ↦ nomatch h)
  gap_ne h := nomatch h

/-- Blanks make for a space at most. -/
theorem Reaches.behind (h : Reaches before p) (b : Bool) : Reaches before (p.behind b) := by
  cases b with
  | false => exact h
  | true =>
      cases hgap : p.gap with
      | some g =>
          have hsame : p.behind true = p := afterBlank_eq_self (.inl (by rw [hgap]; rfl))
          rwa [hsame]
      | none =>
          have hspace : (p.behind true).gap = Place.spaceAfter p.last := by
            rw [Place.behind, if_pos rfl, Place.afterBlank, hgap, Option.none_or]
          have hne : ∀ g, g ≠ .space → (p.behind true).gap ≠ some g := by
            intro g hg
            rw [hspace, Place.spaceAfter]
            split
            · exact (Option.some_ne_none g).symm
            · exact fun heq ↦ hg (Option.some.inj heq).symm
          refine ⟨h.depth_eq, h.last, iff_of_false (hne _ (by decide)) ?_, hne _ (by decide)⟩
          rw [← h.continuation_iff, hgap]
          exact (Option.some_ne_none _).symm

theorem gapAfter_eq_continuation_iff (t : Token) :
    Place.gapAfter t = some .continuation ↔ t = .mark ';' := by
  unfold Place.gapAfter
  split
  · rename_i hline
    refine iff_of_false (by simp) ?_
    rintro rfl
    simp at hline
  · simp

theorem gapAfter_ne_emptyLine (t : Token) : Place.gapAfter t ≠ some .emptyLine := by
  unfold Place.gapAfter
  split
  · decide
  · split
    · decide
    · decide

/-- With the next piece the text leads to the next place. -/
theorem Reaches.after (h : Reaches before p) (b : Bool) {i : Piece} (hi : i.Regular) :
    Reaches (before ++ ((p.behind b).lead i.first ++ i.hidden)) (p.after i.last) := by
  obtain ⟨c, hlast, hsemicolon⟩ := hi.exists_getLast?_hidden
  have hc := hi.not_isBlank_of_mem_hidden (List.mem_of_getLast? hlast)
  have hlead : ∀ d ∈ (p.behind b).lead i.first, isBlank d := fun d ↦ isBlank_of_mem_lead
  rw [← List.append_assoc]
  refine ⟨?_, ?_, ?_, gapAfter_ne_emptyLine i.last⟩
  · rw [hi.depth_after, h.depth_eq, braceDepth_append, braceDepth_append_blanks _ hlead]
  · intro d hd
    rw [List.getLast?_append, hlast] at hd
    obtain rfl := Option.some.inj hd
    exact hc
  · rw [lastInk_append _ hlast hc, Option.some.injEq, hsemicolon]
    exact gapAfter_eq_continuation_iff i.last

/-! ## Gaps with a line break -/

/-- Whether a token goes on behind a semicolon. -/
def Place.goesOn (p : Place) (t : Token) : Bool :=
  p.gap == some .continuation && !startsLine t &&
    !(t == .word "SELECT".toList && p.depthAt t == 0)

/-- The tabs of a line are told by the place, whatever line breaks stand in front of it. -/
theorem Reaches.tabs_eq (h : Reaches before p) {content : Text} (hleads : Leads t content)
    {blanks : Text} (hblanks : ∀ c ∈ blanks, isBlank c) : tabs (before ++ blanks) content =
      List.replicate ((p.depthAt t).toNat + (p.goesOn t).toNat) '\t' := by
  have hdepth : lineDepth (before ++ blanks) content = p.depthAt t := by
    rw [lineDepth, braceDepth_append_blanks _ hblanks, ← h.depth_eq, Place.depthAt]
    by_cases hclose : t = .mark '}'
    · rw [if_pos (hleads.close_iff.mp hclose), if_pos hclose]
    · rw [if_neg (mt hleads.close_iff.mpr hclose), if_neg hclose, Int.sub_zero]
  have hsemicolon : (lastInk (before ++ blanks) == some ';') = (p.gap == some .continuation) := by
    rw [lastInk_append_blanks _ hblanks, Bool.eq_iff_iff, beq_iff_eq, beq_iff_eq,
      h.continuation_iff]
  have hselect : (leadingWord content == "SELECT".toList) = (t == .word "SELECT".toList) := by
    rw [Bool.eq_iff_iff, beq_iff_eq, beq_iff_eq, hleads.select_iff]
  rw [tabs, continues, hdepth, hsemicolon, hselect, ← hleads.startsLine_eq, Place.goesOn]

theorem dueBefore_of_gapBefore {g : Gap} (h : p.gapBefore t = some g) (hg : g ≠ .space) :
    p.dueBefore t = some g := by
  by_cases hstart : p.last.isNone && p.gap.isNone
  · rw [Place.gapBefore, if_pos hstart] at h
    cases h
  · rw [gapBefore_eq hstart] at h
    split at h
    · unfold Place.spaceAfter at h
      split at h
      · cases h
      · exact absurd (Option.some.inj h).symm hg
    · exact h

/-- A token that starts a line, an outermost `SELECT`, and all others. -/
theorem dueBefore_cases (p : Place) (t : Token) :
    (startsLine t ∧ p.dueBefore t = some .line) ∨
      (t = .word "SELECT".toList ∧ p.depth = 0 ∧ p.dueBefore t = some .emptyLine) ∨
      (startsLine t = false ∧ (t = .word "SELECT".toList → p.depth ≠ 0) ∧
        p.dueBefore t = p.gap) := by
  unfold Place.dueBefore
  split
  · rename_i hline
    exact .inl ⟨hline, rfl⟩
  · rename_i hline
    split
    · rename_i hselect
      rw [Bool.and_eq_true, decide_eq_true_iff, beq_iff_eq] at hselect
      exact .inr (.inl ⟨hselect.1, hselect.2, rfl⟩)
    · rename_i hselect
      rw [Bool.and_eq_true, decide_eq_true_iff, beq_iff_eq, not_and] at hselect
      exact .inr (.inr ⟨Bool.eq_false_iff.mpr hline, hselect, rfl⟩)

/-- In front of a token stands no line break, or one with the tabs of the line, or an empty line. -/
theorem Reaches.lead_cases (h : Reaches before p) (t : Token) :
    '\n' ∉ p.lead t ∨
      p.lead t = '\n' :: List.replicate ((p.depthAt t).toNat + (p.goesOn t).toNat) '\t' ∨
      (p.lead t = ['\n', '\n'] ∧ t = .word "SELECT".toList ∧ p.depth = 0) := by
  have hspace : '\n' ∉ [' '] := by decide
  rw [Place.lead]
  cases hgap : p.gapBefore t with
  | none => exact .inl List.not_mem_nil
  | some g =>
      by_cases hg : g = .space
      · subst hg
        exact .inl hspace
      have hdue := dueBefore_of_gapBefore hgap hg
      rcases dueBefore_cases p t with ⟨hline, heq⟩ | ⟨rfl, hdepth, heq⟩ | ⟨hline, hselect, heq⟩
      · obtain rfl := Option.some.inj (hdue.symm.trans heq)
        have hgoes : p.goesOn t = false := by simp [Place.goesOn, hline]
        rw [hgoes]
        exact .inr (.inl rfl)
      · obtain rfl := Option.some.inj (hdue.symm.trans heq)
        have hdepth' : p.depthAt (.word "SELECT".toList) = 0 := hdepth
        rw [hdepth']
        exact .inr (.inr ⟨rfl, rfl, hdepth⟩)
      · have hdue' : p.gap = some g := heq.symm.trans hdue
        cases g with
        | space => exact absurd rfl hg
        | emptyLine => exact absurd hdue' h.gap_ne
        | line =>
            have hgoes : p.goesOn t = false := by simp [Place.goesOn, hdue']
            rw [hgoes]
            exact .inr (.inl rfl)
        | continuation =>
            have hselect' : (t == .word "SELECT".toList && p.depthAt t == 0) = false := by
              rw [Bool.and_eq_false_imp, beq_iff_eq, beq_eq_false_iff_ne]
              rintro rfl
              exact hselect rfl
            have hgoes : p.goesOn t = true := by
              rw [Place.goesOn, hdue', hline, hselect']
              rfl
            rw [hgoes]
            exact .inr (.inl rfl)

/-! ## Line breaks -/

theorem eq_of_cons_replicate {n : Nat} {b w : Text}
    (h : '\n' :: List.replicate n '\t' = b ++ '\n' :: w) : b = [] ∧ w = List.replicate n '\t' := by
  cases b with
  | nil => exact ⟨rfl, (List.cons.inj h).2.symm⟩
  | cons c b =>
      exfalso
      have hmem : '\n' ∈ List.replicate n '\t' := by
        rw [(List.cons.inj h).2]
        exact List.mem_append_right b List.mem_cons_self
      exact absurd (List.eq_of_mem_replicate hmem) (by decide)

/-- A line break in front of a token has the right text behind it. -/
theorem Reaches.followsBreak_lead (h : Reaches before p) {content : Text} (hleads : Leads t content)
    {b w : Text} (heq : p.lead t = b ++ '\n' :: w) :
    EndsClean (before ++ b) ∧ FollowsBreak (before ++ b ++ ['\n']) (w ++ content) := by
  obtain ⟨c, hhead, hc⟩ := hleads.head
  have hclean : EndsClean before := fun c hc ↦ .inr (h.last c hc)
  have hone : ∀ c ∈ ['\n'], isBlank c := List.all_eq_true.mp (by decide)
  have htwo : ∀ c ∈ ['\n', '\n'], isBlank c := List.all_eq_true.mp (by decide)
  rcases h.lead_cases t with hnone | hline | ⟨hempty, rfl, hdepth⟩
  · exact absurd (heq ▸ List.mem_append_right b List.mem_cons_self) hnone
  · obtain ⟨rfl, rfl⟩ := eq_of_cons_replicate (hline.symm.trans heq)
    rw [List.append_nil, ← h.tabs_eq hleads hone]
    exact ⟨hclean, .line hhead hc⟩
  · have hword : leadingWord content = "SELECT".toList := hleads.select_iff.mp rfl
    cases b with
    | nil =>
        obtain rfl : w = ['\n'] := (List.cons.inj (hempty.symm.trans heq)).2.symm
        rw [List.append_nil]
        refine ⟨hclean, .emptyLine hword ?_⟩
        rw [braceDepth_append_blanks _ hone, ← h.depth_eq, hdepth]
    | cons d b =>
        -- The second line break ends the empty line.
        obtain ⟨rfl, hrest⟩ := List.cons.inj (hempty.symm.trans heq)
        obtain ⟨rfl, rfl⟩ := eq_of_cons_replicate (n := 0) hrest
        have hdepth' : p.depthAt (.word "SELECT".toList) = 0 := hdepth
        have htabs : tabs (before ++ ['\n', '\n']) content = [] := by
          rw [h.tabs_eq hleads htwo, hdepth', Place.goesOn, hdepth']
          simp
        have hfollows : FollowsBreak (before ++ ['\n', '\n']) (tabs _ content ++ content) :=
          .line hhead hc
        rw [htabs] at hfollows
        refine ⟨fun d hd ↦ .inl ?_, by rwa [List.append_assoc]⟩
        rw [List.getLast?_concat] at hd
        exact (Option.some.inj hd).symm

/-- So has every line break of a layout. -/
theorem Reaches.followsBreak {v : Pieces} (h : Reaches before p) (hv : v.Regular) {b w : Text}
    (heq : (laid p v).flatMap Segment.hidden = b ++ '\n' :: w) :
    EndsClean (before ++ b) ∧ FollowsBreak (before ++ b ++ ['\n']) w := by
  induction v generalizing before p b with
  | nil =>
      obtain ⟨rfl, rfl⟩ := eq_of_cons_replicate (n := 0) heq
      rw [List.append_nil]
      exact ⟨fun c hc ↦ .inr (h.last c hc), .nothing⟩
  | cons head v ih =>
      obtain ⟨flag, i⟩ := head
      have hleads := leads_laid hv p
      obtain ⟨hi, -, hv⟩ := hv
      rw [hidden_laid_cons] at heq
      rcases append_eq_break heq with ⟨w', hlead, rfl⟩ | ⟨b', rfl, hrest⟩
      · exact (h.behind flag).followsBreak_lead hleads hlead
      · rcases append_eq_break hrest with ⟨w', hhidden, -⟩ | ⟨b'', rfl, htail⟩
        · have hmem : '\n' ∈ i.hidden := by
            rw [hhidden]
            exact List.mem_append_right b' List.mem_cons_self
          exact absurd (by decide) (hi.not_isBlank_of_mem_hidden hmem)
        · have hfollows := ih (h.after flag hi) hv htail
          simpa only [List.append_assoc] using hfollows

end Reaches

/-! ## Lines of a formatted text -/

theorem isBlank_getLast?_hidden {a : Segment} (ha : a.isBlank = false) (t : Text) :
    ∀ c ∈ (t ++ a.hidden).getLast?, ¬ isBlank c := by
  have hclose : ¬ isBlank '>' := by decide
  intro c hc
  cases a with
  | plain d =>
      rw [Segment.hidden, List.getLast?_concat] at hc
      obtain rfl := Option.some.inj hc
      exact Bool.eq_false_iff.mp ha
  | span s =>
      rw [Segment.hidden, Span.key, ← List.append_assoc, List.getLast?_concat] at hc
      obtain rfl := Option.some.inj hc
      exact hclose

/-- A layout ends in a single line break. -/
theorem exists_hiddenLines_eq (t : Text) :
    ∃ body, hiddenLines t = body ++ ['\n'] ∧ ∀ c ∈ body.getLast?, ¬ isBlank c := by
  let v := Pieces.ofSegments (segments t)
  have hregular : v.Regular := Pieces.regular_ofSegments (segments t)
  refine ⟨(written Place.start v).flatMap Segment.hidden, ?_, ?_⟩
  · rw [hiddenLines_eq, laid_eq, List.flatMap_append]
    rfl
  · by_cases hv : v = []
    · rw [hv]
      exact fun c hc ↦ nomatch hc
    · obtain ⟨ss, a, hwritten, ha, -⟩ := exists_written_eq hregular hv Place.start
      rw [hwritten, List.flatMap_append, List.flatMap_singleton]
      exact isBlank_getLast?_hidden ha _

/-- What stands on both sides of a line break of a layout. -/
theorem hiddenLines_break {t b w : Text} (h : hiddenLines t = b ++ '\n' :: w) :
    EndsClean b ∧ FollowsBreak (b ++ ['\n']) w := by
  rw [hiddenLines_eq] at h
  exact reaches_start.followsBreak (Pieces.regular_ofSegments _) h

/-- The tabs of a line are told by the line alone. -/
theorem tabs_append_break (before : Text) {line after : Text} (hne : line ≠ []) :
    tabs before (line ++ '\n' :: after) = tabs before line := by
  have hword : leadingWord (line ++ '\n' :: after) = leadingWord line :=
    takeWhile_append_cons (by decide) line after
  have hhead : (line ++ '\n' :: after).head? = line.head? := List.head?_append_of_ne_nil line hne
  rw [tabs, tabs, continues, continues, lineDepth, lineDepth, hword, hhead]

/-- A line that stands behind a line break is empty in front of an outermost `SELECT`, and otherwise
it has its tabs. -/
theorem FollowsBreak.line_cases {before line after : Text}
    (h : FollowsBreak before (line ++ '\n' :: after)) (hline : '\n' ∉ line) :
    (line = [] ∧ leadingWord after = "SELECT".toList ∧ braceDepth before = 0) ∨
      ∃ content c, line = tabs before content ++ content ∧ content.head? = some c ∧
        ¬ isBlank c := by
  generalize htext : line ++ '\n' :: after = text at h
  cases h with
  | nothing => simp at htext
  | @emptyLine content hword hdepth =>
      cases line with
      | nil =>
          obtain ⟨-, rfl⟩ := List.cons.inj htext
          exact .inl ⟨rfl, hword, hdepth⟩
      | cons c line =>
          obtain ⟨rfl, -⟩ := List.cons.inj htext
          exact absurd List.mem_cons_self hline
  | @line content c hhead hc =>
      have htabs : '\n' ∉ tabs before content := fun hmem ↦
        absurd (List.eq_of_mem_replicate hmem) (by decide)
      rcases append_eq_break htext.symm with ⟨w, heq, -⟩ | ⟨content', rfl, rfl⟩
      · refine absurd ?_ htabs
        rw [heq]
        exact List.mem_append_right line List.mem_cons_self
      · have hne : content' ≠ [] := by
          rintro rfl
          obtain rfl := Option.some.inj hhead
          exact hc (by decide)
        rw [List.head?_append_of_ne_nil content' hne] at hhead
        exact .inr ⟨content', c, by rw [tabs_append_break before hne], hhead, hc⟩

section IsLine

variable {t before line : Text} (h : IsLine (hiddenLines t) before line)

include h

theorem isBlank_getLast?_line : ∀ c ∈ line.getLast?, ¬ isBlank c := by
  obtain ⟨after, hends⟩ := h.ends
  obtain ⟨hclean, -⟩ := hiddenLines_break hends
  intro c hc
  have hlast : (before ++ line).getLast? = some c := by
    rw [List.getLast?_append, Option.mem_def.mp hc, Option.some_or]
  rcases hclean c hlast with rfl | hblank
  · exact absurd (List.mem_of_getLast? hc) h.unbroken
  · exact hblank

theorem line_hiddenLines_cases (hne : before ≠ []) :
    (line = [] ∧ ∃ after, hiddenLines t = before ++ '\n' :: after ∧
      leadingWord after = "SELECT".toList ∧ braceDepth before = 0) ∨
    ∃ content c, line = tabs before content ++ content ∧ content.head? = some c ∧ ¬ isBlank c := by
  obtain ⟨b, after, rfl, hbreak⟩ := h.exists_break hne
  obtain ⟨-, hfollows⟩ := hiddenLines_break hbreak
  rcases hfollows.line_cases h.unbroken with ⟨rfl, hword, hdepth⟩ | hline
  · refine .inl ⟨rfl, after, ?_, hword, hdepth⟩
    rw [hbreak, List.append_assoc]
    rfl
  · exact .inr hline

end IsLine

/-- A text is laid out with one line break at its end and with no blanks at the end of a line. Behind
the first line break, every line that is not empty starts with its tabs and no other blanks, and
empty lines stand in front of an outermost `SELECT` and nowhere else. -/
theorem hiddenLines_indented (t : Text) :
    (∃ body, hiddenLines t = body ++ ['\n'] ∧ ∀ c ∈ body.getLast?, ¬ isBlank c) ∧
      ∀ before line, IsLine (hiddenLines t) before line →
        (∀ c ∈ line.getLast?, ¬ isBlank c) ∧
        (before ≠ [] → line ≠ [] → ∃ content c, line = tabs before content ++ content ∧
          content.head? = some c ∧ ¬ isBlank c) ∧
        (before ≠ [] → line = [] → ∃ after, hiddenLines t = before ++ '\n' :: after ∧
          leadingWord after = "SELECT".toList ∧ braceDepth before = 0) := by
  refine ⟨exists_hiddenLines_eq t, fun before line h ↦ ⟨isBlank_getLast?_line h, ?_, ?_⟩⟩
  · intro hbefore hline
    rcases line_hiddenLines_cases h hbefore with ⟨hempty, -⟩ | hindented
    · exact absurd hempty hline
    · exact hindented
  · rintro hbefore rfl
    rcases line_hiddenLines_cases h hbefore with ⟨-, hselect⟩ | ⟨content, c, heq, hhead, -⟩
    · exact hselect
    · obtain ⟨-, rfl⟩ := List.append_eq_nil_iff.mp heq.symm
      cases hhead

/-- A query with a line that goes on behind a semicolon, and another query behind it. -/
theorem hiddenLines_indented_select :
    ∃ t goingOn empty : Text, t = "SELECT ?s\x7b?s a b; c d\x7d SELECT ?x".toList ∧
      IsLine (hiddenLines t) goingOn "\t\tc d".toList ∧ IsLine (hiddenLines t) empty [] ∧
      (∃ content c, "\t\tc d".toList = tabs goingOn content ++ content ∧
        content.head? = some c ∧ ¬ isBlank c) ∧
      ∃ after, hiddenLines t = empty ++ '\n' :: after ∧ leadingWord after = "SELECT".toList ∧
        braceDepth empty = 0 := by
  let t : Text := "SELECT ?s\x7b?s a b; c d\x7d SELECT ?x".toList
  let goingOn : Text := "SELECT ?s \x7b\n\t?s a b;\n".toList
  let empty : Text := goingOn ++ "\t\tc d\n\x7d\n".toList
  have hhidden : hiddenLines t = empty ++ "\nSELECT ?x\n".toList := by decide +kernel
  have hbehind {b : Text} (hlast : b.getLast? = some '\n') : ∀ c ∈ b.getLast?, c = '\n' :=
    fun c hc ↦ Option.some.inj (hc.symm.trans hlast)
  have hgoingOn : IsLine (hiddenLines t) goingOn "\t\tc d".toList :=
    ⟨hbehind (by decide), by decide, "\x7d\n\nSELECT ?x\n".toList, hhidden⟩
  have hempty : IsLine (hiddenLines t) empty [] :=
    ⟨hbehind (by decide), by decide, "SELECT ?x\n".toList, hhidden⟩
  obtain ⟨-, hlines⟩ := hiddenLines_indented t
  obtain ⟨-, hindented, -⟩ := hlines goingOn _ hgoingOn
  obtain ⟨-, -, hselect⟩ := hlines empty [] hempty
  exact ⟨t, goingOn, empty, rfl, hgoingOn, hempty, hindented (by decide) (by decide),
    hselect (by decide) rfl⟩

end SparqlComposer.Layout
