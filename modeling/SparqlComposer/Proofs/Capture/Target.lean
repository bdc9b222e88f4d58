import SparqlComposer.Proofs.Capture.Occurrence
import SparqlComposer.Proofs.Expression.Call

/-!
# The target of an assignment

An assignment ends in `AS`, a variable and a parenthesis. It is checked with its tabs expanded, and
names are captured from it with its spans hidden before that. Hiding a span moves the columns behind
it, and then a tab between `AS` and the variable may be wider than the one space that a capture
asks for. So the variable is assigned unless it stands behind such a tab, and then it is used.
-/

namespace SparqlComposer

/-- How an assignment ends, and what stands in front of that. -/
structure Closing (t : Text) where
  front : Text
  blank : Char
  a : Char
  s : Char
  gap : Char
  sigil : Char
  name : Run isWord
  text_eq : t = front ++ [blank, a, s] ++ gap :: sigil :: (name.text ++ [')'])
  blank_mem : blank = ' ' ∨ blank = '\t'
  isFormOf_a : isFormOf 'a' a
  isFormOf_s : isFormOf 's' s
  gap_mem : gap = ' ' ∨ gap = '\t'
  isSigil_sigil : isSigil sigil

namespace Closing

variable {t : Text}

/-- The column at which the blank between `AS` and the variable is captured. -/
def column (c : Closing t) : Nat := columnFrom 0 (escaped (c.front ++ [c.blank, c.a, c.s]))

/-- The blank between `AS` and the variable is a space, or a tab that is one column wide when the
spans of the text are hidden. -/
def IsSeen (c : Closing t) : Prop := c.gap = '\t' → c.column % tabWidth + 1 = tabWidth

end Closing

/-! ## The end of an accepted text -/

/-- An accepted assignment ends in a target when its tabs are expanded. -/
theorem Kind.exists_target_of_admits {t : Text} (h : Kind.assignment.admits t = .ok true) :
    ∃ before target, expandTabs t = before ++ target ∧ TargetEnd target := by
  have hform : isFunctionAssignment (expandTabs t) = .ok true := (of_admits h).1
  have htab : '\t' ∉ expandTabs t := not_mem_expandTabsFrom t 0
  obtain ⟨⟨gaps, head, before, target, htext, -, -, -, htarget⟩, -⟩ :=
    (isFunctionAssignment_eq_ok_true_iff htab).mp hform
  exact ⟨'(' :: (gaps ++ (head ++ before)), target, by simp [htext], htarget⟩

theorem ne_space_of_isFormOf {letter c : Char} (hletter : isWord letter.toLower)
    (h : isFormOf letter c) : c ≠ ' ' := by
  rintro rfl
  exact absurd (isWord_of_isFormOf hletter h) (by decide)

/-- An accepted assignment ends in `AS`, a variable and a parenthesis as it is written. -/
theorem Kind.exists_closing {t : Text} (h : Kind.assignment.admits t = .ok true) :
    ∃ c : Closing t,
      expandedChar (columnFrom 0 (c.front ++ [c.blank, c.a, c.s])) c.gap = [' '] := by
  obtain ⟨before, target, hexpand, ha, hs, hsigil, r⟩ := exists_target_of_admits h
  rename_i a s sigil
  replace ha := isFormOf_a_iff.mpr ha
  replace hs := isFormOf_s_iff.mpr hs
  replace hsigil : isSigil sigil := by simpa [isSigil] using hsigil
  -- The letters and the variable stand in the text itself, and a blank for each of the spaces.
  have hspace : before ++ ' ' :: a :: s :: ' ' :: sigil :: (r.text ++ [')']) =
      (before ++ [' ']) ++ a :: (s :: ' ' :: sigil :: (r.text ++ [')'])) := by simp
  obtain ⟨t₁, t₂, rfl, hfront, hrest⟩ := exists_of_expandTabsFrom
    (ne_space_of_isFormOf (by decide) ha) (hexpand.trans hspace)
  obtain ⟨front, blank, rfl, hblank⟩ := exists_of_expandTabsFrom_space hfront
  obtain ⟨t₃, rfl, hvariable⟩ := exists_of_expandTabsFrom_eq_cons
    (ne_space_of_isFormOf (by decide) hs) hrest
  have hmark : sigil ≠ ' ' := by rcases cases_of_isSigil hsigil with rfl | rfl <;> decide
  obtain ⟨t₄, t₅, rfl, hblanks, hname⟩ := exists_of_expandTabsFrom (x := [' ']) hmark hvariable
  obtain ⟨gap, rfl, hgap⟩ := exists_of_expandTabsFrom_eq_space hblanks
  have hnospace : ' ' ∉ r.text ++ [')'] := by
    rw [List.mem_append, not_or]
    exact ⟨fun hmem ↦ absurd (r.inClass_of_mem ' ' hmem) (by decide), by decide⟩
  obtain rfl : r.text ++ [')'] = t₅ := by
    rw [← hname] at hnospace ⊢
    exact expandTabsFrom_eq_of_not_mem hnospace
  have hcolumn : nextColumn (columnFrom 0 (front ++ [blank] ++ [a])) s =
      columnFrom 0 (front ++ [blank, a, s]) := by
    simp [columnFrom]
  rw [hcolumn] at hgap
  have hgap' := expandedChar_eq_space_iff.mp hgap
  refine ⟨⟨front, blank, a, s, gap, sigil, r, by simp, hblank, ha, hs, ?_, hsigil⟩, hgap⟩
  exact hgap'.imp_right And.left

/-! ## The last variable of a text -/

/-- What follows a text, and starts no word, leaves its variables where they are. -/
theorem VariableAt.append {u v before name : Text} (h : VariableAt u before name)
    (hv : ∀ c ∈ v.head?, ¬ isWord c) : VariableAt (u ++ v) before name := by
  obtain ⟨c, r, rest, rfl, hr, hc, hstart, hrest⟩ := h
  refine ⟨c, r, rest ++ v, by simp, hr, hc, hstart, ?_⟩
  cases rest with
  | nil => exact hv
  | cons d rest => exact hrest

/-- Where a text ends with its last sigil and a variable, the variables are those in front and this
one. -/
theorem variableAt_append_iff {u w rest before name : Text} {c : Char} {r : Run isWord}
    (hw : ∀ d ∈ ' ' :: w, ¬ isSigil d) (hc : isSigil c)
    (hstart : atWordStart (u ++ ' ' :: w).reverse) (hrest : ∀ d ∈ rest, ¬ isSigil d)
    (hend : ∀ d ∈ rest.head?, ¬ isWord d) :
    VariableAt (u ++ (' ' :: w ++ c :: (r.text ++ rest))) before name ↔
      VariableAt u before name ∨ before = (u ++ ' ' :: w).reverse ∧ r.text = name := by
  constructor
  · rintro ⟨c', r', rest', heq, rfl, hc', hstart', hrest'⟩
    rcases List.append_eq_append_iff.mp heq with ⟨x, hbefore, hlast⟩ | ⟨x, hu, hlast⟩
    · -- The sigil stands behind `u`, where only one does.
      have hnone : c' ∉ r.text ++ rest := by
        rw [List.mem_append, not_or]
        exact ⟨fun hmem ↦ not_isSigil_of_isWord (r.inClass_of_mem _ hmem) hc',
          fun hmem ↦ hrest _ hmem hc'⟩
      obtain ⟨rfl, rfl, hname⟩ :=
        (List.append_cons_inj_of_notMem (fun hmem ↦ hw _ hmem hc') hnone).mp hlast
      refine .inr ⟨by rw [← hbefore, List.reverse_reverse], ?_⟩
      rw [← takeWhile_run r hend, hname, takeWhile_run r' hrest']
    · cases x with
      | nil =>
          obtain rfl := (List.cons.inj hlast).1
          cases hc'
      | cons d x =>
          -- The variable ends in front of the space behind `u`.
          obtain ⟨rfl, hname⟩ := List.cons.inj hlast
          have htake : x.takeWhile isWord = r'.text := by
            rw [← takeWhile_run r' hrest', hname, List.cons_append]
            exact (takeWhile_append_cons (by decide) _ _).symm
          obtain ⟨r₀, rest₀, rfl, hr₀, hrest₀⟩ :=
            exists_run_of_takeWhile (t := x) (htake ▸ r'.ne_nil)
          exact .inl ⟨c', r₀, rest₀, hu, hr₀.trans htake, hc', hstart', hrest₀⟩
  · rintro (h | ⟨rfl, rfl⟩)
    · exact h.append (not_isWord_of_head (by decide) _)
    · exact ⟨c, r, rest, by simp, rfl, hc, hstart, hend⟩

/-! ## The names of an assignment -/

theorem exists_spaces (n : Nat) (t : Text) :
    ∃ t', List.replicate n ' ' ++ ' ' :: t = ' ' :: t' := by
  cases n with
  | zero => exact ⟨t, rfl⟩
  | succ n => exact ⟨List.replicate n ' ' ++ ' ' :: t, rfl⟩

/-- Behind the keyword stands one space and no more. -/
theorem followsAs_spaces_iff {a s : Char} (ha : isFormOf 'a' a) (hs : isFormOf 's' s) {n : Nat}
    {before : Text} (hstart : atWordStart before) :
    followsAs (List.replicate n ' ' ++ ' ' :: s :: a :: before) ↔ n = 0 := by
  cases n with
  | zero => simp [followsAs, ha, hs, hstart]
  | succ n =>
      obtain ⟨b, hb⟩ := exists_spaces n (s :: a :: before)
      rw [List.replicate_succ, List.cons_append, hb]
      cases b <;> simp [followsAs, isFormOf]

namespace Closing

variable {t : Text} (c : Closing t)

theorem isSeen_iff : c.IsSeen ↔ expandedChar c.column c.gap = [' '] := by
  rw [expandedChar_eq_space_iff, IsSeen]
  rcases c.gap_mem with hgap | hgap <;> simp [hgap]

/-- The keyword and the variable hold no blank and nothing that opens or closes a span. -/
theorem not_mem_marks {d : Char} (hd : d ∈ [c.a, c.s] ++ c.sigil :: (c.name.text ++ [')'])) :
    d ∉ ['\t', '"', '<', '>'] := by
  have hword {d : Char} (hd : isWord d) : d ∉ ['\t', '"', '<', '>'] := by
    have hnone : ∀ d ∈ ['\t', '"', '<', '>'], ¬ isWord d := List.all_iff_forall_prop.mp (by decide)
    exact fun hmem ↦ hnone d hmem hd
  simp only [List.mem_append, List.mem_cons, List.not_mem_nil, or_false] at hd
  rcases hd with (rfl | rfl) | rfl | hd | rfl
  · exact hword (isWord_of_isFormOf (by decide) c.isFormOf_a)
  · exact hword (isWord_of_isFormOf (by decide) c.isFormOf_s)
  · rcases cases_of_isSigil c.isSigil_sigil with h | h <;> rw [h] <;> decide
  · exact hword (c.name.inClass_of_mem d hd)
  · decide

theorem not_mem_marks_of_blank {d : Char} (hd : d = ' ' ∨ d = '\t') : d ∉ ['"', '<', '>'] := by
  rcases hd with rfl | rfl <;> decide

/-- All spans of an assignment stand in front of its end. -/
theorem escaped_eq : escaped t = escaped (c.front ++ [c.blank, c.a, c.s]) ++
    c.gap :: c.sigil :: (c.name.text ++ [')']) := by
  rw [← escaped_append_plain, ← c.text_eq]
  refine List.forall_mem_cons.mpr ⟨not_mem_marks_of_blank c.gap_mem, fun d hd hmem ↦ ?_⟩
  exact c.not_mem_marks (List.mem_append_right _ hd) (List.mem_cons_of_mem _ hmem)

/-- The target is seen if hiding the spans of the text moves no tab. -/
theorem isSeen_of_unmoved
    (hgap : expandedChar (columnFrom 0 (c.front ++ [c.blank, c.a, c.s])) c.gap = [' '])
    (h : '\t' ∉ t ∨ escaped t = t) : c.IsSeen := by
  rcases h with htab | hsame
  · refine fun heq ↦ absurd ?_ htab
    rw [c.text_eq, ← heq]
    exact List.mem_append_right _ List.mem_cons_self
  · rw [c.escaped_eq] at hsame
    rw [isSeen_iff, column, List.append_cancel_right (hsame.trans c.text_eq)]
    exact hgap

/-- The captures find the target behind as many spaces as the blank in front of it takes. -/
theorem exists_captured : ∃ m n, (n = 0 ↔ c.IsSeen) ∧ expandTabs (escaped t) =
    expandTabs (escaped c.front) ++ (' ' :: (List.replicate m ' ' ++ c.a :: c.s :: ' ' ::
      List.replicate n ' ') ++ c.sigil :: (c.name.text ++ [')'])) := by
  obtain ⟨m, hm⟩ := exists_expandedChar_blank c.blank_mem (columnFrom 0 (escaped c.front))
  obtain ⟨n, hn⟩ := exists_expandedChar_blank c.gap_mem c.column
  refine ⟨m, n, ?_, ?_⟩
  · rw [isSeen_iff, hn]
    cases n <;> simp [List.replicate_succ]
  · have hmarks {d : Char} (hd : d ∈ [c.a, c.s] ++ c.sigil :: (c.name.text ++ [')'])) :
        d ≠ '\t' ∧ d ∉ ['"', '<', '>'] := by
      simpa using c.not_mem_marks hd
    have hhidden : escaped (c.front ++ [c.blank, c.a, c.s]) =
        escaped c.front ++ [c.blank, c.a, c.s] :=
      escaped_append_plain (List.forall_mem_cons.mpr ⟨not_mem_marks_of_blank c.blank_mem,
        fun d hd ↦ (hmarks (List.mem_append_left _ hd)).2⟩) _
    have hstart : expandTabsFrom (columnFrom 0 (escaped c.front)) [c.blank, c.a, c.s] =
        ' ' :: (List.replicate m ' ' ++ [c.a, c.s]) := by
      rw [expandTabsFrom_cons, expandTabsFrom_cons, expandTabsFrom_cons, hm,
        expandedChar_of_ne (hmarks (by simp)).1, expandedChar_of_ne (hmarks (by simp)).1]
      simp [expandTabsFrom]
    have hend : expandTabsFrom c.column (c.gap :: c.sigil :: (c.name.text ++ [')'])) =
        ' ' :: (List.replicate n ' ' ++ c.sigil :: (c.name.text ++ [')'])) := by
      rw [expandTabsFrom_cons, hn, expandTabsFrom_eq_self, List.cons_append]
      exact fun hmem ↦ (hmarks (List.mem_append_right _ hmem)).1 rfl
    rw [c.escaped_eq, expandTabs, expandTabsFrom_append_text, ← column, hend, hhidden,
      expandTabsFrom_append_text, hstart]
    simp [expandTabs]

/-- The variables that an assignment names are those in front of its end and the one there, which
is used or assigned depending on the blank in front of it. -/
theorem exists_last : ∃ last, (followsAs last ↔ c.IsSeen) ∧ ¬ isPassedOver last ∧
    ∀ (p : Text → Prop) (name : Text),
      (∃ before, VariableAt (expandTabs (escaped t)) before name ∧ p before) ↔
        (∃ before, VariableAt (expandTabs (escaped c.front)) before name ∧ p before) ∨
          name = c.name.text ∧ p last := by
  obtain ⟨m, n, hseen, hcaptured⟩ := c.exists_captured
  let w := List.replicate m ' ' ++ c.a :: c.s :: ' ' :: List.replicate n ' '
  obtain ⟨b, hb⟩ := exists_spaces m (expandTabs (escaped c.front)).reverse
  have hlast : (expandTabs (escaped c.front) ++ ' ' :: w).reverse =
      List.replicate n ' ' ++ ' ' :: c.s :: c.a :: ' ' :: b := by
    rw [← hb]
    simp [w]
  have has : followsAs (expandTabs (escaped c.front) ++ ' ' :: w).reverse ↔ n = 0 := by
    rw [hlast]
    exact followsAs_spaces_iff c.isFormOf_a c.isFormOf_s rfl
  refine ⟨_, has.trans hseen, fun hpassed ↦ ?_, fun p name ↦ ?_⟩
  · -- Only a space stands in front of the keyword.
    obtain rfl := has.mp (followsAs_of_isPassedOver hpassed)
    obtain ⟨_, _, c', _, heq, -, -, hc', -⟩ := isPassedOver_iff.mp (hlast ▸ hpassed)
    obtain ⟨-, -, rfl, -⟩ := by simpa using heq
    cases hc'
  · have hplace (before : Text) : VariableAt (expandTabs (escaped t)) before name ↔
        VariableAt (expandTabs (escaped c.front)) before name ∨
          before = (expandTabs (escaped c.front) ++ ' ' :: w).reverse ∧ c.name.text = name := by
      rw [hcaptured]
      refine variableAt_append_iff ?_ c.isSigil_sigil ?_ (List.forall_mem_singleton.mpr (by decide))
        (not_isWord_of_head (by decide) [])
      · intro d hd
        simp only [List.mem_cons, List.mem_append, List.mem_replicate] at hd
        rcases hd with rfl | ⟨-, rfl⟩ | rfl | rfl | rfl | ⟨-, rfl⟩
        · decide
        · decide
        · exact not_isSigil_of_isWord (isWord_of_isFormOf (by decide) c.isFormOf_a)
        · exact not_isSigil_of_isWord (isWord_of_isFormOf (by decide) c.isFormOf_s)
        · decide
        · decide
      · obtain ⟨b', hb'⟩ := exists_spaces n (c.s :: c.a :: ' ' :: b)
        rw [hlast, hb']
        rfl
    simp only [hplace, or_and_right, exists_or]
    refine or_congr_right ⟨?_, ?_⟩
    · rintro ⟨_, ⟨rfl, rfl⟩, hp⟩
      exact ⟨rfl, hp⟩
    · rintro ⟨rfl, hp⟩
      exact ⟨_, ⟨rfl, rfl⟩, hp⟩

/-- An assignment uses what it names in front of its end, and the variable there if that is not
seen. -/
theorem mem_variablesOf {name : Text} : name ∈ variablesOf t ↔
    name ∈ variablesOf c.front ∨ name = c.name.text ∧ ¬ c.IsSeen := by
  obtain ⟨last, has, -, hplace⟩ := c.exists_last
  rw [mem_variablesOf_iff, mem_variablesOf_iff, hplace, has]

/-- An assignment assigns what is assigned in front of its end, and the variable there if that is
seen. -/
theorem mem_assignmentsOf {name : Text} : name ∈ assignmentsOf t ↔
    name ∈ assignmentsOf c.front ∨ name = c.name.text ∧ c.IsSeen := by
  obtain ⟨last, has, hpassed, hplace⟩ := c.exists_last
  have hassigned : isAssigned last ↔ c.IsSeen := by rw [isAssigned_iff, and_iff_left hpassed, has]
  rw [mem_assignmentsOf_iff, mem_assignmentsOf_iff, hplace, hassigned]

end Closing

end SparqlComposer
