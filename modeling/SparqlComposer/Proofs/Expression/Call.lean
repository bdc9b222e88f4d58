import SparqlComposer.Expression
import SparqlComposer.Proofs.Expression.Head
import SparqlComposer.Proofs.Text.String

/-!
# Calls and assignments as languages

A call is a head and anything on the same line, and an assignment a head in parentheses with what
ends an assignment at the end. Both are free of blanks at their ends, and hold as many opening as
closing parentheses outside their strings. So they are read, whichever head is read first: no head
reaches into what ends an assignment.
-/

namespace SparqlComposer

/-! ## The end of an assignment -/

/-- What ends an assignment: ` AS ` in any case, a variable, and the closing parenthesis. -/
inductive AssignmentEnd : Text → Prop where
  | mk {keyword : Text} {sigil : Char} (hkeyword : Writes ['A', 'S'] keyword)
      (hsigil : sigil = '?' ∨ sigil = '$') (r : Run isWord) :
      AssignmentEnd (' ' :: (keyword ++ ' ' :: sigil :: (r.text ++ [')'])))

/-- What is read as the end of an assignment, where the long s stands for the `S` of `AS` as well. -/
inductive TargetEnd : Text → Prop where
  | mk {a s sigil : Char} (ha : a ∈ ['A', 'a']) (hs : s ∈ ['S', 's', '\u017f'])
      (hsigil : sigil = '?' ∨ sigil = '$') (r : Run isWord) :
      TargetEnd (' ' :: a :: s :: ' ' :: sigil :: (r.text ++ [')']))

section Ends

variable {t w rest : Text}

/-- Without misleading letters, what is read as the end of an assignment is one. -/
theorem targetEnd_iff (ht : ∀ c ∈ t, ¬ isMisleadingLetter c) : TargetEnd t ↔ AssignmentEnd t := by
  constructor
  · rintro ⟨ha, hs, hsigil, r⟩
    rename_i a s sigil
    have hfolds : Folds ['A', 'S'] [a, s] :=
      .cons (isFormOf_a_iff.mpr ha) (.cons (isFormOf_s_iff.mpr hs) .nil)
    have hkeyword : Writes ['A', 'S'] [a, s] :=
      hfolds.writes fun c hc ↦ ht c (List.mem_cons_of_mem _ (List.mem_append_left _ hc))
    exact .mk hkeyword hsigil r
  · rintro ⟨hkeyword, hsigil, r⟩
    obtain _ | ⟨ha, _ | ⟨hs, hnil⟩⟩ := hkeyword.folds
    cases hnil
    exact .mk (isFormOf_a_iff.mp ha) (isFormOf_s_iff.mp hs) hsigil r

/-- What ends an assignment starts with a space and the letter `A`. -/
theorem TargetEnd.exists_cons (h : TargetEnd t) : ∃ a t', t = ' ' :: a :: t' ∧ a.toLower = 'a' := by
  have hlower : ∀ a ∈ ['A', 'a'], a.toLower = 'a' :=
    List.forall_mem_cons.mpr ⟨rfl, List.forall_mem_singleton.mpr rfl⟩
  cases h with
  | mk ha _ _ _ => exact ⟨_, _, rfl, hlower _ ha⟩

theorem folds_as_iff {taken : Text} : Folds " AS ".toList taken ↔
    ∃ a ∈ ['A', 'a'], ∃ s ∈ ['S', 's', '\u017f'], taken = [' ', a, s, ' '] := by
  have hword : " AS ".toList = [' ', 'A', 'S', ' '] := by decide
  have hspace : isFormOf ' ' ' ' := isFormOf_self ' '
  rw [hword]
  constructor
  · rintro (_ | ⟨hfirst, _ | ⟨ha, _ | ⟨hs, _ | ⟨hlast, hnil⟩⟩⟩⟩)
    cases hnil
    obtain rfl := isFormOf_space_iff.mp hfirst
    obtain rfl := isFormOf_space_iff.mp hlast
    exact ⟨_, isFormOf_a_iff.mp ha, _, isFormOf_s_iff.mp hs, rfl⟩
  · rintro ⟨a, ha, s, hs, rfl⟩
    exact .cons hspace (.cons (isFormOf_a_iff.mpr ha)
      (.cons (isFormOf_s_iff.mpr hs) (.cons hspace .nil)))

theorem isTarget_iff : isTarget t ↔ TargetEnd t := by
  rw [isTarget, Option.any_eq_true]
  constructor
  · rintro ⟨⟨taken, rest⟩, hread, htarget⟩
    obtain ⟨rfl, hfolds⟩ := keyword?_eq_some_iff_folds.mp hread
    obtain ⟨a, ha, s, hs, rfl⟩ := folds_as_iff.mp hfolds
    obtain ⟨u, hvariable, hclose⟩ := Option.bind_eq_some_iff.mp (beq_iff_eq.mp htarget)
    obtain ⟨sigil, r, hsigil, rfl⟩ := exists_of_afterVariable? hvariable
    obtain rfl := afterChar?_eq_some_iff.mp hclose
    exact .mk ha hs hsigil r
  · rintro ⟨ha, hs, hsigil, r⟩
    rename_i a s sigil
    refine ⟨([' ', a, s, ' '], sigil :: (r.text ++ [')'])), ?_, ?_⟩
    · exact keyword?_eq_some_iff_folds.mpr ⟨rfl, folds_as_iff.mpr ⟨a, ha, s, hs, rfl⟩⟩
    · have hmark : isSigil sigil := by simpa [isSigil] using hsigil
      have hread : afterWord? (r.text ++ [')']) = some [')'] := by
        refine afterRun?_append r ?_
        rintro c hc
        obtain rfl : ')' = c := Option.some.inj hc
        decide
      dsimp only
      rw [afterVariable?, if_pos hmark, hread]
      rfl

theorem endsInTarget_iff :
    endsInTarget t ↔ ∃ before target, t = before ++ target ∧ TargetEnd target := by
  induction t with
  | nil =>
      constructor
      · intro h
        cases h
      · rintro ⟨before, target, happend, htarget⟩
        obtain ⟨a, target', rfl, -⟩ := htarget.exists_cons
        exact absurd happend.symm (List.append_ne_nil_of_right_ne_nil _ (List.cons_ne_nil _ _))
  | cons c cs ih =>
      rw [endsInTarget, Bool.or_eq_true, isTarget_iff, ih]
      constructor
      · rintro (htarget | ⟨before, target, rfl, htarget⟩)
        · exact ⟨[], _, rfl, htarget⟩
        · exact ⟨c :: before, target, rfl, htarget⟩
      · rintro ⟨before, target, happend, htarget⟩
        cases before with
        | nil => exact .inl (happend ▸ htarget)
        | cons d before =>
            obtain ⟨rfl, rfl⟩ := List.cons.inj happend
            exact .inr ⟨before, target, rfl, htarget⟩

/-- A head does not reach into what ends an assignment behind some other head. -/
theorem CallHead.exists_of_append_eq (hw : CallHead w) {v before target : Text}
    (htarget : TargetEnd target) (h : w ++ rest = v ++ (before ++ target)) :
    ∃ before', rest = before' ++ target := by
  rw [← List.append_assoc] at h
  rcases List.append_eq_append_iff.mp h with ⟨before', -, hrest⟩ | ⟨u, hover, htext⟩
  · exact ⟨before', hrest⟩
  cases u with
  | nil => exact ⟨[], htext.symm⟩
  | cons c u =>
      obtain ⟨a, target', rfl, ha⟩ := htarget.exists_cons
      obtain ⟨rfl, hnext⟩ := List.cons.inj htext
      have hbreak : breaksBeforeA (v ++ before ++ ' ' :: u) := by
        refine breaksBeforeA_append _ fun d hd ↦ ?_
        obtain ⟨u', rfl⟩ := List.head?_eq_some_iff.mp hd
        rw [← (List.cons.inj hnext).1]
        exact ha
      rw [← hover, hw.breaksBeforeA_eq] at hbreak
      cases hbreak

end Ends

/-! ## Outside the strings -/

/-- What a string has between its quotation marks: no quotation mark and no backslash but for escaped
characters, which are anything but line feeds. -/
inductive StringBody : Text → Prop where
  | nil : StringBody []
  | plain {c : Char} {body : Text} (hquote : c ≠ '"') (hescape : c ≠ '\\')
      (h : StringBody body) : StringBody (c :: body)
  | escaped {c : Char} {body : Text} (hc : c ≠ '\n') (h : StringBody body) :
      StringBody ('\\' :: c :: body)

/-- The text that is left when the strings of a text, which are read from the left, are left out. -/
inductive OutsideStrings : Text → Text → Prop where
  | nil : OutsideStrings [] []
  | string {body rest u : Text} (hbody : StringBody body) (h : OutsideStrings rest u) :
      OutsideStrings ('"' :: (body ++ '"' :: rest)) u
  | char {c : Char} {cs u : Text}
      (hno : ∀ body rest, StringBody body → c :: cs ≠ '"' :: (body ++ '"' :: rest))
      (h : OutsideStrings cs u) : OutsideStrings (c :: cs) (c :: u)

/-- As many parentheses are opened as closed outside the strings. -/
def Balanced (t : Text) : Prop := ∃ u, OutsideStrings t u ∧ u.count '(' = u.count ')'

section Strings

variable {t rest u : Text}

theorem afterStringBody?_eq_some_iff : afterStringBody? t = some rest ↔
    ∃ body, t = body ++ '"' :: rest ∧ StringBody body := by
  constructor
  · intro h
    fun_induction afterStringBody? t with
    | case1 => cases h
    | case2 rest' =>
        obtain rfl := Option.some.inj h
        exact ⟨[], rfl, .nil⟩
    | case3 => cases h
    | case4 => cases h
    | case5 c cs hc ih =>
        obtain ⟨body, rfl, hbody⟩ := ih h
        exact ⟨'\\' :: c :: body, rfl, .escaped hc hbody⟩
    | case6 c cs hquote hlast hescape ih =>
        obtain ⟨body, rfl, hbody⟩ := ih h
        exact ⟨c :: body, rfl, .plain hquote (ne_backslash hlast hescape) hbody⟩
  · rintro ⟨body, rfl, hbody⟩
    induction hbody with
    | nil => rfl
    | plain hquote hescape _ ih =>
        rw [List.cons_append, afterStringBody?_cons hquote hescape]
        exact ih
    | escaped hc _ ih =>
        rw [List.cons_append, List.cons_append, afterStringBody?, if_neg hc]
        exact ih

theorem afterString?_eq_some_iff_body : afterString? t = some rest ↔
    ∃ body, StringBody body ∧ t = '"' :: (body ++ '"' :: rest) := by
  rw [afterString?_eq_some_iff]
  constructor
  · rintro ⟨_, rfl, h⟩
    obtain ⟨body, rfl, hbody⟩ := afterStringBody?_eq_some_iff.mp h
    exact ⟨body, hbody, rfl⟩
  · rintro ⟨body, hbody, rfl⟩
    exact ⟨_, rfl, afterStringBody?_eq_some_iff.mpr ⟨body, rfl, hbody⟩⟩

theorem withoutStrings_of_some (h : afterString? t = some rest) :
    withoutStrings t = withoutStrings rest := by
  cases t with
  | nil => cases h
  | cons c cs =>
      rw [withoutStrings]
      split
      · rename_i rest' hsome
        rw [h] at hsome
        rw [Option.some.inj hsome]
      · rename_i hnone
        rw [h] at hnone
        cases hnone

theorem withoutStrings_of_none {c : Char} {cs : Text} (h : afterString? (c :: cs) = none) :
    withoutStrings (c :: cs) = c :: withoutStrings cs := by
  rw [withoutStrings]
  split
  · rename_i rest' hsome
    rw [h] at hsome
    cases hsome
  · rfl

/-- What is left of a text without its strings is told by reading them from the left. -/
theorem outsideStrings_iff : OutsideStrings t u ↔ withoutStrings t = u := by
  constructor
  · intro h
    induction h with
    | nil => rw [withoutStrings]
    | string hbody _ ih =>
        rw [withoutStrings_of_some (afterString?_eq_some_iff_body.mpr ⟨_, hbody, rfl⟩), ih]
    | char hno _ ih =>
        rw [withoutStrings_of_none, ih]
        rw [Option.eq_none_iff_forall_ne_some]
        intro rest hsome
        obtain ⟨body, hbody, htext⟩ := afterString?_eq_some_iff_body.mp hsome
        exact hno body rest hbody htext
  · rintro rfl
    fun_induction withoutStrings t with
    | case1 => exact .nil
    | case2 c cs rest hsome ih =>
        obtain ⟨body, hbody, htext⟩ := afterString?_eq_some_iff_body.mp hsome
        rw [htext]
        exact .string hbody ih
    | case3 c cs hnone ih =>
        refine .char (fun body rest hbody htext ↦ ?_) ih
        rw [afterString?_eq_some_iff_body.mpr ⟨body, hbody, htext⟩] at hnone
        cases hnone

theorem isBalanced_iff : isBalanced t ↔ Balanced t := by
  rw [isBalanced, beq_iff_eq]
  constructor
  · exact fun h ↦ ⟨_, outsideStrings_iff.mpr rfl, h⟩
  · rintro ⟨u, hu, hcount⟩
    rwa [outsideStrings_iff.mp hu]

end Strings

/-! ## Blanks and tabs -/

theorem dropWhile_eq_self_iff_head? {p : Char → Bool} {t : Text} :
    t.dropWhile p = t ↔ t.head?.any p = false := by
  cases t with
  | nil => simp
  | cons c cs =>
      rw [List.head?_cons, Option.any_some]
      by_cases hc : p c
      · rw [List.dropWhile_cons_of_pos hc, hc]
        constructor
        · intro h
          have hle := length_dropWhile_le p cs
          rw [h] at hle
          exact absurd hle (Nat.not_succ_le_self _)
        · intro h
          cases h
      · rw [List.dropWhile_cons_of_neg hc, Bool.eq_false_iff.mpr hc]
        exact ⟨fun _ ↦ rfl, fun _ ↦ rfl⟩

/-- A text without blanks at its ends is its own trimmed form. -/
theorem trimmed_eq_self_iff {t : Text} : trimmed t = t ↔ isPadded t = false := by
  have hhead := dropWhile_eq_self_iff_head? (p := isBlank) (t := t)
  have hlast := dropWhile_eq_self_iff_head? (p := isBlank) (t := t.reverse)
  rw [List.head?_reverse] at hlast
  rw [isPadded, Bool.or_eq_false_iff, ← hhead, ← hlast, trimmed, List.reverse_eq_iff]
  constructor
  · intro h
    have hlength := length_dropWhile_le isBlank (t.dropWhile isBlank).reverse
    rw [h, List.length_reverse, List.length_reverse] at hlength
    have hstart : t.dropWhile isBlank = t :=
      (List.dropWhile_sublist isBlank).eq_of_length_le hlength
    exact ⟨hstart, by rwa [hstart] at h⟩
  · rintro ⟨hstart, hend⟩
    rw [hstart, hend]

theorem mem_expandTabsFrom_iff {c : Char} (hspace : c ≠ ' ') (htab : c ≠ '\t') {t : Text}
    {column : Nat} : c ∈ expandTabsFrom column t ↔ c ∈ t := by
  induction t generalizing column with
  | nil => rfl
  | cons d ds ih =>
      by_cases hd : d = '\t'
      · subst hd
        obtain ⟨n, column', hexpand⟩ := exists_expandTabsFrom_tab column ds
        simp [hexpand, hspace, htab, ih]
      · obtain ⟨column', hexpand⟩ := exists_expandTabsFrom_cons hd column ds
        rw [hexpand, List.mem_cons, List.mem_cons, ih]

theorem not_isMisleadingLetter_expandTabs {t : Text} (ht : ∀ c ∈ t, ¬ isMisleadingLetter c) :
    ∀ c ∈ expandTabs t, ¬ isMisleadingLetter c := by
  intro c hc hmisleading
  have hspace : c ≠ ' ' := by
    rintro rfl
    exact absurd hmisleading (by decide)
  have htab : c ≠ '\t' := by
    rintro rfl
    exact absurd hmisleading (by decide)
  exact ht c ((mem_expandTabsFrom_iff hspace htab).mp hc) hmisleading

/-! ## The languages -/

/-- A call, brackets apart: a head, and the rest of one line. -/
def IsCall (u : Text) : Prop := '\n' ∉ u ∧ ∃ head rest, u = head ++ rest ∧ CallHead head

/-- An assignment, brackets apart: gaps and a head in parentheses, and the rest of the line with what
is read as the end of an assignment. -/
def IsAssignment (u : Text) : Prop :=
  ∃ gaps head before target, u = '(' :: (gaps ++ (head ++ (before ++ target))) ∧
    (∀ c ∈ gaps, c ∈ [' ', '\n', '\r']) ∧ CallHead head ∧ '\n' ∉ before ++ target ∧
    TargetEnd target

/-- Behind a parenthesis and gaps, the name of a function is misspelled. -/
def MisspellsInside (u w : Text) : Prop :=
  ∃ gaps rest, u = '(' :: (gaps ++ rest) ∧ (∀ c ∈ gaps, c ∈ [' ', '\n', '\r']) ∧ Misspells rest w

section Languages

variable {u : Text}

theorem not_misspellsInside {w : Text} (hu : ∀ c ∈ u, ¬ isMisleadingLetter c) :
    ¬ MisspellsInside u w := by
  rintro ⟨gaps, rest, rfl, -, hw⟩
  exact not_misspells (fun c hc ↦ hu c (List.mem_cons_of_mem _ (List.mem_append_right _ hc))) hw

/-- Where all failures are known, and otherwise what is accepted, so is what is accepted at all. -/
theorem eq_ok_true_iff {x : Except Error Bool} {accepted : Prop} {misspells : Text → Prop}
    (herror : ∀ {e}, x = .error e ↔ ∃ w, misspells w ∧ e = .unknownFunction w)
    (hok : (∀ w, ¬ misspells w) → ∃ b, x = .ok b ∧ (b = true ↔ accepted)) :
    x = .ok true ↔ accepted ∧ ∀ w, ¬ misspells w := by
  constructor
  · intro h
    have hspelled : ∀ w, ¬ misspells w := fun w hw ↦
      nomatch h.symm.trans (herror.mpr ⟨w, hw, rfl⟩)
    obtain ⟨b, hb, hiff⟩ := hok hspelled
    exact ⟨hiff.mp (Except.ok.inj (hb.symm.trans h)), hspelled⟩
  · rintro ⟨haccepted, hspelled⟩
    obtain ⟨b, hb, hiff⟩ := hok hspelled
    rw [hb, hiff.mpr haccepted]

theorem isFunctionCall_eq_error_iff {e : Error} :
    isFunctionCall u = .error e ↔ ∃ w, Misspells u w ∧ e = .unknownFunction w := by
  rw [isFunctionCall, Except.bind_eq_error_iff, afterHead?_eq_error_iff]
  refine or_iff_left ?_
  rintro ⟨found, -, h⟩
  exact absurd h Except.pure_ne_error

theorem isFunctionCall_of_spelled (hu : ∀ w, ¬ Misspells u w) :
    ∃ b, isFunctionCall u = .ok b ∧ (b = true ↔ IsCall u) := by
  rcases afterHead?_cases hu with ⟨head, rest, hread, hhead, htext⟩ | ⟨hread, hnone⟩
  · refine ⟨decide ('\n' ∉ rest), ?_, ?_⟩
    · rw [isFunctionCall, hread]
      rfl
    · rw [IsCall, decide_eq_true_eq, htext, List.mem_append, or_iff_right hhead.newline_not_mem]
      exact ⟨fun h ↦ ⟨h, head, rest, rfl, hhead⟩, fun h ↦ h.1⟩
  · refine ⟨false, ?_, ?_⟩
    · rw [isFunctionCall, hread]
      rfl
    · constructor
      · intro h
        cases h
      · rintro ⟨-, head, rest, htext, hhead⟩
        exact absurd htext (hnone head rest hhead)

theorem isFunctionCall_eq_ok_true_iff :
    isFunctionCall u = .ok true ↔ IsCall u ∧ ∀ w, ¬ Misspells u w :=
  eq_ok_true_iff isFunctionCall_eq_error_iff isFunctionCall_of_spelled

theorem isFunctionCall_iff (hu : ∀ c ∈ u, ¬ isMisleadingLetter c) : ∃ b, isFunctionCall u = .ok b ∧
    (b = true ↔ '\n' ∉ u ∧ ∃ head rest, u = head ++ rest ∧ CallHead head) :=
  isFunctionCall_of_spelled fun _ ↦ not_misspells hu

/-- The gaps in front of what is no gap are dropped, and nothing else. -/
theorem dropGaps_append {gaps rest : Text} (hgaps : ∀ c ∈ gaps, c ∈ [' ', '\n', '\r'])
    (hrest : ∀ c ∈ rest.head?, ¬ isGap c) : dropGaps (gaps ++ rest) = rest := by
  have hgap : ∀ c ∈ [' ', '\n', '\r'], isGap c := List.all_iff_forall_prop.mp (by decide)
  rw [dropGaps, List.dropWhile_append_of_pos fun d hd ↦ hgap d (hgaps d hd)]
  cases rest with
  | nil => rfl
  | cons c cs => rw [List.dropWhile_cons_of_neg (hrest c rfl)]

theorem exists_gaps (htab : '\t' ∉ u) : ∃ gaps, u = gaps ++ dropGaps u ∧
    ∀ c ∈ gaps, c ∈ [' ', '\n', '\r'] := by
  refine ⟨u.takeWhile isGap, List.takeWhile_append_dropWhile.symm, fun c hc ↦ ?_⟩
  have hgap : isGap c := List.all_eq_true.mp List.all_takeWhile c hc
  have hne : c ≠ '\t' := by
    rintro rfl
    exact htab ((List.takeWhile_sublist isGap).subset hc)
  simp only [isGap, Bool.or_eq_true, beq_iff_eq, or_iff_left hne] at hgap
  simpa [or_assoc, hne] using hgap

theorem isFunctionAssignment_paren (inner : Text) : isFunctionAssignment ('(' :: inner) = do
    return (← afterHead? (dropGaps inner)).any fun rest ↦ '\n' ∉ rest && endsInTarget rest := rfl

theorem isFunctionAssignment_eq_error_iff (htab : '\t' ∉ u) {e : Error} :
    isFunctionAssignment u = .error e ↔ ∃ w, MisspellsInside u w ∧ e = .unknownFunction w := by
  constructor
  · intro h
    rw [isFunctionAssignment] at h
    split at h
    · cases h
    · rename_i inner hopen
      obtain rfl := afterChar?_eq_some_iff.mp hopen
      obtain ⟨gaps, hgaps, hall⟩ := exists_gaps (List.ne_and_not_mem_of_not_mem_cons htab).2
      rcases Except.bind_eq_error_iff.mp h with h | ⟨found, -, h⟩
      · obtain ⟨w, hw, rfl⟩ := afterHead?_eq_error_iff.mp h
        exact ⟨w, ⟨gaps, _, by rw [← hgaps], hall, hw⟩, rfl⟩
      · exact absurd h Except.pure_ne_error
  · rintro ⟨w, ⟨gaps, rest, rfl, hall, hw⟩, rfl⟩
    rw [isFunctionAssignment_paren, dropGaps_append hall hw.not_isGap]
    exact Except.bind_eq_error_iff.mpr (.inl (afterHead?_eq_error_iff.mpr ⟨w, hw, rfl⟩))

theorem isFunctionAssignment_of_spelled (htab : '\t' ∉ u) (hu : ∀ w, ¬ MisspellsInside u w) :
    ∃ b, isFunctionAssignment u = .ok b ∧ (b = true ↔ IsAssignment u) := by
  cases hopen : afterChar? '(' u with
  | none =>
      refine ⟨false, by rw [isFunctionAssignment, hopen], ?_⟩
      constructor
      · intro h
        cases h
      · rintro ⟨gaps, head, before, target, htext, -⟩
        rw [afterChar?_eq_some_iff.mpr htext] at hopen
        cases hopen
  | some inner =>
      obtain rfl := afterChar?_eq_some_iff.mp hopen
      obtain ⟨gaps, hgaps, hall⟩ := exists_gaps (List.ne_and_not_mem_of_not_mem_cons htab).2
      have hdropped : ∀ w, ¬ Misspells (dropGaps inner) w := fun w hw ↦
        hu w ⟨gaps, _, by rw [← hgaps], hall, hw⟩
      -- Behind the gaps of an assignment its head is left, which may not be the one that is read.
      have hdrop {gaps head rest : Text} (htext : '(' :: inner = '(' :: (gaps ++ (head ++ rest)))
          (hgaps : ∀ c ∈ gaps, c ∈ [' ', '\n', '\r']) (hhead : CallHead head) :
          dropGaps inner = head ++ rest := by
        rw [(List.cons.inj htext).2]
        exact dropGaps_append hgaps (hhead.not_isGap rest)
      rw [isFunctionAssignment_paren]
      rcases afterHead?_cases hdropped with ⟨head, rest, hread, hhead, htext⟩ | ⟨hread, hnone⟩
      · refine ⟨decide ('\n' ∉ rest) && endsInTarget rest, ?_, ?_⟩
        · rw [hread]
          rfl
        rw [Bool.and_eq_true, decide_eq_true_eq, endsInTarget_iff]
        constructor
        · rintro ⟨hnewline, before, target, rfl, htarget⟩
          rw [htext] at hgaps
          exact ⟨gaps, head, before, target, by rw [← hgaps], hall, hhead, hnewline, htarget⟩
        · rintro ⟨gaps, head', before, target, htext', hall, hhead', hnewline, htarget⟩
          have hboth := htext.symm.trans (hdrop htext' hall hhead')
          have hclear : '\n' ∉ head ++ rest := by
            rw [hboth, List.mem_append]
            exact not_or.mpr ⟨hhead'.newline_not_mem, hnewline⟩
          obtain ⟨before', hbefore'⟩ := hhead.exists_of_append_eq htarget hboth
          exact ⟨fun hmem ↦ hclear (List.mem_append_right _ hmem), before', target, hbefore', htarget⟩
      · refine ⟨false, ?_, ?_⟩
        · rw [hread]
          rfl
        constructor
        · intro h
          cases h
        · rintro ⟨gaps, head, before, target, htext, hall, hhead, -⟩
          exact absurd (hdrop htext hall hhead) (hnone head _ hhead)

theorem isFunctionAssignment_eq_ok_true_iff (htab : '\t' ∉ u) :
    isFunctionAssignment u = .ok true ↔ IsAssignment u ∧ ∀ w, ¬ MisspellsInside u w :=
  eq_ok_true_iff (isFunctionAssignment_eq_error_iff htab) (isFunctionAssignment_of_spelled htab)

theorem isFunctionAssignment_iff (hu : ∀ c ∈ u, ¬ isMisleadingLetter c) (htab : '\t' ∉ u) :
    ∃ b, isFunctionAssignment u = .ok b ∧
    (b = true ↔ ∃ gaps head before target, u = '(' :: (gaps ++ (head ++ (before ++ target))) ∧
      (∀ c ∈ gaps, c ∈ [' ', '\n', '\r']) ∧ CallHead head ∧ '\n' ∉ before ++ target ∧
      AssignmentEnd target) := by
  obtain ⟨b, hform, hiff⟩ :=
    isFunctionAssignment_of_spelled htab fun _ ↦ not_misspellsInside hu
  refine ⟨b, hform, hiff.trans ?_⟩
  refine exists₄_congr fun gaps head before target ↦ ?_
  refine and_congr_right ?_
  rintro rfl
  rw [targetEnd_iff fun c hc ↦ hu c (by simp [hc])]

end Languages

namespace Kind

/-- A call or an assignment has the form of its kind, no blanks at its ends, and balanced brackets. -/
theorem admits_of_hasForm_call {k : Kind} (hk : k.isCall) {t : Text} {b : Bool}
    (hform : k.hasForm (expandTabs t) = .ok b) :
    ∃ b', k.admits t = .ok b' ∧ (b' = true ↔ trimmed t = t ∧ b = true ∧ Balanced t) := by
  have htoken : k.isToken = false := by cases k <;> first | rfl | cases hk
  rw [admits, trimmed_eq_self_iff, ← isBalanced_iff]
  by_cases hpadded : isPadded t
  · rw [if_pos hpadded]
    refine ⟨false, rfl, ?_⟩
    rw [hpadded]
    constructor
    · intro h
      cases h
    · rintro ⟨h, -⟩
      cases h
  · rw [if_neg hpadded, htoken, Bool.false_and, if_neg Bool.false_ne_true, hform, hk]
    refine ⟨b && isBalanced t, rfl, ?_⟩
    rw [Bool.and_eq_true, Bool.eq_false_iff.mpr hpadded]
    exact ⟨fun h ↦ ⟨rfl, h⟩, fun h ↦ h.2⟩

/-- The languages of calls and of assignments. Of a text without the letters that are read as `s` or
`i` but are none, it is decided whether it is a call: a head and the rest of one line. And it is
decided whether it is an assignment: gaps and a head in parentheses, and the rest of the line with
what ends an assignment. Neither has blanks at its ends, and both are balanced outside their
strings. -/
theorem admits_call_iff {t : Text} (ht : ∀ c ∈ t, c ∉ ['\u017f', '\u0130', '\u0131']) :
    (∃ b, function.admits t = .ok b ∧
      (b = true ↔ trimmed t = t ∧ '\n' ∉ t ∧
        (∃ head rest, expandTabs t = head ++ rest ∧ CallHead head) ∧ Balanced t)) ∧
    (∃ b, assignment.admits t = .ok b ∧
      (b = true ↔ trimmed t = t ∧
        (∃ gaps head before target,
          expandTabs t = '(' :: (gaps ++ (head ++ (before ++ target))) ∧
          (∀ c ∈ gaps, c ∈ [' ', '\n', '\r']) ∧ CallHead head ∧ '\n' ∉ before ++ target ∧
          AssignmentEnd target) ∧ Balanced t)) := by
  have hu : ∀ c ∈ expandTabs t, ¬ isMisleadingLetter c := by
    apply not_isMisleadingLetter_expandTabs
    intro c hc
    simpa [isMisleadingLetter, or_assoc] using ht c hc
  constructor
  · obtain ⟨b, hform, hiff⟩ := isFunctionCall_iff hu
    obtain ⟨b', hadmits, hiff'⟩ := admits_of_hasForm_call (k := function) rfl hform
    have hnewline : '\n' ∈ expandTabs t ↔ '\n' ∈ t :=
      mem_expandTabsFrom_iff (by decide) (by decide)
    refine ⟨b', hadmits, ?_⟩
    rw [hiff', hiff, hnewline, and_assoc]
  · obtain ⟨b, hform, hiff⟩ := isFunctionAssignment_iff hu (not_mem_expandTabsFrom t 0)
    obtain ⟨b', hadmits, hiff'⟩ := admits_of_hasForm_call (k := assignment) rfl hform
    exact ⟨b', hadmits, by rw [hiff', hiff]⟩

/-- An assignment with a tab behind its parenthesis, a Kelvin sign in its head, and a string that
closes a parenthesis. -/
theorem admits_call_kelvin : ∃ t : Text, (∀ c ∈ t, c ∉ ['\u017f', '\u0130', '\u0131']) ∧
    t = "(\tisBlan\u212a(?x, \")\") As ?y)".toList ∧ assignment.admits t = .ok true := by
  let t : Text := "(\tisBlan\u212a(?x, \")\") As ?y)".toList
  have ht : ∀ c ∈ t, c ∉ ['\u017f', '\u0130', '\u0131'] := List.all_iff_forall_prop.mp (by decide)
  have hname : "isBLANK".toList ∈ functionNames := by decide
  have hwrites : Writes "isBLANK".toList "isBlan\u212a".toList :=
    .cons (.inl rfl) (.cons (.inl rfl) (.cons (.inl rfl) (.cons (.inl rfl) (.cons (.inl rfl)
      (.cons (.inl rfl) (.cons (.inr ⟨rfl, rfl⟩) .nil))))))
  have hkeyword : Writes ['A', 'S'] "As".toList := .cons (.inl rfl) (.cons (.inl rfl) .nil)
  let y : Run isWord := ⟨"y".toList, by decide, List.all_iff_forall_prop.mp (by decide)⟩
  obtain ⟨-, b, hadmits, hiff⟩ := admits_call_iff ht
  have hb : b = true := hiff.mpr ⟨by decide, ⟨"       ".toList, _, "(?x, \")\")".toList, _, rfl,
    List.all_iff_forall_prop.mp (by decide), .function hname hwrites, by decide,
    .mk hkeyword (.inl rfl) y⟩, isBalanced_iff.mp (by decide +kernel)⟩
  exact ⟨t, ht, rfl, hb ▸ hadmits⟩

end Kind

end SparqlComposer
