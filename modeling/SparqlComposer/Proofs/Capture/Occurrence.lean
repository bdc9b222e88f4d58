import SparqlComposer.Proofs.Capture.Place

/-!
# Occurrences of variables

Each variable of a text is used or assigned, and no name comes from anywhere else. The one exception
stands behind a variable that is named `AS` and is itself assigned, as in `AS ?AS ?x`: there the
keyword is used up as a name. In a chain of such variables every second one is assigned.
-/

namespace SparqlComposer

/-- A variable of this name stands behind the text that `before` reads backwards. -/
def VariableAt (u before name : Text) : Prop :=
  ∃ (c : Char) (r : Run isWord) (rest : Text), u = before.reverse ++ c :: (r.text ++ rest) ∧
    r.text = name ∧ isSigil c ∧ atWordStart before ∧ ∀ d ∈ rest.head?, ¬ isWord d

/-- The keyword in front of the place assigns what stands there: it is not itself the name of a
variable that is assigned. -/
def isAssigned : (before : Text) → Bool
  | ' ' :: s :: a :: c :: before =>
      followsAs (' ' :: s :: a :: c :: before) && !(isSigil c && isAssigned before)
  | before => followsAs before

/-- The keyword in front of the place is the name of an assigned variable. -/
def isPassedOver : (before : Text) → Bool
  | ' ' :: s :: a :: c :: before =>
      isFormOf 's' s && isFormOf 'a' a && isSigil c && isAssigned before
  | _ => false

theorem atWordStart_of_isSigil {c : Char} (h : isSigil c) (before : Text) :
    atWordStart (c :: before) := by
  rcases cases_of_isSigil h with rfl | rfl <;> rfl

theorem isPassedOver_iff {b : Text} : isPassedOver b ↔ ∃ s a c before,
    b = ' ' :: s :: a :: c :: before ∧ isFormOf 's' s ∧ isFormOf 'a' a ∧ isSigil c ∧
      isAssigned before := by
  unfold isPassedOver
  split
  · simp [and_assoc]
  · rename_i hne
    refine ⟨fun h ↦ absurd h Bool.false_ne_true, ?_⟩
    rintro ⟨s, a, c, before, heq, -⟩
    exact absurd heq (hne s a c before)

theorem followsAs_of_isPassedOver {b : Text} (h : isPassedOver b) : followsAs b := by
  obtain ⟨s, a, c, before, rfl, hs, ha, hc, -⟩ := isPassedOver_iff.mp h
  exact followsAs_iff.mpr ⟨s, a, c :: before, rfl, hs, ha, atWordStart_of_isSigil hc before⟩

theorem isAssigned_iff {b : Text} : isAssigned b ↔ followsAs b ∧ ¬ isPassedOver b := by
  unfold isAssigned
  split
  · rename_i s a c before
    rw [Bool.and_eq_true]
    refine and_congr_right fun has ↦ ?_
    obtain ⟨s', a', before', heq, hs, ha, -⟩ := followsAs_iff.mp has
    obtain ⟨rfl, rfl, -⟩ := by simpa using heq
    simp [isPassedOver, hs, ha, imp_iff_not_or]
  · rename_i hne
    refine ⟨fun has ↦ ⟨has, fun hpassed ↦ ?_⟩, And.left⟩
    obtain ⟨s, a, c, before, rfl, -⟩ := isPassedOver_iff.mp hpassed
    exact hne s a c before rfl

/-! ## Keywords that the scan reaches -/

section Keyword

variable {a s : Char} {before : Text}

/-- The keyword is a word. -/
def keywordRun (ha : isFormOf 'a' a) (hs : isFormOf 's' s) : Run isWord where
  text := [a, s]
  ne_nil := List.cons_ne_nil a [s]
  inClass_of_mem := by
    have hletters : isWord a ∧ isWord s :=
      ⟨isWord_of_isFormOf (by decide) ha, isWord_of_isFormOf (by decide) hs⟩
    simpa using hletters

theorem foundAt_keyword {c : Char} {rest : Text} (r : Run isWord) (ha : isFormOf 'a' a)
    (hs : isFormOf 's' s) (hc : isSigil c) (hstart : atWordStart before)
    (h : ∀ d ∈ rest.head?, ¬ isWord d) :
    foundAt assignmentTarget before (a :: s :: ' ' :: c :: (r.text ++ rest)) =
      some (r.text, r.text.length + 4) :=
  (if_neg (not_isGap_of_isFormOf ha)).trans (assignmentTarget_run r ha hs hc hstart h)

/-- The scan for assignments has covered a keyword just when this is the name of a variable that it
has found assigned. -/
theorem coveredBehind_keyword (ha : isFormOf 'a' a) (hs : isFormOf 's' s)
    (hstart : atWordStart before) (cs : Text) :
    coveredBehind assignmentTarget 0 [] before.reverse (a :: s :: ' ' :: cs) ≠ 0 ↔
      isPassedOver (' ' :: s :: a :: before) := by
  -- By induction on the length: what covers a keyword is the assignment just in front of it.
  induction hn : before.length using Nat.strongRecOn generalizing before a s cs with
  | ind n ih =>
  rw [isPassedOver_iff]
  constructor
  · intro hcovered
    rcases exists_of_coveredBehind hcovered with hlength |
      ⟨w₁, w₂, name, n', hw, hne, hfree, hfound, hn'⟩
    · cases hlength
    · have hplace : before = w₂.reverse ++ w₁.reverse := by
        rw [← List.reverse_append, ← hw, List.reverse_reverse]
      have hearlier := pattern_of_foundAt hfound
      rw [List.append_nil] at hearlier
      obtain ⟨a', s', c, rfl, ha', hs', hc, hstart', -⟩ :=
        exists_of_reaching hne ha hs (hplace ▸ hstart) hearlier hn'
      have hshort : w₁.reverse.length < n := by
        rw [← hn, hplace, List.length_append]
        exact Nat.lt_add_of_pos_left (Nat.succ_pos _)
      have hreached := (ih _ hshort ha' hs' hstart' (c :: a :: s :: ' ' :: cs) rfl).not
      rw [List.reverse_reverse, not_not] at hreached
      refine ⟨s, a, c, ' ' :: s' :: a' :: w₁.reverse, by simp [hplace], hs, ha, hc, ?_⟩
      exact isAssigned_iff.mpr ⟨followsAs_iff.mpr ⟨s', a', w₁.reverse, rfl, hs', ha', hstart'⟩,
        hreached.mp hfree⟩
  · rintro ⟨s', a', c, b, heq, -, -, hc, hassigned⟩
    obtain ⟨rfl, rfl, rfl⟩ := by simpa using heq
    obtain ⟨has, hnot⟩ := isAssigned_iff.mp hassigned
    obtain ⟨s', a', b, rfl, hs', ha', hstart'⟩ := followsAs_iff.mp has
    have hshort : b.length < n := by
      rw [← hn]
      simp
      omega
    have hreached : coveredBehind assignmentTarget 0 [] b.reverse
        ([a', s', ' ', c] ++ a :: s :: ' ' :: cs) = 0 :=
      not_not.mp ((ih _ hshort ha' hs' hstart' (c :: a :: s :: ' ' :: cs) rfl).not.mpr hnot)
    have hfound : foundAt assignmentTarget b ([a', s', ' ', c] ++ a :: s :: ' ' :: cs) =
        some ([a, s], 6) :=
      foundAt_keyword (keywordRun ha hs) ha' hs' hc hstart' (not_isWord_of_head (by decide) cs)
    have hsplit : (c :: ' ' :: s' :: a' :: b).reverse = b.reverse ++ [a', s', ' ', c] := by simp
    rw [hsplit, coveredBehind_append, hreached, List.append_nil, List.reverse_reverse,
      coveredBehind_of_foundAt (List.cons_ne_nil _ _) hfound (by simp)]
    simp

end Keyword

/-! ## The names of a text -/

section Names

variable {name : Text}

theorem mem_variablesOf_iff {t : Text} : name ∈ variablesOf t ↔
    ∃ before, VariableAt (expandTabs (escaped t)) before name ∧ ¬ followsAs before := by
  rw [variablesOf, mem_captures]
  constructor
  · intro h
    obtain ⟨w, v, n, hu, -, hfound⟩ := mem_scan_iff.mp h
    obtain ⟨c, cs, rfl, hc, rfl, -, hstart, has, hne⟩ :=
      exists_of_variableUse (pattern_of_foundAt hfound)
    obtain ⟨r, rest, rfl, hr, hrest⟩ := exists_run_of_takeWhile hne
    rw [List.append_nil] at hstart has
    exact ⟨w.reverse, ⟨c, r, rest, by rw [hu, List.reverse_reverse], hr, hc, hstart, hrest⟩, has⟩
  · rintro ⟨before, ⟨c, r, rest, hu, rfl, hc, hstart, hrest⟩, has⟩
    rw [← List.reverse_reverse before] at hstart has
    rw [hu]
    exact mem_scan_variableUse r hc hstart has hrest

theorem mem_assignmentsOf_iff {t : Text} : name ∈ assignmentsOf t ↔
    ∃ before, VariableAt (expandTabs (escaped t)) before name ∧ isAssigned before := by
  rw [assignmentsOf, mem_captures]
  constructor
  · intro h
    obtain ⟨w, v, n, hu, hfree, hfound⟩ := mem_scan_iff.mp h
    obtain ⟨a, s, c, cs, rfl, ha, hs, hc, hstart, rfl, -, hne⟩ :=
      exists_of_assignmentTarget (pattern_of_foundAt hfound)
    obtain ⟨r, rest, rfl, hr, hrest⟩ := exists_run_of_takeWhile hne
    rw [List.append_nil] at hstart
    have hreached := (coveredBehind_keyword ha hs hstart (c :: (r.text ++ rest))).not
    rw [List.reverse_reverse, not_not] at hreached
    refine ⟨' ' :: s :: a :: w.reverse, ⟨c, r, rest, by simp [hu], hr, hc, rfl, hrest⟩, ?_⟩
    exact isAssigned_iff.mpr ⟨followsAs_iff.mpr ⟨s, a, w.reverse, rfl, hs, ha, hstart⟩,
      hreached.mp hfree⟩
  · rintro ⟨before, ⟨c, r, rest, hu, rfl, hc, hstart, hrest⟩, hassigned⟩
    obtain ⟨has, hnot⟩ := isAssigned_iff.mp hassigned
    obtain ⟨s, a, before, rfl, hs, ha, hstart'⟩ := followsAs_iff.mp has
    have hreached := (coveredBehind_keyword ha hs hstart' (c :: (r.text ++ rest))).not.mpr hnot
    refine mem_scan_iff.mpr ⟨before.reverse, a :: s :: ' ' :: c :: (r.text ++ rest),
      r.text.length + 4, by simp [hu], not_not.mp hreached, ?_⟩
    rw [List.append_nil, List.reverse_reverse]
    exact foundAt_keyword r ha hs hc hstart' hrest

theorem mem_assignmentsOf_of_isPassedOver {t before : Text}
    (h : VariableAt (expandTabs (escaped t)) before name) (hpassed : isPassedOver before) :
    ∃ a s, isFormOf 'a' a ∧ isFormOf 's' s ∧ [a, s] ∈ assignmentsOf t := by
  obtain ⟨s, a, c, b, rfl, hs, ha, hc, hassigned⟩ := isPassedOver_iff.mp hpassed
  obtain ⟨c', r, rest, hu, -⟩ := h
  obtain ⟨s', a', b', hb, -⟩ := followsAs_iff.mp (isAssigned_iff.mp hassigned).1
  refine ⟨a, s, ha, hs, mem_assignmentsOf_iff.mpr ⟨b, ?_, hassigned⟩⟩
  exact ⟨c, keywordRun ha hs, ' ' :: c' :: (r.text ++ rest), by simp [hu, keywordRun], rfl, hc,
    by rw [hb]; rfl, not_isWord_of_head (by decide) _⟩

/-- The variables a text uses are those behind no keyword, and those it assigns are those behind a
keyword that is not itself the name of an assigned variable. So every variable is used or assigned,
unless it stands behind such a name, which the text then assigns. -/
theorem names_of_occurrences (t : Text) :
    (∀ name, name ∈ variablesOf t ↔
      ∃ before, VariableAt (expandTabs (escaped t)) before name ∧ ¬ followsAs before) ∧
    (∀ name, name ∈ assignmentsOf t ↔
      ∃ before, VariableAt (expandTabs (escaped t)) before name ∧ isAssigned before) ∧
    (∀ before name, VariableAt (expandTabs (escaped t)) before name →
      name ∈ variablesOf t ∨ name ∈ assignmentsOf t ∨ isPassedOver before) ∧
    ∀ before name, VariableAt (expandTabs (escaped t)) before name → isPassedOver before →
      ∃ a s, isFormOf 'a' a ∧ isFormOf 's' s ∧ [a, s] ∈ assignmentsOf t := by
  refine ⟨fun _ ↦ mem_variablesOf_iff, fun _ ↦ mem_assignmentsOf_iff, fun before name h ↦ ?_,
    fun _ _ ↦ mem_assignmentsOf_of_isPassedOver⟩
  by_cases hassigned : isAssigned before
  · exact .inr (.inl (mem_assignmentsOf_iff.mpr ⟨before, h, hassigned⟩))
  · by_cases hpassed : isPassedOver before
    · exact .inr (.inr hpassed)
    · have has : ¬ followsAs before := fun has ↦ hassigned (isAssigned_iff.mpr ⟨has, hpassed⟩)
      exact .inl (mem_variablesOf_iff.mpr ⟨before, h, has⟩)

/-- Of three variables named in a row, the one behind the first named like the keyword is passed
over and the one behind the second is not. With one such name nothing but the name is assigned. -/
theorem names_of_occurrences_chain : ∃ t : Text, t = "AS ?as ?AS ?x".toList ∧
    (assignmentsOf t).toList = ["as".toList, "x".toList] ∧ (variablesOf t).toList = [] ∧
    VariableAt (expandTabs (escaped t)) " sa? SA".toList "AS".toList ∧
    (∃ a s, isFormOf 'a' a ∧ isFormOf 's' s ∧ [a, s] ∈ assignmentsOf t) ∧
    (assignmentsOf "AS ?AS ?x".toList).toList = ["AS".toList] ∧
    (variablesOf "AS ?AS ?x".toList).toList = [] := by
  have hplace : VariableAt (expandTabs (escaped "AS ?as ?AS ?x".toList)) " sa? SA".toList
      "AS".toList :=
    ⟨'?', keywordRun (a := 'A') (s := 'S') rfl rfl, " ?x".toList, by decide +kernel, rfl, rfl, rfl,
      not_isWord_of_head (c := ' ') (by decide) _⟩
  obtain ⟨-, -, -, hname⟩ := names_of_occurrences "AS ?as ?AS ?x".toList
  exact ⟨_, rfl, by decide +kernel, by decide +kernel, hplace, hname _ _ hplace rfl,
    by decide +kernel, by decide +kernel⟩

end Names

end SparqlComposer
