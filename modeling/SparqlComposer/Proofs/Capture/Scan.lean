import SparqlComposer.Proofs.Capture.Blind
import SparqlComposer.Proofs.Capture.Reach
import SparqlComposer.Proofs.Path.Reading
import SparqlComposer.Proofs.Text.Caseless

/-!
# What a scan finds

A scan tries its pattern at every place that no earlier capture covers. So it finds nothing where
the pattern applies nowhere, and it finds a name wherever the pattern applies and no capture reaches
beyond the place. Variables are never covered. A prefix is covered only behind a colon, and an
assignment only when its keyword is itself the name of an assigned variable.
-/

namespace SparqlComposer

/-! ## Runs of word characters -/

theorem dropWhile_append_cons {c : Char} (hc : ¬ isWord c) (w t : Text) :
    (w ++ c :: t).dropWhile isWord = w.dropWhile isWord ++ c :: t := by
  induction w with
  | nil => exact List.dropWhile_cons_of_neg hc
  | cons d w ih =>
      rw [List.cons_append, List.dropWhile_cons, List.dropWhile_cons, ih]
      split
      · rfl
      · rfl

theorem not_isWord_of_head {c : Char} (hc : ¬ isWord c) (t : Text) :
    ∀ d ∈ (c :: t).head?, ¬ isWord d := by
  intro d hd
  obtain rfl := Option.some.inj hd
  exact hc

section Run

variable {rest : Text}

theorem takeWhile_run (r : Run isWord) (h : ∀ c ∈ rest.head?, ¬ isWord c) :
    (r.text ++ rest).takeWhile isWord = r.text :=
  takeWhile_append_word r.inClass_of_mem h

theorem dropWhile_run (r : Run isWord) (h : ∀ c ∈ rest.head?, ¬ isWord c) :
    (r.text ++ rest).dropWhile isWord = rest := by
  rw [List.dropWhile_append_of_pos r.inClass_of_mem]
  cases rest with
  | nil => rfl
  | cons c rest => exact List.dropWhile_cons_of_neg (h c rfl)

theorem exists_run_of_takeWhile {t : Text} (h : t.takeWhile isWord ≠ []) :
    ∃ (r : Run isWord) (rest : Text), t = r.text ++ rest ∧ r.text = t.takeWhile isWord ∧
      ∀ c ∈ rest.head?, ¬ isWord c := by
  refine ⟨⟨_, h, List.all_eq_true.mp List.all_takeWhile⟩, t.dropWhile isWord,
    List.takeWhile_append_dropWhile.symm, rfl, fun c hc ↦ ?_⟩
  have hnot := List.head?_dropWhile_not isWord t
  rw [Option.mem_def.mp hc] at hnot
  simpa using hnot

/-! ## Where the patterns apply -/

theorem cases_of_isSigil {c : Char} (h : isSigil c) : c = '?' ∨ c = '$' := by
  simpa [isSigil] using h

theorem not_isSigil_of_isWord {c : Char} (h : isWord c) : ¬ isSigil c := by
  intro hsigil
  rcases cases_of_isSigil hsigil with rfl | rfl <;> exact absurd h (by decide)

theorem variableUse_run {before : Text} {c : Char} (r : Run isWord) (hc : isSigil c)
    (hstart : atWordStart before) (has : ¬ followsAs before) (h : ∀ d ∈ rest.head?, ¬ isWord d) :
    variableUse before (c :: (r.text ++ rest)) = some (r.text, r.text.length + 1) := by
  simp [variableUse, takeWhile_run r h, hc, hstart, has, r.ne_nil]

theorem assignmentTarget_run {before : Text} {a s c : Char} (r : Run isWord) (ha : isFormOf 'a' a)
    (hs : isFormOf 's' s) (hc : isSigil c) (hstart : atWordStart before)
    (h : ∀ d ∈ rest.head?, ¬ isWord d) :
    assignmentTarget before (a :: s :: ' ' :: c :: (r.text ++ rest)) =
      some (r.text, r.text.length + 4) := by
  simp [assignmentTarget, takeWhile_run r h, ha, hs, hc, hstart, r.ne_nil]

theorem prefixUse_run {before : Text} (name localName : Run isWord) (hstart : atWordStart before)
    (h : ∀ c ∈ rest.head?, ¬ isWord c) :
    prefixUse before (name.text ++ ':' :: (localName.text ++ rest)) =
      some (name.text, name.text.length + 1 + localName.text.length) := by
  have hcolon := not_isWord_of_head (c := ':') (by decide) (localName.text ++ rest)
  rw [prefixUse_colon (dropWhile_run name hcolon), takeWhile_run name hcolon,
    takeWhile_run localName h]
  simp [hstart, name.ne_nil, localName.ne_nil]

end Run

theorem exists_of_variableUse {before ahead name : Text} {n : Nat}
    (h : variableUse before ahead = some (name, n)) :
    ∃ c cs, ahead = c :: cs ∧ isSigil c ∧ name = cs.takeWhile isWord ∧ n = name.length + 1 ∧
      atWordStart before ∧ ¬ followsAs before ∧ name ≠ [] := by
  unfold variableUse at h
  split at h
  · rename_i c cs
    dsimp only at h
    split at h
    · rename_i hfound
      simp only [Bool.and_eq_true, Bool.not_eq_true', List.isEmpty_eq_false_iff] at hfound
      obtain ⟨⟨⟨hc, hstart⟩, has⟩, hne⟩ := hfound
      obtain ⟨rfl, rfl⟩ := Prod.mk.inj (Option.some.inj h)
      exact ⟨c, cs, rfl, hc, rfl, rfl, hstart, by simp [has], hne⟩
    · cases h
  · cases h

theorem exists_of_assignmentTarget {before ahead name : Text} {n : Nat}
    (h : assignmentTarget before ahead = some (name, n)) :
    ∃ a s c cs, ahead = a :: s :: ' ' :: c :: cs ∧ isFormOf 'a' a ∧ isFormOf 's' s ∧ isSigil c ∧
      atWordStart before ∧ name = cs.takeWhile isWord ∧ n = name.length + 4 ∧ name ≠ [] := by
  unfold assignmentTarget at h
  split at h
  · rename_i a s c cs
    dsimp only at h
    split at h
    · rename_i hfound
      simp only [Bool.and_eq_true, Bool.not_eq_true', List.isEmpty_eq_false_iff] at hfound
      obtain ⟨⟨⟨⟨ha, hs⟩, hc⟩, hstart⟩, hne⟩ := hfound
      obtain ⟨rfl, rfl⟩ := Prod.mk.inj (Option.some.inj h)
      exact ⟨a, s, c, cs, rfl, ha, hs, hc, hstart, rfl, rfl, hne⟩
    · cases h
  · cases h

theorem exists_of_prefixUse {before ahead name : Text} {n : Nat}
    (h : prefixUse before ahead = some (name, n)) :
    ∃ cs, name = ahead.takeWhile isWord ∧ ahead.dropWhile isWord = ':' :: cs ∧
      n = name.length + 1 + (cs.takeWhile isWord).length ∧
      atWordStart before ∧ name ≠ [] ∧ cs.takeWhile isWord ≠ [] := by
  cases hdrop : ahead.dropWhile isWord with
  | nil =>
      rw [prefixUse_eq_none (by simp [hdrop])] at h
      cases h
  | cons d cs =>
      by_cases hd : d = ':'
      · subst hd
        rw [prefixUse_colon hdrop] at h
        split at h
        · rename_i hfound
          simp only [Bool.and_eq_true, Bool.not_eq_true', List.isEmpty_eq_false_iff] at hfound
          obtain ⟨⟨hstart, hne⟩, hlocal⟩ := hfound
          obtain ⟨rfl, rfl⟩ := Prod.mk.inj (Option.some.inj h)
          exact ⟨cs, rfl, rfl, rfl, hstart, hne, hlocal⟩
        · cases h
      · rw [prefixUse_eq_none (by simp [hdrop, hd])] at h
        cases h

/-! ## One step of a scan -/

section Step

variable {pattern : CapturePattern} {before u : Text} {c : Char}

theorem scan_of_none (h : pattern before (c :: u) = none) :
    scan pattern 0 before (c :: u) = scan pattern 0 (c :: before) u := by
  rw [scan, h]
  exact ite_self _

/-- The scan goes on behind what a capture covers. -/
theorem scan_of_some {w name : Text} (hgap : ¬ isGap c)
    (h : pattern before (c :: (w ++ u)) = some (name, w.length + 1)) :
    scan pattern 0 before (c :: (w ++ u)) =
      name :: scan pattern 0 (w.reverse ++ c :: before) u := by
  rw [scan, if_neg hgap, h]
  exact congrArg (name :: ·) (scan_covered pattern w (c :: before) u)

theorem variableUse_eq_none (h : ¬ isSigil c) : variableUse before (c :: u) = none := by
  rw [Option.eq_none_iff_forall_ne_some]
  rintro ⟨name, n⟩ hfound
  obtain ⟨d, cs, heq, hd, -⟩ := exists_of_variableUse hfound
  obtain rfl := (List.cons.inj heq).1
  exact h hd

theorem foundAt_variableUse_eq_none (h : ¬ isSigil c) :
    foundAt variableUse before (c :: u) = none := by
  rw [foundAt, variableUse_eq_none h]
  exact ite_self _

/-- No variable is used where its mark does not stand. -/
theorem scan_variableUse_append {w : Text} (h : ∀ c ∈ w, ¬ isSigil c) (before u : Text) :
    scan variableUse 0 before (w ++ u) = scan variableUse 0 (w.reverse ++ before) u := by
  refine scan_append_of_none u fun w₁ w₂ hw hne ↦ ?_
  obtain ⟨c, w₂, rfl⟩ := List.exists_cons_of_ne_nil hne
  exact foundAt_variableUse_eq_none (h c (hw ▸ List.mem_append_right w₁ List.mem_cons_self))

end Step

/-! ## Where nothing is found -/

theorem scan_eq_nil {pattern : CapturePattern} {u : Text}
    (h : ∀ v, v <:+ u → ∀ before, pattern before v = none) (skip : Nat) (before : Text) :
    scan pattern skip before u = [] := by
  induction u generalizing skip before with
  | nil => rfl
  | cons c u ih =>
      have hrest := ih fun v hv ↦ h v (hv.trans (List.suffix_cons c u))
      cases skip with
      | succ skip =>
          rw [scan]
          exact hrest skip _
      | zero =>
          rw [scan, h (c :: u) (List.suffix_refl _)]
          split
          · exact hrest 0 _
          · exact hrest 0 _

theorem scan_assignmentTarget_eq_nil {u : Text} (h : ' ' ∉ u) (skip : Nat) (before : Text) :
    scan assignmentTarget skip before u = [] := by
  refine scan_eq_nil (fun v hv b ↦ ?_) skip before
  rw [Option.eq_none_iff_forall_ne_some]
  rintro ⟨name, n⟩ hfound
  obtain ⟨a, s, c, cs, rfl, -⟩ := exists_of_assignmentTarget hfound
  exact h (hv.subset (by simp))

theorem scan_prefixUse_eq_nil {u : Text} (h : ':' ∉ u) (skip : Nat) (before : Text) :
    scan prefixUse skip before u = [] := by
  refine scan_eq_nil (fun v hv b ↦ ?_) skip before
  rw [Option.eq_none_iff_forall_ne_some]
  rintro ⟨name, n⟩ hfound
  obtain ⟨cs, -, hcolon, -⟩ := exists_of_prefixUse hfound
  have hmem : ':' ∈ v.dropWhile isWord := hcolon ▸ List.mem_cons_self
  exact h (hv.subset ((List.dropWhile_sublist isWord).subset hmem))

/-! ## Where a name is found -/

theorem not_isGap_of_isFormOf {c : Char} (h : isFormOf 'a' c) : ¬ isGap c := by
  intro hgap
  simp only [isGap, Bool.or_eq_true, beq_iff_eq] at hgap
  rcases hgap with ((rfl | rfl) | rfl) | rfl <;> exact absurd h (by decide)

theorem not_isFormOf_of_isSigil {c : Char} (h : isSigil c) : ¬ isFormOf 'a' c := by
  rcases cases_of_isSigil h with rfl | rfl <;> decide

section Place

variable {w rest : Text}

/-- What is read of a word behind `w` does not reach beyond a place where a word starts. -/
theorem exists_of_atWordStart (hne : w ≠ []) {before : Text}
    (h : atWordStart (w.reverse ++ before)) : ∃ w₀ d, w = w₀ ++ [d] ∧ ¬ isWord d := by
  rcases List.eq_nil_or_concat w with rfl | ⟨w₀, d, rfl⟩
  · exact absurd rfl hne
  · refine ⟨w₀, d, by simp, ?_⟩
    simpa [atWordStart] using h

/-- Every variable is found where a word may start, unless it is assigned. -/
theorem mem_scan_variableUse {c : Char} (r : Run isWord) (hc : isSigil c)
    (hstart : atWordStart w.reverse) (has : ¬ followsAs w.reverse)
    (h : ∀ d ∈ rest.head?, ¬ isWord d) :
    r.text ∈ scan variableUse 0 [] (w ++ c :: (r.text ++ rest)) := by
  have hsigil : ¬ isWord c ∧ ¬ isGap c := by
    rcases cases_of_isSigil hc with rfl | rfl <;> decide
  have hfound : variableUse (w.reverse ++ []) (c :: (r.text ++ rest)) =
      some (r.text, r.text.length + 1) := by
    rw [List.append_nil]
    exact variableUse_run r hc hstart has h
  refine mem_scan ?_ (List.cons_ne_nil _ _) hfound (Nat.zero_le _) ?_
  · intro d hd
    obtain rfl : c = d := Option.some.inj hd
    exact hsigil.2
  · -- An earlier variable ends in front of the mark of this one.
    intro w₁ w₂ hw hne name n hearlier
    obtain ⟨d, cs, hcs, -, rfl, rfl, -⟩ := exists_of_variableUse hearlier
    obtain ⟨d', w₃, rfl⟩ := List.exists_cons_of_ne_nil hne
    rw [List.cons_append] at hcs
    obtain ⟨rfl, rfl⟩ := List.cons.inj hcs
    rw [takeWhile_append_cons hsigil.1, List.length_cons]
    exact Nat.succ_le_succ (List.takeWhile_sublist isWord).length_le

/-- Every prefix of a prefixed name is found where a word may start, unless a colon stands in front
of it. -/
theorem mem_scan_prefixUse (name localName : Run isWord) (hstart : atWordStart w.reverse)
    (hcolon : w.reverse.head? ≠ some ':') (h : ∀ c ∈ rest.head?, ¬ isWord c) :
    name.text ∈ scan prefixUse 0 [] (w ++ (name.text ++ ':' :: (localName.text ++ rest))) := by
  obtain ⟨c, cs, hname⟩ := List.exists_cons_of_ne_nil name.ne_nil
  have hc : isWord c := name.inClass_of_mem c (hname ▸ List.mem_cons_self)
  have hfound : prefixUse (w.reverse ++ []) (name.text ++ ':' :: (localName.text ++ rest)) =
      some (name.text, name.text.length + 1 + localName.text.length) := by
    rw [List.append_nil]
    exact prefixUse_run name localName hstart h
  refine mem_scan ?_ (by simp [hname]) hfound (Nat.zero_le _) ?_
  · intro d hd
    rw [hname, List.cons_append] at hd
    obtain rfl : c = d := Option.some.inj hd
    exact not_isGap_of_isWord hc
  · -- An earlier prefixed name ends in front of the character that lets a word start here.
    intro w₁ w₂ hw hne name' n hearlier
    have hplace : w.reverse = w₂.reverse ++ w₁.reverse := by rw [hw, List.reverse_append]
    obtain ⟨w₀, d, rfl, hd⟩ := exists_of_atWordStart hne (hplace ▸ hstart)
    have hdcolon : d ≠ ':' := by
      rintro rfl
      exact hcolon (by simp [hplace])
    obtain ⟨u, rfl, hdrop, rfl, -⟩ := exists_of_prefixUse hearlier
    rw [List.append_assoc, List.singleton_append] at hdrop ⊢
    rw [dropWhile_append_cons hd] at hdrop
    cases hw₀ : w₀.dropWhile isWord with
    | nil =>
        rw [hw₀, List.nil_append] at hdrop
        exact absurd (List.cons.inj hdrop).1 hdcolon
    | cons d' w₃ =>
        rw [hw₀, List.cons_append] at hdrop
        obtain ⟨-, rfl⟩ := List.cons.inj hdrop
        have hlength := congrArg List.length
          (List.takeWhile_append_dropWhile (p := isWord) (l := w₀))
        have hlocal := (List.takeWhile_sublist isWord (l := w₃)).length_le
        rw [takeWhile_append_cons hd, takeWhile_append_cons hd]
        simp only [hw₀, List.length_append, List.length_cons, List.length_nil] at hlength ⊢
        omega

/-- An assignment reaches into the keyword of another one only if this keyword is its variable. -/
theorem exists_of_reaching {before name cs : Text} {a s : Char} {n : Nat} (hne : w ≠ [])
    (ha : isFormOf 'a' a) (hs : isFormOf 's' s) (hstart : atWordStart (w.reverse ++ before))
    (h : assignmentTarget before (w ++ a :: s :: ' ' :: cs) = some (name, n))
    (hn : w.length < n) : ∃ a' s' c, w = [a', s', ' ', c] ∧ isFormOf 'a' a' ∧ isFormOf 's' s' ∧
      isSigil c ∧ atWordStart before ∧ n = 6 := by
  obtain ⟨a', s', c, cs', hahead, ha', hs', hc, hstart', rfl, rfl, -⟩ :=
    exists_of_assignmentTarget h
  -- The keyword here starts behind the earlier assignment or with the name of its variable.
  rcases w with _ | ⟨x₁, _ | ⟨x₂, _ | ⟨x₃, _ | ⟨x₄, w⟩⟩⟩⟩
  · exact absurd rfl hne
  · obtain ⟨-, -, rfl, -⟩ := by simpa using hahead
    exact absurd hs (by decide)
  · obtain ⟨-, -, rfl, -⟩ := by simpa using hahead
    exact absurd ha (by decide)
  · obtain ⟨-, -, -, rfl, -⟩ := by simpa using hahead
    exact absurd ha (not_isFormOf_of_isSigil hc)
  · obtain ⟨rfl, rfl, rfl, rfl, rfl⟩ := by simpa using hahead
    cases w with
    | nil =>
        refine ⟨x₁, x₂, x₄, rfl, ha', hs', hc, hstart', ?_⟩
        rw [List.nil_append, List.takeWhile_cons_of_pos (isWord_of_isFormOf (by decide) ha),
          List.takeWhile_cons_of_pos (isWord_of_isFormOf (by decide) hs),
          List.takeWhile_cons_of_neg (by decide)]
        rfl
    | cons d w =>
        have hword : atWordStart ((d :: w).reverse ++ x₄ :: ' ' :: x₂ :: x₁ :: before) := by
          simpa using hstart
        obtain ⟨w₀, e, hlast, he⟩ := exists_of_atWordStart (List.cons_ne_nil d w) hword
        have hlength := (List.takeWhile_sublist isWord (l := w₀)).length_le
        rw [hlast, List.append_assoc, List.singleton_append, takeWhile_append_cons he] at hn
        simp only [List.length_append, List.length_cons, List.length_nil] at hn
        omega

/-- The place follows a variable that is named `AS` and is itself the target of an assignment. -/
def followsTargetAs : (before : Text) → Bool
  | ' ' :: s :: a :: c :: before =>
      isFormOf 's' s && isFormOf 'a' a && isSigil c && followsAs before
  | _ => false

/-- Every assigned variable is found, unless its keyword is found as an assigned variable. -/
theorem mem_scan_assignmentTarget {c : Char} (r : Run isWord) (hc : isSigil c)
    (has : followsAs w.reverse) (htarget : ¬ followsTargetAs w.reverse)
    (h : ∀ d ∈ rest.head?, ¬ isWord d) :
    r.text ∈ scan assignmentTarget 0 [] (w ++ c :: (r.text ++ rest)) := by
  obtain ⟨s, a, before, hw, hs, ha, hstart⟩ := followsAs_iff.mp has
  obtain rfl : w = before.reverse ++ [a, s, ' '] := by
    rw [← List.reverse_reverse w, hw]
    simp
  have hfound : assignmentTarget (before.reverse.reverse ++ []) (a :: s :: ' ' :: c ::
      (r.text ++ rest)) = some (r.text, r.text.length + 4) := by
    rw [List.reverse_reverse, List.append_nil]
    exact assignmentTarget_run r ha hs hc hstart h
  rw [List.append_assoc]
  refine mem_scan ?_ (List.cons_ne_nil _ _) hfound (Nat.zero_le _) ?_
  · intro d hd
    obtain rfl : a = d := Option.some.inj hd
    exact not_isGap_of_isFormOf ha
  · intro w₁ w₂ hw₂ hne name n hearlier
    have hplace : before = w₂.reverse ++ w₁.reverse := by
      rw [← List.reverse_append, ← hw₂, List.reverse_reverse]
    by_contra hn
    rw [List.append_nil] at hearlier
    obtain ⟨a', s', c', rfl, ha', hs', hc', hstart', -⟩ :=
      exists_of_reaching hne ha hs (hplace ▸ hstart) hearlier (Nat.lt_of_not_le hn)
    have hagain : followsAs (' ' :: s' :: a' :: w₁.reverse) :=
      followsAs_iff.mpr ⟨s', a', w₁.reverse, rfl, hs', ha', hstart'⟩
    rw [hw, hplace] at htarget
    exact htarget (by simpa [followsTargetAs, hs, ha, hc'] using hagain)

end Place

end SparqlComposer
