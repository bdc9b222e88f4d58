import Mathlib.Data.Bool.AllAny
import SparqlComposer.Expression.Capture
import SparqlComposer.Proofs.Span.Restore
import SparqlComposer.Proofs.Text.Word

/-!
# Captures are blind for protected spans

Escaping writes a bracketed word for every span, always of the same length. No pattern finds a name
inside such a word, and none covers a bracket, so what is captured elsewhere does not reach into a
word, and it looks back no further than to the bracket that closes one. Tab stops come in the same
places, because the words are equally long. So two texts mention the same names whenever they
differ in what their spans hold and in nothing else.
-/

namespace SparqlComposer

/-! ## Bracketed words -/

/-- The two texts are the same outside some bracketed words, which are as long in the one as in the
other. -/
inductive SameOutside : Text → Text → Prop where
  | nil : SameOutside [] []
  | plain (c : Char) {u v : Text} (h : SameOutside u v) : SameOutside (c :: u) (c :: v)
  | bracketed {w w' u v : Text} (hw : ∀ c ∈ w, isWord c) (hw' : ∀ c ∈ w', isWord c)
      (hlength : w.length = w'.length) (h : SameOutside u v) :
      SameOutside ('<' :: w ++ '>' :: u) ('<' :: w' ++ '>' :: v)

/-- The two texts, which stand before a place and are read backwards from it, are the same as far
back as to a closing bracket. -/
inductive SameBehind : Text → Text → Prop where
  | refl (b : Text) : SameBehind b b
  | closed (w x y : Text) : SameBehind (w ++ '>' :: x) (w ++ '>' :: y)

theorem SameBehind.cons {b b' : Text} (h : SameBehind b b') (c : Char) :
    SameBehind (c :: b) (c :: b') := by
  cases h with
  | refl => exact .refl _
  | closed w x y => exact .closed (c :: w) x y

theorem SameBehind.append {b b' : Text} (h : SameBehind b b') (w : Text) :
    SameBehind (w ++ b) (w ++ b') := by
  induction w with
  | nil => exact h
  | cons c w ih => exact ih.cons c

theorem SameBehind.atWordStart_eq {b b' : Text} (h : SameBehind b b') :
    atWordStart b = atWordStart b' := by
  cases h with
  | refl => rfl
  | closed w x y => cases w <;> rfl

theorem followsAs_iff {b : Text} : followsAs b ↔ ∃ s a before, b = ' ' :: s :: a :: before ∧
    isFormOf 's' s ∧ isFormOf 'a' a ∧ atWordStart before := by
  unfold followsAs
  split
  · simp [and_assoc]
  · rename_i hne
    refine ⟨fun h ↦ absurd h Bool.false_ne_true, ?_⟩
    rintro ⟨s, a, before, heq, -⟩
    exact absurd heq (hne s a before)

theorem SameBehind.followsAs_of {b b' : Text} (h : SameBehind b b') (hb : followsAs b) :
    followsAs b' := by
  cases h with
  | refl => exact hb
  | closed w x y =>
      obtain ⟨s, a, before, heq, hs, ha, hstart⟩ := followsAs_iff.mp hb
      -- A bracket is neither a space nor a letter, so it stands before the keyword.
      rcases w with _ | ⟨c, _ | ⟨d, _ | ⟨e, w⟩⟩⟩
      · cases (List.cons.inj heq).1
      · obtain ⟨-, rfl, -⟩ := by simpa using heq
        exact absurd hs (by decide)
      · obtain ⟨-, -, rfl, -⟩ := by simpa using heq
        exact absurd ha (by decide)
      · obtain ⟨rfl, rfl, rfl, rfl⟩ := by simpa using heq
        rw [(SameBehind.closed w x y).atWordStart_eq] at hstart
        exact followsAs_iff.mpr ⟨d, e, w ++ '>' :: y, rfl, hs, ha, hstart⟩

theorem SameBehind.symm {b b' : Text} (h : SameBehind b b') : SameBehind b' b := by
  cases h with
  | refl => exact .refl _
  | closed w x y => exact .closed w y x

theorem SameBehind.followsAs_eq {b b' : Text} (h : SameBehind b b') :
    followsAs b = followsAs b' := Bool.eq_iff_iff.mpr ⟨h.followsAs_of, h.symm.followsAs_of⟩

/-- A run of word characters ends in front of a bracket, so it is the same in both texts. -/
theorem SameOutside.exists_word {u v : Text} (h : SameOutside u v) : ∃ u' v',
    SameOutside u' v' ∧ u = u.takeWhile isWord ++ u' ∧ v = u.takeWhile isWord ++ v' ∧
      v.takeWhile isWord = u.takeWhile isWord := by
  induction h with
  | nil => exact ⟨[], [], .nil, rfl, rfl, rfl⟩
  | @plain c u v h ih =>
      by_cases hc : isWord c
      · obtain ⟨u', v', h', hu, hv, hword⟩ := ih
        rw [List.takeWhile_cons_of_pos hc, List.takeWhile_cons_of_pos hc]
        exact ⟨u', v', h', congrArg _ hu, congrArg _ hv, congrArg _ hword⟩
      · rw [List.takeWhile_cons_of_neg hc, List.takeWhile_cons_of_neg hc]
        exact ⟨_, _, h.plain c, rfl, rfl, rfl⟩
  | bracketed hw hw' hlength h ih => exact ⟨_, _, .bracketed hw hw' hlength h, rfl, rfl, rfl⟩

/-! ## Patterns -/

/-- A pattern finds nothing in a bracketed word, and what it finds elsewhere is the same in texts
that are the same outside such words. -/
structure Blind (pattern : CapturePattern) : Prop where
  bracket : ∀ b c u, c = '<' ∨ c = '>' → pattern b (c :: u) = none
  inside : ∀ b c w u, (∀ d ∈ c :: w, isWord d) → pattern b (c :: w ++ '>' :: u) = none
  outside : ∀ b b' c u v, SameBehind b b' → SameOutside u v →
    pattern b (c :: u) = none ∧ pattern b' (c :: v) = none ∨
      ∃ name w u' v', u = w ++ u' ∧ v = w ++ v' ∧ SameOutside u' v' ∧
        pattern b (c :: u) = some (name, w.length + 1) ∧
        pattern b' (c :: v) = some (name, w.length + 1)

theorem blind_variableUse : Blind variableUse where
  bracket b c u hc := by rcases hc with rfl | rfl <;> rfl
  inside b c w u hw := by
    have hsigil : isSigil c = false := by
      by_contra hsigil
      have hword := hw c List.mem_cons_self
      simp only [isSigil, Bool.not_eq_false, Bool.or_eq_true, beq_iff_eq] at hsigil
      rcases hsigil with rfl | rfl <;> exact absurd hword (by decide)
    simp [variableUse, hsigil]
  outside b b' c u v hb hu := by
    obtain ⟨u', v', h', hu, hv, hword⟩ := hu.exists_word
    simp only [variableUse, hword, hb.atWordStart_eq, hb.followsAs_eq]
    split
    · exact .inr ⟨_, u.takeWhile isWord, u', v', hu, hv, h', rfl, rfl⟩
    · exact .inl ⟨rfl, rfl⟩

theorem prefixUse_colon {b ahead cs : Text} (h : ahead.dropWhile isWord = ':' :: cs) :
    prefixUse b ahead =
      if atWordStart b && !(ahead.takeWhile isWord).isEmpty && !(cs.takeWhile isWord).isEmpty then
        some (ahead.takeWhile isWord,
          (ahead.takeWhile isWord).length + 1 + (cs.takeWhile isWord).length)
      else none := by
  unfold prefixUse
  dsimp only
  rw [h]
  rfl

theorem prefixUse_eq_none {b ahead : Text} (h : ∀ cs, ahead.dropWhile isWord ≠ ':' :: cs) :
    prefixUse b ahead = none := by
  unfold prefixUse
  dsimp only
  split
  · rename_i cs heq
    exact absurd heq (h cs)
  · rfl

theorem blind_prefixUse : Blind prefixUse where
  bracket b c u hc := by rcases hc with rfl | rfl <;> rfl
  inside b c w u hw := by
    apply prefixUse_eq_none
    intro cs
    rw [List.dropWhile_append_of_pos hw]
    exact fun heq ↦ absurd (List.cons.inj heq).1 (by decide)
  outside b b' c u v hb hu := by
    obtain ⟨u', v', h', hu', hv', hword⟩ := (hu.plain c).exists_word
    have hdrop : (c :: u).dropWhile isWord = u' :=
      List.append_cancel_left ((List.takeWhile_append_dropWhile).trans hu')
    have hdrop' : (c :: v).dropWhile isWord = v' := by
      rw [← hword] at hv'
      exact List.append_cancel_left ((List.takeWhile_append_dropWhile).trans hv')
    -- The name is followed by the same character in both texts, which has to be a colon.
    have hnone (hne : ∀ cs, u' ≠ ':' :: cs) (hne' : ∀ cs, v' ≠ ':' :: cs) :
        prefixUse b (c :: u) = none ∧ prefixUse b' (c :: v) = none :=
      ⟨prefixUse_eq_none (hdrop ▸ hne), prefixUse_eq_none (hdrop' ▸ hne')⟩
    cases h' with
    | nil => exact .inl (hnone (by simp) (by simp))
    | bracketed _ _ _ _ => exact .inl (hnone (by simp) (by simp))
    | @plain d u₁ v₁ h₁ =>
        by_cases hd : d = ':'
        · subst hd
          obtain ⟨u₂, v₂, h₂, hu₂, hv₂, hlocal⟩ := h₁.exists_word
          rw [prefixUse_colon hdrop, prefixUse_colon hdrop', hword, hlocal, hb.atWordStart_eq]
          split
          · rename_i hfound
            cases hname : (c :: u).takeWhile isWord with
            | nil => simp [hname] at hfound
            | cons c' w =>
                have hlength : (c' :: w).length + 1 + (u₁.takeWhile isWord).length =
                    (w ++ ':' :: u₁.takeWhile isWord).length + 1 := by
                  simp
                  omega
                have hrest {t t₁ t₂ : Text} (ht : c :: t = (c :: u).takeWhile isWord ++ ':' :: t₁)
                    (ht₁ : t₁ = u₁.takeWhile isWord ++ t₂) :
                    t = w ++ ':' :: u₁.takeWhile isWord ++ t₂ := by
                  rw [hname, List.cons_append] at ht
                  rw [(List.cons.inj ht).2, ht₁, List.append_assoc]
                  rfl
                rw [hlength]
                exact .inr ⟨_, _, u₂, v₂, hrest hu' hu₂, hrest hv' hv₂, h₂, rfl, rfl⟩
          · exact .inl ⟨rfl, rfl⟩
        · exact .inl (hnone (by simp [hd]) (by simp [hd]))

theorem assignmentTarget_eq_none {b ahead : Text}
    (h : ∀ a s c cs, ahead = a :: s :: ' ' :: c :: cs →
      ¬ (isFormOf 'a' a ∧ isFormOf 's' s ∧ isSigil c)) : assignmentTarget b ahead = none := by
  unfold assignmentTarget
  split
  · rename_i a s c cs
    rw [if_neg]
    simp only [Bool.and_eq_true]
    exact fun hfound ↦ h a s c cs rfl ⟨hfound.1.1.1.1, hfound.1.1.1.2, hfound.1.1.2⟩
  · rfl

theorem blind_assignmentTarget : Blind assignmentTarget where
  bracket b c u hc := by
    apply assignmentTarget_eq_none
    rintro a s d cs heq ⟨ha, -⟩
    obtain rfl := (List.cons.inj heq).1
    rcases hc with rfl | rfl <;> exact absurd ha (by decide)
  inside b c w u hw := by
    apply assignmentTarget_eq_none
    rintro a s d cs heq ⟨-, hs, -⟩
    rcases w with _ | ⟨e, _ | ⟨f, w⟩⟩
    · obtain ⟨-, rfl, -⟩ := by simpa using heq
      exact absurd hs (by decide)
    · simp at heq
    · obtain ⟨-, -, rfl, -⟩ := by simpa using heq
      exact absurd (hw ' ' (by simp)) (by decide)
  outside b b' a u v hb hu := by
    have hnone (hne : ∀ s c cs, u = s :: ' ' :: c :: cs → ¬ (isFormOf 's' s ∧ isSigil c))
        (hne' : ∀ s c cs, v = s :: ' ' :: c :: cs → ¬ (isFormOf 's' s ∧ isSigil c)) :
        assignmentTarget b (a :: u) = none ∧ assignmentTarget b' (a :: v) = none := by
      constructor
      · apply assignmentTarget_eq_none
        rintro _ s c cs heq ⟨-, hfound⟩
        exact hne s c cs (List.cons.inj heq).2 hfound
      · apply assignmentTarget_eq_none
        rintro _ s c cs heq ⟨-, hfound⟩
        exact hne' s c cs (List.cons.inj heq).2 hfound
    have hopen (t : Text) : ∀ s c cs, '<' :: t = s :: ' ' :: c :: cs →
        ¬ (isFormOf 's' s ∧ isSigil c) := by
      rintro s c cs heq ⟨hs, -⟩
      obtain rfl := (List.cons.inj heq).1
      exact absurd hs (by decide)
    have hsigil (s : Char) (t : Text) : ∀ s' c cs, s :: ' ' :: '<' :: t = s' :: ' ' :: c :: cs →
        ¬ (isFormOf 's' s' ∧ isSigil c) := by
      rintro s' c cs heq ⟨-, hc⟩
      obtain ⟨-, rfl, -⟩ := by simpa using heq
      exact absurd hc (by decide)
    -- None of the three characters that stand in front of the name is a bracket.
    cases hu with
    | nil => exact .inl (hnone (by simp) (by simp))
    | bracketed _ _ _ _ => exact .inl (hnone (hopen _) (hopen _))
    | @plain s u v hu =>
    cases hu with
    | nil => exact .inl (hnone (by simp) (by simp))
    | bracketed _ _ _ _ => exact .inl (hnone (by simp) (by simp))
    | @plain d u v hu =>
    by_cases hd : d = ' '
    swap
    · exact .inl (hnone (by simp [hd]) (by simp [hd]))
    subst hd
    cases hu with
    | nil => exact .inl (hnone (by simp) (by simp))
    | bracketed _ _ _ _ => exact .inl (hnone (hsigil s _) (hsigil s _))
    | @plain c u v hu =>
    obtain ⟨u', v', h', hu, hv, hword⟩ := hu.exists_word
    simp only [assignmentTarget, hword, hb.atWordStart_eq]
    split
    · refine .inr ⟨_, s :: ' ' :: c :: u.takeWhile isWord, u', v', ?_, ?_, h', rfl, rfl⟩
      · rw [List.cons_append, List.cons_append, List.cons_append, ← hu]
      · rw [List.cons_append, List.cons_append, List.cons_append, ← hv]
    · exact .inl ⟨rfl, rfl⟩

/-! ## Scanning -/

theorem scan_covered (pattern : CapturePattern) (w b u : Text) :
    scan pattern w.length b (w ++ u) = scan pattern 0 (w.reverse ++ b) u := by
  induction w generalizing b with
  | nil => rfl
  | cons c w ih =>
      rw [List.length_cons, List.cons_append, scan, ih, List.reverse_cons, List.append_assoc]
      rfl

namespace Blind

variable {pattern : CapturePattern}

theorem scan_bracket (h : Blind pattern) {c : Char} (hc : c = '<' ∨ c = '>') (b u : Text) :
    scan pattern 0 b (c :: u) = scan pattern 0 (c :: b) u := by
  rw [scan, h.bracket b c u hc]
  exact ite_self _

/-- The scan passes over a bracketed word. -/
theorem scan_bracketed (h : Blind pattern) {w : Text} (hw : ∀ c ∈ w, isWord c) (b u : Text) :
    scan pattern 0 b ('<' :: w ++ '>' :: u) =
      scan pattern 0 ('>' :: w.reverse ++ '<' :: b) u := by
  have hword (b : Text) : scan pattern 0 b (w ++ '>' :: u) =
      scan pattern 0 (w.reverse ++ b) ('>' :: u) := by
    induction w generalizing b with
    | nil => rfl
    | cons c w ih =>
        have hstep : scan pattern 0 b (c :: (w ++ '>' :: u)) =
            scan pattern 0 (c :: b) (w ++ '>' :: u) := by
          rw [scan, ← List.cons_append, h.inside b c w u hw]
          exact ite_self _
        rw [List.cons_append, hstep, ih fun d hd ↦ hw d (List.mem_cons_of_mem c hd),
          List.reverse_cons, List.append_assoc]
        rfl
  rw [List.cons_append, h.scan_bracket (.inl rfl), hword, h.scan_bracket (.inr rfl)]
  rfl

/-- What stands in bracketed words, ahead or behind, plays no part in a scan. -/
theorem scan_eq (h : Blind pattern) {u v b b' : Text} (hb : SameBehind b b')
    (hu : SameOutside u v) : scan pattern 0 b u = scan pattern 0 b' v := by
  induction hn : u.length using Nat.strongRecOn generalizing u v b b' with
  | ind n ih =>
  cases hu with
  | nil => rfl
  | @plain c u v hu =>
      have hshort : u.length < n := by
        rw [← hn]
        exact Nat.lt_succ_self _
      rw [scan, scan, ih _ hshort (hb.cons c) hu rfl]
      split
      · rfl
      · rcases h.outside b b' c u v hb hu with ⟨hnone, hnone'⟩ |
          ⟨name, w, u', v', rfl, rfl, h', hfound, hfound'⟩
        · rw [hnone, hnone']
        · have hshort' : u'.length < n := by
            rw [List.length_append] at hshort
            omega
          rw [hfound, hfound']
          dsimp only
          rw [Nat.add_sub_cancel, scan_covered, scan_covered,
            ih _ hshort' ((hb.cons c).append w.reverse) h' rfl]
  | @bracketed w w' u v hw hw' hlength hu =>
      have hshort : u.length < n := by
        rw [← hn]
        simp
        omega
      rw [h.scan_bracketed hw, h.scan_bracketed hw']
      exact ih _ hshort (.closed [] _ _) hu rfl

end Blind

/-! ## Escaped texts -/

theorem expandTabsFrom_append {w : Text} (hw : ∀ c ∈ w, c ∉ ['\t', '\n', '\r']) (column : Nat)
    (u : Text) : expandTabsFrom column (w ++ u) = w ++ expandTabsFrom (column + w.length) u := by
  induction w generalizing column with
  | nil => rfl
  | cons c w ih =>
      obtain ⟨htab, hbreak⟩ := List.ne_and_not_mem_of_not_mem_cons (hw c List.mem_cons_self)
      rw [List.cons_append, expandTabsFrom, if_neg htab, if_neg (by simpa using hbreak),
        ih fun d hd ↦ hw d (List.mem_cons_of_mem c hd), List.length_cons, Nat.add_right_comm,
        Nat.add_assoc]
      rfl

theorem expandTabsFrom_bracketed {w : Text} (hw : ∀ c ∈ w, isWord c) (column : Nat) (u : Text) :
    expandTabsFrom column ('<' :: w ++ '>' :: u) =
      '<' :: w ++ '>' :: expandTabsFrom (column + (w.length + 2)) u := by
  have hplain : ∀ c ∈ '<' :: w ++ ['>'], c ∉ ['\t', '\n', '\r'] := by
    intro c hc hmem
    have hnot : ∀ d ∈ ['\t', '\n', '\r'], ¬ isWord d ∧ d ≠ '<' ∧ d ≠ '>' :=
      List.all_iff_forall_prop.mp (by decide)
    obtain ⟨hword, hopen, hclose⟩ := hnot c hmem
    simp only [List.cons_append, List.mem_cons, List.mem_append, List.not_mem_nil, or_false] at hc
    rcases hc with rfl | hc | rfl
    · exact hopen rfl
    · exact hword (hw c hc)
    · exact hclose rfl
  have happend := expandTabsFrom_append hplain column u
  simpa using happend

/-- Bracketed words of the same length leave the tab stops behind them in the same places. -/
theorem SameOutside.expandTabsFrom {u v : Text} (h : SameOutside u v) (column : Nat) :
    SameOutside (expandTabsFrom column u) (expandTabsFrom column v) := by
  induction h generalizing column with
  | nil => exact .nil
  | @plain c u v h ih =>
      have hspaces (n : Nat) {u v : Text} (h : SameOutside u v) :
          SameOutside (List.replicate n ' ' ++ u) (List.replicate n ' ' ++ v) := by
        induction n with
        | zero => exact h
        | succ n ih => exact ih.plain ' '
      rw [SparqlComposer.expandTabsFrom, SparqlComposer.expandTabsFrom]
      split
      · exact hspaces _ (ih _)
      · split
        · exact (ih 0).plain c
        · exact (ih _).plain c
  | bracketed hw hw' hlength h ih =>
      rw [expandTabsFrom_bracketed hw, expandTabsFrom_bracketed hw', hlength]
      exact .bracketed hw hw' hlength (ih _)

namespace Segment

/-- What is left of a segment when spans are taken out: its character, or the place of a span. -/
def residue : Segment → Option Char
  | plain c => some c
  | span _ => none

end Segment

theorem sameOutside_hidden {ss ss' : List Segment}
    (h : ss.map Segment.residue = ss'.map Segment.residue) :
    SameOutside (ss.flatMap Segment.hidden) (ss'.flatMap Segment.hidden) := by
  induction ss generalizing ss' with
  | nil =>
      obtain rfl := List.map_eq_nil_iff.mp h.symm
      exact .nil
  | cons a ss ih =>
      obtain ⟨a', ss', rfl, ha, hss⟩ := List.map_eq_cons_iff.mp h.symm
      have hrest := ih hss.symm
      rw [List.flatMap_cons, List.flatMap_cons]
      cases a with
      | plain c =>
          cases a' with
          | plain c' =>
              obtain rfl : c' = c := Option.some.inj ha
              exact hrest.plain c'
          | span s' => exact nomatch ha
      | span s =>
          cases a' with
          | plain c' => exact nomatch ha
          | span s' =>
              have hlength : (Md5.ofText s.text).length = (Md5.ofText s'.text).length := by
                rw [Md5.ofText, Md5.ofText, Md5.length_hexDigest, Md5.length_hexDigest]
              have hword (s : Span) : ∀ c ∈ Md5.ofText s.text, isWord c :=
                fun c ↦ Md5.isWord_of_mem_ofText
              have h := hrest.bracketed (hword s) (hword s') hlength
              simpa [Segment.hidden, Span.key] using h

theorem Blind.captures_eq {pattern : CapturePattern} (h : Blind pattern) {t u : Text}
    (hresidue : (segments t).map Segment.residue = (segments u).map Segment.residue) :
    captures pattern t = captures pattern u := by
  have hsame := (sameOutside_hidden hresidue).expandTabsFrom 0
  exact congrArg OrderedSet.ofList (h.scan_eq (.refl []) hsame)

/-- What spans hold is never looked at: two texts that are cut into the same characters and spans in
the same places mention the same variables, assignments and prefixes. -/
theorem names_of_residue {t u : Text}
    (h : (segments t).map Segment.residue = (segments u).map Segment.residue) :
    (variablesOf t).toList = (variablesOf u).toList ∧
      (assignmentsOf t).toList = (assignmentsOf u).toList ∧
      (prefixesOf t).toList = (prefixesOf u).toList := by
  refine ⟨?_, ?_, ?_⟩
  · exact congrArg _ (blind_variableUse.captures_eq h)
  · exact congrArg _ (blind_assignmentTarget.captures_eq h)
  · exact congrArg _ (blind_prefixUse.captures_eq h)

/-- A string with names in it and an IRI leave the names around them as they are, also the target
behind a tab, which is one space wide because keys are as long as they are. -/
theorem names_beside_spans : ∃ t u : Text, t ≠ u ∧
    (segments t).map Segment.residue = (segments u).map Segment.residue ∧
    (variablesOf t).toList = ["x".toList, "b".toList] ∧
    (variablesOf t).toList = (variablesOf u).toList ∧
    (assignmentsOf t).toList = ["c".toList] ∧
    (assignmentsOf t).toList = (assignmentsOf u).toList ∧
    (prefixesOf t).toList = ["ex".toList] ∧ (prefixesOf t).toList = (prefixesOf u).toList := by
  let t : Text := "ex:f(\"?y AS ?z\",?x)\n<a>?b AS\t?c".toList
  let u : Text := "ex:f(\"\",?x)\n<p:q?y>?b AS\t?c".toList
  have hresidue : (segments t).map Segment.residue = (segments u).map Segment.residue := by
    decide +kernel
  obtain ⟨hvariables, hassignments, hprefixes⟩ := names_of_residue hresidue
  exact ⟨t, u, by decide +kernel, hresidue, by decide +kernel, hvariables, by decide +kernel,
    hassignments, by decide +kernel, hprefixes⟩

end SparqlComposer
