import Mathlib.Data.Bool.AllAny
import SparqlComposer.Proofs.Expression.Classify
import SparqlComposer.Proofs.Text.String
import SparqlComposer.Proofs.Text.Word

/-!
# Words of a written pattern

A pattern is written as words with one space between neighbours. A literal may hold spaces of its
own, so a word is cut off where its string is closed: a string opens where a word starts with a
quotation mark, and is closed by the next one that no backslash precedes. Every term of a triple
is a whole word in this sense.
-/

namespace SparqlComposer.Reading

/-- What has been read of a word. -/
inductive Mode where
  | start
  | plain
  | string
  /-- A backslash in a string. -/
  | escape

namespace Mode

def next : Mode → Char → Mode
  | start, c => if c = '"' then string else plain
  | plain, _ => plain
  | string, c => if c = '"' then plain else if c = '\\' then escape else string
  | escape, _ => string

def isQuoted : Mode → Bool
  | start | plain => false
  | string | escape => true

end Mode

/-- The words of a text, when the first of them has been read up to the given mode. -/
def cutFrom : Mode → Text → List Text
  | _, [] => [[]]
  | m, c :: cs =>
      if c = ' ' ∧ ¬ m.isQuoted then [] :: cutFrom .start cs
      else (cutFrom (m.next c) cs).modifyHead (c :: ·)

def cut (t : Text) : List Text := cutFrom .start t

/-- Whether no space cuts the text, and a space behind it does. -/
def isWhole : Mode → Text → Bool
  | m, [] => !m.isQuoted
  | m, c :: cs => (m.isQuoted || c != ' ') && isWhole (m.next c) cs

/-! ## Cutting at spaces -/

theorem isWhole_cons {m : Mode} {c : Char} {w : Text} :
    isWhole m (c :: w) ↔ ¬ (c = ' ' ∧ ¬ m.isQuoted) ∧ isWhole (m.next c) w := by
  simp only [isWhole, Bool.and_eq_true, Bool.or_eq_true, bne_iff_ne]
  cases m.isQuoted <;> simp

theorem cutFrom_whole {m : Mode} {w : Text} (h : isWhole m w) : cutFrom m w = [w] := by
  induction w generalizing m with
  | nil => rfl
  | cons c w ih =>
      obtain ⟨hc, hw⟩ := isWhole_cons.mp h
      rw [cutFrom, if_neg hc, ih hw]
      rfl

theorem cutFrom_append {m : Mode} {w : Text} (h : isWhole m w) (rest : Text) :
    cutFrom m (w ++ ' ' :: rest) = w :: cut rest := by
  induction w generalizing m with
  | nil =>
      have hm : ¬ m.isQuoted := by simpa [isWhole] using h
      rw [List.nil_append, cutFrom, if_pos ⟨rfl, hm⟩]
      rfl
  | cons c w ih =>
      obtain ⟨hc, hw⟩ := isWhole_cons.mp h
      rw [List.cons_append, cutFrom, if_neg hc, ih hw]
      rfl

theorem cut_spaced {ws : List Text} (hne : ws ≠ []) (h : ∀ w ∈ ws, isWhole .start w) :
    cut (spaced ws) = ws := by
  induction ws with
  | nil => exact absurd rfl hne
  | cons w ws ih =>
      have hw := h w List.mem_cons_self
      cases ws with
      | nil => exact cutFrom_whole hw
      | cons w' ws =>
          have hrest := ih (List.cons_ne_nil w' ws) fun v hv ↦ h v (List.mem_cons_of_mem w hv)
          have htext : spaced (w :: w' :: ws) = w ++ ' ' :: spaced (w' :: ws) := by
            simp [spaced, joinWith_cons_cons]
          rw [htext, cut, cutFrom_append hw, hrest]

/-! ## Characters that a token does not hold -/

section NotMem

variable {c : Char} {t rest : Text}

theorem not_mem_of_afterChar? {d : Char} (h : afterChar? d t = some rest) (hd : c ≠ d)
    (hrest : c ∉ rest) : c ∉ t := by
  cases t with
  | nil => simp [afterChar?] at h
  | cons e t =>
      by_cases he : e = d
      · simp only [afterChar?, he, if_true, Option.some.injEq] at h
        subst h
        simp [he, hd, hrest]
      · simp [afterChar?, he] at h

theorem not_mem_of_afterRun? {inClass : Char → Bool} (h : afterRun? inClass t = some rest)
    (hc : inClass c = false) (hrest : c ∉ rest) : c ∉ t := by
  cases t with
  | nil => simp [afterRun?] at h
  | cons d t =>
      by_cases hd : inClass d
      · simp only [afterRun?, hd, if_true, Option.some.injEq] at h
        subst h
        have hne : c ≠ d := by
          rintro rfl
          exact Bool.false_ne_true (hc.symm.trans hd)
        have htake : c ∉ t.takeWhile inClass := fun hmem ↦
          Bool.false_ne_true (hc.symm.trans (List.all_eq_true.mp List.all_takeWhile c hmem))
        refine List.not_mem_cons_of_ne_of_not_mem hne ?_
        rw [← List.takeWhile_append_dropWhile (p := inClass) (l := t), List.mem_append]
        exact not_or.mpr ⟨htake, hrest⟩
      · simp [afterRun?, hd] at h

theorem not_mem_of_afterPrefixedIri? (h : afterPrefixedIri? t = some rest)
    (hword : isWord c = false) (hiri : isIriChar c = false) (hmark : c ∉ [':', '<', '>'])
    (hrest : c ∉ rest) : c ∉ t := by
  simp only [List.mem_cons, List.not_mem_nil, or_false, not_or] at hmark
  obtain ⟨hcolon, hopen, hclose⟩ := hmark
  rcases Option.or_eq_some_iff.mp h with h | ⟨-, h⟩
  · simp only [afterPrefixedName?, afterPrefix?, afterWord?, bind, Option.bind_eq_some_iff] at h
    obtain ⟨u, ⟨v, hv, hu⟩, h⟩ := h
    have hmem := not_mem_of_afterRun? h hword hrest
    exact not_mem_of_afterRun? hv hword (not_mem_of_afterChar? hu hcolon hmem)
  · simp only [afterBracketedIri?, afterIri?, bind, Option.bind_eq_some_iff] at h
    obtain ⟨u, hu, v, hv, h⟩ := h
    have hmem := not_mem_of_afterChar? h hclose hrest
    exact not_mem_of_afterChar? hu hopen (not_mem_of_afterRun? hv hiri hmem)

theorem not_mem_of_areSubtags (h : areSubtags t) (hc : c.isAlphanum = false) (hhyphen : c ≠ '-') :
    c ∉ t := by
  have hboth : ∀ u : Text, (areSubtags.fromSubtag u → c ∉ u) ∧ (areSubtags.inSubtag u → c ∉ u) := by
    intro u
    induction u with
    | nil => exact ⟨fun _ ↦ List.not_mem_nil, fun _ ↦ List.not_mem_nil⟩
    | cons d u ih =>
        have hne (hd : d.isAlphanum) : c ≠ d := by
          rintro rfl
          exact Bool.false_ne_true (hc.symm.trans hd)
        constructor
        · intro hd
          simp only [areSubtags.fromSubtag, Bool.and_eq_true] at hd
          exact List.not_mem_cons_of_ne_of_not_mem (hne hd.1) (ih.2 hd.2)
        · intro hd
          rw [areSubtags.inSubtag] at hd
          split at hd
          · rename_i halnum
            exact List.not_mem_cons_of_ne_of_not_mem (hne halnum) (ih.2 hd)
          · simp only [Bool.and_eq_true, beq_iff_eq] at hd
            obtain ⟨rfl, hd⟩ := hd
            exact List.not_mem_cons_of_ne_of_not_mem hhyphen (ih.1 hd)
  cases t with
  | nil => exact List.not_mem_nil
  | cons d t =>
      simp only [areSubtags, Bool.and_eq_true, beq_iff_eq] at h
      obtain ⟨rfl, h⟩ := h
      exact List.not_mem_cons_of_ne_of_not_mem hhyphen ((hboth t).1 h)

theorem not_mem_of_isLanguageTag (h : isLanguageTag t) (hc : c.isAlphanum = false)
    (hmark : c ∉ ['@', '-']) : c ∉ t := by
  simp only [List.mem_cons, List.not_mem_nil, or_false, not_or] at hmark
  simp only [isLanguageTag, Option.any_eq_true, Option.bind_eq_some_iff] at h
  obtain ⟨u, ⟨v, hv, hu⟩, hsub⟩ := h
  have halpha : c.isAlpha = false := by
    rw [Char.isAlphanum, Bool.or_eq_false_iff] at hc
    exact hc.1
  have hmem := not_mem_of_afterRun? hu halpha (not_mem_of_areSubtags hsub hc hmark.2)
  exact not_mem_of_afterChar? hv hmark.1 hmem

theorem not_mem_of_isDatatypeTag (h : isDatatypeTag t) (hword : isWord c = false)
    (hiri : isIriChar c = false) (hmark : c ∉ ['^', ':', '<', '>']) : c ∉ t := by
  simp only [isDatatypeTag, beq_iff_eq, Option.bind_eq_some_iff] at h
  obtain ⟨u, ⟨v, hv, hu⟩, h⟩ := h
  obtain ⟨hcaret, hmark⟩ := List.ne_and_not_mem_of_not_mem_cons hmark
  have hmem := not_mem_of_afterPrefixedIri? h hword hiri hmark List.not_mem_nil
  exact not_mem_of_afterChar? hv hcaret (not_mem_of_afterChar? hu hcaret hmem)

/-- The tag behind a string holds no blanks. -/
theorem not_mem_of_isTag (h : t.isEmpty || isLanguageTag t || isDatatypeTag t)
    (hc : isBlank c) : c ∉ t := by
  have hword : isWord c = false := isWord_of_isBlank hc
  have hmarks : ∀ d ∈ ['@', '-', '^', ':', '<', '>'], ¬ isBlank d :=
    List.all_iff_forall_prop.mp (by decide)
  have hmark {marks : List Char} (hsub : ∀ d ∈ marks, d ∈ ['@', '-', '^', ':', '<', '>']) :
      c ∉ marks := fun hmem ↦ hmarks c (hsub c hmem) hc
  simp only [Bool.or_eq_true] at h
  rcases h with (hnone | hlanguage) | hdatatype
  · rw [List.isEmpty_iff.mp hnone]
    exact List.not_mem_nil
  · have halnum : c.isAlphanum = false := by
      rw [Bool.eq_false_iff]
      exact fun halnum ↦ Bool.false_ne_true (hword.symm.trans (isWord_of_isAlphanum halnum))
    exact not_mem_of_isLanguageTag hlanguage halnum (hmark (by simp))
  · have hiri : isIriChar c = false := by rw [isIriChar, hc, Bool.not_true, Bool.false_and]
    exact not_mem_of_isDatatypeTag hdatatype hword hiri (hmark (by simp))

end NotMem

/-! ## Terms are whole words -/

theorem isWhole_plain {w : Text} (h : ' ' ∉ w) : isWhole .plain w := by
  induction w with
  | nil => rfl
  | cons c w ih =>
      obtain ⟨hc, hw⟩ := List.ne_and_not_mem_of_not_mem_cons h
      exact isWhole_cons.mpr ⟨fun hsp ↦ hc hsp.1.symm, ih hw⟩

theorem isWhole_token {w : Text} (h : ' ' ∉ w) (hquote : w.head? ≠ some '"') :
    isWhole .start w := by
  cases w with
  | nil => rfl
  | cons c w =>
      obtain ⟨hc, hw⟩ := List.ne_and_not_mem_of_not_mem_cons h
      have hnext : Mode.start.next c = .plain := if_neg fun heq ↦ hquote (congrArg some heq)
      refine isWhole_cons.mpr ⟨fun hsp ↦ hc hsp.1.symm, ?_⟩
      rw [hnext]
      exact isWhole_plain hw

theorem isWhole_of_afterStringBody? {t rest : Text} (hrest : ' ' ∉ rest)
    (h : afterStringBody? t = some rest) : isWhole .string t := by
  fun_induction afterStringBody? t with
  | case1 => cases h
  | case2 rest' =>
      obtain rfl := Option.some.inj h
      exact isWhole_plain hrest
  | case3 => cases h
  | case4 => cases h
  | case5 c cs _ ih => exact ih h
  | case6 c cs hquote hlast hescape ih =>
      have hbackslash := ne_backslash hlast hescape
      have hnext : Mode.string.next c = .string := by
        rw [Mode.next, if_neg hquote, if_neg hbackslash]
      refine isWhole_cons.mpr ⟨fun hsp ↦ hsp.2 rfl, ?_⟩
      rw [hnext]
      exact ih h

theorem isWhole_of_afterString? {t tag : Text} (h : afterString? t = some tag)
    (htag : ' ' ∉ tag) : isWhole .start t := by
  obtain ⟨body, rfl, hbody⟩ := afterString?_eq_some_iff.mp h
  exact isWhole_of_afterStringBody? htag hbody

/-- With its tabs as they are written, a literal is an integer or a string with its tag too. -/
theorem cases_of_isNative {t : Text} (h : isNative (expandTabs t)) : isInteger t ∨
    ∃ tag, afterString? t = some tag ∧ (tag.isEmpty || isLanguageTag tag || isDatatypeTag tag) := by
  rw [isNative, Bool.or_eq_true] at h
  rcases h with hinteger | hstring
  · have hread := beq_iff_eq.mp hinteger
    have hspace := not_mem_of_afterRun? hread (c := ' ') (by decide) List.not_mem_nil
    rw [expandTabs, expandTabsFrom_eq_of_not_mem hspace] at hinteger
    exact .inl hinteger
  · obtain ⟨tag, htag, hform⟩ := (Option.any_eq_true _ _).mp hstring
    exact .inr ⟨tag, afterString?_of_expandTabs htag (not_mem_of_isTag hform (by decide)), hform⟩

theorem isWhole_of_isNative {t : Text} (h : isNative (expandTabs t)) : isWhole .start t := by
  rcases cases_of_isNative h with hinteger | ⟨tag, htag, hform⟩
  · rw [isInteger, beq_iff_eq] at hinteger
    refine isWhole_token (not_mem_of_afterRun? hinteger (by decide) List.not_mem_nil) fun hhead ↦ ?_
    obtain ⟨u, rfl⟩ := List.head?_eq_some_iff.mp hhead
    have hquote := not_mem_of_afterRun? hinteger (c := '"') (by decide) List.not_mem_nil
    exact hquote List.mem_cons_self
  · exact isWhole_of_afterString? htag (not_mem_of_isTag hform (by decide))

theorem not_isPath_quote (t : Text) : ¬ isPath ('"' :: t) := by
  have hprimary : afterPathPrimary? (dropPathMarks ('"' :: t)) = none := by
    change afterPathPrimary? ('"' :: t) = none
    rw [afterPathPrimary?]
    split
    · rename_i hiri
      cases hiri
    · rfl
  simp [isPath, afterPath?, afterPathElement?, hprimary]

theorem hasForm_quote_ne {k : Kind} (hk : k ∈ [Kind.var, .prefixedIri, .path]) (t : Text) :
    k.hasForm ('"' :: t) ≠ .ok true := by
  intro h
  cases k with
  | var => exact nomatch h
  | prefixedIri => exact nomatch h
  | path => exact not_isPath_quote t (Except.ok.inj h)
  | _ => simp at hk

theorem isWhole_of_admits_token {k : Kind} {t : Text}
    (hk : k ∈ [Kind.var, .prefixedIri, .path]) (h : k.admits t = .ok true) :
    isWhole .start t := by
  have htoken : ∀ k ∈ [Kind.var, .prefixedIri, .path], k.isToken := by decide
  have hspace : ' ' ∉ t := fun hmem ↦ (Kind.of_admits h).2 (htoken k hk) ' ' hmem (by decide)
  refine isWhole_token hspace fun hhead ↦ ?_
  obtain ⟨u, rfl⟩ := List.head?_eq_some_iff.mp hhead
  exact hasForm_quote_ne hk u (Kind.hasForm_of_admits (htoken k hk) h)

/-- Every term that a triple can hold is one word. -/
theorem isWhole_of_admits {k : Kind} {t : Text}
    (hk : k ∈ [Kind.native, .var, .prefixedIri, .path]) (h : k.admits t = .ok true) :
    isWhole .start t := by
  rcases List.mem_cons.mp hk with rfl | hk
  · exact isWhole_of_isNative (Except.ok.inj (Kind.of_admits h).1)
  · exact isWhole_of_admits_token hk h

end SparqlComposer.Reading
