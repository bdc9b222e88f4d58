import Mathlib.Data.List.Range
import SparqlComposer.Proofs.Capture.Scan
import SparqlComposer.Proofs.OrderedSet
import SparqlComposer.Proofs.Text.Caseless

/-!
# References by position

A scan for variables passes over blanks, goes on behind what it has captured, and looks back at what
it has passed. None of this shows in what it finds: a name is captured at a position when a mark
stands there at the start of a word, no keyword is directly in front of it, and a word follows. So
the references of a text can be read off position by position, each one by itself.
-/

namespace SparqlComposer

/-! ## Positions of references -/

/-- A word may start at the position: it is the start of the text, or the character in front of it
is no word character. -/
def StartsWord (u : Text) (i : Nat) : Prop := ∀ c ∈ (u.take i).getLast?, ¬ isWord c

/-- The word `AS`, in any case, and one space stand directly in front of the position. The long s
counts as an `S`. -/
def FollowsKeyword (u : Text) (i : Nat) : Prop :=
  ∃ a ∈ ['A', 'a'], ∃ s ∈ ['S', 's', '\u017f'], [a, s, ' '] <:+ u.take i ∧ StartsWord u (i - 3)

/-- The longest run of word characters behind the character at the position. -/
def wordBehind (u : Text) (i : Nat) : Text := (u.drop (i + 1)).takeWhile isWord

/-- The mark of a variable that is not assigned stands at the position, and its name follows. -/
structure IsReference (u : Text) (i : Nat) : Prop where
  mark : u[i]? = some '?' ∨ u[i]? = some '$'
  start : StartsWord u i
  unassigned : ¬ FollowsKeyword u i
  name : wordBehind u i ≠ []

instance (u : Text) (i : Nat) : Decidable (StartsWord u i) :=
  decidable_of_iff ((u.take i).getLast?.all fun c ↦ !isWord c)
    (by simp [StartsWord, Option.all_eq_true])

instance (u : Text) (i : Nat) : Decidable (FollowsKeyword u i) :=
  decidable_of_iff (['A', 'a'].any fun a ↦ ['S', 's', '\u017f'].any fun s ↦
      decide ([a, s, ' '] <:+ u.take i ∧ StartsWord u (i - 3)))
    (by simp only [FollowsKeyword, List.any_eq_true, decide_eq_true_eq])

instance (u : Text) (i : Nat) : Decidable (IsReference u i) :=
  decidable_of_iff ((u[i]? = some '?' ∨ u[i]? = some '$') ∧ StartsWord u i ∧
      ¬ FollowsKeyword u i ∧ wordBehind u i ≠ [])
    ⟨fun ⟨hmark, hstart, has, hname⟩ ↦ ⟨hmark, hstart, has, hname⟩,
      fun h ↦ ⟨h.mark, h.start, h.unassigned, h.name⟩⟩

/-- The names at the positions of the references, from the left. -/
def references (u : Text) : List Text :=
  ((List.range u.length).filter (IsReference u)).map (wordBehind u)

/-! ## The text around a position -/

section Position

variable {before v : Text}

theorem startsWord_iff : StartsWord (before.reverse ++ v) before.length ↔ atWordStart before := by
  rw [StartsWord, List.take_left' (List.length_reverse), List.getLast?_reverse, atWordStart,
    Option.all_eq_true]
  simp

theorem followsKeyword_iff :
    FollowsKeyword (before.reverse ++ v) before.length ↔ followsAs before := by
  rw [followsAs_iff, FollowsKeyword, List.take_left' (List.length_reverse)]
  constructor
  · rintro ⟨a, ha, s, hs, ⟨w, hw⟩, hstart⟩
    obtain rfl : before = ' ' :: s :: a :: w.reverse := by
      rw [← List.reverse_reverse before, ← hw]
      simp
    refine ⟨s, a, w.reverse, rfl, isFormOf_s_iff.mpr hs, isFormOf_a_iff.mpr ha, ?_⟩
    have hbehind : (' ' :: s :: a :: w.reverse).reverse ++ v =
        w.reverse.reverse ++ a :: s :: ' ' :: v := by
      simp
    rw [hbehind] at hstart
    exact startsWord_iff.mp hstart
  · rintro ⟨s, a, b, rfl, hs, ha, hstart⟩
    have hbehind : (' ' :: s :: a :: b).reverse ++ v = b.reverse ++ a :: s :: ' ' :: v := by simp
    refine ⟨a, isFormOf_a_iff.mp ha, s, isFormOf_s_iff.mp hs, ⟨b.reverse, by simp⟩, ?_⟩
    rw [hbehind]
    exact startsWord_iff.mpr hstart

theorem wordBehind_eq (before v : Text) :
    wordBehind (before.reverse ++ v) before.length = v.tail.takeWhile isWord := by
  rw [wordBehind, ← List.drop_drop, List.drop_left' List.length_reverse, List.drop_one]

/-- A position is judged by what the scan sees there: what stands before, backwards, and ahead. -/
theorem isReference_iff : IsReference (before.reverse ++ v) before.length ↔
    ∃ c cs, v = c :: cs ∧ isSigil c ∧ atWordStart before ∧ ¬ followsAs before ∧
      cs.takeWhile isWord ≠ [] := by
  have hhere : (before.reverse ++ v)[before.length]? = v.head? := by
    rw [List.getElem?_append_right (by simp)]
    simp [List.head?_eq_getElem?]
  constructor
  · rintro ⟨hmark, hstart, has, hname⟩
    rw [hhere] at hmark
    rw [wordBehind_eq] at hname
    cases v with
    | nil => simp at hmark
    | cons c cs =>
        exact ⟨c, cs, rfl, by simpa [isSigil] using hmark, startsWord_iff.mp hstart,
          fun h ↦ has (followsKeyword_iff.mpr h), hname⟩
  · rintro ⟨c, cs, rfl, hc, hstart, has, hname⟩
    refine ⟨?_, startsWord_iff.mpr hstart, fun h ↦ has (followsKeyword_iff.mp h), ?_⟩
    · rw [hhere]
      simpa [isSigil] using hc
    · rw [wordBehind_eq]
      exact hname

theorem foundAt_of_isReference (h : IsReference (before.reverse ++ v) before.length) :
    foundAt variableUse before v = some (wordBehind (before.reverse ++ v) before.length,
      (wordBehind (before.reverse ++ v) before.length).length + 1) := by
  obtain ⟨c, cs, rfl, hc, hstart, has, hname⟩ := isReference_iff.mp h
  have hgap : ¬ isGap c := by rcases cases_of_isSigil hc with rfl | rfl <;> decide
  rw [foundAt, if_neg hgap, wordBehind_eq, List.tail_cons]
  simp [variableUse, hc, hstart, has, hname]

theorem foundAt_of_not_isReference (h : ¬ IsReference (before.reverse ++ v) before.length) :
    foundAt variableUse before v = none := by
  rw [Option.eq_none_iff_forall_ne_some]
  rintro ⟨name, n⟩ hfound
  obtain ⟨c, cs, rfl, hc, rfl, -, hstart, has, hname⟩ :=
    exists_of_variableUse (pattern_of_foundAt hfound)
  exact h (isReference_iff.mpr ⟨c, cs, rfl, hc, hstart, has, hname⟩)

theorem not_isReference_of_isWord {c : Char} (hc : isWord c) :
    ¬ IsReference (before.reverse ++ c :: v) before.length := by
  intro h
  obtain ⟨d, cs, heq, hd, -⟩ := isReference_iff.mp h
  obtain rfl := (List.cons.inj heq).1
  exact not_isSigil_of_isWord hc hd

end Position

/-! ## The scan -/

/-- From a place on, a scan finds the references that stand there, each at its own position. What an
earlier capture still covers is part of a word, so no reference is missed there. -/
theorem scan_variableUse_eq {before v : Text} {skip : Nat} (h : ∀ c ∈ v.take skip, isWord c) :
    scan variableUse skip before v =
      ((List.range' before.length v.length).filter (IsReference (before.reverse ++ v))).map
        (wordBehind (before.reverse ++ v)) := by
  induction v generalizing skip before with
  | nil => rfl
  | cons c v ih =>
      have hrest {skip : Nat} (h : ∀ d ∈ v.take skip, isWord d) :
          scan variableUse skip (c :: before) v =
            ((List.range' (before.length + 1) v.length).filter
              (IsReference (before.reverse ++ c :: v))).map
              (wordBehind (before.reverse ++ c :: v)) := by
        have hplace : (c :: before).reverse ++ v = before.reverse ++ c :: v := by simp
        rw [← hplace]
        exact ih h
      rw [List.length_cons, List.range'_succ, List.filter_cons]
      cases skip with
      | succ skip =>
          have hc : isWord c := h c List.mem_cons_self
          rw [if_neg (by simpa using not_isReference_of_isWord hc)]
          exact hrest fun d hd ↦ h d (List.mem_cons_of_mem c hd)
      | zero =>
          rw [scan_free_cons, coveredNext]
          by_cases href : IsReference (before.reverse ++ c :: v) before.length
          · -- The scan goes on behind the name, which is the word behind the mark.
            rw [foundAt_of_isReference href, if_pos (decide_eq_true href)]
            refine congrArg (wordBehind _ _ :: ·) (hrest fun d hd ↦ ?_)
            rw [Option.elim_some, wordBehind_eq, List.tail_cons, Nat.add_sub_cancel,
              ← List.prefix_iff_eq_take.mp (List.takeWhile_prefix isWord)] at hd
            exact List.all_eq_true.mp List.all_takeWhile d hd
          · rw [foundAt_of_not_isReference href, if_neg (by simpa using href)]
            exact hrest (by simp)

/-- The variables that a text uses are its references, read off the text with its spans hidden and
its tabs expanded, each name once where it came up first. -/
theorem toList_variablesOf (t : Text) :
    scan variableUse 0 [] (expandTabs (escaped t)) = references (expandTabs (escaped t)) ∧
      (variablesOf t).toList = (references (expandTabs (escaped t))).eraseDups := by
  have hscan (u : Text) : scan variableUse 0 [] u = references u := by
    rw [scan_variableUse_eq (by simp), references, List.range_eq_range']
    rfl
  exact ⟨hscan _, by rw [variablesOf, captures, Names.toList_ofList, hscan]⟩

example : references "?foo$bar as ?x (A\u017f $y) bas ?z ?foo".toList =
    ["foo".toList, "z".toList, "foo".toList] := by decide +kernel

end SparqlComposer
