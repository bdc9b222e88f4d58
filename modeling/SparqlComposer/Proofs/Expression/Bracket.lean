import Mathlib.Data.List.Infix
import SparqlComposer.Proofs.Capture.Call
import SparqlComposer.Proofs.Expression.Call
import SparqlComposer.Proofs.Session.Effect
import SparqlComposer.Proofs.Session.Render

/-!
# Conditions in brackets

A condition is put into parentheses when it is written. It opens as many parentheses outside its
strings as it closes, so the first parenthesis of the clause is always matched by one in the clause.
But only the numbers are compared: where a condition closes more than it has opened before, the
first parenthesis of the clause is matched inside the condition, and not by the last one.
-/

namespace SparqlComposer

/-- Each parenthesis that is opened is closed behind what is nested in it, and none else is closed. -/
inductive Nested : Text → Prop where
  | nil : Nested []
  | char {c : Char} {u : Text} (hopen : c ≠ '(') (hclose : c ≠ ')') (h : Nested u) : Nested (c :: u)
  | brackets {u v : Text} (hu : Nested u) (hv : Nested v) : Nested ('(' :: (u ++ ')' :: v))

/-- The parenthesis that a text starts with is matched by the one in front of `rest`. -/
def Matched (t rest : Text) : Prop := ∃ v, t = '(' :: (v ++ ')' :: rest) ∧ Nested v

/-! ## Numbers of parentheses -/

section Counts

variable {u v w p : Text}

theorem count_append_close (u v : Text) : (u ++ ')' :: v).count '(' = u.count '(' + v.count '(' ∧
    (u ++ ')' :: v).count ')' = u.count ')' + v.count ')' + 1 := by
  rw [List.count_append, List.count_append, List.count_cons_self,
    List.count_cons_of_ne (by decide)]
  exact ⟨rfl, rfl⟩

theorem Nested.count_eq (h : Nested u) : u.count '(' = u.count ')' := by
  induction h with
  | nil => rfl
  | char hopen hclose _ ih => rwa [List.count_cons_of_ne hopen, List.count_cons_of_ne hclose]
  | @brackets u v _ _ ihu ihv =>
      rw [List.count_cons_self, List.count_cons_of_ne (by decide), (count_append_close u v).1,
        (count_append_close u v).2, ihu, ihv]

/-- A closing parenthesis behind a nested text closes what nothing in it has opened. -/
theorem Nested.count_lt (h : Nested u) : (u ++ [')']).count '(' < (u ++ [')']).count ')' := by
  rw [(count_append_close u []).1, (count_append_close u []).2, h.count_eq]
  exact Nat.lt_succ_self _

/-- Up to any place no more is closed than opened. -/
theorem Nested.count_le (h : Nested u) (hp : u = p ++ w) : p.count ')' ≤ p.count '(' := by
  induction h generalizing p w with
  | nil =>
      obtain ⟨rfl, -⟩ := List.append_eq_nil_iff.mp hp.symm
      exact Nat.le_refl _
  | char hopen hclose _ ih =>
      cases p with
      | nil => exact Nat.le_refl _
      | cons d p =>
          obtain ⟨rfl, hp'⟩ := List.cons.inj hp
          rw [List.count_cons_of_ne hopen, List.count_cons_of_ne hclose]
          exact ih hp'
  | @brackets u v hu hv ihu ihv =>
      cases p with
      | nil => exact Nat.le_refl _
      | cons d p =>
          obtain ⟨rfl, hp'⟩ := List.cons.inj hp
          rw [List.count_cons_self, List.count_cons_of_ne (by decide)]
          rcases List.append_eq_append_iff.mp hp' with ⟨a, rfl, ha⟩ | ⟨a, hu', -⟩
          · cases a with
            | nil =>
                rw [List.append_nil, hu.count_eq]
                exact Nat.le_succ _
            | cons e a =>
                obtain ⟨rfl, hv'⟩ := List.cons.inj ha
                rw [(count_append_close u a).1, (count_append_close u a).2, hu.count_eq]
                exact Nat.succ_le_succ (Nat.add_le_add_left (ihv hv') _)
          · exact Nat.le_succ_of_le (ihu hu')

/-- Where more is closed than opened, some parenthesis closes what nothing has opened, and what is
in front of the first such one is nested. -/
theorem exists_closing (h : u.count '(' < u.count ')') : ∃ v w, u = v ++ ')' :: w ∧ Nested v := by
  induction hn : u.length using Nat.strongRecOn generalizing u with
  | ind n ih =>
  cases u with
  | nil => cases h
  | cons c u =>
      by_cases hclose : c = ')'
      · exact ⟨[], u, by rw [hclose]; rfl, .nil⟩
      by_cases hopen : c = '('
      · -- What is opened here is closed first, and the search goes on behind that.
        subst hopen
        rw [List.count_cons_self, List.count_cons_of_ne (by decide)] at h
        rw [List.length_cons] at hn
        obtain ⟨v₁, w₁, rfl, hv₁⟩ := ih u.length (by omega) (by omega) rfl
        rw [(count_append_close v₁ w₁).1, (count_append_close v₁ w₁).2, hv₁.count_eq] at h
        rw [List.length_append, List.length_cons] at hn
        obtain ⟨v₂, w₂, rfl, hv₂⟩ := ih w₁.length (by omega) (by omega) rfl
        exact ⟨'(' :: (v₁ ++ ')' :: v₂), w₂, by simp, .brackets hv₁ hv₂⟩
      · rw [List.count_cons_of_ne hopen, List.count_cons_of_ne hclose] at h
        obtain ⟨v, w, rfl, hv⟩ := ih u.length (by simp [← hn]) h rfl
        exact ⟨c :: v, w, rfl, .char hopen hclose hv⟩

/-- With as many of both, a closing parenthesis behind the text finds one that it may close. -/
theorem exists_nested (h : u.count '(' = u.count ')') : ∃ v w, u ++ [')'] = v ++ ')' :: w ∧
    Nested v ∧ (w = [] ∧ u = v ∨ ∃ w', u = v ++ ')' :: w') := by
  obtain ⟨v, w, hsplit, hv⟩ : ∃ v w, u ++ [')'] = v ++ ')' :: w ∧ Nested v := by
    refine exists_closing ?_
    rw [(count_append_close u []).1, (count_append_close u []).2, h]
    exact Nat.lt_succ_self _
  refine ⟨v, w, hsplit, hv, ?_⟩
  rcases List.eq_nil_or_concat w with rfl | ⟨w', d, rfl⟩
  · exact .inl ⟨rfl, (List.append_inj' hsplit rfl).1⟩
  · have hsplit' : u ++ [')'] = (v ++ ')' :: w') ++ [d] := by simpa using hsplit
    exact .inr ⟨w', (List.append_inj' hsplit' rfl).1⟩

/-- Parentheses are nested when there are as many of both, and up to any place no more is closed
than opened. -/
theorem nested_iff : Nested u ↔
    u.count '(' = u.count ')' ∧ ∀ p w, u = p ++ w → p.count ')' ≤ p.count '(' := by
  refine ⟨fun h ↦ ⟨h.count_eq, fun p w ↦ h.count_le⟩, ?_⟩
  rintro ⟨hcount, hle⟩
  obtain ⟨v, w, -, hv, ⟨-, rfl⟩ | ⟨w', rfl⟩⟩ := exists_nested hcount
  · exact hv
  · exact absurd (hle (v ++ [')']) w' (by simp)) (Nat.not_le.mpr hv.count_lt)

instance (u : Text) : Decidable (Nested u) :=
  decidable_of_iff (u.count '(' = u.count ')' ∧ ∀ p ∈ u.inits, p.count ')' ≤ p.count '(') <| by
    rw [nested_iff]
    refine and_congr_right fun _ ↦ forall_congr' fun p ↦ ?_
    rw [List.mem_inits]
    exact ⟨fun h w hw ↦ h ⟨w, hw.symm⟩, fun h ⟨w, hw⟩ ↦ h w hw.symm⟩

end Counts

/-! ## The first parenthesis -/

section First

variable {t u rest rest' : Text}

/-- What is nested goes on behind a nested start with no closing parenthesis. -/
theorem Nested.not_append_close {v a : Text} (hv : Nested v) : ¬ Nested (v ++ ')' :: a) := by
  intro h
  have hle := h.count_le (p := v ++ [')']) (w := a) (by simp)
  exact absurd hle (Nat.not_le.mpr hv.count_lt)

theorem Matched.unique (h : Matched t rest) (h' : Matched t rest') : rest = rest' := by
  obtain ⟨v, rfl, hv⟩ := h
  obtain ⟨v', heq, hv'⟩ := h'
  obtain ⟨-, heq⟩ := List.cons.inj heq
  rcases List.append_eq_append_iff.mp heq with ⟨a, rfl, ha⟩ | ⟨a, rfl, ha⟩
  · cases a with
    | nil => exact (List.cons.inj ha).2
    | cons c a =>
        obtain ⟨rfl, -⟩ := List.cons.inj ha
        exact absurd hv' hv.not_append_close
  · cases a with
    | nil => exact (List.cons.inj ha).2.symm
    | cons c a =>
        obtain ⟨rfl, -⟩ := List.cons.inj ha
        exact absurd hv hv'.not_append_close

/-- In parentheses the first one is matched, and by the last one just when the text is nested. -/
theorem exists_matched (h : u.count '(' = u.count ')') :
    ∃ rest, Matched ('(' :: (u ++ [')'])) rest ∧ (rest = [] ↔ Nested u) := by
  obtain ⟨v, w, hsplit, hv, hends⟩ := exists_nested h
  refine ⟨w, ⟨v, by rw [hsplit], hv⟩, ?_⟩
  rcases hends with ⟨rfl, rfl⟩ | ⟨w', rfl⟩
  · exact iff_of_true rfl hv
  · refine iff_of_false ?_ hv.not_append_close
    rintro rfl
    simpa using congrArg List.length hsplit

end First

/-! ## Outside the strings of a clause -/

section Outside

variable {t u v : Text}

theorem outsideStrings_self (hv : '"' ∉ v) : OutsideStrings v v := by
  induction v with
  | nil => exact .nil
  | cons c v ih =>
      obtain ⟨hc, hv⟩ := List.ne_and_not_mem_of_not_mem_cons hv
      exact .char (fun _ _ _ heq ↦ hc (List.cons.inj heq).1.symm) (ih hv)

/-- A quotation mark that opens no string goes on opening none where no quotation marks follow. -/
theorem OutsideStrings.append (h : OutsideStrings t u) (hv : '"' ∉ v) :
    OutsideStrings (t ++ v) (u ++ v) := by
  induction h with
  | nil => exact outsideStrings_self hv
  | @string body rest u hbody _ ih =>
      have hstring := OutsideStrings.string hbody ih
      simpa using hstring
  | @char c cs u hno _ ih =>
      refine .char (fun body rest hbody heq ↦ ?_) ih
      obtain ⟨rfl, htail⟩ := List.cons.inj heq
      have hsplit : cs ++ v = (body ++ ['"']) ++ rest := by simpa using htail
      rcases List.append_eq_append_iff.mp hsplit with ⟨a, ha, hrest⟩ | ⟨a, rfl, -⟩
      · rcases List.eq_nil_or_concat a with rfl | ⟨a, d, rfl⟩
        · rw [List.append_nil] at ha
          exact hno body [] hbody (by rw [← ha])
        · have hlast : body ++ ['"'] = (cs ++ a) ++ [d] := by simpa using ha
          obtain rfl : '"' = d := by simpa using (List.append_inj' hlast rfl).2
          exact hv (hrest ▸ by simp)
      · exact hno body a hbody (by simp)

/-- Parentheses around a text stand outside its strings. -/
theorem OutsideStrings.bracketed (h : OutsideStrings t u) :
    OutsideStrings ('(' :: (t ++ [')'])) ('(' :: (u ++ [')'])) :=
  .char (fun _ _ _ heq ↦ absurd (List.cons.inj heq).1 (by decide)) (h.append (by decide))

end Outside

/-! ## What is written -/

theorem Constraint.text_condition (e : Expression) :
    (Constraint.condition e).text = "FILTER ".toList ++ '(' :: (e.text ++ [')']) := rfl

namespace Session

open SparqlComposer.Action

variable {s : Session} {t : Text} {e : Expression}

theorem call_filter {site : Site} (hsite : s.holds site.object)
    (he : (Value.text t).Reads conditionKinds e) : s.call (.pattern site .filter [.text t]) =
      (.ok .itself, s.built site (·.use e) (·.addConstraint (.condition e))) := by
  have hheld : (Call.pattern site .filter [.text t]).objects.all s.holds := by
    simpa [Call.objects, Value.allObjects, Value.objects] using hsite
  rw [call, if_pos hheld]
  exact perform_bind_ok (perform_bind_ok (perform_expression_of_reads he))

theorem call_having {q : QueryId} (hq : s.holds (.query q))
    (he : (Value.text t).Reads conditionKinds e) : s.call (.query q .having [.text t]) =
      (.ok .itself, s.settled q (·.useAssigning e)
        fun query ↦ { query with modifiers := { query.modifiers with having := some e } }) := by
  rw [call_query_text hq]
  exact perform_bind_ok (perform_bind_ok (perform_expression_of_reads he))

end Session

/-- A condition opens as many parentheses outside its strings as it closes, and so does the clause
in which it is written in parentheses. The first of these is matched by exactly one, and that is the
last just when the condition is nested, which is when up to no place it closes more than it opens. -/
theorem admits_function_brackets {t : Text} (h : Kind.function.admits t = .ok true) :
    (∃ u rest, OutsideStrings t u ∧ u.count '(' = u.count ')' ∧
      OutsideStrings ('(' :: (t ++ [')'])) ('(' :: (u ++ [')'])) ∧
      (∀ rest', Matched ('(' :: (u ++ [')'])) rest' ↔ rest' = rest) ∧ (rest = [] ↔ Nested u) ∧
      (Nested u ↔ ∀ p w, u = p ++ w → p.count ')' ≤ p.count '(')) ∧
    ∀ s : Session,
      (∀ site, s.holds site.object → ∃ s' c, s.call (.pattern site .filter [.text t]) =
        (.ok .itself, s') ∧ (s'.graphAt site).constraints = (s.graphAt site).constraints ++ [c] ∧
          c.text = "FILTER ".toList ++ '(' :: (t ++ [')'])) ∧
      ∀ q, s.holds (.query q) → ∃ s', s.call (.query q .having [.text t]) = (.ok .itself, s') ∧
        "HAVING ".toList ++ '(' :: (t ++ [')']) ∈ (s'.query q).modifiers.texts := by
  obtain ⟨u, hu, hcount⟩ := isBalanced_iff.mp (Kind.admits_function_iff.mp h).2.2
  obtain ⟨rest, hmatched, hlast⟩ := exists_matched hcount
  have hnested : Nested u ↔ ∀ p w, u = p ++ w → p.count ')' ≤ p.count '(' :=
    nested_iff.trans (and_iff_right hcount)
  have he : (Value.text t).Reads [.function] (.ofKind .function t) :=
    Value.reads_singleton_iff.mpr ⟨t, rfl, h, rfl⟩
  have hunique (rest' : Text) : Matched ('(' :: (u ++ [')'])) rest' ↔ rest' = rest :=
    ⟨fun h ↦ h.unique hmatched, fun h ↦ h ▸ hmatched⟩
  refine ⟨⟨u, rest, hu, hcount, hu.bracketed, hunique, hlast, hnested⟩, fun s ↦
    ⟨fun site hsite ↦ ⟨_, .condition (.ofKind .function t), Session.call_filter hsite he, ?_, ?_⟩,
      fun q hq ↦ ⟨_, Session.call_having hq he, ?_⟩⟩⟩
  · rw [Session.graphAt_built_self hsite]
    rfl
  · rw [Constraint.text_condition, Expression.text_ofKind]
  · rw [Session.query_settled_self hq]
    simp [Modifiers.texts, Modifiers.bracketed]

/-- A condition that is nested, though a string in it closes a parenthesis. -/
theorem function_brackets_string : ∃ t u : Text, t = "REGEX (?x, \")\") && (?y)".toList ∧
    Kind.function.admits t = .ok true ∧ OutsideStrings t u ∧ Nested u ∧
    Matched ('(' :: (u ++ [')'])) [] := by
  have h : Kind.function.admits "REGEX (?x, \")\") && (?y)".toList = .ok true := by decide +kernel
  obtain ⟨⟨u, rest, hu, -, -, hmatched, hlast, -⟩, -⟩ := admits_function_brackets h
  have hnested : Nested u := by
    rw [← outsideStrings_iff.mp hu]
    decide +kernel
  exact ⟨_, u, rfl, h, hu, hnested, (hmatched []).mpr (hlast.mpr hnested).symm⟩

/-- A condition that closes the parenthesis of its clause, and opens one for the last to close. -/
theorem function_brackets_crossed : ∃ t u rest : Text, t = "?x) || (?y".toList ∧
    Kind.function.admits t = .ok true ∧ OutsideStrings t u ∧
    (∃ p w, u = p ++ w ∧ p.count '(' < p.count ')') ∧ ¬ Nested u ∧
    (Constraint.condition (.ofKind .function t)).text = "FILTER ".toList ++ '(' :: (u ++ [')']) ∧
    Matched ('(' :: (u ++ [')'])) rest ∧ rest = " || (?y)".toList ∧
    ¬ Matched ('(' :: (u ++ [')'])) [] := by
  let t : Text := "?x) || (?y".toList
  have hmatched : Matched ('(' :: (t ++ [')'])) " || (?y)".toList :=
    ⟨"?x".toList, rfl, by decide +kernel⟩
  refine ⟨t, t, _, rfl, by decide +kernel, outsideStrings_self (by decide),
    ⟨"?x)".toList, " || (?y".toList, rfl, by decide⟩, by decide +kernel, by decide +kernel,
    hmatched, rfl, fun hlast ↦ ?_⟩
  cases hmatched.unique hlast

end SparqlComposer
