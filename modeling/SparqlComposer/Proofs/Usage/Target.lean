import SparqlComposer.Proofs.Capture.Target
import SparqlComposer.Proofs.Literal.Session
import SparqlComposer.Proofs.Usage.Soundness

/-!
# What a projection defines

A query that projects an assignment hands on its targets and defines them on its ledger, and it
uses the variables that the assignment refers to. So the variable at the end of an assignment is
projected and defined just when the captures see it there; behind a tab that is wider for them it is
used.
-/

namespace SparqlComposer

namespace Session

variable {s : Session} {q : QueryId} {head : Head} {e : Expression} {n : Text}

theorem holds_of_head (hhead : (s.query q).head = some head) : s.holds (.query q) := by
  rw [holds_query_iff]
  by_contra hlt
  rw [query_eq_of_length_le (Nat.le_of_not_lt hlt)] at hhead
  cases hhead

/-- A head hands on what its assignments define. -/
theorem mem_projectedVariables (hhead : (s.query q).head = some head) (he : e ∈ head.projection)
    (hn : n ∈ e.assignments) : ∃ entries,
      (s.call (.query q .projectedVariables [])).1 = .ok (.entries entries) ∧
        Entry.ofName n ∈ entries := by
  refine ⟨(s.query q).projectedVariables (s.queryLedger q), ?_, ?_⟩
  · rw [call_query_nil (holds_of_head hhead)]
    rfl
  · have hmem : n ∈ head.projected :=
      List.mem_flatMap.mpr ⟨e, he, List.mem_append_right _ (Names.mem_toList.mpr hn)⟩
    have hsome : head.projection.isEmpty = false := by
      rw [List.isEmpty_eq_false_iff]
      exact List.ne_nil_of_mem he
    rw [Query.projectedVariables, hhead, Option.getD_some, hsome]
    exact List.mem_map_of_mem hmem

/-- The ledger of a query knows the names in its head. -/
theorem Reachable.names_of_head (h : s.Reachable) (hhead : (s.query q).head = some head)
    (he : e ∈ head.projection) :
    (∀ n ∈ e.assignments, .text n ∈ (s.ledgerOf q).definedVariables) ∧
      ∀ n ∈ e.references, .text n ∈ (s.ledgerOf q).usedVariables := by
  have hclause : e ∈ (s.query q).clauses := by
    rw [Query.clauses, hhead]
    exact List.mem_append_left _ he
  obtain ⟨hreferences, -, hassignments⟩ :=
    ((h.admitted.query q).clauses e hclause).names_eq (by decide)
  have hmention : Mention.clause e.text ∈ (s.query q).usedMentions := by
    rw [Query.usedMentions, Query.clauseTerms, hhead]
    exact List.mem_append_left _
      (List.mem_map_of_mem (List.mem_append_left _ (List.mem_map_of_mem he)))
  obtain ⟨calls, rfl⟩ := h
  have htold := mem_history_of_mem_usedMentions hmention
  rw [hreferences, hassignments]
  refine ⟨fun n hn ↦ ?_, fun n hn ↦ ?_⟩
  · exact mem_definedVariables_run.mpr ⟨_, htold, Names.mem_toList.mpr hn⟩
  · rw [ledgerOf_run, Ledger.tellAll_eq, OrderedSet.mem_insertAll]
    refine .inr (List.mem_map.mpr ⟨Entry.ofName n, ?_, rfl⟩)
    exact List.mem_map_of_mem (List.mem_flatMap.mpr ⟨_, htold, Names.mem_toList.mpr hn⟩)

end Session

/-- An assignment assigns what is assigned in front of its end, and the variable there if the
captures see it there, as they do in a text without tabs or without spans; else they take the
variable for one that is used. Where the assignment is projected, what it assigns is handed on and
defined. -/
theorem classify_assignment_target (objectText : Ref → Except Error Text) {t : Text}
    (h : Kind.assignment.admits t = .ok true) :
    ∃ e, ∃ c : Closing t, classify objectText [.assignment] (.text t) = .ok e ∧
      (∀ n, n ∈ e.assignments ↔ n ∈ assignmentsOf c.front ∨ n = c.name.text ∧ c.IsSeen) ∧
      (∀ n, n ∈ e.references ↔ n ∈ variablesOf c.front ∨ n = c.name.text ∧ ¬ c.IsSeen) ∧
      ('\t' ∉ t ∨ escaped t = t → c.IsSeen) ∧
      ∀ s : Session, s.Reachable → ∀ q head, (s.query q).head = some head → t ∈ head.terms →
        (∀ n ∈ e.assignments,
          (∃ entries, (s.call (.query q .projectedVariables [])).1 = .ok (.entries entries) ∧
            Entry.ofName n ∈ entries) ∧ .text n ∈ (s.ledgerOf q).definedVariables) ∧
        ∀ n ∈ e.references, .text n ∈ (s.ledgerOf q).usedVariables := by
  obtain ⟨c, hgap⟩ := Kind.exists_closing h
  have hreads : (Value.text t).Reads [.assignment] (.ofKind .assignment t) :=
    Value.reads_singleton_iff.mpr ⟨t, rfl, h, rfl⟩
  refine ⟨_, c, classify_eq_ok_iff.mpr hreads, fun n ↦ c.mem_assignmentsOf,
    fun n ↦ c.mem_variablesOf, c.isSeen_of_unmoved hgap, ?_⟩
  intro s hs q head hhead ht
  obtain ⟨e, he, rfl⟩ := List.mem_map.mp ht
  have hclause : e ∈ (s.query q).clauses := by
    rw [Query.clauses, hhead]
    exact List.mem_append_left _ he
  obtain ⟨hreferences, -, hassignments⟩ :=
    ((hs.admitted.query q).clauses e hclause).names_eq (by decide)
  obtain ⟨hdefined, hused⟩ := hs.names_of_head hhead he
  refine ⟨fun n hn ↦ ?_, fun n hn ↦ hused n (hreferences ▸ hn)⟩
  have hn : n ∈ e.assignments := hassignments ▸ hn
  exact ⟨Session.mem_projectedVariables hhead he hn, hdefined n hn⟩

/-- A tab that is one column wide in front of the target. Behind a hidden string it is wider, and
then the variable is not projected, and the query that projects it is refused. -/
theorem assignment_target_tab : ∃ (t : Text) (calls : List Call),
    t = "(STRLEN(?ab) AS\t?x)".toList ∧ Kind.assignment.admits t = .ok true ∧
    calls = [.newQuery .null, .query 0 (.select none) [.text t]] ∧
    (∃ entries, ((Session.empty.run calls).call (.query 0 .projectedVariables [])).1 =
      .ok (.entries entries) ∧ Entry.ofName "x".toList ∈ entries) ∧
    .text "x".toList ∈ ((Session.empty.run calls).ledgerOf 0).definedVariables ∧
    ∃ t' : Text, t' = "(STR(\"aaaa\") AS\t?x)".toList ∧ Kind.assignment.admits t' = .ok true ∧
      (assignmentsOf t').toList = [] ∧ (variablesOf t').toList = ["x".toList] ∧
      ((Session.empty.run [.newQuery .null, .query 0 (.select none) [.text t']]).call
        (.query 0 .render [])).1 = .error (.undefinedVariables ["x".toList]) := by
  let t : Text := "(STRLEN(?ab) AS\t?x)".toList
  let s := Session.empty.run [.newQuery .null, .query 0 (.select none) [.text t]]
  have ht : Kind.assignment.admits t = .ok true := by decide +kernel
  have hhead : ((s.query 0).head.map Head.terms) = some [t] := by decide +kernel
  obtain ⟨head, hhead, hterms⟩ := Option.map_eq_some_iff.mp hhead
  obtain ⟨e, -, he, -, -, -, hprojects⟩ := classify_assignment_target (fun _ ↦ .ok []) ht
  obtain rfl : e = .ofKind .assignment t := by
    obtain ⟨_, hread, -, rfl⟩ := Value.reads_singleton_iff.mp (classify_eq_ok_iff.mp he)
    rw [← Option.some.inj (Except.ok.inj hread)]
  obtain ⟨hassigned, -⟩ := hprojects s ⟨_, rfl⟩ 0 head hhead (hterms ▸ List.mem_singleton_self t)
  obtain ⟨hprojected, hdefined⟩ := hassigned "x".toList (by decide +kernel)
  let t' : Text := "(STR(\"aaaa\") AS\t?x)".toList
  let s' := Session.empty.run [.newQuery .null, .query 0 (.select none) [.text t']]
  have hrefused : s'.queryText 0 true = .error (.undefinedVariables ["x".toList]) := by
    decide +kernel
  have hheld : s'.holds (.query 0) := by decide +kernel
  have hrender := (Session.call_render hheld).trans (congrArg (Except.map Answer.text) hrefused)
  exact ⟨t, _, rfl, ht, rfl, hprojected, hdefined, t', rfl, by decide +kernel, by decide +kernel,
    by decide +kernel, hrender⟩

end SparqlComposer
