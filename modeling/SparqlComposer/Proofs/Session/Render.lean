import SparqlComposer.Proofs.Session.Change

/-!
# What is written

A query that is written has been validated, and so has every query in its graph; its text consists
of the declarations of its own prefixes and of its parts.
-/

namespace SparqlComposer.Session

variable {s : Session}

theorem subqueryWithin_succ_eq_ok {depth : Nat} {q : QueryId} {r : Subquery}
    (h : s.subqueryWithin (depth + 1) q = .ok r) : ∃ inner,
      s.check (s.queryLedger q) = .ok () ∧
      List.Forall₂ (fun q' a ↦ s.subqueryWithin depth q' = .ok a)
        (s.query q).graph.subqueries inner ∧
      r = (s.query q).subquery ((s.query q).graph.pattern inner) := by
  rw [subqueryWithin] at h
  obtain ⟨_, hcheck, h⟩ := Except.bind_eq_ok_iff.mp h
  obtain ⟨inner, hinner, h⟩ := Except.bind_eq_ok_iff.mp h
  exact ⟨inner, hcheck, Except.mapM_eq_ok_iff.mp hinner, (Except.pure_eq_ok_iff.mp h).symm⟩

theorem subqueryWithin_eq_ok {depth : Nat} {q : QueryId} {r : Subquery}
    (h : s.subqueryWithin depth q = .ok r) : ∃ depth' inner,
      s.check (s.queryLedger q) = .ok () ∧
      List.Forall₂ (fun q' a ↦ s.subqueryWithin depth' q' = .ok a)
        (s.query q).graph.subqueries inner ∧
      r = (s.query q).subquery ((s.query q).graph.pattern inner) := by
  cases depth with
  | zero => exact nomatch h
  | succ depth => exact ⟨depth, subqueryWithin_succ_eq_ok h⟩

/-- A query that is there can be asked what takes no arguments. -/
theorem call_query_nil {q : QueryId} (hq : s.holds (.query q)) (m : QueryMethod) :
    s.call (.query q m []) = (Action.askQuery q m []).perform s :=
  if_pos (by simpa [Call.objects, Value.allObjects] using hq)

theorem call_query_text {q : QueryId} (hq : s.holds (.query q)) (m : QueryMethod) (t : Text) :
    s.call (.query q m [.text t]) = (Action.askQuery q m [.text t]).perform s :=
  if_pos (by simpa [Call.objects, Value.allObjects, Value.objects] using hq)

theorem call_query_object {q t : QueryId} (hq : s.holds (.query q)) (ht : s.holds (.query t))
    (m : QueryMethod) : s.call (.query q m [.object (.query t)]) =
      (Action.askQuery q m [.object (.query t)]).perform s :=
  if_pos (by simp [Call.objects, Value.allObjects, Value.objects, hq, ht])

theorem call_query_of_not_holds {q : QueryId} (hq : ¬ s.holds (.query q)) (m : QueryMethod)
    (args : List Value) : s.call (.query q m args) = (.error .unknownObject, s) :=
  if_neg (by simp [Call.objects, hq])

theorem call_render {q : QueryId} (hq : s.holds (.query q)) :
    (s.call (.query q .render [])).1 = (s.queryText q true).map .text := by
  rw [call_query_nil hq]
  rfl

theorem call_render_of_toOption {q : QueryId} {t : Text} (hq : s.holds (.query q))
    (h : (s.queryText q true).toOption = some t) :
    (s.call (.query q .render [])).1 = .ok (.text t) := by
  rw [call_render hq]
  cases htext : s.queryText q true with
  | error e =>
      rw [htext] at h
      exact nomatch h
  | ok t' =>
      rw [htext] at h
      obtain rfl : t' = t := Option.some.inj h
      rfl

/-- A query that is written can be formatted, and what is formatted is its text. -/
theorem call_format {q : QueryId} {t : Text}
    (h : (s.call (.query q .render [])).1 = .ok (.text t)) :
    (s.call (.query q .format [])).1 = .ok (.text (formatted t)) := by
  by_cases hq : s.holds (.query q)
  · rw [call_render hq] at h
    cases htext : s.queryText q true with
    | error e =>
        rw [htext] at h
        exact nomatch h
    | ok t' =>
        rw [htext] at h
        obtain rfl : t' = t := by simpa [Except.map] using h
        rw [call_query_nil hq]
        change (s.queryText q true).map (fun t ↦ Answer.text (formatted t)) = _
        rw [htext]
        rfl
  · rw [call_query_of_not_holds hq] at h
    cases h

theorem call_graph_render {g : GraphId} (hg : s.holds (.graph g)) :
    (s.call (.graph g .render [])).1 = (s.graphText g).map .text := by
  have hheld : (Call.graph g .render []).objects.all s.holds := by
    simpa [Call.objects, Value.allObjects] using hg
  rw [call, if_pos hheld]
  rfl

/-- A query that is written is there, and its text is that of its declarations and its parts. -/
theorem exists_of_call_render {q : QueryId} {t : Text}
    (h : (s.call (.query q .render [])).1 = .ok (.text t)) :
    q < s.queries.length ∧ ∃ r, s.subquery q = .ok r ∧
      t = spaced ((s.query q).declarations ++ r.texts) := by
  by_cases hq : s.holds (.query q)
  · rw [call_render hq] at h
    cases htext : s.queryText q true with
    | error e =>
        rw [htext] at h
        exact nomatch h
    | ok t' =>
        rw [htext] at h
        obtain rfl : t' = t := by simpa [Except.map] using h
        obtain ⟨r, hr, hpure⟩ := Except.bind_eq_ok_iff.mp htext
        exact ⟨holds_query_iff.mp hq, r, hr, (Except.pure_eq_ok_iff.mp hpure).symm⟩
  · rw [call_query_of_not_holds hq] at h
    cases h

end SparqlComposer.Session
