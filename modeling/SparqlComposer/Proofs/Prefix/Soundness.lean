import SparqlComposer.Proofs.Prefix.Declared
import SparqlComposer.Proofs.Prefix.Noted
import SparqlComposer.Proofs.Session.Render

/-!
# Which prefixes a written query declares

A query is validated against its own ledger before it is written, and so is every query that is
attached to it. Hence each of them binds the prefixes that it uses on its own ledger. The header of
the text comes from the outermost query alone, though. What the others bind, and what was used on
another ledger, is declared only as far as the outermost query happens to bind it as well.
-/

namespace SparqlComposer.Session

open Relation

variable {s : Session}

/-- The queries that are attached to a written one are queries of the session, and were written
along with it. -/
theorem Placed.exists_of_attaches (h : s.Placed) {depth : Nat} {q : QueryId} {r a : Subquery}
    (hq : q < s.queries.length) (hr : s.subqueryWithin depth q = .ok r) (ha : r.Attaches a) :
    ∃ depth' q', q' < s.queries.length ∧ s.subqueryWithin depth' q' = .ok a := by
  induction ha with
  | refl => exact ⟨depth, q, hq, hr⟩
  | tail _ hmem ih =>
      obtain ⟨_, q', hq', hb⟩ := ih
      obtain ⟨depth', inner, -, hinner, rfl⟩ := subqueryWithin_eq_ok hb
      obtain ⟨i, hi, rfl⟩ := List.mem_iff_getElem.mp hmem
      have hi' : i < (s.query q').graph.subqueries.length := hinner.length_eq ▸ hi
      have hsub := h.subquery_lt (.query q') _ (List.getElem_mem hi')
      exact ⟨depth', _, hsub, (List.forall₂_iff_get.mp hinner).2 i hi' hi⟩

/-- A validated query binds what it uses on its own ledger. -/
theorem Reachable.binds (h : s.Reachable) (hvalidates : s.validates) {depth : Nat} {q : QueryId}
    {a : Subquery} (hq : q < s.queries.length) (ha : s.subqueryWithin depth q = .ok a) {n : Text}
    (huse : a.Uses a.body.ledger n) : ∃ iri, a.Binds n iri := by
  obtain ⟨_, inner, hcheck, -, rfl⟩ := subqueryWithin_eq_ok ha
  have hused : .text n ∈ (s.queryLedger q).usedPrefixes := by
    rcases huse with huse | ⟨-, t, ht, hn⟩
    · exact h.noted.graph (.query q) _ n ((Graph.uses_pattern inner).mp huse)
    · exact h.noted.clause q t ht n hn
  rw [check, if_pos hvalidates] at hcheck
  have hdefined := Ledger.mem_definedPrefixes_of_validate hcheck hused
  obtain ⟨n', hn', heq⟩ := h.declared q hq _ hdefined
  obtain rfl := Key.text.inj heq
  obtain ⟨⟨_, iri⟩, hmem, rfl⟩ := List.mem_map.mp hn'
  exact ⟨iri, hmem⟩

/-- What a query is written as when it is validated: declarations of its own prefixes, and a query
in which all that are attached bind the prefixes they use on their own ledgers. Its prefixes are
sound exactly when the header agrees with the other bindings. -/
theorem Reachable.rendered_prefixes (h : s.Reachable) (hvalidates : s.validates) {q : QueryId}
    {t : Text} (hrender : (s.call (.query q .render [])).1 = .ok (.text t)) :
    ∃ r, s.subquery q = .ok r ∧
      t = spaced ((r.prefixes.entries.map fun (n, iri) ↦ Query.declaration n iri) ++ r.texts) ∧
      (∀ a, r.Attaches a → ∀ n, a.Uses a.body.ledger n → ∃ iri, a.Binds n iri) ∧
      (r.PrefixSound ↔ r.PrefixesAgree) := by
  obtain ⟨hq, r, hr, htext⟩ := exists_of_call_render hrender
  have hbinds : ∀ a, r.Attaches a → ∀ n, a.Uses a.body.ledger n → ∃ iri, a.Binds n iri := by
    intro a ha n huse
    obtain ⟨_, q', hq', ha'⟩ := h.placed.exists_of_attaches hq hr ha
    exact h.binds hvalidates hq' ha' huse
  refine ⟨r, hr, ?_, hbinds, Subquery.prefixSound_iff hbinds⟩
  obtain ⟨_, inner, -, -, rfl⟩ := subqueryWithin_eq_ok hr
  exact htext

/-- A prefix that only an attached query binds is used and not declared. -/
theorem attached_undeclared : ∃ (s : Session) (r : Subquery), s.Reachable ∧ s.validates ∧
    (s.call (.query 0 .render [])).1 =
      .ok (.text "SELECT * WHERE { { SELECT * WHERE { ?a ex:p ?b . } } }".toList) ∧
    s.subquery 0 = .ok r ∧ ¬ r.PrefixSound := by
  let s := empty.run [.newQuery .null, .query 0 .newSubquery [],
    .query 1 .bindPrefix [.text "ex".toList, .text "http://e/".toList],
    .pattern (.query 1) .addTriple [.text "?a".toList, .text "ex:p".toList, .text "?b".toList],
    .query 0 .subquery [.object (.query 1)]]
  have hs : s.Reachable := ⟨_, rfl⟩
  have hrender : (s.call (.query 0 .render [])).1 =
      .ok (.text "SELECT * WHERE { { SELECT * WHERE { ?a ex:p ?b . } } }".toList) := by
    have htext : (s.queryText 0 true).toOption =
        some "SELECT * WHERE { { SELECT * WHERE { ?a ex:p ?b . } } }".toList := by decide +kernel
    rw [call_render (by decide +kernel)]
    cases hquery : s.queryText 0 true with
    | error e =>
        rw [hquery] at htext
        exact nomatch htext
    | ok t =>
        rw [hquery] at htext
        obtain rfl : t = _ := Option.some.inj htext
        rfl
  have hvalidates : s.validates := by decide +kernel
  have hattached : (s.query 0).graph.subqueries = [1] := by decide +kernel
  have hnone : (s.query 0).prefixes.entries = [] := by decide +kernel
  have hbound : ("ex".toList, "http://e/".toList) ∈ (s.query 1).prefixes.entries := by
    decide +kernel
  have hterm : "ex:p".toList ∈ ((s.query 1).graph.pattern []).terms := by decide +kernel
  have hmention : "ex".toList ∈ prefixesOf "ex:p".toList := by decide +kernel
  obtain ⟨r, hr, -, -, hiff⟩ := Reachable.rendered_prefixes hs hvalidates hrender
  refine ⟨s, r, hs, hvalidates, hrender, hr, fun hsound ↦ ?_⟩
  obtain ⟨_, inner, -, hinner, rfl⟩ := subqueryWithin_eq_ok hr
  rw [hattached] at hinner
  obtain ⟨a, ha, rfl⟩ : ∃ a, s.subqueryWithin _ 1 = .ok a ∧ inner = [a] := by
    cases hinner with
    | cons ha hrest => exact ⟨_, ha, by cases hrest; rfl⟩
  obtain ⟨_, inside, -, -, rfl⟩ := subqueryWithin_eq_ok ha
  -- The attached query binds the prefix, so the header would have to bind it as well.
  have huse := (Graph.uses_pattern inside).mpr
    (Graph.uses_iff.mpr (.inl ⟨rfl, _, hterm, hmention⟩))
  have hheader := (hiff.mp hsound).1 _ (.single List.mem_cons_self) _ (.inl huse) _ hbound
  rw [Subquery.Binds, Query.subquery, Subquery.prefixes, hnone] at hheader
  exact nomatch hheader

end SparqlComposer.Session
