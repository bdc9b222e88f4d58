import SparqlComposer.Proofs.Usage.Drift

/-!
# Which variables a written query defines

Validation accepts a variable once anything has ever defined it on the ledger of the query. So a
variable that is used in the text of a query has been defined by a call, and it is defined in the text
unless every such definition has drifted away from it.
-/

namespace SparqlComposer

open Relation
open SparqlComposer.Action

/-- The texts of the expressions in the clauses of a query and the conditions of its graph. -/
def Query.usedTexts (q : Query) : List Text := q.clauseTerms ++ (q.graph.pattern []).conditionTerms

/-- The clauses of a query and the conditions of its graph, as what a ledger is told of. -/
def Query.usedMentions (q : Query) : List Mention :=
  q.clauseTerms.map .clause ++ (q.graph.pattern []).conditionTerms.map .condition

namespace Session

variable {s s' : Session} {c : Call} {q : QueryId} {t : Text}

/-! ## What is used is told -/

theorem Builds.mem_conditionTerms {site : Site} {m : PatternMethod} {args : List Value}
    {f : Ledger → Ledger} {g : Graph → Graph} (h : s.Builds site m args f g) {graph : Graph}
    (ht : t ∈ ((g graph).pattern []).conditionTerms) :
    t ∈ (graph.pattern []).conditionTerms ∨ .condition t ∈ s.patternMentions site m args := by
  have hblock (k : Embedding) (p : Pattern) :
      ((k.add p graph).pattern []).conditionTerms = (graph.pattern []).conditionTerms := by
    cases k <;> simp [Embedding.add, Graph.addConstraint, Graph.addOptional, Graph.pattern,
      Pattern.conditionTerms, Constraint.condition?]
  cases h with
  | triple _ _ _ _ => exact .inl ht
  | condition he =>
      simp only [Graph.addConstraint, Graph.pattern, Pattern.conditionTerms,
        List.filterMap_append, List.map_append, List.mem_append] at ht
      rcases ht with ht | ht
      · exact .inl ht
      · obtain rfl := List.mem_singleton.mp ht
        rw [he.text_eq]
        exact .inr (List.mem_singleton_self _)
  | block k _ _ => exact .inl (hblock k _ ▸ ht)
  | tripleBlock k _ _ _ => exact .inl (hblock k _ ▸ ht)
  | union _ _ _ _ => exact .inl ht

theorem Sets.mem_clauseTerms {m : QueryMethod} {args : List Value} {f : Ledger → Ledger}
    {g : Query → Query} (h : s.Sets q m args f g) {query : Query} (ht : t ∈ (g query).clauseTerms) :
    t ∈ query.clauseTerms ∨ .clause t ∈ s.queryMentions m args := by
  have htold {kinds : List Kind} {vs : List Value} {es : List Expression}
      (hes : List.Forall₂ (fun v e ↦ v.Reads kinds e) vs es) (ht : t ∈ es.map Expression.text) :
      Mention.clause t ∈ vs.map fun v ↦ Mention.clause v.reading := by
    obtain ⟨e, he, rfl⟩ := List.mem_map.mp ht
    obtain ⟨v, hv, hreads⟩ := exists_of_forall₂_right hes he
    rw [hreads.text_eq]
    exact List.mem_map_of_mem hv
  have hone {kinds : List Kind} {v : Value} {e : Expression} (he : v.Reads kinds e)
      (ht : t = e.text) : Mention.clause t ∈ [Mention.clause v.reading] := by
    rw [ht, he.text_eq]
    exact List.mem_singleton_self _
  cases h with
  | binding _ _ _ => exact .inl ht
  | head hm hes _ =>
      rcases List.mem_append.mp ht with ht | ht
      · cases m with
        | select => exact .inr (htold hes ht)
        | describe => exact .inr (htold hes ht)
        | _ => exact nomatch hm
      · exact .inl (List.mem_append_right _ ht)
  | groupBy _ hes =>
      simp only [Query.clauseTerms, Modifiers.terms, List.mem_append] at ht ⊢
      rcases ht with ht | (ht | ht) | ht
      · exact .inl (.inl ht)
      · exact .inr (htold hes ht)
      · exact .inl (.inr (.inl (.inr ht)))
      · exact .inl (.inr (.inr ht))
  | having he =>
      simp only [Query.clauseTerms, Modifiers.terms, List.mem_append] at ht ⊢
      rcases ht with ht | (ht | ht) | ht
      · exact .inl (.inl ht)
      · exact .inl (.inr (.inl (.inl ht)))
      · exact .inr (hone he (List.mem_singleton.mp ht))
      · exact .inl (.inr (.inr ht))
  | orderBy _ he =>
      simp only [Query.clauseTerms, Modifiers.terms, List.mem_append] at ht ⊢
      rcases ht with ht | ht | ht
      · exact .inl (.inl ht)
      · exact .inl (.inr (.inl ht))
      · exact .inr (hone he (List.mem_singleton.mp ht))
  | @slice slice _ _ _ => cases slice <;> exact .inl ht

/-- What a query uses was used before, or has just been told of. -/
def ToldOf (s : Session) (q : QueryId) (c : Call) (m : Mention) : Prop :=
  m ∈ (s.query q).usedMentions ∨ m ∈ s.told q c

variable {m : Mention}

theorem toldOf_built {site : Site} {f : Ledger → Ledger} {g : Graph → Graph}
    (hsite : s.holds site.object)
    (hg : ∀ {graph : Graph} {t : Text}, t ∈ ((g graph).pattern []).conditionTerms →
      t ∈ (graph.pattern []).conditionTerms ∨ (s.isOn q site → .condition t ∈ s.told q c))
    (hm : m ∈ ((s.built site f g).query q).usedMentions) : s.ToldOf q c m := by
  rw [query_built] at hm
  rcases List.mem_append.mp hm with hm | hm
  · exact .inl (List.mem_append_left _ hm)
  by_cases heq : Site.query q = site
  · subst heq
    rw [graphAt_built_self hsite] at hm
    obtain ⟨t, ht, rfl⟩ := List.mem_map.mp hm
    rcases hg ht with ht | htold
    · exact .inl (List.mem_append_right _ (List.mem_map_of_mem ht))
    · refine .inr (htold ?_)
      simpa [isOn] using holds_query_iff.mp hsite
  · rw [graphAt_built_of_ne heq] at hm
    exact .inl (List.mem_append_right _ hm)

theorem toldOf_attached {site : Site} {inner : QueryId}
    (hm : m ∈ ((s.attached site inner).query q).usedMentions) (hsite : s.holds site.object) :
    s.ToldOf q c m := by
  have hsame (graph : Graph) : ((graph.addSubquery inner).pattern []).conditionTerms =
      (graph.pattern []).conditionTerms := rfl
  apply toldOf_built hsite _ hm
  intro graph t ht
  rw [hsame] at ht
  exact .inl ht

theorem Does.toldOf (h : s.Does c s') (hplaced : s.Placed) (hc : c.isSingle)
    (hok : (s.call c).1.isOk) (hm : m ∈ (s'.query q).usedMentions) : s.ToldOf q c m := by
  cases h with
  | @builds site method args f g hsite h =>
      refine toldOf_built hsite (fun ht ↦ ?_) hm
      refine (h.mem_conditionTerms ht).imp_right fun hmem hon ↦ ?_
      rw [told_of_isSingle hc, Call.site?, Option.any_some, if_pos hon, mentions, if_pos hok]
      exact hmem
  | @sets id method args f g hid h =>
      by_cases heq : id = q
      · subst heq
        rw [query_settled_self hid] at hm
        rcases List.mem_append.mp hm with hm | hm
        · obtain ⟨t, ht, rfl⟩ := List.mem_map.mp hm
          rcases h.mem_clauseTerms ht with ht | hmem
          · exact .inl (List.mem_append_left _ (List.mem_map_of_mem ht))
          · refine .inr ?_
            rw [told_of_isSingle hc, Call.site?, Option.any_some,
              if_pos ((isOn_query_iff hplaced hid).mpr rfl),
              mentions_query (by rintro rfl; cases hc) hok]
            exact hmem
        · rw [h.setting.graph_eq] at hm
          exact .inl (List.mem_append_right _ hm)
      · rw [query_settled_of_ne heq] at hm
        exact .inl hm
  | graphAttaches hid _ => exact toldOf_attached hm hid
  | queryAttaches hid _ => exact toldOf_attached hm hid
  | _ => exact .inl hm

/-! ## Declarations use nothing -/

theorem usedMentions_of_not_isSingle (hc : ¬ c.isSingle) :
    ((s.call c).2.query q).usedMentions = (s.query q).usedMentions := by
  refine keeps_call (P := fun s' ↦ (s'.query q).usedMentions = (s.query q).usedMentions) hc rfl
    ?_ ?_ ?_
  · exact fun _ _ ↦ rfl
  · rw [query_withQuery]
    split
    · rename_i hq
      rw [query_eq_of_length_le (Nat.le_of_eq hq.symm)]
      rfl
    · rfl
  · intro s' id name iri f g hid hsets hsame
    by_cases heq : id = q
    · subst heq
      rw [query_settled_self hid, ← hsame]
      cases hsets with
      | binding _ _ _ => rfl
      | head hm _ _ => exact nomatch hm
    · rw [query_settled_of_ne heq, hsame]

theorem toldOf_call (hplaced : s.Placed) (hm : m ∈ ((s.call c).2.query q).usedMentions) :
    s.ToldOf q c m := by
  by_cases hc : c.isSingle
  · by_cases hok : (s.call c).1.isOk
    · exact ((atomic_call hc).of_isOk hok).toldOf hplaced hc hok hm
    · rw [(atomic_call hc).session_eq_of_not_isOk hok] at hm
      exact .inl hm
  · rw [usedMentions_of_not_isSingle hc] at hm
    exact .inl hm

/-- The ledger of a query has been told of all that the query uses. -/
theorem mem_history_of_mem_usedMentions {calls : List Call}
    (hm : m ∈ ((empty.run calls).query q).usedMentions) : m ∈ empty.history q calls := by
  induction calls using List.reverseRecOn with
  | nil => exact nomatch hm
  | append_singleton calls c ih =>
      have hplaced : (empty.run calls).Placed := Reachable.placed ⟨calls, rfl⟩
      have hone : (empty.run calls).history q [c] = (empty.run calls).told q c :=
        List.append_nil _
      rw [run_append] at hm
      rw [history_append, hone, List.mem_append]
      exact (toldOf_call hplaced hm).imp_left ih

theorem mem_history_of_mem_usedTexts {calls : List Call}
    (ht : t ∈ ((empty.run calls).query q).usedTexts) :
    .condition t ∈ empty.history q calls ∨ .clause t ∈ empty.history q calls := by
  rcases List.mem_append.mp ht with ht | ht
  · exact .inr (mem_history_of_mem_usedMentions
      (List.mem_append_left _ (List.mem_map_of_mem ht)))
  · exact .inl (mem_history_of_mem_usedMentions
      (List.mem_append_right _ (List.mem_map_of_mem ht)))

/-! ## What is used is defined -/

/-- When a query is written, every variable that is captured from its clauses or the conditions of its
graph has been defined in it by a call; and it is defined in the text, or each of its definitions has
drifted: a modifier that is set again later, something built in a graph that is not embedded afterwards
where it gets into the query, or an attached query that was given a projection without the variable
later, or that projects everything and whose own definitions of it have drifted. -/
theorem rendered_variables (calls : List Call) (hvalidates : (empty.run calls).validates) (q : QueryId)
    {t : Text} (hrender : ((empty.run calls).call (.query q .render [])).1 = .ok (.text t)) :
    ∃ r, (empty.run calls).subquery q = .ok r ∧
      t = spaced (((empty.run calls).query q).declarations ++ r.texts) ∧
      ∀ n, r.UsesVariable n →
        (∃ e : Event, e.calls = calls ∧ e.Defines q n) ∧
          (r.DefinesVariable n ∨ ∀ e : Event, e.calls = calls → e.Defines q n → e.Drifts q n) := by
  obtain ⟨hq, r, hr, htext⟩ := exists_of_call_render hrender
  refine ⟨r, hr, htext, ?_⟩
  rintro n ⟨t', ht', hn⟩
  have hused : ∃ m ∈ empty.history q calls, n ∈ m.usedVariables := by
    obtain ⟨_, inner, -, -, rfl⟩ := subqueryWithin_eq_ok hr
    rcases mem_history_of_mem_usedTexts ht' with hm | hm
    · exact ⟨_, hm, Names.mem_toList.mpr hn⟩
    · exact ⟨_, hm, Names.mem_toList.mpr hn⟩
  have hdefined : .text n ∈ ((empty.run calls).ledgerOf q).definedVariables := by
    obtain ⟨_, inner, hcheck, -, rfl⟩ := subqueryWithin_eq_ok hr
    rw [check, if_pos hvalidates, ← ledgerOf_of_holds (holds_query_iff.mpr hq)] at hcheck
    refine Ledger.mem_definedVariables_of_validate hcheck ?_
    rw [ledgerOf_run, Ledger.tellAll_eq, OrderedSet.mem_insertAll]
    obtain ⟨m, hm, hn⟩ := hused
    refine .inr (List.mem_map.mpr ⟨Entry.ofName n, ?_, rfl⟩)
    exact List.mem_map_of_mem (List.mem_flatMap.mpr ⟨m, hm, hn⟩)
  refine ⟨Event.exists_of_mem_definedVariables hdefined, ?_⟩
  by_cases htext : r.DefinesVariable n
  · exact .inl htext
  · exact .inr fun e he hn ↦
      (Event.definesOrDrifts calls _ q r hr e he n hn).resolve_left htext

/-- The grouping that defines a variable is replaced, and solutions are still ordered by it. -/
theorem ordered_undefined : ∃ (calls : List Call) (r : Subquery), (empty.run calls).validates ∧
    ((empty.run calls).call (.query 0 .render [])).1 =
      .ok (.text "SELECT * WHERE { ?a ?p ?c . } GROUP BY ?a ORDER BY ASC (?n)".toList) ∧
    (empty.run calls).subquery 0 = .ok r ∧ r.UsesVariable "n".toList ∧
    ¬ r.DefinesVariable "n".toList ∧
    ∃ e : Event, e.calls = calls ∧ e.Defines 0 "n".toList ∧ e.Drifts 0 "n".toList := by
  let calls : List Call := [.newQuery .null,
    .pattern (.query 0) .addTriple [.text "?a".toList, .text "?p".toList, .text "?c".toList],
    .query 0 .groupBy [.text "(STRLEN(?c) AS ?n)".toList],
    .query 0 .groupBy [.text "?a".toList],
    .query 0 .orderBy [.text "?n".toList]]
  let s := empty.run calls
  have hfacts : s.validates ∧ s.holds (.query 0) ∧ (s.queryText 0 true).toOption =
        some "SELECT * WHERE { ?a ?p ?c . } GROUP BY ?a ORDER BY ASC (?n)".toList ∧
      (s.query 0).graph.subqueries = [] ∧
      ((s.query 0).graph.pattern []).tripleTerms = ["?a".toList, "?p".toList, "?c".toList] ∧
      (s.query 0).clauseTerms = ["?a".toList, "?n".toList] ∧
      ((s.query 0).graph.pattern []).blocks.length = 0 := by decide +kernel
  obtain ⟨hvalidates, hq, htext, hsubqueries, hterms, hclauses, hblocks⟩ := hfacts
  have hrender := call_render_of_toOption hq htext
  obtain ⟨r, hr, -, hvariables⟩ := rendered_variables calls hvalidates 0 hrender
  obtain ⟨_, inner, -, hinner, rfl⟩ := subqueryWithin_eq_ok hr
  obtain rfl : inner = [] := by
    rw [hsubqueries] at hinner
    exact List.forall₂_nil_left_iff.mp hinner
  have hnoBlock (b : Pattern)
      (hb : ((s.query 0).graph.pattern []).HasBlock b) : b = (s.query 0).graph.pattern [] := by
    rcases ReflTransGen.cases_head_iff.mp hb with heq | ⟨b', hb', -⟩
    · exact heq.symm
    · rw [List.eq_nil_of_length_eq_zero hblocks] at hb'
      exact nomatch hb'
  have huses : ((s.query 0).subquery ((s.query 0).graph.pattern [])).UsesVariable "n".toList := by
    refine ⟨"?n".toList, List.mem_append_left _ ?_, by decide +kernel⟩
    change _ ∈ (s.query 0).clauseTerms
    rw [hclauses]
    decide
  have hundefined :
      ¬ ((s.query 0).subquery ((s.query 0).graph.pattern [])).DefinesVariable "n".toList := by
    intro hdefines
    cases hdefines with
    | triple hblock ht _ hn =>
        rw [hnoBlock _ hblock, hterms] at ht
        have hnone : ∀ t ∈ ["?a".toList, "?p".toList, "?c".toList],
          "n".toList ∉ variablesOf t := by decide +kernel
        exact hnone _ ht hn
    | target ht hn =>
        change _ ∈ (s.query 0).clauseTerms at ht
        rw [hclauses] at ht
        have hnone : ∀ t ∈ ["?a".toList, "?n".toList], "n".toList ∉ assignmentsOf t := by
          decide +kernel
        exact hnone _ ht hn
    | projected hblock ha _ =>
        rw [hnoBlock _ hblock] at ha
        exact nomatch ha
    | everything hblock ha _ _ =>
        rw [hnoBlock _ hblock] at ha
        exact nomatch ha
  obtain ⟨⟨e, he, hdefines⟩, hall⟩ := hvariables _ huses
  exact ⟨calls, _, hvalidates, hrender, hr, huses, hundefined, e, he, hdefines,
    hall.resolve_left hundefined e he hdefines⟩

end Session

end SparqlComposer
