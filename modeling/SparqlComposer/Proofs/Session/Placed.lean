import SparqlComposer.Proofs.Session.Change

/-!
# Objects in their places

Everything that an object of a reachable session refers to is there, and no two queries share a
ledger. Every change keeps it so.
-/

namespace SparqlComposer

open SparqlComposer.Action

namespace Session

/-- Graphs refer to ledgers and queries that are there, and every query has its own ledger. -/
structure Placed (s : Session) : Prop where
  ledger_lt : ∀ site, s.holds site.object → (s.graphAt site).ledger < s.ledgers.length
  subquery_lt : ∀ site, ∀ q ∈ (s.graphAt site).subqueries, q < s.queries.length
  ledger_inj : ∀ q q', q < s.queries.length → q' < s.queries.length →
    (s.query q).graph.ledger = (s.query q').graph.ledger → q = q'

variable {s s' : Session}

theorem Placed.queryLedger_lt (h : s.Placed) {id : QueryId} (hid : id < s.queries.length) :
    (s.query id).graph.ledger < s.ledgers.length :=
  h.ledger_lt (.query id) (holds_query_iff.mpr hid)

theorem placed_empty : empty.Placed where
  ledger_lt site h := by cases site <;> simp [holds, empty, Site.object] at h
  subquery_lt site q hq := by cases site <;> simp [graphAt, graph, query, empty] at hq
  ledger_inj q q' hq := by simp [empty] at hq

/-- A change that leaves the graphs as they are leaves all in place. -/
theorem Placed.of_graphAt_eq (h : s.Placed) (hgraph : ∀ site, s'.graphAt site = s.graphAt site)
    (hledgers : s.ledgers.length ≤ s'.ledgers.length)
    (hgraphs : s'.graphs.length = s.graphs.length)
    (hqueries : s'.queries.length = s.queries.length) : s'.Placed where
  ledger_lt site hsite := by
    rw [hgraph site]
    have hsite' := (holds_object_congr hgraphs hqueries).mp hsite
    exact Nat.lt_of_lt_of_le (h.ledger_lt site hsite') hledgers
  subquery_lt site q hq := by
    rw [hgraph site] at hq
    rw [hqueries]
    exact h.subquery_lt site q hq
  ledger_inj q q' hq hq' heq := by
    rw [hqueries] at hq hq'
    rw [← graphAt_query, ← graphAt_query, hgraph, hgraph] at heq
    exact h.ledger_inj q q' hq hq' heq

theorem lt_of_lt_succ_of_ne {m n : Nat} (h : m < n + 1) (hne : m ≠ n) : m < n :=
  Nat.lt_of_le_of_ne (Nat.le_of_lt_succ h) hne

theorem Placed.withGraph (h : s.Placed) {ledger : LedgerId} (hl : ledger < s.ledgers.length) :
    (s.withGraph ledger).Placed where
  ledger_lt site hsite := by
    rw [graphAt_withGraph]
    split
    · exact hl
    · rename_i hne
      apply h.ledger_lt site
      cases site with
      | graph id =>
          have hid : id ≠ s.graphs.length := fun heq ↦ hne (heq ▸ rfl)
          have hlt : id < s.graphs.length + 1 := by
            simpa [holds, Site.object, Session.withGraph] using hsite
          simpa [holds, Site.object] using lt_of_lt_succ_of_ne hlt hid
      | query id => exact hsite
  subquery_lt site q hq := by
    rw [graphAt_withGraph] at hq
    split at hq
    · simp at hq
    · exact h.subquery_lt site q hq
  ledger_inj := h.ledger_inj

theorem Placed.withQuery (h : s.Placed) : s.withQuery.Placed where
  ledger_lt site hsite := by
    rw [graphAt_withQuery]
    have hlen : s.withQuery.ledgers.length = s.ledgers.length + 1 := by simp [Session.withQuery]
    rw [hlen]
    split
    · exact Nat.lt_succ_self _
    · rename_i hne
      refine Nat.lt_succ_of_lt (h.ledger_lt site ?_)
      cases site with
      | graph id => exact hsite
      | query id =>
          have hid : id ≠ s.queries.length := fun heq ↦ hne (heq ▸ rfl)
          have hlt : id < s.queries.length + 1 := by
            simpa [holds, Site.object, Session.withQuery] using hsite
          exact holds_query_iff.mpr (lt_of_lt_succ_of_ne hlt hid)
  subquery_lt site q hq := by
    have hlen : s.withQuery.queries.length = s.queries.length + 1 := by simp [Session.withQuery]
    rw [graphAt_withQuery] at hq
    rw [hlen]
    split at hq
    · simp at hq
    · exact Nat.lt_succ_of_lt (h.subquery_lt site q hq)
  ledger_inj q q' hq hq' heq := by
    have hlen : s.withQuery.queries.length = s.queries.length + 1 := by simp [Session.withQuery]
    rw [hlen] at hq hq'
    rw [query_withQuery, query_withQuery] at heq
    -- The ledger of the new query is new, so no other query has it.
    split at heq <;> split at heq
    · rename_i hnew hnew'
      exact hnew.trans hnew'.symm
    · rename_i _ hold'
      exact absurd heq (Nat.ne_of_gt (h.queryLedger_lt (lt_of_lt_succ_of_ne hq' hold')))
    · rename_i hold _
      exact absurd heq (Nat.ne_of_lt (h.queryLedger_lt (lt_of_lt_succ_of_ne hq hold)))
    · rename_i hold hold'
      exact h.ledger_inj q q' (lt_of_lt_succ_of_ne hq hold) (lt_of_lt_succ_of_ne hq' hold') heq

/-- The ledger of a query is not handed out. -/
theorem ledger_ne_of_holds {id : LedgerId} (h : s.holds (.ledger id)) {q : QueryId}
    (hq : q < s.queries.length) : id ≠ (s.query q).graph.ledger := by
  rintro rfl
  simp only [holds, Bool.and_eq_true, Bool.not_eq_true', isOwned, List.any_eq_false,
    beq_iff_eq] at h
  have hmem : s.query q ∈ s.queries := by
    rw [query, List.getD, List.getElem?_eq_getElem hq]
    exact List.getElem_mem hq
  exact h.2 _ hmem rfl

/-- What is built leaves all graphs on their ledgers. -/
theorem ledger_graphAt_built {site : Site} (hsite : s.holds site.object) {f : Ledger → Ledger}
    {g : Graph → Graph} (hfg : Building s site f g) (other : Site) :
    ((s.built site f g).graphAt other).ledger = (s.graphAt other).ledger := by
  by_cases heq : other = site
  · rw [heq, graphAt_built_self hsite, hfg.ledger_eq]
  · rw [graphAt_built_of_ne heq]

theorem Placed.built (h : s.Placed) {site : Site} (hsite : s.holds site.object)
    {f : Ledger → Ledger} {g : Graph → Graph} (hfg : Building s site f g) :
    (s.built site f g).Placed := by
  obtain ⟨hledgers, hgraphs, hqueries⟩ := length_built s site f g
  have hledger := ledger_graphAt_built hsite hfg
  have hsub (q : QueryId) (hq : q ∈ (g (s.graphAt site)).subqueries) : q < s.queries.length := by
    cases hfg with
    | subquery hheld _ =>
        rcases List.mem_append.mp hq with hq | hq
        · exact h.subquery_lt site q hq
        · rw [List.mem_singleton.mp hq]
          exact holds_query_iff.mp hheld
    | block k _ _ => cases k <;> exact h.subquery_lt site q hq
    | tripleBlock k _ _ _ => cases k <;> exact h.subquery_lt site q hq
    | _ => exact h.subquery_lt site q hq
  refine ⟨fun other hother ↦ ?_, fun other q hq ↦ ?_, fun q q' hq hq' heq ↦ ?_⟩
  · rw [hledger, hledgers]
    exact h.ledger_lt other ((holds_object_congr hgraphs hqueries).mp hother)
  · rw [hqueries]
    by_cases heq : other = site
    · rw [heq, graphAt_built_self hsite] at hq
      exact hsub q hq
    · rw [graphAt_built_of_ne heq] at hq
      exact h.subquery_lt other q hq
  · rw [hqueries] at hq hq'
    rw [← graphAt_query, ← graphAt_query, hledger, hledger] at heq
    exact h.ledger_inj q q' hq hq' heq

/-- What is set in a query leaves all graphs as they are. -/
theorem graphAt_settled {id : QueryId} {f : Ledger → Ledger} {g : Query → Query}
    (hid : s.holds (.query id)) (hfg : Setting s id f g) (site : Site) :
    (s.settled id f g).graphAt site = s.graphAt site := by
  cases site with
  | graph _ => rfl
  | query other =>
      by_cases heq : id = other
      · rw [graphAt_query, ← heq, query_settled_self hid, hfg.graph_eq, ← graphAt_query]
      · rw [graphAt_query, query_settled_of_ne heq, ← graphAt_query]

/-- What holds of new graphs, and of what is built, holds of all graphs after a change. -/
theorem Change.forall_graphAt {P : Graph → Prop} (hchange : s.Change s')
    (hnew : ∀ ledger, P { ledger })
    (hbuild : ∀ site f g, Building s site f g → P (g (s.graphAt site)))
    (h : ∀ site, P (s.graphAt site)) (site : Site) : P (s'.graphAt site) := by
  cases hchange with
  | newGraph _ =>
      rw [graphAt_withGraph]
      split
      · exact hnew _
      · exact h site
  | newQuery =>
      rw [graphAt_withQuery]
      split
      · exact hnew _
      · exact h site
  | @building other hother f g hfg =>
      by_cases heq : site = other
      · subst heq
        rw [graphAt_built_self hother]
        exact hbuild site f g hfg
      · rw [graphAt_built_of_ne heq]
        exact h site
  | setting hid hfg =>
      rw [graphAt_settled hid hfg]
      exact h site
  | newLedger | entries _ _ _ | validation _ =>
      cases site with
      | graph id => exact h (.graph id)
      | query id => exact h (.query id)

/-- What holds of new queries, of queries with other graphs and of what is set holds of all queries
after a change. -/
theorem Change.forall_query {P : Query → Prop} (hchange : s.Change s')
    (hnew : ∀ graph, P { graph }) (hgraph : ∀ q graph, P q → P { q with graph })
    (hset : ∀ id f g, Setting s id f g → P (g (s.query id)))
    (h : ∀ id, P (s.query id)) (id : QueryId) : P (s'.query id) := by
  cases hchange with
  | newQuery =>
      rw [query_withQuery]
      split
      · exact hnew _
      · exact h id
  | building _ _ =>
      rw [query_built]
      exact hgraph _ _ (h id)
  | @setting other hother f g hfg =>
      by_cases heq : other = id
      · subst heq
        rw [query_settled_self hother]
        exact hset other f g hfg
      · rw [query_settled_of_ne heq]
        exact h id
  | newLedger | newGraph _ | entries _ _ _ | validation _ => exact h id

theorem Placed.change (h : s.Placed) (hchange : s.Change s') : s'.Placed := by
  cases hchange with
  | newLedger => exact h.of_graphAt_eq (fun _ ↦ rfl) (by simp [withLedger]) rfl rfl
  | newGraph hl => exact h.withGraph hl
  | newQuery => exact h.withQuery
  | entries _ _ es =>
      exact h.of_graphAt_eq (fun site ↦ by cases site <;> rfl) (by simp [modifyLedger]) rfl rfl
  | building hsite hfg => exact h.built hsite hfg
  | setting hid hfg =>
      obtain ⟨hledgers, hgraphs, hqueries⟩ := length_settled
      exact h.of_graphAt_eq (graphAt_settled hid hfg) (Nat.le_of_eq hledgers.symm)
        (congrArg List.length hgraphs) hqueries
  | validation _ => exact h.of_graphAt_eq (fun _ ↦ rfl) (Nat.le_refl _) rfl rfl

theorem Placed.changes (h : s.Placed) (hchanges : s.Changes s') : s'.Placed := by
  induction hchanges with
  | refl => exact h
  | tail _ hchange ih => exact ih.change hchange

end Session

end SparqlComposer
