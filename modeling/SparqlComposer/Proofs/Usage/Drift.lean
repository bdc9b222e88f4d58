import SparqlComposer.Proofs.Session.Replacement
import SparqlComposer.Proofs.Usage.Embedding

/-!
# Definitions that drift away

The ledger of a query keeps every definition that it has been told. In the text a definition stays
as well, with three exceptions: a modifier is gone once the same modifier is set again; what is built
in a graph by itself comes into the text only if the graph is embedded afterwards, there or in a query
that hands it on; and an attached query that has no head yet may still be given a projection that
leaves the variable out. An attached query that projects everything hands on what it defines, so there
the same is asked of its own definitions. A graph is copied when it is embedded, and so are the
queries in it.
-/

namespace SparqlComposer

open SparqlComposer.Action

namespace Event

mutual

/-- At the end of the run, what the call defined in a query is not in the text of the query any more,
or has never got there. -/
inductive Drifts : Event → QueryId → Text → Prop where
  /-- A modifier, and the same modifier is set again later. -/
  | replaced {e e' : Event} {q : QueryId} {n : Text} {m : QueryMethod} {args args' : List Value}
      (hm : m.isModifier) (hcall : e.call = .query q m args) (hlater : e.Precedes e')
      (hagain : e'.call = .query q m args') (hok : e'.Succeeds) : Drifts e q n
  /-- Something built in a graph, and no later call embeds the graph where it gets into the query. -/
  | leftOut {e : Event} {q : QueryId} {n : Text} {g : GraphId} {m : PatternMethod}
      {args : List Value} (hcall : e.call = .pattern (.graph g) m args)
      (hnever : ∀ e', e.Precedes e' → ¬ e'.Enters q n g) : Drifts e q n
  /-- A query attached to the query, and in the end it withholds the variable. -/
  | withheld {e : Event} {q : QueryId} {n : Text} {inner : QueryId}
      (hcall : e.call = .query q .subquery [.object (.query inner)])
      (h : Withholds e.calls inner n) : Drifts e q n
  /-- A query attached to a graph, and whenever a later call embeds the graph where it gets into the
  query, it withholds the variable by then. -/
  | copied {e : Event} {q : QueryId} {n : Text} {g : GraphId} {inner : QueryId}
      (hcall : e.call = .graph g .subquery [.object (.query inner)])
      (h : ∀ e', e.Precedes e' → e'.Enters q n g → Withholds e'.before inner n) : Drifts e q n

/-- After the calls, a query has a projection without a variable, or it projects everything, and
whatever defined the variable in it has drifted. -/
inductive Withholds : List Call → QueryId → Text → Prop where
  | projection {calls : List Call} {q : QueryId} {n : Text}
      (h : ¬ (Session.empty.run calls).HandsOn n q) : Withholds calls q n
  | everything {calls : List Call} {q : QueryId} {n : Text}
      (hall : (((Session.empty.run calls).query q).head.getD .everything).projection = [])
      (h : ∀ e : Event, e.calls = calls → e.Defines q n → e.Drifts q n) : Withholds calls q n

end

end Event

/-! ## What a call adds -/

/-- The texts in a clause of a query. -/
def QueryPart.terms : (p : QueryPart) → p.Content → List Text
  | .head, h => (Option.getD h Head.everything).terms
  | .groupBy, es => (Option.getD es []).map Expression.text
  | .having, e => (Option.map Expression.text e).toList
  | .orderBy, e => (Option.map (fun (_, e) ↦ e.text) e).toList
  | _, _ => []

theorem Query.mem_clauseTerms_of_part {query : Query} {p : QueryPart} {t : Text}
    (ht : t ∈ p.terms (query.get p)) : t ∈ query.clauseTerms := by
  rw [clauseTerms, Modifiers.terms]
  cases p with
  | head => exact List.mem_append_left _ ht
  | groupBy => exact List.mem_append_right _ (List.mem_append_left _ (List.mem_append_left _ ht))
  | having => exact List.mem_append_right _ (List.mem_append_left _ (List.mem_append_right _ ht))
  | orderBy => exact List.mem_append_right _ (List.mem_append_right _ ht)
  | _ => cases ht

namespace Session

variable {s : Session} {q : QueryId} {n : Text} {mention : Mention}

theorem exists_term_of_mem_tripleMentions {a b c : Value} {x y z : Expression}
    (hx : a.Reads subjectKinds x) (hy : b.Reads predicateKinds y) (hz : c.Reads objectKinds z)
    {m : Mention} (hm : m ∈ tripleMentions a b c) :
    ∃ t ∈ [x.text, y.text, z.text], m = .term t := by
  rw [hx.text_eq, hy.text_eq, hz.text_eq]
  simp only [tripleMentions, List.mem_cons, List.not_mem_nil, or_false] at hm ⊢
  rcases hm with rfl | rfl | rfl
  · exact ⟨_, .inl rfl, rfl⟩
  · exact ⟨_, .inr (.inl rfl), rfl⟩
  · exact ⟨_, .inr (.inr rfl), rfl⟩

/-- What is built at a site defines its variables in the graph there. -/
theorem Builds.definesVariable {site : Site} {m : PatternMethod} {args : List Value}
    {f : Ledger → Ledger} {g : Graph → Graph} (h : s.Builds site m args f g)
    (hmention : mention ∈ s.patternMentions site m args) (hn : n ∈ mention.definedVariables)
    (graph : Graph) : ((g graph).pattern []).DefinesVariable n := by
  cases h with
  | triple hargs hx hy hz =>
      rw [patternMentions_of_triple? hargs] at hmention
      obtain ⟨t, ht, rfl⟩ := exists_term_of_mem_tripleMentions hx hy hz hmention
      exact .triple .refl (Triples.mem_terms_add_of (.inr ht)) hn
  | condition _ =>
      obtain rfl := List.mem_singleton.mp hmention
      cases hn
  | block k _ _ => cases k <;> cases hmention
  | @tripleBlock k a b c x y z hx hy hz =>
      have hmem : mention ∈ tripleMentions a b c := by cases k <;> exact hmention
      obtain ⟨t, ht, rfl⟩ := exists_term_of_mem_tripleMentions hx hy hz hmem
      have hterm : t ∈ (triplePattern (s.graphAt site).ledger x y z).tripleTerms :=
        Triples.mem_terms_add_of (.inr ht)
      exact .triple (.single ((mem_blocks_embedding k).mpr (.inr rfl))) hterm hn
  | union _ _ _ _ => cases hmention

/-- What is set in a query defines its variables in the part that is set. -/
theorem Sets.exists_term {m : QueryMethod} {args : List Value} {f : Ledger → Ledger}
    {g : Query → Query} (h : s.Sets q m args f g) {p : QueryPart} (hp : m.part? = some p)
    (hmention : mention ∈ s.queryMentions m args) (hn : n ∈ mention.definedVariables)
    (query : Query) : ∃ t ∈ p.terms ((g query).get p), n ∈ assignmentsOf t := by
  have hclauses {kinds : List Kind} {vs : List Value} {es : List Expression}
      (hes : List.Forall₂ (fun v e ↦ v.Reads kinds e) vs es)
      (hmention : mention ∈ vs.map fun v ↦ Mention.clause v.reading) :
      ∃ t ∈ es.map Expression.text, n ∈ assignmentsOf t := by
    obtain ⟨v, hv, rfl⟩ := List.mem_map.mp hmention
    obtain ⟨e, he, hreads⟩ := exists_of_forall₂_left hes hv
    refine ⟨e.text, List.mem_map_of_mem he, ?_⟩
    rw [hreads.text_eq]
    exact Names.mem_toList.mp hn
  cases h with
  | binding _ _ _ =>
      obtain rfl := List.mem_singleton.mp hmention
      cases hn
  | head hm hes _ =>
      cases m with
      | select | describe =>
          obtain rfl := Option.some.inj hp
          exact hclauses hes hmention
      | _ => cases hm
  | groupBy _ hes =>
      obtain rfl := Option.some.inj hp
      exact hclauses hes hmention
  | having he =>
      obtain rfl := Option.some.inj hp
      exact hclauses (.cons he .nil) hmention
  | orderBy _ he =>
      obtain rfl := Option.some.inj hp
      exact hclauses (.cons he .nil) hmention
  | slice _ => cases hmention

/-- What is set in a query is a modifier, its prefixes or its head. -/
theorem Sets.isModifier_or_head {m : QueryMethod} {args : List Value} {f : Ledger → Ledger}
    {g : Query → Query} (h : s.Sets q m args f g) {p : QueryPart} (hp : m.part? = some p) :
    m.isModifier ∨ p = .prefixes ∨ p = .head ∧ ∃ head, ∀ query, (g query).head = some head := by
  cases h with
  | binding _ _ _ => exact .inr (.inl (Option.some.inj hp).symm)
  | head hm _ _ =>
      cases m with
      | select _ | describe => exact .inr (.inr ⟨(Option.some.inj hp).symm, _, fun _ ↦ rfl⟩)
      | _ => cases hm
  | _ => exact .inl rfl

end Session

namespace Event

variable {e : Event} {q : QueryId} {n : Text}

/-! ## Each definition stays or drifts -/

/-- Whatever has defined a variable in a query, the text of the query defines the variable, or the
definition has drifted. The text is written after the calls, to the given depth. -/
def DefinesOrDrifts (calls : List Call) (depth : Nat) : Prop :=
  ∀ q r, (Session.empty.run calls).subqueryWithin depth q = .ok r →
    ∀ e : Event, e.calls = calls → ∀ n, e.Defines q n → r.DefinesVariable n ∨ e.Drifts q n

theorem DefinesOrDrifts.projects_or_withholds {calls : List Call} {depth : Nat}
    (h : DefinesOrDrifts calls depth) {inner : QueryId} {a : Subquery}
    (ha : (Session.empty.run calls).subqueryWithin depth inner = .ok a) (n : Text) :
    a.Projects n ∨ Withholds calls inner n := by
  by_cases hhands : (Session.empty.run calls).HandsOn n inner
  case neg => exact .inr (.projection hhands)
  by_cases hdrifts : ∀ e : Event, e.calls = calls → e.Defines inner n → e.Drifts inner n
  · rcases hhands with hn | hall
    · rw [← Session.head_of_subqueryWithin ha] at hn
      exact .inl (.inl hn)
    · exact .inr (.everything hall hdrifts)
  · push Not at hdrifts
    obtain ⟨e, he, hdefines, hstays⟩ := hdrifts
    exact .inl (hhands.projects ha ((h inner a ha e he n hdefines).resolve_right hstays))

section Cases

variable {depth : Nat} {r : Subquery}
  (hr : (Session.empty.run e.calls).subqueryWithin depth q = .ok r)

include hr

/-- What is built in a graph by itself, before the graph is embedded or left out. -/
theorem definesVariable_or_drifts_of_built {g : GraphId} {m : PatternMethod} {args : List Value}
    (hcall : e.call = .pattern (.graph g) m args)
    (hbuilt : ((e.next.graph g).pattern []).DefinesVariable n) :
    r.DefinesVariable n ∨ e.Drifts q n := by
  by_cases hnever : ∀ e', e.Precedes e' → ¬ e'.Enters q n g
  · exact .inr (.leftOut hcall hnever)
  · push Not at hnever
    obtain ⟨e', hlater, henters⟩ := hnever
    refine .inl (henters.definesVariable (fun _ ↦ ?_) (hlater.calls_eq ▸ hr))
    exact Session.definesVariable_of_pattern (hlater.changes.graphAt_extends (.graph g)) hbuilt

theorem definesVariable_of_part {p : QueryPart}
    (h : ∃ t ∈ p.terms (((Session.empty.run e.calls).query q).get p), n ∈ assignmentsOf t) :
    r.DefinesVariable n := by
  obtain ⟨_, inner, -, -, rfl⟩ := Session.subqueryWithin_eq_ok hr
  obtain ⟨t, ht, hn⟩ := h
  exact .target (Query.mem_clauseTerms_of_part ht) hn

/-- A modifier stays unless it is set again. -/
theorem definesVariable_or_drifts_of_modifier {m : QueryMethod} {args : List Value}
    (hcall : e.call = .query q m args) (hm : m.isModifier) {p : QueryPart} (hp : m.part? = some p)
    (hset : ∃ t ∈ p.terms ((e.next.query q).get p), n ∈ assignmentsOf t) :
    r.DefinesVariable n ∨ e.Drifts q n := by
  by_cases hagain : ∃ e' args', e.Precedes e' ∧ e'.call = .query q m args' ∧ e'.Succeeds
  · obtain ⟨e', args', hlater, hcall', hok⟩ := hagain
    exact .inr (.replaced hm hcall hlater hcall' hok)
  · have hstays : ((Session.empty.run e.calls).query q).get p = (e.next.query q).get p := by
      rw [run_calls]
      refine Session.get_run_of_not_isOk ?_ fun between c after hafter hc hok ↦ hagain ?_
      · rintro rfl
        obtain ⟨p, hp', hunread⟩ := QueryMethod.exists_part_of_isModifier hm
        rw [hp] at hp'
        cases hp'
        exact hunread rfl
      · obtain ⟨args', rfl⟩ := Call.eq_modifier hm hp hc
        have hsession : Session.empty.run (e.before ++ e.call :: between) = e.next.run between :=
          Session.run_append e.before (e.call :: between)
        refine ⟨⟨e.before ++ e.call :: between, .query q m args', after⟩, args',
          ⟨between, rfl, hafter⟩, rfl, ?_⟩
        rwa [Succeeds, session, hsession]
    exact .inl (definesVariable_of_part hr (hstays ▸ hset))

/-- A head stays. -/
theorem definesVariable_of_head {head : Head} (hhead : (e.next.query q).head = some head) {t : Text}
    (ht : t ∈ head.terms) (hn : n ∈ assignmentsOf t) : r.DefinesVariable n := by
  refine definesVariable_of_part hr (p := .head) ⟨t, ?_, hn⟩
  rw [Query.get, e.changes_run.head_eq hhead]
  exact ht

/-- What is set in a query: a modifier, its head, or its prefixes, which define no variable. -/
theorem definesVariable_or_drifts_of_sets {m : QueryMethod} {args : List Value}
    (hcall : e.call = .query q m args) {f : Ledger → Ledger} {g : Query → Query}
    (hsets : e.session.Sets q m args f g) (hquery : e.next.query q = g (e.session.query q))
    {mention : Mention} (hmention : mention ∈ e.session.queryMentions m args)
    (hn : n ∈ mention.definedVariables) : r.DefinesVariable n ∨ e.Drifts q n := by
  obtain ⟨p, hp⟩ := hsets.exists_part
  have hset := hsets.exists_term hp hmention hn (e.session.query q)
  rw [← hquery] at hset
  rcases hsets.isModifier_or_head hp with hm | rfl | ⟨rfl, head, hhead⟩
  · exact definesVariable_or_drifts_of_modifier hr hcall hm hp hset
  · obtain ⟨t, ht, -⟩ := hset
    cases ht
  · obtain ⟨t, ht, hn⟩ := hset
    have hhead' : (e.next.query q).head = some head := hquery ▸ hhead _
    rw [Query.get, hhead'] at ht
    exact .inl (definesVariable_of_head hr hhead' ht hn)

/-- A query that is attached to a graph by itself is copied with the graph. -/
theorem definesVariable_or_drifts_of_copied
    (hbefore : ∀ calls : List Call, calls.length < e.calls.length →
      ∀ depth, DefinesOrDrifts calls depth)
    {g : GraphId} {inner : QueryId} (hcall : e.call = .graph g .subquery [.object (.query inner)])
    (hattached : inner ∈ (e.next.graph g).subqueries) : r.DefinesVariable n ∨ e.Drifts q n := by
  by_cases hcopied : ∀ e', e.Precedes e' → e'.Enters q n g → Withholds e'.before inner n
  · exact .inr (.copied hcall hcopied)
  · push Not at hcopied
    obtain ⟨e', hlater, henters, hhands⟩ := hcopied
    have hinner := (hlater.changes.graphAt_extends (.graph g)).subqueries hattached
    refine .inl (henters.definesVariable (fun p hp ↦ ?_) (hlater.calls_eq ▸ hr))
    obtain ⟨a, ha, hra⟩ := Session.exists_subquery_of_pattern hp hinner
    -- The copy is what the query was in an earlier run, which ends where the graph is embedded.
    have hsound := hbefore e'.before hlater.length_before_lt e'.session.queries.length
    exact .subquery .refl ha ((hsound.projects_or_withholds hra n).resolve_right hhands)

end Cases

/-- A query that is attached to the query is written with it. -/
theorem definesVariable_or_drifts_of_attached {depth : Nat} {r : Subquery}
    (hinner : DefinesOrDrifts e.calls depth)
    (hr : (Session.empty.run e.calls).subqueryWithin (depth + 1) q = .ok r) {inner : QueryId}
    (hcall : e.call = .query q .subquery [.object (.query inner)])
    (hattached : e.next.Attached inner q) : r.DefinesVariable n ∨ e.Drifts q n := by
  obtain ⟨written, -, hwritten, rfl⟩ := Session.subqueryWithin_succ_eq_ok hr
  have hstays := (e.changes_run.graphAt_extends (.query q)).subqueries hattached
  obtain ⟨a, ha, hra⟩ := exists_of_forall₂_left hwritten hstays
  exact (hinner.projects_or_withholds hra n).imp (fun hn ↦ .of_body (.subquery .refl ha hn))
    (.withheld hcall)

theorem Defines.definesVariable_or_drifts {depth : Nat} {r : Subquery} (h : e.Defines q n)
    (hinner : DefinesOrDrifts e.calls depth)
    (hbefore : ∀ calls : List Call, calls.length < e.calls.length →
      ∀ depth, DefinesOrDrifts calls depth)
    (hr : (Session.empty.run e.calls).subqueryWithin (depth + 1) q = .ok r) :
    r.DefinesVariable n ∨ e.Drifts q n := by
  have hplaced := e.placed_session
  have hok : (e.session.call e.call).1.isOk := h.succeeds
  have hdoes : e.session.Does e.call e.next := (Session.atomic_call h.isSingle).of_isOk hok
  obtain ⟨site, hsite, hon, mention, hmention, hn⟩ := h.exists_mention
  have hsingle := h.isSingle
  generalize hcall : e.call = c at hdoes hsite hmention hok hsingle
  generalize hnext : e.next = s' at hdoes
  -- Only calls that build, attach or set something mention variables that they define.
  cases hdoes with
  | newLedger => cases hsite
  | newGraph _ => cases hsite
  | newSubgraph _ =>
      rw [Session.mentions_query (by decide) hok] at hmention
      cases hmention
  | @builds site' m args f g hheld hbuilds =>
      rw [Session.mentions, if_pos hok] at hmention
      have hbuilt : ((e.next.graphAt site').pattern []).DefinesVariable n := by
        rw [hnext, Session.graphAt_built_self hheld]
        exact hbuilds.definesVariable hmention hn _
      cases site' with
      | graph id => exact definesVariable_or_drifts_of_built hr hcall hbuilt
      | query id =>
          obtain rfl := Option.some.inj hsite
          obtain rfl := (Session.isOn_query_iff hplaced hheld).mp hon
          refine .inl (Session.definesVariable_of_graph hr ?_)
          exact (e.changes_run.graphAt_extends (.query q)).definesVariable hbuilt []
  | @graphAttaches id inner hheld _ =>
      refine definesVariable_or_drifts_of_copied hr hbefore hcall ?_
      change inner ∈ (e.next.graphAt (.graph id)).subqueries
      rw [hnext, Session.attached, Session.graphAt_built_self hheld]
      exact List.mem_append_right _ (List.mem_singleton_self _)
  | @queryAttaches id inner hheld _ =>
      obtain rfl := Option.some.inj hsite
      obtain rfl := (Session.isOn_query_iff hplaced hheld).mp hon
      refine definesVariable_or_drifts_of_attached hinner hr hcall ?_
      rw [Session.Attached, ← Session.graphAt_query, hnext, Session.attached,
        Session.graphAt_built_self hheld]
      exact List.mem_append_right _ (List.mem_singleton_self _)
  | @sets id m args f g hheld hsets =>
      obtain rfl := Option.some.inj hsite
      obtain rfl := (Session.isOn_query_iff hplaced hheld).mp hon
      rw [Session.mentions_query (by rintro rfl; cases hsingle) hok] at hmention
      refine definesVariable_or_drifts_of_sets hr hcall hsets ?_ hmention hn
      rw [hnext, Session.query_settled_self hheld]
  | renders _ _ => cases hmention
  | @asks id m hasks args =>
      rw [Session.mentions_query (by rintro rfl; cases hsingle) hok,
        Session.queryMentions_of_asks hasks] at hmention
      cases hmention
  | validation _ => cases hsite

/-- By induction on the number of calls, since graphs are copied before the end of the run, and then on
the depth to which queries are written. -/
theorem definesOrDrifts (calls : List Call) (depth : Nat) : DefinesOrDrifts calls depth := by
  induction hlength : calls.length using Nat.strongRecOn generalizing calls depth with
  | ind length hshorter =>
      subst hlength
      induction depth with
      | zero =>
          intro q r hr
          cases hr
      | succ depth hinner =>
          rintro q r hr e rfl n h
          exact h.definesVariable_or_drifts hinner
            (fun calls' hlt depth' ↦ hshorter _ hlt calls' depth' rfl) hr

end Event

end SparqlComposer
