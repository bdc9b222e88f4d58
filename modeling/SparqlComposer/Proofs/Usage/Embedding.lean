import SparqlComposer.Proofs.Usage.Definition
import SparqlComposer.Proofs.Usage.Event

/-!
# Graphs that get into a query

A graph is embedded as it stands: what is built in it later is not in the text that it was put into.
So a graph comes into the text of a query when it is embedded in the query itself, or in another graph
that gets there afterwards; or else in a query that is attached there, but then the attached query has
to hand on what the graph defines. What a graph defines when it comes into the text of a query like
this is defined there for good.
-/

namespace SparqlComposer

open SparqlComposer.Action

/-- A method embeds a graph when it is given the graph as a block, or among the members of a union. -/
inductive PatternMethod.Embeds (g : GraphId) : PatternMethod → List Value → Prop where
  | present : Embeds g .filterExists [.object (.graph g)]
  | absent : Embeds g .filterNotExists [.object (.graph g)]
  | optional : Embeds g .optional [.object (.graph g)]
  | member {args : List Value} (hg : .object (.graph g) ∈ args) : Embeds g .union args

namespace Session

open Relation

/-- A query hands a variable on to what it is attached to: it projects the variable, or everything. -/
def HandsOn (s : Session) (n : Text) (q : QueryId) : Prop :=
  let head := (s.query q).head.getD .everything
  n ∈ head.projected ∨ head.projection = []

/-- A query is another one, or is attached to it, or to one that is attached to it, and so on, and all
of them but the outermost hand a variable on. -/
def HandsOnTo (s : Session) (n : Text) : QueryId → QueryId → Prop :=
  ReflTransGen fun inner outer ↦ s.Attached inner outer ∧ s.HandsOn n inner

end Session

/-- A call embeds a graph where a variable that it defines gets into the text of a query. -/
inductive Event.Enters (q : QueryId) (n : Text) : Event → GraphId → Prop where
  /-- In the query, or in one that in the end hands the variable on to it. -/
  | query {e : Event} {x : QueryId} {g : GraphId} {m : PatternMethod} {args : List Value}
      (hcall : e.call = .pattern (.query x) m args) (hm : m.Embeds g args) (hok : e.Succeeds)
      (hx : (Session.empty.run e.calls).HandsOnTo n x q) : Enters q n e g
  /-- In a graph that a later call embeds there in turn. -/
  | graph {e e' : Event} {g outer : GraphId} {m : PatternMethod} {args : List Value}
      (hcall : e.call = .pattern (.graph outer) m args) (hm : m.Embeds g args) (hok : e.Succeeds)
      (hlater : e.Precedes e') (h : Enters q n e' outer) : Enters q n e g
  /-- In a query that hands the variable on to such a graph by then. -/
  | copied {e e' : Event} {x inner : QueryId} {g outer : GraphId} {m : PatternMethod}
      {args : List Value} (hcall : e.call = .pattern (.query x) m args) (hm : m.Embeds g args)
      (hok : e.Succeeds) (hlater : e.Precedes e') (hx : e'.session.HandsOnTo n x inner)
      (hinner : inner ∈ (e'.session.graph outer).subqueries) (hn : e'.session.HandsOn n inner)
      (h : Enters q n e' outer) : Enters q n e g

theorem Action.mem_of_members {ids : List GraphId} {args : List Value} {g : GraphId}
    (hids : members args = .ok ids) (hg : .object (.graph g) ∈ args) : g ∈ ids := by
  induction args generalizing ids with
  | nil => cases hg
  | cons v vs ih =>
      unfold members at hids
      split at hids
      · rename_i heq
        cases heq
      · rename_i id vs' heq
        obtain ⟨rfl, rfl⟩ := List.cons.inj heq
        obtain ⟨ids', hids', h⟩ := Except.bind_eq_ok_iff.mp hids
        obtain rfl := Except.pure_eq_ok_iff.mp h
        rcases List.mem_cons.mp hg with heq | hg
        · obtain rfl : g = id := by simpa using heq
          exact List.mem_cons_self
        · exact List.mem_cons_of_mem id (ih hids' hg)
      · cases hids

namespace Session

variable {s : Session} {site : Site} {m : PatternMethod} {args : List Value} {id : GraphId}

/-- An embedded graph is a block with the pattern that it has at the time. -/
theorem Builds.exists_block {f : Ledger → Ledger} {g : Graph → Graph}
    (h : s.Builds site m args f g) (hm : m.Embeds id args) (graph : Graph) :
    ∃ p, s.pattern (s.graph id) = .ok p ∧ p ∈ ((g graph).pattern []).blocks := by
  cases h with
  | triple hargs _ _ _ => cases hm <;> simp [triple?] at hargs
  | condition _ => cases hm
  | @block k _ p _ hp =>
      refine ⟨p, ?_, (mem_blocks_embedding k).mpr (.inr rfl)⟩
      cases k <;> cases hm <;> exact hp
  | tripleBlock k _ _ _ => cases k <;> cases hm
  | @union _ ids ps hids _ _ hps =>
      cases hm with
      | member hg =>
          obtain ⟨p, hp, hpattern⟩ :=
            exists_of_forall₂_left (Except.mapM_eq_ok_iff.mp hps) (mem_of_members hids hg)
          exact ⟨p, hpattern, mem_blocks_addUnion.mpr (.inr hp)⟩

/-- When a graph is completed, it defines what an earlier state of it defined without its queries. -/
theorem definesVariable_of_pattern {graph : Graph} {p : Pattern} {n : Text}
    (h : graph.Extends (s.graph id)) (hn : (graph.pattern []).DefinesVariable n)
    (hp : s.pattern (s.graph id) = .ok p) : p.DefinesVariable n := by
  obtain ⟨inner, -, hpure⟩ := Except.bind_eq_ok_iff.mp hp
  obtain rfl := Except.pure_eq_ok_iff.mp hpure
  exact h.definesVariable hn inner

theorem exists_block_of_isOk (hm : m.Embeds id args)
    (hok : (s.call (.pattern site m args)).1.isOk) : ∃ p, s.pattern (s.graph id) = .ok p ∧
      p ∈ (((s.call (.pattern site m args)).2.graphAt site).pattern []).blocks := by
  have hdoes := (atomic_call (s := s) (c := .pattern site m args) rfl).of_isOk hok
  generalize (s.call (.pattern site m args)).2 = s' at hdoes ⊢
  cases hdoes with
  | builds hsite h =>
      rw [graphAt_built_self hsite]
      exact h.exists_block hm _

section Written

variable {q inner : QueryId} {n : Text} {depth : Nat} {r a : Subquery}

theorem head_of_subqueryWithin (h : s.subqueryWithin depth q = .ok r) :
    r.head = (s.query q).head.getD .everything := by
  obtain ⟨_, inner, -, -, rfl⟩ := subqueryWithin_eq_ok h
  rfl

theorem HandsOn.projects (h : s.HandsOn n inner) (ha : s.subqueryWithin depth inner = .ok a)
    (hn : a.DefinesVariable n) : a.Projects n := by
  rw [HandsOn, ← head_of_subqueryWithin ha] at h
  exact h.imp_right fun hall ↦ ⟨hall, hn⟩

theorem definesVariable_of_graph (hr : s.subqueryWithin depth q = .ok r)
    (hn : ((s.query q).graph.pattern []).DefinesVariable n) : r.DefinesVariable n := by
  obtain ⟨_, inner, -, -, rfl⟩ := subqueryWithin_eq_ok hr
  exact .of_body ((Graph.Extends.refl _).definesVariable hn inner)

/-- A variable that is handed on from query to query is defined in all of them. -/
theorem HandsOnTo.definesVariable (h : s.HandsOnTo n inner q)
    (hn : ((s.query inner).graph.pattern []).DefinesVariable n)
    (hr : s.subqueryWithin depth q = .ok r) : r.DefinesVariable n := by
  induction h generalizing depth r with
  | refl => exact definesVariable_of_graph hr hn
  | tail _ hstep ih =>
      obtain ⟨hattached, hhands⟩ := hstep
      obtain ⟨_, written, -, hwritten, rfl⟩ := subqueryWithin_eq_ok hr
      obtain ⟨a, ha, hra⟩ := exists_of_forall₂_left hwritten hattached
      exact .of_body (.subquery .refl ha (hhands.projects hra (ih hra)))

/-- A query that is attached to a graph is completed with it. -/
theorem exists_subquery_of_pattern {graph : Graph} {p : Pattern} (hp : s.pattern graph = .ok p)
    (hinner : inner ∈ graph.subqueries) :
    ∃ a ∈ p.subqueries, s.subquery inner = .ok a := by
  obtain ⟨written, hwritten, hpure⟩ := Except.bind_eq_ok_iff.mp hp
  obtain rfl := Except.pure_eq_ok_iff.mp hpure
  exact exists_of_forall₂_left (Except.mapM_eq_ok_iff.mp hwritten) hinner

end Written

end Session

namespace Event

variable {e : Event} {q : QueryId} {g : GraphId} {n : Text}

/-- A call that embeds a graph somewhere leaves a block there that defines what the graph defines. -/
theorem definesVariable_of_embeds {site : Site} {m : PatternMethod} {args : List Value}
    (hcall : e.call = .pattern site m args) (hm : m.Embeds g args) (hok : e.Succeeds)
    (hn : ∀ p, e.session.pattern (e.session.graph g) = .ok p → p.DefinesVariable n) :
    ((e.next.graphAt site).pattern []).DefinesVariable n := by
  rw [Succeeds, hcall] at hok
  obtain ⟨p, hp, hblock⟩ := Session.exists_block_of_isOk hm hok
  rw [← hcall] at hblock
  exact (hn p hp).of_block hblock

/-- What a graph defines when a call embeds it where it gets into a query is defined in the query, when
that is written at the end of the run. -/
theorem Enters.definesVariable (h : e.Enters q n g)
    (hn : ∀ p, e.session.pattern (e.session.graph g) = .ok p → p.DefinesVariable n) {depth : Nat}
    {r : Subquery} (hr : (Session.empty.run e.calls).subqueryWithin depth q = .ok r) :
    r.DefinesVariable n := by
  induction h with
  | @query e x g m args hcall hm hok hx =>
      have hblock := definesVariable_of_embeds hcall hm hok hn
      exact hx.definesVariable
        ((e.changes_run.graphAt_extends (.query x)).definesVariable hblock []) hr
  | @graph e e' g outer m args hcall hm hok hlater _ ih =>
      have hblock := definesVariable_of_embeds hcall hm hok hn
      refine ih (fun _ ↦ ?_) (hlater.calls_eq ▸ hr)
      exact Session.definesVariable_of_pattern (hlater.changes.graphAt_extends (.graph outer)) hblock
  | @copied e e' x inner g outer m args hcall hm hok hlater hx hinner hhands _ ih =>
      have hblock := definesVariable_of_embeds hcall hm hok hn
      have hthen := (hlater.changes.graphAt_extends (.query x)).definesVariable hblock []
      refine ih (fun p hp ↦ ?_) (hlater.calls_eq ▸ hr)
      obtain ⟨a, ha, hra⟩ := Session.exists_subquery_of_pattern hp hinner
      exact .subquery .refl ha (hhands.projects hra (hx.definesVariable hthen hra))

end Event

end SparqlComposer
