import SparqlComposer.Proofs.OrderedMap
import SparqlComposer.Proofs.Prefix.Noted
import SparqlComposer.Proofs.Session.Nesting
import SparqlComposer.Proofs.Usage.Validation

/-!
# Where variables are defined

A variable is defined in a written query by a triple, by an assignment in a clause, or by a query
inside. In the graph of a query under construction, or in a graph by itself, whatever defines a
variable stays: triples, blocks and queries are only added. The head of a query is set once.
-/

namespace SparqlComposer

open SparqlComposer.Action

namespace Pattern

def tripleTerms : Pattern → List Text
  | .mk _ _ triples _ _ _ => triples.terms

/-- The conditions that stand in a pattern itself. -/
def conditionTerms : Pattern → List Text
  | .mk _ _ _ _ constraints _ =>
      (constraints.filterMap Constraint.condition?).map Expression.text

end Pattern

namespace Subquery

def head : Subquery → Head
  | .mk _ head _ _ => head

/-- A variable is captured from a clause of a query or from a condition in its graph. -/
def UsesVariable (r : Subquery) (n : Text) : Prop :=
  ∃ t ∈ r.clauseTerms ++ r.body.conditionTerms, n ∈ variablesOf t

/-- A variable is defined in a written query: it is a term of a triple in its pattern or a block of
that, the target of an assignment in a clause, or projected by a query in one of these patterns. A
query that projects everything projects what it defines itself. -/
inductive DefinesVariable : Subquery → Text → Prop where
  | triple {r : Subquery} {n t : Text} {b : Pattern} (hblock : r.body.HasBlock b)
      (ht : t ∈ b.tripleTerms) (hvar : Kind.var.admits t = .ok true) (hn : n ∈ variablesOf t) :
      DefinesVariable r n
  | target {r : Subquery} {n t : Text} (ht : t ∈ r.clauseTerms) (hn : n ∈ assignmentsOf t) :
      DefinesVariable r n
  | projected {r a : Subquery} {n : Text} {b : Pattern} (hblock : r.body.HasBlock b)
      (ha : a ∈ b.subqueries) (hn : n ∈ a.head.projected) : DefinesVariable r n
  | everything {r a : Subquery} {n : Text} {b : Pattern} (hblock : r.body.HasBlock b)
      (ha : a ∈ b.subqueries) (hall : a.head.projection = []) (hn : DefinesVariable a n) :
      DefinesVariable r n

/-- A query hands a variable to the one that it stands in: it projects the variable, or everything
and defines it. -/
def Projects (a : Subquery) (n : Text) : Prop :=
  n ∈ a.head.projected ∨ a.head.projection = [] ∧ a.DefinesVariable n

end Subquery

namespace Pattern

/-- A variable is defined in a pattern or a block of it, by a triple there or a query there. -/
inductive DefinesVariable (p : Pattern) (n : Text) : Prop where
  | triple {b : Pattern} {t : Text} (hblock : p.HasBlock b) (ht : t ∈ b.tripleTerms)
      (hn : n ∈ (Mention.term t).definedVariables)
  | subquery {b : Pattern} {a : Subquery} (hblock : p.HasBlock b) (ha : a ∈ b.subqueries)
      (hn : a.Projects n)

theorem DefinesVariable.of_block {p b : Pattern} {n : Text} (h : b.DefinesVariable n)
    (hb : b ∈ p.blocks) : p.DefinesVariable n := by
  cases h with
  | triple hblock ht hn => exact .triple (.head hb hblock) ht hn
  | subquery hblock ha hn => exact .subquery (.head hb hblock) ha hn

end Pattern

theorem Subquery.DefinesVariable.of_body {r : Subquery} {n : Text}
    (h : r.body.DefinesVariable n) : r.DefinesVariable n := by
  cases h with
  | triple hblock ht hn =>
      obtain ⟨hvar, hn⟩ := Mention.mem_definedVariables_term.mp hn
      exact .triple hblock ht hvar hn
  | subquery hblock ha hn =>
      rcases hn with hn | ⟨hall, hn⟩
      · exact .projected hblock ha hn
      · exact .everything hblock ha hall hn

/-! ## What stays in a graph -/

/-- A graph has all the triples, blocks and queries that another one has. -/
structure Graph.Extends (g g' : Graph) : Prop where
  triples : g.triples.terms ⊆ g'.triples.terms
  blocks : (g.pattern []).blocks ⊆ (g'.pattern []).blocks
  subqueries : g.subqueries ⊆ g'.subqueries

namespace Graph.Extends

variable {g g' g'' : Graph} {n : Text}

theorem refl (g : Graph) : g.Extends g where
  triples := List.Subset.refl _
  blocks := List.Subset.refl _
  subqueries := List.Subset.refl _

theorem trans (h : g.Extends g') (h' : g'.Extends g'') : g.Extends g'' where
  triples _ ht := h'.triples (h.triples ht)
  blocks _ hb := h'.blocks (h.blocks hb)
  subqueries _ hq := h'.subqueries (h.subqueries hq)

/-- A graph in which nothing has been built is part of every graph. -/
theorem of_new (ledger : LedgerId) (g : Graph) : Graph.Extends { ledger } g where
  triples _ ht := nomatch ht
  blocks _ hb := nomatch hb
  subqueries _ hq := nomatch hq

/-- What a graph defines without its queries goes on being defined, with whatever queries. -/
theorem definesVariable (h : g.Extends g') (hn : (g.pattern []).DefinesVariable n)
    (inner : List Subquery) : (g'.pattern inner).DefinesVariable n := by
  cases hn with
  | triple hblock ht hn =>
      rcases Relation.ReflTransGen.cases_head_iff.mp hblock with rfl | ⟨b, hb, hrest⟩
      · exact .triple .refl (h.triples ht) hn
      · exact .triple (.head (h.blocks hb) hrest) ht hn
  | subquery hblock ha hn =>
      rcases Relation.ReflTransGen.cases_head_iff.mp hblock with rfl | ⟨b, hb, hrest⟩
      · cases ha
      · exact .subquery (.head (h.blocks hb) hrest) ha hn

end Graph.Extends

theorem Triples.mem_terms_iff_find? {ts : Triples} {t : Text} : t ∈ ts.terms ↔
    ∃ s ps, ts.find? s = some ps ∧
      (t = s ∨ ∃ p os, ps.find? p = some os ∧ (t = p ∨ t ∈ os)) := by
  simp [mem_terms, OrderedMap.mem_entries_iff]

/-- What was there stays when a triple is added, and the triple is there. -/
theorem Triples.mem_terms_add_of {ts : Triples} {x y z t : Text}
    (h : t ∈ ts.terms ∨ t ∈ [x, y, z]) : t ∈ (ts.add x y z).terms := by
  rw [mem_terms_iff_find?] at h ⊢
  rcases h with ⟨s, ps, hs, h⟩ | h
  · by_cases hx : s = x
    · subst hx
      refine ⟨s, _, by rw [add, OrderedMap.find?_alter, if_pos rfl, hs], ?_⟩
      rcases h with rfl | ⟨p, os, hp, h⟩
      · exact .inl rfl
      refine .inr ?_
      by_cases hy : p = y
      · subst hy
        refine ⟨p, _, by rw [Option.getD_some, OrderedMap.find?_alter, if_pos rfl, hp], ?_⟩
        exact h.imp_right (List.mem_append_left _)
      · exact ⟨p, os, by rw [Option.getD_some, OrderedMap.find?_alter, if_neg hy, hp], h⟩
    · exact ⟨s, ps, by rw [add, OrderedMap.find?_alter, if_neg hx, hs], h⟩
  · refine ⟨x, _, by rw [add, OrderedMap.find?_alter, if_pos rfl], ?_⟩
    simp only [List.mem_cons, List.not_mem_nil, or_false] at h
    refine h.imp_right fun h ↦ ⟨y, _, by rw [OrderedMap.find?_alter, if_pos rfl], ?_⟩
    exact h.imp_right fun h ↦ List.mem_append_right _ (List.mem_singleton.mpr h)

theorem Embedding.extends (k : Embedding) (p : Pattern) (g : Graph) : g.Extends (k.add p g) := by
  refine ⟨?_, fun b hb ↦ (mem_blocks_embedding k).mpr (.inl hb), ?_⟩
  · cases k <;> exact fun _ ↦ id
  · cases k <;> exact fun _ ↦ id

theorem Building.extends {s : Session} {site : Site} {f : Ledger → Ledger} {g : Graph → Graph}
    (h : Building s site f g) (graph : Graph) : graph.Extends (g graph) := by
  cases h with
  | triple _ _ _ => exact ⟨fun _ ht ↦ Triples.mem_terms_add_of (.inl ht), fun _ ↦ id, fun _ ↦ id⟩
  | condition _ => exact ⟨fun _ ↦ id, fun b hb ↦ mem_blocks_addCondition.mpr hb, fun _ ↦ id⟩
  | block k _ _ => exact k.extends _ graph
  | tripleBlock k _ _ _ => exact k.extends _ graph
  | union _ _ _ => exact ⟨fun _ ↦ id, fun b hb ↦ mem_blocks_addUnion.mpr (.inl hb), fun _ ↦ id⟩
  | subquery _ _ => exact ⟨fun _ ↦ id, fun _ ↦ id, fun _ hq ↦ List.mem_append_left _ hq⟩

namespace Session

variable {s s' : Session}

theorem graphAt_eq_of_not_holds {site : Site} (h : ¬ s.holds site.object) :
    s.graphAt site = { ledger := 0 } := by
  cases site with
  | graph id =>
      have hle : s.graphs.length ≤ id := Nat.le_of_not_lt (mt holds_graph_iff.mpr h)
      simp [graphAt, graph, List.getElem?_eq_none hle]
  | query id =>
      rw [graphAt_query, query_eq_of_length_le (Nat.le_of_not_lt (mt holds_query_iff.mpr h))]

/-- Whatever is changed, a graph keeps what has been built in it. -/
theorem Change.graphAt_extends (h : s.Change s') (site : Site) :
    (s.graphAt site).Extends (s'.graphAt site) := by
  by_cases hsite : s.holds site.object
  case neg =>
    rw [graphAt_eq_of_not_holds hsite]
    exact .of_new 0 _
  cases h with
  | newGraph _ =>
      rw [graphAt_withGraph, if_neg]
      · exact .refl _
      · rintro rfl
        exact absurd (holds_graph_iff.mp hsite) (Nat.lt_irrefl _)
  | newQuery =>
      rw [graphAt_withQuery, if_neg]
      · exact .refl _
      · rintro rfl
        exact absurd (holds_query_iff.mp hsite) (Nat.lt_irrefl _)
  | @building other hother f g hfg =>
      by_cases heq : site = other
      · subst heq
        rw [graphAt_built_self hother]
        exact hfg.extends _
      · rw [graphAt_built_of_ne heq]
        exact .refl _
  | setting hid hfg =>
      rw [graphAt_settled hid hfg]
      exact .refl _
  | newLedger | entries _ _ _ | validation _ =>
      cases site <;> exact .refl _

theorem Changes.graphAt_extends (h : s.Changes s') (site : Site) :
    (s.graphAt site).Extends (s'.graphAt site) := by
  induction h with
  | refl => exact .refl _
  | tail _ hchange ih => exact ih.trans (hchange.graphAt_extends site)

end Session

end SparqlComposer
