import SparqlComposer.Proofs.Reading.RoundTrip
import SparqlComposer.Proofs.Session.Outcome

/-!
# How graphs stay plain

A graph by itself becomes anything but plain only by a condition or a query that is put into it, or
into a graph that it takes as a block. As long as no call does so, all graphs are plain, and what a
graph holds can be told from its text.
-/

namespace SparqlComposer

namespace Graph

variable {g : Graph}

theorem isPlain_iff : g.isPlain ↔ g.subqueries = [] ∧ (∀ p ∈ g.optionals, p.isPlain) ∧
    (∀ c ∈ g.constraints, c.isPlain) ∧ ∀ ps ∈ g.unions, ∀ p ∈ ps, p.isPlain := by
  rw [isPlain, Bool.and_eq_true, List.isEmpty_iff, pattern, Pattern.isPlain_mk]
  simp

theorem isPlain_embedding (h : g.isPlain) {p : Pattern} (hp : p.isPlain) (k : Embedding) :
    (k.add p g).isPlain := by
  obtain ⟨hsubqueries, hoptionals, hconstraints, hunions⟩ := isPlain_iff.mp h
  have hconstraint (c : Constraint) (hc : c.isPlain) : (g.addConstraint c).isPlain := by
    refine isPlain_iff.mpr ⟨hsubqueries, hoptionals, fun c' hc' ↦ ?_, hunions⟩
    rcases List.mem_append.mp hc' with hc' | hc'
    · exact hconstraints c' hc'
    · rw [List.mem_singleton.mp hc']
      exact hc
  cases k with
  | present => exact hconstraint _ (by simpa [Constraint.isPlain] using hp)
  | absent => exact hconstraint _ (by simpa [Constraint.isPlain] using hp)
  | optional =>
      refine isPlain_iff.mpr ⟨hsubqueries, fun p' hp' ↦ ?_, hconstraints, hunions⟩
      rcases List.mem_append.mp hp' with hp' | hp'
      · exact hoptionals p' hp'
      · rw [List.mem_singleton.mp hp']
        exact hp

theorem isPlain_addUnion (h : g.isPlain) {ps : List Pattern} (hps : ∀ p ∈ ps, p.isPlain) :
    (g.addUnion ps).isPlain := by
  obtain ⟨hsubqueries, hoptionals, hconstraints, hunions⟩ := isPlain_iff.mp h
  refine isPlain_iff.mpr ⟨hsubqueries, hoptionals, hconstraints, fun qs hqs ↦ ?_⟩
  rcases List.mem_append.mp hqs with hqs | hqs
  · exact hunions qs hqs
  · rw [List.mem_singleton.mp hqs]
    exact hps

end Graph

/-- The calls that put a condition or a query into a graph by itself. -/
def Call.complicates : Call → Bool
  | .pattern (.graph _) .filter _ | .graph _ .subquery _ => true
  | _ => false

namespace Session

variable {s s' : Session} {c : Call}

def AllPlain (s : Session) : Prop := ∀ g, (s.graph g).isPlain

theorem allPlain_empty : empty.AllPlain := by
  intro g
  simp [graph, empty, Graph.isPlain, Graph.pattern, Pattern.isPlain_mk]

theorem AllPlain.of_graphs_eq (h : s.AllPlain) (hgraphs : s'.graphs = s.graphs) :
    s'.AllPlain := by
  intro g
  rw [graph, hgraphs]
  exact h g

theorem AllPlain.withGraph (h : s.AllPlain) (ledger : LedgerId) :
    (s.withGraph ledger).AllPlain := by
  intro g
  change ((s.withGraph ledger).graphAt (.graph g)).isPlain
  rw [graphAt_withGraph]
  split
  · simp [Graph.isPlain, Graph.pattern, Pattern.isPlain_mk]
  · exact h g

theorem AllPlain.pattern (h : s.AllPlain) {id : GraphId} {p : Pattern}
    (hp : s.pattern (s.graph id) = .ok p) : p.isPlain := by
  have hplain := h id
  rw [Graph.isPlain, Bool.and_eq_true, List.isEmpty_iff] at hplain
  rw [Session.pattern, hplain.1] at hp
  obtain rfl := Except.ok.inj hp
  exact hplain.2

theorem AllPlain.builds (h : s.AllPlain) {id : GraphId} {m : PatternMethod} {args : List Value}
    {f : Ledger → Ledger} {g : Graph → Graph} (hfg : s.Builds (.graph id) m args f g)
    (hm : m ≠ .filter) : (g (s.graph id)).isPlain := by
  cases hfg with
  | triple _ _ _ _ => exact h id
  | condition _ => exact absurd rfl hm
  | block k _ hp => exact Graph.isPlain_embedding (h id) (h.pattern hp) k
  | tripleBlock k _ _ _ =>
      refine Graph.isPlain_embedding (h id) ?_ k
      simp [triplePattern, Graph.pattern, Graph.addTriple, Pattern.isPlain_mk]
  | union _ _ _ hps =>
      refine Graph.isPlain_addUnion (h id) fun p hmem ↦ ?_
      obtain ⟨id', -, hp⟩ := exists_of_forall₂_right (Except.mapM_eq_ok_iff.mp hps) hmem
      exact h.pattern hp

theorem AllPlain.does (h : s.AllPlain) (hdoes : s.Does c s') (hc : ¬ c.complicates) :
    s'.AllPlain := by
  cases hdoes with
  | newGraph _ => exact h.withGraph _
  | newSubgraph _ => exact h.withGraph _
  | @builds site m args f g hsite hfg =>
      cases site with
      | query id => exact h.of_graphs_eq rfl
      | graph id =>
          intro g'
          by_cases heq : g' = id
          · subst heq
            have hself := graphAt_built_self (f := f) (g := g) hsite
            change ((s.built (.graph g') f g).graphAt (.graph g')).isPlain
            rw [hself]
            refine h.builds hfg ?_
            rintro rfl
            exact hc rfl
          · have hother : Site.graph g' ≠ .graph id := fun h ↦ heq (Site.graph.inj h)
            change ((s.built (.graph id) f g).graphAt (.graph g')).isPlain
            rw [graphAt_built_of_ne hother]
            exact h g'
  | graphAttaches _ _ => exact absurd rfl hc
  | _ => exact h.of_graphs_eq rfl

theorem AllPlain.call (h : s.AllPlain) (hc : ¬ c.complicates) : (s.call c).2.AllPlain := by
  by_cases hsingle : c.isSingle
  · by_cases hok : (s.call c).1.isOk
    · exact h.does ((atomic_call hsingle).of_isOk hok) hc
    · rw [(atomic_call hsingle).session_eq_of_not_isOk hok]
      exact h
  · refine keeps_call hsingle h ?_ ?_ ?_
    · exact fun id f ↦ h.of_graphs_eq rfl
    · exact h.of_graphs_eq rfl
    · exact fun s₁ id name iri f g _ _ hplain ↦ hplain.of_graphs_eq rfl

/-- Where no call puts a condition or a query into a graph by itself, all graphs are plain. -/
theorem isPlain_run {calls : List Call} (h : ∀ c ∈ calls, ¬ c.complicates) :
    (empty.run calls).AllPlain := by
  have hrun (s : Session) (hs : s.AllPlain) : (s.run calls).AllPlain := by
    induction calls generalizing s with
    | nil => exact hs
    | cons c calls ih =>
        have hc := h c List.mem_cons_self
        exact ih (fun c' hc' ↦ h c' (List.mem_cons_of_mem c hc')) _ (hs.call hc)
  exact hrun empty allPlain_empty

/-- Where no call puts a condition or a query into a graph by itself, graphs are written alike exactly
when they hold the same, in one run or in two. -/
theorem render_eq_iff_content_eq {calls calls' : List Call} {g g' : GraphId}
    (h : ∀ c ∈ calls, ¬ c.complicates) (h' : ∀ c ∈ calls', ¬ c.complicates)
    (hg : (empty.run calls).holds (.graph g)) (hg' : (empty.run calls').holds (.graph g')) :
    ((empty.run calls).call (.graph g .render [])).1 =
        ((empty.run calls').call (.graph g' .render [])).1 ↔
      ((empty.run calls).graph g).content = ((empty.run calls').graph g').content := by
  have hplain := isPlain_run h g
  have hplain' := isPlain_run h' g'
  rw [call_render_of_isPlain hg hplain, call_render_of_isPlain hg' hplain']
  constructor
  · intro htext
    have hread := Reachable.ofText?_text ⟨calls, rfl⟩ hplain
    rw [Answer.text.inj (Except.ok.inj htext), Reachable.ofText?_text ⟨calls', rfl⟩ hplain'] at hread
    exact (Option.some.inj hread).symm
  · intro hcontent
    have htext := congrArg Pattern.text hcontent
    rw [Graph.content, Graph.content, Pattern.text_erased, Pattern.text_erased] at htext
    rw [htext]

end Session

end SparqlComposer
