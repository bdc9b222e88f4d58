import SparqlComposer.Proofs.Triple.Grouping
import SparqlComposer.Proofs.Usage.Mention
import SparqlComposer.Proofs.Session.Outcome

/-!
# The triples that calls add

A graph holds the triples of the calls that succeeded there and nothing else, grouped by subject
and predicate. What a call leaves out of a triple it takes from the last one that was added, so a
call that fails in between makes no difference.
-/

namespace SparqlComposer

open SparqlComposer.Action

/-- The terms of the triple that a method adds when the last triple has the given subject and
predicate. -/
def PatternMethod.triple? (current : Option (Text × Text)) :
    PatternMethod → List Value → Option (Value × Value × Value)
  | addTriple, [a, b, c] => some (a, b, c)
  | continueTriple, args => continued? current args
  | _, _ => none

/-- The triple that a call adds at a site when it succeeds there after those of a history. -/
def Call.triple? (site : Site) (h : Triples.History) : Call → Option (Text × Text × Text)
  | pattern site' m args =>
      if site' = site then
        (m.triple? (h.getLast?.map Triples.pair) args).map fun (a, b, c) ↦
          (a.reading, b.reading, c.reading)
      else none
  | _ => none

namespace Session

/-- The triples of a history and the one that a call adds to them, if it succeeds. -/
def recorded (s : Session) (site : Site) (h : Triples.History) (c : Call) : Triples.History :=
  if (s.call c).1.isOk then h ++ (c.triple? site h).toList else h

/-- The triples that are added at a site by the calls that succeed, one after the other. -/
def triplesAdded (site : Site) (s : Session) (h : Triples.History) : List Call → Triples.History
  | [] => h
  | c :: cs => triplesAdded site (s.call c).2 (s.recorded site h c) cs

end Session

/-! ## Graphs with a history -/

/-- A graph holds the triples of a history, of which it continues the last one. -/
structure Graph.Holds (g : Graph) (h : Triples.History) : Prop where
  triples : g.triples.Holds h
  current : g.current = h.getLast?.map Triples.pair

namespace Graph.Holds

variable {g g' : Graph} {h : Triples.History}

theorem congr (hg : g.Holds h) (htriples : g'.triples = g.triples)
    (hcurrent : g'.current = g.current) : g'.Holds h :=
  ⟨htriples ▸ hg.triples, hcurrent ▸ hg.current⟩

theorem addTriple (hg : g.Holds h) (s p o : Text) :
    (g.addTriple s p o).Holds (h ++ [(s, p, o)]) := by
  refine ⟨hg.triples.add s p o, ?_⟩
  rw [List.getLast?_append, List.getLast?_singleton]
  rfl

end Graph.Holds

namespace Session

variable {s s' : Session} {site : Site} {h : Triples.History} {c : Call}

theorem triple?_eq (m : PatternMethod) (args : List Value) :
    s.triple? site m args = m.triple? (s.graphAt site).current args := by
  cases m <;> rfl

/-- What a method builds at a site is the triple that its arguments tell, or leaves the triples. -/
theorem Builds.holds {m : PatternMethod} {args : List Value} {f : Ledger → Ledger}
    {g : Graph → Graph} (hfg : s.Builds site m args f g) (hgraph : (s.graphAt site).Holds h) :
    (g (s.graphAt site)).Holds (h ++ ((Call.pattern site m args).triple? site h).toList) := by
  have hkeep {g' : Graph} {added : Option (Text × Text × Text)} (hnone : added = none)
      (htriples : g'.triples = (s.graphAt site).triples)
      (hcurrent : g'.current = (s.graphAt site).current) : g'.Holds (h ++ added.toList) := by
    rw [hnone, Option.toList_none, List.append_nil]
    exact hgraph.congr htriples hcurrent
  rw [Call.triple?, if_pos rfl, ← hgraph.current, ← triple?_eq]
  cases hfg with
  | triple hargs hx hy hz =>
      rw [hargs, hx.text_eq, hy.text_eq, hz.text_eq]
      exact hgraph.addTriple _ _ _
  | condition _ => exact hkeep rfl rfl rfl
  | block k _ _ | tripleBlock k _ _ _ => cases k <;> exact hkeep rfl rfl rfl
  | union _ _ _ _ => exact hkeep rfl rfl rfl

theorem holds_graphAt_withGraph {ledger : LedgerId} (hgraph : (s.graphAt site).Holds h) :
    ((s.withGraph ledger).graphAt site).Holds h := by
  rw [graphAt_withGraph]
  split
  · rename_i heq
    have hnew : s.graphAt site = { ledger := 0 } := by simp [heq, graphAt, graph]
    rw [hnew] at hgraph
    exact hgraph.congr rfl rfl
  · exact hgraph

theorem holds_graphAt_withQuery (hgraph : (s.graphAt site).Holds h) :
    (s.withQuery.graphAt site).Holds h := by
  rw [graphAt_withQuery]
  split
  · rename_i heq
    have hnew : s.graphAt site = { ledger := 0 } := by simp [heq, query]
    rw [hnew] at hgraph
    exact hgraph.congr rfl rfl
  · exact hgraph

theorem holds_graphAt_built_of_ne {other : Site} {f : Ledger → Ledger} {g : Graph → Graph}
    (hne : site ≠ other) (hgraph : (s.graphAt site).Holds h) :
    ((s.built other f g).graphAt site).Holds h := by
  rwa [graphAt_built_of_ne hne]

theorem holds_graphAt_attached {other : Site} {q : QueryId} (hother : s.holds other.object)
    (hgraph : (s.graphAt site).Holds h) : ((s.attached other q).graphAt site).Holds h := by
  rw [attached]
  by_cases heq : site = other
  · subst heq
    rw [graphAt_built_self hother]
    exact hgraph.congr rfl rfl
  · exact holds_graphAt_built_of_ne heq hgraph

/-! ## One call -/

theorem Does.holds (hdoes : s.Does c s') (hgraph : (s.graphAt site).Holds h) :
    (s'.graphAt site).Holds (h ++ (c.triple? site h).toList) := by
  have hkeep (hnone : c.triple? site h = none) (hsame : (s'.graphAt site).Holds h) :
      (s'.graphAt site).Holds (h ++ (c.triple? site h).toList) := by
    rwa [hnone, Option.toList_none, List.append_nil]
  cases hdoes with
  | newLedger => exact hkeep rfl hgraph
  | newGraph _ => exact hkeep rfl (holds_graphAt_withGraph hgraph)
  | newSubgraph _ => exact hkeep rfl (holds_graphAt_withGraph hgraph)
  | @builds other m args f g hother hbuilds =>
      by_cases heq : other = site
      · subst heq
        rw [graphAt_built_self hother]
        exact hbuilds.holds hgraph
      · apply hkeep
        · rw [Call.triple?, if_neg heq]
        · exact holds_graphAt_built_of_ne (Ne.symm heq) hgraph
  | graphAttaches hid _ => exact hkeep rfl (holds_graphAt_attached hid hgraph)
  | queryAttaches hid _ => exact hkeep rfl (holds_graphAt_attached hid hgraph)
  | sets hid hsets =>
      apply hkeep rfl
      rwa [graphAt_settled hid hsets.setting]
  | renders _ _ => exact hkeep rfl hgraph
  | asks _ _ _ => exact hkeep rfl hgraph
  | validation _ => exact hkeep rfl hgraph

theorem triple?_of_not_isSingle (hc : ¬ c.isSingle) : c.triple? site h = none := by
  cases c with
  | pattern _ _ _ => exact absurd rfl hc
  | _ => rfl

/-- A call adds to the graph at a site what it is recorded to add. -/
theorem holds_call (hgraph : (s.graphAt site).Holds h) (c : Call) :
    ((s.call c).2.graphAt site).Holds (s.recorded site h c) := by
  rw [recorded]
  by_cases hc : c.isSingle
  · have hatomic := atomic_call (s := s) hc
    split
    · rename_i hok
      exact (hatomic.of_isOk hok).holds hgraph
    · rename_i hok
      rwa [hatomic.session_eq_of_not_isOk hok]
  · rw [triple?_of_not_isSingle hc, Option.toList_none, List.append_nil, ite_self]
    refine keeps_call (P := fun s' ↦ (s'.graphAt site).Holds h) hc hgraph ?_ ?_ ?_
    · exact fun _ _ ↦ hgraph
    · exact holds_graphAt_withQuery hgraph
    · intro s' id name iri f g hid hsets hgraph'
      rwa [graphAt_settled hid hsets.setting]

/-! ## All calls -/

theorem holds_run (hgraph : (s.graphAt site).Holds h) (cs : List Call) :
    ((s.run cs).graphAt site).Holds (triplesAdded site s h cs) := by
  induction cs generalizing s h with
  | nil => exact hgraph
  | cons c cs ih => exact ih (holds_call hgraph c)

/-- After any calls, whether they succeed or fail, the triples of a graph are those that were added
by the calls that succeeded there, in the stable order by their subjects and predicates. -/
theorem toList_triples_run (site : Site) (calls : List Call) :
    ((empty.run calls).graphAt site).triples.toList =
      Triples.grouped (triplesAdded site empty [] calls) := by
  have hempty : (empty.graphAt site).Holds [] := by
    rw [graphAt_empty]
    exact ⟨Triples.holds_empty, rfl⟩
  exact Triples.toList_eq_grouped (holds_run hempty calls).triples

end Session

end SparqlComposer
