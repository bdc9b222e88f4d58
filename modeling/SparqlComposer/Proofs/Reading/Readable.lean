import SparqlComposer.Proofs.Prefix.Building
import SparqlComposer.Proofs.Reading.Structure
import SparqlComposer.Proofs.Session.Outcome

/-!
# All that is built can be read

Whatever is asked of a session, every graph holds patterns that can be read: a triple goes into its
group with terms of the right kinds, a block has been built before, and a union has members.
-/

namespace SparqlComposer

open SparqlComposer.Action

namespace Graph

variable {g : Graph}

/-- Whether the pattern of a graph can be read does not depend on the queries in it. -/
theorem readable_pattern (inner : List Subquery) (h : (g.pattern []).Readable) :
    (g.pattern inner).Readable := by
  cases h with
  | mk htriples hunions hblocks => exact .mk htriples hunions hblocks

theorem readable_new (ledger : LedgerId) : (({ ledger } : Graph).pattern []).Readable :=
  .mk Triples.readable_empty (fun _ h ↦ nomatch h) fun _ h ↦ nomatch h

theorem readable_triplePattern (ledger : LedgerId) {x y z : Expression} (hx : x.IsOf subjectKinds)
    (hy : y.IsOf predicateKinds) (hz : z.IsOf objectKinds) :
    (triplePattern ledger x y z).Readable :=
  .mk (Triples.readable_empty.add hx.isTermOf hy.isTermOf hz.isTermOf) (fun _ h ↦ nomatch h)
    fun _ h ↦ nomatch h

end Graph

theorem Building.readable_triples {s : Session} {site : Site} {f : Ledger → Ledger}
    {g : Graph → Graph} (hfg : Building s site f g) {graph : Graph} (h : graph.triples.Readable) :
    (g graph).triples.Readable := by
  rcases hfg.triples_eq with heq | ⟨x, y, z, hx, hy, hz, heq⟩
  · rw [heq]
    exact h
  · rw [heq]
    exact h.add hx.isTermOf hy.isTermOf hz.isTermOf

namespace Session

variable {s : Session}

theorem readable_of_pattern (h : ∀ site, ((s.graphAt site).pattern []).Readable) {id : GraphId}
    {p : Pattern} (hp : s.pattern (s.graph id) = .ok p) : p.Readable := by
  obtain ⟨inner, -, hpure⟩ := Except.bind_eq_ok_iff.mp hp
  obtain rfl := Except.pure_eq_ok_iff.mp hpure
  exact Graph.readable_pattern inner (h (.graph id))

/-- What is built into a graph can be read, as the graph and all others could before. -/
theorem readable_of_building (h : ∀ site, ((s.graphAt site).pattern []).Readable) {site : Site}
    {f : Ledger → Ledger} {g : Graph → Graph} (hfg : Building s site f g) :
    ((g (s.graphAt site)).pattern []).Readable := by
  cases h site with
  | mk htriples hunions hblocks =>
      refine .mk (hfg.readable_triples htriples) (fun ps hps ↦ ?_) fun b hb ↦ ?_
      · rcases hfg.ne_nil_of_mem_unions hps with hps | hne
        · exact hunions ps hps
        · exact hne
      · rcases hfg.mem_blocks hb with hb | ⟨id, hp⟩ | ⟨x, y, z, hx, hy, hz, rfl⟩
        · exact hblocks b hb
        · exact readable_of_pattern h hp
        · exact Graph.readable_triplePattern _ hx hy hz

theorem Reachable.readable (h : s.Reachable) (site : Site) :
    ((s.graphAt site).pattern []).Readable :=
  h.forall_graphAt (P := fun g ↦ (g.pattern []).Readable) Graph.readable_new
    (fun _ _ _ _ hall hfg ↦ readable_of_building hall hfg) site

end Session

end SparqlComposer
