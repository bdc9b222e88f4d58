import SparqlComposer.Graph
import SparqlComposer.Ledger

/-!
# Queries

A query consists of prefixes, a head, a graph and modifiers. Its names are entered into the ledger
of its graph.
-/

namespace SparqlComposer

/-- A query under construction. -/
structure Query where
  graph : Graph
  prefixes : OrderedMap Text Text := ∅
  head : Option Head := none
  modifiers : Modifiers := {}

namespace Query

def declaration (name iri : Text) : Text :=
  "PREFIX ".toList ++ name ++ ": <".toList ++ iri ++ ['>']

def declarations (q : Query) : List Text :=
  q.prefixes.entries.map fun (name, iri) ↦ declaration name iri

/-- The query as part of another one, when its graph has the given pattern. -/
def subquery (q : Query) (body : Pattern) : Subquery :=
  .mk q.prefixes (q.head.getD .everything) body q.modifiers

/-- The variables that a query hands to an enclosing one: those of its projection, and when it
projects everything, all that its ledger defines. -/
def projectedVariables (q : Query) (l : Ledger) : List Entry :=
  let head := q.head.getD .everything
  if head.projection.isEmpty then l.definedVariables.toList
  else head.projected.map Entry.ofName

end Query

end SparqlComposer
