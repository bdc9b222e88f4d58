import SparqlComposer.Session.Basic

/-!
# Queries in queries

A query contains the queries in its graph, and those that they contain. When no query contains
itself, nesting is never deeper than there are queries, so a search to that depth finds all.
-/

namespace SparqlComposer.Session

/-- Whether a query contains another one, at the given depth or less. -/
def containsWithin (s : Session) : (depth : Nat) → (outer target : QueryId) → Bool
  | 0, _, _ => false
  | depth + 1, outer, target =>
      (s.query outer).graph.subqueries.any fun inner ↦
        inner == target || s.containsWithin depth inner target

def contains (s : Session) (outer target : QueryId) : Bool :=
  s.containsWithin s.queries.length outer target

end SparqlComposer.Session
