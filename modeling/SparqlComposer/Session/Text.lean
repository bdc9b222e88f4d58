import SparqlComposer.Session.Basic

/-!
# The texts of graphs and queries

To be written, a graph or a query is completed first: every query in it is looked up, and its
ledger validated when the session asks for that. A query is validated before the queries in it,
and these one after the other.
-/

namespace SparqlComposer.Session

def check (s : Session) (l : Ledger) : Except Error Unit :=
  if s.validates then l.validate else .ok ()

/-- A query as part of another one, with all that is nested in it at the given depth or less. -/
def subqueryWithin (s : Session) : (depth : Nat) → QueryId → Except Error Subquery
  | 0, _ => .error .endlessNesting
  | depth + 1, id => do
      s.check (s.queryLedger id)
      let inner ← (s.query id).graph.subqueries.mapM (s.subqueryWithin depth)
      return (s.query id).subquery ((s.query id).graph.pattern inner)

def subquery (s : Session) (id : QueryId) : Except Error Subquery :=
  s.subqueryWithin s.queries.length id

/-- The pattern of a graph as it stands. -/
def pattern (s : Session) (g : Graph) : Except Error Pattern := do
  return g.pattern (← g.subqueries.mapM s.subquery)

def queryText (s : Session) (id : QueryId) (withPrefixes : Bool) : Except Error Text := do
  let q ← s.subquery id
  return spaced ((if withPrefixes then (s.query id).declarations else []) ++ q.texts)

def graphText (s : Session) (id : GraphId) : Except Error Text :=
  return (← s.pattern (s.graph id)).text

/-- The text that an object stands for in a message. -/
def objectText (s : Session) : Ref → Except Error Text
  | .ledger _ => .ok ('<' :: (Ref.ledger 0).typeName ++ ['>'])
  | .graph id => s.graphText id
  | .query id => s.queryText id true

end SparqlComposer.Session
