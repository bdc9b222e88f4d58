import SparqlComposer.Session.Declaration

/-!
# New objects

New objects go to the end of those of their sort, so the places of the others stay the same.
-/

namespace SparqlComposer.Action

def newLedger : Action LedgerId := do
  let id := (← get).ledgers.length
  modify fun s ↦ { s with ledgers := s.ledgers ++ [{}] }
  return id

def newGraph (ledger : LedgerId) : Action GraphId := do
  let id := (← get).graphs.length
  modify fun s ↦ { s with graphs := s.graphs ++ [{ ledger }] }
  return id

/-- A new query, with the prefixes of a collection; null stands for none. -/
def newQuery (prefixes : Value) : Action QueryId := atomically do
  let ledger ← newLedger
  let id := (← get).queries.length
  modify fun s ↦ { s with queries := s.queries ++ [{ graph := { ledger } }] }
  match prefixes with
  | .null => pure ()
  | collection => bindPrefixes id collection
  return id

theorem newQuery_of_ne_null {prefixes : Value} (h : prefixes ≠ .null) :
    newQuery prefixes = atomically do
      let ledger ← newLedger
      let id := (← get).queries.length
      modify fun s ↦ { s with queries := s.queries ++ [{ graph := { ledger } }] }
      bindPrefixes id prefixes
      return id := by
  cases prefixes with
  | null => exact absurd rfl h
  | _ => rfl

/-- A new query that starts with the prefixes of another one. -/
def newSubquery (id : QueryId) : Action QueryId := do
  let entries := ((← get).query id).prefixes.entries
  newQuery (.mapping (entries.map fun (name, iri) ↦ (.text name, .text iri)))

/-- A new graph that shares the ledger of a query. -/
def newSubgraph (id : QueryId) : Action GraphId := do
  newGraph ((← get).query id).graph.ledger

end SparqlComposer.Action
