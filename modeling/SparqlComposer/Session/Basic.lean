import SparqlComposer.Query
import SparqlComposer.Value.Classify

/-!
# Sessions

A session holds all ledgers, graphs and queries. They refer to each other by their places, so a
change of a query is seen wherever the query is contained, and graphs share ledgers.
-/

namespace SparqlComposer

/-- All objects, and whether queries are validated when they are written. -/
structure Session where
  ledgers : List Ledger := []
  graphs : List Graph := []
  queries : List Query := []
  validates : Bool := true

/-- A place where a graph pattern is built: a graph by itself, or the graph of a query. -/
inductive Site where
  | graph (id : GraphId)
  | query (id : QueryId)
  deriving DecidableEq

namespace Session

/-! ## Reading -/

def ledger (s : Session) (id : LedgerId) : Ledger := s.ledgers.getD id {}

def graph (s : Session) (id : GraphId) : Graph := s.graphs.getD id { ledger := 0 }

def query (s : Session) (id : QueryId) : Query := s.queries.getD id { graph := { ledger := 0 } }

/-- Whether a ledger belongs to a query. -/
def isOwned (s : Session) (id : LedgerId) : Bool := s.queries.any (·.graph.ledger == id)

/-- Whether the session holds an object for its callers. The ledger of a query is entered into
through the query and its graphs only, and never handed out. -/
def holds (s : Session) : Ref → Bool
  | .ledger id => id < s.ledgers.length && !s.isOwned id
  | .graph id => id < s.graphs.length
  | .query id => id < s.queries.length

def graphAt (s : Session) : Site → Graph
  | .graph id => s.graph id
  | .query id => (s.query id).graph

def queryLedger (s : Session) (id : QueryId) : Ledger := s.ledger (s.query id).graph.ledger

/-! ## Writing -/

def modifyLedger (s : Session) (id : LedgerId) (f : Ledger → Ledger) : Session :=
  { s with ledgers := s.ledgers.modify id f }

def modifyGraph (s : Session) (id : GraphId) (f : Graph → Graph) : Session :=
  { s with graphs := s.graphs.modify id f }

def modifyQuery (s : Session) (id : QueryId) (f : Query → Query) : Session :=
  { s with queries := s.queries.modify id f }

def modifyGraphAt (s : Session) (site : Site) (f : Graph → Graph) : Session :=
  match site with
  | .graph id => s.modifyGraph id f
  | .query id => s.modifyQuery id fun q ↦ { q with graph := f q.graph }

/-! ## What is written survives -/

@[simp] theorem ledger_modifyLedger_self (s : Session) {id : LedgerId} (f : Ledger → Ledger)
    (h : id < s.ledgers.length) : (s.modifyLedger id f).ledger id = f (s.ledger id) := by
  simp [ledger, modifyLedger, List.getD, h]

theorem ledger_modifyLedger_of_ne (s : Session) {id other : LedgerId} (f : Ledger → Ledger)
    (h : id ≠ other) : (s.modifyLedger id f).ledger other = s.ledger other := by
  simp [ledger, modifyLedger, List.getD, h]

@[simp] theorem query_modifyQuery_self (s : Session) {id : QueryId} (f : Query → Query)
    (h : id < s.queries.length) : (s.modifyQuery id f).query id = f (s.query id) := by
  simp [query, modifyQuery, List.getD, h]

theorem query_modifyQuery_of_ne (s : Session) {id other : QueryId} (f : Query → Query)
    (h : id ≠ other) : (s.modifyQuery id f).query other = s.query other := by
  simp [query, modifyQuery, List.getD, h]

end Session

end SparqlComposer
