import SparqlComposer.Pattern

/-!
# Graphs

A graph is a graph pattern that is still being built. It enters names into a ledger, it may hold
queries that go on changing, and it remembers the subject and predicate of the last triple.
Whatever else is put into it is complete from then on.
-/

namespace SparqlComposer

/-- The place of a graph in the session. -/
abbrev GraphId := Nat

abbrev QueryId := Nat

structure Graph where
  ledger : LedgerId
  triples : Triples := ∅
  subqueries : List QueryId := []
  optionals : List Pattern := []
  constraints : List Constraint := []
  unions : List (List Pattern) := []
  /-- The subject and predicate of the triple that was added last. -/
  current : Option (Text × Text) := none

namespace Graph

/-- Adds a triple, which can be continued from now on. -/
def addTriple (g : Graph) (subject predicate object : Text) : Graph :=
  { g with
    triples := g.triples.add subject predicate object
    current := some (subject, predicate) }

def addSubquery (g : Graph) (q : QueryId) : Graph :=
  { g with subqueries := g.subqueries ++ [q] }

def addOptional (g : Graph) (p : Pattern) : Graph :=
  { g with optionals := g.optionals ++ [p] }

def addConstraint (g : Graph) (c : Constraint) : Graph :=
  { g with constraints := g.constraints ++ [c] }

def addUnion (g : Graph) (members : List Pattern) : Graph :=
  { g with unions := g.unions ++ [members] }

/-- The pattern of a graph, when its queries are written as given. -/
def pattern (g : Graph) (subqueries : List Subquery) : Pattern :=
  .mk g.ledger subqueries g.triples g.optionals g.constraints g.unions

end Graph

end SparqlComposer
