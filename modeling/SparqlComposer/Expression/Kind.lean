import SparqlComposer.Text.Basic

/-!
# Kinds of expressions

Every text handed to a query is one of eight kinds. Where an expression may stand is said by the
set of kinds that is allowed there; the kinds of a set are tried in the order of definition.
-/

namespace SparqlComposer

inductive Kind where
  | var
  | iri
  | prefixName
  | prefixedIri
  | native
  | path
  | function
  | assignment
  deriving DecidableEq

namespace Kind

/-- All kinds, in the order in which they are tried. -/
def all : List Kind :=
  [var, iri, prefixName, prefixedIri, native, path, function, assignment]

theorem mem_all (k : Kind) : k ∈ all := by cases k <;> decide

/-- The kinds that stand for a term when nothing else is said. -/
def terms : List Kind := [var, iri, prefixedIri]

def inOrder (kinds : List Kind) : List Kind := all.filter (· ∈ kinds)

theorem mem_inOrder {k : Kind} {kinds : List Kind} : k ∈ inOrder kinds ↔ k ∈ kinds := by
  simp [inOrder, mem_all]

def description : Kind → Text
  | var => "variable".toList
  | iri => "IRI".toList
  | prefixName => "prefix".toList
  | prefixedIri => "prefixed IRI".toList
  | native => "native".toList
  | path => "path".toList
  | function => "function".toList
  | assignment => "function with variable assignment".toList

/-- The kinds that never contain blanks. -/
def isToken : Kind → Bool
  | var | iri | prefixName | prefixedIri | path => true
  | native | function | assignment => false

/-- The kinds in which anything may follow the head, as long as the brackets are balanced. -/
def isCall : Kind → Bool
  | function | assignment => true
  | var | iri | prefixName | prefixedIri | native | path => false

end Kind

end SparqlComposer
