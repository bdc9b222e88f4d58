import SparqlComposer.Clause.Keyword
import SparqlComposer.Expression

/-!
# Clauses

The head of a query says what is projected, and its modifiers what is done with the solutions.
Each is written in a fixed place, however it was built.
-/

namespace SparqlComposer

/-- The form of a query and what it projects; an empty projection stands for everything. -/
structure Head where
  form : Form
  uniqueness : Option Uniqueness
  projection : List Expression

namespace Head

/-- The head of a query to which none was given: everything is selected. -/
def everything : Head := ⟨.select, none, []⟩

def text (h : Head) : Text :=
  spaced (h.form.keyword :: (h.uniqueness.map Uniqueness.keyword).toList ++
    if h.projection.isEmpty then [['*']] else h.projection.map Expression.text)

/-- The variables that the projection names, in order: those that stand for themselves, and the
targets of assignments. -/
def projected (h : Head) : List Text :=
  h.projection.flatMap fun e ↦
    (if e.kind = .var then e.references.toList else []) ++ e.assignments.toList

end Head

/-- What is done with the solutions of a query. Each modifier is there once at most. -/
structure Modifiers where
  groupBy : Option (List Expression) := none
  having : Option Expression := none
  orderBy : Option (Direction × Expression) := none
  limit : Option Nat := none
  offset : Option Nat := none

namespace Modifiers

def bracketed (e : Expression) : Text := '(' :: e.text ++ [')']

def sliceText (slice : Slice) (count : Nat) : Text :=
  slice.keyword ++ ' ' :: Nat.toDigits 10 count

/-- The texts of the modifiers that are there, in their fixed order. -/
def texts (m : Modifiers) : List Text :=
  (m.groupBy.map fun es ↦ "GROUP BY ".toList ++ spaced (es.map Expression.text)).toList ++
    (m.having.map fun e ↦ "HAVING ".toList ++ bracketed e).toList ++
    (m.orderBy.map fun (d, e) ↦
      "ORDER BY ".toList ++ d.keyword ++ ' ' :: bracketed e).toList ++
    (m.limit.map (sliceText .limit)).toList ++
    (m.offset.map (sliceText .offset)).toList

def setSlice (m : Modifiers) (count : Nat) : Slice → Modifiers
  | .limit => { m with limit := some count }
  | .offset => { m with offset := some count }

end Modifiers

end SparqlComposer
