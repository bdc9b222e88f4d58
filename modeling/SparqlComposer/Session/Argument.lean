import SparqlComposer.Session.Action
import SparqlComposer.Session.Text

/-!
# Arguments

Where a call asks for an expression, the argument is read as one of the kinds that may stand there.
-/

namespace SparqlComposer.Action

/-- The expression that an argument is, of one of the kinds. -/
def expression (kinds : List Kind) (v : Value) : Action Expression := do
  ofResult (classify (← get).objectText kinds v)

def expressions (kinds : List Kind) : List Value → Action (List Expression)
  | [] => return []
  | v :: vs => return (← expression kinds v) :: (← expressions kinds vs)

/-- The arguments, or the items of a list or tuple that is the only argument. -/
def unpacked : List Value → List Value
  | [v] => v.sequence?.getD [v]
  | vs => vs

def subjectKinds : List Kind := [.var, .prefixedIri]

def predicateKinds : List Kind := [.var, .path]

def objectKinds : List Kind := [.var, .prefixedIri, .native]

def conditionKinds : List Kind := [.function]

/-- The kinds of what is projected, and of what solutions are grouped by. -/
def projectionKinds : List Kind := [.var, .assignment]

def describedKinds : List Kind := [.var, .iri, .prefixedIri, .assignment]

/-- The kinds of what solutions are ordered by. -/
def orderKinds : List Kind := [.var, .function]

end SparqlComposer.Action
