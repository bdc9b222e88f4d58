import SparqlComposer.Expression
import SparqlComposer.Value.Label

/-!
# Values as expressions

Where an expression is asked for, a value is read by its text. Terms have theirs in N3, and a value
without a text is no expression of any kind.
-/

namespace SparqlComposer

/-- The expression that a value is. The value must be of one of the kinds, and the first that
admits it is taken. -/
def classify (objectText : Ref → Except Error Text) (kinds : List Kind) (v : Value) :
    Except Error Expression := do
  match ← v.expressionText? with
  | none => throw (.invalidExpression (← v.label objectText) (Kind.inOrder kinds))
  | some t =>
      match ← Expression.ofText? kinds t with
      | some e => return e
      | none => throw (.invalidExpression (← v.label objectText) (Kind.inOrder kinds))

end SparqlComposer
