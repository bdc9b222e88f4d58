import SparqlComposer.Expression.Capture
import SparqlComposer.Expression.Function
import SparqlComposer.Expression.Path

/-!
# Expressions

An expression is a text with its kind and the names it mentions. A text is of a kind when the
whole of it is; of several kinds, the first in the order of definition is taken.
-/

namespace SparqlComposer

namespace Kind

/-- Whether a text without tabs has the form of the kind, brackets apart. -/
def hasForm : Kind → Text → Except Error Bool
  | var, t => .ok (afterVariable? t == some [])
  | iri, t => .ok (afterIri? t == some [])
  | prefixName, t => .ok (afterWord? t == some [])
  | prefixedIri, t => .ok (afterPrefixedIri? t == some [])
  | native, t => .ok (isNative t)
  | path, t => .ok (isPath t)
  | function, t => isFunctionCall t
  | assignment, t => isFunctionAssignment t

/-- Whether the whole text is an expression of the kind. No expression has blanks at its ends,
tokens have none at all, and calls have balanced brackets. -/
def admits (k : Kind) (t : Text) : Except Error Bool :=
  if isPadded t then .ok false
  else if k.isToken && t.any isBlank then .ok false
  else return (← k.hasForm (expandTabs t)) && (!k.isCall || isBalanced t)

def firstAdmitting? (t : Text) : List Kind → Except Error (Option Kind)
  | [] => .ok none
  | k :: ks => do if ← k.admits t then return some k else firstAdmitting? t ks

end Kind

/-- A text, its kind, and the names it mentions: the variables it refers to, the prefixes it uses,
and the targets of its assignments. -/
structure Expression where
  text : Text
  kind : Kind
  references : Names
  prefixes : Names
  assignments : Names
  deriving DecidableEq

namespace Expression

/-- A text of a kind, with the names captured from it. The name of a prefix stands for itself
and mentions nothing. -/
def ofKind (kind : Kind) (t : Text) : Expression :=
  if kind = .prefixName then ⟨t, kind, ∅, ∅, ∅⟩
  else ⟨t, kind, variablesOf t, prefixesOf t, assignmentsOf t⟩

/-- The expression that a text is, as the first of the allowed kinds that admits it. -/
def ofText? (kinds : List Kind) (t : Text) : Except Error (Option Expression) :=
  return (← Kind.firstAdmitting? t (Kind.inOrder kinds)).map (ofKind · t)

@[simp] theorem text_ofKind (kind : Kind) (t : Text) : (ofKind kind t).text = t := by
  unfold ofKind
  split <;> rfl

@[simp] theorem kind_ofKind (kind : Kind) (t : Text) : (ofKind kind t).kind = kind := by
  unfold ofKind
  split <;> rfl

end Expression

end SparqlComposer
