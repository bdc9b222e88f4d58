import SparqlComposer.Error
import SparqlComposer.Expression.Token
import SparqlComposer.Literal

/-!
# Terms

A term is a variable, an IRI, a literal, a blank node, or a property path over terms. Terms are
given to a query as values and are read as the text they have in N3; messages show them by their
label. A sequence inside a sequence, or an alternative inside an alternative, counts as its parts.
-/

namespace SparqlComposer

/-- How often an element of a path is followed. -/
inductive Repetition where
  | zeroOrMore
  | oneOrMore
  | zeroOrOne
  deriving DecidableEq

def Repetition.mark : Repetition → Char
  | zeroOrMore => '*'
  | oneOrMore => '+'
  | zeroOrOne => '?'

/-- A variable, an IRI, a literal, a blank node, or a property path over terms. -/
inductive Term where
  | var (name : Text)
  | iri (iri : Text)
  | literal (content : Text) (tag : LiteralTag)
  | blank (label : Text)
  | sequence (parts : List Term)
  | alternative (parts : List Term)
  | inverse (operand : Term)
  | negated (operand : Term)
  | repeated (operand : Term) (repetition : Repetition)

namespace Term

/-- The variable of a name that may be written with its mark. -/
def ofVariable : Text → Term
  | '?' :: name => var name
  | name => var name

/-! ## Terms in N3 -/

mutual

/-- The number of parts of a term that is joined from parts; any other term is one part. -/
def width : Term → Nat
  | sequence ts => sequenceWidth ts
  | alternative ts => alternativeWidth ts
  | _ => 1

def sequenceWidth : List Term → Nat
  | [] => 0
  | sequence us :: ts => sequenceWidth us + sequenceWidth ts
  | _ :: ts => 1 + sequenceWidth ts

def alternativeWidth : List Term → Nat
  | [] => 0
  | alternative us :: ts => alternativeWidth us + alternativeWidth ts
  | _ :: ts => 1 + alternativeWidth ts

end

/-- The text of a term inside another one: in parentheses when it has several parts. -/
def enclose (t : Term) (text : Text) : Text :=
  if 1 < t.width then '(' :: text ++ [')'] else text

mutual

def n3 : Term → Text
  | var name => '?' :: name
  | iri i => '<' :: i ++ ['>']
  | literal content tag => Literal.n3 content tag
  | blank label => '_' :: ':' :: label
  | sequence ts => joinWith ['/'] (sequenceN3 ts)
  | alternative ts => joinWith ['|'] (alternativeN3 ts)
  | inverse t => '^' :: t.enclose t.n3
  | negated (alternative ts) => '!' :: '(' :: joinWith ['|'] (alternativeN3 ts) ++ [')']
  | negated t => '!' :: '(' :: t.enclose t.n3 ++ [')']
  | repeated t repetition => t.enclose t.n3 ++ [repetition.mark]

def sequenceN3 : List Term → List Text
  | [] => []
  | sequence us :: ts => sequenceN3 us ++ sequenceN3 ts
  | t :: ts => t.enclose t.n3 :: sequenceN3 ts

def alternativeN3 : List Term → List Text
  | [] => []
  | alternative us :: ts => alternativeN3 us ++ alternativeN3 ts
  | t :: ts => t.enclose t.n3 :: alternativeN3 ts

end

/-- The characters that keep an IRI from being written between angle brackets. -/
def unwritableChars : List Char := ' ' :: iriDelimiters

def isWritable (i : Text) : Bool := i.all (· ∉ unwritableChars)

mutual

def iris : Term → List Text
  | iri i => [i]
  | var _ | literal _ _ | blank _ => []
  | sequence ts => allIris ts
  | alternative ts => allIris ts
  | inverse t => t.iris
  | negated t => t.iris
  | repeated t _ => t.iris

def allIris : List Term → List Text
  | [] => []
  | t :: ts => t.iris ++ allIris ts

end

/-- The text by which a query takes a term. A blank node has none, since its label would pass for
a prefixed name. -/
def text? : Term → Except Error (Option Text)
  | blank _ => .ok none
  | t =>
      match t.iris.find? (!isWritable ·) with
      | some i => .error (.unwritableIri i)
      | none => .ok (some t.n3)

/-! ## Labels -/

mutual

def label : Term → Text
  | var name => name
  | iri i => i
  | literal content _ => content
  | blank label => label
  | sequence ts => "Path(".toList ++ joinWith " / ".toList (sequenceLabels ts) ++ [')']
  | alternative ts => "Path(".toList ++ joinWith " | ".toList (alternativeLabels ts) ++ [')']
  | inverse t => "Path(~".toList ++ t.label ++ [')']
  | negated (alternative ts) =>
      "Path(! ".toList ++ joinWith [','] (alternativeLabels ts) ++ [')']
  | negated t => "Path(! ".toList ++ t.label ++ [')']
  | repeated t repetition => "Path(".toList ++ t.label ++ [repetition.mark, ')']

def sequenceLabels : List Term → List Text
  | [] => []
  | sequence us :: ts => sequenceLabels us ++ sequenceLabels ts
  | t :: ts => t.label :: sequenceLabels ts

def alternativeLabels : List Term → List Text
  | [] => []
  | alternative us :: ts => alternativeLabels us ++ alternativeLabels ts
  | t :: ts => t.label :: alternativeLabels ts

end

/-- Whether a term is no path, so that it may stand for its label where a text is asked for. -/
def isSimple : Term → Bool
  | var _ | iri _ | literal _ _ | blank _ => true
  | sequence _ | alternative _ | inverse _ | negated _ | repeated _ _ => false

end Term

end SparqlComposer
