import SparqlComposer.Expression.Path

/-!
# The grammar of property paths

    path    ::= element (('/' | '|') element)*
    element ::= '!'? '^'? primary ('?' | '*' | '+')?
    primary ::= name ':' name | '<' iri '>' | 'a' | 'A' | '(' path ')'

A name is a nonempty run of word characters, and an IRI a nonempty run of the characters that it can
hold. A path is told by its tree; the trees of one text need not be compared, since the text is read
in one way only.
-/

namespace SparqlComposer

/-- A nonempty run of characters of a class. -/
structure Run (inClass : Char → Bool) where
  text : Text
  ne_nil : text ≠ []
  inClass_of_mem : ∀ c ∈ text, inClass c

/-- What joins the elements of a path. -/
inductive PathJoint where
  | sequence
  | alternative

def PathJoint.mark : PathJoint → Char
  | sequence => '/'
  | alternative => '|'

/-- How often an element of a path is followed. -/
inductive PathRepetition where
  | atMostOnce
  | anyTimes
  | atLeastOnce

def PathRepetition.mark : PathRepetition → Char
  | atMostOnce => '?'
  | anyTimes => '*'
  | atLeastOnce => '+'

mutual

inductive PropertyPath where
  | element (e : PathElement)
  | joined (e : PathElement) (joint : PathJoint) (p : PropertyPath)

inductive PathElement where
  | mk (negated inverted : Bool) (primary : PathPrimary) (repetition : Option PathRepetition)

inductive PathPrimary where
  | prefixed (name localName : Run isWord)
  | bracketed (iri : Run isIriChar)
  /-- The keyword for the type of a node, `a` or `A`. -/
  | type (capital : Bool)
  | group (p : PropertyPath)

end

/-- A mark that may be there. -/
def optionalMark (c : Char) (present : Bool) : Text := if present then [c] else []

mutual

def PropertyPath.text : PropertyPath → Text
  | .element e => e.text
  | .joined e joint p => e.text ++ joint.mark :: p.text

def PathElement.text : PathElement → Text
  | .mk negated inverted primary repetition =>
      optionalMark '!' negated ++ (optionalMark '^' inverted ++
        (primary.text ++ (repetition.map PathRepetition.mark).toList))

def PathPrimary.text : PathPrimary → Text
  | .prefixed name localName => name.text ++ ':' :: localName.text
  | .bracketed iri => '<' :: (iri.text ++ ['>'])
  | .type capital => if capital then ['A'] else ['a']
  | .group p => '(' :: (p.text ++ [')'])

end

end SparqlComposer
