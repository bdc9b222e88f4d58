import SparqlComposer.Clause.Keyword
import SparqlComposer.Expression.Kind

/-!
# What can go wrong

The causes for which a call fails, and the message of each. A call that is malformed in itself,
such as one with too many arguments, has a cause without a message.
-/

namespace SparqlComposer

/-- The causes for which a call fails. -/
inductive Error where
  /-- The candidate is no expression of the kinds allowed where it was given. -/
  | invalidExpression (candidate : Text) (kinds : List Kind)
  /-- A function name was written with a letter that has no plain lower-case form. -/
  | unknownFunction (name : Text)
  | unwritableIri (iri : Text)
  | formAlreadySet (form : Form)
  | recursiveSubquery
  /-- Subqueries are nested more deeply than there are queries. -/
  | endlessNesting
  | duplicatePrefix (name iri : Text)
  | undefinedPrefixes (names : List Text)
  | undefinedVariables (names : List Text)
  /-- Something is used and not defined that has no name. -/
  | nameless
  | nothingToGroupBy
  | invalidCount (slice : Slice) (value : Text)
  | invalidDirection (direction : Text)
  | noCurrentTriple
  /-- A triple is continued with no term or with more than three. -/
  | continuationArity (given : Nat)
  | emptyUnion
  | notAGraph (type : Text)
  | notASubquery (type : Text)
  /-- A graph was asked to contain something that projects no variables. -/
  | nothingProjected
  | notExecutable (type : Text)
  | wrongArguments
  /-- A call mentions an object that the session does not hold. -/
  | unknownObject
  | notIterable
  /-- Something has no key, so that a ledger cannot keep it. -/
  | keyless
  | notAPair
  | unreachable (url reason : Text)
  | refused (url : Text) (status : Int)
  | undecodable (url reason : Text) (status : Int)
  deriving DecidableEq

namespace Error

def message : Error → Option Text
  | invalidExpression candidate kinds =>
      some ('"' :: candidate ++ "\" has to be a ".toList ++
        joinWith " or a ".toList (kinds.map Kind.description))
  | formAlreadySet form => some ("Query form is already set to ".toList ++ form.keyword)
  | recursiveSubquery => some "A query cannot contain itself as a subquery".toList
  | duplicatePrefix name iri =>
      some ("The prefix ".toList ++ name ++ " is already bound to <".toList ++ iri ++ ['>'])
  | undefinedPrefixes names =>
      some ("The prefixes ".toList ++ joinWith ", ".toList names ++
        " aren't defined for this query.".toList)
  | undefinedVariables names =>
      some ("The variables ?".toList ++ joinWith ", ?".toList names ++
        " don't occur in this query.".toList)
  | nothingToGroupBy => some "GROUP BY needs an expression".toList
  | invalidCount slice value =>
      some (slice.keyword ++ " has to be a non-negative integer, not ".toList ++ value)
  | invalidDirection direction =>
      some ("The direction has to be ASC or DESC, not ".toList ++ direction)
  | noCurrentTriple => some "also() needs a triple added with where() first".toList
  | continuationArity given =>
      some ("also() takes 1 to 3 arguments (".toList ++ Nat.toDigits 10 given ++
        " given)".toList)
  | emptyUnion => some "union() needs at least one graph pattern".toList
  | notAGraph type => some ("union() takes GraphBuilder instances, not ".toList ++ type)
  | notASubquery type => some ("subquery() takes a QueryBuilder, not ".toList ++ type)
  | notExecutable type =>
      some ("query has to be a string or a QueryBuilder, not ".toList ++ type)
  | unreachable url reason =>
      some ("Request to ".toList ++ url ++ " failed: ".toList ++ reason)
  | refused url _ => some ("HTTP error: ".toList ++ url)
  | undecodable url reason _ =>
      some (url ++ " did not answer with JSON: ".toList ++ reason)
  | unknownFunction _ | unwritableIri _ | endlessNesting | nameless | nothingProjected
  | wrongArguments | unknownObject | notIterable | keyless | notAPair => none

end Error

end SparqlComposer
