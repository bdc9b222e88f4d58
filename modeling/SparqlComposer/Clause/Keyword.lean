import SparqlComposer.Text.Basic

/-!
# Keywords of the clauses

The choices that a clause of a query leaves, each with the keyword that writes it.
-/

namespace SparqlComposer

inductive Form where
  | select
  | describe
  deriving DecidableEq

def Form.keyword : Form → Text
  | select => "SELECT".toList
  | describe => "DESCRIBE".toList

/-- What is done about equal solutions. -/
inductive Uniqueness where
  | distinct
  | reduced
  deriving DecidableEq

def Uniqueness.keyword : Uniqueness → Text
  | distinct => "DISTINCT".toList
  | reduced => "REDUCED".toList

inductive Direction where
  | ascending
  | descending
  deriving DecidableEq

def Direction.keyword : Direction → Text
  | ascending => "ASC".toList
  | descending => "DESC".toList

def Direction.ofKeyword? (t : Text) : Option Direction :=
  if t = ascending.keyword then some ascending
  else if t = descending.keyword then some descending
  else none

/-- The two modifiers that cut a part out of the solutions. -/
inductive Slice where
  | limit
  | offset
  deriving DecidableEq

def Slice.keyword : Slice → Text
  | limit => "LIMIT".toList
  | offset => "OFFSET".toList

end SparqlComposer
