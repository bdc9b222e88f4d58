import SparqlComposer.Decimal.Shortest
import SparqlComposer.Text.Quoted
import SparqlComposer.Value

/-!
# Labels of values

How messages show values and the types of values. A text is shown as it is, but in quotation marks
inside another value.
-/

namespace SparqlComposer

def Ref.typeName : Ref → Text
  | ledger _ => "UsageLedger".toList
  | graph _ => "GraphBuilder".toList
  | query _ => "QueryBuilder".toList

def Term.typeName : Term → Text
  | var _ => "Variable".toList
  | iri _ => "URIRef".toList
  | literal _ _ => "Literal".toList
  | blank _ => "BNode".toList
  | sequence _ => "SequencePath".toList
  | alternative _ => "AlternativePath".toList
  | inverse _ => "InvPath".toList
  | negated _ => "NegatedPath".toList
  | repeated _ _ => "MulPath".toList

namespace Value

def typeName : Value → Text
  | null => "NoneType".toList
  | bool _ => "bool".toList
  | int _ => "int".toList
  | float _ => "float".toList
  | text _ => "str".toList
  | list _ => "list".toList
  | tuple _ => "tuple".toList
  | mapping _ => "dict".toList
  | namespaces _ => "NamespaceManager".toList
  | term t => t.typeName
  | object r => r.typeName

def termQuoted : Term → Text
  | .var name => "rdflib.term.Variable(".toList ++ quoted name ++ [')']
  | .iri i => "rdflib.term.URIRef(".toList ++ quoted i ++ [')']
  | .blank label => "rdflib.term.BNode(".toList ++ quoted label ++ [')']
  | .literal content (.datatype iri) =>
      "rdflib.term.Literal(".toList ++ quoted content ++
        ", datatype=rdflib.term.URIRef(".toList ++ quoted iri ++ "))".toList
  | .literal content (.language (c :: cs)) =>
      "rdflib.term.Literal(".toList ++ quoted content ++ ", lang=".toList ++
        quoted (c :: cs) ++ [')']
  | .literal content _ => "rdflib.term.Literal(".toList ++ quoted content ++ [')']
  | t => t.label

mutual

/-- A value as it shows inside another one. -/
def shown : Value → Text
  | null => "None".toList
  | bool b => (if b then "True" else "False").toList
  | int n => (if n < 0 then ['-'] else []) ++ Nat.toDigits 10 n.natAbs
  | float x => Decimal.floatText x
  | text t => quoted t
  | list items => '[' :: joinWith ", ".toList (shownAll items) ++ [']']
  | tuple [item] => '(' :: item.shown ++ ",)".toList
  | tuple items => '(' :: joinWith ", ".toList (shownAll items) ++ [')']
  | mapping entries => '{' :: joinWith ", ".toList (shownEntries entries) ++ ['}']
  | namespaces _ => "<namespaces>".toList
  | term t => termQuoted t
  | object r => '<' :: r.typeName ++ ['>']

def shownAll : List Value → List Text
  | [] => []
  | v :: vs => v.shown :: shownAll vs

def shownEntries : List (Value × Value) → List Text
  | [] => []
  | (k, v) :: rest => (k.shown ++ ": ".toList ++ v.shown) :: shownEntries rest

end

/-- A value as a message shows it by itself: texts and terms without quotes, and an object of the
session by the text it stands for. -/
def label (objectText : Ref → Except Error Text) : Value → Except Error Text
  | text t => .ok t
  | term t => .ok t.label
  | object r => objectText r
  | v => .ok v.shown

end Value

end SparqlComposer
