import SparqlComposer.Literal.Datatype

/-!
# Literals

A literal has a content and a tag, which is a language or a datatype. It is written in N3 as its
quoted content with the tag behind.
-/

namespace SparqlComposer

/-- What a literal says beside its content. -/
inductive LiteralTag where
  | plain
  | language (tag : Text)
  | datatype (iri : Text)
  deriving DecidableEq

/-- The tag in the form that is the same for equal tags: the case of a language does not count, and
an empty one is none. -/
def LiteralTag.folded : LiteralTag → LiteralTag
  | language [] => plain
  | language tag => language (tag.map Char.toLower)
  | tag => tag

namespace Literal

def escapeChar (c : Char) : Text :=
  if c = '\\' then ['\\', '\\']
  else if c = '"' then ['\\', '"']
  else if c = '\r' then ['\\', 'r']
  else [c]

/-- One character of a literal over several lines, where only a quote at the end is escaped. -/
def escapeLongChar (c : Char) : Text :=
  if c = '\\' then ['\\', '\\']
  else if c = '\r' then ['\\', 'r']
  else [c]

/-- The content of a literal over several lines. Three quotation marks in a row are left as they are,
where rdflib escapes them. A literal over several lines is refused either way. -/
def escapeLong : Text → Text
  | [] => []
  | ['"'] => ['\\', '"']
  | c :: cs => escapeLongChar c ++ escapeLong cs

/-- The quoted content of a literal: between single quotation marks when it stands on one line,
else between triple ones. -/
def quoteContent (content : Text) : Text :=
  if '\n' ∈ content then
    "\"\"\"".toList ++ escapeLong content ++ "\"\"\"".toList
  else '"' :: content.flatMap escapeChar ++ ['"']

/-- The tag behind the quoted content. An empty language or datatype is none. -/
def tagText : LiteralTag → Text
  | .plain | .language [] | .datatype [] => []
  | .language tag => '@' :: tag
  | .datatype name => "^^<".toList ++ name ++ ['>']

/-- The content as it is written: a number that is infinite or undefined has its name in XML
Schema. -/
def spelling (content : Text) : LiteralTag → Text
  | .datatype iri =>
      if fractionDatatypes.contains iri then (specialName? content).getD content else content
  | .plain | .language _ => content

def n3 (content : Text) (tag : LiteralTag) : Text :=
  quoteContent (spelling content tag) ++ tagText tag

end Literal

end SparqlComposer
