import SparqlComposer.Error
import SparqlComposer.Expression.Token
import SparqlComposer.Text.Caseless

/-!
# Calls and assignments

A call starts with a head and goes on with anything on the same line. An assignment is a call in
parentheses that ends with `AS` and the variable it binds. The head is the name of a built-in
function in any case, an IRI in angle brackets, a prefix with its colon, a variable, or `!`.
Names of functions are not ended by a word boundary, and the longest one wins.
-/

namespace SparqlComposer

def functionNames : List Text := [
  "COUNT", "SUM", "MIN", "MAX", "AVG", "SAMPLE", "GROUP_CONCAT",
  "STR", "LANG", "LANGMATCHES", "DATATYPE", "BOUND", "IRI", "URI", "BNODE", "RAND",
  "ABS", "CEIL", "FLOOR", "ROUND",
  "CONCAT", "STRLEN", "UCASE", "LCASE", "ENCODE_FOR_URI", "CONTAINS", "STRSTARTS", "STRENDS",
  "STRBEFORE", "STRAFTER",
  "YEAR", "MONTH", "DAY", "HOURS", "MINUTES", "SECONDS", "TIMEZONE", "TZ", "NOW",
  "UUID", "STRUUID", "MD5", "SHA1", "SHA256", "SHA384", "SHA512",
  "COALESCE", "IF", "STRLANG", "STRDT", "sameTerm", "isIRI", "isURI", "isBLANK", "isLITERAL",
  "isNUMERIC", "REGEX", "SUBSTR", "REPLACE", "EXISTS", "NOT EXISTS"].map String.toList

/-- The longer of two readings of the start of a text; of two equally long ones, the first. -/
def longerReading (first second : Option (Text × Text)) : Option (Text × Text) :=
  match first, second with
  | some (s, r), some (s', r') => if s.length < s'.length then some (s', r') else some (s, r)
  | none, found => found
  | found, none => found

/-- The longest function name at the start of a text, as it is written there, and what follows
it. -/
def functionName? (t : Text) : Option (Text × Text) :=
  (functionNames.map (keyword? · t)).foldl longerReading none

/-- The letters that are read as `s` or `i` but whose lower-case form is another letter, so that
a name written with them is not found again among the known ones. -/
def isMisleadingLetter (c : Char) : Bool := c == '\u017f' || c == '\u0130' || c == '\u0131'

/-- What follows the head of a call. -/
def afterHead? (t : Text) : Except Error (Option Text) :=
  match functionName? t with
  | some (name, rest) =>
      if name.any isMisleadingLetter then .error (.unknownFunction name) else .ok (some rest)
  | none =>
      .ok ((afterBracketedIri? t).or
        ((afterPrefix? t).or ((afterVariable? t).or (afterChar? '!' t))))

/-- Whether a text is a call, brackets apart: a head, and anything on the same line. -/
def isFunctionCall (t : Text) : Except Error Bool :=
  return (← afterHead? t).any ('\n' ∉ ·)

/-- Whether a text is ` AS `, a variable and the closing parenthesis. -/
def isTarget (t : Text) : Bool :=
  (keyword? " AS ".toList t).any fun (_, rest) ↦
    (afterVariable? rest).bind (afterChar? ')') == some []

def endsInTarget : Text → Bool
  | [] => false
  | c :: cs => isTarget (c :: cs) || endsInTarget cs

/-- The blanks that may follow the opening parenthesis of an assignment, once tabs are
expanded. -/
def dropGaps (t : Text) : Text := t.dropWhile isGap

/-- Whether a text is an assignment, brackets apart. -/
def isFunctionAssignment (t : Text) : Except Error Bool :=
  match afterChar? '(' t with
  | none => .ok false
  | some inner =>
      return (← afterHead? (dropGaps inner)).any fun rest ↦ '\n' ∉ rest && endsInTarget rest

/-! ## Balanced brackets -/

/-- The text without its quoted strings; a quote that opens no string stays. -/
def withoutStrings : Text → Text
  | [] => []
  | c :: cs =>
      match _h : afterString? (c :: cs) with
      | some rest => withoutStrings rest
      | none => c :: withoutStrings cs
termination_by t => t.length
decreasing_by
  · exact length_of_afterString? _h
  · simp

/-- Whether as many parentheses are opened as closed outside the quoted strings. -/
def isBalanced (t : Text) : Bool :=
  (withoutStrings t).count '(' == (withoutStrings t).count ')'

end SparqlComposer
