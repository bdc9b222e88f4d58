import SparqlComposer.Text.Blank

/-!
# Datatypes of literals

A datatype says what the content of a literal stands for. Numbers and durations are read here as far
as the library has to: whether they are zero, and whether a number is infinite or undefined.
-/

namespace SparqlComposer.Literal

/-! ## Names -/

def schemaDatatype (name : String) : Text :=
  "http://www.w3.org/2001/XMLSchema#".toList ++ name.toList

def truthDatatype : Text := schemaDatatype "boolean"

def markupDatatype : Text := "http://www.w3.org/1999/02/22-rdf-syntax-ns#XMLLiteral".toList

def integerDatatypes : List Text :=
  ["integer", "nonPositiveInteger", "negativeInteger", "nonNegativeInteger", "positiveInteger",
    "long", "int", "short", "byte", "unsignedLong", "unsignedInt", "unsignedShort",
    "unsignedByte"].map schemaDatatype

/-- The datatypes of numbers that may have a fraction. -/
def fractionDatatypes : List Text := ["decimal", "float", "double"].map schemaDatatype

def durationDatatypes : List Text :=
  ["duration", "dayTimeDuration", "yearMonthDuration"].map schemaDatatype

/-! ## Numbers -/

def withoutSign : Text → Text
  | '-' :: t | '+' :: t => t
  | t => t

def isDigits (t : Text) : Bool := !t.isEmpty && t.all Char.isDigit

def isZeros (t : Text) : Bool := !t.isEmpty && t.all (· == '0')

def isZeroInteger (t : Text) : Bool := isZeros (withoutSign (trimmed t))

def isExponentMark (c : Char) : Bool := c == 'e' || c == 'E'

/-- Whether a text is an exponent with its mark, or no exponent at all. -/
def isExponent : Text → Bool
  | [] => true
  | c :: t => isExponentMark c && isDigits (withoutSign t)

/-- Whether a text is the number zero, with a point and an exponent or without. -/
def isZeroNumber (t : Text) : Bool :=
  let unsigned := withoutSign (trimmed t)
  let mantissa := unsigned.takeWhile (!isExponentMark ·)
  let exponent := unsigned.dropWhile (!isExponentMark ·)
  let whole := mantissa.takeWhile (· != '.')
  let fraction := (mantissa.dropWhile (· != '.')).drop 1
  isZeros (whole ++ fraction) && isExponent exponent

/-- The name in XML Schema of a number that is infinite or undefined, whose own name may be in any
case and have blanks around it. rdflib respells `inf`, `Infinity` and `nan` only, which are the names
in normalised literals. -/
def specialName? (t : Text) : Option Text :=
  let sign := if (trimmed t).head? == some '-' then ['-'] else []
  let name := (withoutSign (trimmed t)).map Char.toLower
  if name = "inf".toList ∨ name = "infinity".toList then some (sign ++ "INF".toList)
  else if name = "nan".toList then some "NaN".toList
  else none

/-! ## Durations -/

/-- What follows the zeros at the start, if there are any. -/
def afterZeros? : Text → Option Text
  | '0' :: t => some (t.dropWhile (· == '0'))
  | _ => none

/-- What follows a decimal zero at the start, if there is one. -/
def afterZero? (t : Text) : Option Text :=
  match afterZeros? t with
  | some (c :: rest) =>
      if c == '.' || c == ',' then some ((afterZeros? rest).getD (c :: rest))
      else some (c :: rest)
  | after => after

/-- What follows a zero of the unit; a text that starts with no such part is left as it is. -/
def afterPart (t : Text) (unit : Char) : Text :=
  match afterZero? t with
  | some (c :: rest) => if c = unit then rest else t
  | _ => t

/-- Whether a text is a duration without length: every part that it has is zero. -/
def isZeroDuration (t : Text) : Bool :=
  match withoutSign t with
  | 'P' :: c :: parts =>
      match "YMWD".toList.foldl afterPart (c :: parts) with
      | [] => true
      | 'T' :: timeParts => ("HMS".toList.foldl afterPart timeParts).isEmpty
      | _ => false
  | _ => false

end SparqlComposer.Literal
