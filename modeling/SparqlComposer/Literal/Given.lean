import SparqlComposer.Literal

/-!
# Literals that count as given

A literal counts by what it stands for: false and zero do not count as given, nor does a duration
without length. A fragment of XML is something even when it is empty. All else counts by its text.
-/

namespace SparqlComposer.Literal

/-- Whether the content stands for zero under a datatype. -/
def isZero (content datatype : Text) : Bool :=
  (integerDatatypes.contains datatype && isZeroInteger content) ||
    (fractionDatatypes.contains datatype && isZeroNumber content) ||
    (durationDatatypes.contains datatype && isZeroDuration content)

def isGiven (content : Text) : LiteralTag → Bool
  | .plain | .language _ => !content.isEmpty
  | .datatype iri =>
      if iri = truthDatatype then
        let name := content.map Char.toLower
        name == "true".toList || name == "1".toList
      else if iri = markupDatatype then true
      else !content.isEmpty && !isZero content iri

end SparqlComposer.Literal
