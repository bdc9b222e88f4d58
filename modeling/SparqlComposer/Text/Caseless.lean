import SparqlComposer.Text.Basic

/-!
# Caseless keywords

Keywords are read in any case. Beyond the two ASCII forms of a letter, simple case folding also
identifies the long s with `s`, the Kelvin sign with `k`, and the dotted capital and the dotless
small i with `i`.
-/

namespace SparqlComposer

/-- Whether `c` stands for the ASCII letter in a keyword. -/
def isFormOf (letter c : Char) : Bool :=
  c.toLower == letter.toLower ||
    (c == '\u017f' && letter.toLower == 's') ||
    (c == '\u212a' && letter.toLower == 'k') ||
    ((c == '\u0130' || c == '\u0131') && letter.toLower == 'i')

/-- Splits a keyword, in any case, off the start of a text. -/
def keyword? : Text → Text → Option (Text × Text)
  | [], t => some ([], t)
  | _ :: _, [] => none
  | letter :: letters, c :: cs =>
      if isFormOf letter c then
        (keyword? letters cs).map fun (taken, rest) ↦ (c :: taken, rest)
      else none

theorem isFormOf_self (c : Char) : isFormOf c c = true := by simp [isFormOf]

end SparqlComposer
