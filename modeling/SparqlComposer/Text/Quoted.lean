import SparqlComposer.Text.Basic
import SparqlComposer.Text.Printable

/-!
# Quoted texts

How a message shows a text inside another value: in single quotes, or in double quotes when it
holds a single quote and no double one; the quote, backslashes and characters that do not print
are escaped.
-/

namespace SparqlComposer

/-- The lower-case hexadecimal digits of a number, as many as asked for. -/
def hexDigits : Nat → Nat → Text
  | 0, _ => []
  | count + 1, n => hexDigits count (n / 16) ++ [Nat.digitChar (n % 16)]

def quoteFor (t : Text) : Char := if '\'' ∈ t ∧ '"' ∉ t then '"' else '\''

/-- One character of a text between the given quotation marks. -/
def quotedChar (quote c : Char) : Text :=
  if c = quote ∨ c = '\\' then ['\\', c]
  else if c = '\t' then ['\\', 't']
  else if c = '\n' then ['\\', 'n']
  else if c = '\r' then ['\\', 'r']
  else if isPrintable c then [c]
  else if c.toNat ≤ 0xff then '\\' :: 'x' :: hexDigits 2 c.toNat
  else if c.toNat ≤ 0xffff then '\\' :: 'u' :: hexDigits 4 c.toNat
  else '\\' :: 'U' :: hexDigits 8 c.toNat

def quoted (t : Text) : Text :=
  quoteFor t :: t.flatMap (quotedChar (quoteFor t)) ++ [quoteFor t]

end SparqlComposer
