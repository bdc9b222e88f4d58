import SparqlComposer.Text.Basic
import SparqlComposer.Text.Range

/-!
# Blanks

The blanks of Unicode, and the four that an expression may hold between its parts.
-/

namespace SparqlComposer

/-- Spaces, line and paragraph separators, and the controls that separate. -/
def blankRanges : List (Nat × Nat) := [
  (0x9, 0xd), (0x1c, 0x20), (0x85, 0x85), (0xa0, 0xa0), (0x1680, 0x1680), (0x2000, 0x200a),
  (0x2028, 0x2029), (0x202f, 0x202f), (0x205f, 0x205f), (0x3000, 0x3000)]

/-- A blank of any script. -/
def isBlank (c : Char) : Bool := inRanges blankRanges c

/-- Whether blanks stand at the start or at the end. -/
def isPadded (t : Text) : Bool := t.head?.any isBlank || t.getLast?.any isBlank

def trimmed (t : Text) : Text :=
  ((t.dropWhile isBlank).reverse.dropWhile isBlank).reverse

/-- A blank that may separate the parts of an expression: space, tab, line feed or carriage
return. -/
def isGap (c : Char) : Bool := c == ' ' || c == '\t' || c == '\n' || c == '\r'

theorem isBlank_of_isGap {c : Char} (h : isGap c = true) : isBlank c = true := by
  simp only [isGap, Bool.or_eq_true, beq_iff_eq] at h
  rcases h with ((rfl | rfl) | rfl) | rfl <;> decide

end SparqlComposer
