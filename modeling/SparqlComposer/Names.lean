import SparqlComposer.OrderedSet
import SparqlComposer.Text.Basic

/-!
# Sets of names

The names that an expression mentions are kept without duplicates in the order in which they first
came up.
-/

namespace SparqlComposer

/-- Names without duplicates, in the order of their first insertion. -/
abbrev Names := OrderedSet (id : Text → Text)

theorem Names.mem_toList {n : Text} {ns : Names} : n ∈ ns.toList ↔ n ∈ ns := by
  simp [OrderedSet.mem_iff]

end SparqlComposer
