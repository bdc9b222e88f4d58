/-!
# Tables of character ranges

A Unicode property is held as the list of the ranges of code points that have it.
-/

namespace SparqlComposer

/-- Whether the character lies in one of the ranges, ends included. -/
def inRanges (ranges : List (Nat × Nat)) (c : Char) : Bool :=
  ranges.any fun (first, last) ↦ decide (first ≤ c.toNat ∧ c.toNat ≤ last)

theorem inRanges_eq_true_iff {ranges : List (Nat × Nat)} {c : Char} :
    inRanges ranges c = true ↔ ∃ r ∈ ranges, r.1 ≤ c.toNat ∧ c.toNat ≤ r.2 := by
  simp [inRanges, List.any_eq_true]

end SparqlComposer
