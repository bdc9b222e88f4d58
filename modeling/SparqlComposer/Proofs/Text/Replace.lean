import SparqlComposer.Text.Basic

/-!
# Replacing a key

Replacing goes through a text from the left. A piece in which no occurrence of the key begins is
passed over, and the key itself gives way to the value.
-/

namespace SparqlComposer

variable {key value : Text}

theorem replaceFrom_skip (covered rest : Text) :
    replaceFrom key value covered.length (covered ++ rest) = replaceFrom key value 0 rest := by
  induction covered with
  | nil => rfl
  | cons c covered ih => exact ih

theorem replaceFrom_key (hkey : key ≠ []) (rest : Text) :
    replaceFrom key value 0 (key ++ rest) = value ++ replaceFrom key value 0 rest := by
  obtain ⟨c, covered, rfl⟩ := List.exists_cons_of_ne_nil hkey
  have hfound : (c :: covered).isPrefixOf (c :: (covered ++ rest)) :=
    List.isPrefixOf_iff_prefix.mpr (List.prefix_append (c :: covered) rest)
  rw [List.cons_append, replaceFrom, if_pos hfound, List.length_cons, Nat.add_sub_cancel,
    replaceFrom_skip]

theorem replaceFrom_cons {c : Char} {rest : Text} (h : ¬ key <+: c :: rest) :
    replaceFrom key value 0 (c :: rest) = c :: replaceFrom key value 0 rest := by
  rw [replaceFrom, if_neg fun hfound ↦ h (List.isPrefixOf_iff_prefix.mp hfound)]

/-- A piece is passed over when the key begins nowhere in it, not even to end behind it. -/
theorem replaceFrom_pass {piece rest : Text}
    (h : ∀ v, v <:+ piece → v ≠ [] → ¬ key <+: v ++ rest) :
    replaceFrom key value 0 (piece ++ rest) = piece ++ replaceFrom key value 0 rest := by
  induction piece with
  | nil => rfl
  | cons c piece ih =>
      have hhead : ¬ key <+: c :: (piece ++ rest) :=
        h (c :: piece) List.suffix_rfl (List.cons_ne_nil c piece)
      have htail := ih fun v hv ↦ h v (hv.trans (List.suffix_cons c piece))
      rw [List.cons_append, replaceFrom_cons hhead, htail, List.cons_append]

end SparqlComposer
