import Mathlib.Data.List.Basic
import Mathlib.Data.List.Induction
import SparqlComposer.Names

/-!
# The items of a set

A set that was made from a list has every item of the list once, where it came up first.
-/

namespace SparqlComposer

/-- Items that the key tells apart are kept like their list without duplicates. -/
theorem OrderedSet.toList_ofList_map {α β κ : Type} [BEq β] [LawfulBEq β] [DecidableEq κ]
    {key : α → κ} {f : β → α} (hkey : Function.Injective (key ∘ f)) (bs : List β) :
    (ofList (bs.map f) : OrderedSet key).toList = bs.eraseDups.map f := by
  have hmem (b : β) (bs : List β) : key (f b) ∈ (ofList (bs.map f) : OrderedSet key) ↔ b ∈ bs := by
    rw [mem_ofList, List.map_map]
    exact List.mem_map_of_injective hkey
  induction bs using List.reverseRecOn with
  | nil => rfl
  | append_singleton bs b ih =>
      have hstep : (ofList ((bs ++ [b]).map f) : OrderedSet key) =
          (ofList (bs.map f)).insert (f b) := by
        rw [List.map_append, ofList, insertAll_append]
        rfl
      rw [hstep, toList_insert, ih, List.eraseDups_append]
      by_cases hb : b ∈ bs
      · rw [if_pos ((hmem b bs).mpr hb)]
        simp [List.removeAll, hb]
      · rw [if_neg (mt (hmem b bs).mp hb)]
        simp [List.removeAll, hb, List.eraseDups_cons]

theorem Names.toList_ofList (ns : List Text) :
    (OrderedSet.ofList ns : Names).toList = ns.eraseDups := by
  have hkey : Function.Injective ((id : Text → Text) ∘ id) := Function.injective_id
  have hmap := OrderedSet.toList_ofList_map hkey ns
  rwa [List.map_id, List.map_id] at hmap

end SparqlComposer
