/-!
# Sets in insertion order

A finite set that remembers the order in which its items first came up. A key tells the items apart:
an item whose key is there already is not taken in again, even if it looks different.
-/

namespace SparqlComposer

/-- Items with different keys, in the order of their first insertion. -/
structure OrderedSet {α κ : Type} (key : α → κ) where
  toList : List α
  nodup : (toList.map key).Nodup

namespace OrderedSet

variable {α κ : Type} {key : α → κ}

@[ext] theorem ext {s t : OrderedSet key} (h : s.toList = t.toList) : s = t := by
  cases s
  cases t
  cases h
  rfl

instance [DecidableEq α] : DecidableEq (OrderedSet key) := fun s t ↦
  if h : s.toList = t.toList then isTrue (ext h) else isFalse fun e ↦ h (e ▸ rfl)

def empty : OrderedSet key := ⟨[], List.nodup_nil⟩

instance : EmptyCollection (OrderedSet key) := ⟨empty⟩

instance : Inhabited (OrderedSet key) := ⟨empty⟩

@[simp] theorem toList_empty : (∅ : OrderedSet key).toList = [] := rfl

def keys (s : OrderedSet key) : List κ := s.toList.map key

instance : Membership κ (OrderedSet key) := ⟨fun s k ↦ k ∈ s.keys⟩

@[simp] theorem mem_keys {k : κ} {s : OrderedSet key} : k ∈ s.keys ↔ k ∈ s := Iff.rfl

theorem mem_iff {k : κ} {s : OrderedSet key} : k ∈ s ↔ ∃ a ∈ s.toList, key a = k := List.mem_map

variable [DecidableEq κ]

instance (k : κ) (s : OrderedSet key) : Decidable (k ∈ s) :=
  inferInstanceAs (Decidable (k ∈ s.keys))

/-- Puts a new item at the end; one whose key is there already is left out. -/
def insert (s : OrderedSet key) (a : α) : OrderedSet key :=
  if h : key a ∈ s then s
  else ⟨s.toList ++ [a], by
    rw [List.map_append, List.nodup_append]
    refine ⟨s.nodup, by simp, fun k hk k' hk' ↦ ?_⟩
    rw [List.map_singleton, List.mem_singleton] at hk'
    rintro rfl
    exact h (hk' ▸ hk)⟩

def insertAll (s : OrderedSet key) (as : List α) : OrderedSet key := as.foldl insert s

/-- The items of a list, each at the first place of its key. -/
def ofList (as : List α) : OrderedSet key := insertAll ∅ as

/-- The items whose keys the other set lacks, in order. -/
def missingFrom (s other : OrderedSet key) : List α := s.toList.filter fun a ↦ key a ∉ other

theorem toList_insert (s : OrderedSet key) (a : α) :
    (s.insert a).toList = if key a ∈ s then s.toList else s.toList ++ [a] := by
  by_cases h : key a ∈ s <;> simp [insert, h]

theorem keys_insert (s : OrderedSet key) (a : α) :
    (s.insert a).keys = if key a ∈ s then s.keys else s.keys ++ [key a] := by
  by_cases h : key a ∈ s <;> simp [keys, toList_insert, h]

@[simp] theorem mem_insert {k : κ} {a : α} {s : OrderedSet key} :
    k ∈ s.insert a ↔ k ∈ s ∨ k = key a := by
  rw [← mem_keys, keys_insert]
  by_cases h : key a ∈ s
  · simp only [h, if_true, mem_keys]
    constructor
    · exact .inl
    · rintro (hk | rfl)
      · exact hk
      · exact h
  · simp [h]

@[simp] theorem mem_insertAll {k : κ} {as : List α} {s : OrderedSet key} :
    k ∈ s.insertAll as ↔ k ∈ s ∨ k ∈ as.map key := by
  induction as generalizing s with
  | nil => simp [insertAll]
  | cons a as ih =>
      have hstep : s.insertAll (a :: as) = (s.insert a).insertAll as := rfl
      rw [hstep, ih, mem_insert, List.map_cons, List.mem_cons, or_assoc]

@[simp] theorem mem_ofList {k : κ} {as : List α} :
    k ∈ (ofList as : OrderedSet key) ↔ k ∈ as.map key := by
  rw [ofList, mem_insertAll]
  exact ⟨fun h ↦ h.elim (fun h ↦ nomatch h) id, .inr⟩

theorem insertAll_append (s : OrderedSet key) (as bs : List α) :
    s.insertAll (as ++ bs) = (s.insertAll as).insertAll bs := by
  simp [insertAll]

theorem mem_missingFrom {a : α} {s other : OrderedSet key} :
    a ∈ s.missingFrom other ↔ a ∈ s.toList ∧ key a ∉ other := by
  simp [missingFrom]

end OrderedSet

end SparqlComposer
