/-!
# Maps in insertion order

A finite map that remembers the order in which its keys were first given. Giving a key again
replaces its value and leaves its place.
-/

namespace SparqlComposer

/-- A finite map whose entries stand in the order in which their keys were first inserted. -/
structure OrderedMap (κ α : Type) where
  entries : List (κ × α)
  nodup : (entries.map Prod.fst).Nodup

namespace OrderedMap

variable {κ α : Type}

@[ext] theorem ext {m n : OrderedMap κ α} (h : m.entries = n.entries) : m = n := by
  cases m
  cases n
  cases h
  rfl

def empty : OrderedMap κ α := ⟨[], List.nodup_nil⟩

instance : EmptyCollection (OrderedMap κ α) := ⟨empty⟩

instance : Inhabited (OrderedMap κ α) := ⟨empty⟩

@[simp] theorem entries_empty : (∅ : OrderedMap κ α).entries = [] := rfl

def keys (m : OrderedMap κ α) : List κ := m.entries.map Prod.fst

theorem nodup_keys (m : OrderedMap κ α) : m.keys.Nodup := m.nodup

variable [DecidableEq κ]

def find? (m : OrderedMap κ α) (k : κ) : Option α := m.entries.lookup k

/-- Applies `f` to the value of `k`, or gives `k` the value `f none` at the end. -/
def alterEntries (k : κ) (f : Option α → α) : List (κ × α) → List (κ × α)
  | [] => [(k, f none)]
  | (k', v) :: rest => if k' = k then (k', f (some v)) :: rest else (k', v) :: alterEntries k f rest

theorem keys_alterEntries (k : κ) (f : Option α → α) (es : List (κ × α)) :
    (alterEntries k f es).map Prod.fst =
      if k ∈ es.map Prod.fst then es.map Prod.fst else es.map Prod.fst ++ [k] := by
  induction es with
  | nil => rfl
  | cons e es ih =>
      obtain ⟨k', v⟩ := e
      by_cases hk : k' = k
      · simp [alterEntries, hk]
      · by_cases hmem : k ∈ es.map Prod.fst <;>
          simp_all [alterEntries, Ne.symm hk]

/-- Gives `k` the value that `f` makes of its old one; a new key goes to the end. -/
def alter (m : OrderedMap κ α) (k : κ) (f : Option α → α) : OrderedMap κ α where
  entries := alterEntries k f m.entries
  nodup := by
    rw [keys_alterEntries]
    split
    · exact m.nodup
    · rename_i hk
      rw [List.nodup_append]
      refine ⟨m.nodup, by simp, ?_⟩
      intro a ha b hb
      rw [List.mem_singleton] at hb
      rintro rfl
      exact hk (hb ▸ ha)

def insert (m : OrderedMap κ α) (k : κ) (v : α) : OrderedMap κ α := m.alter k fun _ ↦ v

def insertAll (m : OrderedMap κ α) (es : List (κ × α)) : OrderedMap κ α :=
  es.foldl (fun m e ↦ m.insert e.1 e.2) m

/-- The map of the entries, inserted one after the other. -/
def ofList (es : List (κ × α)) : OrderedMap κ α := insertAll ∅ es

theorem keys_alter (m : OrderedMap κ α) (k : κ) (f : Option α → α) :
    (m.alter k f).keys = if k ∈ m.keys then m.keys else m.keys ++ [k] :=
  keys_alterEntries k f m.entries

theorem keys_insert (m : OrderedMap κ α) (k : κ) (v : α) :
    (m.insert k v).keys = if k ∈ m.keys then m.keys else m.keys ++ [k] :=
  keys_alter m k _

theorem lookup_alterEntries (k k' : κ) (f : Option α → α) (es : List (κ × α)) :
    (alterEntries k f es).lookup k' =
      if k' = k then some (f (es.lookup k)) else es.lookup k' := by
  have hbeq : ∀ {a b : κ}, ¬a = b → (a == b) = false := fun h ↦ beq_false_of_ne h
  induction es with
  | nil => by_cases h : k' = k <;> simp [alterEntries, h]
  | cons e es ih =>
      obtain ⟨j, v⟩ := e
      by_cases hj : j = k
      · subst hj
        by_cases h : k' = j <;> simp [alterEntries, List.lookup_cons, h, hbeq]
      · by_cases h : k' = j
        · subst h
          simp [alterEntries, hj]
        · have hkj := hbeq h
          by_cases hk : k' = k
          · subst hk
            simp [alterEntries, hj, List.lookup_cons, hkj, ih]
          · simp [alterEntries, hj, List.lookup_cons, hkj, ih, hk]

theorem find?_alter (m : OrderedMap κ α) (k k' : κ) (f : Option α → α) :
    (m.alter k f).find? k' = if k' = k then some (f (m.find? k)) else m.find? k' :=
  lookup_alterEntries k k' f m.entries

theorem find?_insert (m : OrderedMap κ α) (k k' : κ) (v : α) :
    (m.insert k v).find? k' = if k' = k then some v else m.find? k' :=
  find?_alter m k k' _

end OrderedMap

end SparqlComposer
