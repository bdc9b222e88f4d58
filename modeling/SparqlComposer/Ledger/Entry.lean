import SparqlComposer.Names
import SparqlComposer.Value.Key

/-!
# Entries of a ledger

What is entered into a ledger is a name most of the time. It may be any other value that has a key,
and stays in the ledger as it was first given.
-/

namespace SparqlComposer

/-- A value with the key that tells it apart in a ledger. -/
structure Entry where
  value : Value
  key : Key
  key?_value : value.key? = some key

namespace Entry

@[ext] theorem ext {e f : Entry} (h : e.value = f.value) : e = f := by
  obtain ⟨v, k, hk⟩ := e
  obtain ⟨w, l, hl⟩ := f
  cases h
  obtain rfl : k = l := Option.some.inj (hk.symm.trans hl)
  rfl

def ofName (n : Text) : Entry := ⟨.text n, .text n, rfl⟩

@[simp] theorem key_ofName (n : Text) : (ofName n).key = .text n := rfl

/-- The entry that a value makes, if it has a key. -/
def ofValue? (v : Value) : Option Entry :=
  match h : v.key? with
  | some k => some ⟨v, k, h⟩
  | none => none

def name? (e : Entry) : Option Text := e.value.asText?

@[simp] theorem name?_ofName (n : Text) : (ofName n).name? = some n := rfl

end Entry

/-- Entries with different keys, in the order of their first insertion. -/
abbrev Entries := OrderedSet Entry.key

def Names.entries (ns : Names) : List Entry := ns.toList.map Entry.ofName

end SparqlComposer
