import SparqlComposer.Session.Argument

/-!
# Declaring prefixes

A prefix is bound to an IRI once and for all. Several prefixes are declared one by one, so those
before a declaration that fails stay bound.
-/

namespace SparqlComposer.Action

/-- Declares a prefix. A bound prefix may be declared again for the same IRI only. -/
def bindPrefix (id : QueryId) (name iri : Value) : Action Unit := do
  let n ← expression [.prefixName] name
  let i ← expression [.iri] ((iri.asText?.map Value.text).getD iri)
  match ((← get).query id).prefixes.find? n.text with
  | some bound => if bound ≠ i.text then fail (.duplicatePrefix n.text bound)
  | none => pure ()
  modify (·.modifyQuery id fun q ↦ { q with prefixes := q.prefixes.insert n.text i.text })
  note (.query id) (·.definePrefixes [.ofName n.text])

/-- The declarations that a collection holds: bound names, entries, or else items. -/
def declarations : Value → Except Error (List Value)
  | .namespaces entries =>
      .ok (entries.map fun (name, iri) ↦ .tuple [.text name, .term (.iri iri)])
  | .mapping entries => .ok (entries.map fun (name, iri) ↦ .tuple [name, iri])
  | v => match v.items? with
    | some items => .ok items
    | none => .error .notIterable

def declaration (v : Value) : Except Error (Value × Value) :=
  match v.items? with
  | some [name, iri] => .ok (name, iri)
  | some _ => .error .notAPair
  | none => .error .notIterable

/-- Declares prefixes one after the other, up to the first declaration that fails. -/
def bindEach (id : QueryId) : List Value → Action Unit
  | [] => pure ()
  | v :: vs => do
      let (name, iri) ← ofResult (declaration v)
      bindPrefix id name iri
      bindEach id vs

def bindPrefixes (id : QueryId) (collection : Value) : Action Unit := do
  bindEach id (← ofResult (declarations collection))

end SparqlComposer.Action
