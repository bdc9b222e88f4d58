import SparqlComposer.Literal.Given
import SparqlComposer.Term

/-!
# Values

What a caller may hand to a query: texts and terms where expressions are asked for, numbers,
collections, and the ledgers, graphs and queries of the session. Which of them a call accepts is
decided by the call.
-/

namespace SparqlComposer

/-- An object of the session: one of its ledgers, graphs or queries. -/
inductive Ref where
  | ledger (id : Nat)
  | graph (id : Nat)
  | query (id : Nat)
  deriving DecidableEq

/-- What a caller may hand to a query. -/
inductive Value where
  | null
  | bool (b : Bool)
  | int (n : Int)
  | float (x : Float)
  | text (t : Text)
  | list (items : List Value)
  | tuple (items : List Value)
  | mapping (entries : List (Value × Value))
  /-- A collection of namespaces: names, each bound to an IRI. -/
  | namespaces (entries : List (Text × Text))
  | term (t : Term)
  | object (r : Ref)

namespace Value

instance : Inhabited Value := ⟨null⟩

/-- The text that a value is or stands for: its own, or the label of a term that is no path. -/
def asText? : Value → Option Text
  | text t => some t
  | term t => if t.isSimple then some t.label else none
  | _ => none

/-- The text by which a value is an expression: its own, or a term in N3. -/
def expressionText? : Value → Except Error (Option Text)
  | text t => .ok (some t)
  | term t => t.text?
  | _ => .ok none

/-- The items of a list or a tuple. -/
def sequence? : Value → Option (List Value)
  | list items => some items
  | tuple items => some items
  | _ => none

/-- The items that a value has one after the other; a text has its characters, and a mapping its
keys. -/
def items? : Value → Option (List Value)
  | list items => some items
  | tuple items => some items
  | mapping entries => some (entries.map Prod.fst)
  | v => v.asText?.map fun t ↦ t.map fun c ↦ text [c]

/-- Whether a value counts as given: it is neither null, nor false, nor zero, nor empty, nor a literal
that stands for one of these. -/
def isGiven : Value → Bool
  | null => false
  | bool b => b
  | int n => n != 0
  | float x => x != 0
  | text t => !t.isEmpty
  | list items => !items.isEmpty
  | tuple items => !items.isEmpty
  | mapping entries => !entries.isEmpty
  | term (.literal content tag) => Literal.isGiven content tag
  | term t => !t.isSimple || !t.label.isEmpty
  | namespaces _ | object _ => true

mutual

def objects : Value → List Ref
  | object r => [r]
  | list items => allObjects items
  | tuple items => allObjects items
  | mapping entries => entryObjects entries
  | null | bool _ | int _ | float _ | text _ | namespaces _ | term _ => []

def allObjects : List Value → List Ref
  | [] => []
  | v :: vs => v.objects ++ allObjects vs

def entryObjects : List (Value × Value) → List Ref
  | [] => []
  | (k, v) :: rest => k.objects ++ v.objects ++ entryObjects rest

end

end Value

end SparqlComposer
