import SparqlComposer.Decimal.Binary
import SparqlComposer.Value

/-!
# Keys

Mappings and ledgers tell values apart by their keys. A term is never the same as its text, and two
literals are the same when their contents and their tags are. Numbers are the same when they are
equal, where false counts as zero and true as one. A tuple is told apart by its items. Collections
that may grow have no key.
-/

namespace SparqlComposer

inductive Key where
  | null
  | text (t : Text)
  | integer (n : Int)
  /-- A number that is not whole. -/
  | fraction (bits : UInt64)
  | var (name : Text)
  | iri (iri : Text)
  | literal (content : Text) (tag : LiteralTag)
  | blank (label : Text)
  | path (label : Text)
  | object (r : Ref)
  /-- The tuple without items. -/
  | unit
  /-- A tuple by its first item and the tuple of the others. -/
  | pair (first others : Key)
  deriving DecidableEq

/-- The key of a term. Paths are the same when their labels are. -/
def Term.key : Term → Key
  | var name => .var name
  | iri i => .iri i
  | literal content tag => .literal content tag.folded
  | blank label => .blank label
  | t => .path t.label

def floatKey (x : Float) : Key :=
  match (Decimal.Binary.ofFloat x).toInt? with
  | some n => .integer n
  | none => .fraction x.toBits

namespace Value

mutual

def key? : Value → Option Key
  | null => some .null
  | bool b => some (.integer (if b then 1 else 0))
  | int n => some (.integer n)
  | float x => some (floatKey x)
  | text t => some (.text t)
  | term t => some t.key
  | object r => some (.object r)
  | tuple items => tupleKey? items
  | list _ | mapping _ | namespaces _ => none

/-- The key of the tuple of the items, if all of them have one. -/
def tupleKey? : List Value → Option Key
  | [] => some .unit
  | v :: vs => do return .pair (← v.key?) (← tupleKey? vs)

end

/-! ## Mappings -/

def sameKey (v w : Value) : Bool :=
  match v.key?, w.key? with
  | some k, some l => k == l
  | _, _ => false

/-- Puts an entry into a mapping; the value of a key that is there already is replaced in its
place. -/
def insertEntry (key value : Value) : List (Value × Value) → List (Value × Value)
  | [] => [(key, value)]
  | (k, v) :: rest =>
      if k.sameKey key then (k, value) :: rest else (k, v) :: insertEntry key value rest

/-- The mapping of the entries, put in one after the other. -/
def ofEntries (entries : List (Value × Value)) : Value :=
  mapping (entries.foldl (fun es (k, v) ↦ insertEntry k v es) [])

end Value

end SparqlComposer
