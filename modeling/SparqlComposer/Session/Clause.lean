import SparqlComposer.Session.Argument
import SparqlComposer.Text.Upper

/-!
# Setting clauses

The head of a query is set once; a modifier that is set again is replaced. The names of the
expressions go to the ledger, which keeps them.
-/

namespace SparqlComposer.Action

/-- Enters expressions whose assignments define their targets. -/
def noteAll (es : List Expression) (l : Ledger) : Ledger := es.foldl Ledger.useAssigning l

/-- Sets the head of a query, once. -/
def setHead (id : QueryId) (form : Form) (uniqueness : Option Uniqueness) (kinds : List Kind)
    (args : List Value) : Action Unit := do
  if let some head := ((← get).query id).head then
    fail (.formAlreadySet head.form)
  let projection ← expressions kinds (unpacked args)
  note (.query id) (noteAll projection)
  modify (·.modifyQuery id fun q ↦ { q with head := some ⟨form, uniqueness, projection⟩ })

def modifyModifiers (id : QueryId) (f : Modifiers → Modifiers) : Action Unit :=
  modify (·.modifyQuery id fun q ↦ { q with modifiers := f q.modifiers })

def groupBy (id : QueryId) (args : List Value) : Action Unit := do
  let args := unpacked args
  if args.isEmpty then fail .nothingToGroupBy
  let es ← expressions projectionKinds args
  note (.query id) (noteAll es)
  modifyModifiers id ({ · with groupBy := some es })

def having (id : QueryId) (condition : Value) : Action Unit := do
  let e ← expression conditionKinds condition
  note (.query id) (·.useAssigning e)
  modifyModifiers id ({ · with having := some e })

def direction (v : Value) : Action Direction := do
  let keyword := upper (← ofResult (v.label (← get).objectText))
  match Direction.ofKeyword? keyword with
  | some d => return d
  | none => fail (.invalidDirection keyword)

def orderBy (id : QueryId) (v : Value) (towards : Value) : Action Unit := do
  let d ← direction towards
  let e ← expression orderKinds v
  note (.query id) (·.useAssigning e)
  modifyModifiers id ({ · with orderBy := some (d, e) })

def count (slice : Slice) : Value → Except Error Nat
  | .int (.ofNat n) => .ok n
  | v => .error (.invalidCount slice v.shown)

def setSlice (id : QueryId) (slice : Slice) (v : Value) : Action Unit := do
  let n ← ofResult (count slice v)
  modifyModifiers id (·.setSlice n slice)

end SparqlComposer.Action
