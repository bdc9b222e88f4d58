import SparqlComposer.Layout
import SparqlComposer.Session.Building
import SparqlComposer.Session.Clause
import SparqlComposer.Session.Creation

/-!
# Calls

Everything that can be asked of a session, as data: the methods of ledgers, graphs and queries
with their arguments, the making of new objects, and the setting. A call is answered, or fails
with an error; a method with arguments that do not fit it fails as well.
-/

namespace SparqlComposer

inductive LedgerMethod where
  | defineVariables
  | useVariables
  | definePrefixes
  | usePrefixes
  | missingPrefixes
  | missingVariables
  | validate
  deriving DecidableEq

/-- What builds a graph pattern, in a graph by itself or in a query. -/
inductive PatternMethod where
  | addTriple
  | continueTriple
  | filter
  | filterExists
  | filterNotExists
  | optional
  | union
  deriving DecidableEq

/-- What else can be asked of a graph by itself. -/
inductive GraphMethod where
  | subquery
  | render
  deriving DecidableEq

/-- What else can be asked of a query. -/
inductive QueryMethod where
  | bindPrefix
  | bindPrefixes
  | boundPrefixes
  | select (uniqueness : Option Uniqueness)
  | describe
  | projectedVariables
  | subquery
  | hasSubquery
  | newSubquery
  | newSubgraph
  | groupBy
  | having
  | orderBy
  | slice (slice : Slice)
  | render
  | print
  | format
  deriving DecidableEq

inductive Call where
  | newLedger
  | newGraph (ledger : LedgerId)
  | newQuery (prefixes : Value)
  | ledger (id : LedgerId) (method : LedgerMethod) (args : List Value)
  | pattern (site : Site) (method : PatternMethod) (args : List Value)
  | graph (id : GraphId) (method : GraphMethod) (args : List Value)
  | query (id : QueryId) (method : QueryMethod) (args : List Value)
  | setValidation (validates : Bool)

/-- The object whose pattern is built at a site. -/
def Site.object : Site → Ref
  | graph id => .graph id
  | query id => .query id

def Call.objects : Call → List Ref
  | newLedger | setValidation _ => []
  | newGraph id => [.ledger id]
  | newQuery prefixes => prefixes.objects
  | ledger id _ args => .ledger id :: Value.allObjects args
  | pattern site _ args => site.object :: Value.allObjects args
  | graph id _ args => .graph id :: Value.allObjects args
  | query id _ args => .query id :: Value.allObjects args

inductive Answer where
  /-- The object that was asked. -/
  | itself
  | made (r : Ref)
  | nothing
  | text (t : Text)
  | flag (b : Bool)
  | entries (entries : List Entry)
  | bindings (entries : List (Text × Text))

namespace Action

/-- Enters values into a ledger one after the other, up to the first that has no key. -/
def enterEach (id : LedgerId) (enter : Ledger → List Entry → Ledger) : List Value → Action Unit
  | [] => pure ()
  | v :: vs => do
      match Entry.ofValue? v with
      | some e => modify (·.modifyLedger id (enter · [e]))
      | none => fail .keyless
      enterEach id enter vs

/-- Enters what an argument gives into a ledger: the names captured from a text, or the items of a
collection. -/
def enterGiven (id : LedgerId) (captured : Text → List Entry)
    (enter : Ledger → List Entry → Ledger) (v : Value) : Action Answer := do
  match v.asText?, v.items? with
  | some t, _ => modify (·.modifyLedger id (enter · (captured t)))
  | none, some items => enterEach id enter items
  | none, none => fail .notIterable
  return .nothing

/-- Answers from the session as it stands. -/
def ask (f : Session → Except Error Answer) : Action Answer := do ofResult (f (← get))

/-- Answers with the object that was asked. -/
def done (a : Action Unit) : Action Answer := do
  a
  return .itself

def askLedger (id : LedgerId) : LedgerMethod → List Value → Action Answer
  | .defineVariables, [v] =>
      enterGiven id (fun t ↦ (variablesOf t).entries ++ (assignmentsOf t).entries)
        Ledger.defineVariables v
  | .useVariables, [v] => enterGiven id (variablesOf · |>.entries) Ledger.useVariables v
  | .definePrefixes, [v] => enterGiven id (prefixesOf · |>.entries) Ledger.definePrefixes v
  | .usePrefixes, [v] => enterGiven id (prefixesOf · |>.entries) Ledger.usePrefixes v
  | .missingPrefixes, [] => ask fun s ↦ .ok (.entries (s.ledger id).missingPrefixes)
  | .missingVariables, [] => ask fun s ↦ .ok (.entries (s.ledger id).missingVariables)
  | .validate, [] => ask fun s ↦ (s.ledger id).validate.map fun _ ↦ .nothing
  | _, _ => fail .wrongArguments

def buildPattern (site : Site) : PatternMethod → List Value → Action Answer
  | .addTriple, [subject, predicate, object] => done (addTriple site subject predicate object)
  | .continueTriple, args => done (continueTriple site args)
  | .filter, [condition] => done (filter site condition)
  | .filterExists, args => done (filterExists site args)
  | .filterNotExists, args => done (filterNotExists site args)
  | .optional, args => done (optional site args)
  | .union, args => done (union site args)
  | _, _ => fail .wrongArguments

def askGraph (id : GraphId) : GraphMethod → List Value → Action Answer
  | .subquery, [v] => done (graphSubquery id v)
  | .render, [] => ask fun s ↦ (s.graphText id).map .text
  | _, _ => fail .wrongArguments

def askQuery (id : QueryId) : QueryMethod → List Value → Action Answer
  | .bindPrefix, [name, iri] => done (bindPrefix id name iri)
  | .bindPrefixes, [collection] => done (bindPrefixes id collection)
  | .boundPrefixes, [] => ask fun s ↦ .ok (.bindings (s.query id).prefixes.entries)
  | .select uniqueness, args => done (setHead id .select uniqueness projectionKinds args)
  | .describe, args => done (setHead id .describe none describedKinds args)
  | .projectedVariables, [] => ask fun s ↦
      .ok (.entries ((s.query id).projectedVariables (s.queryLedger id)))
  | .subquery, [v] => done (querySubquery id v)
  | .hasSubquery, [.object (.query target)] => ask fun s ↦ .ok (.flag (s.contains id target))
  | .hasSubquery, [_] => ask fun _ ↦ .ok (.flag false)
  | .newSubquery, [] => return .made (.query (← newSubquery id))
  | .newSubgraph, [] => return .made (.graph (← newSubgraph id))
  | .groupBy, args => done (groupBy id args)
  | .having, [condition] => done (having id condition)
  | .orderBy, [v] => done (orderBy id v (.text Direction.ascending.keyword))
  | .orderBy, [v, towards] => done (orderBy id v towards)
  | .slice slice, [v] => done (setSlice id slice v)
  | .render, [] => ask fun s ↦ (s.queryText id true).map .text
  | .render, [v] => ask fun s ↦ (s.queryText id v.isGiven).map .text
  | .print, [] => ask fun s ↦ (s.queryText id true).map .text
  | .format, [] => ask fun s ↦ (s.queryText id true).map fun t ↦ .text (formatted t)
  | _, _ => fail .wrongArguments

def call : Call → Action Answer
  | .newLedger => return .made (.ledger (← newLedger))
  | .newGraph ledger => return .made (.graph (← newGraph ledger))
  | .newQuery prefixes => return .made (.query (← newQuery prefixes))
  | .ledger id method args => askLedger id method args
  | .pattern site method args => buildPattern site method args
  | .graph id method args => askGraph id method args
  | .query id method args => askQuery id method args
  | .setValidation validates => do
      modify ({ · with validates })
      return .flag validates

end Action

namespace Session

def empty : Session := {}

/-- The answer to a call, and the session after it. A call that mentions an object the session
does not hold fails. -/
def call (s : Session) (c : Call) : Except Error Answer × Session :=
  if c.objects.all s.holds then (Action.call c).perform s else (.error .unknownObject, s)

/-- The session after the calls, whether they succeed or fail. -/
def run (s : Session) (calls : List Call) : Session := calls.foldl (fun s c ↦ (s.call c).2) s

/-- The sessions that calls can bring about. -/
def Reachable (s : Session) : Prop := ∃ calls, s = empty.run calls

end Session

end SparqlComposer
