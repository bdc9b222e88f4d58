import SparqlComposer.Session.Argument
import SparqlComposer.Session.Nesting

/-!
# Building patterns

Triples, constraints, optional parts, unions and subqueries are added to the graph at a site. Every
action reads its arguments and completes the patterns it is given, which may fail, before it
changes the session.
-/

namespace SparqlComposer.Action

def triple (subject predicate object : Value) :
    Action (Expression × Expression × Expression) := do
  let s ← expression subjectKinds subject
  let p ← expression predicateKinds predicate
  let o ← expression objectKinds object
  return (s, p, o)

def noteTriple (s p o : Expression) (l : Ledger) : Ledger := ((l.useTerm s).useTerm p).useTerm o

def addTriple (site : Site) (subject predicate object : Value) : Action Unit := do
  let (s, p, o) ← triple subject predicate object
  note site (noteTriple s p o)
  build site (·.addTriple s.text p.text o.text)

/-- Continues the last triple: with an object, or with a predicate and an object. Three terms make
a new triple. -/
def continueTriple (site : Site) (args : List Value) : Action Unit := do
  match args, ((← get).graphAt site).current with
  | [subject, predicate, object], _ => addTriple site subject predicate object
  | [object], some (subject, predicate) =>
      addTriple site (.text subject) (.text predicate) object
  | [predicate, object], some (subject, _) => addTriple site (.text subject) predicate object
  | [_], none | [_, _], none => fail .noCurrentTriple
  | args, _ => fail (.continuationArity args.length)

def filter (site : Site) (condition : Value) : Action Unit := do
  let e ← expression conditionKinds condition
  note site (·.use e)
  build site (·.addConstraint (.condition e))

/-- The pattern that arguments give: that of a graph as it stands now, or that of a single triple,
which counts as a triple of the site. -/
def block (site : Site) (args : List Value) : Action Pattern := do
  match args with
  | [.object (.graph id)] =>
      let s ← get
      ofResult (s.pattern (s.graph id))
  | [subject, predicate, object] =>
      let (s, p, o) ← triple subject predicate object
      note site (noteTriple s p o)
      let ledger := ((← get).graphAt site).ledger
      return Graph.pattern (Graph.addTriple { ledger } s.text p.text o.text) []
  | _ => fail .wrongArguments

def filterExists (site : Site) (args : List Value) : Action Unit := do
  let p ← block site args
  build site (·.addConstraint (.present p))

def filterNotExists (site : Site) (args : List Value) : Action Unit := do
  let p ← block site args
  build site (·.addConstraint (.absent p))

def optional (site : Site) (args : List Value) : Action Unit := do
  let p ← block site args
  build site (·.addOptional p)

def members : List Value → Except Error (List GraphId)
  | [] => .ok []
  | .object (.graph id) :: vs => return id :: (← members vs)
  | v :: _ => .error (.notAGraph v.typeName)

/-- Adds a union of graphs as they stand now. -/
def union (site : Site) (args : List Value) : Action Unit := do
  if args.isEmpty then fail .emptyUnion
  let ids ← ofResult (members args)
  let s ← get
  let patterns ← ofResult (ids.mapM fun id ↦ s.pattern (s.graph id))
  build site (·.addUnion patterns)

/-- Puts a query into the graph at a site, where the variables it projects now are defined. -/
def attach (site : Site) (q : QueryId) : Action Unit := do
  let s ← get
  let projected := (s.query q).projectedVariables (s.queryLedger q)
  note site (·.defineVariables projected)
  build site (·.addSubquery q)

def graphSubquery (id : GraphId) : Value → Action Unit
  | .object (.query q) => attach (.graph id) q
  | _ => fail .nothingProjected

/-- Puts a query into another one, unless it would contain itself. -/
def querySubquery (id : QueryId) : Value → Action Unit
  | .object (.query q) => do
      if q = id ∨ (← get).contains q id then fail .recursiveSubquery
      attach (.query id) q
  | v => fail (.notASubquery v.typeName)

end SparqlComposer.Action
