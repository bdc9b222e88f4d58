import SparqlComposer.Session.Text

/-!
# Endpoints

A query is sent to an endpoint as a parameter of a request, beside one that asks for the answer
in JSON. What comes back is a decoded answer, or a reason why there is none.
-/

namespace SparqlComposer

/-- An endpoint, with the names of the parameters under which it expects the query and the format
of the answer. -/
structure Endpoint where
  url : Text
  queryParam : Option Text := some "query".toList
  formatParam : Option Text := some "format".toList
  userAgent : Value := .null
  timeout : Value := .null

structure Request where
  url : Text
  params : OrderedMap (Option Text) Text
  headers : List (Text × Value)
  timeout : Value
  followsRedirects : Bool

inductive Body (α : Type) where
  | json (value : α)
  | malformed (reason : Text)

inductive Reply (α : Type) where
  | failed (reason : Text)
  | answered (status : Int) (body : Body α)

namespace Endpoint

def defaultUserAgent : Text := "sparqlbuilder/0.1.0".toList

/-- How many seconds an answer is waited for, unless it is told otherwise. -/
def defaultTimeout : Int := 30

def leastErrorStatus : Int := 400

def request (e : Endpoint) (query : Text) : Request where
  url := e.url
  params := .ofList [(e.queryParam, query), (e.formatParam, "json".toList)]
  headers := [("User-Agent".toList,
    if e.userAgent.isGiven then e.userAgent else .text defaultUserAgent)]
  timeout := if e.timeout.isGiven then e.timeout else .int defaultTimeout
  followsRedirects := true

def interpret {α : Type} (e : Endpoint) : Reply α → Except Error α
  | .failed reason => .error (.unreachable e.url reason)
  | .answered status body =>
      if leastErrorStatus ≤ status then .error (.refused e.url status)
      else match body with
        | .json value => .ok value
        | .malformed reason => .error (.undecodable e.url reason status)

end Endpoint

/-- The text by which a value is sent to an endpoint: a query is written, and texts are sent as
they are. -/
def Session.sendable (s : Session) : Value → Except Error Text
  | .object (.query id) => s.queryText id true
  | v => match v.asText? with
    | some t => .ok t
    | none => .error (.notExecutable v.typeName)

end SparqlComposer
