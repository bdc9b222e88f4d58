import SparqlComposer.Session.Call

/-!
# The parts of a query

What is built at a query goes to one of its parts: its prefixes, its head, one of the five parts of
its graph, or one of its modifiers. The subject and predicate that the next triple may continue
belong to the triples.
-/

namespace SparqlComposer

inductive QueryPart where
  | prefixes
  | head
  | subqueries
  | triples
  | optionals
  | constraints
  | unions
  | groupBy
  | having
  | orderBy
  | slice (slice : Slice)
  deriving DecidableEq

def QueryPart.Content : QueryPart → Type
  | prefixes => OrderedMap Text Text
  | head => Option Head
  | subqueries => List QueryId
  | triples => Triples × Option (Text × Text)
  | optionals => List Pattern
  | constraints => List Constraint
  | unions => List (List Pattern)
  | groupBy => Option (List Expression)
  | having => Option Expression
  | orderBy => Option (Direction × Expression)
  | slice _ => Option Nat

/-- Whether what is put into a part depends on what is there already: on the prefixes that are bound,
on whether there is a head, or on the triple that may be continued. -/
def QueryPart.isRead : QueryPart → Bool
  | prefixes | head | triples => true
  | subqueries | optionals | constraints | unions | groupBy | having | orderBy | slice _ => false

/-! ## Reading and altering parts -/

namespace Query

def get (q : Query) : (p : QueryPart) → p.Content
  | .prefixes => q.prefixes
  | .head => q.head
  | .subqueries => q.graph.subqueries
  | .triples => (q.graph.triples, q.graph.current)
  | .optionals => q.graph.optionals
  | .constraints => q.graph.constraints
  | .unions => q.graph.unions
  | .groupBy => q.modifiers.groupBy
  | .having => q.modifiers.having
  | .orderBy => q.modifiers.orderBy
  | .slice .limit => q.modifiers.limit
  | .slice .offset => q.modifiers.offset

def put (q : Query) : (p : QueryPart) → p.Content → Query
  | .prefixes, prefixes => { q with prefixes }
  | .head, head => { q with head }
  | .subqueries, subqueries => { q with graph := { q.graph with subqueries } }
  | .triples, (triples, current) => { q with graph := { q.graph with triples, current } }
  | .optionals, optionals => { q with graph := { q.graph with optionals } }
  | .constraints, constraints => { q with graph := { q.graph with constraints } }
  | .unions, unions => { q with graph := { q.graph with unions } }
  | .groupBy, groupBy => { q with modifiers := { q.modifiers with groupBy } }
  | .having, having => { q with modifiers := { q.modifiers with having } }
  | .orderBy, orderBy => { q with modifiers := { q.modifiers with orderBy } }
  | .slice .limit, limit => { q with modifiers := { q.modifiers with limit } }
  | .slice .offset, offset => { q with modifiers := { q.modifiers with offset } }

/-- What becomes of a query when one of its parts is changed. -/
def alter (p : QueryPart) (f : p.Content → p.Content) (q : Query) : Query := q.put p (f (q.get p))

variable {a b : Query} {p p' : QueryPart} {f : p.Content → p.Content}

/-- A query consists of its parts and of the ledger of its graph. -/
theorem ext_get (hledger : a.graph.ledger = b.graph.ledger) (h : ∀ p, a.get p = b.get p) :
    a = b := by
  obtain ⟨⟨_, _, _, _, _, _, _⟩, _, _, ⟨_, _, _, _, _⟩⟩ := a
  obtain ⟨⟨_, _, _, _, _, _, _⟩, _, _, ⟨_, _, _, _, _⟩⟩ := b
  have hprefixes := h .prefixes
  have hhead := h .head
  have hsubqueries := h .subqueries
  have htriples := Prod.mk.inj (h .triples)
  have hoptionals := h .optionals
  have hconstraints := h .constraints
  have hunions := h .unions
  have hgroupBy := h .groupBy
  have hhaving := h .having
  have horderBy := h .orderBy
  have hlimit := h (.slice .limit)
  have hoffset := h (.slice .offset)
  simp only [get] at *
  simp only [*]

@[simp] theorem ledger_alter (q : Query) : (q.alter p f).graph.ledger = q.graph.ledger := by
  cases p with
  | slice which => cases which <;> rfl
  | _ => rfl

theorem get_alter_self (q : Query) : (q.alter p f).get p = f (q.get p) := by
  cases p with
  | slice which => cases which <;> rfl
  | _ => rfl

theorem get_alter_of_ne (q : Query) (h : p' ≠ p) : (q.alter p f).get p' = q.get p' := by
  cases p with
  | slice which =>
      cases which <;> cases p' with
      | slice which' => cases which' <;> first | rfl | exact absurd rfl h
      | _ => rfl
  | _ =>
      cases p' with
      | slice which' => cases which' <;> rfl
      | _ => first | rfl | exact absurd rfl h

/-- Queries that have the same in a part have the same in it after a change of whatever part. -/
theorem get_alter_congr (h : a.get p' = b.get p') :
    (a.alter p f).get p' = (b.alter p f).get p' := by
  by_cases heq : p' = p
  · subst heq
    rw [get_alter_self, get_alter_self, h]
  · rw [get_alter_of_ne a heq, get_alter_of_ne b heq, h]

end Query

/-! ## What calls build -/

def PatternMethod.part : PatternMethod → QueryPart
  | addTriple | continueTriple => .triples
  | filter | filterExists | filterNotExists => .constraints
  | optional => .optionals
  | union => .unions

def QueryMethod.part? : QueryMethod → Option QueryPart
  | bindPrefix | bindPrefixes => some .prefixes
  | select _ | describe => some .head
  | subquery => some .subqueries
  | groupBy => some .groupBy
  | having => some .having
  | orderBy => some .orderBy
  | slice which => some (.slice which)
  | boundPrefixes | projectedVariables | hasSubquery | newSubquery | newSubgraph | render | print
  | format => none

/-- The query and the part of it that a call builds. -/
def Call.part? : Call → Option (QueryId × QueryPart)
  | pattern (.query q) m _ => some (q, m.part)
  | query q m _ => m.part?.map fun p ↦ (q, p)
  | _ => none

theorem Call.part?_query (q : QueryId) {m : QueryMethod} {p : QueryPart} (hp : m.part? = some p)
    (args : List Value) : (query q m args).part? = some (q, p) := by
  rw [part?, hp, Option.map_some]

/-- A part that a single method is for is built by calls of that method only. -/
theorem Call.eq_query_of_part? {c : Call} {q : QueryId} {p : QueryPart} {m : QueryMethod}
    (hc : c.part? = some (q, p)) (hpattern : ∀ m' : PatternMethod, m'.part ≠ p)
    (hunique : ∀ m' : QueryMethod, m'.part? = some p → m' = m) : ∃ args, c = .query q m args := by
  cases c with
  | pattern site m' args =>
      cases site with
      | graph _ => exact nomatch hc
      | query _ => exact absurd (Prod.mk.inj (Option.some.inj hc)).2 (hpattern m')
  | query t m' args =>
      obtain ⟨p', hm, heq⟩ := Option.map_eq_some_iff.mp hc
      obtain ⟨rfl, rfl⟩ := Prod.mk.inj heq
      exact ⟨args, by rw [hunique m' hm]⟩
  | _ => exact nomatch hc

theorem Call.eq_subquery {c : Call} {x : QueryId} (hc : c.part? = some (x, .subqueries)) :
    ∃ args, c = .query x .subquery args := by
  refine eq_query_of_part? hc (fun m' h ↦ ?_) fun m' hm' ↦ ?_
  · cases m' <;> cases h
  · cases m' with
    | subquery => rfl
    | _ => cases hm'

/-- The values that are handed to a call. -/
def Call.args : Call → List Value
  | newLedger | newGraph _ | setValidation _ => []
  | newQuery prefixes => [prefixes]
  | ledger _ _ args | pattern _ _ args | graph _ _ args | query _ _ args => args

end SparqlComposer
