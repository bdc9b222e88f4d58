import Mathlib.Logic.Relation
import SparqlComposer.Proofs.Expression.Classify
import SparqlComposer.Session.Call

/-!
# What a call changes

Whatever is asked of a session, the session changes by a sequence of few kinds of changes: a new
object, entries in a ledger that is handed out, something built into the graph at a site, and
something set in a query. Every call but the declaration of several prefixes, the entering of a
collection and the making of a query with prefixes is one such change or none, and changes nothing
when it fails.
-/

namespace SparqlComposer

open SparqlComposer.Action

/-- The ways in which a single block is put into a graph. -/
inductive Embedding where
  | present
  | absent
  | optional

def Embedding.add (p : Pattern) : Embedding → Graph → Graph
  | present, g => g.addConstraint (.present p)
  | absent, g => g.addConstraint (.absent p)
  | optional, g => g.addOptional p

def triplePattern (ledger : LedgerId) (x y z : Expression) : Pattern :=
  Graph.pattern (Graph.addTriple { ledger } x.text y.text z.text) []

/-- What can be built at a site: what is entered into its ledger, and what is added to its graph. -/
inductive Building (s : Session) (site : Site) : (Ledger → Ledger) → (Graph → Graph) → Prop where
  | triple {x y z : Expression} (hx : x.IsOf subjectKinds) (hy : y.IsOf predicateKinds)
      (hz : z.IsOf objectKinds) :
      Building s site (noteTriple x y z) (·.addTriple x.text y.text z.text)
  | condition {e : Expression} (he : e.IsOf conditionKinds) :
      Building s site (·.use e) (·.addConstraint (.condition e))
  | block (k : Embedding) {id : GraphId} {p : Pattern} (hid : s.holds (.graph id))
      (hp : s.pattern (s.graph id) = .ok p) : Building s site (fun l ↦ l) (k.add p)
  | tripleBlock (k : Embedding) {x y z : Expression} (hx : x.IsOf subjectKinds)
      (hy : y.IsOf predicateKinds) (hz : z.IsOf objectKinds) :
      Building s site (noteTriple x y z) (k.add (triplePattern (s.graphAt site).ledger x y z))
  | union {ids : List GraphId} {ps : List Pattern} (hne : ids ≠ [])
      (hids : ∀ id ∈ ids, s.holds (.graph id))
      (hps : ids.mapM (fun id ↦ s.pattern (s.graph id)) = .ok ps) :
      Building s site (fun l ↦ l) (·.addUnion ps)
  | subquery {q : QueryId} (hq : s.holds (.query q))
      (hnew : ∀ outer, site = .query outer → q ≠ outer ∧ s.contains q outer = false) :
      Building s site (·.defineVariables ((s.query q).projectedVariables (s.queryLedger q)))
        (·.addSubquery q)

inductive ModifierSetting : List Expression → (Modifiers → Modifiers) → Prop where
  | groupBy {es : List Expression} (hne : es ≠ []) (hes : ∀ e ∈ es, e.IsOf projectionKinds) :
      ModifierSetting es ({ · with groupBy := some es })
  | having {e : Expression} (he : e.IsOf conditionKinds) :
      ModifierSetting [e] ({ · with having := some e })
  | orderBy {e : Expression} (d : Direction) (he : e.IsOf orderKinds) :
      ModifierSetting [e] ({ · with orderBy := some (d, e) })
  | slice (n : Nat) (slice : Slice) : ModifierSetting [] (·.setSlice n slice)

/-- What can be set in a query: what is entered into its ledger, and what becomes of it. -/
inductive Setting (s : Session) (id : QueryId) : (Ledger → Ledger) → (Query → Query) → Prop where
  | binding {n i : Expression} (hn : n.IsOf [.prefixName]) (hi : i.IsOf [.iri])
      (hfree : ∀ bound, (s.query id).prefixes.find? n.text = some bound → bound = i.text) :
      Setting s id (·.definePrefixes [.ofName n.text])
        fun q ↦ { q with prefixes := q.prefixes.insert n.text i.text }
  | head (form : Form) (uniqueness : Option Uniqueness) {kinds : List Kind} {es : List Expression}
      (hkinds : kinds = projectionKinds ∨ kinds = describedKinds) (hes : ∀ e ∈ es, e.IsOf kinds)
      (hnone : (s.query id).head = none) :
      Setting s id (noteAll es) fun q ↦ { q with head := some ⟨form, uniqueness, es⟩ }
  | modifier {es : List Expression} {f : Modifiers → Modifiers} (h : ModifierSetting es f) :
      Setting s id (noteAll es) fun q ↦ { q with modifiers := f q.modifiers }

def enterings : List (Ledger → List Entry → Ledger) :=
  [Ledger.defineVariables, Ledger.useVariables, Ledger.definePrefixes, Ledger.usePrefixes]

namespace Session

def built (s : Session) (site : Site) (f : Ledger → Ledger) (g : Graph → Graph) : Session :=
  (s.modifyLedger (s.graphAt site).ledger f).modifyGraphAt site g

def settled (s : Session) (id : QueryId) (f : Ledger → Ledger) (g : Query → Query) : Session :=
  (s.modifyLedger (s.query id).graph.ledger f).modifyQuery id g

def withLedger (s : Session) : Session := { s with ledgers := s.ledgers ++ [{}] }

def withGraph (s : Session) (ledger : LedgerId) : Session :=
  { s with graphs := s.graphs ++ [{ ledger }] }

def withQuery (s : Session) : Session :=
  { s with
    ledgers := s.ledgers ++ [{}]
    queries := s.queries ++ [{ graph := { ledger := s.ledgers.length } }] }

inductive Change (s : Session) : Session → Prop where
  | newLedger : Change s s.withLedger
  | newGraph {ledger : LedgerId} (h : ledger < s.ledgers.length) : Change s (s.withGraph ledger)
  | newQuery : Change s s.withQuery
  | entries {id : LedgerId} (h : s.holds (.ledger id))
      {enter : Ledger → List Entry → Ledger} (henter : enter ∈ enterings) (es : List Entry) :
      Change s (s.modifyLedger id (enter · es))
  | building {site : Site} (h : s.holds site.object) {f : Ledger → Ledger} {g : Graph → Graph}
      (hfg : Building s site f g) : Change s (s.built site f g)
  | setting {id : QueryId} (h : s.holds (.query id)) {f : Ledger → Ledger} {g : Query → Query}
      (hfg : Setting s id f g) : Change s (s.settled id f g)
  | validation (validates : Bool) : Change s { s with validates }

abbrev Changes : Session → Session → Prop := Relation.ReflTransGen Change

/-! ## Reading after a change -/

section Reading

variable {s : Session} {site : Site} {id : QueryId} {f : Ledger → Ledger}

theorem holds_query_iff {q : QueryId} : s.holds (.query q) ↔ q < s.queries.length := by
  simp [holds]

theorem holds_graph_iff {g : GraphId} : s.holds (.graph g) ↔ g < s.graphs.length := by
  simp [holds]

theorem length_built (s : Session) (site : Site) (f : Ledger → Ledger) (g : Graph → Graph) :
    (s.built site f g).ledgers.length = s.ledgers.length ∧
      (s.built site f g).graphs.length = s.graphs.length ∧
      (s.built site f g).queries.length = s.queries.length := by
  cases site <;> simp [built, modifyGraphAt, modifyGraph, modifyQuery, modifyLedger]

theorem length_settled {g : Query → Query} :
    (s.settled id f g).ledgers.length = s.ledgers.length ∧
      (s.settled id f g).graphs = s.graphs ∧
      (s.settled id f g).queries.length = s.queries.length := by
  simp [settled, modifyQuery, modifyLedger]

theorem Change.holds_query {s' : Session} (h : s.Change s') (hid : s.holds (.query id)) :
    s'.holds (.query id) := by
  rw [holds_query_iff] at hid ⊢
  cases h with
  | newQuery => simpa [withQuery] using Nat.lt_succ_of_lt hid
  | building _ _ => rwa [(length_built s _ _ _).2.2]
  | setting _ _ => rwa [length_settled.2.2]
  | newLedger | newGraph _ | entries _ _ _ | validation _ => exact hid

theorem Changes.holds_query {s' : Session} (h : s.Changes s') (hid : s.holds (.query id)) :
    s'.holds (.query id) := by
  induction h with
  | refl => exact hid
  | tail _ hchange ih => exact hchange.holds_query ih

/-- Whether a session holds what is built at a site depends on the numbers of objects only. -/
theorem holds_object_congr {s' : Session} (hgraphs : s'.graphs.length = s.graphs.length)
    (hqueries : s'.queries.length = s.queries.length) :
    s'.holds site.object ↔ s.holds site.object := by
  cases site with
  | graph id => rw [Site.object, holds_graph_iff, holds_graph_iff, hgraphs]
  | query id => rw [Site.object, holds_query_iff, holds_query_iff, hqueries]

theorem query_eq_of_length_le (h : s.queries.length ≤ id) :
    s.query id = { graph := { ledger := 0 } } := by
  simp [query, List.getElem?_eq_none h]

@[simp] theorem graphAt_query : s.graphAt (.query id) = (s.query id).graph := rfl

theorem query_empty (id : QueryId) : empty.query id = { graph := { ledger := 0 } } := by
  simp [query, empty]

theorem graphAt_empty (site : Site) : empty.graphAt site = { ledger := 0 } := by
  cases site <;> simp [graphAt, graph, query, empty]

theorem ledger_built_self {g : Graph → Graph} (h : (s.graphAt site).ledger < s.ledgers.length) :
    (s.built site f g).ledger (s.graphAt site).ledger = f (s.ledger (s.graphAt site).ledger) := by
  rw [← ledger_modifyLedger_self s f h]
  cases site <;> rfl

theorem ledger_built_of_ne {g : Graph → Graph} {l : LedgerId} (h : (s.graphAt site).ledger ≠ l) :
    (s.built site f g).ledger l = s.ledger l := by
  rw [← ledger_modifyLedger_of_ne s f h]
  cases site <;> rfl

theorem graphAt_built_self {g : Graph → Graph} (h : s.holds site.object) :
    (s.built site f g).graphAt site = g (s.graphAt site) := by
  cases site with
  | graph id =>
      have hlt : id < s.graphs.length := by simpa [holds, Site.object] using h
      simp [built, modifyGraphAt, modifyGraph, modifyLedger, graphAt, graph, hlt]
  | query id =>
      have hlt : id < s.queries.length := by simpa [holds, Site.object] using h
      exact congrArg Query.graph (query_modifyQuery_self (s.modifyLedger _ f) _ hlt)

theorem graphAt_built_of_ne {g : Graph → Graph} {other : Site} (h : other ≠ site) :
    (s.built site f g).graphAt other = s.graphAt other := by
  cases site with
  | graph id =>
      cases other with
      | graph id' =>
          have hne : id ≠ id' := fun heq ↦ h (heq ▸ rfl)
          simp [built, modifyGraphAt, modifyGraph, modifyLedger, graphAt, graph, hne]
      | query id' => rfl
  | query id =>
      cases other with
      | graph id' => rfl
      | query id' =>
          have hne : id ≠ id' := fun heq ↦ h (heq ▸ rfl)
          exact congrArg Query.graph (query_modifyQuery_of_ne (s.modifyLedger _ f) _ hne)

/-- Building changes nothing of a query but its graph. -/
theorem query_built {g : Graph → Graph} :
    (s.built site f g).query id = { s.query id with graph := (s.built site f g).graphAt (.query id) } := by
  cases site with
  | graph _ => rfl
  | query outer =>
      by_cases heq : outer = id
      · subst heq
        by_cases hlt : outer < s.queries.length
        · rw [graphAt_built_self (by simpa [holds, Site.object] using hlt)]
          exact query_modifyQuery_self (s.modifyLedger _ f) _ hlt
        · have hle : s.queries.length ≤ outer := Nat.le_of_not_lt hlt
          rw [graphAt_query, query_eq_of_length_le hle, query_eq_of_length_le]
          simpa [built, modifyGraphAt, modifyQuery, modifyLedger] using hle
      · rw [graphAt_built_of_ne (by simpa using Ne.symm heq)]
        exact query_modifyQuery_of_ne (s.modifyLedger _ f) _ heq

theorem ledger_settled_self {g : Query → Query}
    (h : (s.query id).graph.ledger < s.ledgers.length) :
    (s.settled id f g).ledger (s.query id).graph.ledger = f (s.queryLedger id) :=
  ledger_modifyLedger_self s f h

theorem ledger_settled_of_ne {g : Query → Query} {l : LedgerId}
    (h : (s.query id).graph.ledger ≠ l) : (s.settled id f g).ledger l = s.ledger l :=
  ledger_modifyLedger_of_ne s f h

theorem query_settled_self {g : Query → Query} (h : s.holds (.query id)) :
    (s.settled id f g).query id = g (s.query id) :=
  query_modifyQuery_self (s.modifyLedger _ f) g (by simpa [holds, modifyLedger] using h)

theorem query_settled_of_ne {g : Query → Query} {other : QueryId} (h : id ≠ other) :
    (s.settled id f g).query other = s.query other :=
  query_modifyQuery_of_ne (s.modifyLedger _ f) g h

theorem getD_append_new {α : Type} (as : List α) (a d : α) (n : Nat) :
    (as ++ [a]).getD n d = if n = as.length then a else as.getD n d := by
  rcases Nat.lt_trichotomy n as.length with h | rfl | h
  · simp [List.getD, List.getElem?_append_left h, Nat.ne_of_lt h]
  · simp [List.getD]
  · have hle : (as ++ [a]).length ≤ n := by simpa using Nat.succ_le_of_lt h
    simp [List.getD, List.getElem?_eq_none hle, List.getElem?_eq_none (Nat.le_of_lt h),
      Nat.ne_of_gt h]

/-- A new ledger is as empty as one that is not there. -/
theorem getD_append_ledger (ls : List Ledger) (l : LedgerId) :
    (ls ++ [({} : Ledger)]).getD l {} = ls.getD l {} := by
  rw [getD_append_new]
  split
  · rename_i h
    rw [h, List.getD, List.getElem?_eq_none (Nat.le_refl _), Option.getD_none]
  · rfl

@[simp] theorem ledger_withLedger (l : LedgerId) : s.withLedger.ledger l = s.ledger l :=
  getD_append_ledger s.ledgers l

@[simp] theorem ledger_withQuery (l : LedgerId) : s.withQuery.ledger l = s.ledger l :=
  getD_append_ledger s.ledgers l

theorem graphAt_withGraph (ledger : LedgerId) : (s.withGraph ledger).graphAt site =
    if site = .graph s.graphs.length then { ledger } else s.graphAt site := by
  cases site with
  | graph id =>
      have h : (s.withGraph ledger).graph id = if id = s.graphs.length then { ledger }
          else s.graph id := getD_append_new s.graphs _ _ id
      simpa [graphAt] using h
  | query id => rfl

theorem query_withQuery : s.withQuery.query id =
    if id = s.queries.length then { graph := { ledger := s.ledgers.length } } else s.query id :=
  getD_append_new s.queries _ _ id

theorem holds_withQuery_new : s.withQuery.holds (.query s.queries.length) := by
  simp [holds, withQuery]

theorem graphAt_withQuery : s.withQuery.graphAt site =
    if site = .query s.queries.length then { ledger := s.ledgers.length }
    else s.graphAt site := by
  cases site with
  | graph id => rfl
  | query id =>
      rw [graphAt_query, query_withQuery]
      by_cases h : id = s.queries.length <;> simp [h]

end Reading

end Session

/-- What is built leaves the ledger of the graph. -/
theorem Building.ledger_eq {s : Session} {site : Site} {f : Ledger → Ledger} {g : Graph → Graph}
    (h : Building s site f g) (graph : Graph) : (g graph).ledger = graph.ledger := by
  cases h with
  | block k _ _ => cases k <;> rfl
  | tripleBlock k _ _ _ => cases k <;> rfl
  | _ => rfl

/-- What is set leaves the graph of the query. -/
theorem Setting.graph_eq {s : Session} {id : QueryId} {f : Ledger → Ledger} {g : Query → Query}
    (h : Setting s id f g) (q : Query) : (g q).graph = q.graph := by
  cases h <;> rfl

/-! ## Heads are set once -/

namespace Session

variable {s s' : Session} {id : QueryId}

theorem Change.head_eq (h : s.Change s') {head : Head}
    (hhead : (s.query id).head = some head) : (s'.query id).head = some head := by
  cases h with
  | newQuery =>
      rw [query_withQuery]
      split
      · rename_i hnew
        rw [query_eq_of_length_le (Nat.le_of_eq hnew.symm)] at hhead
        cases hhead
      · exact hhead
  | building _ _ =>
      rw [query_built]
      exact hhead
  | @setting other hid f g hfg =>
      by_cases heq : other = id
      · subst heq
        rw [query_settled_self hid]
        cases hfg with
        | head _ _ _ _ hnone =>
            rw [hnone] at hhead
            cases hhead
        | binding _ _ _ => exact hhead
        | modifier _ => exact hhead
      · rw [query_settled_of_ne heq]
        exact hhead
  | newLedger | newGraph _ | entries _ _ _ | validation _ => exact hhead

theorem Changes.head_eq (h : s.Changes s') {head : Head}
    (hhead : (s.query id).head = some head) : (s'.query id).head = some head := by
  induction h with
  | refl => exact hhead
  | tail _ hchange ih => exact hchange.head_eq ih

end Session

end SparqlComposer
