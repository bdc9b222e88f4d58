import SparqlComposer.Proofs.Ledger
import SparqlComposer.Proofs.Session.Outcome

/-!
# Queries bind the prefixes that are defined

The ledger of a query is handed out to nobody, so only the query itself defines prefixes there, and
it binds each of them. In every reachable session the ledger of a query defines the prefixes that
the query has bound and no others, in the order in which they were bound first.
-/

namespace SparqlComposer

theorem Building.definedPrefixes_eq {s : Session} {site : Site} {f : Ledger → Ledger}
    {g : Graph → Graph} (h : Building s site f g) (l : Ledger) :
    (f l).definedPrefixes = l.definedPrefixes := by
  cases h <;> simp

/-- A ledger defines the prefixes that a query has bound, in the same order. -/
def Query.DefinesOn (q : Query) (l : Ledger) : Prop :=
  l.definedPrefixes.toList = q.prefixes.keys.map Entry.ofName

namespace Query.DefinesOn

variable {q : Query} {l : Ledger}

theorem mem_iff (h : q.DefinesOn l) {k : Key} :
    k ∈ l.definedPrefixes ↔ ∃ n ∈ q.prefixes.keys, k = .text n := by
  rw [OrderedSet.mem_iff, h]
  constructor
  · rintro ⟨a, ha, rfl⟩
    obtain ⟨n, hn, rfl⟩ := List.mem_map.mp ha
    exact ⟨n, hn, rfl⟩
  · rintro ⟨n, hn, rfl⟩
    exact ⟨_, List.mem_map_of_mem hn, rfl⟩

/-- A binding is entered along with the prefix, unless the prefix is bound already. -/
theorem insert (h : q.DefinesOn l) (name iri : Text) :
    ({ q with prefixes := q.prefixes.insert name iri } : Query).DefinesOn
      (l.definePrefixes [.ofName name]) := by
  have hmem : (Entry.ofName name).key ∈ l.definedPrefixes ↔ name ∈ q.prefixes.keys := by
    rw [h.mem_iff]
    constructor
    · rintro ⟨n, hn, heq⟩
      rwa [Key.text.inj heq]
    · exact fun hn ↦ ⟨name, hn, rfl⟩
  change (l.definedPrefixes.insert (.ofName name)).toList = (q.prefixes.insert name iri).keys.map _
  rw [OrderedSet.toList_insert, OrderedMap.keys_insert]
  by_cases hn : name ∈ q.prefixes.keys
  · rw [if_pos (hmem.mpr hn), if_pos hn, h]
  · rw [if_neg (mt hmem.mp hn), if_neg hn, h, List.map_append]
    rfl

end Query.DefinesOn

namespace Session

variable {s s' : Session}

/-- The ledger of every query defines what the query has bound. -/
def InStep (s : Session) : Prop := ∀ q < s.queries.length, (s.query q).DefinesOn (s.queryLedger q)

theorem InStep.settled (h : s.InStep) (hplaced : s.Placed) {id : QueryId}
    (hid : s.holds (.query id)) {f : Ledger → Ledger} {g : Query → Query}
    (hfg : Setting s id f g) : (s.settled id f g).InStep := by
  intro q hq
  have hlt := holds_query_iff.mp hid
  have hq' : q < s.queries.length := by rwa [length_settled.2.2] at hq
  rw [queryLedger, ← graphAt_query, graphAt_settled hid hfg, graphAt_query]
  by_cases heq : id = q
  · subst heq
    rw [ledger_settled_self (hplaced.queryLedger_lt hlt), query_settled_self hid]
    have hbound := h id hlt
    cases hfg with
    | binding _ _ _ => exact hbound.insert _ _
    | head _ _ _ _ _ => exact (congrArg _ Ledger.definedPrefixes_noteAll).trans hbound
    | modifier _ => exact (congrArg _ Ledger.definedPrefixes_noteAll).trans hbound
  · have hne : (s.query id).graph.ledger ≠ (s.query q).graph.ledger :=
      fun hledger ↦ heq (hplaced.ledger_inj id q hlt hq' hledger)
    rw [ledger_settled_of_ne hne, query_settled_of_ne heq]
    exact h q hq'

theorem InStep.built (h : s.InStep) (hplaced : s.Placed) {site : Site}
    (hsite : s.holds site.object) {f : Ledger → Ledger} {g : Graph → Graph}
    (hfg : Building s site f g) : (s.built site f g).InStep := by
  intro q hq
  rw [(length_built s site f g).2.2] at hq
  have hledger : ((s.built site f g).query q).graph.ledger = (s.query q).graph.ledger :=
    ledger_graphAt_built hsite hfg (.query q)
  rw [queryLedger, hledger, query_built]
  by_cases heq : (s.graphAt site).ledger = (s.query q).graph.ledger
  · rw [← heq, ledger_built_self (hplaced.ledger_lt site hsite)]
    exact (congrArg _ (hfg.definedPrefixes_eq _)).trans (heq ▸ h q hq)
  · rw [ledger_built_of_ne heq]
    exact h q hq

theorem InStep.change (h : s.InStep) (hplaced : s.Placed) (hchange : s.Change s') :
    s'.InStep := by
  cases hchange with
  | newLedger =>
      intro q hq
      rw [queryLedger, ledger_withLedger]
      exact h q hq
  | newGraph _ => exact h
  | newQuery =>
      intro q hq
      rw [queryLedger, ledger_withQuery, query_withQuery]
      split
      · rw [ledger, List.getD, List.getElem?_eq_none (Nat.le_refl _)]
        rfl
      · rename_i hne
        have hlen : s.withQuery.queries.length = s.queries.length + 1 := by
          simp [Session.withQuery]
        exact h q (lt_of_lt_succ_of_ne (hlen ▸ hq) hne)
  | @entries id hid enter _ es =>
      intro q hq
      have hquery : (s.modifyLedger id (enter · es)).queryLedger q = s.queryLedger q :=
        ledger_modifyLedger_of_ne s _ (ledger_ne_of_holds hid hq)
      rw [hquery]
      exact h q hq
  | building hsite hfg => exact h.built hplaced hsite hfg
  | setting hid hfg => exact h.settled hplaced hid hfg
  | validation _ => exact h

theorem inStep_empty : empty.InStep := by
  intro q hq
  simp [empty] at hq

theorem Reachable.inStep (h : s.Reachable) : s.InStep :=
  h.invariant inStep_empty fun _ _ hplaced hstep hchange ↦ hstep.change hplaced hchange

/-- A query has bound every prefix that its ledger defines. -/
def Declared (s : Session) : Prop :=
  ∀ q < s.queries.length, ∀ k ∈ (s.queryLedger q).definedPrefixes,
    ∃ n ∈ (s.query q).prefixes.keys, k = .text n

theorem Reachable.declared (h : s.Reachable) : s.Declared :=
  fun q hq _ hk ↦ (h.inStep q hq).mem_iff.mp hk

end Session

end SparqlComposer
