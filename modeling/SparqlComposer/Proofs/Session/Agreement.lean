import SparqlComposer.Proofs.Session.Nesting
import SparqlComposer.Proofs.Session.Part

/-!
# Sessions that differ in one query

Two sessions agree but for a query when they differ in nothing but this query and the entries of its
ledger. They may also agree in some parts of the query. Whatever neither is nor contains the query
is written alike in both.
-/

namespace SparqlComposer

/-- The sessions differ in nothing but a query, and of the query only in its ledger and in parts
other than the given ones. -/
structure Agree (q : QueryId) (same : QueryPart → Prop) (s s' : Session) : Prop where
  validates_eq : s.validates = s'.validates
  graphs_eq : s.graphs = s'.graphs
  ledgers_length : s.ledgers.length = s'.ledgers.length
  queries_length : s.queries.length = s'.queries.length
  queries_eq : ∀ t, t ≠ q → s.queries[t]? = s'.queries[t]?
  ledgers_eq : ∀ l, l ≠ (s.query q).graph.ledger → s.ledgers[l]? = s'.ledgers[l]?
  ledger_eq : (s.query q).graph.ledger = (s'.query q).graph.ledger
  get_eq : ∀ p, same p → (s.query q).get p = (s'.query q).get p

namespace Agree

variable {q : QueryId} {same : QueryPart → Prop} {s s' s'' : Session}

theorem refl (s : Session) : Agree q same s s where
  validates_eq := rfl
  graphs_eq := rfl
  ledgers_length := rfl
  queries_length := rfl
  queries_eq _ _ := rfl
  ledgers_eq _ _ := rfl
  ledger_eq := rfl
  get_eq _ _ := rfl

theorem symm (h : Agree q same s s') : Agree q same s' s where
  validates_eq := h.validates_eq.symm
  graphs_eq := h.graphs_eq.symm
  ledgers_length := h.ledgers_length.symm
  queries_length := h.queries_length.symm
  queries_eq t ht := (h.queries_eq t ht).symm
  ledgers_eq l hl := (h.ledgers_eq l (by rwa [h.ledger_eq])).symm
  ledger_eq := h.ledger_eq.symm
  get_eq p hp := (h.get_eq p hp).symm

theorem trans (h : Agree q same s s') (h' : Agree q same s' s'') : Agree q same s s'' where
  validates_eq := h.validates_eq.trans h'.validates_eq
  graphs_eq := h.graphs_eq.trans h'.graphs_eq
  ledgers_length := h.ledgers_length.trans h'.ledgers_length
  queries_length := h.queries_length.trans h'.queries_length
  queries_eq t ht := (h.queries_eq t ht).trans (h'.queries_eq t ht)
  ledgers_eq l hl := (h.ledgers_eq l hl).trans (h'.ledgers_eq l (by rwa [← h.ledger_eq]))
  ledger_eq := h.ledger_eq.trans h'.ledger_eq
  get_eq p hp := (h.get_eq p hp).trans (h'.get_eq p hp)

/-! ## Reading -/

variable (h : Agree q same s s')

include h

theorem query_eq {t : QueryId} (ht : t ≠ q) : s.query t = s'.query t := by
  rw [Session.query, Session.query, List.getD, List.getD, h.queries_eq t ht]

theorem graph_eq (g : GraphId) : s.graph g = s'.graph g := by
  rw [Session.graph, Session.graph, h.graphs_eq]

theorem ledgerId_eq (site : Site) : (s.graphAt site).ledger = (s'.graphAt site).ledger := by
  cases site with
  | graph g => exact congrArg Graph.ledger (h.graph_eq g)
  | query t =>
      by_cases ht : t = q
      · rw [ht]
        exact h.ledger_eq
      · exact congrArg (·.graph.ledger) (h.query_eq ht)

theorem ledger_eq_of_ne {l : LedgerId} (hl : l ≠ (s.query q).graph.ledger) :
    s.ledger l = s'.ledger l := by
  rw [Session.ledger, Session.ledger, List.getD, List.getD, h.ledgers_eq l hl]

/-- The sessions hold the same objects. -/
theorem holds_eq : s.holds = s'.holds := by
  have hledgers : s.queries.map (·.graph.ledger) = s'.queries.map (·.graph.ledger) := by
    apply List.ext_getElem?
    intro t
    rw [List.getElem?_map, List.getElem?_map]
    by_cases ht : t = q
    · subst ht
      by_cases hlt : t < s.queries.length
      · have hlt' : t < s'.queries.length := h.queries_length ▸ hlt
        have hself := h.ledger_eq
        simp only [Session.query, List.getD, List.getElem?_eq_getElem hlt,
          List.getElem?_eq_getElem hlt', Option.getD_some] at hself
        rw [List.getElem?_eq_getElem hlt, List.getElem?_eq_getElem hlt', Option.map_some,
          Option.map_some, hself]
      · have hle := Nat.le_of_not_lt hlt
        rw [List.getElem?_eq_none hle, List.getElem?_eq_none (h.queries_length ▸ hle)]
    · rw [h.queries_eq t ht]
  funext r
  cases r with
  | ledger l =>
      have howned : s.isOwned l = s'.isOwned l := by
        simpa [Session.isOwned, List.any_map, Function.comp_def] using
          congrArg (List.any · (· == l)) hledgers
      rw [Session.holds, Session.holds, h.ledgers_length, howned]
  | graph g => rw [Session.holds, Session.holds, h.graphs_eq]
  | query t => rw [Session.holds, Session.holds, h.queries_length]

end Agree

/-! ## Objects without the query -/

open Relation

/-- An object neither is nor contains a query. -/
def Session.Lacks (s : Session) (q : QueryId) : Ref → Prop
  | .ledger _ => True
  | .graph g => ∀ t ∈ (s.graph g).subqueries, ¬ ReflTransGen s.Attached q t
  | .query t => ¬ ReflTransGen s.Attached q t

theorem Session.Lacks.ne {s : Session} {q t : QueryId} (h : s.Lacks q (.query t)) : t ≠ q := by
  rintro rfl
  exact h .refl

theorem Session.Lacks.of_attached {s : Session} {q t inner : QueryId} (h : s.Lacks q (.query t))
    (hinner : s.Attached inner t) : s.Lacks q (.query inner) :=
  fun hpath ↦ h (hpath.tail hinner)

theorem Session.lacks_of_no_subqueries {s : Session} {q t : QueryId} (hne : t ≠ q)
    (h : (s.query t).graph.subqueries = []) : s.Lacks q (.query t) := by
  intro hpath
  rcases ReflTransGen.cases_tail hpath with rfl | ⟨inner, -, hinner⟩
  · exact hne rfl
  · rw [Attached, h] at hinner
    cases hinner

theorem Session.Lacks.contains_eq {s : Session} {q t : QueryId} (h : s.Lacks q (.query t)) :
    s.contains t q = false := by
  rw [Bool.eq_false_iff]
  exact fun hcontains ↦ h (transGen_of_containsWithin hcontains).to_reflTransGen

namespace Agree

variable {q : QueryId} {same : QueryPart → Prop} {s s' : Session} (h : Agree q same s s')

include h

theorem attached_iff {t inner : QueryId} (ht : t ≠ q) :
    s.Attached inner t ↔ s'.Attached inner t := by
  rw [Session.Attached, Session.Attached, h.query_eq ht]

theorem containsWithin_eq {depth : Nat} {t : QueryId} (ht : s.Lacks q (.query t))
    (target : QueryId) : s.containsWithin depth t target = s'.containsWithin depth t target := by
  induction depth generalizing t with
  | zero => rfl
  | succ depth ih =>
      rw [Session.containsWithin, Session.containsWithin, ← h.query_eq ht.ne, Bool.eq_iff_iff,
        List.any_eq_true, List.any_eq_true]
      apply exists_congr
      intro inner
      apply and_congr_right
      intro hinner
      rw [ih (ht.of_attached hinner)]

theorem contains_eq {t : QueryId} (ht : s.Lacks q (.query t)) (target : QueryId) :
    s.contains t target = s'.contains t target := by
  rw [Session.contains, Session.contains, h.containsWithin_eq ht, h.queries_length]

/-! ## What is written of the other objects -/

section Writing

variable (hplaced : s.Placed) (hq : s.holds (.query q))

include hplaced hq

/-- No two queries share a ledger, so the ledgers of the other queries are the same. -/
theorem queryLedger_eq {t : QueryId} (ht : s.holds (.query t)) (hne : t ≠ q) :
    s.queryLedger t = s'.queryLedger t := by
  rw [Session.queryLedger, Session.queryLedger, ← h.query_eq hne]
  refine h.ledger_eq_of_ne fun heq ↦ hne ?_
  exact hplaced.ledger_inj t q (Session.holds_query_iff.mp ht) (Session.holds_query_iff.mp hq) heq

theorem projectedVariables_eq {t : QueryId} (ht : s.holds (.query t)) (hne : t ≠ q) :
    (s.query t).projectedVariables (s.queryLedger t) =
      (s'.query t).projectedVariables (s'.queryLedger t) := by
  rw [h.query_eq hne, h.queryLedger_eq hplaced hq ht hne]

theorem subqueryWithin_eq {depth : Nat} {t : QueryId} (ht : s.holds (.query t))
    (hlacks : s.Lacks q (.query t)) : s.subqueryWithin depth t = s'.subqueryWithin depth t := by
  induction depth generalizing t with
  | zero => rfl
  | succ depth ih =>
      have hinner : (s.query t).graph.subqueries.mapM (s.subqueryWithin depth) =
          (s.query t).graph.subqueries.mapM (s'.subqueryWithin depth) :=
        Except.mapM_congr fun inner hmem ↦
          ih (Session.holds_query_iff.mpr (hplaced.subquery_lt (.query t) inner hmem))
            (hlacks.of_attached hmem)
      rw [Session.subqueryWithin, Session.subqueryWithin, hinner, ← h.query_eq hlacks.ne,
        h.queryLedger_eq hplaced hq ht hlacks.ne, Session.check, Session.check, h.validates_eq]

theorem subquery_eq {t : QueryId} (ht : s.holds (.query t)) (hlacks : s.Lacks q (.query t)) :
    s.subquery t = s'.subquery t := by
  rw [Session.subquery, Session.subquery, h.subqueryWithin_eq hplaced hq ht hlacks,
    h.queries_length]

theorem pattern_eq {g : GraphId} (hlacks : s.Lacks q (.graph g)) :
    s.pattern (s.graph g) = s'.pattern (s'.graph g) := by
  have hinner : (s.graph g).subqueries.mapM s.subquery =
      (s.graph g).subqueries.mapM s'.subquery :=
    Except.mapM_congr fun t ht ↦ h.subquery_eq hplaced hq
      (Session.holds_query_iff.mpr (hplaced.subquery_lt (.graph g) t ht)) (hlacks t ht)
  rw [Session.pattern, Session.pattern, hinner, h.graph_eq]

theorem objectText_eq {r : Ref} (hr : s.holds r) (hlacks : s.Lacks q r) :
    s.objectText r = s'.objectText r := by
  cases r with
  | ledger _ => rfl
  | graph g =>
      rw [Session.objectText, Session.objectText, Session.graphText, Session.graphText,
        h.pattern_eq hplaced hq hlacks]
  | query t =>
      rw [Session.objectText, Session.objectText, Session.queryText, Session.queryText,
        h.subquery_eq hplaced hq hr hlacks, h.query_eq hlacks.ne]

end Writing

end Agree

/-! ## Changes -/

theorem Session.query_alter {s : Session} (t u : QueryId) (p : QueryPart)
    (f : p.Content → p.Content) :
    (s.modifyQuery t (Query.alter p f)).query u =
      if u = t ∧ t < s.queries.length then (s.query u).alter p f else s.query u := by
  by_cases hu : u = t
  · subst hu
    by_cases hlt : u < s.queries.length
    · rw [if_pos ⟨rfl, hlt⟩, query_modifyQuery_self s _ hlt]
    · rw [if_neg fun hboth ↦ hlt hboth.2, query_eq_of_length_le (Nat.le_of_not_lt hlt),
        query_eq_of_length_le]
      simpa [modifyQuery] using Nat.le_of_not_lt hlt
  · rw [if_neg fun hboth ↦ hu hboth.1, query_modifyQuery_of_ne s _ (Ne.symm hu)]

theorem Session.ledger_query_alter {s : Session} (t u : QueryId) (p : QueryPart)
    (f : p.Content → p.Content) :
    ((s.modifyQuery t (Query.alter p f)).query u).graph.ledger = (s.query u).graph.ledger := by
  rw [query_alter]
  split
  · exact Query.ledger_alter _
  · rfl

namespace Agree

variable {q : QueryId} {same : QueryPart → Prop} {s s' : Session}

theorem modifyLedger (h : Agree q same s s') (l : LedgerId) (f : Ledger → Ledger) :
    Agree q same (s.modifyLedger l f) (s'.modifyLedger l f) where
  validates_eq := h.validates_eq
  graphs_eq := h.graphs_eq
  ledgers_length := by simpa [Session.modifyLedger] using h.ledgers_length
  queries_length := h.queries_length
  queries_eq := h.queries_eq
  ledgers_eq l' hl' := by
    rw [Session.modifyLedger, Session.modifyLedger, List.getElem?_modify, List.getElem?_modify,
      h.ledgers_eq l' hl']
  ledger_eq := h.ledger_eq
  get_eq := h.get_eq

/-- The same change of a part leaves the sessions in agreement. -/
theorem alter (h : Agree q same s s') (t : QueryId) (p : QueryPart) (f : p.Content → p.Content) :
    Agree q same (s.modifyQuery t (Query.alter p f)) (s'.modifyQuery t (Query.alter p f)) where
  validates_eq := h.validates_eq
  graphs_eq := h.graphs_eq
  ledgers_length := h.ledgers_length
  queries_length := by simpa [Session.modifyQuery] using h.queries_length
  queries_eq t' ht' := by
    rw [Session.modifyQuery, Session.modifyQuery, List.getElem?_modify, List.getElem?_modify,
      h.queries_eq t' ht']
  ledgers_eq l hl := h.ledgers_eq l (by rwa [Session.ledger_query_alter] at hl)
  ledger_eq := by rw [Session.ledger_query_alter, Session.ledger_query_alter, h.ledger_eq]
  get_eq p' hp' := by
    rw [Session.query_alter, Session.query_alter, ← h.queries_length]
    split
    · exact Query.get_alter_congr (h.get_eq p' hp')
    · exact h.get_eq p' hp'

/-- What is entered into the ledger of a query changes nothing else. -/
theorem of_modifyLedger (f : Ledger → Ledger) :
    Agree q same s (s.modifyLedger (s.query q).graph.ledger f) where
  validates_eq := rfl
  graphs_eq := rfl
  ledgers_length := by simp [Session.modifyLedger]
  queries_length := rfl
  queries_eq _ _ := rfl
  ledgers_eq l hl := by
    rw [Session.modifyLedger, List.getElem?_modify]
    simp [Ne.symm hl]
  ledger_eq := rfl
  get_eq _ _ := rfl

/-- A change of a part changes nothing else. -/
theorem of_alter {p : QueryPart} (hp : ¬ same p) (f : p.Content → p.Content) :
    Agree q same s (s.modifyQuery q (Query.alter p f)) where
  validates_eq := rfl
  graphs_eq := rfl
  ledgers_length := rfl
  queries_length := by simp [Session.modifyQuery]
  queries_eq t ht := by
    rw [Session.modifyQuery, List.getElem?_modify]
    simp [Ne.symm ht]
  ledgers_eq _ _ := rfl
  ledger_eq := (Session.ledger_query_alter q q p f).symm
  get_eq p' hp' := by
    have hne : p' ≠ p := fun heq ↦ hp (heq ▸ hp')
    rw [Session.query_alter]
    split
    · exact (Query.get_alter_of_ne _ hne).symm
    · rfl

end Agree

end SparqlComposer
