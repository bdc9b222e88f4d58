import SparqlComposer.Proofs.Session.Frame

/-!
# Sessions that agree but for a modifier

Setting a modifier does not depend on what it was set to before. So where two sessions agree in all
of a query but one modifier, whatever is asked of the query keeps them in agreement, and when that
modifier is set, they agree in it as well.
-/

namespace SparqlComposer

open SparqlComposer.Action

def QueryMethod.isModifier : QueryMethod → Bool
  | groupBy | having | orderBy | slice _ => true
  | _ => false

theorem QueryMethod.exists_part_of_isModifier {m : QueryMethod} (hm : m.isModifier) :
    ∃ p, m.part? = some p ∧ ¬ p.isRead := by
  cases m <;> first | exact ⟨_, rfl, Bool.false_ne_true⟩ | cases hm

/-- A modifier is set by calls of its own method only. -/
theorem Call.eq_modifier {c : Call} {q : QueryId} {m : QueryMethod} (hm : m.isModifier)
    {p : QueryPart} (hp : m.part? = some p) (hc : c.part? = some (q, p)) :
    ∃ args, c = .query q m args := by
  apply eq_query_of_part? hc
  · rintro m' rfl
    cases m with
    | groupBy | having | orderBy | slice _ => cases m' <;> cases hp
    | _ => cases hm
  · intro m' hm'
    cases m with
    | groupBy | having | orderBy | slice _ =>
        cases hp
        cases m' <;> cases hm'
        rfl
    | _ => cases hm

theorem Query.objects_bindings (query : Query) : query.bindings.objects = [] := by
  have hall (es : List (Text × Text)) : Value.entryObjects
      (es.map fun e ↦ (Value.text e.1, Value.text e.2)) = [] := by
    induction es with
    | nil => rfl
    | cons e es ih => exact ih
  exact hall _

/-- A query that is only asked something leaves the session as it is. -/
theorem Session.call_asks {s : Session} {m : QueryMethod} (hm : m.asks) (x : QueryId)
    (args : List Value) : (s.call (.query x m args)).2 = s := by
  rw [call]
  split
  · change ((askQuery x m args).perform s).2 = s
    rw [askQuery.eq_def]
    split
    all_goals first | rfl | cases hm
  · rfl

theorem Alike.atomically {α : Type} {q : QueryId} {same : QueryPart → Prop} {s s' : Session}
    {a a' : Action α} (h : Agree q same s s') (ha : Alike q same (a.perform s) (a'.perform s')) :
    Alike q same ((Action.atomically a).perform s) ((Action.atomically a').perform s') := by
  rw [perform_atomically, perform_atomically]
  cases hr : a.perform s with
  | mk r t =>
      cases hr' : a'.perform s' with
      | mk r' t' =>
          rw [hr, hr'] at ha
          obtain rfl : r = r' := ha.result_eq
          cases r with
          | error e => exact ⟨rfl, h⟩
          | ok x => exact ⟨rfl, ha.agree⟩

namespace Agree

variable {q x : QueryId} {same : QueryPart → Prop} {s s' : Session} (h : Agree q same s s')

include h

/-! ## New objects -/

theorem withGraph (l : LedgerId) : Agree q same (s.withGraph l) (s'.withGraph l) :=
  { h with graphs_eq := congrArg (· ++ [_]) h.graphs_eq }

theorem withQuery (hq : s.holds (.query q)) : Agree q same s.withQuery s'.withQuery := by
  have hlt := Session.holds_query_iff.mp hq
  have hself : s.withQuery.query q = s.query q := by
    rw [Session.query_withQuery, if_neg (Nat.ne_of_lt hlt)]
  have hself' : s'.withQuery.query q = s'.query q := by
    rw [Session.query_withQuery, if_neg (Nat.ne_of_lt (h.queries_length ▸ hlt))]
  exact {
    validates_eq := h.validates_eq
    graphs_eq := h.graphs_eq
    ledgers_length := by simp [Session.withQuery, h.ledgers_length]
    queries_length := by simp [Session.withQuery, h.queries_length]
    queries_eq := fun t ht ↦ by
      simp [Session.withQuery, List.getElem?_append, h.queries_length, h.ledgers_length,
        h.queries_eq t ht]
    ledgers_eq := fun l hl ↦ by
      rw [hself] at hl
      simp [Session.withQuery, List.getElem?_append, h.ledgers_length, h.ledgers_eq l hl]
    ledger_eq := by rw [hself, hself', h.ledger_eq]
    get_eq := fun p hp ↦ by rw [hself, hself', h.get_eq p hp] }

variable (hplaced : s.Placed) (hq : s.holds (.query q))

include hplaced hq

theorem alike_newQuery {v : Value} (hnull : v ≠ .null) (hv : s.withQuery.Apart q v.objects) :
    Alike q same ((newQuery v).perform s) ((newQuery v).perform s') := by
  have hlt := Session.holds_query_iff.mp hq
  have hheld : s.withQuery.holds (.query q) := Session.Change.newQuery.holds_query hq
  rw [newQuery_of_ne_null hnull]
  refine .atomically h ?_
  change Alike q same
    ((do
      bindPrefixes s.queries.length v
      pure s.queries.length : Action QueryId).perform s.withQuery)
    ((do
      bindPrefixes s'.queries.length v
      pure s'.queries.length : Action QueryId).perform s'.withQuery)
  rw [← h.queries_length]
  refine .bind ?_ fun _ _ _ h' ↦ ⟨rfl, h'⟩
  exact (h.withQuery hq).alike_bindPrefixes hplaced.withQuery hheld
    Session.holds_withQuery_new hv fun heq ↦ absurd heq (Nat.ne_of_gt hlt)

theorem alike_newSubquery (hx : x = q → same .prefixes) :
    Alike q same ((newSubquery x).perform s) ((newSubquery x).perform s') := by
  have hprefixes : (s.query x).prefixes = (s'.query x).prefixes := h.get_query_eq hx
  rw [newSubquery, perform_bind_ok (perform_get s), perform_bind_ok (perform_get s'), ← hprefixes]
  refine h.alike_newQuery hplaced hq (fun hnull ↦ by cases hnull) fun r hr ↦ ?_
  have hgiven : r ∈ (s.query x).bindings.objects := hr
  rw [Query.objects_bindings] at hgiven
  cases hgiven

/-! ## Calls about the query -/

/-- Whatever is asked of the query, it keeps sessions in agreement that agree in all that is read. -/
theorem call_query (hread : ∀ p : QueryPart, p.isRead → same p) (m : QueryMethod)
    {args : List Value} (hargs : ∀ r ∈ Value.allObjects args, s.Lacks q r) :
    Agree q same (s.call (.query q m args)).2 (s'.call (.query q m args)).2 := by
  cases hp : m.part? with
  | some p =>
      exact (h.alike_call hplaced hq (Call.part?_query q hp args) (fun _ ↦ hread p) hargs).agree
  | none =>
      by_cases hm : m.asks
      · rwa [Session.call_asks hm, Session.call_asks hm]
      · rw [Session.call, Session.call, ← h.holds_eq]
        split
        · cases m with
          | newSubquery =>
              cases args with
              | nil =>
                  have hmade := h.alike_newSubquery (x := q) hplaced hq fun _ ↦ hread .prefixes rfl
                  exact (hmade.bind (f := fun id ↦ (pure (.made (.query id)) : Action Answer))
                    fun _ _ _ h' ↦ ⟨rfl, h'⟩).agree
              | cons _ _ => exact h
          | newSubgraph =>
              cases args with
              | nil =>
                  change Agree q same (s.withGraph _) (s'.withGraph _)
                  rw [← h.ledger_eq]
                  exact h.withGraph _
              | cons _ _ => exact h
          | _ => first | exact absurd rfl hm | cases hp
        · exact h

/-- The modifier is set in both sessions or in neither, and to the same. -/
theorem replaces_call {m : QueryMethod} (hm : m.isModifier) {p : QueryPart} (hp : m.part? = some p)
    {args : List Value} (hargs : ∀ r ∈ Value.allObjects args, s.Lacks q r) :
    Replaces q same q p (s.call (.query q m args)) (s'.call (.query q m args)) := by
  rw [Session.call, Session.call, ← h.holds_eq]
  split
  · rename_i hheld
    rw [Call.objects, List.all_cons, Bool.and_eq_true, List.all_eq_true] at hheld
    have harg {v : Value} (hv : v ∈ args) : s.Apart q v.objects := fun r hr ↦
      ⟨hheld.2 r (Value.objects_subset hv hr), hargs r (Value.objects_subset hv hr)⟩
    change Replaces q same q p ((askQuery q m args).perform s) ((askQuery q m args).perform s')
    rw [askQuery.eq_def]
    split
    case h_12 =>
        obtain rfl := Option.some.inj hp
        exact (h.replaces_groupBy hplaced hq fun r hr ↦ ⟨hheld.2 r hr, hargs r hr⟩).answered
    case h_13 =>
        obtain rfl := Option.some.inj hp
        exact (h.replaces_having hplaced hq (harg (by simp))).answered
    case h_14 =>
        obtain rfl := Option.some.inj hp
        refine (h.replaces_orderBy hplaced hq (harg (by simp)) ?_).answered
        intro r hr
        cases hr
    case h_15 =>
        obtain rfl := Option.some.inj hp
        exact (h.replaces_orderBy hplaced hq (harg (by simp)) (harg (by simp))).answered
    case h_16 =>
        obtain rfl := Option.some.inj hp
        exact (h.replaces_setSlice _ _).answered
    case h_21 => exact .fail h _
    all_goals cases hm
  · exact ⟨⟨rfl, h⟩, fun hok ↦ by cases hok⟩

/-- Where the sessions agree in all but a modifier, they agree in all once it has been set. -/
theorem of_replaced {m : QueryMethod} (hm : m.isModifier) {p : QueryPart} (hp : m.part? = some p)
    (hsame : ∀ p', p' ≠ p → same p') {args : List Value}
    (hargs : ∀ r ∈ Value.allObjects args, s.Lacks q r) (hok : (s.call (.query q m args)).1.isOk) :
    Agree q (fun _ ↦ True) (s.call (.query q m args)).2 (s'.call (.query q m args)).2 := by
  have hset := h.replaces_call hplaced hq hm hp hargs
  refine { hset.agree with get_eq := fun p' _ ↦ ?_ }
  by_cases hp' : p' = p
  · rw [hp']
    exact hset.get_eq hok
  · exact hset.agree.get_eq p' (hsame p' hp')

end Agree

end SparqlComposer
