import SparqlComposer.Proofs.Session.Alike

/-!
# What a call leaves as it is

A call that builds a part of a query leaves everything else as it is but the ledger of the query. If
nothing it is given contains some other query, then neither does any object afterwards that did not
do so before. So what holds of one such call in two sessions holds of many.
-/

namespace SparqlComposer

open SparqlComposer.Action

open Relation

/-! ## Building alters a single part -/

theorem Embedding.alters (k : Embedding) (pattern : Pattern) :
    ∃ f : k.method.part.Content → k.method.part.Content,
      (fun query : Query ↦ { query with graph := k.add pattern query.graph }) =
        Query.alter k.method.part f := by
  cases k with
  | present => exact ⟨fun cs : List Constraint ↦ cs ++ [Constraint.present pattern], rfl⟩
  | absent => exact ⟨fun cs : List Constraint ↦ cs ++ [Constraint.absent pattern], rfl⟩
  | optional => exact ⟨fun ps : List Pattern ↦ ps ++ [pattern], rfl⟩

theorem Session.Builds.alters {s : Session} {site : Site} {m : PatternMethod} {args : List Value}
    {f : Ledger → Ledger} {g : Graph → Graph} (h : s.Builds site m args f g) :
    ∃ k : m.part.Content → m.part.Content,
      (fun query : Query ↦ { query with graph := g query.graph }) = Query.alter m.part k := by
  cases h with
  | @triple _ _ _ _ _ x y z hargs _ _ _ =>
      cases m with
      | addTriple | continueTriple =>
          exact ⟨fun c ↦ (c.1.add x.text y.text z.text, some (x.text, y.text)), rfl⟩
      | _ => simp [Session.triple?] at hargs
  | @condition _ e _ => exact ⟨fun cs : List Constraint ↦ cs ++ [Constraint.condition e], rfl⟩
  | block k _ _ | tripleBlock k _ _ _ => exact k.alters _
  | @union _ _ ps _ _ _ _ => exact ⟨fun us : List (List Pattern) ↦ us ++ [ps], rfl⟩

theorem Session.Sets.alters {s : Session} {x : QueryId} {m : QueryMethod} {args : List Value}
    {f : Ledger → Ledger} {g : Query → Query} (h : s.Sets x m args f g) {p : QueryPart}
    (hp : m.part? = some p) : ∃ k : p.Content → p.Content, g = Query.alter p k := by
  cases h with
  | @binding _ _ n i _ _ _ =>
      obtain rfl := Option.some.inj hp
      exact ⟨fun ps : OrderedMap Text Text ↦ ps.insert n.text i.text, rfl⟩
  | @head _ form uniqueness _ _ es hm _ _ =>
      obtain rfl : QueryPart.head = p := by
        cases m with
        | select _ | describe => exact Option.some.inj hp
        | _ => cases hm
      exact ⟨fun _ ↦ some ⟨form, uniqueness, es⟩, rfl⟩
  | @groupBy _ es _ _ =>
      obtain rfl := Option.some.inj hp
      exact ⟨fun _ ↦ some es, rfl⟩
  | @having _ e _ =>
      obtain rfl := Option.some.inj hp
      exact ⟨fun _ ↦ some e, rfl⟩
  | @orderBy _ _ e d _ =>
      obtain rfl := Option.some.inj hp
      exact ⟨fun _ ↦ some (d, e), rfl⟩
  | @slice which _ n _ =>
      obtain rfl := Option.some.inj hp
      cases which with
      | limit => exact ⟨fun _ ↦ some n, rfl⟩
      | offset => exact ⟨fun _ ↦ some n, rfl⟩

theorem Session.Sets.exists_part {s : Session} {x : QueryId} {m : QueryMethod} {args : List Value}
    {f : Ledger → Ledger} {g : Query → Query} (h : s.Sets x m args f g) : ∃ p, m.part? = some p := by
  cases h with
  | head hm _ _ =>
      cases m with
      | select _ | describe => exact ⟨.head, rfl⟩
      | _ => cases hm
  | _ => exact ⟨_, rfl⟩

theorem Call.isSingle_of_part? {c : Call} {x : QueryId} {p : QueryPart} (hp : p ≠ .prefixes)
    (hc : c.part? = some (x, p)) : c.isSingle := by
  cases c with
  | query t m args =>
      cases m with
      | bindPrefixes => exact absurd (Prod.mk.inj (Option.some.inj hc)).2.symm hp
      | newSubquery => cases hc
      | _ => rfl
  | newQuery _ | ledger _ _ _ => cases hc
  | _ => rfl

namespace Agree

variable {x : QueryId} {same : QueryPart → Prop} {s : Session} {p : QueryPart}

theorem of_note_alter (hp : ¬ same p) (f : Ledger → Ledger) (k : p.Content → p.Content) :
    Agree x same s
      ((s.modifyLedger (s.query x).graph.ledger f).modifyQuery x (Query.alter p k)) :=
  (of_modifyLedger f).trans (of_alter hp k)

theorem of_does {s' : Session} {c : Call} (h : s.Does c s') (hc : c.part? = some (x, p))
    (hp : ¬ same p) : Agree x same s s' := by
  cases h with
  | @builds site m args f g _ hbuilds =>
      cases site with
      | graph _ => cases hc
      | query t =>
          obtain ⟨rfl, rfl⟩ := Prod.mk.inj (Option.some.inj hc)
          obtain ⟨k, hk⟩ := hbuilds.alters
          rw [Session.built, Session.modifyGraphAt, hk]
          exact of_note_alter hp f k
  | @queryAttaches t inner _ _ =>
      obtain ⟨rfl, rfl⟩ := Prod.mk.inj (Option.some.inj hc)
      exact of_note_alter (p := .subqueries) hp _ fun ts : List QueryId ↦ ts ++ [inner]
  | sets _ hsets =>
      obtain ⟨p', hm, heq⟩ := Option.map_eq_some_iff.mp hc
      obtain ⟨rfl, rfl⟩ := Prod.mk.inj heq
      obtain ⟨k, rfl⟩ := hsets.alters hm
      exact of_note_alter hp _ k
  | asks _ hm _ => exact .refl s
  | newLedger | newGraph _ | newSubgraph _ | graphAttaches _ _ | renders _ _ | validation _ =>
      cases hc

/-- A call that builds a part of a query leaves all else as it is. -/
theorem of_call {c : Call} (hc : c.part? = some (x, p)) (hp : ¬ same p) :
    Agree x same s (s.call c).2 := by
  by_cases hsingle : c.isSingle
  · by_cases hok : (s.call c).1.isOk
    · exact of_does ((Session.atomic_call hsingle).of_isOk hok) hc hp
    · rw [(Session.atomic_call hsingle).session_eq_of_not_isOk hok]
      exact .refl s
  · cases c with
    | query t m args =>
        cases m with
        | bindPrefixes =>
            obtain ⟨rfl, rfl⟩ := Prod.mk.inj (Option.some.inj hc)
            refine Session.keeps_bindPrefixes (P := Agree t same s) (.refl s) ?_
            intro s' name iri f g _ hsets hagree
            obtain ⟨k, rfl⟩ := hsets.alters (p := .prefixes) rfl
            exact hagree.trans (of_note_alter hp f k)
        | newSubquery => cases hc
        | _ => exact absurd rfl hsingle
    | newQuery _ | ledger _ _ _ => cases hc
    | _ => exact absurd rfl hsingle

end Agree

namespace Session

variable {s s' : Session} {q x : QueryId} {p : QueryPart} {c : Call}

theorem Placed.call (h : s.Placed) (c : Call) : (s.call c).2.Placed :=
  h.changes (changes_call h c)

/-! ## Parts that a call is not about -/

/-- A part of a query, its prefixes apart, is changed by no other calls than those that build it. -/
theorem get_call_of_ne (hp : p ≠ .prefixes) (hc : c.part? ≠ some (q, p)) :
    ((s.call c).2.query q).get p = (s.query q).get p := by
  by_cases hsingle : c.isSingle
  case neg =>
    refine keeps_call (P := fun s' ↦ (s'.query q).get p = (s.query q).get p) hsingle rfl
      (fun _ _ ↦ rfl) ?_ ?_
    · rw [query_withQuery]
      split
      · rename_i hq
        rw [query_eq_of_length_le (Nat.le_of_eq hq.symm)]
        cases p with
        | slice which => cases which <;> rfl
        | _ => rfl
      · rfl
    · intro s' id name iri f g hid hsets hsame
      obtain ⟨k, rfl⟩ := hsets.alters (p := .prefixes) rfl
      by_cases heq : id = q
      · subst heq
        rw [query_settled_self hid, Query.get_alter_of_ne _ hp, hsame]
      · rw [query_settled_of_ne heq, hsame]
  cases hpart : c.part? with
  | some xp =>
      obtain ⟨x, p'⟩ := xp
      by_cases hx : q = x
      · subst hx
        have hne : ¬ p' = p := fun heq ↦ hc (heq ▸ hpart)
        have hagree : Agree q (· = p) s (s.call c).2 := .of_call hpart hne
        exact (hagree.get_eq p rfl).symm
      · have hagree : Agree x (fun _ ↦ False) s (s.call c).2 := .of_call hpart id
        rw [hagree.query_eq hx]
  | none =>
      -- A call that builds no part of a query leaves all queries as they are.
      by_cases hok : (s.call c).1.isOk
      case neg => rw [(atomic_call hsingle).session_eq_of_not_isOk hok]
      have hdoes := (atomic_call hsingle).of_isOk hok
      generalize (s.call c).2 = s' at hdoes ⊢
      cases hdoes with
      | @builds site _ _ _ _ _ _ =>
          cases site with
          | graph _ => rfl
          | query _ => cases hpart
      | sets _ hsets =>
          obtain ⟨p', hp'⟩ := hsets.exists_part
          rw [Call.part?_query _ hp'] at hpart
          cases hpart
      | queryAttaches _ _ => cases hpart
      | _ => rfl

/-- A part of a query stays through calls that do not build it, or fail to. -/
theorem get_run_of_not_isOk (hp : p ≠ .prefixes) {cs : List Call}
    (h : ∀ cs₁ c cs₂, cs = cs₁ ++ c :: cs₂ → c.part? = some (q, p) →
      ¬ ((s.run cs₁).call c).1.isOk) : ((s.run cs).query q).get p = (s.query q).get p := by
  induction cs generalizing s with
  | nil => rfl
  | cons c cs ih =>
      have hone : ((s.call c).2.query q).get p = (s.query q).get p := by
        by_cases hc : c.part? = some (q, p)
        · have hatomic := atomic_call (s := s) (Call.isSingle_of_part? hp hc)
          rw [hatomic.session_eq_of_not_isOk (h [] c cs rfl hc)]
        · exact get_call_of_ne hp hc
      have hrest : (((s.call c).2.run cs).query q).get p = ((s.call c).2.query q).get p :=
        ih fun cs₁ c' cs₂ hcs ↦ h (c :: cs₁) c' cs₂ (by rw [hcs, List.cons_append])
      exact hrest.trans hone

/-! ## No way to a query is opened -/

/-- A query that is handed to another one is attached, or the session stays as it is. -/
theorem call_subquery (x : QueryId) (args : List Value) :
    (s.call (.query x .subquery args)).2 = s ∨
      ∃ inner, args = [.object (.query inner)] ∧ s.holds (.query x) ∧
        s.Attaches (.query x) inner ∧
        (s.call (.query x .subquery args)).2 = s.attached (.query x) inner := by
  have hatomic := atomic_call (s := s) (c := .query x .subquery args) rfl
  by_cases hok : (s.call (.query x .subquery args)).1.isOk
  · have hdoes := hatomic.of_isOk hok
    generalize (s.call (.query x .subquery args)).2 = s' at hdoes
    cases hdoes with
    | queryAttaches hid hattaches => exact .inr ⟨_, rfl, hid, hattaches, rfl⟩
    | sets _ hsets =>
        cases hsets with
        | head hm _ _ => cases hm
    | asks _ hm _ => cases hm
  · exact .inl (hatomic.session_eq_of_not_isOk hok)

/-- Of the calls that build a query, only the attachment of a query attaches one, which it is given.
-/
theorem attached_call (hc : c.part? = some (x, p)) {inner outer : QueryId}
    (h : (s.call c).2.Attached inner outer) :
    s.Attached inner outer ∨ Ref.query inner ∈ Value.allObjects c.args := by
  by_cases hp : p = .subqueries
  · subst hp
    obtain ⟨args, rfl⟩ := Call.eq_subquery hc
    rcases call_subquery (s := s) x args with hsame | ⟨a, rfl, hx, -, hattached⟩
    · rw [hsame] at h
      exact .inl h
    · rw [Attached, ← graphAt_query, hattached, attached] at h
      by_cases houter : outer = x
      · subst houter
        rw [graphAt_built_self hx] at h
        rcases List.mem_append.mp h with h | h
        · exact .inl h
        · rw [List.mem_singleton.mp h]
          exact .inr (by simp [Call.args, Value.allObjects, Value.objects])
      · rw [graphAt_built_of_ne (by simpa using houter)] at h
        exact .inl h
  · -- The attached queries stay as they are.
    have hagree : Agree x (· = .subqueries) s (s.call c).2 := .of_call hc hp
    refine .inl ?_
    by_cases houter : outer = x
    · subst houter
      have hsame : (s.query outer).graph.subqueries =
          ((s.call c).2.query outer).graph.subqueries := hagree.get_eq .subqueries rfl
      rwa [Attached, hsame]
    · exact (hagree.attached_iff houter).mpr h

/-- A call that is given nothing that contains a query puts it nowhere. -/
theorem Lacks.call (hc : c.part? = some (x, p)) (hargs : ∀ r ∈ Value.allObjects c.args, s.Lacks q r)
    {r : Ref} (hr : s.Lacks q r) : (s.call c).2.Lacks q r := by
  have hpath {t : QueryId} (hpath : ReflTransGen (s.call c).2.Attached q t) :
      ReflTransGen s.Attached q t := by
    induction hpath with
    | refl => exact .refl
    | tail _ hlast ih =>
        rcases attached_call hc hlast with hlast | hgiven
        · exact ih.tail hlast
        · exact absurd ih (hargs _ hgiven)
  have hagree : Agree x (fun _ ↦ False) s (s.call c).2 := .of_call hc id
  cases r with
  | ledger _ => trivial
  | graph g =>
      intro t ht htq
      rw [← hagree.graph_eq] at ht
      exact hr t ht (hpath htq)
  | query t => exact fun htq ↦ hr (hpath htq)

/-! ## Runs -/

/-- All the calls build one query, and nothing that they are given is or contains another one, or
the same one. -/
def BuildsWithout (s : Session) (x q : QueryId) (cs : List Call) : Prop :=
  ∀ c ∈ cs, (∃ p, c.part? = some (x, p)) ∧ ∀ r ∈ Value.allObjects c.args, s.Lacks q r

theorem BuildsWithout.tail {cs : List Call} (h : s.BuildsWithout x q (c :: cs)) :
    (s.call c).2.BuildsWithout x q cs := by
  obtain ⟨⟨p, hp⟩, hargs⟩ := h c List.mem_cons_self
  intro c' hc'
  obtain ⟨hpart, hargs'⟩ := h c' (List.mem_cons_of_mem c hc')
  exact ⟨hpart, fun r hr ↦ (hargs' r hr).call hp hargs⟩

end Session

namespace Agree

variable {q x : QueryId} {same : QueryPart → Prop} {s s' : Session} {cs : List Call}

/-- Calls that build a query leave all other queries as they are. -/
theorem of_run (h : ∀ c ∈ cs, ∃ p, c.part? = some (x, p)) :
    Agree x (fun _ ↦ False) s (s.run cs) := by
  induction cs generalizing s with
  | nil => exact .refl s
  | cons c cs ih =>
      obtain ⟨p, hp⟩ := h c List.mem_cons_self
      exact (of_call hp id).trans (ih fun c' hc' ↦ h c' (List.mem_cons_of_mem c hc'))

/-- Calls that build another query succeed or fail alike in both sessions. -/
theorem run (h : Agree q same s s') (hplaced : s.Placed) (hq : s.holds (.query q)) (hx : x ≠ q)
    (hcs : s.BuildsWithout x q cs) :
    Agree q same (s.run cs) (s'.run cs) ∧ (s.Accepts cs ↔ s'.Accepts cs) := by
  induction cs generalizing s s' with
  | nil => exact ⟨h, Iff.rfl⟩
  | cons c cs ih =>
      obtain ⟨⟨p, hp⟩, hargs⟩ := hcs c List.mem_cons_self
      have hstep := h.alike_call hplaced hq hp (fun heq ↦ absurd heq hx) hargs
      have hcall : Agree x (fun _ ↦ False) s (s.call c).2 := .of_call hp id
      have hq' : (s.call c).2.holds (.query q) := by rwa [← hcall.holds_eq]
      obtain ⟨hrun, haccepts⟩ := ih hstep.agree (hplaced.call c) hq' hcs.tail
      refine ⟨hrun, ?_⟩
      rw [Session.Accepts, Session.Accepts, hstep.result_eq, haccepts]

end Agree

end SparqlComposer
