import SparqlComposer.Proofs.Session.Change

/-!
# What a single call does

Most actions read all that they need before they change anything. Such an action either fails and
leaves the session as it was, or it makes one change, which is told here exactly: the arguments are
read as expressions of the kinds that may stand in their places, and what is entered and built or
set follows from these.
-/

namespace SparqlComposer

open SparqlComposer.Action

/-- What comes of an action that fails without a trace, or succeeds and leaves a session as told. -/
inductive Atomic (s : Session) {α : Type} (P : Session → Prop) : Except Error α × Session → Prop where
  | refused (e : Error) : Atomic s P (.error e, s)
  | done (x : α) {s' : Session} (h : P s') : Atomic s P (.ok x, s')

namespace Atomic

variable {α β : Type} {s : Session} {P Q : Session → Prop}

theorem session_eq {r : Except Error α × Session} (h : Atomic s P r) {e : Error}
    (he : r.1 = .error e) : r.2 = s := by
  cases h with
  | refused _ => rfl
  | done _ _ => exact nomatch he

theorem of_isOk {r : Except Error α × Session} (h : Atomic s P r) (hr : r.1.isOk) : P r.2 := by
  cases h with
  | refused e => exact nomatch hr
  | done _ h => exact h

theorem session_eq_of_not_isOk {r : Except Error α × Session} (h : Atomic s P r)
    (hr : ¬ r.1.isOk) : r.2 = s := by
  cases h with
  | refused e => rfl
  | done _ _ => exact absurd rfl hr

theorem mono {r : Except Error α × Session} (h : Atomic s P r) (hPQ : ∀ s', P s' → Q s') :
    Atomic s Q r := by
  cases h with
  | refused e => exact .refused e
  | done x h => exact .done x (hPQ _ h)

/-- A composition that starts with reading comes out as its second part does. -/
theorem bind_of_reads {a : Action α} {f : α → Action β} {r : Except Error α}
    (ha : a.perform s = (r, s)) (hf : ∀ x, r = .ok x → Atomic s P ((f x).perform s)) :
    Atomic s P ((a >>= f).perform s) := by
  rw [perform_bind, ha]
  cases r with
  | error e => exact .refused e
  | ok x => exact hf x rfl

theorem bind_pure {a : Action α} (h : Atomic s P (a.perform s)) (f : α → β) :
    Atomic s P ((a >>= fun x ↦ pure (f x)).perform s) := by
  rw [perform_bind]
  cases hr : a.perform s with
  | mk r s' =>
      rw [hr] at h
      cases h with
      | refused e => exact .refused e
      | done x h => exact .done _ h

theorem answered {a : Action Unit} (h : Atomic s P (a.perform s)) :
    Atomic s P ((Action.done a).perform s) := by
  exact h.bind_pure fun _ ↦ Answer.itself

theorem ask (f : Session → Except Error Answer) (h : P s) :
    Atomic s P ((Action.ask f).perform s) := by
  apply bind_of_reads (perform_get s)
  intro x hx
  obtain rfl : s = x := Except.ok.inj hx
  rw [perform_ofResult]
  cases f s with
  | error e => exact .refused e
  | ok answer => exact .done answer h

end Atomic

/-! ## Arguments -/

namespace Action

variable {s : Session}

theorem perform_bind_ok {α β : Type} {a : Action α} {f : α → Action β} {x : α} {s' : Session}
    (ha : a.perform s = (.ok x, s')) : (a >>= f).perform s = (f x).perform s' := by
  rw [perform_bind, ha]

theorem perform_bind_error {α β : Type} {a : Action α} {f : α → Action β} {e : Error}
    {s' : Session} (ha : a.perform s = (.error e, s')) :
    (a >>= f).perform s = (.error e, s') := by
  rw [perform_bind, ha]

theorem session_bind_pure {α β : Type} (a : Action α) (f : α → β) :
    ((a >>= fun x ↦ pure (f x)).perform s).2 = (a.perform s).2 := by
  rw [perform_bind]
  cases a.perform s with
  | mk r s' => cases r <;> rfl

theorem perform_expression (kinds : List Kind) (v : Value) :
    (expression kinds v).perform s = (classify s.objectText kinds v, s) := rfl

theorem perform_expression_of_reads {kinds : List Kind} {v : Value} {e : Expression}
    (h : v.Reads kinds e) : (expression kinds v).perform s = (.ok e, s) := by
  rw [perform_expression, classify_eq_ok_iff.mpr h]

theorem expressions_reads (kinds : List Kind) (vs : List Value) :
    ∃ r, (expressions kinds vs).perform s = (r, s) ∧
      ∀ es, r = .ok es → List.Forall₂ (fun v e ↦ v.Reads kinds e) vs es := by
  induction vs with
  | nil =>
      refine ⟨.ok [], rfl, ?_⟩
      rintro _ ⟨⟩
      exact .nil
  | cons v vs ih =>
      obtain ⟨r, hr, hes⟩ := ih
      rw [expressions]
      cases he : classify s.objectText kinds v with
      | error err =>
          exact ⟨.error err, perform_bind_error (by rw [perform_expression, he]), by simp⟩
      | ok e =>
          rw [perform_bind_ok (by rw [perform_expression, he])]
          cases r with
          | error err => exact ⟨.error err, perform_bind_error hr, by simp⟩
          | ok es =>
              refine ⟨.ok (e :: es), perform_bind_ok hr, ?_⟩
              rintro _ ⟨⟩
              exact .cons (classify_eq_ok_iff.mp he) (hes es rfl)

theorem triple_reads (a b c : Value) :
    ∃ r, (triple a b c).perform s = (r, s) ∧ ∀ x y z, r = .ok (x, y, z) →
      a.Reads subjectKinds x ∧ b.Reads predicateKinds y ∧ c.Reads objectKinds z := by
  rw [triple]
  cases hx : classify s.objectText subjectKinds a with
  | error e => exact ⟨.error e, perform_bind_error (by rw [perform_expression, hx]), by simp⟩
  | ok x =>
      rw [perform_bind_ok (by rw [perform_expression, hx])]
      cases hy : classify s.objectText predicateKinds b with
      | error e => exact ⟨.error e, perform_bind_error (by rw [perform_expression, hy]), by simp⟩
      | ok y =>
          rw [perform_bind_ok (by rw [perform_expression, hy])]
          cases hz : classify s.objectText objectKinds c with
          | error e =>
              exact ⟨.error e, perform_bind_error (by rw [perform_expression, hz]), by simp⟩
          | ok z =>
              refine ⟨.ok (x, y, z), perform_bind_ok (by rw [perform_expression, hz]), ?_⟩
              rintro _ _ _ ⟨⟩
              exact ⟨classify_eq_ok_iff.mp hx, classify_eq_ok_iff.mp hy, classify_eq_ok_iff.mp hz⟩

theorem direction_reads (v : Value) : ∃ r, (direction v).perform s = (r, s) := by
  rw [direction, perform_bind_ok (perform_get s)]
  cases hl : v.label s.objectText with
  | error e => exact ⟨.error e, perform_bind_error (by rw [perform_ofResult])⟩
  | ok t =>
      rw [perform_bind_ok (perform_ofResult _ s)]
      dsimp only
      cases Direction.ofKeyword? (upper t) with
      | some d => exact ⟨.ok d, rfl⟩
      | none => exact ⟨.error _, rfl⟩

end Action

/-! ## Building patterns -/

def Embedding.method : Embedding → PatternMethod
  | present => .filterExists
  | absent => .filterNotExists
  | optional => .optional

/-- The terms of a triple that may continue the last one, which lends its subject, or its subject and
its predicate. -/
def continued? (current : Option (Text × Text)) : List Value → Option (Value × Value × Value)
  | [a, b, c] => some (a, b, c)
  | [c] => current.map fun (subject, predicate) ↦ (.text subject, .text predicate, c)
  | [b, c] => current.map fun (subject, _) ↦ (.text subject, b, c)
  | _ => none

/-- The terms of the triple that a method adds to the graph at a site. -/
def Session.triple? (s : Session) (site : Site) :
    PatternMethod → List Value → Option (Value × Value × Value)
  | .addTriple, [a, b, c] => some (a, b, c)
  | .continueTriple, args => continued? (s.graphAt site).current args
  | _, _ => none

/-- What a method builds at a site when it succeeds: what is entered into the ledger of the site, and
what is added to its graph. -/
inductive Session.Builds (s : Session) (site : Site) :
    PatternMethod → List Value → (Ledger → Ledger) → (Graph → Graph) → Prop where
  | triple {m : PatternMethod} {args : List Value} {a b c : Value} {x y z : Expression}
      (hargs : s.triple? site m args = some (a, b, c)) (hx : a.Reads subjectKinds x)
      (hy : b.Reads predicateKinds y) (hz : c.Reads objectKinds z) :
      Builds s site m args (noteTriple x y z) (·.addTriple x.text y.text z.text)
  | condition {v : Value} {e : Expression} (he : v.Reads conditionKinds e) :
      Builds s site .filter [v] (·.use e) (·.addConstraint (.condition e))
  | block (k : Embedding) {id : GraphId} {p : Pattern} (hid : s.holds (.graph id))
      (hp : s.pattern (s.graph id) = .ok p) :
      Builds s site k.method [.object (.graph id)] (fun l ↦ l) (k.add p)
  | tripleBlock (k : Embedding) {a b c : Value} {x y z : Expression}
      (hx : a.Reads subjectKinds x) (hy : b.Reads predicateKinds y) (hz : c.Reads objectKinds z) :
      Builds s site k.method [a, b, c] (noteTriple x y z)
        (k.add (triplePattern (s.graphAt site).ledger x y z))
  | union {args : List Value} {ids : List GraphId} {ps : List Pattern}
      (hargs : members args = .ok ids) (hne : ids ≠ []) (hids : ∀ id ∈ ids, s.holds (.graph id))
      (hps : ids.mapM (fun id ↦ s.pattern (s.graph id)) = .ok ps) :
      Builds s site .union args (fun l ↦ l) (·.addUnion ps)

theorem Session.Builds.building {s : Session} {site : Site} {m : PatternMethod} {args : List Value}
    {f : Ledger → Ledger} {g : Graph → Graph} (h : s.Builds site m args f g) :
    Building s site f g := by
  cases h with
  | triple _ hx hy hz => exact .triple hx.isOf hy.isOf hz.isOf
  | condition he => exact .condition he.isOf
  | block k hid hp => exact .block k hid hp
  | tripleBlock k hx hy hz => exact .tripleBlock k hx.isOf hy.isOf hz.isOf
  | union _ hne hids hps => exact .union hne hids hps

namespace Action

section Building

variable {s : Session} {site : Site}

theorem modifyLedger_keep (s : Session) (id : LedgerId) :
    s.modifyLedger id (fun l ↦ l) = s := by
  have h : s.ledgers.modify id (fun l ↦ l) = s.ledgers := List.modify_id id s.ledgers
  rw [Session.modifyLedger, h]

/-- What is built without entering anything is built alone. -/
theorem built_keep (g : Graph → Graph) :
    s.built site (fun l ↦ l) g = s.modifyGraphAt site g := by
  rw [Session.built, modifyLedger_keep]

theorem atomic_addTriple {m : PatternMethod} {args : List Value} {a b c : Value}
    (hargs : s.triple? site m args = some (a, b, c)) :
    Atomic s (fun s' ↦ ∃ f g, s.Builds site m args f g ∧ s' = s.built site f g)
      ((addTriple site a b c).perform s) := by
  obtain ⟨r, hr, hreads⟩ := triple_reads (s := s) a b c
  apply Atomic.bind_of_reads hr
  rintro ⟨x, y, z⟩ hxyz
  obtain ⟨hx, hy, hz⟩ := hreads x y z hxyz
  exact .done () ⟨_, _, .triple hargs hx hy hz, rfl⟩

theorem atomic_continueTriple (args : List Value) :
    Atomic s (fun s' ↦ ∃ f g, s.Builds site .continueTriple args f g ∧ s' = s.built site f g)
      ((continueTriple site args).perform s) := by
  apply Atomic.bind_of_reads (perform_get s)
  rintro _ ⟨⟩
  split
  · exact atomic_addTriple rfl
  · rename_i hcurrent
    exact atomic_addTriple (by simp [Session.triple?, continued?, hcurrent])
  · rename_i hcurrent
    exact atomic_addTriple (by simp [Session.triple?, continued?, hcurrent])
  · exact .refused _
  · exact .refused _
  · exact .refused _

theorem atomic_filter (v : Value) :
    Atomic s (fun s' ↦ ∃ f g, s.Builds site .filter [v] f g ∧ s' = s.built site f g)
      ((filter site v).perform s) := by
  apply Atomic.bind_of_reads (perform_expression _ _)
  intro e he
  exact .done () ⟨_, _, .condition (classify_eq_ok_iff.mp he), rfl⟩

/-- A block is the pattern of a graph, or that of a triple that has been entered. -/
theorem atomic_block {args : List Value} (hargs : (Value.allObjects args).all s.holds)
    (k : Embedding) :
    Atomic s (fun s' ↦ ∃ f g, s.Builds site k.method args f g ∧ s' = s.built site f g)
      ((do
        let p ← block site args
        build site (k.add p) : Action Unit).perform s) := by
  rw [block.eq_def]
  split
  · rename_i id
    have hid : s.holds (.graph id) := by
      simpa [Value.allObjects, Value.objects] using hargs
    cases hp : s.pattern (s.graph id) with
    | error e =>
        have hblock : (do
            let s ← get
            ofResult (s.pattern (s.graph id)) : Action Pattern).perform s = (.error e, s) := by
          rw [perform_bind_ok (perform_get s), perform_ofResult, hp]
        rw [perform_bind_error hblock]
        exact .refused e
    | ok p =>
        have hblock : (do
            let s ← get
            ofResult (s.pattern (s.graph id)) : Action Pattern).perform s = (.ok p, s) := by
          rw [perform_bind_ok (perform_get s), perform_ofResult, hp]
        rw [perform_bind_ok hblock]
        exact .done () ⟨_, _, .block k hid hp, (built_keep _).symm⟩
  · rename_i a b c
    obtain ⟨r, hr, hreads⟩ := triple_reads (s := s) a b c
    cases r with
    | error e =>
        rw [perform_bind_error (perform_bind_error hr)]
        exact .refused e
    | ok xyz =>
        obtain ⟨x, y, z⟩ := xyz
        obtain ⟨hx, hy, hz⟩ := hreads x y z rfl
        rw [perform_bind, perform_bind_ok hr]
        cases site <;> exact .done () ⟨_, _, .tripleBlock k hx hy hz, rfl⟩
  · exact .refused _

theorem mem_allObjects_of_members {ids : List GraphId} {args : List Value}
    (hids : members args = .ok ids) : ∀ id ∈ ids, Ref.graph id ∈ Value.allObjects args := by
  induction args generalizing ids with
  | nil =>
      obtain rfl : [] = ids := Except.ok.inj hids
      simp
  | cons v vs ih =>
      unfold members at hids
      split at hids
      · rename_i heq
        simp at heq
      · rename_i id vs' heq
        obtain ⟨rfl, rfl⟩ := List.cons.inj heq
        obtain ⟨ids', hids', h⟩ := Except.bind_eq_ok_iff.mp hids
        obtain rfl := Except.pure_eq_ok_iff.mp h
        intro id' hid'
        rw [Value.allObjects, List.mem_append]
        rcases List.mem_cons.mp hid' with rfl | hid'
        · exact .inl (by simp [Value.objects])
        · exact .inr (ih hids' id' hid')
      · simp at hids

theorem holds_of_members {ids : List GraphId} {args : List Value}
    (hargs : (Value.allObjects args).all s.holds) (hids : members args = .ok ids) :
    ∀ id ∈ ids, s.holds (.graph id) := fun id hid ↦
  List.all_eq_true.mp hargs _ (mem_allObjects_of_members hids id hid)

theorem members_ne_nil {ids : List GraphId} {args : List Value} (hne : args ≠ [])
    (hids : members args = .ok ids) : ids ≠ [] := by
  unfold members at hids
  split at hids
  · exact absurd rfl hne
  · obtain ⟨ids', -, h⟩ := Except.bind_eq_ok_iff.mp hids
    obtain rfl := Except.pure_eq_ok_iff.mp h
    exact List.cons_ne_nil _ _
  · exact nomatch hids

theorem atomic_union {args : List Value} (hargs : (Value.allObjects args).all s.holds) :
    Atomic s (fun s' ↦ ∃ f g, s.Builds site .union args f g ∧ s' = s.built site f g)
      ((union site args).perform s) := by
  rw [union]
  split
  · exact .refused _
  · rename_i hne
    apply Atomic.bind_of_reads (perform_ofResult _ s)
    intro ids hids
    apply Atomic.bind_of_reads (perform_get s)
    rintro _ ⟨⟩
    apply Atomic.bind_of_reads (perform_ofResult _ s)
    intro ps hps
    have hids' := members_ne_nil (mt List.isEmpty_iff.mpr hne) hids
    exact .done () ⟨_, _, .union hids hids' (holds_of_members hargs hids) hps,
      (built_keep _).symm⟩

theorem atomic_buildPattern (m : PatternMethod) {args : List Value}
    (hargs : (Value.allObjects args).all s.holds) :
    Atomic s (fun s' ↦ ∃ f g, s.Builds site m args f g ∧ s' = s.built site f g)
      ((buildPattern site m args).perform s) := by
  rw [buildPattern.eq_def]
  split
  · exact (atomic_addTriple rfl).answered
  · exact (atomic_continueTriple _).answered
  · exact (atomic_filter _).answered
  · exact (atomic_block hargs .present).answered
  · exact (atomic_block hargs .absent).answered
  · exact (atomic_block hargs .optional).answered
  · exact (atomic_union hargs).answered
  · exact .refused _

end Building

end Action

/-! ## Attaching queries -/

namespace Session

/-- A query that the session holds is put into the graph at a site; if that is the graph of a query,
neither of the two is or contains the other one. -/
structure Attaches (s : Session) (site : Site) (q : QueryId) : Prop where
  holds : s.holds (.query q)
  new : ∀ outer, site = .query outer → q ≠ outer ∧ s.contains q outer = false

/-- The session with a query put into the graph at a site. -/
def attached (s : Session) (site : Site) (q : QueryId) : Session :=
  s.built site (·.defineVariables ((s.query q).projectedVariables (s.queryLedger q)))
    (·.addSubquery q)

theorem Attaches.building {s : Session} {site : Site} {q : QueryId} (h : s.Attaches site q) :
    Building s site (·.defineVariables ((s.query q).projectedVariables (s.queryLedger q)))
      (·.addSubquery q) :=
  .subquery h.holds h.new

end Session

namespace Action

variable {s : Session} {v : Value}

theorem atomic_graphSubquery {id : GraphId} (hv : v.objects.all s.holds) :
    Atomic s (fun s' ↦ ∃ q, v = .object (.query q) ∧ s.Attaches (.graph id) q ∧
      s' = s.attached (.graph id) q) ((graphSubquery id v).perform s) := by
  rw [graphSubquery.eq_def]
  split
  · rename_i q
    have hq : s.holds (.query q) := by simpa [Value.objects] using hv
    exact .done () ⟨q, rfl, ⟨hq, by simp⟩, rfl⟩
  · exact .refused _

theorem atomic_querySubquery {id : QueryId} (hv : v.objects.all s.holds) :
    Atomic s (fun s' ↦ ∃ q, v = .object (.query q) ∧ s.Attaches (.query id) q ∧
      s' = s.attached (.query id) q) ((querySubquery id v).perform s) := by
  rw [querySubquery.eq_def]
  split
  · rename_i q
    have hq : s.holds (.query q) := by simpa [Value.objects] using hv
    apply Atomic.bind_of_reads (perform_get s)
    rintro _ ⟨⟩
    split
    · exact .refused _
    · rename_i hnew
      obtain ⟨hne, hnot⟩ := not_or.mp hnew
      refine .done () ⟨q, rfl, ⟨hq, ?_⟩, rfl⟩
      rintro _ ⟨⟩
      exact ⟨hne, by simpa using hnot⟩
  · exact .refused _

end Action

/-! ## Settings of queries -/

/-- What a method that sets the head of a query sets, and the kinds of what is projected. -/
def QueryMethod.head? : QueryMethod → Option (Form × Option Uniqueness × List Kind)
  | select uniqueness => some (.select, uniqueness, projectionKinds)
  | describe => some (.describe, none, describedKinds)
  | _ => none

theorem QueryMethod.kinds_of_head? {m : QueryMethod} {form : Form} {uniqueness : Option Uniqueness}
    {kinds : List Kind} (h : m.head? = some (form, uniqueness, kinds)) :
    kinds = projectionKinds ∨ kinds = describedKinds := by
  unfold head? at h
  split at h
  · exact .inl (Prod.mk.inj (Prod.mk.inj (Option.some.inj h)).2).2.symm
  · exact .inr (Prod.mk.inj (Prod.mk.inj (Option.some.inj h)).2).2.symm
  · exact nomatch h

/-- The value that is read as an IRI: a term counts by its label. -/
def Value.asIri (v : Value) : Value := (v.asText?.map text).getD v

/-- What a method sets in a query when it succeeds: what is entered into its ledger, and what becomes
of the query. -/
inductive Session.Sets (s : Session) (id : QueryId) :
    QueryMethod → List Value → (Ledger → Ledger) → (Query → Query) → Prop where
  | binding {name iri : Value} {n i : Expression} (hn : name.Reads [.prefixName] n)
      (hi : iri.asIri.Reads [.iri] i)
      (hfree : ∀ bound, (s.query id).prefixes.find? n.text = some bound → bound = i.text) :
      Sets s id .bindPrefix [name, iri] (·.definePrefixes [.ofName n.text])
        fun q ↦ { q with prefixes := q.prefixes.insert n.text i.text }
  | head {m : QueryMethod} {form : Form} {uniqueness : Option Uniqueness} {kinds : List Kind}
      {args : List Value} {es : List Expression} (hm : m.head? = some (form, uniqueness, kinds))
      (hes : List.Forall₂ (fun v e ↦ v.Reads kinds e) (unpacked args) es)
      (hnone : (s.query id).head = none) :
      Sets s id m args (noteAll es) fun q ↦ { q with head := some ⟨form, uniqueness, es⟩ }
  | groupBy {args : List Value} {es : List Expression} (hne : unpacked args ≠ [])
      (hes : List.Forall₂ (fun v e ↦ v.Reads projectionKinds e) (unpacked args) es) :
      Sets s id .groupBy args (noteAll es)
        fun q ↦ { q with modifiers := { q.modifiers with groupBy := some es } }
  | having {v : Value} {e : Expression} (he : v.Reads conditionKinds e) :
      Sets s id .having [v] (noteAll [e])
        fun q ↦ { q with modifiers := { q.modifiers with having := some e } }
  | orderBy {v : Value} {towards : List Value} {e : Expression} (d : Direction)
      (he : v.Reads orderKinds e) :
      Sets s id .orderBy (v :: towards) (noteAll [e])
        fun q ↦ { q with modifiers := { q.modifiers with orderBy := some (d, e) } }
  | slice {slice : Slice} {v : Value} {n : Nat} (hn : count slice v = .ok n) :
      Sets s id (.slice slice) [v] (noteAll [])
        fun q ↦ { q with modifiers := q.modifiers.setSlice n slice }

theorem isOf_of_forall₂ {kinds : List Kind} {vs : List Value} {es : List Expression}
    (h : List.Forall₂ (fun v e ↦ v.Reads kinds e) vs es) : ∀ e ∈ es, e.IsOf kinds := by
  intro e he
  obtain ⟨v, -, hreads⟩ := exists_of_forall₂_right h he
  exact hreads.isOf

theorem Session.Sets.setting {s : Session} {id : QueryId} {m : QueryMethod} {args : List Value}
    {f : Ledger → Ledger} {g : Query → Query} (h : s.Sets id m args f g) : Setting s id f g := by
  cases h with
  | binding hn hi hfree => exact .binding hn.isOf hi.isOf hfree
  | head hm hes hnone => exact .head _ _ (QueryMethod.kinds_of_head? hm) (isOf_of_forall₂ hes) hnone
  | groupBy hne hes =>
      refine .modifier (.groupBy ?_ (isOf_of_forall₂ hes))
      rintro rfl
      exact hne (List.forall₂_nil_right_iff.mp hes)
  | having he => exact .modifier (.having he.isOf)
  | orderBy d he => exact .modifier (.orderBy d he.isOf)
  | slice _ => exact .modifier (.slice _ _)

namespace Action

section Setting

variable {s : Session} {id : QueryId}

theorem atomic_setHead {m : QueryMethod} {form : Form} {uniqueness : Option Uniqueness}
    {kinds : List Kind} (hm : m.head? = some (form, uniqueness, kinds)) (args : List Value) :
    Atomic s (fun s' ↦ ∃ f g, s.Sets id m args f g ∧ s' = s.settled id f g)
      ((setHead id form uniqueness kinds args).perform s) := by
  rw [setHead]
  apply Atomic.bind_of_reads (perform_get s)
  rintro _ ⟨⟩
  cases hhead : (s.query id).head with
  | some head => exact .refused _
  | none =>
      obtain ⟨r, hr, hes⟩ := expressions_reads (s := s) kinds (unpacked args)
      apply Atomic.bind_of_reads hr
      intro es heq
      exact .done () ⟨_, _, .head hm (hes es heq) hhead, rfl⟩

theorem atomic_groupBy (args : List Value) :
    Atomic s (fun s' ↦ ∃ f g, s.Sets id .groupBy args f g ∧ s' = s.settled id f g)
      ((groupBy id args).perform s) := by
  rw [groupBy]
  split
  · exact .refused _
  · rename_i hne
    obtain ⟨r, hr, hes⟩ := expressions_reads (s := s) projectionKinds (unpacked args)
    apply Atomic.bind_of_reads hr
    intro es heq
    have hargs : unpacked args ≠ [] := fun hnil ↦ hne (List.isEmpty_iff.mpr hnil)
    exact .done () ⟨_, _, .groupBy hargs (hes es heq), rfl⟩

theorem atomic_having (v : Value) :
    Atomic s (fun s' ↦ ∃ f g, s.Sets id .having [v] f g ∧ s' = s.settled id f g)
      ((having id v).perform s) := by
  apply Atomic.bind_of_reads (perform_expression _ _)
  intro e he
  exact .done () ⟨_, _, .having (classify_eq_ok_iff.mp he), rfl⟩

theorem atomic_orderBy (v direction : Value) (towards : List Value) :
    Atomic s (fun s' ↦ ∃ f g, s.Sets id .orderBy (v :: towards) f g ∧ s' = s.settled id f g)
      ((orderBy id v direction).perform s) := by
  obtain ⟨r, hr⟩ := direction_reads (s := s) direction
  apply Atomic.bind_of_reads hr
  intro d _
  apply Atomic.bind_of_reads (perform_expression _ _)
  intro e he
  exact .done () ⟨_, _, .orderBy d (classify_eq_ok_iff.mp he), rfl⟩

theorem atomic_setSlice (slice : Slice) (v : Value) :
    Atomic s (fun s' ↦ ∃ f g, s.Sets id (.slice slice) [v] f g ∧ s' = s.settled id f g)
      ((setSlice id slice v).perform s) := by
  apply Atomic.bind_of_reads (perform_ofResult _ s)
  intro n hn
  refine .done () ⟨_, _, .slice hn, ?_⟩
  change _ = (s.modifyLedger _ fun l ↦ l).modifyQuery id _
  rw [modifyLedger_keep]

theorem atomic_bindPrefix (h : s.holds (.query id)) (name iri : Value) :
    Atomic s (fun s' ↦ ∃ f g, s.Sets id .bindPrefix [name, iri] f g ∧ s' = s.settled id f g)
      ((bindPrefix id name iri).perform s) := by
  apply Atomic.bind_of_reads (perform_expression _ _)
  intro n hn
  apply Atomic.bind_of_reads (perform_expression _ _)
  intro i hi
  apply Atomic.bind_of_reads (perform_get s)
  rintro _ ⟨⟩
  -- The prefix is bound before its name is entered, which comes to the same.
  have hbind (hfree : ∀ bound, (s.query id).prefixes.find? n.text = some bound →
      bound = i.text) :
      Atomic s (fun s' ↦ ∃ f g, s.Sets id .bindPrefix [name, iri] f g ∧ s' = s.settled id f g)
        ((do
          modify (·.modifyQuery id fun q ↦ { q with prefixes := q.prefixes.insert n.text i.text })
          note (.query id) (·.definePrefixes [.ofName n.text]) : Action Unit).perform s) := by
    have hledger : ((s.modifyQuery id fun q ↦
        { q with prefixes := q.prefixes.insert n.text i.text }).query id).graph.ledger =
          (s.query id).graph.ledger := by
      rw [Session.query_modifyQuery_self _ _ (by simpa [Session.holds] using h)]
    refine .done () ⟨_, _,
      .binding (classify_eq_ok_iff.mp hn) (classify_eq_ok_iff.mp hi) hfree, ?_⟩
    change (s.modifyQuery id _).modifyLedger ((s.modifyQuery id _).query id).graph.ledger _ = _
    rw [hledger]
    rfl
  cases hfind : (s.query id).prefixes.find? n.text with
  | none => exact hbind (by simp [hfind])
  | some bound =>
      dsimp only
      by_cases heq : bound = i.text
      · rw [if_neg (not_not.mpr heq)]
        apply hbind
        intro bound' hbound'
        rw [hfind] at hbound'
        exact Option.some.inj hbound' ▸ heq
      · rw [if_pos heq]
        exact .refused _

end Setting

end Action

/-! ## New queries -/

/-- The declarations that a collection holds, none if it is no collection. -/
def Value.given (v : Value) : List Value := (declarations v).toOption.getD []

/-- The bound prefixes of a query as they are handed to a new one. -/
def Query.bindings (q : Query) : Value :=
  .mapping (q.prefixes.entries.map fun (name, iri) ↦ (.text name, .text iri))

namespace Action

variable {s : Session}

theorem atomic_atomically {α : Type} {a : Action α} {P : Session → Prop}
    (h : ∀ x s', a.perform s = (.ok x, s') → P s') : Atomic s P ((atomically a).perform s) := by
  rw [perform_atomically]
  cases ha : a.perform s with
  | mk r s' =>
      cases r with
      | error e => exact .refused e
      | ok x => exact .done x (h x s' ha)

theorem given_eq {v : Value} {items : List Value} (h : declarations v = .ok items) :
    v.given = items := by
  rw [Value.given, h]
  rfl

theorem perform_bindPrefixes_ok {id : QueryId} {v : Value} {items : List Value}
    (h : declarations v = .ok items) :
    (bindPrefixes id v).perform s = (bindEach id items).perform s := by
  rw [bindPrefixes, h]
  exact perform_bind_ok (perform_ofResult _ s)

theorem perform_bindPrefixes_error {id : QueryId} {v : Value} {e : Error}
    (h : declarations v = .error e) : (bindPrefixes id v).perform s = (.error e, s) := by
  rw [bindPrefixes, h]
  exact perform_bind_error (perform_ofResult _ s)

theorem session_bindPrefixes (id : QueryId) (v : Value) :
    ((bindPrefixes id v).perform s).2 = ((bindEach id v.given).perform s).2 := by
  cases hitems : declarations v with
  | error e =>
      rw [perform_bindPrefixes_error hitems, Value.given, hitems]
      rfl
  | ok items => rw [perform_bindPrefixes_ok hitems, given_eq hitems]

/-- What every declaration keeps, several of them keep. -/
theorem bindEach_keeps {id : QueryId} {P : Session → Prop}
    (hstep : ∀ (s : Session) (name iri : Value) f g, s.holds (.query id) →
      s.Sets id .bindPrefix [name, iri] f g → P s → P (s.settled id f g))
    (hid : s.holds (.query id)) (vs : List Value) (h : P s) :
    P ((bindEach id vs).perform s).2 := by
  induction vs generalizing s with
  | nil => exact h
  | cons v vs ih =>
      rw [bindEach]
      cases declaration v with
      | error e =>
          rw [perform_bind_error (perform_ofResult _ s)]
          exact h
      | ok pair =>
          obtain ⟨name, iri⟩ := pair
          rw [perform_bind_ok (perform_ofResult _ s)]
          dsimp only
          have hatomic := atomic_bindPrefix hid name iri
          cases hr : (bindPrefix id name iri).perform s with
          | mk r s' =>
              rw [hr] at hatomic
              cases hatomic with
              | refused e =>
                  rw [perform_bind_error hr]
                  exact h
              | done _ hsets =>
                  obtain ⟨f, g, hsets, rfl⟩ := hsets
                  have hheld : (s.settled id f g).holds (.query id) := by
                    rwa [Session.holds_query_iff, Session.length_settled.2.2,
                      ← Session.holds_query_iff]
                  rw [perform_bind_ok hr]
                  exact ih hheld (hstep s name iri f g hid hsets h)

/-- A new query is there as soon as all that it is given is declared. -/
theorem atomic_newQuery (v : Value) :
    Atomic s (fun s' ↦ s' = ((bindEach s.queries.length v.given).perform s.withQuery).2)
      ((newQuery v).perform s) := by
  by_cases hnull : v = .null
  · subst hnull
    apply atomic_atomically
    intro id s' h
    exact (congrArg Prod.snd h).symm
  · rw [newQuery_of_ne_null hnull]
    apply atomic_atomically
    intro id s' h
    change (do
      bindPrefixes s.queries.length v
      pure s.queries.length : Action QueryId).perform s.withQuery = (.ok id, s') at h
    cases hitems : declarations v with
    | error e =>
        rw [perform_bind_error (perform_bindPrefixes_error hitems)] at h
        cases congrArg Prod.fst h
    | ok items =>
        rw [perform_bind, perform_bindPrefixes_ok hitems] at h
        rw [given_eq hitems]
        cases hr : (bindEach s.queries.length items).perform s.withQuery with
        | mk r s₁ =>
            rw [hr] at h
            cases r with
            | error e => cases congrArg Prod.fst h
            | ok _ => exact (congrArg Prod.snd h).symm

theorem atomic_newSubquery (id : QueryId) :
    Atomic s (fun s' ↦
        s' = ((bindEach s.queries.length (s.query id).bindings.given).perform s.withQuery).2)
      ((newSubquery id).perform s) := by
  rw [newSubquery, perform_bind_ok (perform_get s)]
  exact atomic_newQuery (s.query id).bindings

end Action

/-! ## Calls -/

/-- The methods that only answer from a query as it stands. -/
def QueryMethod.asks : QueryMethod → Bool
  | boundPrefixes | projectedVariables | hasSubquery | render | print | format => true
  | _ => false

/-- The calls that do one thing. The others enter or declare items one after the other. -/
def Call.isSingle : Call → Bool
  | ledger _ _ _ | newQuery _ | query _ .newSubquery _ | query _ .bindPrefixes _ => false
  | _ => true

namespace Session

/-- What a single call does when it succeeds. -/
inductive Does (s : Session) : Call → Session → Prop where
  | newLedger : Does s .newLedger s.withLedger
  | newGraph {l : LedgerId} (hl : s.holds (.ledger l)) : Does s (.newGraph l) (s.withGraph l)
  | newSubgraph {id : QueryId} (hid : s.holds (.query id)) :
      Does s (.query id .newSubgraph []) (s.withGraph (s.query id).graph.ledger)
  | builds {site : Site} {m : PatternMethod} {args : List Value} {f : Ledger → Ledger}
      {g : Graph → Graph} (hsite : s.holds site.object) (h : s.Builds site m args f g) :
      Does s (.pattern site m args) (s.built site f g)
  | graphAttaches {id : GraphId} {q : QueryId} (hid : s.holds (.graph id))
      (h : s.Attaches (.graph id) q) :
      Does s (.graph id .subquery [.object (.query q)]) (s.attached (.graph id) q)
  | queryAttaches {id q : QueryId} (hid : s.holds (.query id)) (h : s.Attaches (.query id) q) :
      Does s (.query id .subquery [.object (.query q)]) (s.attached (.query id) q)
  | sets {id : QueryId} {m : QueryMethod} {args : List Value} {f : Ledger → Ledger}
      {g : Query → Query} (hid : s.holds (.query id)) (h : s.Sets id m args f g) :
      Does s (.query id m args) (s.settled id f g)
  | renders (id : GraphId) (args : List Value) : Does s (.graph id .render args) s
  | asks (id : QueryId) {m : QueryMethod} (hm : m.asks) (args : List Value) :
      Does s (.query id m args) s
  | validation (validates : Bool) : Does s (.setValidation validates) { s with validates }

variable {s s' : Session}

theorem atomic_askGraph {id : GraphId} (hid : s.holds (.graph id)) (m : GraphMethod)
    {args : List Value} (hargs : (Value.allObjects args).all s.holds) :
    Atomic s (s.Does (.graph id m args)) ((askGraph id m args).perform s) := by
  rw [askGraph.eq_def]
  split
  · apply (atomic_graphSubquery (by simpa [Value.allObjects] using hargs)).answered.mono
    rintro _ ⟨q, rfl, hattaches, rfl⟩
    exact .graphAttaches hid hattaches
  · exact .ask _ (.renders id [])
  · exact .refused _

theorem atomic_askQuery {id : QueryId} (hid : s.holds (.query id)) {m : QueryMethod}
    {args : List Value} (hargs : (Value.allObjects args).all s.holds)
    (hc : (Call.query id m args).isSingle) :
    Atomic s (s.Does (.query id m args)) ((askQuery id m args).perform s) := by
  have hsets {m : QueryMethod} {args : List Value} {a : Action Unit}
      (ha : Atomic s (fun s' ↦ ∃ f g, s.Sets id m args f g ∧ s' = s.settled id f g) (a.perform s)) :
      Atomic s (s.Does (.query id m args)) ((Action.done a).perform s) := by
    apply ha.answered.mono
    rintro _ ⟨f, g, h, rfl⟩
    exact .sets hid h
  rw [askQuery.eq_def]
  split
  case h_1 => exact hsets (atomic_bindPrefix hid _ _)
  case h_2 => exact nomatch hc
  case h_4 => exact hsets (atomic_setHead rfl _)
  case h_5 => exact hsets (atomic_setHead rfl _)
  case h_7 =>
      apply (atomic_querySubquery (by simpa [Value.allObjects] using hargs)).answered.mono
      rintro _ ⟨q, rfl, hattaches, rfl⟩
      exact .queryAttaches hid hattaches
  case h_10 => exact nomatch hc
  case h_11 => exact .done _ (.newSubgraph hid)
  case h_12 => exact hsets (atomic_groupBy _)
  case h_13 => exact hsets (atomic_having _)
  case h_14 => exact hsets (atomic_orderBy _ _ _)
  case h_15 => exact hsets (atomic_orderBy _ _ _)
  case h_16 => exact hsets (atomic_setSlice _ _)
  case h_21 => exact .refused _
  all_goals exact .ask _ (.asks id rfl _)

/-- A single call fails without a trace, or does what it is told to do. -/
theorem atomic_call {c : Call} (hc : c.isSingle) : Atomic s (s.Does c) (s.call c) := by
  rw [call]
  split
  · rename_i hheld
    cases c with
    | newLedger => exact .done _ .newLedger
    | newGraph l =>
        rw [Call.objects, List.all_cons, Bool.and_eq_true] at hheld
        exact .done _ (.newGraph hheld.1)
    | newQuery prefixes => exact nomatch hc
    | ledger id m args => exact nomatch hc
    | pattern site m args =>
        rw [Call.objects, List.all_cons, Bool.and_eq_true] at hheld
        apply (atomic_buildPattern m hheld.2).mono
        rintro _ ⟨f, g, h, rfl⟩
        exact .builds hheld.1 h
    | graph id m args =>
        rw [Call.objects, List.all_cons, Bool.and_eq_true] at hheld
        exact atomic_askGraph hheld.1 m hheld.2
    | query id m args =>
        rw [Call.objects, List.all_cons, Bool.and_eq_true] at hheld
        exact atomic_askQuery hheld.1 hheld.2 hc
    | setValidation validates => exact .done _ (.validation validates)
  · exact .refused _

theorem atomic_call_newQuery (v : Value) : Atomic s
    (fun s' ↦ s' = ((bindEach s.queries.length v.given).perform s.withQuery).2)
    (s.call (.newQuery v)) := by
  rw [call]
  split
  · exact (atomic_newQuery v).bind_pure _
  · exact .refused _

theorem atomic_call_newSubquery (id : QueryId) (args : List Value) : Atomic s
    (fun s' ↦ s' =
      ((bindEach s.queries.length (s.query id).bindings.given).perform s.withQuery).2)
    (s.call (.query id .newSubquery args)) := by
  rw [call]
  split
  · cases args with
    | nil => exact (atomic_newSubquery id).bind_pure _
    | cons v vs => exact .refused _
  · exact .refused _

/-- What a single call does is one change, or none. -/
theorem Does.change (hplaced : ∀ id, s.holds (.query id) →
    (s.query id).graph.ledger < s.ledgers.length) {c : Call} (h : s.Does c s') :
    s' = s ∨ s.Change s' := by
  cases h with
  | newLedger => exact .inr .newLedger
  | @newGraph l hl =>
      have hlt : l < s.ledgers.length := by
        simp only [holds, Bool.and_eq_true, decide_eq_true_eq] at hl
        exact hl.1
      exact .inr (.newGraph hlt)
  | newSubgraph hid => exact .inr (.newGraph (hplaced _ hid))
  | builds hsite h => exact .inr (.building hsite h.building)
  | graphAttaches hid h => exact .inr (.building hid h.building)
  | queryAttaches hid h => exact .inr (.building hid h.building)
  | sets hid h => exact .inr (.setting hid h.setting)
  | renders _ _ => exact .inl rfl
  | asks _ _ _ => exact .inl rfl
  | validation validates => exact .inr (.validation validates)

end Session

end SparqlComposer
