import SparqlComposer.Proofs.Literal.Session
import SparqlComposer.Proofs.Prefix.Declared
import SparqlComposer.Proofs.Session.Part
import SparqlComposer.Proofs.Usage.Validation

/-!
# Bindings of prefixes

A query binds a name once and for all: a declaration of another IRI for it is refused, and no other
call touches the bindings of a query than a declaration on this query. A query that is made from
another one starts with the same bindings and goes on by itself.
-/

namespace SparqlComposer

open SparqlComposer.Action

/-! ## Arguments that are read -/

namespace Value.Reads

variable {v : Value} {kinds : List Kind} {e : Expression}

theorem objects_eq (h : v.Reads kinds e) : v.objects = [] := by
  obtain ⟨t, ht, -⟩ := h
  cases v with
  | text _ | term _ => rfl
  | _ => cases ht

theorem objects_eq_of_asIri (h : v.asIri.Reads kinds e) : v.objects = [] := by
  cases v with
  | text _ | term _ => rfl
  | _ => exact h.objects_eq

end Value.Reads

theorem IsTermOf.reads_text {k : Kind} {t : Text} (h : IsTermOf [k] t) :
    (Value.text t).Reads [k] (.ofKind k t) := by
  obtain ⟨k', hk, hadmits⟩ := h
  obtain rfl := List.mem_singleton.mp hk
  exact Value.reads_singleton_iff.mpr ⟨t, rfl, hadmits, rfl⟩

namespace Session

variable {s s' : Session} {q id : QueryId}

/-! ## What happens to the bindings of a query -/

/-- What is set in a query leaves its bindings, or adds one that agrees with them. -/
theorem Sets.keeps_prefixes {m : QueryMethod} {args : List Value} {f : Ledger → Ledger}
    {g : Query → Query} (hsets : s.Sets id m args f g) {P : OrderedMap Text Text → Prop}
    (hid : s.holds (.query id)) (h : P (s.query q).prefixes)
    (hbind : id = q → m = .bindPrefix → ∀ name iri,
      (∀ bound, (s.query q).prefixes.find? name = some bound → bound = iri) →
      P ((s.query q).prefixes.insert name iri)) :
    P ((s.settled id f g).query q).prefixes := by
  by_cases heq : id = q
  · subst heq
    rw [query_settled_self hid]
    cases hsets with
    | binding _ _ hfree => exact hbind rfl rfl _ _ hfree
    | head _ _ _ => exact h
    | groupBy _ _ => exact h
    | having _ => exact h
    | orderBy _ _ => exact h
    | slice _ => exact h
  · rwa [query_settled_of_ne heq]

section Keeping

variable {P : OrderedMap Text Text → Prop} {c : Call}

theorem Does.keeps_prefixes (hdoes : s.Does c s') (hq : s.holds (.query q))
    (h : P (s.query q).prefixes)
    (hbind : c.part? = some (q, .prefixes) → ∀ name iri,
      (∀ bound, (s.query q).prefixes.find? name = some bound → bound = iri) →
      P ((s.query q).prefixes.insert name iri)) : P (s'.query q).prefixes := by
  have hbuilt (site : Site) (f : Ledger → Ledger) (g : Graph → Graph) :
      P ((s.built site f g).query q).prefixes := by
    rwa [query_built]
  cases hdoes with
  | builds _ _ => exact hbuilt _ _ _
  | graphAttaches _ _ => exact hbuilt _ _ _
  | queryAttaches _ _ => exact hbuilt _ _ _
  | sets hid hsets =>
      refine hsets.keeps_prefixes hid h fun heq hm ↦ hbind ?_
      subst heq hm
      rfl
  | newLedger | newGraph _ | newSubgraph _ | renders _ _ | asks _ _ _ | validation _ => exact h

theorem keeps_prefixes_of_making {vs : List Value} {r : Except Error Answer × Session}
    (hr : Atomic s (fun s' ↦ s' = ((bindEach s.queries.length vs).perform s.withQuery).2) r)
    (hq : s.holds (.query q)) (h : P (s.query q).prefixes) : P (r.2.query q).prefixes := by
  have hne : q ≠ s.queries.length := Nat.ne_of_lt (holds_query_iff.mp hq)
  cases hr with
  | refused _ => exact h
  | done _ hs' =>
      rw [hs']
      refine bindEach_keeps (P := fun s' ↦ P (s'.query q).prefixes) ?_ holds_withQuery_new vs ?_
      · intro s' name iri f g _ _ hkept
        rwa [query_settled_of_ne (Ne.symm hne)]
      · rwa [query_withQuery, if_neg hne]

/-- The bindings of a query are changed by nothing but a declaration there, which adds one binding
after the other. Each of them agrees with those before. -/
theorem keeps_prefixes_call (hq : s.holds (.query q)) (h : P (s.query q).prefixes)
    (hbind : c.part? = some (q, .prefixes) → ∀ ps name iri,
      (∀ bound, ps.find? name = some bound → bound = iri) → P ps → P (ps.insert name iri)) :
    P ((s.call c).2.query q).prefixes := by
  by_cases hc : c.isSingle
  · have hatomic := atomic_call (s := s) hc
    by_cases hok : (s.call c).1.isOk
    · exact (hatomic.of_isOk hok).keeps_prefixes hq h fun hpart name iri hfree ↦
        hbind hpart _ name iri hfree h
    · rwa [hatomic.session_eq_of_not_isOk hok]
  · cases c with
    | newQuery v => exact keeps_prefixes_of_making (atomic_call_newQuery v) hq h
    | ledger id m args =>
        rw [call]
        split
        · obtain ⟨f, hf⟩ := session_askLedger (s := s) id m args
          change P (((askLedger id m args).perform s).2.query q).prefixes
          rwa [hf]
        · exact h
    | query id m args =>
        cases m with
        | newSubquery => exact keeps_prefixes_of_making (atomic_call_newSubquery id args) hq h
        | bindPrefixes =>
            refine keeps_bindPrefixes (P := fun s' ↦ P (s'.query q).prefixes) h ?_
            intro s' name iri f g hid hsets hkept
            refine hsets.keeps_prefixes hid hkept fun heq _ n i hfree ↦ hbind ?_ _ n i hfree hkept
            rw [heq]
            rfl
        | _ => exact absurd rfl hc
    | _ => exact absurd rfl hc

theorem keeps_prefixes_run (hplaced : s.Placed) (hq : s.holds (.query q))
    (h : P (s.query q).prefixes) (cs : List Call)
    (hbind : ∀ c ∈ cs, c.part? = some (q, .prefixes) → ∀ ps name iri,
      (∀ bound, ps.find? name = some bound → bound = iri) → P ps → P (ps.insert name iri)) :
    P ((s.run cs).query q).prefixes := by
  induction cs generalizing s with
  | nil => exact h
  | cons c cs ih =>
      have hchanges := changes_call hplaced c
      exact ih (hplaced.changes hchanges) (hchanges.holds_query hq)
        (keeps_prefixes_call hq h (hbind c List.mem_cons_self))
        fun c' hc' ↦ hbind c' (List.mem_cons_of_mem c hc')

end Keeping

/-- A bound name stays bound to its IRI, whatever is called. -/
theorem find?_prefixes_run (hplaced : s.Placed) {n i : Text}
    (h : (s.query q).prefixes.find? n = some i) (cs : List Call) :
    ((s.run cs).query q).prefixes.find? n = some i := by
  have hq : s.holds (.query q) := by
    rw [holds_query_iff]
    by_contra hlt
    rw [query_eq_of_length_le (Nat.le_of_not_lt hlt)] at h
    cases h
  refine keeps_prefixes_run (P := fun ps ↦ ps.find? n = some i) hplaced hq h cs ?_
  intro _ _ _ ps name iri hfree hbound
  rw [OrderedMap.find?_insert]
  split
  · rename_i heq
    rw [hfree i (heq ▸ hbound)]
  · exact hbound

/-- Calls that declare no prefixes on a query leave its bindings. -/
theorem prefixes_run_eq (hplaced : s.Placed) (hq : s.holds (.query q)) {cs : List Call}
    (hcs : ∀ c ∈ cs, c.part? ≠ some (q, .prefixes)) :
    ((s.run cs).query q).prefixes = (s.query q).prefixes :=
  keeps_prefixes_run (P := (· = (s.query q).prefixes)) hplaced hq rfl cs
    fun c hc hpart ↦ absurd hpart (hcs c hc)

/-- After any calls, the bindings of a query stand in the order in which its names were first declared,
and its ledger defines just these names. -/
theorem keys_prefixes_run (calls : List Call) (hq : (empty.run calls).holds (.query q)) :
    ((empty.run calls).query q).prefixes.keys =
      ((empty.history q calls).flatMap Mention.declaredPrefixes).eraseDups := by
  have hreachable : (empty.run calls).Reachable := ⟨calls, rfl⟩
  have hkeys := hreachable.inStep q (holds_query_iff.mp hq)
  have hinj : Function.Injective Entry.ofName := fun n n' heq ↦
    Key.text.inj (congrArg Entry.key heq)
  apply List.map_injective_iff.mpr hinj
  rw [← hkeys, ← ledgerOf_of_holds hq, ledgerOf_run, Ledger.tellAll_eq]
  exact OrderedSet.toList_ofList_ofName _

/-! ## Declaring -/

/-- The session after the declaration of a prefix. -/
def bound (s : Session) (id : QueryId) (name iri : Text) : Session :=
  s.settled id (·.definePrefixes [.ofName name])
    fun q ↦ { q with prefixes := q.prefixes.insert name iri }

theorem prefixes_bound_self (hid : s.holds (.query id)) (name iri : Text) :
    ((s.bound id name iri).query id).prefixes = (s.query id).prefixes.insert name iri := by
  rw [bound, query_settled_self hid]

theorem holds_query_bound (name iri : Text) :
    (s.bound id name iri).holds (.query q) ↔ s.holds (.query q) := by
  rw [holds_query_iff, holds_query_iff, bound, length_settled.2.2]

section Declaring

variable {name iri : Value} {n i : Expression}

/-- A declaration whose arguments are read is refused for the IRI that the name is bound to. -/
theorem perform_bindPrefix_of_ne (hn : name.Reads [.prefixName] n) (hi : iri.asIri.Reads [.iri] i)
    {bound : Text} (hbound : (s.query id).prefixes.find? n.text = some bound)
    (hne : bound ≠ i.text) :
    (bindPrefix id name iri).perform s = (.error (.duplicatePrefix n.text bound), s) := by
  rw [bindPrefix, perform_bind_ok (perform_expression_of_reads hn)]
  refine (perform_bind_ok (perform_expression_of_reads hi)).trans ?_
  rw [perform_bind_ok (perform_get s)]
  simp only [hbound]
  rw [if_pos hne]
  rfl

theorem perform_bindPrefix (hid : s.holds (.query id)) (hn : name.Reads [.prefixName] n)
    (hi : iri.asIri.Reads [.iri] i)
    (hfree : ∀ bound, (s.query id).prefixes.find? n.text = some bound → bound = i.text) :
    (bindPrefix id name iri).perform s = (.ok (), s.bound id n.text i.text) := by
  have hledger : ((s.modifyQuery id fun q ↦
      { q with prefixes := q.prefixes.insert n.text i.text }).query id).graph.ledger =
        (s.query id).graph.ledger := by
    rw [query_modifyQuery_self _ _ (by simpa [holds] using hid)]
  rw [bindPrefix, perform_bind_ok (perform_expression_of_reads hn)]
  refine (perform_bind_ok (perform_expression_of_reads hi)).trans ?_
  rw [perform_bind_ok (perform_get s)]
  have hentered : ((do
      modify (·.modifyQuery id fun q ↦ { q with prefixes := q.prefixes.insert n.text i.text })
      note (.query id) (·.definePrefixes [.ofName n.text]) : Action Unit).perform s) =
        (.ok (), s.bound id n.text i.text) := by
    change (Except.ok (), (s.modifyQuery id _).modifyLedger
      ((s.modifyQuery id _).query id).graph.ledger _) = _
    rw [hledger]
    rfl
  cases hfind : (s.query id).prefixes.find? n.text with
  | none => exact hentered
  | some bound =>
      dsimp only
      rw [if_neg (not_not.mpr (hfree bound hfind))]
      exact hentered

/-- A declaration whose arguments are read is refused exactly when the name is bound to another IRI. -/
theorem call_bindPrefix (hid : s.holds (.query id)) (hn : name.Reads [.prefixName] n)
    (hi : iri.asIri.Reads [.iri] i) :
    (∀ m bound, (s.call (.query id .bindPrefix [name, iri])).1 = .error (.duplicatePrefix m bound) ↔
      m = n.text ∧ (s.query id).prefixes.find? n.text = some bound ∧ bound ≠ i.text) ∧
    ((∀ bound, (s.query id).prefixes.find? n.text = some bound → bound = i.text) →
      s.call (.query id .bindPrefix [name, iri]) = (.ok .itself, s.bound id n.text i.text)) := by
  have hheld : (Call.query id .bindPrefix [name, iri]).objects.all s.holds := by
    simp [Call.objects, Value.allObjects, hn.objects_eq, hi.objects_eq_of_asIri, hid]
  have hcall : s.call (.query id .bindPrefix [name, iri]) =
      (done (bindPrefix id name iri)).perform s := by
    rw [call, if_pos hheld]
    rfl
  rw [hcall, done]
  by_cases hfree : ∀ bound, (s.query id).prefixes.find? n.text = some bound → bound = i.text
  · rw [perform_bind_ok (perform_bindPrefix hid hn hi hfree)]
    refine ⟨fun m bound ↦ ⟨fun h ↦ ?_, ?_⟩, fun _ ↦ rfl⟩
    · cases h
    · rintro ⟨-, hbound, hne⟩
      exact absurd (hfree bound hbound) hne
  · obtain ⟨bound, hboth⟩ := not_forall.mp hfree
    obtain ⟨hbound, hne⟩ := Classical.not_imp.mp hboth
    rw [perform_bind_error (perform_bindPrefix_of_ne hn hi hbound hne)]
    refine ⟨fun m bound' ↦ ⟨fun h ↦ ?_, ?_⟩, fun h ↦ absurd h hfree⟩
    · cases h
      exact ⟨rfl, hbound, hne⟩
    · rintro ⟨rfl, hbound', -⟩
      obtain rfl : bound = bound' := Option.some.inj (hbound.symm.trans hbound')
      rfl

end Declaring

/-! ## Copying -/

/-- Fresh declarations in good form all succeed, and their bindings come behind those before. -/
theorem perform_bindEach (hid : s.holds (.query id)) {es : List (Text × Text)}
    (hes : ∀ e ∈ es, IsTermOf [.prefixName] e.1 ∧ IsTermOf [.iri] e.2)
    (hnodup : ((s.query id).prefixes.keys ++ es.map Prod.fst).Nodup) :
    ∃ s', (bindEach id (es.map fun e ↦ .tuple [.text e.1, .text e.2])).perform s = (.ok (), s') ∧
      s'.holds (.query id) ∧
      (s'.query id).prefixes.entries = (s.query id).prefixes.entries ++ es := by
  induction es generalizing s with
  | nil => exact ⟨s, rfl, hid, (List.append_nil _).symm⟩
  | cons e es ih =>
      obtain ⟨hname, hiri⟩ := hes e List.mem_cons_self
      have hnew : e.1 ∉ (s.query id).prefixes.keys := fun hmem ↦
        (List.nodup_append.mp hnodup).2.2 e.1 hmem e.1 List.mem_cons_self rfl
      have hfind : (s.query id).prefixes.find? e.1 = none := by
        by_contra hsome
        obtain ⟨i, hi⟩ := Option.ne_none_iff_exists'.mp hsome
        exact hnew (List.mem_map.mpr ⟨_, OrderedMap.mem_entries_iff.mpr hi, rfl⟩)
      have hentries : ((s.bound id e.1 e.2).query id).prefixes.entries =
          (s.query id).prefixes.entries ++ [e] := by
        rw [prefixes_bound_self hid]
        exact OrderedMap.entries_alter_of_not_mem hnew _
      have hkeys : ((s.bound id e.1 e.2).query id).prefixes.keys =
          (s.query id).prefixes.keys ++ [e.1] := by
        rw [OrderedMap.keys, hentries, List.map_append]
        rfl
      have hread : (Value.text e.2).asIri.Reads [.iri] (.ofKind .iri e.2) := hiri.reads_text
      have hbind : (bindPrefix id (.text e.1) (.text e.2)).perform s =
          (.ok (), s.bound id e.1 e.2) := by
        have hperform := perform_bindPrefix hid hname.reads_text hread
        simp only [Expression.text_ofKind, hfind] at hperform
        exact hperform fun _ hbound ↦ by cases hbound
      have hrest := ih ((holds_query_bound e.1 e.2).mpr hid)
        (fun e' he' ↦ hes e' (List.mem_cons_of_mem e he'))
        (by rw [hkeys, List.append_assoc]; exact hnodup)
      obtain ⟨s', hperform, hheld, hentries'⟩ := hrest
      refine ⟨s', ?_, hheld, ?_⟩
      · have hpair : declaration (.tuple [.text e.1, .text e.2]) = .ok (.text e.1, .text e.2) := rfl
        rw [List.map_cons, bindEach, hpair, perform_bind_ok (perform_ofResult _ s)]
        dsimp only
        rw [perform_bind_ok hbind, hperform]
      · rw [hentries', hentries, List.append_assoc, List.singleton_append]

theorem perform_atomically_of_ok {α : Type} {a : Action α} {x : α} (h : a.perform s = (.ok x, s')) :
    (atomically a).perform s = (.ok x, s') := by
  rw [perform_atomically, h]

theorem perform_newQuery {v : Value} (hv : v ≠ .null) {items : List Value}
    (hitems : declarations v = .ok items)
    (h : (bindEach s.queries.length items).perform s.withQuery = (.ok (), s')) :
    (newQuery v).perform s = (.ok s.queries.length, s') := by
  have hall : (do
      bindPrefixes s.queries.length v
      pure s.queries.length : Action QueryId).perform s.withQuery =
        (.ok s.queries.length, s') := by
    rw [perform_bind_ok ((perform_bindPrefixes_ok hitems).trans h)]
    rfl
  rw [newQuery_of_ne_null hv]
  exact perform_atomically_of_ok hall

/-- A query can always be made from another one, and starts with the same bindings. -/
theorem Reachable.call_newSubquery (h : s.Reachable) (hid : s.holds (.query id)) :
    (s.call (.query id .newSubquery [])).1 = .ok (.made (.query s.queries.length)) ∧
      (s.call (.query id .newSubquery [])).2.holds (.query s.queries.length) ∧
      ((s.call (.query id .newSubquery [])).2.query s.queries.length).prefixes =
        (s.query id).prefixes := by
  have hnew : s.withQuery.query s.queries.length = { graph := { ledger := s.ledgers.length } } := by
    rw [query_withQuery, if_pos rfl]
  obtain ⟨s', hperform, hnewHeld, hentries⟩ := perform_bindEach holds_withQuery_new
    (h.admitted.query id).bindings (by rw [hnew]; exact (s.query id).prefixes.nodup)
  have hitems : declarations (s.query id).bindings =
      .ok ((s.query id).prefixes.entries.map fun e ↦ .tuple [.text e.1, .text e.2]) := by
    rw [Query.bindings, declarations, List.map_map]
    rfl
  have hmade : (newSubquery id).perform s = (.ok s.queries.length, s') := by
    rw [newSubquery, perform_bind_ok (perform_get s)]
    exact perform_newQuery (v := (s.query id).bindings) (fun hnull ↦ by cases hnull) hitems hperform
  have hcall : s.call (.query id .newSubquery []) =
      (.ok (.made (.query s.queries.length)), s') := by
    rw [call_query_nil hid]
    change (do return Answer.made (.query (← newSubquery id)) : Action Answer).perform s = _
    rw [perform_bind_ok hmade]
    rfl
  rw [hcall]
  refine ⟨rfl, hnewHeld, OrderedMap.ext ?_⟩
  rw [hentries, hnew]
  rfl

end Session

end SparqlComposer
