import SparqlComposer.Proofs.Session.Outcome

/-!
# Calls that fail

A call that fails leaves the session as it was: everything that may go wrong in it is done before
its first change, or its changes are undone. Only a ledger that is given a collection and the
declaration of several prefixes go on item by item. When such a declaration fails, the session is
the one that the declarations before the failing one bring about, each made by a call of its own.
-/

namespace SparqlComposer

open SparqlComposer.Action

namespace Call

/-- The calls that go through a collection and stop at the first item that fails. -/
def isGradual : Call → Bool
  | ledger _ _ _ | query _ .bindPrefixes _ => true
  | _ => false

/-- The call that declares one prefix. -/
def binding (id : QueryId) (pair : Value × Value) : Call :=
  query id .bindPrefix [pair.1, pair.2]

end Call

namespace Session

/-- All the calls succeed, one after the other. -/
def Accepts (s : Session) : List Call → Prop
  | [] => True
  | c :: cs => (∃ x, (s.call c).1 = .ok x) ∧ (s.call c).2.Accepts cs

/-- How the declaration of several prefixes fails, and the session it leaves. -/
inductive BindingFails (s : Session) (id : QueryId) (args : List Value) (e : Error) :
    Session → Prop where
  /-- There is no collection to go through, or something in it is not there. -/
  | atOnce (h : ∀ v items, args = [v] → declarations v = .ok items →
      ¬ (Call.query id .bindPrefixes args).objects.all s.holds) : BindingFails s id args e s
  | atItem {v failing : Value} {before after : List Value} {pairs : List (Value × Value)}
      (hargs : args = [v]) (hitems : declarations v = .ok (before ++ failing :: after))
      (hpairs : before.mapM declaration = .ok pairs)
      (haccepts : s.Accepts (pairs.map (Call.binding id)))
      (hfails : declaration failing = .error e ∨ ∃ pair, declaration failing = .ok pair ∧
        ((s.run (pairs.map (Call.binding id))).call (.binding id pair)).1 = .error e) :
      BindingFails s id args e (s.run (pairs.map (Call.binding id)))

end Session

/-! ## Objects in collections -/

namespace Value

variable {p : Ref → Bool} {v : Value} {items : List Value}

theorem all_keyObjects {entries : List (Value × Value)} (h : (entryObjects entries).all p) :
    (allObjects (entries.map Prod.fst)).all p := by
  induction entries with
  | nil => rfl
  | cons e entries ih =>
      rw [entryObjects, List.all_append, List.all_append, Bool.and_eq_true, Bool.and_eq_true] at h
      rw [List.map_cons, allObjects, List.all_append, Bool.and_eq_true]
      exact ⟨h.1.1, ih h.2⟩

theorem all_entryObjects {entries : List (Value × Value)} (h : (entryObjects entries).all p) :
    (allObjects (entries.map fun (k, w) ↦ .tuple [k, w])).all p := by
  induction entries with
  | nil => rfl
  | cons e entries ih =>
      rw [entryObjects, List.all_append, Bool.and_eq_true] at h
      rw [List.map_cons, allObjects, List.all_append, Bool.and_eq_true]
      exact ⟨by simpa [objects, allObjects] using h.1, ih h.2⟩

theorem allObjects_eq_nil {vs : List Value} (h : ∀ v ∈ vs, v.objects = []) :
    allObjects vs = [] := by
  induction vs with
  | nil => rfl
  | cons v vs ih =>
      rw [allObjects, h v List.mem_cons_self, ih fun w hw ↦ h w (List.mem_cons_of_mem v hw)]
      rfl

/-- The items of a value mention only objects that the value mentions. -/
theorem all_itemObjects (hitems : v.items? = some items) (h : v.objects.all p) :
    (allObjects items).all p := by
  unfold items? at hitems
  split at hitems
  · exact Option.some.inj hitems ▸ h
  · exact Option.some.inj hitems ▸ h
  · exact Option.some.inj hitems ▸ all_keyObjects h
  · obtain ⟨t, -, rfl⟩ := Option.map_eq_some_iff.mp hitems
    rw [allObjects_eq_nil (by simp [objects])]
    rfl

theorem all_declarationObjects (hitems : declarations v = .ok items) (h : v.objects.all p) :
    (allObjects items).all p := by
  unfold declarations at hitems
  split at hitems
  · obtain rfl := Except.ok.inj hitems
    rw [allObjects_eq_nil]
    · rfl
    · intro w hw
      obtain ⟨_, -, rfl⟩ := List.mem_map.mp hw
      rfl
  · exact Except.ok.inj hitems ▸ all_entryObjects h
  · split at hitems
    · obtain rfl := Except.ok.inj hitems
      exact all_itemObjects ‹_› h
    · exact nomatch hitems

theorem all_pairObjects {name iri : Value} (hpair : declaration v = .ok (name, iri))
    (h : v.objects.all p) : name.objects.all p ∧ iri.objects.all p := by
  unfold declaration at hpair
  split at hpair
  · rename_i hitems
    obtain ⟨rfl, rfl⟩ := Prod.mk.inj (Except.ok.inj hpair)
    simpa [allObjects] using all_itemObjects hitems h
  · cases hpair
  · cases hpair

end Value

/-! ## Declaring one by one -/

namespace Session

variable {s : Session} {id : QueryId}

/-- What is set in a query takes no object away. -/
theorem holds_settled {f : Ledger → Ledger} {g : Query → Query} (hg : ∀ q, (g q).graph = q.graph) :
    (s.settled id f g).holds = s.holds := by
  have hgraphs : (s.queries.modify id g).map Query.graph = s.queries.map Query.graph := by
    apply List.ext_getElem?
    intro i
    rw [List.getElem?_map, List.getElem?_map, List.getElem?_modify]
    cases s.queries[i]? with
    | none => rfl
    | some q => by_cases hi : id = i <;> simp [hi, hg]
  have howned (l : LedgerId) : (s.settled id f g).isOwned l = s.isOwned l := by
    have h := congrArg (List.any · fun graph ↦ graph.ledger == l) hgraphs
    simpa [isOwned, settled, modifyQuery, modifyLedger, List.any_map, Function.comp_def] using h
  funext r
  cases r with
  | ledger l =>
      rw [holds, holds, howned, settled, modifyQuery, modifyLedger, List.length_modify]
  | graph g => rfl
  | query q => simp [holds, settled, modifyQuery, modifyLedger]

theorem call_binding {name iri : Value} (hid : s.holds (.query id))
    (hname : name.objects.all s.holds) (hiri : iri.objects.all s.holds) :
    s.call (.binding id (name, iri)) = (done (bindPrefix id name iri)).perform s := by
  have hheld : (Call.binding id (name, iri)).objects.all s.holds := by
    simp only [Call.binding, Call.objects, Value.allObjects, List.all_cons, List.all_append,
      Bool.and_eq_true]
    exact ⟨hid, hname, hiri, rfl⟩
  rw [call, if_pos hheld]
  rfl

/-- Declaring prefixes one after the other stops at the first one that fails. -/
theorem bindEach_fails {e : Error} {vs : List Value} (hid : s.holds (.query id))
    (hheld : (Value.allObjects vs).all s.holds)
    (herror : ((bindEach id vs).perform s).1 = .error e) :
    ∃ before failing after pairs, vs = before ++ failing :: after ∧
      before.mapM declaration = .ok pairs ∧ s.Accepts (pairs.map (Call.binding id)) ∧
      (declaration failing = .error e ∨ ∃ pair, declaration failing = .ok pair ∧
        ((s.run (pairs.map (Call.binding id))).call (.binding id pair)).1 = .error e) ∧
      ((bindEach id vs).perform s).2 = s.run (pairs.map (Call.binding id)) := by
  induction vs generalizing s with
  | nil => exact nomatch herror
  | cons v vs ih =>
      rw [Value.allObjects, List.all_append, Bool.and_eq_true] at hheld
      rw [bindEach] at herror ⊢
      cases hv : declaration v with
      | error e' =>
          rw [hv, perform_bind_error (perform_ofResult _ s)] at herror
          rw [perform_bind_error (perform_ofResult _ s)]
          obtain rfl := Except.error.inj herror
          exact ⟨[], v, vs, [], rfl, rfl, trivial, .inl hv, rfl⟩
      | ok pair =>
          obtain ⟨name, iri⟩ := pair
          obtain ⟨hname, hiri⟩ := Value.all_pairObjects hv hheld.1
          have hcall := call_binding hid hname hiri
          rw [hv, perform_bind_ok (perform_ofResult _ s)] at herror
          rw [perform_bind_ok (perform_ofResult _ s)]
          dsimp only at herror ⊢
          have hatomic := atomic_bindPrefix hid name iri
          cases hr : (bindPrefix id name iri).perform s with
          | mk r s₁ =>
              rw [hr] at hatomic
              cases hatomic with
              | refused e' =>
                  rw [perform_bind_error hr] at herror ⊢
                  obtain rfl := Except.error.inj herror
                  refine ⟨[], v, vs, [], rfl, rfl, trivial, .inr ⟨_, hv, ?_⟩, rfl⟩
                  rw [List.map_nil, run, List.foldl_nil, hcall, done, perform_bind_error hr]
              | done _ hsets =>
                  rw [perform_bind_ok hr] at herror ⊢
                  rw [done, perform_bind_ok hr] at hcall
                  obtain ⟨f, g, hsets, rfl⟩ := hsets
                  have hholds : (s.settled id f g).holds = s.holds :=
                    holds_settled hsets.setting.graph_eq
                  obtain ⟨before, failing, after, pairs, rfl, hpairs, haccepts, hfails, hstate⟩ :=
                    ih (by rwa [hholds]) (by rw [hholds]; exact hheld.2) herror
                  have hrun : s.run ((Call.binding id (name, iri)) :: pairs.map (Call.binding id)) =
                      (s.settled id f g).run (pairs.map (Call.binding id)) := by
                    rw [run, List.foldl_cons, hcall]
                    rfl
                  refine ⟨v :: before, failing, after, (name, iri) :: pairs, rfl, ?_, ?_, ?_, ?_⟩
                  · rw [Except.mapM_cons, hv, hpairs]
                    rfl
                  · rw [List.map_cons, Accepts, hcall]
                    exact ⟨⟨_, rfl⟩, haccepts⟩
                  · rwa [List.map_cons, hrun]
                  · rw [hstate, List.map_cons, hrun]

end Session

/-! ## Failing calls -/

namespace Session

variable {s : Session} {c : Call} {e : Error}

theorem session_eq_of_error (hc : ¬ c.isGradual) (h : (s.call c).1 = .error e) :
    (s.call c).2 = s := by
  by_cases hsingle : c.isSingle
  · exact (atomic_call hsingle).session_eq h
  cases c with
  | newQuery v => exact (atomic_call_newQuery v).session_eq h
  | ledger id m args => exact absurd rfl hc
  | query id m args =>
      cases m with
      | bindPrefixes => exact absurd rfl hc
      | newSubquery => exact (atomic_call_newSubquery id args).session_eq h
      | _ => exact absurd rfl hsingle
  | _ => exact absurd rfl hsingle

theorem bindingFails_of_error {id : QueryId} {args : List Value}
    (h : (s.call (.query id .bindPrefixes args)).1 = .error e) :
    s.BindingFails id args e (s.call (.query id .bindPrefixes args)).2 := by
  by_cases hheld : (Call.query id .bindPrefixes args).objects.all s.holds
  · rw [call, if_pos hheld] at h ⊢
    cases args with
    | nil => exact .atOnce fun _ _ hargs ↦ absurd hargs.symm (List.cons_ne_nil _ _)
    | cons v rest =>
      cases rest with
      | cons _ _ =>
          exact .atOnce fun _ _ hargs ↦
            absurd (List.cons.inj hargs).2 (List.cons_ne_nil _ _)
      | nil =>
        change ((done (bindPrefixes id v)).perform s).1 = .error e at h
        change s.BindingFails id [v] e ((done (bindPrefixes id v)).perform s).2
        cases hitems : declarations v with
        | error e' =>
            have hread : (bindPrefixes id v).perform s = _ := perform_bindPrefixes_error hitems
            rw [done, perform_bind_error hread]
            refine .atOnce fun v' items hargs hitems' ↦ ?_
            obtain ⟨rfl, -⟩ := List.cons.inj hargs
            rw [hitems] at hitems'
            cases hitems'
        | ok items =>
            have hread : (bindPrefixes id v).perform s = _ := perform_bindPrefixes_ok hitems
            simp only [Call.objects, Value.allObjects, List.all_cons, List.all_append,
              Bool.and_eq_true] at hheld
            have hobjects := Value.all_declarationObjects hitems hheld.2.1
            cases hr : (bindEach id items).perform s with
            | mk r s' =>
                cases r with
                | ok _ =>
                    rw [done, perform_bind_ok (hread.trans hr)] at h
                    cases h
                | error e' =>
                    rw [done, perform_bind_error (hread.trans hr)] at h ⊢
                    obtain rfl := Except.error.inj h
                    obtain ⟨before, failing, after, pairs, rfl, hpairs, haccepts, hfails, hstate⟩ :=
                      bindEach_fails hheld.1 hobjects (congrArg Prod.fst hr)
                    rw [hr] at hstate
                    change s.BindingFails id [v] e' s'
                    rw [show s' = _ from hstate]
                    exact .atItem rfl hitems hpairs haccepts hfails
  · rw [call, if_neg hheld]
    exact .atOnce fun _ _ _ _ ↦ hheld

/-- A call that fails leaves no trace, whatever is asked of a graph or a query. When several prefixes
are declared at once, those before the one that fails stay declared, as if they had been declared by
calls of their own. -/
theorem call_error (h : (s.call c).1 = .error e) :
    (¬ c.isGradual → (s.call c).2 = s) ∧
      ∀ id args, c = .query id .bindPrefixes args → s.BindingFails id args e (s.call c).2 :=
  ⟨fun hc ↦ session_eq_of_error hc h, by rintro id args rfl; exact bindingFails_of_error h⟩

/-- Of two declarations of one prefix the second one fails and the first one stays. -/
theorem declared_before_failure : ∃ (s : Session) (v : Value) (e : Error), s.Reachable ∧
    (s.call (.query 0 .bindPrefixes [v])).1 = .error e ∧
    s.BindingFails 0 [v] e (s.call (.query 0 .bindPrefixes [v])).2 ∧
    ((s.call (.query 0 .bindPrefixes [v])).2.query 0).prefixes.entries =
      [("ex".toList, "http://e/".toList)] := by
  let v := Value.list [.tuple [.text "ex".toList, .text "http://e/".toList],
    .tuple [.text "ex".toList, .text "http://f/".toList]]
  let s := empty.run [.newQuery .null]
  have herror : (s.call (.query 0 .bindPrefixes [v])).1 =
      .error (.duplicatePrefix "ex".toList "http://e/".toList) := by rfl
  exact ⟨s, v, _, ⟨_, rfl⟩, herror, (call_error herror).2 0 [v] rfl, by decide +kernel⟩

end Session

end SparqlComposer
