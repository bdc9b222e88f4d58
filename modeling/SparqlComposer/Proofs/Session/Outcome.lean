import SparqlComposer.Proofs.Session.Effect
import SparqlComposer.Proofs.Session.Placed

/-!
# Outcomes of calls

An action that fails leaves the session as it was, and one that succeeds makes a single change or
none. Three kinds of calls do several changes one after the other. All in all, what calls bring
about is brought about by changes, so whatever every change preserves holds of all reachable
sessions.
-/

namespace SparqlComposer

open SparqlComposer.Action

/-- What comes of an action on a session: a failure without a trace, or at most one change. -/
inductive Outcome (s : Session) {α : Type} : Except Error α × Session → Prop where
  | refused (e : Error) : Outcome s (.error e, s)
  | unchanged (x : α) : Outcome s (.ok x, s)
  | changed (x : α) {s' : Session} (h : s.Change s') : Outcome s (.ok x, s')

namespace Outcome

variable {α β : Type} {s : Session}

theorem changes {r : Except Error α × Session} (h : Outcome s r) : s.Changes r.2 := by
  cases h with
  | refused e => exact .refl
  | unchanged x => exact .refl
  | changed x h => exact .single h

end Outcome

namespace Session

theorem Placed.outcome_call {s : Session} (h : s.Placed) {c : Call} (hc : c.isSingle) :
    Outcome s (s.call c) := by
  have hatomic := atomic_call (s := s) hc
  cases hr : s.call c with
  | mk r s' =>
      rw [hr] at hatomic
      cases hatomic with
      | refused e => exact .refused e
      | done x hdoes =>
          rcases hdoes.change fun _ hid ↦ h.queryLedger_lt (holds_query_iff.mp hid) with
            rfl | hchange
          · exact .unchanged x
          · exact .changed x hchange

end Session

namespace Action

variable {s : Session}

/-! ## Several changes -/

theorem changes_bind {α β : Type} {a : Action α} {f : α → Action β}
    (ha : s.Changes (a.perform s).2)
    (hf : ∀ x s', a.perform s = (.ok x, s') → s'.Changes ((f x).perform s').2) :
    s.Changes ((a >>= f).perform s).2 := by
  rw [perform_bind]
  cases hr : a.perform s with
  | mk r s' =>
      rw [hr] at ha
      cases r with
      | error e => exact ha
      | ok x => exact ha.trans (hf x s' hr)

theorem changes_bindEach {id : QueryId} (h : s.holds (.query id)) (vs : List Value) :
    s.Changes ((bindEach id vs).perform s).2 := by
  refine bindEach_keeps (P := s.Changes) ?_ h vs .refl
  intro s' name iri f g hid hsets hchanges
  exact hchanges.tail (.setting hid hsets.setting)

theorem changes_bindPrefixes {id : QueryId} (h : s.holds (.query id)) (collection : Value) :
    s.Changes ((bindPrefixes id collection).perform s).2 := by
  rw [bindPrefixes]
  apply changes_bind (by rw [perform_ofResult])
  intro vs s₁ hread
  obtain rfl : s = s₁ := congrArg Prod.snd hread
  exact changes_bindEach h vs

theorem changes_atomically {α : Type} {a : Action α} (h : s.Changes (a.perform s).2) :
    s.Changes ((atomically a).perform s).2 := by
  rw [perform_atomically]
  cases hr : a.perform s with
  | mk r s' =>
      rw [hr] at h
      cases r with
      | error e => exact .refl
      | ok x => exact h

theorem changes_newQuery (prefixes : Value) : s.Changes ((newQuery prefixes).perform s).2 := by
  by_cases hnull : prefixes = .null
  · subst hnull
    exact changes_atomically (.single .newQuery)
  · rw [newQuery_of_ne_null hnull]
    refine changes_atomically (.head .newQuery ?_)
    change s.withQuery.Changes ((do
      bindPrefixes s.queries.length prefixes
      pure s.queries.length : Action QueryId).perform s.withQuery).2
    exact changes_bind (changes_bindPrefixes Session.holds_withQuery_new _) fun _ _ _ ↦ .refl

theorem changes_enterEach {id : LedgerId} (h : s.holds (.ledger id))
    {enter : Ledger → List Entry → Ledger} (henter : enter ∈ enterings) (vs : List Value) :
    s.Changes ((enterEach id enter vs).perform s).2 := by
  induction vs generalizing s with
  | nil => exact .refl
  | cons v vs ih =>
      rw [enterEach]
      cases Entry.ofValue? v with
      | none => exact .refl
      | some e =>
          refine .head (.entries h henter [e]) (ih ?_)
          simpa [Session.holds, Session.modifyLedger, Session.isOwned] using h

theorem changes_enterGiven {id : LedgerId} (h : s.holds (.ledger id))
    {enter : Ledger → List Entry → Ledger} (henter : enter ∈ enterings)
    (captured : Text → List Entry) (v : Value) :
    s.Changes ((enterGiven id captured enter v).perform s).2 := by
  rw [enterGiven]
  split
  · exact .single (.entries h henter _)
  · exact changes_bind (changes_enterEach h henter _) fun _ _ _ ↦ .refl
  · exact .refl

/-! ## Calls -/

theorem changes_ask (f : Session → Except Error Answer) :
    s.Changes ((ask f).perform s).2 := by
  rw [ask, perform_bind_ok (perform_get s), perform_ofResult]

theorem changes_askLedger {id : LedgerId} (h : s.holds (.ledger id)) (method : LedgerMethod)
    (args : List Value) : s.Changes ((askLedger id method args).perform s).2 := by
  rw [askLedger.eq_def]
  split
  case h_1 => exact changes_enterGiven h (by simp [enterings]) _ _
  case h_2 => exact changes_enterGiven h (by simp [enterings]) _ _
  case h_3 => exact changes_enterGiven h (by simp [enterings]) _ _
  case h_4 => exact changes_enterGiven h (by simp [enterings]) _ _
  case h_8 => exact .refl
  all_goals exact changes_ask _

/-- Several things are done by a call that declares prefixes one by one. -/
theorem changes_declaring {id : QueryId} (h : s.holds (.query id)) {method : QueryMethod}
    (args : List Value) (hmethod : method = .bindPrefixes ∨ method = .newSubquery) :
    s.Changes ((askQuery id method args).perform s).2 := by
  rcases hmethod with rfl | rfl
  · rw [askQuery.eq_def]
    split
    case h_2 => exact changes_bind (changes_bindPrefixes h _) fun _ _ _ ↦ .refl
    case h_21 => exact .refl
    all_goals contradiction
  · rw [askQuery.eq_def]
    split
    case h_10 =>
        refine changes_bind ?_ fun _ _ _ ↦ .refl
        rw [newSubquery, perform_bind_ok (perform_get s)]
        exact changes_newQuery _
    case h_21 => exact .refl
    all_goals contradiction

end Action

namespace Session

theorem changes_call {s : Session} (h : s.Placed) (c : Call) : s.Changes (s.call c).2 := by
  by_cases hc : c.isSingle
  · exact (h.outcome_call hc).changes
  rw [call]
  split
  · rename_i hheld
    cases c with
    | newQuery prefixes => exact changes_bind (changes_newQuery prefixes) fun _ _ _ ↦ .refl
    | ledger id method args =>
        rw [Call.objects, List.all_cons, Bool.and_eq_true] at hheld
        exact changes_askLedger hheld.1 method args
    | query id method args =>
        rw [Call.objects, List.all_cons, Bool.and_eq_true] at hheld
        apply changes_declaring hheld.1 args
        cases method <;> simp_all [Call.isSingle]
    | _ => exact absurd rfl hc
  · exact .refl

theorem changes_run {s : Session} (h : s.Placed) (calls : List Call) :
    s.Changes (s.run calls) := by
  induction calls generalizing s with
  | nil => exact .refl
  | cons c calls ih =>
      have hone := changes_call h c
      exact hone.trans (ih (h.changes hone))

theorem Reachable.changes {s : Session} (h : s.Reachable) : empty.Changes s := by
  obtain ⟨calls, rfl⟩ := h
  exact changes_run placed_empty calls

theorem Reachable.placed {s : Session} (h : s.Reachable) : s.Placed :=
  placed_empty.changes h.changes

/-- What holds at first and is preserved by every change holds of all reachable sessions. -/
theorem Reachable.invariant {P : Session → Prop} (h₀ : P empty)
    (hstep : ∀ s s' : Session, s.Placed → P s → s.Change s' → P s') {s : Session}
    (h : s.Reachable) : P s := by
  have hboth : ∀ s', empty.Changes s' → s'.Placed ∧ P s' := by
    intro s' hs'
    induction hs' with
    | refl => exact ⟨placed_empty, h₀⟩
    | tail _ hchange ih => exact ⟨ih.1.change hchange, hstep _ _ ih.1 ih.2 hchange⟩
  exact (hboth s h.changes).2

theorem Reachable.forall_graphAt {P : Graph → Prop} (hnew : ∀ ledger, P { ledger })
    (hbuild : ∀ (s : Session) site f g, (∀ site, P (s.graphAt site)) → Building s site f g →
      P (g (s.graphAt site))) {s : Session} (h : s.Reachable) (site : Site) :
    P (s.graphAt site) := by
  have hall : ∀ site, P (s.graphAt site) := by
    refine h.invariant (P := fun s ↦ ∀ site, P (s.graphAt site)) (fun site ↦ ?_) ?_
    · rw [graphAt_empty]
      exact hnew 0
    · exact fun s₁ s₂ _ hall hchange ↦
        hchange.forall_graphAt hnew (fun site f g hfg ↦ hbuild s₁ site f g hall hfg) hall
  exact hall site

/-! ## What is kept by calls that do several things -/

section Keeping

variable {s : Session}

theorem session_enterEach (id : LedgerId) (enter : Ledger → List Entry → Ledger)
    (vs : List Value) : ∃ f, ((enterEach id enter vs).perform s).2 = s.modifyLedger id f := by
  induction vs generalizing s with
  | nil => exact ⟨_, (modifyLedger_keep s id).symm⟩
  | cons v vs ih =>
      rw [enterEach]
      cases Entry.ofValue? v with
      | none => exact ⟨_, (modifyLedger_keep s id).symm⟩
      | some e =>
          obtain ⟨f, hf⟩ := ih (s := s.modifyLedger id (enter · [e]))
          refine ⟨f ∘ (enter · [e]), hf.trans ?_⟩
          rw [modifyLedger, modifyLedger, modifyLedger, List.modify_modify_eq]

theorem session_enterGiven (id : LedgerId) (captured : Text → List Entry)
    (enter : Ledger → List Entry → Ledger) (v : Value) :
    ∃ f, ((enterGiven id captured enter v).perform s).2 = s.modifyLedger id f := by
  rw [enterGiven]
  split
  · exact ⟨_, rfl⟩
  · rw [session_bind_pure]
    exact session_enterEach id enter _
  · exact ⟨_, (modifyLedger_keep s id).symm⟩

theorem session_askLedger (id : LedgerId) (m : LedgerMethod) (args : List Value) :
    ∃ f, ((askLedger id m args).perform s).2 = s.modifyLedger id f := by
  rw [askLedger.eq_def]
  split
  case h_1 => exact session_enterGiven id _ _ _
  case h_2 => exact session_enterGiven id _ _ _
  case h_3 => exact session_enterGiven id _ _ _
  case h_4 => exact session_enterGiven id _ _ _
  all_goals exact ⟨_, (modifyLedger_keep s id).symm⟩

theorem keeps_making {P : Session → Prop} (h : P s) (hquery : P s.withQuery)
    (hbind : ∀ (s : Session) id name iri f g, s.holds (.query id) →
      s.Sets id .bindPrefix [name, iri] f g → P s → P (s.settled id f g))
    {vs : List Value} {r : Except Error Answer × Session}
    (hr : Atomic s (fun s' ↦ s' = ((bindEach s.queries.length vs).perform s.withQuery).2) r) :
    P r.2 := by
  cases hr with
  | refused _ => exact h
  | done _ hs' =>
      rw [hs']
      exact bindEach_keeps (fun s' ↦ hbind s' s.queries.length) holds_withQuery_new vs hquery

/-- What is kept by every declaration is kept by the declaration of several prefixes. -/
theorem keeps_bindPrefixes {P : Session → Prop} {id : QueryId} {args : List Value} (h : P s)
    (hbind : ∀ (s : Session) name iri f g, s.holds (.query id) →
      s.Sets id .bindPrefix [name, iri] f g → P s → P (s.settled id f g)) :
    P (s.call (.query id .bindPrefixes args)).2 := by
  rw [call]
  split
  · rename_i hheld
    rw [Call.objects, List.all_cons, Bool.and_eq_true] at hheld
    cases args with
    | nil => exact h
    | cons v rest =>
        cases rest with
        | cons _ _ => exact h
        | nil =>
            change P ((done (bindPrefixes id v)).perform s).2
            rw [done, session_bind_pure, session_bindPrefixes]
            exact bindEach_keeps hbind hheld.1 v.given h
  · exact h

/-- What is kept by entering into a ledger, by the making of a query and by every declaration is kept
by the calls that do several of these. -/
theorem keeps_call {c : Call} (hc : ¬ c.isSingle) {P : Session → Prop} (h : P s)
    (hledger : ∀ id f, P (s.modifyLedger id f)) (hquery : P s.withQuery)
    (hbind : ∀ (s : Session) id name iri f g, s.holds (.query id) →
      s.Sets id .bindPrefix [name, iri] f g → P s → P (s.settled id f g)) : P (s.call c).2 := by
  cases c with
  | newQuery v => exact keeps_making h hquery hbind (atomic_call_newQuery v)
  | ledger id m args =>
      rw [call]
      split
      · obtain ⟨f, hf⟩ := session_askLedger (s := s) id m args
        change P ((askLedger id m args).perform s).2
        rw [hf]
        exact hledger id f
      · exact h
  | query id m args =>
      cases m with
      | newSubquery => exact keeps_making h hquery hbind (atomic_call_newSubquery id args)
      | bindPrefixes => exact keeps_bindPrefixes h fun s ↦ hbind s id
      | _ => exact absurd rfl hc
  | _ => exact absurd rfl hc

end Keeping

end Session

end SparqlComposer
