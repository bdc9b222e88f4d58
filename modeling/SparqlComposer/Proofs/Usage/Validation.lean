import SparqlComposer.Proofs.Session.Render
import SparqlComposer.Proofs.Usage.History

/-!
# Validation is exact

After any calls, the ledger of a query has been told their history and nothing else. So a query
without attached queries is refused exactly when its history leaves a prefix or a variable
undefined, and the refusal names all that are missing in the order of their first use.
-/

namespace SparqlComposer

open SparqlComposer.Action

namespace Session

variable {s s' : Session} {q : QueryId}

/-! ## Several declarations -/

theorem isOn_query_iff (h : s.Placed) {id : QueryId} (hid : s.holds (.query id)) :
    s.isOn q (.query id) ↔ q = id := by
  rw [isOn, Bool.and_eq_true, decide_eq_true_eq, beq_iff_eq]
  constructor
  · rintro ⟨hq, heq⟩
    exact (h.ledger_inj id q (holds_query_iff.mp hid) hq heq).symm
  · rintro rfl
    exact ⟨holds_query_iff.mp hid, rfl⟩

theorem ledgerOf_bindEach (h : s.Placed) {id : QueryId} (hid : s.holds (.query id))
    (vs : List Value) : ((bindEach id vs).perform s).2.ledgerOf q =
      if q = id then (s.ledgerOf q).tellAll ((s.boundNames id vs).map .declaration)
      else s.ledgerOf q := by
  induction vs generalizing s with
  | nil => exact (ite_self _).symm
  | cons v vs ih =>
      rw [bindEach, boundNames]
      cases declaration v with
      | error e =>
          rw [perform_bind_error (perform_ofResult _ s)]
          exact (ite_self _).symm
      | ok pair =>
          obtain ⟨name, iri⟩ := pair
          rw [perform_bind_ok (perform_ofResult _ s)]
          dsimp only
          have hatomic := atomic_bindPrefix hid name iri
          cases hr : (bindPrefix id name iri).perform s with
          | mk r s₁ =>
              rw [hr] at hatomic
              cases hatomic with
              | refused e =>
                  rw [perform_bind_error hr]
                  exact (ite_self _).symm
              | done _ hsets =>
                  obtain ⟨f, g, hsets, rfl⟩ := hsets
                  have hplaced := h.change (.setting hid hsets.setting)
                  have hheld : (s.settled id f g).holds (.query id) := by
                    rwa [holds_query_iff, length_settled.2.2, ← holds_query_iff]
                  rw [perform_bind_ok hr, ih hplaced hheld, ledgerOf_settled h hid hsets.setting]
                  by_cases hq : q = id
                  · rw [if_pos hq, if_pos hq, if_pos ((isOn_query_iff h hid).mpr hq),
                      hsets.ledger_eq, ← Ledger.tellAll_append]
                    rfl
                  · rw [if_neg hq, if_neg hq, if_neg (mt (isOn_query_iff h hid).mp hq)]

/-! ## New queries -/

/-- The ledger of a new query is told of the names that are bound at first. -/
theorem ledgerOf_making (h : s.Placed) {c : Call} {vs : List Value}
    (hatomic : Atomic s
      (fun s' ↦ s' = ((bindEach s.queries.length vs).perform s.withQuery).2) (s.call c))
    (htold : s.told q c = if q = s.queries.length ∧ (s.call c).1.isOk then
      (s.withQuery.boundNames s.queries.length vs).map .declaration else []) :
    (s.call c).2.ledgerOf q = (s.ledgerOf q).tellAll (s.told q c) := by
  cases hr : s.call c with
  | mk r s' =>
      rw [htold, hr]
      rw [hr] at hatomic
      cases hatomic with
      | refused e =>
          rw [if_neg fun hmade ↦ nomatch hmade.2]
          rfl
      | done x hs' =>
          rw [hs', ledgerOf_bindEach h.withQuery holds_withQuery_new, ledgerOf_withQuery]
          by_cases hq : q = s.queries.length
          · rw [if_pos hq, if_pos ⟨hq, rfl⟩]
          · rw [if_neg hq, if_neg fun hmade ↦ hq hmade.1]
            rfl

theorem ledgerOf_newQuery (h : s.Placed) (v : Value) :
    (s.call (.newQuery v)).2.ledgerOf q = (s.ledgerOf q).tellAll (s.told q (.newQuery v)) := by
  apply ledgerOf_making h (atomic_call_newQuery v)
  by_cases hq : q = s.queries.length <;> simp [told, hq, Call.site?, firstMentions]

theorem ledgerOf_newSubquery (h : s.Placed) (id : QueryId) (args : List Value) :
    (s.call (.query id .newSubquery args)).2.ledgerOf q =
      (s.ledgerOf q).tellAll (s.told q (.query id .newSubquery args)) := by
  have hnone : s.mentions (.query id .newSubquery args) = [] := ite_self _
  apply ledgerOf_making h (atomic_call_newSubquery id args)
  rw [told, hnone, ite_self]
  by_cases hq : q = s.queries.length <;> simp [hq, firstMentions]

theorem ledgerOf_bindPrefixes (h : s.Placed) (id : QueryId) (args : List Value) :
    (s.call (.query id .bindPrefixes args)).2.ledgerOf q =
      (s.ledgerOf q).tellAll (s.told q (.query id .bindPrefixes args)) := by
  rw [told_eq rfl, Call.site?, Option.any_some]
  have hrefused (hcall : (s.call (.query id .bindPrefixes args)).2 = s)
      (hnone : s.mentions (.query id .bindPrefixes args) = []) :
      (s.call (.query id .bindPrefixes args)).2.ledgerOf q = (s.ledgerOf q).tellAll
        (if s.isOn q (.query id) then s.mentions (.query id .bindPrefixes args) else []) := by
    rw [hcall, hnone, ite_self]
    rfl
  match args with
  | [] => exact hrefused (by rw [call]; split <;> rfl) (ite_self _)
  | _ :: _ :: _ => exact hrefused (by rw [call]; split <;> rfl) (ite_self _)
  | [v] =>
      by_cases hheld : (Call.query id .bindPrefixes [v]).objects.all s.holds
      · have hid : s.holds (.query id) := by
          rw [Call.objects, List.all_cons, Bool.and_eq_true] at hheld
          exact hheld.1
        rw [call, if_pos hheld]
        change ((done (bindPrefixes id v)).perform s).2.ledgerOf q = _
        rw [done, session_bind_pure, session_bindPrefixes, ledgerOf_bindEach h hid, mentions,
          if_pos hheld]
        by_cases hq : q = id
        · rw [if_pos hq, if_pos ((isOn_query_iff h hid).mpr hq)]
        · rw [if_neg hq, if_neg (mt (isOn_query_iff h hid).mp hq)]
          rfl
      · exact hrefused (by rw [call, if_neg hheld]) (if_neg hheld)

/-! ## Ledgers that belong to no query -/

/-- The ledger of a query is entered into by nobody else. -/
theorem ledgerOf_ledger (id : LedgerId) (m : LedgerMethod) (args : List Value) :
    (s.call (.ledger id m args)).2.ledgerOf q =
      (s.ledgerOf q).tellAll (s.told q (.ledger id m args)) := by
  rw [told_eq rfl]
  change _ = s.ledgerOf q
  rw [call]
  split
  · rename_i hheld
    rw [Call.objects, List.all_cons, Bool.and_eq_true] at hheld
    change ((askLedger id m args).perform s).2.ledgerOf q = _
    obtain ⟨f, hf⟩ := session_askLedger (s := s) id m args
    rw [hf]
    exact ledgerOf_congr rfl rfl fun hq ↦
      ledger_modifyLedger_of_ne s f (ledger_ne_of_holds hheld.1 hq)
  · rfl

/-! ## All calls -/

theorem ledgerOf_call (h : s.Placed) (hnamed : s.Named) (c : Call) :
    (s.call c).2.ledgerOf q = (s.ledgerOf q).tellAll (s.told q c) := by
  by_cases hc : c.isSingle
  · by_cases hok : (s.call c).1.isOk
    · exact ((atomic_call hc).of_isOk hok).ledgerOf_eq h hnamed hc hok
    · rw [(atomic_call hc).session_eq_of_not_isOk hok, told_of_isSingle hc,
        mentions_of_error hc hok, ite_self]
      rfl
  · cases c with
    | newQuery v => exact ledgerOf_newQuery h v
    | ledger id m args => exact ledgerOf_ledger id m args
    | query id m args =>
        cases m with
        | newSubquery => exact ledgerOf_newSubquery h id args
        | bindPrefixes => exact ledgerOf_bindPrefixes h id args
        | _ => exact absurd rfl hc
    | _ => exact absurd rfl hc

/-! ## Runs -/

theorem run_append (calls calls' : List Call) :
    s.run (calls ++ calls') = (s.run calls).run calls' :=
  List.foldl_append

theorem Reachable.run (h : s.Reachable) (cs : List Call) : (s.run cs).Reachable := by
  obtain ⟨calls, rfl⟩ := h
  exact ⟨calls ++ cs, (run_append calls cs).symm⟩

theorem named_of_told (h : ∀ q, ∃ ms, s.ledgerOf q = Ledger.tellAll {} ms) : s.Named := by
  intro q
  obtain ⟨ms, hms⟩ := h q
  exact ⟨_, hms ▸ Ledger.toList_definedVariables_tellAll ms⟩

/-- The ledger of a query has been told the history of the query, and nothing else. -/
theorem ledgerOf_run (calls : List Call) (q : QueryId) :
    (empty.run calls).ledgerOf q = Ledger.tellAll {} (empty.history q calls) := by
  induction calls using List.reverseRecOn generalizing q with
  | nil => rfl
  | append_singleton calls c ih =>
      have hplaced : (empty.run calls).Placed := Reachable.placed ⟨calls, rfl⟩
      have hnamed : (empty.run calls).Named := named_of_told fun q ↦ ⟨_, ih q⟩
      have hone : (empty.run calls).history q [c] = (empty.run calls).told q c :=
        List.append_nil _
      rw [run_append, history_append, hone, Ledger.tellAll_append, ← ih]
      exact ledgerOf_call hplaced hnamed c

theorem named_run (calls : List Call) : (empty.run calls).Named :=
  named_of_told fun q ↦ ⟨_, ledgerOf_run calls q⟩

theorem Reachable.named (h : s.Reachable) : s.Named := by
  obtain ⟨calls, rfl⟩ := h
  exact named_run calls

/-- A query without attached queries is written if it is valid, and refused as its ledger is. -/
theorem call_render_of_no_subqueries (hq : s.holds (.query q)) (hvalidates : s.validates)
    (hroot : (s.query q).graph.subqueries = []) :
    ∃ t, (s.call (.query q .render [])).1 = (s.ledgerOf q).validate.map fun _ ↦ .text t := by
  obtain ⟨depth, hdepth⟩ : ∃ depth, s.queries.length = depth + 1 :=
    Nat.exists_eq_add_one.mpr (Nat.zero_lt_of_lt (holds_query_iff.mp hq))
  rw [call_render hq, queryText, subquery, hdepth, subqueryWithin, hroot, check, if_pos hvalidates,
    ledgerOf_of_holds hq]
  cases (s.queryLedger q).validate with
  | error e => exact ⟨[], rfl⟩
  | ok _ => exact ⟨_, rfl⟩

/-- After any calls, a query without attached queries is validated as its history says: it is refused
for the prefixes that are missing, if there are any, or else for the variables that are missing, and
written when nothing is missing. -/
theorem render_run (calls : List Call) (q : QueryId) (hq : (empty.run calls).holds (.query q))
    (hvalidates : (empty.run calls).validates)
    (hroot : ((empty.run calls).query q).graph.subqueries = []) :
    let prefixes := Mention.missingPrefixes (empty.history q calls)
    let names := Mention.missingVariables (empty.history q calls)
    let answer := ((empty.run calls).call (.query q .render [])).1
    (prefixes ≠ [] → answer = .error (.undefinedPrefixes prefixes)) ∧
      (prefixes = [] → names ≠ [] → answer = .error (.undefinedVariables names)) ∧
      (prefixes = [] → names = [] → ∃ t, answer = .ok (.text t)) := by
  obtain ⟨t, ht⟩ := call_render_of_no_subqueries hq hvalidates hroot
  rw [ledgerOf_run, Ledger.validate_tellAll] at ht
  dsimp only
  generalize Mention.missingPrefixes (empty.history q calls) = prefixes at ht ⊢
  generalize Mention.missingVariables (empty.history q calls) = names at ht ⊢
  refine ⟨fun hprefixes ↦ ?_, fun hprefixes hnames ↦ ?_, fun hprefixes hnames ↦ ?_⟩
  · obtain ⟨n, ns, rfl⟩ := List.exists_cons_of_ne_nil hprefixes
    exact ht
  · obtain ⟨n, ns, rfl⟩ := List.exists_cons_of_ne_nil hnames
    subst hprefixes
    exact ht
  · subst hprefixes hnames
    exact ⟨t, ht⟩

/-- A variable is selected before a triple defines it, another one never comes up. The prefix is bound
after its use, and what a failing call mentions is not asked for. -/
theorem selected_undefined : ∃ calls, (empty.run calls).holds (.query 0) ∧
    ((empty.run calls).call (.query 0 .render [])).1 =
      .error (.undefinedVariables ["x".toList]) := by
  let calls : List Call := [.newQuery .null,
    .query 0 (.select none) [.text "?x".toList, .text "?a".toList],
    .query 0 .newSubgraph [],
    .pattern (.graph 0) .addTriple [.text "?a".toList, .text "ex:p".toList, .text "?b".toList],
    .query 0 (.select none) [.text "?y".toList],
    .query 0 .bindPrefix [.text "ex".toList, .text "http://e/".toList]]
  have hq : (empty.run calls).holds (.query 0) := by decide +kernel
  have hvalidates : (empty.run calls).validates := by decide +kernel
  have hroot : ((empty.run calls).query 0).graph.subqueries = [] := by decide +kernel
  have hprefixes : Mention.missingPrefixes (empty.history 0 calls) = [] := by decide +kernel
  have hvariables : Mention.missingVariables (empty.history 0 calls) = ["x".toList] := by
    decide +kernel
  obtain ⟨-, hrefused, -⟩ := render_run calls 0 hq hvalidates hroot
  refine ⟨calls, hq, ?_⟩
  rw [hrefused hprefixes (by rw [hvariables]; exact List.cons_ne_nil _ _), hvariables]

end Session

end SparqlComposer
