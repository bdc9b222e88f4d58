import SparqlComposer.Proofs.Session.Agreement
import SparqlComposer.Proofs.Usage.Validation

/-!
# Validation of nested queries

A query is written after all queries in it have been validated, itself first, and then one attached
query after the other with all that is in it. So what validation adds to the writing of a query is
a walk through the ledgers in this order, which ends at the first ledger that refuses.
-/

namespace SparqlComposer

/-- What a ledger is refused for: the prefixes that are missing, or else the variables. -/
inductive Ledger.Refuses (l : Ledger) : Error → Prop where
  | missingPrefixes {names : List Text} (hne : names ≠ [])
      (h : l.missingPrefixes = names.map Entry.ofName) : Refuses l (.undefinedPrefixes names)
  | missingVariables {names : List Text} (hne : names ≠ []) (hprefixes : l.missingPrefixes = [])
      (h : l.missingVariables = names.map Entry.ofName) : Refuses l (.undefinedVariables names)

theorem Entry.ofName_injective : Function.Injective Entry.ofName := fun _ _ h ↦
  Option.some.inj (congrArg Entry.name? h)

/-- Where all that is missing are names, a ledger is refused for them. -/
theorem Ledger.validate_eq_error_iff {l : Ledger} {ps vs : List Text}
    (hprefixes : l.missingPrefixes = ps.map Entry.ofName)
    (hvariables : l.missingVariables = vs.map Entry.ofName) {e : Error} :
    l.validate = .error e ↔ l.Refuses e := by
  rw [validate_of_names hprefixes hvariables]
  constructor
  · intro h
    cases ps with
    | cons p ps =>
        obtain rfl := Except.error.inj h
        exact .missingPrefixes (List.cons_ne_nil p ps) hprefixes
    | nil =>
        cases vs with
        | nil => exact nomatch h
        | cons v vs =>
            obtain rfl := Except.error.inj h
            exact .missingVariables (List.cons_ne_nil v vs) hprefixes hvariables
  · intro h
    cases h with
    | missingPrefixes hne h =>
        obtain rfl := Entry.ofName_injective.list_map (hprefixes.symm.trans h)
        obtain ⟨p, ps, rfl⟩ := List.exists_cons_of_ne_nil hne
        rfl
    | missingVariables hne hnil h =>
        obtain rfl := Entry.ofName_injective.list_map (hvariables.symm.trans h)
        obtain ⟨v, vs, rfl⟩ := List.exists_cons_of_ne_nil hne
        rw [hprefixes, List.map_eq_nil_iff] at hnil
        rw [hnil]
        rfl

namespace Session

open Relation

def withValidation (s : Session) (validates : Bool) : Session := { s with validates }

/-- What comes of rendering a query, with validation or without. -/
def rendering (s : Session) (validates : Bool) (q : QueryId) : Except Error Answer :=
  ((s.withValidation validates).call (.query q .render [])).1

/-- A query and those in it down to a depth, each before those in it; a query that is in several
places comes up in each of them. -/
def preorderWithin (s : Session) : (depth : Nat) → QueryId → List QueryId
  | 0, _ => []
  | depth + 1, q => q :: (s.query q).graph.subqueries.flatMap (s.preorderWithin depth)

def preorder (s : Session) (q : QueryId) : List QueryId := s.preorderWithin s.queries.length q

variable {s : Session} {q : QueryId}

/-! ## The order of validation -/

theorem Placed.holds_of_transGen (h : s.Placed) {t : QueryId} (hpath : TransGen s.Attached t q) :
    s.holds (.query t) := by
  obtain ⟨outer, houter, -⟩ := TransGen.head'_iff.mp hpath
  exact holds_query_iff.mpr (h.subquery_lt (.query outer) t houter)

theorem DepthBelow.preorderWithin_succ {depth : Nat} (h : s.DepthBelow depth q) :
    s.preorderWithin (depth + 1) q = s.preorderWithin depth q := by
  induction depth generalizing q with
  | zero => exact h.elim
  | succ depth ih =>
      have hinner : (s.query q).graph.subqueries.flatMap (s.preorderWithin (depth + 1)) =
          (s.query q).graph.subqueries.flatMap (s.preorderWithin depth) :=
        List.flatMap_congr fun inner hmem ↦ ih (h inner hmem)
      rw [preorderWithin, hinner, preorderWithin]

theorem Acyclic.preorder_eq (hacyclic : s.Acyclic) (hplaced : s.Placed)
    (hq : q < s.queries.length) :
    s.preorder q = q :: (s.query q).graph.subqueries.flatMap s.preorder := by
  rw [preorder, ← (hacyclic.depthBelow hplaced hq).preorderWithin_succ, preorderWithin]
  rfl

theorem DepthBelow.mem_preorderWithin {depth : Nat} (h : s.DepthBelow depth q) {t : QueryId} :
    t ∈ s.preorderWithin depth q ↔ t = q ∨ TransGen s.Attached t q := by
  induction depth generalizing q with
  | zero => exact h.elim
  | succ depth ih =>
      rw [preorderWithin, List.mem_cons, List.mem_flatMap, TransGen.tail'_iff]
      apply or_congr_right
      apply exists_congr
      intro inner
      rw [and_comm, reflTransGen_iff_eq_or_transGen]
      apply and_congr_left
      intro hinner
      rw [ih (h inner hinner), eq_comm]

/-! ## Writing with and without validation -/

theorem subqueryWithin_validating {depth : Nat} :
    (s.withValidation true).subqueryWithin (depth + 1) q = (do
      (s.queryLedger q).validate
      let inner ← (s.query q).graph.subqueries.mapM ((s.withValidation true).subqueryWithin depth)
      return (s.query q).subquery ((s.query q).graph.pattern inner)) := rfl

theorem subqueryWithin_trusting {depth : Nat} :
    (s.withValidation false).subqueryWithin (depth + 1) q = (do
      let inner ← (s.query q).graph.subqueries.mapM ((s.withValidation false).subqueryWithin depth)
      return (s.query q).subquery ((s.query q).graph.pattern inner)) := rfl

/-- Without validation every query is written. -/
theorem DepthBelow.exists_subqueryWithin {depth : Nat} (h : s.DepthBelow depth q) :
    ∃ r, (s.withValidation false).subqueryWithin depth q = .ok r := by
  induction depth generalizing q with
  | zero => exact h.elim
  | succ depth ih =>
      obtain ⟨inner, hinner⟩ :=
        Except.exists_mapM_eq_ok fun inner hmem ↦ ih (h inner hmem)
      rw [subqueryWithin_trusting, hinner]
      exact ⟨_, rfl⟩

/-- What validation does, it may as well do for all queries before the first one is written. -/
theorem DepthBelow.subqueryWithin_eq {depth : Nat} (h : s.DepthBelow depth q) :
    (s.withValidation true).subqueryWithin depth q = (do
      (s.preorderWithin depth q).forM fun t ↦ (s.queryLedger t).validate
      (s.withValidation false).subqueryWithin depth q) := by
  induction depth generalizing q with
  | zero => exact h.elim
  | succ depth ih =>
      have hinner : (s.query q).graph.subqueries.mapM
          ((s.withValidation true).subqueryWithin depth) = (do
            ((s.query q).graph.subqueries.flatMap (s.preorderWithin depth)).forM fun t ↦
              (s.queryLedger t).validate
            (s.query q).graph.subqueries.mapM ((s.withValidation false).subqueryWithin depth)) := by
        rw [Except.mapM_congr fun inner hmem ↦ ih (h inner hmem)]
        exact Except.mapM_after fun inner hmem ↦ (h inner hmem).exists_subqueryWithin
      rw [subqueryWithin_validating, hinner, subqueryWithin_trusting, preorderWithin,
        Except.forM_cons, bind_assoc]
      simp only [bind_assoc]

/-! ## What a ledger is refused for -/

/-- All that is missing in the ledger of a query are names. -/
theorem Reachable.exists_missing (h : s.Reachable) (hq : s.holds (.query q)) :
    ∃ ps vs : List Text, (s.queryLedger q).missingPrefixes = ps.map Entry.ofName ∧
      (s.queryLedger q).missingVariables = vs.map Entry.ofName := by
  obtain ⟨calls, rfl⟩ := h
  rw [← ledgerOf_of_holds hq, ledgerOf_run]
  exact ⟨_, _, Ledger.missingPrefixes_tellAll _, Ledger.missingVariables_tellAll _⟩

theorem Reachable.refuses_iff (h : s.Reachable) (hq : s.holds (.query q)) {e : Error} :
    (s.queryLedger q).validate = .error e ↔ (s.queryLedger q).Refuses e := by
  obtain ⟨ps, vs, hprefixes, hvariables⟩ := h.exists_missing hq
  exact Ledger.validate_eq_error_iff hprefixes hvariables

/-! ## Rendering -/

section Render

variable (h : s.Reachable) (hq : s.holds (.query q))

include h hq

theorem Reachable.depthBelow : s.DepthBelow s.queries.length q :=
  h.acyclic.depthBelow h.placed (holds_query_iff.mp hq)

theorem Reachable.holds_of_mem_preorder {t : QueryId} (ht : t ∈ s.preorder q) :
    s.holds (.query t) := by
  rcases (h.depthBelow hq).mem_preorderWithin.mp ht with rfl | ht
  · exact hq
  · exact h.placed.holds_of_transGen ht

/-- A query is rendered without validation, and with validation once all ledgers have passed. -/
theorem Reachable.rendering_eq : ∃ t, s.rendering false q = .ok (.text t) ∧
    s.rendering true q = (do
      (s.preorder q).forM fun q' ↦ (s.queryLedger q').validate
      return .text t) := by
  have hdepth := h.depthBelow hq
  obtain ⟨r, hr⟩ := hdepth.exists_subqueryWithin
  refine ⟨spaced ((s.query q).declarations ++ r.texts), ?_, ?_⟩
  · rw [rendering, call_render (s := s.withValidation false) hq, queryText]
    change Except.map _ ((s.withValidation false).subqueryWithin s.queries.length q >>= _) = _
    rw [hr]
    rfl
  · rw [rendering, call_render (s := s.withValidation true) hq, queryText]
    change Except.map _ ((s.withValidation true).subqueryWithin s.queries.length q >>= _) = _
    rw [hdepth.subqueryWithin_eq, hr, preorder]
    cases (s.preorderWithin s.queries.length q).forM fun t ↦ (s.queryLedger t).validate <;> rfl

end Render

/-- A query is rendered exactly when nothing is missing in its own ledger and in those of all
queries in it, at whatever depth. Otherwise it is refused as the first of them is, each query coming
before those in it and these in the order in which they were attached. Without validation it is
always rendered, and to the same text. -/
theorem Reachable.render_nested (h : s.Reachable) (hq : s.holds (.query q)) :
    (∀ t, t ∈ s.preorder q ↔ t = q ∨ TransGen s.Attached t q) ∧
      s.preorder q = q :: (s.query q).graph.subqueries.flatMap s.preorder ∧
      ((∃ t, s.rendering true q = .ok (.text t)) ↔ ∀ t, t = q ∨ TransGen s.Attached t q →
        (s.queryLedger t).missingPrefixes = [] ∧ (s.queryLedger t).missingVariables = []) ∧
      (∀ e, s.rendering true q = .error e ↔
        ∃ before t after, s.preorder q = before ++ t :: after ∧
          (∀ b ∈ before, (s.queryLedger b).validate = .ok ()) ∧ (s.queryLedger t).Refuses e) ∧
      ∃ t, s.rendering false q = .ok (.text t) ∧
        ∀ answer, s.rendering true q = .ok answer → answer = .text t := by
  obtain ⟨t, htrusted, hvalidated⟩ := h.rendering_eq hq
  have hmem (t : QueryId) : t ∈ s.preorder q ↔ t = q ∨ TransGen s.Attached t q :=
    (h.depthBelow hq).mem_preorderWithin
  rw [hvalidated]
  refine ⟨hmem, h.acyclic.preorder_eq h.placed (holds_query_iff.mp hq), ?_, fun e ↦ ?_, t,
    htrusted, fun answer hanswer ↦ ?_⟩
  · simp only [← hmem, ← Ledger.validate_eq_ok_iff, ← Except.forM_eq_ok_iff]
    constructor
    · rintro ⟨t', ht'⟩
      obtain ⟨_, hall, -⟩ := Except.bind_eq_ok_iff.mp ht'
      exact hall
    · intro hall
      exact ⟨t, Except.bind_eq_ok_iff.mpr ⟨(), hall, rfl⟩⟩
  · rw [Except.bind_eq_error_iff, Except.forM_eq_error_iff]
    simp only [Except.pure_ne_error, and_false, exists_false, or_false]
    constructor
    · rintro ⟨before, t', after, hsplit, hbefore, he⟩
      have ht' : s.holds (.query t') := h.holds_of_mem_preorder hq (by simp [hsplit])
      exact ⟨before, t', after, hsplit, hbefore, (h.refuses_iff ht').mp he⟩
    · rintro ⟨before, t', after, hsplit, hbefore, he⟩
      have ht' : s.holds (.query t') := h.holds_of_mem_preorder hq (by simp [hsplit])
      exact ⟨before, t', after, hsplit, hbefore, (h.refuses_iff ht').mpr he⟩
  · obtain ⟨_, -, hpure⟩ := Except.bind_eq_ok_iff.mp hanswer
    exact (Except.pure_eq_ok_iff.mp hpure).symm

/-- A query selects a variable that it does not define. It is in two others, which pass because they
count the variable as defined, and one of these is in the other one as well. -/
theorem nested_undefined : ∃ s : Session, s.Reachable ∧ s.preorder 0 = [0, 1, 2, 2] ∧
    s.rendering true 0 = .error (.undefinedVariables ["x".toList]) ∧
    ∃ t, s.rendering false 0 = .ok (.text t) := by
  let calls : List Call := [.newQuery .null, .newQuery .null, .newQuery .null,
    .query 2 (.select none) [.text "?x".toList], .query 1 .subquery [.object (.query 2)],
    .query 0 .subquery [.object (.query 1)], .query 0 .subquery [.object (.query 2)],
    .query 0 (.select none) [.text "?x".toList]]
  let s := empty.run calls
  have hs : s.Reachable := ⟨calls, rfl⟩
  have hheld : s.holds (.query 0) := by decide +kernel
  have hheld' : s.holds (.query 2) := by decide +kernel
  have hpreorder : s.preorder 0 = [0, 1] ++ 2 :: [2] := by decide +kernel
  have houter : ∀ b ∈ [0, 1], (s.queryLedger b).validate = .ok () := by
    simp only [Ledger.validate_eq_ok_iff]
    decide +kernel
  have hvariables : Mention.missingVariables (empty.history 2 calls) = ["x".toList] := by
    decide +kernel
  have hinner : (s.queryLedger 2).Refuses (.undefinedVariables ["x".toList]) := by
    refine .missingVariables (List.cons_ne_nil _ _) (by decide +kernel) ?_
    rw [← ledgerOf_of_holds hheld', ledgerOf_run, Ledger.missingVariables_tellAll, hvariables]
  obtain ⟨-, -, -, herror, t, htrusted, -⟩ := Reachable.render_nested hs hheld
  exact ⟨s, hs, hpreorder, (herror _).mpr ⟨_, _, _, hpreorder, houter, hinner⟩, t, htrusted⟩

/-! ## The same query in two sessions -/

/-- Validates the queries in a query, those in each after itself. -/
def validateInner (s : Session) (q : QueryId) : Except Error Unit :=
  ((s.query q).graph.subqueries.flatMap s.preorder).forM fun t ↦ (s.queryLedger t).validate

theorem Reachable.mem_inner_iff (h : s.Reachable) {t : QueryId} :
    t ∈ (s.query q).graph.subqueries.flatMap s.preorder ↔ TransGen s.Attached t q := by
  rw [List.mem_flatMap, TransGen.tail'_iff]
  apply exists_congr
  intro inner
  rw [and_comm, reflTransGen_iff_eq_or_transGen]
  apply and_congr_left
  intro hinner
  have hheld : s.holds (.query inner) :=
    holds_query_iff.mpr (h.placed.subquery_lt (.query q) inner hinner)
  rw [preorder, (h.depthBelow hheld).mem_preorderWithin, eq_comm]

theorem Reachable.validateInner_eq_ok_iff (h : s.Reachable) :
    s.validateInner q = .ok () ↔
      ∀ t, TransGen s.Attached t q → (s.queryLedger t).validate = .ok () := by
  simp only [validateInner, Except.forM_eq_ok_iff, h.mem_inner_iff]

section Agreement

variable {s' : Session}

theorem preorderWithin_congr (hqueries : ∀ t, s.query t = s'.query t) {depth : Nat} :
    s.preorderWithin depth q = s'.preorderWithin depth q := by
  induction depth generalizing q with
  | zero => rfl
  | succ depth ih => rw [preorderWithin, preorderWithin, hqueries, funext fun t ↦ ih (q := t)]

theorem subqueryWithin_congr (hqueries : ∀ t, s.query t = s'.query t) {depth : Nat} :
    (s.withValidation false).subqueryWithin depth q =
      (s'.withValidation false).subqueryWithin depth q := by
  induction depth generalizing q with
  | zero => rfl
  | succ depth ih =>
      rw [subqueryWithin_trusting, subqueryWithin_trusting, hqueries, funext fun t ↦ ih (q := t)]

end Agreement

end Session

open Session Relation in
/-- Where two sessions differ in nothing but the ledger of a query, the query has the same text in
both, and whether it is refused is decided by its own ledger first, and then alike in both. -/
theorem Agree.render {q : QueryId} {s s' : Session} (h : Agree q (fun _ ↦ True) s s')
    (hs : s.Reachable) (hs' : s'.Reachable) (hq : s.holds (.query q)) :
    ∃ t : Text, s.rendering false q = .ok (.text t) ∧ s'.rendering false q = .ok (.text t) ∧
      s.rendering true q = (do
        (s.queryLedger q).validate
        s.validateInner q
        return .text t) ∧
      s'.rendering true q = (do
        (s'.queryLedger q).validate
        s.validateInner q
        return .text t) := by
  have hq' : s'.holds (.query q) := by rwa [← h.holds_eq]
  have hself : s.query q = s'.query q := Query.ext_get h.ledger_eq fun p ↦ h.get_eq p trivial
  have hqueries (t : QueryId) : s.query t = s'.query t := by
    by_cases ht : t = q
    · rw [ht, hself]
    · exact h.query_eq ht
  have hpreorder : s.preorder = s'.preorder := by
    funext t
    rw [preorder, preorder, preorderWithin_congr hqueries, h.queries_length]
  obtain ⟨t, htrusted, hvalidated⟩ := hs.rendering_eq hq
  obtain ⟨t', htrusted', hvalidated'⟩ := hs'.rendering_eq hq'
  obtain rfl : t = t' := by
    have hdeclarations : (s.withValidation false).query q = (s'.withValidation false).query q :=
      hself
    have hsubquery : (s.withValidation false).subquery q =
        (s'.withValidation false).subquery q := by
      have hlength : (s.withValidation false).queries.length =
          (s'.withValidation false).queries.length := h.queries_length
      rw [subquery, subquery, subqueryWithin_congr hqueries, hlength]
    rw [rendering, call_render (s := s.withValidation false) hq, queryText, hdeclarations,
      hsubquery, ← queryText, ← call_render (s := s'.withValidation false) hq', ← rendering,
      htrusted'] at htrusted
    exact (Answer.text.inj (Except.ok.inj htrusted)).symm
  have hinner : s.validateInner q = s'.validateInner q := by
    rw [validateInner, validateInner, ← hself, ← hpreorder]
    apply Except.forM_congr
    intro u hu
    have hpath := hs.mem_inner_iff.mp hu
    have hne : u ≠ q := by
      rintro rfl
      exact hs.acyclic u hpath
    rw [h.queryLedger_eq hs.placed hq (hs.placed.holds_of_transGen hpath) hne]
  refine ⟨t, htrusted, htrusted', ?_, ?_⟩
  · rw [hvalidated, hs.acyclic.preorder_eq hs.placed (holds_query_iff.mp hq), Except.forM_cons,
      bind_assoc]
    rfl
  · rw [hvalidated', hs'.acyclic.preorder_eq hs'.placed (holds_query_iff.mp hq'),
      Except.forM_cons, bind_assoc, hinner]
    rfl

end SparqlComposer
