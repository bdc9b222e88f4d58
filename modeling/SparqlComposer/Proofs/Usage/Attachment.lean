import SparqlComposer.Proofs.Session.Frame
import SparqlComposer.Proofs.Usage.Nested

/-!
# When a query is attached

A query that is attached goes on being built, and its text is taken when the outer query is written.
What it projects is entered into the ledger of the outer query at once. So attaching a query before
it is built or after comes to the same but for one thing: the variables that it projects by then.
The outer query is validated alike exactly when these make no difference to what it misses.
-/

namespace SparqlComposer

open SparqlComposer.Action

/-! ## A ledger in which variables are defined -/

namespace OrderedSet

theorem missingFrom_insertAll {α κ : Type} [DecidableEq κ] {key : α → κ}
    (used defined : OrderedSet key) (as : List α) : used.missingFrom (defined.insertAll as) =
      (used.missingFrom defined).filter fun a ↦ key a ∉ as.map key := by
  rw [missingFrom, missingFrom, List.filter_filter]
  apply List.filter_congr
  intro a _
  rw [Bool.eq_iff_iff, Bool.and_eq_true, decide_eq_true_iff, decide_eq_true_iff,
    decide_eq_true_iff, mem_insertAll, not_or, and_comm]

end OrderedSet

namespace Ledger

theorem missingVariables_defineVariables {l : Ledger} {vs : List Text}
    (h : l.missingVariables = vs.map Entry.ofName) (projected : List Text) :
    (l.defineVariables (projected.map Entry.ofName)).missingVariables =
      (vs.filter (· ∉ projected)).map Entry.ofName := by
  have hkey (n : Text) : (Entry.ofName n).key ∈ (projected.map Entry.ofName).map Entry.key ↔
      n ∈ projected := by simp
  change l.usedVariables.missingFrom (l.definedVariables.insertAll _) = _
  rw [OrderedSet.missingFrom_insertAll, ← missingVariables, h, List.filter_map]
  congr 1
  apply List.filter_congr
  intro n _
  exact decide_eq_decide.mpr (not_congr (hkey n))

/-- Two projections come to the same for a ledger if it misses a prefix, or else if each variable
that it misses is in both of them or in neither. -/
theorem validate_defineVariables_eq_iff {l : Ledger} {ps vs : List Text}
    (hprefixes : l.missingPrefixes = ps.map Entry.ofName)
    (hvariables : l.missingVariables = vs.map Entry.ofName) (projected projected' : List Text) :
    (l.defineVariables (projected.map Entry.ofName)).validate =
        (l.defineVariables (projected'.map Entry.ofName)).validate ↔
      ps ≠ [] ∨ ∀ n ∈ vs, n ∈ projected ↔ n ∈ projected' := by
  have hverdict (projected : List Text) :
      (l.defineVariables (projected.map Entry.ofName)).validate =
        verdict ps (vs.filter (· ∉ projected)) :=
    validate_of_names hprefixes (missingVariables_defineVariables hvariables projected)
  have hfilter : vs.filter (· ∉ projected) = vs.filter (· ∉ projected') ↔
      ∀ n ∈ vs, n ∈ projected ↔ n ∈ projected' := by
    constructor
    · intro h n hn
      have hmem : n ∈ vs.filter (· ∉ projected) ↔ n ∈ vs.filter (· ∉ projected') := by rw [h]
      simpa [hn, not_iff_not] using hmem
    · intro h
      apply List.filter_congr
      intro n hn
      exact decide_eq_decide.mpr (not_congr (h n hn))
  rw [hverdict, hverdict, verdict_eq_iff, hfilter, eq_self, true_and, imp_iff_not_or]

end Ledger

namespace Session

open Relation

variable {s : Session} {q t : QueryId} {cs : List Call}

/-! ## Attaching -/

def attaching (q t : QueryId) : Call := .query q .subquery [.object (.query t)]

/-- A query may be attached to one that it neither is nor contains. -/
theorem call_attaching (hq : s.holds (.query q)) (ht : s.holds (.query t))
    (hlacks : s.Lacks q (.query t)) :
    s.call (attaching q t) = (.ok .itself, s.attached (.query q) t) := by
  have hnew : ¬ (t = q ∨ s.contains t q) := by simp [hlacks.ne, hlacks.contains_eq]
  have hattach : (querySubquery q (.object (.query t))).perform s =
      (.ok (), s.attached (.query q) t) := by
    rw [querySubquery, perform_bind_ok (perform_get s), if_neg hnew]
    rfl
  rw [attaching, call_query_object hq ht]
  exact perform_bind_ok hattach

theorem agree_attached (s : Session) (q t : QueryId) :
    Agree q (· ≠ .subqueries) s (s.attached (.query q) t) :=
  .of_note_alter (p := .subqueries) (fun hne ↦ hne rfl) _ fun ts : List QueryId ↦ ts ++ [t]

theorem subqueries_attached (hq : s.holds (.query q)) :
    ((s.attached (.query q) t).query q).graph.subqueries = (s.query q).graph.subqueries ++ [t] := by
  have hsite : s.holds (Site.query q).object := hq
  rw [← graphAt_query, attached, graphAt_built_self hsite]
  rfl

/-- What an attached query projects by then is entered into the ledger. -/
theorem queryLedger_attached (hplaced : s.Placed) (hq : s.holds (.query q)) :
    (s.attached (.query q) t).queryLedger q = (s.queryLedger q).defineVariables
      ((s.query t).projectedVariables (s.queryLedger t)) := by
  rw [queryLedger, ← (agree_attached s q t).ledger_eq]
  exact ledger_built_self (hplaced.ledger_lt (.query q) hq)

theorem Lacks.run {x : QueryId} {r : Ref} (hcs : s.BuildsWithout x q cs) (hr : s.Lacks q r) :
    (s.run cs).Lacks q r := by
  induction cs generalizing s with
  | nil => exact hr
  | cons c cs ih =>
      obtain ⟨⟨p, hp⟩, hargs⟩ := hcs c List.mem_cons_self
      exact ih hcs.tail (hr.call hp hargs)

section Attaching

variable (h : s.Reachable) (hq : s.holds (.query q)) (ht : s.holds (.query t))
  (hlacks : s.Lacks q (.query t)) (hcs : s.BuildsWithout t q cs)

include hq hlacks hcs

/-- Whether a query is attached before it is built or after, the sessions differ in nothing but the
ledger of the outer query. -/
theorem agree_attached_run (hplaced : s.Placed) :
    Agree q (fun _ ↦ True) ((s.attached (.query q) t).run cs)
      ((s.run cs).attached (.query q) t) := by
  have hbuilt {s : Session} : Agree t (fun _ ↦ False) s (s.run cs) :=
    .of_run fun c hc ↦ (hcs c hc).1
  have hagree : Agree q (· ≠ .subqueries) ((s.attached (.query q) t).run cs)
      ((s.run cs).attached (.query q) t) :=
    ((agree_attached s q t).run hplaced hq hlacks.ne hcs).1.symm.trans
      (agree_attached (s.run cs) q t)
  have hheld : (s.run cs).holds (.query q) := by rwa [← hbuilt.holds_eq]
  have hsubqueries : (((s.attached (.query q) t).run cs).query q).graph.subqueries =
      (((s.run cs).attached (.query q) t).query q).graph.subqueries := by
    rw [subqueries_attached hheld, ← hbuilt.query_eq hlacks.ne.symm,
      ← hbuilt.query_eq hlacks.ne.symm, subqueries_attached hq]
  refine { hagree with get_eq := fun p _ ↦ ?_ }
  by_cases hp : p = .subqueries
  · subst hp
    exact hsubqueries
  · exact hagree.get_eq p hp

include h ht

/-- Attached before it is built, a query has its first projection entered, and its last one when it
is attached after. -/
theorem queryLedgers_attached :
    ((s.attached (.query q) t).run cs).queryLedger q =
      (s.queryLedger q).defineVariables ((s.projection t).map Entry.ofName) ∧
    ((s.run cs).attached (.query q) t).queryLedger q =
      (s.queryLedger q).defineVariables (((s.run cs).projection t).map Entry.ofName) := by
  have hbuilt {s : Session} : Agree t (fun _ ↦ False) s (s.run cs) :=
    .of_run fun c hc ↦ (hcs c hc).1
  have hattached : (s.attached (.query q) t).holds = s.holds := (agree_attached s q t).holds_eq.symm
  have hheld : (s.run cs).holds = s.holds := hbuilt.holds_eq.symm
  have hplaced : (s.attached (.query q) t).Placed := by
    have hcall := h.placed.call (attaching q t)
    rwa [call_attaching hq ht hlacks] at hcall
  constructor
  · rw [← hbuilt.queryLedger_eq hplaced (by rwa [hattached]) (by rwa [hattached]) hlacks.ne.symm,
      queryLedger_attached h.placed hq, h.named.projectedVariables_eq ht]
  · rw [queryLedger_attached (h.run cs).placed (by rwa [hheld]),
      (h.run cs).named.projectedVariables_eq (by rwa [hheld]),
      hbuilt.queryLedger_eq h.placed ht hq hlacks.ne.symm]

end Attaching

/-! ## What is projected -/

/-- A query that projects variables goes on projecting the same ones. -/
theorem projection_run (hplaced : s.Placed) {head : Head} (hhead : (s.query t).head = some head)
    (hne : head.projection ≠ []) (cs : List Call) : (s.run cs).projection t = s.projection t := by
  have hhead' := Changes.head_eq (changes_run hplaced cs) hhead
  have hlisted : ¬ head.projection.isEmpty := by simpa using hne
  rw [projection, projection, Query.projectedVariables, Query.projectedVariables, hhead, hhead',
    Option.getD_some, if_neg hlisted, if_neg hlisted]

/-! ## Attaching and building -/

/-- What a query projects before the calls and after them makes no difference to another one: that
one misses a prefix anyway, or each variable that it misses is projected both times or never. -/
def ProjectsAlike (s : Session) (q t : QueryId) (cs : List Call) : Prop :=
  (s.queryLedger q).missingPrefixes ≠ [] ∨
    ∀ n, Entry.ofName n ∈ (s.queryLedger q).missingVariables →
      (n ∈ s.projection t ↔ n ∈ (s.run cs).projection t)

theorem accepts_append (cs : List Call) (c : Call) :
    s.Accepts (cs ++ [c]) ↔ s.Accepts cs ∧ ∃ x, ((s.run cs).call c).1 = .ok x := by
  induction cs generalizing s with
  | nil => simp [Accepts, Session.run]
  | cons c' cs ih =>
      rw [List.cons_append, Accepts, Accepts, ih, and_assoc]
      rfl

section Attaching

variable (h : s.Reachable) (hq : s.holds (.query q)) (ht : s.holds (.query t))
  (hlacks : s.Lacks q (.query t)) (hcs : s.BuildsWithout t q cs)

include hq ht hlacks

theorem run_attaching (cs : List Call) :
    s.run (attaching q t :: cs) = (s.attached (.query q) t).run cs := by
  rw [Session.run, List.foldl_cons, call_attaching hq ht hlacks]
  rfl

include hcs

theorem call_attaching_run :
    (s.run cs).call (attaching q t) = (.ok .itself, (s.run cs).attached (.query q) t) := by
  have hheld : (s.run cs).holds = s.holds := (Agree.of_run fun c hc ↦ (hcs c hc).1).holds_eq.symm
  exact call_attaching (by rwa [hheld]) (by rwa [hheld]) (hlacks.run hcs)

theorem run_append_attaching :
    s.run (cs ++ [attaching q t]) = (s.run cs).attached (.query q) t := by
  rw [run_append, Session.run, List.foldl_cons, call_attaching_run hq ht hlacks hcs]
  rfl

include h

theorem accepts_attaching :
    s.Accepts (attaching q t :: cs) ↔ s.Accepts (cs ++ [attaching q t]) := by
  rw [accepts_append, call_attaching_run hq ht hlacks hcs, Accepts, call_attaching hq ht hlacks,
    ((agree_attached s q t).run h.placed hq hlacks.ne hcs).2]
  simp

theorem validate_attaching_iff :
    ((s.run (attaching q t :: cs)).queryLedger q).validate =
      ((s.run (cs ++ [attaching q t])).queryLedger q).validate ↔ s.ProjectsAlike q t cs := by
  obtain ⟨hfirst, hlast⟩ := queryLedgers_attached h hq ht hlacks hcs
  obtain ⟨ps, vs, hprefixes, hvariables⟩ := h.exists_missing hq
  rw [run_attaching hq ht hlacks, run_append_attaching hq ht hlacks hcs, hfirst, hlast,
    Ledger.validate_defineVariables_eq_iff hprefixes hvariables, ProjectsAlike, hprefixes,
    hvariables, ne_eq, ne_eq, List.map_eq_nil_iff]
  simp only [List.mem_map_of_injective Entry.ofName_injective]

end Attaching

/-- A query may be attached before it is built or after. All calls succeed or fail alike, and
without validation the outer query has the same text. With validation, its ledger is accepted or
refused alike exactly when it misses a prefix anyway or each variable that it misses is projected by
the attached query before the calls if and only if it is after them. Then the outer query is written
or refused alike, and otherwise it is not, unless a query in it is refused. A query that projects
variables already when it is attached always makes no difference. -/
theorem Reachable.render_attached (h : s.Reachable) (hq : s.holds (.query q))
    (ht : s.holds (.query t)) (hlacks : s.Lacks q (.query t)) (hcs : s.BuildsWithout t q cs)
    {first last : Session} (hfirst : first = s.run (attaching q t :: cs))
    (hlast : last = s.run (cs ++ [attaching q t])) :
    (s.Accepts (attaching q t :: cs) ↔ s.Accepts (cs ++ [attaching q t])) ∧
      (∃ text, first.rendering false q = .ok (.text text) ∧
        last.rendering false q = .ok (.text text)) ∧
      ((first.queryLedger q).validate = (last.queryLedger q).validate ↔ s.ProjectsAlike q t cs) ∧
      (s.ProjectsAlike q t cs → first.rendering true q = last.rendering true q) ∧
      ((∀ u, TransGen first.Attached u q → (first.queryLedger u).validate = .ok ()) →
        first.rendering true q = last.rendering true q → s.ProjectsAlike q t cs) ∧
      ∀ head, (s.query t).head = some head → head.projection ≠ [] → s.ProjectsAlike q t cs := by
  subst hfirst hlast
  have hagree : Agree q (fun _ ↦ True) (s.run (attaching q t :: cs))
      (s.run (cs ++ [attaching q t])) := by
    rw [run_attaching hq ht hlacks, run_append_attaching hq ht hlacks hcs]
    exact agree_attached_run hq hlacks hcs h.placed
  have hheld : (s.run (attaching q t :: cs)).holds (.query q) := by
    rwa [run_attaching hq ht hlacks, ← (Agree.of_run fun c hc ↦ (hcs c hc).1).holds_eq,
      ← (agree_attached s q t).holds_eq]
  have hvalidate := validate_attaching_iff h hq ht hlacks hcs
  obtain ⟨text, htrusted, htrusted', hvalidated, hvalidated'⟩ :=
    hagree.render (h.run _) (h.run _) hheld
  refine ⟨accepts_attaching h hq ht hlacks hcs, ⟨text, htrusted, htrusted'⟩, hvalidate,
    fun halike ↦ ?_, fun hinner heq ↦ ?_, fun head hhead hne ↦ ?_⟩
  · rw [hvalidated, hvalidated', hvalidate.mpr halike]
  · rw [hvalidated, hvalidated', (h.run _).validateInner_eq_ok_iff.mpr hinner] at heq
    exact hvalidate.mp (Except.bind_const_injective (Answer.text text) heq)
  · exact .inr fun n _ ↦ by rw [projection_run h.placed hhead hne]

/-- A query selects a variable that an attached one projects once it is built. It is refused if it
was attached before, and written if it is attached after. -/
theorem attached_unbuilt : ∃ s cs, Session.Reachable s ∧
    (s.run (cs ++ [attaching 0 1])).rendering true 0 =
      .ok (.text "SELECT ?x WHERE \x7b \x7b SELECT * WHERE \x7b ?x ?p ?o . \x7d \x7d \x7d".toList) ∧
    (s.run (attaching 0 1 :: cs)).rendering true 0 ≠
      (s.run (cs ++ [attaching 0 1])).rendering true 0 := by
  let calls : List Call :=
    [.newQuery .null, .newQuery .null, .query 0 (.select none) [.text "?x".toList]]
  let cs : List Call :=
    [.pattern (.query 1) .addTriple [.text "?x".toList, .text "?p".toList, .text "?o".toList]]
  let s := empty.run calls
  have hs : s.Reachable := ⟨calls, rfl⟩
  have houter : s.holds (.query 0) := by decide +kernel
  have hinner : s.holds (.query 1) := by decide +kernel
  have hlacks : s.Lacks 0 (.query 1) := lacks_of_no_subqueries (by decide) (by decide +kernel)
  have hcs : s.BuildsWithout 1 0 cs := by
    intro c hc
    obtain rfl := List.mem_singleton.mp hc
    refine ⟨⟨.triples, rfl⟩, fun r hr ↦ ?_⟩
    cases hr
  have hheld : ((s.run (cs ++ [attaching 0 1])).withValidation true).holds (.query 0) := by
    decide +kernel
  have htext := call_render_of_toOption hheld
    (t := "SELECT ?x WHERE \x7b \x7b SELECT * WHERE \x7b ?x ?p ?o . \x7d \x7d \x7d".toList)
    (by decide +kernel)
  have hvalid : (s.run (attaching 0 1 :: cs)).validateInner 0 = .ok () := by
    have hwalk : ((s.run (attaching 0 1 :: cs)).query 0).graph.subqueries.flatMap
        (s.run (attaching 0 1 :: cs)).preorder = [1] := by decide +kernel
    rw [validateInner, hwalk, Except.forM_eq_ok_iff, List.forall_mem_singleton,
      Ledger.validate_eq_ok_iff]
    decide +kernel
  have hmissing : Entry.ofName "x".toList ∈ (s.queryLedger 0).missingVariables := by
    have hvariables : Mention.missingVariables (empty.history 0 calls) = ["x".toList] := by
      decide +kernel
    rw [← ledgerOf_of_holds houter, ledgerOf_run, Ledger.missingVariables_tellAll, hvariables]
    exact List.mem_singleton_self _
  obtain ⟨-, -, -, -, hdiffers, -⟩ := Reachable.render_attached hs houter hinner hlacks hcs rfl rfl
  refine ⟨s, cs, hs, htext, fun heq ↦ ?_⟩
  rcases hdiffers ((hs.run _).validateInner_eq_ok_iff.mp hvalid) heq with hne | halike
  · exact hne (by decide +kernel)
  · have hprojected : ¬ ("x".toList ∈ s.projection 1 ↔ "x".toList ∈ (s.run cs).projection 1) := by
      decide +kernel
    exact hprojected (halike _ hmissing)

end Session

end SparqlComposer
