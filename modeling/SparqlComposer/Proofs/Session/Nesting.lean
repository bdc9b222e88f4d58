import SparqlComposer.Proofs.Result
import SparqlComposer.Proofs.Session.Outcome

/-!
# No query contains itself

A query is refused as part of another one that it contains, so that attaching queries never closes
a cycle. Nesting is then never deeper than there are queries. The search for a contained query and
the writing of queries and graphs go down to that depth, and so they do what the same recursion
does without a bound: they reach the end of every branch.
-/

namespace SparqlComposer.Session

open Relation

def Attached (s : Session) (inner outer : QueryId) : Prop :=
  inner ∈ (s.query outer).graph.subqueries

/-- No query contains itself, at whatever depth. -/
def Acyclic (s : Session) : Prop := ∀ q, ¬ TransGen s.Attached q q

/-- The queries in a query are nested less deep than the given depth. -/
def DepthBelow (s : Session) : (depth : Nat) → QueryId → Prop
  | 0, _ => False
  | depth + 1, q => ∀ inner, s.Attached inner q → s.DepthBelow depth inner

variable {s s' : Session}

/-! ## Depth

Going down from a query, no query comes up twice, so there are only as many steps as queries. -/

theorem depthBelow_of_above (hplaced : s.Placed) (hacyclic : s.Acyclic) {depth : Nat} {q : QueryId}
    {above : List QueryId} (hnodup : (q :: above).Nodup)
    (hlt : ∀ a ∈ q :: above, a < s.queries.length) (habove : ∀ a ∈ above, TransGen s.Attached q a)
    (hlength : above.length + depth = s.queries.length) : s.DepthBelow depth q := by
  induction depth generalizing q above with
  | zero =>
      have hsub : q :: above ⊆ List.range s.queries.length :=
        fun a ha ↦ List.mem_range.mpr (hlt a ha)
      have hle := hnodup.length_le_of_subset hsub
      simp only [List.length_cons, List.length_range] at hle
      omega
  | succ depth ih =>
      intro inner hinner
      have hbelow : ∀ a ∈ q :: above, TransGen s.Attached inner a := by
        intro a ha
        rcases List.mem_cons.mp ha with rfl | ha
        · exact .single hinner
        · exact .head hinner (habove a ha)
      have hnew : inner ∉ q :: above := fun hmem ↦ hacyclic inner (hbelow inner hmem)
      refine ih (List.nodup_cons.mpr ⟨hnew, hnodup⟩) ?_ hbelow ?_
      · intro a ha
        rcases List.mem_cons.mp ha with rfl | ha
        · exact hplaced.subquery_lt (.query q) a hinner
        · exact hlt a ha
      · rw [List.length_cons]
        omega

theorem Acyclic.depthBelow (hacyclic : s.Acyclic) (hplaced : s.Placed) {q : QueryId}
    (hq : q < s.queries.length) : s.DepthBelow s.queries.length q :=
  depthBelow_of_above hplaced hacyclic (List.nodup_cons.mpr ⟨by simp, .nil⟩)
    (fun a ha ↦ by rwa [List.mem_singleton.mp ha]) (by simp) (Nat.zero_add _)

theorem DepthBelow.acc {depth : Nat} {q : QueryId} (h : s.DepthBelow depth q) :
    Acc s.Attached q := by
  induction depth generalizing q with
  | zero => exact h.elim
  | succ depth ih => exact ⟨q, fun inner hinner ↦ ih (h inner hinner)⟩

theorem Acyclic.wellFounded (hacyclic : s.Acyclic) (hplaced : s.Placed) :
    WellFounded s.Attached := by
  refine ⟨fun q ↦ ⟨q, fun inner hinner ↦ ?_⟩⟩
  have hlt := hplaced.subquery_lt (.query q) inner hinner
  exact (hacyclic.depthBelow hplaced hlt).acc

/-! ## The search for a contained query -/

theorem transGen_of_containsWithin {depth : Nat} {outer target : QueryId}
    (h : s.containsWithin depth outer target) : TransGen s.Attached target outer := by
  induction depth generalizing outer with
  | zero => exact absurd h Bool.false_ne_true
  | succ depth ih =>
      rw [containsWithin, List.any_eq_true] at h
      obtain ⟨inner, hinner, hfound⟩ := h
      rcases Bool.or_eq_true_iff.mp hfound with heq | hdeeper
      · obtain rfl := eq_of_beq heq
        exact .single hinner
      · exact .tail (ih hdeeper) hinner

theorem DepthBelow.containsWithin {depth : Nat} {outer target : QueryId}
    (hdepth : s.DepthBelow depth outer) (h : TransGen s.Attached target outer) :
    s.containsWithin depth outer target := by
  induction depth generalizing outer with
  | zero => exact hdepth.elim
  | succ depth ih =>
      obtain ⟨inner, hpath, hinner⟩ := TransGen.tail'_iff.mp h
      rw [Session.containsWithin, List.any_eq_true]
      refine ⟨inner, hinner, ?_⟩
      rcases reflTransGen_iff_eq_or_transGen.mp hpath with rfl | hpath
      · simp
      · simp [ih (hdepth inner hinner) hpath]

/-- The search finds exactly the contained queries. -/
theorem Acyclic.contains_iff (hacyclic : s.Acyclic) (hplaced : s.Placed) {outer target : QueryId}
    (houter : outer < s.queries.length) :
    s.contains outer target ↔ TransGen s.Attached target outer :=
  ⟨transGen_of_containsWithin, (hacyclic.depthBelow hplaced houter).containsWithin⟩

/-- The search is the recursion without a bound. -/
theorem Acyclic.contains_eq (hacyclic : s.Acyclic) (hplaced : s.Placed) {outer target : QueryId}
    (houter : outer < s.queries.length) : s.contains outer target =
      (s.query outer).graph.subqueries.any fun inner ↦ inner == target || s.contains inner target := by
  rw [Bool.eq_iff_iff, hacyclic.contains_iff hplaced houter, TransGen.tail'_iff, List.any_eq_true]
  apply exists_congr
  intro inner
  rw [and_comm]
  apply and_congr_right
  intro hinner
  have hlt := hplaced.subquery_lt (.query outer) inner hinner
  rw [Bool.or_eq_true_iff, hacyclic.contains_iff hplaced hlt, beq_iff_eq,
    reflTransGen_iff_eq_or_transGen]

/-! ## Writing -/

theorem validate_ne_endlessNesting (l : Ledger) : l.validate ≠ .error .endlessNesting := by
  have hmissing : ∀ (cause : List Text → Error) (es : List Entry),
      (∀ names, cause names ≠ .endlessNesting) →
        Ledger.missingError cause es ≠ .endlessNesting := by
    intro cause es hcause
    unfold Ledger.missingError
    split
    · exact hcause _
    · simp
  unfold Ledger.validate
  split
  · simp
  · simpa using hmissing Error.undefinedVariables _ (by simp)
  · simpa using hmissing Error.undefinedPrefixes _ (by simp)

theorem check_ne_endlessNesting (s : Session) (l : Ledger) :
    s.check l ≠ .error .endlessNesting := by
  unfold check
  split
  · exact validate_ne_endlessNesting l
  · simp

theorem DepthBelow.subqueryWithin_ne {depth : Nat} {q : QueryId} (h : s.DepthBelow depth q) :
    s.subqueryWithin depth q ≠ .error .endlessNesting := by
  induction depth generalizing q with
  | zero => exact h.elim
  | succ depth ih =>
      intro herror
      rw [subqueryWithin] at herror
      rcases Except.bind_eq_error_iff.mp herror with hcheck | ⟨_, -, hrest⟩
      · exact check_ne_endlessNesting s _ hcheck
      · rcases Except.bind_eq_error_iff.mp hrest with hinner | ⟨_, -, hpure⟩
        · obtain ⟨inner, hmem, hinner⟩ := Except.exists_of_mapM_eq_error hinner
          exact ih (h inner hmem) hinner
        · exact Except.pure_ne_error hpure

/-- A bound that is deep enough may as well be deeper. -/
theorem DepthBelow.subqueryWithin_succ {depth : Nat} {q : QueryId} (h : s.DepthBelow depth q) :
    s.subqueryWithin (depth + 1) q = s.subqueryWithin depth q := by
  induction depth generalizing q with
  | zero => exact h.elim
  | succ depth ih =>
      have hinner : (s.query q).graph.subqueries.mapM (s.subqueryWithin (depth + 1)) =
          (s.query q).graph.subqueries.mapM (s.subqueryWithin depth) :=
        Except.mapM_congr fun inner hmem ↦ ih (h inner hmem)
      rw [subqueryWithin, hinner, subqueryWithin]

theorem Acyclic.subquery_eq (hacyclic : s.Acyclic) (hplaced : s.Placed) {q : QueryId}
    (hq : q < s.queries.length) : s.subquery q = (do
      s.check (s.queryLedger q)
      let inner ← (s.query q).graph.subqueries.mapM s.subquery
      return (s.query q).subquery ((s.query q).graph.pattern inner)) := by
  rw [subquery, ← (hacyclic.depthBelow hplaced hq).subqueryWithin_succ, subqueryWithin]
  rfl

theorem Acyclic.subquery_ne (hacyclic : s.Acyclic) (hplaced : s.Placed) {q : QueryId}
    (hq : q < s.queries.length) : s.subquery q ≠ .error .endlessNesting :=
  (hacyclic.depthBelow hplaced hq).subqueryWithin_ne

theorem Acyclic.queryText_ne (hacyclic : s.Acyclic) (hplaced : s.Placed) {q : QueryId}
    (hq : q < s.queries.length) (withPrefixes : Bool) :
    s.queryText q withPrefixes ≠ .error .endlessNesting := by
  intro herror
  rw [queryText] at herror
  rcases Except.bind_eq_error_iff.mp herror with hquery | ⟨_, -, hpure⟩
  · exact hacyclic.subquery_ne hplaced hq hquery
  · exact Except.pure_ne_error hpure

theorem Acyclic.graphText_ne (hacyclic : s.Acyclic) (hplaced : s.Placed) (id : GraphId) :
    s.graphText id ≠ .error .endlessNesting := by
  intro herror
  rw [graphText] at herror
  rcases Except.bind_eq_error_iff.mp herror with hpattern | ⟨_, -, hpure⟩
  · rcases Except.bind_eq_error_iff.mp hpattern with hinner | ⟨_, -, hpure⟩
    · obtain ⟨q, hq, herror⟩ := Except.exists_of_mapM_eq_error hinner
      exact hacyclic.subquery_ne hplaced (hplaced.subquery_lt (.graph id) q hq) herror
    · exact Except.pure_ne_error hpure
  · exact Except.pure_ne_error hpure

/-! ## Attaching a query -/

/-- A way through one more edge is an old one, or leads over the new edge. -/
theorem transGen_of_added {α : Type} {r r' : α → α → Prop} {x y : α}
    (hr : ∀ a b, r' a b → r a b ∨ a = x ∧ b = y) {a b : α} (h : TransGen r' a b) :
    TransGen r a b ∨ ReflTransGen r a x ∧ ReflTransGen r y b := by
  induction h with
  | single hab =>
      rcases hr _ _ hab with hab | ⟨rfl, rfl⟩
      · exact .inl (.single hab)
      · exact .inr ⟨.refl, .refl⟩
  | tail _ hbc ih =>
      rcases hr _ _ hbc with hbc | ⟨rfl, rfl⟩
      · rcases ih with hab | ⟨hax, hyb⟩
        · exact .inl (.tail hab hbc)
        · exact .inr ⟨hax, hyb.tail hbc⟩
      · rcases ih with hab | ⟨hax, -⟩
        · exact .inr ⟨hab.to_reflTransGen, .refl⟩
        · exact .inr ⟨hax, .refl⟩

/-- A query may be attached to one that it neither is nor contains. -/
theorem Acyclic.of_added (hacyclic : s.Acyclic) {inner outer : QueryId}
    (hadded : ∀ a b, s'.Attached a b → s.Attached a b ∨ a = inner ∧ b = outer)
    (hne : inner ≠ outer) (hnot : ¬ TransGen s.Attached outer inner) : s'.Acyclic := by
  intro q hcycle
  rcases transGen_of_added hadded hcycle with hold | ⟨hin, hout⟩
  · exact hacyclic q hold
  · rcases reflTransGen_iff_eq_or_transGen.mp (hout.trans hin) with heq | hpath
    · exact hne heq
    · exact hnot hpath

theorem Acyclic.of_attached (hacyclic : s.Acyclic)
    (hold : ∀ a b, s'.Attached a b → s.Attached a b) : s'.Acyclic :=
  fun q hcycle ↦ hacyclic q (TransGen.mono hold q q hcycle)

theorem Acyclic.built (hacyclic : s.Acyclic) (hplaced : s.Placed) {site : Site}
    (hsite : s.holds site.object) {f : Ledger → Ledger} {g : Graph → Graph}
    (hfg : Building s site f g) : (s.built site f g).Acyclic := by
  -- Only a query that is put into the graph of a query makes a new edge.
  have hother : (∀ outer, site = .query outer →
      (g (s.graphAt site)).subqueries = (s.graphAt site).subqueries) →
        (s.built site f g).Acyclic := by
    intro hsame
    apply hacyclic.of_attached
    intro a b hab
    by_cases heq : Site.query b = site
    · rw [Attached, ← graphAt_query, heq, graphAt_built_self hsite, hsame b heq.symm, ← heq] at hab
      exact hab
    · rw [Attached, ← graphAt_query, graphAt_built_of_ne heq] at hab
      exact hab
  cases hfg with
  | @subquery inner hq hnew =>
      cases site with
      | graph id => exact hother fun outer heq ↦ nomatch heq
      | query outer =>
          obtain ⟨hne, hnot⟩ := hnew outer rfl
          have hinner := holds_query_iff.mp hq
          refine hacyclic.of_added (fun a b hab ↦ ?_) hne ?_
          · by_cases heq : b = outer
            · subst heq
              rw [Attached, ← graphAt_query, graphAt_built_self hsite] at hab
              rcases List.mem_append.mp hab with hab | hab
              · exact .inl hab
              · exact .inr ⟨List.mem_singleton.mp hab, rfl⟩
            · rw [Attached, ← graphAt_query, graphAt_built_of_ne (by simpa using heq)] at hab
              exact .inl hab
          · rw [← hacyclic.contains_iff hplaced hinner, hnot]
            exact Bool.false_ne_true
  | block k _ _ => exact hother fun _ _ ↦ by cases k <;> rfl
  | tripleBlock k _ _ _ => exact hother fun _ _ ↦ by cases k <;> rfl
  | _ => exact hother fun _ _ ↦ rfl

/-- What is set in a query attaches nothing. -/
theorem attached_settled {id : QueryId} {f : Ledger → Ledger} {g : Query → Query}
    (hid : s.holds (.query id)) (hfg : Setting s id f g) :
    (s.settled id f g).Attached = s.Attached := by
  funext inner outer
  have hgraph := graphAt_settled hid hfg (.query outer)
  exact congrArg (inner ∈ ·) (congrArg Graph.subqueries hgraph)

theorem Acyclic.change (hacyclic : s.Acyclic) (hplaced : s.Placed) (hchange : s.Change s') :
    s'.Acyclic := by
  cases hchange with
  | newQuery =>
      apply hacyclic.of_attached
      intro a b hab
      rw [Attached, query_withQuery] at hab
      split at hab
      · exact nomatch hab
      · exact hab
  | building hsite hfg => exact hacyclic.built hplaced hsite hfg
  | setting hid hfg => rwa [Acyclic, attached_settled hid hfg]
  | _ => exact hacyclic

theorem acyclic_empty : empty.Acyclic := by
  intro q hcycle
  obtain ⟨inner, -, hinner⟩ := TransGen.tail'_iff.mp hcycle
  simp [Attached, query, empty] at hinner

theorem Reachable.acyclic (h : s.Reachable) : s.Acyclic :=
  h.invariant acyclic_empty fun _ _ hplaced hacyclic hchange ↦ hacyclic.change hplaced hchange

/-- In every reachable session no query contains itself, so that going down from a query to those
in it comes to an end. The search for a contained query and the writing of queries and graphs are
this recursion and nothing else: their bound plays no part. -/
theorem Reachable.nesting (h : s.Reachable) :
    s.Acyclic ∧ WellFounded s.Attached ∧
      (∀ outer target, s.holds (.query outer) →
        (s.contains outer target ↔ TransGen s.Attached target outer) ∧
          s.contains outer target = (s.query outer).graph.subqueries.any fun inner ↦
            inner == target || s.contains inner target) ∧
      (∀ q, s.holds (.query q) →
        s.subquery q = (do
          s.check (s.queryLedger q)
          let inner ← (s.query q).graph.subqueries.mapM s.subquery
          return (s.query q).subquery ((s.query q).graph.pattern inner)) ∧
        ∀ withPrefixes, s.queryText q withPrefixes ≠ .error .endlessNesting) ∧
      ∀ id, s.graphText id ≠ .error .endlessNesting := by
  have hacyclic := h.acyclic
  have hplaced := h.placed
  refine ⟨hacyclic, hacyclic.wellFounded hplaced, fun outer target houter ↦ ?_, fun q hq ↦ ?_,
    hacyclic.graphText_ne hplaced⟩
  · have hlt := holds_query_iff.mp houter
    exact ⟨hacyclic.contains_iff hplaced hlt, hacyclic.contains_eq hplaced hlt⟩
  · have hlt := holds_query_iff.mp hq
    exact ⟨hacyclic.subquery_eq hplaced hlt, hacyclic.queryText_ne hplaced hlt⟩

/-- A query in two others, one of them in the other one, which stands in a graph by itself. -/
theorem nesting_shared : ∃ s : Session, s.Reachable ∧ s.Attached 2 1 ∧ s.Attached 2 0 ∧
    s.Attached 1 0 ∧ (s.graph 0).subqueries = [0] ∧ s.Acyclic ∧
      s.queryText 0 true ≠ .error .endlessNesting ∧ s.graphText 0 ≠ .error .endlessNesting := by
  let s := empty.run [.newQuery .null, .newQuery .null, .newQuery .null,
    .query 1 .subquery [.object (.query 2)], .query 0 .subquery [.object (.query 2)],
    .query 0 .subquery [.object (.query 1)], .query 0 .newSubgraph [],
    .graph 0 .subquery [.object (.query 0)]]
  have hs : s.Reachable := ⟨_, rfl⟩
  obtain ⟨hacyclic, -, -, hquery, hgraph⟩ := Reachable.nesting hs
  have hheld : s.holds (.query 0) := by decide +kernel
  have hmiddle : (s.query 1).graph.subqueries = [2] := by decide +kernel
  have houter : (s.query 0).graph.subqueries = [2, 1] := by decide +kernel
  have hsubgraph : (s.graph 0).subqueries = [0] := by decide +kernel
  have hedges : s.Attached 2 1 ∧ s.Attached 2 0 ∧ s.Attached 1 0 := by
    simp only [Attached, hmiddle, houter]
    decide
  exact ⟨s, hs, hedges.1, hedges.2.1, hedges.2.2, hsubgraph, hacyclic, (hquery 0 hheld).2 true,
    hgraph 0⟩

end SparqlComposer.Session
