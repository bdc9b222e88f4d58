import SparqlComposer.Proofs.Usage.Attachment

/-!
# When an attachment is refused

Attaching a query to another one adds one edge to the queries as they are attached so far. It is
refused exactly when a query would contain itself with that edge, and since no query contains itself
before, that is when the outer query is the inner one or is contained in it. Nothing else about the
two queries matters: a query may be attached twice, or to several queries one of which contains
another.
-/

namespace SparqlComposer.Session

open Relation SparqlComposer.Action

variable {s : Session} {q t : QueryId}

/-- What is attached once a query is attached to another one as well. -/
def AttachedWith (s : Session) (inner outer a b : QueryId) : Prop :=
  s.Attached a b ∨ a = inner ∧ b = outer

/-- With the attachment some query would contain itself. -/
def ClosesCycle (s : Session) (inner outer : QueryId) : Prop :=
  ∃ a, TransGen (s.AttachedWith inner outer) a a

/-- Only a cycle over the new attachment comes about. -/
theorem Acyclic.closesCycle_iff (hacyclic : s.Acyclic) :
    s.ClosesCycle t q ↔ t = q ∨ TransGen s.Attached q t := by
  constructor
  · rintro ⟨a, hcycle⟩
    rcases transGen_of_added (fun _ _ h ↦ h) hcycle with hold | ⟨hin, hout⟩
    · exact absurd hold (hacyclic a)
    · exact reflTransGen_iff_eq_or_transGen.mp (hout.trans hin)
  · intro h
    have hadded : s.AttachedWith t q t q := .inr ⟨rfl, rfl⟩
    rcases h with rfl | hpath
    · exact ⟨t, .single hadded⟩
    · have hold : TransGen (s.AttachedWith t q) q t := TransGen.mono (fun _ _ ↦ .inl) q t hpath
      exact ⟨q, hold.tail hadded⟩

theorem attached_attached (hq : s.holds (.query q)) :
    (s.attached (.query q) t).Attached = s.AttachedWith t q := by
  funext a b
  apply propext
  by_cases hb : b = q
  · subst hb
    rw [Attached, subqueries_attached hq, List.mem_append, List.mem_singleton, AttachedWith,
      and_iff_left rfl, Attached]
  · rw [Attached, ← (agree_attached s q t).query_eq hb, ← Attached, AttachedWith]
    simp [hb]

section Calls

variable (hq : s.holds (.query q)) (ht : s.holds (.query t))

include hq ht

theorem call_hasSubquery :
    s.call (.query t .hasSubquery [.object (.query q)]) = (.ok (.flag (s.contains t q)), s) :=
  call_query_object ht hq .hasSubquery

theorem call_attaching_of_contains (h : t = q ∨ s.contains t q) :
    s.call (attaching q t) = (.error .recursiveSubquery, s) := by
  have hfail : (querySubquery q (.object (.query t))).perform s =
      (.error .recursiveSubquery, s) := by
    rw [querySubquery, perform_bind_ok (perform_get s), if_pos h]
    exact perform_bind_error (perform_fail _ s)
  rw [attaching, call_query_object hq ht]
  exact perform_bind_error hfail

end Calls

/-- In every reachable session a query is told to have exactly the queries that one or more
attachments lead down to. An attachment is refused exactly if it would close a cycle, that is if the
two queries are the same or the inner one has the outer one. Every other attachment succeeds,
whatever the two are attached to already, and adds nothing but itself. -/
theorem Reachable.recursiveSubquery_iff (h : s.Reachable) (hq : s.holds (.query q))
    (ht : s.holds (.query t)) :
    (∃ found, s.call (.query t .hasSubquery [.object (.query q)]) = (.ok (.flag found), s) ∧
      (found = true ↔ TransGen s.Attached q t)) ∧
    ((s.call (attaching q t)).1 = .error .recursiveSubquery ↔ s.ClosesCycle t q) ∧
    (s.ClosesCycle t q ↔ t = q ∨ TransGen s.Attached q t) ∧
    (¬ s.ClosesCycle t q → ∃ s', s.call (attaching q t) = (.ok .itself, s') ∧
      s'.Attached = s.AttachedWith t q) := by
  have hcontains : s.contains t q ↔ TransGen s.Attached q t :=
    h.acyclic.contains_iff h.placed (holds_query_iff.mp ht)
  have hcycle : s.ClosesCycle t q ↔ t = q ∨ TransGen s.Attached q t := h.acyclic.closesCycle_iff
  have hsucceeds (hopen : ¬ s.ClosesCycle t q) :
      s.call (attaching q t) = (.ok .itself, s.attached (.query q) t) := by
    have hlacks : s.Lacks q (.query t) := by
      rwa [Lacks, reflTransGen_iff_eq_or_transGen, ← hcycle]
    exact call_attaching hq ht hlacks
  refine ⟨⟨s.contains t q, call_hasSubquery hq ht, hcontains⟩, ⟨?_, ?_⟩, hcycle, ?_⟩
  · intro hrefused
    by_contra hopen
    rw [hsucceeds hopen] at hrefused
    cases hrefused
  · intro hclosed
    rw [hcycle, ← hcontains] at hclosed
    rw [call_attaching_of_contains hq ht hclosed]
  · intro hopen
    exact ⟨_, hsucceeds hopen, attached_attached hq⟩

/-- A query that is attached to one in a third query: it cannot have the third one in it, and it may
be attached to the third one as well. -/
theorem recursiveSubquery_chain : ∃ s : Session, s.Reachable ∧ s.Attached 2 1 ∧ s.Attached 1 0 ∧
    s.call (.query 0 .hasSubquery [.object (.query 2)]) = (.ok (.flag true), s) ∧
      (s.call (attaching 2 0)).1 = .error .recursiveSubquery ∧
        ∃ s', s.call (attaching 0 2) = (.ok .itself, s') ∧ s'.Attached 2 0 ∧ s'.Attached 2 1 := by
  let s := empty.run [.newQuery .null, .newQuery .null, .newQuery .null, attaching 1 2,
    attaching 0 1]
  have hs : s.Reachable := ⟨_, rfl⟩
  have hheld : s.holds (.query 0) ∧ s.holds (.query 2) := by decide +kernel
  have hinner : s.Attached 2 1 := by
    rw [Attached]
    decide +kernel
  have houter : s.Attached 1 0 := by
    rw [Attached]
    decide +kernel
  have hnone : (s.query 2).graph.subqueries = [] := by decide +kernel
  have hpath : TransGen s.Attached 2 0 := .tail (.single hinner) houter
  obtain ⟨⟨found, hcall, hfound⟩, hrefused, hcycle, -⟩ :=
    Reachable.recursiveSubquery_iff hs hheld.2 hheld.1
  obtain ⟨-, -, hcycle', hopen⟩ := Reachable.recursiveSubquery_iff hs hheld.1 hheld.2
  obtain rfl : found = true := hfound.mpr hpath
  have hfree : ¬ s.ClosesCycle 2 0 := by
    rw [hcycle', ← reflTransGen_iff_eq_or_transGen]
    exact lacks_of_no_subqueries (by decide) hnone
  obtain ⟨s', hattached, hedges⟩ := hopen hfree
  refine ⟨s, hs, hinner, houter, hcall, hrefused.mpr (hcycle.mpr (.inr hpath)), s', hattached, ?_⟩
  rw [hedges]
  exact ⟨.inr ⟨rfl, rfl⟩, .inl hinner⟩

end SparqlComposer.Session
