import SparqlComposer.Proofs.Usage.Validation

/-!
# Definitions in a run

Every variable that the ledger of a query defines was defined by some call, which succeeded and made
one change. A definition is told by this call, together with the calls before it and after it.
-/

namespace SparqlComposer

open SparqlComposer.Action

namespace Session

variable {s : Session} {c : Call} {q : QueryId} {n : Text}

/-! ## What is told -/

theorem definedVariables_declarations {ns : List Text} {m : Mention}
    (hm : m ∈ ns.map Mention.declaration) : m.definedVariables = [] := by
  obtain ⟨_, -, rfl⟩ := List.mem_map.mp hm
  rfl

theorem definedVariables_firstMentions {m : Mention} (hm : m ∈ s.firstMentions c) :
    m.definedVariables = [] := by
  unfold firstMentions at hm
  split at hm
  · split at hm
    · exact definedVariables_declarations hm
    · cases hm
  · split at hm
    · exact definedVariables_declarations hm
    · cases hm
  · cases hm

theorem definedVariables_told (hc : ¬ c.isSingle) {m : Mention} (hm : m ∈ s.told q c) :
    m.definedVariables = [] := by
  rw [told] at hm
  split at hm
  · exact definedVariables_firstMentions hm
  split at hm
  case isFalse => cases hm
  rename_i hon
  have hnone (h : s.mentions c = []) : m.definedVariables = [] := by
    rw [h] at hm
    cases hm
  cases c with
  | newQuery _ => cases hon
  | ledger _ _ _ => cases hon
  | query id method args =>
      cases method with
      | newSubquery => exact hnone (ite_self _)
      | bindPrefixes =>
          cases args with
          | nil => exact hnone (ite_self _)
          | cons v rest =>
              cases rest with
              | cons _ _ => exact hnone (ite_self _)
              | nil =>
                  rw [mentions] at hm
                  split at hm
                  · exact definedVariables_declarations hm
                  · cases hm
      | _ => exact absurd rfl hc
  | _ => exact absurd rfl hc

theorem exists_told_of_mem_history {calls : List Call} {m : Mention}
    (h : m ∈ s.history q calls) : ∃ before c after,
      calls = before ++ c :: after ∧ m ∈ (s.run before).told q c := by
  induction calls generalizing s with
  | nil => exact nomatch h
  | cons c calls ih =>
      rcases List.mem_append.mp h with h | h
      · exact ⟨[], c, calls, rfl, h⟩
      · obtain ⟨before, c', after, rfl, hm⟩ := ih h
        exact ⟨c :: before, c', after, rfl, hm⟩

theorem mem_definedVariables_run {calls : List Call} :
    .text n ∈ ((empty.run calls).ledgerOf q).definedVariables ↔
      ∃ m ∈ empty.history q calls, n ∈ m.definedVariables := by
  rw [ledgerOf_run, Ledger.tellAll_eq, OrderedSet.mem_insertAll]
  simp [OrderedSet.mem_iff]

end Session

/-! ## Calls in a run -/

/-- A call of a run, with the calls before it and after it. -/
structure Event where
  before : List Call
  call : Call
  after : List Call

namespace Event

variable {e e' : Event} {q : QueryId} {n : Text}

/-- All the calls of the run. -/
def calls (e : Event) : List Call := e.before ++ e.call :: e.after

/-- The session that the call meets. -/
def session (e : Event) : Session := Session.empty.run e.before

/-- The session that the call leaves. -/
def next (e : Event) : Session := (e.session.call e.call).2

def Succeeds (e : Event) : Prop := (e.session.call e.call).1.isOk

/-- The second call comes after the first one in the same run. -/
def Precedes (e e' : Event) : Prop :=
  ∃ between, e'.before = e.before ++ e.call :: between ∧ e.after = between ++ e'.call :: e'.after

/-- The call tells the ledger of a query that it defines a variable. -/
def Defines (e : Event) (q : QueryId) (n : Text) : Prop :=
  ∃ m ∈ e.session.told q e.call, n ∈ m.definedVariables

theorem placed_session (e : Event) : e.session.Placed := Session.Reachable.placed ⟨e.before, rfl⟩

theorem placed_next (e : Event) : e.next.Placed :=
  e.placed_session.changes (Session.changes_call e.placed_session e.call)

theorem run_calls (e : Event) : Session.empty.run e.calls = e.next.run e.after :=
  Session.run_append e.before (e.call :: e.after)

theorem changes_run (e : Event) : e.next.Changes (Session.empty.run e.calls) := by
  rw [run_calls]
  exact Session.changes_run e.placed_next e.after

namespace Precedes

theorem calls_eq (h : e.Precedes e') : e'.calls = e.calls := by
  obtain ⟨between, hbefore, hafter⟩ := h
  rw [calls, calls, hbefore, hafter, List.append_assoc, List.cons_append]

theorem changes (h : e.Precedes e') : e.next.Changes e'.session := by
  obtain ⟨between, hbefore, -⟩ := h
  have hsession : e'.session = e.next.run between := by
    rw [session, hbefore]
    exact Session.run_append e.before (e.call :: between)
  rw [hsession]
  exact Session.changes_run e.placed_next between

theorem length_before_lt (h : e.Precedes e') : e'.before.length < e.calls.length := by
  rw [← h.calls_eq, calls, List.length_append, List.length_cons]
  omega

end Precedes

theorem Defines.isSingle (h : e.Defines q n) : e.call.isSingle := by
  obtain ⟨m, hm, hn⟩ := h
  by_contra hc
  rw [Session.definedVariables_told hc hm] at hn
  cases hn

theorem Defines.succeeds (h : e.Defines q n) : e.Succeeds := by
  have hc := h.isSingle
  obtain ⟨m, hm, -⟩ := h
  by_contra hok
  rw [Session.told_of_isSingle hc, Session.mentions_of_error hc hok, ite_self] at hm
  cases hm

/-- A call that defines a variable in a query mentions it at a site on the ledger of the query. -/
theorem Defines.exists_mention (h : e.Defines q n) : ∃ site, e.call.site? = some site ∧
    e.session.isOn q site ∧ ∃ m ∈ e.session.mentions e.call, n ∈ m.definedVariables := by
  have hc := h.isSingle
  obtain ⟨m, hm, hn⟩ := h
  rw [Session.told_of_isSingle hc] at hm
  split at hm
  case isFalse => cases hm
  rename_i hon
  obtain ⟨site, hsite, hon⟩ := (Option.any_eq_true _ _).mp hon
  exact ⟨site, hsite, hon, m, hm, hn⟩

/-- A variable that the ledger of a query defines was defined by a call. -/
theorem exists_of_mem_definedVariables {calls : List Call}
    (h : .text n ∈ ((Session.empty.run calls).ledgerOf q).definedVariables) :
    ∃ e : Event, e.calls = calls ∧ e.Defines q n := by
  obtain ⟨m, hm, hn⟩ := Session.mem_definedVariables_run.mp h
  obtain ⟨before, c, after, rfl, htold⟩ := Session.exists_told_of_mem_history hm
  exact ⟨⟨before, c, after⟩, rfl, m, htold, hn⟩

end Event

end SparqlComposer
