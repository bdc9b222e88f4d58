import SparqlComposer.Session.Basic

/-!
# Actions

An action reads and changes a session, and may fail. What it changed before a failure stays
changed, so that an action leaves no trace of a failure only if it does all that may fail before
its first change. The equations for `perform` say what each way of composing actions does.
-/

namespace SparqlComposer

/-- A step that reads and changes a session, and may fail. -/
abbrev Action := ExceptT Error (StateM Session)

namespace Action

variable {α β : Type}

def perform (a : Action α) (s : Session) : Except Error α × Session := a.run.run s

/-- Goes on with a result, or fails with it. -/
def ofResult (r : Except Error α) : Action α := ExceptT.mk (pure r)

def fail (e : Error) : Action α := ofResult (.error e)

/-- Undoes all changes of an action that fails. -/
def atomically (a : Action α) : Action α := ExceptT.mk fun s ↦
  match a.perform s with
  | (.ok x, s') => (.ok x, s')
  | (.error e, _) => (.error e, s)

@[simp] theorem perform_pure (x : α) (s : Session) :
    (pure x : Action α).perform s = (.ok x, s) := rfl

@[simp] theorem perform_get (s : Session) :
    (get : Action Session).perform s = (.ok s, s) := rfl

@[simp] theorem perform_modify (f : Session → Session) (s : Session) :
    (modify f : Action Unit).perform s = (.ok (), f s) := rfl

@[simp] theorem perform_ofResult (r : Except Error α) (s : Session) :
    (ofResult r).perform s = (r, s) := rfl

@[simp] theorem perform_fail (e : Error) (s : Session) :
    (fail e : Action α).perform s = (.error e, s) := rfl

/-- The second action starts where the first one ended, unless that failed. -/
theorem perform_bind (a : Action α) (f : α → Action β) (s : Session) :
    (a >>= f).perform s = match a.perform s with
      | (.ok x, s') => (f x).perform s'
      | (.error e, s') => (.error e, s') := by
  unfold perform
  simp only [ExceptT.run_bind, StateT.run_bind]
  cases h : StateT.run (ExceptT.run a) s with
  | mk r s' => cases r <;> rfl

theorem perform_atomically (a : Action α) (s : Session) :
    (atomically a).perform s = match a.perform s with
      | (.ok x, s') => (.ok x, s')
      | (.error e, _) => (.error e, s) := rfl

/-! ## Changes -/

/-- Enters names into the ledger of a site. -/
def note (site : Site) (f : Ledger → Ledger) : Action Unit :=
  modify fun s ↦ s.modifyLedger (s.graphAt site).ledger f

def build (site : Site) (f : Graph → Graph) : Action Unit :=
  modify fun s ↦ s.modifyGraphAt site f

end Action

end SparqlComposer
