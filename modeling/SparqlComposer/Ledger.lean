import SparqlComposer.Expression
import SparqlComposer.Ledger.Entry

/-!
# Ledgers

A ledger collects the variables and prefixes that a query defines and those that it uses. Nothing
is checked until the ledger is validated, so uses may come before their definitions.
-/

namespace SparqlComposer

/-- What is defined and used, in the order in which it came up. -/
structure Ledger where
  definedVariables : Entries := ∅
  usedVariables : Entries := ∅
  definedPrefixes : Entries := ∅
  usedPrefixes : Entries := ∅

namespace Ledger

def defineVariables (l : Ledger) (entries : List Entry) : Ledger :=
  { l with definedVariables := l.definedVariables.insertAll entries }

def useVariables (l : Ledger) (entries : List Entry) : Ledger :=
  { l with usedVariables := l.usedVariables.insertAll entries }

def definePrefixes (l : Ledger) (entries : List Entry) : Ledger :=
  { l with definedPrefixes := l.definedPrefixes.insertAll entries }

def usePrefixes (l : Ledger) (entries : List Entry) : Ledger :=
  { l with usedPrefixes := l.usedPrefixes.insertAll entries }

def use (l : Ledger) (e : Expression) : Ledger :=
  (l.useVariables e.references.entries).usePrefixes e.prefixes.entries

/-- Enters a term of a triple; a term that is a variable defines it. -/
def useTerm (l : Ledger) (e : Expression) : Ledger :=
  if e.kind = .var then (l.use e).defineVariables e.references.entries else l.use e

/-- Enters an expression whose assignments define their targets. -/
def useAssigning (l : Ledger) (e : Expression) : Ledger :=
  (l.use e).defineVariables e.assignments.entries

/-- The prefixes that are used and not defined, in the order of their first use. -/
def missingPrefixes (l : Ledger) : List Entry := l.usedPrefixes.missingFrom l.definedPrefixes

def missingVariables (l : Ledger) : List Entry := l.usedVariables.missingFrom l.definedVariables

/-- The error for what is missing, which tells all names if there are only names. -/
def missingError (cause : List Text → Error) (missing : List Entry) : Error :=
  match missing.mapM Entry.name? with
  | some names => cause names
  | none => .nameless

/-- Fails when something used is not defined. Prefixes are checked first. -/
def validate (l : Ledger) : Except Error Unit :=
  match l.missingPrefixes, l.missingVariables with
  | [], [] => .ok ()
  | [], missing => .error (missingError .undefinedVariables missing)
  | missing, _ => .error (missingError .undefinedPrefixes missing)

end Ledger

end SparqlComposer
