import SparqlComposer.Names
import SparqlComposer.Expression.Token
import SparqlComposer.Span
import SparqlComposer.Text.Caseless
import SparqlComposer.Text.Tab

/-!
# The names that an expression mentions

Names are captured outside the protected spans. A pattern is tried at every place from the left;
where it applies, the scan goes on behind what it covers. Variables that follow `AS` are assigned,
all others are used.
-/

namespace SparqlComposer

/-- A pattern: from what stands before a place, last character first, and what stands ahead, the
name it captures there and the number of characters it covers. -/
abbrev CapturePattern := (before ahead : Text) → Option (Text × Nat)

/-- The names a pattern captures, from the left. Blanks are passed over, and `skip` characters
are still covered by the last capture. -/
def scan (pattern : CapturePattern) : (skip : Nat) → (before ahead : Text) → List Text
  | _, _, [] => []
  | skip + 1, before, c :: cs => scan pattern skip (c :: before) cs
  | 0, before, c :: cs =>
      if isGap c then scan pattern 0 (c :: before) cs
      else match pattern before (c :: cs) with
        | some (name, length) => name :: scan pattern (length - 1) (c :: before) cs
        | none => scan pattern 0 (c :: before) cs

def atWordStart (before : Text) : Bool := before.head?.all (!isWord ·)

def followsAs : (before : Text) → Bool
  | ' ' :: s :: a :: before => isFormOf 's' s && isFormOf 'a' a && atWordStart before
  | _ => false

/-- A variable that is not the target of an assignment. -/
def variableUse : CapturePattern
  | before, c :: cs =>
      let name := cs.takeWhile isWord
      if isSigil c && atWordStart before && !followsAs before && !name.isEmpty then
        some (name, name.length + 1)
      else none
  | _, [] => none

/-- The keyword `AS`, one space, and a variable. -/
def assignmentTarget : CapturePattern
  | before, a :: s :: ' ' :: c :: cs =>
      let name := cs.takeWhile isWord
      if isFormOf 'a' a && isFormOf 's' s && isSigil c && atWordStart before && !name.isEmpty then
        some (name, name.length + 4)
      else none
  | _, _ => none

/-- A prefix with its colon and a local name. -/
def prefixUse : CapturePattern
  | before, ahead =>
      let name := ahead.takeWhile isWord
      match ahead.dropWhile isWord with
      | ':' :: cs =>
          let rest := cs.takeWhile isWord
          if atWordStart before && !name.isEmpty && !rest.isEmpty then
            some (name, name.length + 1 + rest.length)
          else none
      | _ => none

/-- The names a pattern captures from a text, outside its spans and with its tabs expanded. -/
def captures (pattern : CapturePattern) (t : Text) : Names :=
  .ofList (scan pattern 0 [] (expandTabs (escaped t)))

def variablesOf (t : Text) : Names := captures variableUse t

def assignmentsOf (t : Text) : Names := captures assignmentTarget t

def prefixesOf (t : Text) : Names := captures prefixUse t

end SparqlComposer
