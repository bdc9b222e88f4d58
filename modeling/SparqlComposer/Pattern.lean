import SparqlComposer.Clause
import SparqlComposer.OrderedMap

/-!
# Graph patterns

A graph pattern is what stands between the braces of a query: subqueries, triples, optional parts,
constraints and unions, written in this order. Triples are grouped by subject and predicate, so
that they are written with the shorthands `;` and `,`. A pattern is complete in itself: the
subqueries in it hold all that is written of them. It also holds what its names refer to, which is
not written: the ledger they were entered into, and the prefixes of every subquery.
-/

namespace SparqlComposer

/-- The place of a ledger in the session. -/
abbrev LedgerId := Nat

/-- Triples by subject and predicate, each group in the order of its first triple. -/
abbrev Triples := OrderedMap Text (OrderedMap Text (List Text))

namespace Triples

/-- Puts a triple at the end of its group. -/
def add (ts : Triples) (subject predicate object : Text) : Triples :=
  ts.alter subject fun predicates ↦
    (predicates.getD ∅).alter predicate fun objects ↦ objects.getD [] ++ [object]

/-- The triples one by one, group after group. -/
def toList (ts : Triples) : List (Text × Text × Text) :=
  ts.entries.flatMap fun (subject, predicates) ↦
    predicates.entries.flatMap fun (predicate, objects) ↦
      objects.map fun object ↦ (subject, predicate, object)

def predicateText (predicate : Text) (objects : List Text) : Text :=
  predicate ++ ' ' :: joinWith " , ".toList objects

def subjectText (subject : Text) (predicates : OrderedMap Text (List Text)) : Text :=
  subject ++ ' ' ::
    joinWith " ; ".toList (predicates.entries.map fun (p, os) ↦ predicateText p os) ++
    " .".toList

/-- The texts of the triples, one for each subject. -/
def texts (ts : Triples) : List Text := ts.entries.map fun (s, ps) ↦ subjectText s ps

end Triples

mutual

/-- A graph pattern, with the ledger that its names were entered into. -/
inductive Pattern where
  | mk (ledger : LedgerId) (subqueries : List Subquery) (triples : Triples)
      (optionals : List Pattern) (constraints : List Constraint) (unions : List (List Pattern))

/-- A query inside a pattern, which is written without its prefixes. -/
inductive Subquery where
  | mk (prefixes : OrderedMap Text Text) (head : Head) (body : Pattern) (modifiers : Modifiers)

/-- A condition on the solutions: an expression, or whether a pattern has solutions. -/
inductive Constraint where
  | condition (e : Expression)
  | present (p : Pattern)
  | absent (p : Pattern)

end

instance : Inhabited Pattern := ⟨.mk 0 [] ∅ [] [] []⟩

def braced (t : Text) : Text := '{' :: ' ' :: t ++ [' ', '}']

mutual

/-- The text of a pattern, without braces around it. -/
def Pattern.text : Pattern → Text
  | .mk _ subqueries triples optionals constraints unions =>
      spaced (subqueryTexts subqueries ++ triples.texts ++ optionalTexts optionals ++
        constraintTexts constraints ++ unionTexts unions)

/-- The parts of the text of a query inside a pattern. -/
def Subquery.texts : Subquery → List Text
  | .mk _ head body modifiers =>
      head.text :: ("WHERE ".toList ++ braced body.text) :: modifiers.texts

def Constraint.text : Constraint → Text
  | .condition e => "FILTER ".toList ++ Modifiers.bracketed e
  | .present p => "FILTER EXISTS ".toList ++ braced p.text
  | .absent p => "FILTER NOT EXISTS ".toList ++ braced p.text

def subqueryTexts : List Subquery → List Text
  | [] => []
  | s :: ss => braced (spaced s.texts) :: subqueryTexts ss

def optionalTexts : List Pattern → List Text
  | [] => []
  | p :: ps => ("OPTIONAL ".toList ++ braced p.text) :: optionalTexts ps

def constraintTexts : List Constraint → List Text
  | [] => []
  | c :: cs => c.text :: constraintTexts cs

def unionTexts : List (List Pattern) → List Text
  | [] => []
  | ps :: pss => joinWith " UNION ".toList (memberTexts ps) :: unionTexts pss

def memberTexts : List Pattern → List Text
  | [] => []
  | p :: ps => braced p.text :: memberTexts ps

end

def Subquery.text (s : Subquery) : Text := spaced s.texts

theorem subqueryTexts_eq_map (ss : List Subquery) :
    subqueryTexts ss = ss.map fun s ↦ braced s.text := by
  induction ss with
  | nil => simp [subqueryTexts]
  | cons s ss ih => simp [subqueryTexts, Subquery.text, ih]

theorem optionalTexts_eq_map (ps : List Pattern) :
    optionalTexts ps = ps.map fun p ↦ "OPTIONAL ".toList ++ braced p.text := by
  induction ps with
  | nil => simp [optionalTexts]
  | cons p ps ih => simp [optionalTexts, ih]

theorem constraintTexts_eq_map (cs : List Constraint) :
    constraintTexts cs = cs.map Constraint.text := by
  induction cs with
  | nil => simp [constraintTexts]
  | cons c cs ih => simp [constraintTexts, ih]

theorem memberTexts_eq_map (ps : List Pattern) :
    memberTexts ps = ps.map fun p ↦ braced p.text := by
  induction ps with
  | nil => simp [memberTexts]
  | cons p ps ih => simp [memberTexts, ih]

theorem unionTexts_eq_map (pss : List (List Pattern)) :
    unionTexts pss = pss.map fun ps ↦
      joinWith " UNION ".toList (ps.map fun p ↦ braced p.text) := by
  induction pss with
  | nil => simp [unionTexts]
  | cons ps pss ih => simp [unionTexts, memberTexts_eq_map, ih]

end SparqlComposer
