import Mathlib.Data.List.Nodup
import Mathlib.Logic.Relation
import SparqlComposer.Query

/-!
# Where prefixes are used

The names in a written query belong to scopes: the query itself and every query that is nested in
it. The blocks of a pattern, which are its optional parts, the patterns it demands or excludes and
the members of its unions, belong to the scope that they stand in, but each of them was built on a
ledger that may be another one. What is used in a scope is therefore told together with the ledger.
-/

namespace SparqlComposer

open Relation

def Triples.terms (ts : Triples) : List Text :=
  ts.entries.flatMap fun (subject, predicates) ↦
    subject :: predicates.entries.flatMap fun (predicate, objects) ↦ predicate :: objects

namespace Constraint

def condition? : Constraint → Option Expression
  | .condition e => some e
  | _ => none

def block? : Constraint → Option Pattern
  | .condition _ => none
  | .present p | .absent p => some p

end Constraint

namespace Pattern

def ledger : Pattern → LedgerId
  | .mk ledger _ _ _ _ _ => ledger

def subqueries : Pattern → List Subquery
  | .mk _ subqueries _ _ _ _ => subqueries

/-- The patterns that stand between braces of their own in a pattern, subqueries apart. -/
def blocks : Pattern → List Pattern
  | .mk _ _ _ optionals constraints unions =>
      optionals ++ constraints.filterMap Constraint.block? ++ unions.flatten

/-- The texts that stand in a pattern itself, outside its blocks and subqueries. -/
def terms : Pattern → List Text
  | .mk _ _ triples _ constraints _ =>
      triples.terms ++ (constraints.filterMap Constraint.condition?).map Expression.text

/-- A pattern is another one, or a block of it at any depth. -/
def HasBlock : Pattern → Pattern → Prop := ReflTransGen fun p b ↦ b ∈ p.blocks

/-- A prefix is used in a pattern or its blocks, in one that was built on the ledger. -/
def Uses (p : Pattern) (l : LedgerId) (n : Text) : Prop :=
  ∃ b, p.HasBlock b ∧ b.ledger = l ∧ ∃ t ∈ b.terms, n ∈ prefixesOf t

theorem uses_iff {p : Pattern} {l : LedgerId} {n : Text} :
    p.Uses l n ↔ (p.ledger = l ∧ ∃ t ∈ p.terms, n ∈ prefixesOf t) ∨ ∃ b ∈ p.blocks, b.Uses l n := by
  constructor
  · rintro ⟨b, hblock, huse⟩
    rcases ReflTransGen.cases_head_iff.mp hblock with rfl | ⟨c, hc, hblock⟩
    · exact .inl huse
    · exact .inr ⟨c, hc, b, hblock, huse⟩
  · rintro (huse | ⟨c, hc, b, hblock, huse⟩)
    · exact ⟨p, .refl, huse⟩
    · exact ⟨b, .head hc hblock, huse⟩

end Pattern

def Head.terms (h : Head) : List Text := h.projection.map Expression.text

def Modifiers.terms (m : Modifiers) : List Text :=
  (m.groupBy.getD []).map Expression.text ++ (m.having.map Expression.text).toList ++
    (m.orderBy.map fun (_, e) ↦ e.text).toList

namespace Subquery

def prefixes : Subquery → OrderedMap Text Text
  | .mk prefixes _ _ _ => prefixes

def body : Subquery → Pattern
  | .mk _ _ body _ => body

def clauseTerms : Subquery → List Text
  | .mk _ head _ modifiers => head.terms ++ modifiers.terms

def Binds (r : Subquery) (n iri : Text) : Prop := (n, iri) ∈ r.prefixes.entries

/-- A prefix is used in the query itself, in what was built on the ledger. -/
def Uses (r : Subquery) (l : LedgerId) (n : Text) : Prop :=
  r.body.Uses l n ∨ r.body.ledger = l ∧ ∃ t ∈ r.clauseTerms, n ∈ prefixesOf t

/-- A query is another one, or is attached to it, or to one that is attached to it, and so on. -/
def Attaches : Subquery → Subquery → Prop := ReflTransGen fun r a ↦ a ∈ r.body.subqueries

/-- A query is another one, or stands somewhere in it, in whatever blocks. -/
def Nests : Subquery → Subquery → Prop :=
  ReflTransGen fun r a ↦ ∃ b, r.body.HasBlock b ∧ a ∈ b.subqueries

theorem Attaches.nests {r a : Subquery} (h : r.Attaches a) : r.Nests a :=
  ReflTransGen.mono (fun r _ ha ↦ ⟨r.body, .refl, ha⟩) r a h

theorem Binds.unique {r : Subquery} {n iri iri' : Text} (h : r.Binds n iri) (h' : r.Binds n iri') :
    iri = iri' := by
  have heq : (n, iri) = (n, iri') := List.inj_on_of_nodup_map r.prefixes.nodup h h' rfl
  exact congrArg Prod.snd heq

/-- Every prefix that is used anywhere in a written query is bound by its header, and to no other IRI
than the query it is used in binds it to. -/
def PrefixSound (r : Subquery) : Prop :=
  ∀ a, r.Nests a → ∀ l n, a.Uses l n →
    ∃ iri, r.Binds n iri ∧ ∀ iri', a.Binds n iri' → iri' = iri

/-- The header binds the prefixes of the attached queries as these do, and every prefix that came in
with a block from another ledger, or with a query inside a block. For these the condition is soundness
itself, since nothing is known about what their ledgers bind: neither is validated with the query. -/
def PrefixesAgree (r : Subquery) : Prop :=
  (∀ a, r.Attaches a → ∀ n, a.Uses a.body.ledger n → ∀ iri, a.Binds n iri → r.Binds n iri) ∧
    ∀ a, r.Nests a → ∀ l n, a.Uses l n → ¬ r.Attaches a ∨ l ≠ a.body.ledger →
      ∃ iri, r.Binds n iri ∧ ∀ iri', a.Binds n iri' → iri' = iri

/-- Where attached queries bind what they use themselves, agreement is all that soundness takes. -/
theorem prefixSound_iff {r : Subquery}
    (h : ∀ a, r.Attaches a → ∀ n, a.Uses a.body.ledger n → ∃ iri, a.Binds n iri) :
    r.PrefixSound ↔ r.PrefixesAgree := by
  constructor
  · intro hsound
    refine ⟨fun a ha n huse iri hiri ↦ ?_, fun a ha l n huse _ ↦ hsound a ha l n huse⟩
    obtain ⟨iri', hr, hsame⟩ := hsound a ha.nests _ n huse
    rwa [hsame iri hiri]
  · rintro ⟨hown, hother⟩ a ha l n huse
    by_cases hattached : r.Attaches a
    · by_cases hl : l = a.body.ledger
      · subst hl
        obtain ⟨iri, hiri⟩ := h a hattached n huse
        exact ⟨iri, hown a hattached n huse iri hiri, fun iri' hiri' ↦ hiri'.unique hiri⟩
      · exact hother a ha l n huse (.inr hl)
    · exact hother a ha l n huse (.inl hattached)

end Subquery

/-! ## Graphs -/

namespace Graph

def Uses (g : Graph) (l : LedgerId) (n : Text) : Prop := (g.pattern []).Uses l n

variable {g : Graph} {l : LedgerId} {n : Text}

/-- What is used in a graph does not depend on the queries in it. -/
theorem uses_pattern (inner : List Subquery) : (g.pattern inner).Uses l n ↔ g.Uses l n := by
  rw [Graph.Uses, Pattern.uses_iff, Pattern.uses_iff]
  rfl

theorem uses_iff : g.Uses l n ↔
    (g.ledger = l ∧ ∃ t ∈ (g.pattern []).terms, n ∈ prefixesOf t) ∨
      ∃ b ∈ (g.pattern []).blocks, b.Uses l n :=
  Pattern.uses_iff

theorem not_uses_new {ledger : LedgerId} : ¬ ({ ledger } : Graph).Uses l n := by
  rw [uses_iff]
  simp [pattern, Pattern.terms, Pattern.blocks, Triples.terms]

end Graph

end SparqlComposer
