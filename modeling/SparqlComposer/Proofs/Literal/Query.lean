import SparqlComposer.Proofs.Literal.Term
import SparqlComposer.Proofs.Reading.Structure

/-!
# Written queries

The strings of a query without calls are the string parts of the objects in it, in the order in
which they are written: subqueries first, then the triples group by group, then the blocks. Nothing
else that is written has a quotation mark.
-/

namespace SparqlComposer

open Relation SparqlComposer.Action

/-! ## Objects in the order of writing -/

def Triples.objects (ts : Triples) : List Text := ts.toList.map fun t ↦ t.2.2

mutual

/-- The objects of the triples in a pattern, in the queries in it and in its blocks. -/
def Pattern.objects : Pattern → List Text
  | .mk _ subqueries triples optionals constraints unions =>
      subqueryObjects subqueries ++ triples.objects ++ patternObjects optionals ++
        constraintObjects constraints ++ unionObjects unions

def Subquery.objects : Subquery → List Text
  | .mk _ _ body _ => body.objects

def Constraint.objects : Constraint → List Text
  | .condition _ => []
  | .present p | .absent p => p.objects

def subqueryObjects : List Subquery → List Text
  | [] => []
  | r :: rs => r.objects ++ subqueryObjects rs

def patternObjects : List Pattern → List Text
  | [] => []
  | p :: ps => p.objects ++ patternObjects ps

def constraintObjects : List Constraint → List Text
  | [] => []
  | c :: cs => c.objects ++ constraintObjects cs

def unionObjects : List (List Pattern) → List Text
  | [] => []
  | ps :: pss => patternObjects ps ++ unionObjects pss

end

theorem subqueryObjects_eq_flatMap (rs : List Subquery) :
    subqueryObjects rs = rs.flatMap Subquery.objects := by
  induction rs with
  | nil => simp [subqueryObjects]
  | cons r rs ih => simp [subqueryObjects, ih]

theorem patternObjects_eq_flatMap (ps : List Pattern) :
    patternObjects ps = ps.flatMap Pattern.objects := by
  induction ps with
  | nil => simp [patternObjects]
  | cons p ps ih => simp [patternObjects, ih]

theorem constraintObjects_eq_flatMap (cs : List Constraint) :
    constraintObjects cs = cs.flatMap Constraint.objects := by
  induction cs with
  | nil => simp [constraintObjects]
  | cons c cs ih => simp [constraintObjects, ih]

theorem unionObjects_eq_flatMap (pss : List (List Pattern)) :
    unionObjects pss = pss.flatMap fun ps ↦ ps.flatMap Pattern.objects := by
  induction pss with
  | nil => simp [unionObjects]
  | cons ps pss ih => simp [unionObjects, patternObjects_eq_flatMap, ih]

/-- The string parts of texts. -/
def stringParts (ts : List Text) : List Text := ts.filterMap stringPart?

theorem stringParts_append (ts ts' : List Text) :
    stringParts (ts ++ ts') = stringParts ts ++ stringParts ts' :=
  List.filterMap_append

theorem stringParts_flatMap {α : Type} (as : List α) (f : α → List Text) :
    stringParts (as.flatMap f) = as.flatMap fun a ↦ stringParts (f a) :=
  List.filterMap_flatMap

/-! ## Triples -/

theorem written_term {kinds : List Kind} {t : Text} (hkinds : ∀ k ∈ kinds, k.isToken)
    (h : IsTermOf kinds t) : Written t [] := by
  obtain ⟨k, hk, hadmits⟩ := h
  exact written_token (hkinds k hk) hadmits

theorem allWritten_objects {os : List Text} (h : ∀ o ∈ os, IsTermOf objectKinds o) :
    AllWritten os (stringParts os) := by
  induction os with
  | nil => exact .nil
  | cons o os ih =>
      have hkinds : ∀ k ∈ objectKinds, ¬ k.isCall := by decide
      obtain ⟨k, hk, hadmits⟩ := h o List.mem_cons_self
      have hparts : stringParts (o :: os) = (stringPart? o).toList ++ stringParts os := by
        rw [stringParts, List.filterMap_cons]
        cases stringPart? o <;> rfl
      rw [hparts]
      exact .cons (written_of_admits (hkinds k hk) hadmits)
        (ih fun o' ho' ↦ h o' (List.mem_cons_of_mem o ho'))

theorem written_predicate {p : Text} {os : List Text} (hp : IsTermOf predicateKinds p)
    (hos : ∀ o ∈ os, IsTermOf objectKinds o) :
    Written (Triples.predicateText p os) (stringParts os) := by
  have hseparator : Written " , ".toList [] := .plain (by decide) (by decide)
  have hobjects := (allWritten_objects hos).joinWith hseparator
  exact (written_term (by decide) hp).append hobjects.space

theorem written_subject {s : Text} {ps : OrderedMap Text (List Text)}
    (hs : IsTermOf subjectKinds s) (hps : ReadablePredicates ps) :
    Written (Triples.subjectText s ps) (ps.entries.flatMap fun e ↦ stringParts e.2) := by
  have hpredicates := AllWritten.map (f := fun e ↦ Triples.predicateText e.1 e.2)
    fun e he ↦ written_predicate (hps.2 e he).1 (hps.2 e he).2.2
  have hseparator : Written " ; ".toList [] := .plain (by decide) (by decide)
  have hjoined := hpredicates.joinWith hseparator
  have hend : Written " .".toList [] := .plain (by decide) (by decide)
  have hall := ((written_term (by decide) hs).append hjoined.space).append hend
  rwa [List.append_nil, List.nil_append] at hall

theorem allWritten_triples {ts : Triples} (h : ts.Readable) :
    AllWritten ts.texts (stringParts ts.objects) := by
  have hobjects : stringParts ts.objects =
      ts.entries.flatMap fun e ↦ e.2.entries.flatMap fun e' ↦ stringParts e'.2 := by
    simp [Triples.objects, Triples.toList, List.map_flatMap, stringParts_flatMap, Function.comp_def]
  rw [hobjects]
  exact AllWritten.map fun e he ↦ written_subject (h e he).1 (h e he).2

/-! ## Expressions -/

/-- The kinds of the expressions that stand outside triples. -/
def clauseKinds : List Kind := describedKinds ++ conditionKinds

theorem Expression.IsOf.mono {kinds kinds' : List Kind} {e : Expression} (h : e.IsOf kinds)
    (hkinds : kinds ⊆ kinds') : e.IsOf kinds' := by
  obtain ⟨k, hk, hadmits, he⟩ := h
  exact ⟨k, hkinds hk, hadmits, he⟩

theorem written_expression {e : Expression} (h : e.IsOf clauseKinds) (hcall : ¬ e.kind.isCall) :
    Written e.text [] := by
  obtain ⟨k, hk, hadmits, he⟩ := h
  have hkind : e.kind = k := by rw [he, Expression.kind_ofKind]
  have htoken : ∀ k ∈ clauseKinds, ¬ k.isCall → k.isToken := by decide
  exact written_token (htoken k hk (hkind ▸ hcall)) hadmits

def Modifiers.expressions (m : Modifiers) : List Expression :=
  m.groupBy.getD [] ++ m.having.toList ++ (m.orderBy.map Prod.snd).toList

namespace Subquery

/-- The expressions of the head and of the modifiers. -/
def clauses : Subquery → List Expression
  | .mk _ head _ modifiers => head.projection ++ modifiers.expressions

end Subquery

namespace Pattern

def conditions : Pattern → List Expression
  | .mk _ _ _ _ constraints _ => constraints.filterMap Constraint.condition?

/-- Every expression in a pattern, in its blocks and in the queries in it, is of a kind that may
stand there. -/
inductive Admitted : Pattern → Prop where
  | mk {p : Pattern} (htriples : p.triples.Readable)
      (hconditions : ∀ e ∈ p.conditions, e.IsOf conditionKinds)
      (hblocks : ∀ b ∈ p.blocks, b.Admitted)
      (hclauses : ∀ r ∈ p.subqueries, ∀ e ∈ r.clauses, e.IsOf clauseKinds)
      (hbodies : ∀ r ∈ p.subqueries, r.body.Admitted) : p.Admitted

end Pattern

/-- No expression of a query is a call, and none of a query that stands in it. -/
def Subquery.CallFree (r : Subquery) : Prop :=
  ∀ a, r.Nests a → (∀ e ∈ a.clauses, ¬ e.kind.isCall) ∧
    ∀ b, a.body.HasBlock b → ∀ e ∈ b.conditions, ¬ e.kind.isCall

/-- No condition in a pattern or its blocks is a call, and no expression of a query in them. -/
def Pattern.CallFree (p : Pattern) : Prop :=
  ∀ b, p.HasBlock b → (∀ e ∈ b.conditions, ¬ e.kind.isCall) ∧ ∀ a ∈ b.subqueries, a.CallFree

theorem Subquery.CallFree.body {r : Subquery} (h : r.CallFree) : r.body.CallFree := by
  intro b hb
  refine ⟨(h r .refl).2 b hb, fun a ha a' ha' ↦ h a' ?_⟩
  exact .head ⟨b, hb, ha⟩ ha'

theorem Pattern.CallFree.block {p b : Pattern} (h : p.CallFree) (hb : b ∈ p.blocks) : b.CallFree :=
  fun b' hb' ↦ h b' (.head hb hb')

theorem Pattern.conditions_eq_nil {p : Pattern} (hplain : p.isPlain) : p.conditions = [] := by
  obtain ⟨ledger, subqueries, triples, optionals, constraints, unions⟩ := p
  obtain ⟨-, -, hconstraints, -⟩ := isPlain_mk.mp hplain
  refine List.filterMap_eq_nil_iff.mpr fun c hc ↦ ?_
  cases c with
  | condition e => cases hconstraints _ hc
  | present p | absent p => rfl

/-- Where the pattern of a query holds triples and blocks only, calls stand in its clauses if at
all. -/
theorem Subquery.callFree_of_isPlain {r : Subquery} (hclauses : ∀ e ∈ r.clauses, ¬ e.kind.isCall)
    (hplain : r.body.isPlain) : r.CallFree := by
  have hblocks (b : Pattern) (hb : r.body.HasBlock b) : b.isPlain := by
    induction hb with
    | refl => exact hplain
    | tail _ hb ih => exact Pattern.isPlain_of_mem_blocks ih hb
  intro a ha
  rcases ReflTransGen.cases_head_iff.mp ha with rfl | ⟨c, ⟨b, hb, hc⟩, -⟩
  · refine ⟨hclauses, fun b hb e he ↦ ?_⟩
    rw [Pattern.conditions_eq_nil (hblocks b hb)] at he
    cases he
  · obtain ⟨ledger, subqueries, triples, optionals, constraints, unions⟩ := b
    obtain ⟨rfl, -⟩ := Pattern.isPlain_mk.mp (hblocks _ hb)
    cases hc

/-! ## Patterns -/

theorem Written.braced {t : Text} {ws : List Text} (h : Written t ws) : Written (braced t) ws := by
  have hend : Written [' ', '}'] [] := .plain (by decide) (by decide)
  have hall := (h.append hend).space.cons (c := '{') (by decide)
  rwa [List.append_nil] at hall

theorem written_bracketed {e : Expression} (h : Written e.text []) :
    Written (Modifiers.bracketed e) [] := by
  have hend : Written [')'] [] := .plain (by decide) (by decide)
  exact (h.append hend).cons (c := '(') (by decide)

theorem Head.written {h : Head} (hprojection : ∀ e ∈ h.projection, Written e.text []) :
    Written h.text [] := by
  have hform : Written h.form.keyword [] := by
    cases h.form <;> exact .plain (by decide) (by decide)
  have huniqueness : ∀ t ∈ (h.uniqueness.map Uniqueness.keyword).toList, Written t [] := by
    intro t ht
    obtain ⟨u, -, rfl⟩ := Option.map_eq_some_iff.mp (Option.mem_toList.mp ht)
    cases u <;> exact .plain (by decide) (by decide)
  refine AllWritten.spaced (.of_forall fun t ht ↦ ?_)
  rcases List.mem_append.mp ht with ht | ht
  · rcases List.mem_cons.mp ht with rfl | ht
    · exact hform
    · exact huniqueness t ht
  · split at ht
    · obtain rfl := List.mem_singleton.mp ht
      exact .plain (by decide) (by decide)
    · obtain ⟨e, he, rfl⟩ := List.mem_map.mp ht
      exact hprojection e he

theorem Modifiers.written_sliceText (slice : Slice) (n : Nat) : Written (sliceText slice n) [] := by
  have hkeyword : Written slice.keyword [] := by
    cases slice <;> exact .plain (by decide) (by decide)
  have hdigits : ∀ c ∈ Nat.toDigits 10 n, c.isDigit := fun c hc ↦
    Nat.isDigit_of_mem_toDigits (by decide) (by decide) hc
  have hcount : Written (Nat.toDigits 10 n) [] :=
    .plain (fun hmem ↦ absurd (hdigits _ hmem) (by decide))
      fun hmem ↦ absurd (hdigits _ hmem) (by decide)
  exact hkeyword.append hcount.space

theorem Modifiers.allWritten {m : Modifiers} (h : ∀ e ∈ m.expressions, Written e.text []) :
    AllWritten m.texts [] := by
  simp only [expressions, List.mem_append, Option.mem_toList, Option.map_eq_some_iff] at h
  refine .of_forall fun t ht ↦ ?_
  simp only [texts, List.mem_append, Option.mem_toList, Option.map_eq_some_iff] at ht
  rcases ht with (((⟨es, hes, rfl⟩ | ⟨e, he, rfl⟩) | ⟨e, he, rfl⟩) | ⟨n, -, rfl⟩) | ⟨n, -, rfl⟩
  · have hall : AllWritten (es.map Expression.text) [] := .of_forall fun t ht ↦ by
      obtain ⟨e, he, rfl⟩ := List.mem_map.mp ht
      exact h e (.inl (.inl (by rwa [hes])))
    exact (Written.plain (t := "GROUP BY ".toList) (by decide) (by decide)).append hall.spaced
  · have hcondition := written_bracketed (h e (.inl (.inr he)))
    exact (Written.plain (t := "HAVING ".toList) (by decide) (by decide)).append hcondition
  · obtain ⟨d, e⟩ := e
    have hdirection : Written d.keyword [] := by
      cases d <;> exact .plain (by decide) (by decide)
    have hkey := written_bracketed (h e (.inr ⟨_, he, rfl⟩))
    exact ((Written.plain (t := "ORDER BY ".toList) (by decide) (by decide)).append
      hdirection).append hkey.space
  · exact written_sliceText .limit n
  · exact written_sliceText .offset n

theorem Subquery.allWritten {r : Subquery} (hclauses : ∀ e ∈ r.clauses, Written e.text [])
    (hbody : Written r.body.text (stringParts r.body.objects)) :
    AllWritten r.texts (stringParts r.objects) := by
  obtain ⟨prefixes, head, body, modifiers⟩ := r
  have hhead := Head.written fun e he ↦ hclauses e (List.mem_append_left _ he)
  have hmodifiers := Modifiers.allWritten fun e he ↦ hclauses e (List.mem_append_right _ he)
  have hwhere := (Written.plain (t := "WHERE ".toList) (by decide) (by decide)).append hbody.braced
  have hall := AllWritten.cons hhead (.cons hwhere hmodifiers)
  rw [Subquery.texts, Subquery.objects]
  rwa [List.append_nil] at hall

theorem Constraint.written {c : Constraint}
    (hcondition : ∀ e, c.condition? = some e → Written e.text [])
    (hblock : ∀ b, c.block? = some b → Written (braced b.text) (stringParts b.objects)) :
    Written c.text (stringParts c.objects) := by
  cases c with
  | condition e =>
      have hkeyword : Written "FILTER ".toList [] := .plain (by decide) (by decide)
      exact hkeyword.append (written_bracketed (hcondition e rfl))
  | present b =>
      have hkeyword : Written "FILTER EXISTS ".toList [] := .plain (by decide) (by decide)
      exact hkeyword.append (hblock b rfl)
  | absent b =>
      have hkeyword : Written "FILTER NOT EXISTS ".toList [] := .plain (by decide) (by decide)
      exact hkeyword.append (hblock b rfl)

theorem Pattern.Admitted.written {p : Pattern} (h : p.Admitted) (hfree : p.CallFree) :
    Written p.text (stringParts p.objects) := by
  -- The induction goes into the blocks and into the queries in the pattern.
  induction h with
  | @mk p htriples hconditions hblocks hclauses hbodies ihblocks ihbodies =>
      obtain ⟨ledger, subqueries, triples, optionals, constraints, unions⟩ := p
      have hblock (b : Pattern)
          (hb : b ∈ (Pattern.mk ledger subqueries triples optionals constraints unions).blocks) :
          Written (braced b.text) (stringParts b.objects) :=
        (ihblocks b hb (hfree.block hb)).braced
      simp only [Pattern.blocks, List.mem_append] at hblock
      have hsubqueries : AllWritten (subqueryTexts subqueries)
          (stringParts (subqueryObjects subqueries)) := by
        rw [subqueryTexts_eq_map, subqueryObjects_eq_flatMap, stringParts_flatMap]
        refine AllWritten.map fun r hr ↦ ?_
        have hr' := (hfree _ .refl).2 r hr
        exact (Subquery.allWritten
          (fun e he ↦ written_expression (hclauses r hr e he) ((hr' r .refl).1 e he))
          (ihbodies r hr hr'.body)).spaced.braced
      have hoptionals : AllWritten (optionalTexts optionals)
          (stringParts (patternObjects optionals)) := by
        rw [optionalTexts_eq_map, patternObjects_eq_flatMap, stringParts_flatMap]
        refine AllWritten.map fun b hb ↦ ?_
        exact (Written.plain (t := "OPTIONAL ".toList) (by decide) (by decide)).append
          (hblock b (.inl (.inl hb)))
      have hconstraints : AllWritten (constraintTexts constraints)
          (stringParts (constraintObjects constraints)) := by
        rw [constraintTexts_eq_map, constraintObjects_eq_flatMap, stringParts_flatMap]
        refine AllWritten.map fun c hc ↦ ?_
        refine Constraint.written (fun e he ↦ ?_) fun b hb ↦ ?_
        · have hmem : e ∈ constraints.filterMap Constraint.condition? :=
            List.mem_filterMap.mpr ⟨c, hc, he⟩
          have hkinds : conditionKinds ⊆ clauseKinds := List.subset_append_right _ _
          exact written_expression ((hconditions e hmem).mono hkinds) ((hfree _ .refl).1 e hmem)
        · exact hblock b (.inl (.inr (List.mem_filterMap.mpr ⟨c, hc, hb⟩)))
      have hunions : AllWritten (unionTexts unions) (stringParts (unionObjects unions)) := by
        rw [unionTexts_eq_map, unionObjects_eq_flatMap, stringParts_flatMap]
        refine AllWritten.map fun ps hps ↦ ?_
        rw [stringParts_flatMap]
        have hmembers := AllWritten.map fun b hb ↦
          hblock b (.inr (List.mem_flatten.mpr ⟨ps, hps, hb⟩))
        exact hmembers.joinWith (.plain (by decide) (by decide))
      rw [Pattern.text, Pattern.objects]
      simp only [stringParts_append]
      exact ((((hsubqueries.append (allWritten_triples htriples)).append hoptionals).append
        hconstraints).append hunions).spaced

end SparqlComposer
