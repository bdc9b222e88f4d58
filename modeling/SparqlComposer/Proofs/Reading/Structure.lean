import SparqlComposer.Graph
import SparqlComposer.Proofs.Prefix.Scope
import SparqlComposer.Proofs.Reading.Group

/-!
# The structure of a pattern

The structure of a pattern is what it holds, without the ledgers that its names were entered into. A
pattern is plain when neither it nor a block in it holds a condition or a query: then all that it
holds is triples and blocks.
-/

namespace SparqlComposer

/-! ## Forgetting the ledgers -/

mutual

/-- A pattern without its ledgers; queries in it are left as they are. -/
def Pattern.erased : Pattern → Pattern
  | .mk _ subqueries triples optionals constraints unions =>
      .mk 0 subqueries triples (erasedAll optionals) (erasedConstraints constraints)
        (erasedUnions unions)

def Constraint.erased : Constraint → Constraint
  | .condition e => .condition e
  | .present p => .present p.erased
  | .absent p => .absent p.erased

def erasedAll : List Pattern → List Pattern
  | [] => []
  | p :: ps => p.erased :: erasedAll ps

def erasedConstraints : List Constraint → List Constraint
  | [] => []
  | c :: cs => c.erased :: erasedConstraints cs

def erasedUnions : List (List Pattern) → List (List Pattern)
  | [] => []
  | ps :: pss => erasedAll ps :: erasedUnions pss

end

theorem erasedAll_eq_map (ps : List Pattern) : erasedAll ps = ps.map Pattern.erased := by
  induction ps with
  | nil => simp [erasedAll]
  | cons p ps ih => simp [erasedAll, ih]

theorem erasedConstraints_eq_map (cs : List Constraint) :
    erasedConstraints cs = cs.map Constraint.erased := by
  induction cs with
  | nil => simp [erasedConstraints]
  | cons c cs ih => simp [erasedConstraints, ih]

theorem erasedUnions_eq_map (pss : List (List Pattern)) :
    erasedUnions pss = pss.map (List.map Pattern.erased) := by
  induction pss with
  | nil => simp [erasedUnions]
  | cons ps pss ih => simp [erasedUnions, erasedAll_eq_map, ih]

mutual

/-- The ledgers of a pattern are not written. -/
theorem Pattern.text_erased : (p : Pattern) → p.erased.text = p.text
  | .mk _ _ _ optionals constraints unions => by
      rw [Pattern.erased, Pattern.text, Pattern.text, optionalTexts_erased optionals,
        constraintTexts_erased constraints, unionTexts_erased unions]

theorem Constraint.text_erased : (c : Constraint) → c.erased.text = c.text
  | .condition _ => rfl
  | .present p =>
      congrArg (fun t ↦ "FILTER EXISTS ".toList ++ braced t) (Pattern.text_erased p)
  | .absent p =>
      congrArg (fun t ↦ "FILTER NOT EXISTS ".toList ++ braced t) (Pattern.text_erased p)

theorem optionalTexts_erased : (ps : List Pattern) →
    optionalTexts (erasedAll ps) = optionalTexts ps
  | [] => rfl
  | p :: ps => by
      rw [erasedAll, optionalTexts, optionalTexts, Pattern.text_erased p, optionalTexts_erased ps]

theorem constraintTexts_erased : (cs : List Constraint) →
    constraintTexts (erasedConstraints cs) = constraintTexts cs
  | [] => rfl
  | c :: cs => by
      rw [erasedConstraints, constraintTexts, constraintTexts, Constraint.text_erased c,
        constraintTexts_erased cs]

theorem memberTexts_erased : (ps : List Pattern) → memberTexts (erasedAll ps) = memberTexts ps
  | [] => rfl
  | p :: ps => by
      rw [erasedAll, memberTexts, memberTexts, Pattern.text_erased p, memberTexts_erased ps]

theorem unionTexts_erased : (pss : List (List Pattern)) →
    unionTexts (erasedUnions pss) = unionTexts pss
  | [] => rfl
  | ps :: pss => by
      rw [erasedUnions, unionTexts, unionTexts, memberTexts_erased ps, unionTexts_erased pss]

end

/-! ## Plain patterns -/

mutual

/-- Whether a pattern and all blocks in it hold neither conditions nor queries. -/
def Pattern.isPlain : Pattern → Bool
  | .mk _ subqueries _ optionals constraints unions =>
      subqueries.isEmpty && arePlain optionals && arePlainConstraints constraints &&
        arePlainUnions unions

def Constraint.isPlain : Constraint → Bool
  | .condition _ => false
  | .present p | .absent p => p.isPlain

def arePlain : List Pattern → Bool
  | [] => true
  | p :: ps => p.isPlain && arePlain ps

def arePlainConstraints : List Constraint → Bool
  | [] => true
  | c :: cs => c.isPlain && arePlainConstraints cs

def arePlainUnions : List (List Pattern) → Bool
  | [] => true
  | ps :: pss => arePlain ps && arePlainUnions pss

end

theorem arePlain_iff {ps : List Pattern} : arePlain ps ↔ ∀ p ∈ ps, p.isPlain := by
  induction ps with
  | nil => simp [arePlain]
  | cons p ps ih => simp [arePlain, ih]

theorem arePlainConstraints_iff {cs : List Constraint} :
    arePlainConstraints cs ↔ ∀ c ∈ cs, c.isPlain := by
  induction cs with
  | nil => simp [arePlainConstraints]
  | cons c cs ih => simp [arePlainConstraints, ih]

theorem arePlainUnions_iff {pss : List (List Pattern)} :
    arePlainUnions pss ↔ ∀ ps ∈ pss, ∀ p ∈ ps, p.isPlain := by
  induction pss with
  | nil => simp [arePlainUnions]
  | cons ps pss ih => simp [arePlainUnions, arePlain_iff, ih]

theorem Pattern.isPlain_mk {ledger : LedgerId} {subqueries : List Subquery} {triples : Triples}
    {optionals : List Pattern} {constraints : List Constraint} {unions : List (List Pattern)} :
    (Pattern.mk ledger subqueries triples optionals constraints unions).isPlain ↔
      subqueries = [] ∧ (∀ p ∈ optionals, p.isPlain) ∧ (∀ c ∈ constraints, c.isPlain) ∧
        ∀ ps ∈ unions, ∀ p ∈ ps, p.isPlain := by
  simp [Pattern.isPlain, arePlain_iff, arePlainConstraints_iff, arePlainUnions_iff, and_assoc]

theorem Constraint.isPlain_of_block? {c : Constraint} {p : Pattern} (hplain : c.isPlain)
    (h : c.block? = some p) : p.isPlain := by
  cases c with
  | condition e => exact nomatch h
  | present q | absent q =>
      obtain rfl := Option.some.inj h
      simpa [Constraint.isPlain] using hplain

theorem Pattern.isPlain_of_mem_blocks {p b : Pattern} (hplain : p.isPlain) (hb : b ∈ p.blocks) :
    b.isPlain := by
  obtain ⟨ledger, subqueries, triples, optionals, constraints, unions⟩ := p
  obtain ⟨-, hoptionals, hconstraints, hunions⟩ := isPlain_mk.mp hplain
  rcases List.mem_append.mp hb with hb | hb
  · rcases List.mem_append.mp hb with hb | hb
    · exact hoptionals b hb
    · obtain ⟨c, hc, hblock⟩ := List.mem_filterMap.mp hb
      exact Constraint.isPlain_of_block? (hconstraints c hc) hblock
  · obtain ⟨ps, hps, hb⟩ := List.mem_flatten.mp hb
    exact hunions ps hps b hb

namespace Graph

/-- What a graph holds besides queries, without ledgers. -/
def content (g : Graph) : Pattern := (g.pattern []).erased

def isPlain (g : Graph) : Bool := g.subqueries.isEmpty && (g.pattern []).isPlain

end Graph

/-! ## Patterns that can be read -/

namespace Pattern

def triples : Pattern → Triples
  | .mk _ _ triples _ _ _ => triples

def unions : Pattern → List (List Pattern)
  | .mk _ _ _ _ _ unions => unions

/-- All groups of triples can be read, in the pattern and its blocks, and unions have members. -/
inductive Readable : Pattern → Prop where
  | mk {p : Pattern} (htriples : p.triples.Readable) (hunions : ∀ ps ∈ p.unions, ps ≠ [])
      (hblocks : ∀ b ∈ p.blocks, b.Readable) : p.Readable

end Pattern

end SparqlComposer
