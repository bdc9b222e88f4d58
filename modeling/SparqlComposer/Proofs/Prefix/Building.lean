import SparqlComposer.Proofs.OrderedMap
import SparqlComposer.Proofs.Prefix.Scope
import SparqlComposer.Proofs.Session.Change

/-!
# What building adds to a scope

A triple and a condition add the prefixes in their texts to those that are used on the ledger of
the graph, and an embedded pattern adds those that are used in it.
-/

namespace SparqlComposer

open SparqlComposer.Action

namespace Triples

theorem mem_terms {ts : Triples} {t : Text} : t ∈ ts.terms ↔
    ∃ e ∈ ts.entries, t = e.1 ∨ ∃ e' ∈ e.2.entries, t = e'.1 ∨ t ∈ e'.2 := by
  simp [terms]

theorem mem_terms_add {ts : Triples} {x y z t : Text} (h : t ∈ (ts.add x y z).terms) :
    t ∈ ts.terms ∨ t = x ∨ t = y ∨ t = z := by
  obtain ⟨e, he, ht⟩ := mem_terms.mp h
  rcases OrderedMap.mem_alterEntries he with he | ⟨o, rfl, ho⟩
  · exact .inl (mem_terms.mpr ⟨e, he, ht⟩)
  rcases ht with rfl | ⟨e', he', ht⟩
  · exact .inr (.inl rfl)
  -- What the subject had before is in the old triples.
  have hold : ∀ e'' ∈ (o.getD ∅).entries, t = e''.1 ∨ t ∈ e''.2 → t ∈ ts.terms := by
    intro e'' he'' ht'
    cases o with
    | none => exact nomatch he''
    | some predicates =>
        exact mem_terms.mpr ⟨_, ho predicates rfl, .inr ⟨e'', he'', ht'⟩⟩
  rcases OrderedMap.mem_alterEntries he' with he' | ⟨o', rfl, ho'⟩
  · exact .inl (hold e' he' ht)
  rcases ht with rfl | ht
  · exact .inr (.inr (.inl rfl))
  rcases List.mem_append.mp ht with ht | ht
  · cases o' with
    | none => exact nomatch ht
    | some objects => exact .inl (hold _ (ho' objects rfl) (.inr ht))
  · exact .inr (.inr (.inr (List.mem_singleton.mp ht)))

end Triples

/-! ## What building adds -/

theorem mem_blocks_embedding (k : Embedding) {g : Graph} {p b : Pattern} :
    b ∈ ((k.add p g).pattern []).blocks ↔ b ∈ (g.pattern []).blocks ∨ b = p := by
  cases k <;>
    simp only [Embedding.add, Graph.addConstraint, Graph.addOptional, Graph.pattern,
      Pattern.blocks, List.filterMap_append, List.filterMap_cons, List.filterMap_nil,
      Constraint.block?, List.mem_append, List.mem_singleton] <;>
    tauto

theorem mem_blocks_addUnion {g : Graph} {ps : List Pattern} {b : Pattern} :
    b ∈ ((g.addUnion ps).pattern []).blocks ↔ b ∈ (g.pattern []).blocks ∨ b ∈ ps := by
  simp [Graph.addUnion, Graph.pattern, Pattern.blocks, or_assoc]

theorem mem_blocks_addCondition {g : Graph} {e : Expression} {b : Pattern} :
    b ∈ ((g.addConstraint (.condition e)).pattern []).blocks ↔ b ∈ (g.pattern []).blocks := by
  simp [Graph.addConstraint, Graph.pattern, Pattern.blocks, Constraint.block?]

section Building

variable {s : Session} {site : Site} {f : Ledger → Ledger} {g : Graph → Graph} {graph : Graph}

theorem Building.triples_eq (h : Building s site f g) :
    (g graph).triples = graph.triples ∨ ∃ x y z : Expression, x.IsOf subjectKinds ∧
      y.IsOf predicateKinds ∧ z.IsOf objectKinds ∧
      (g graph).triples = graph.triples.add x.text y.text z.text := by
  cases h with
  | triple hx hy hz => exact .inr ⟨_, _, _, hx, hy, hz, rfl⟩
  | block k _ _ => cases k <;> exact .inl rfl
  | tripleBlock k _ _ _ => cases k <;> exact .inl rfl
  | _ => exact .inl rfl

/-- The blocks that are built into a graph are patterns of other graphs, or made of one triple. -/
theorem Building.mem_blocks (h : Building s site f g) {b : Pattern}
    (hb : b ∈ ((g graph).pattern []).blocks) :
    b ∈ (graph.pattern []).blocks ∨ (∃ id, s.pattern (s.graph id) = .ok b) ∨
      ∃ x y z : Expression, x.IsOf subjectKinds ∧ y.IsOf predicateKinds ∧ z.IsOf objectKinds ∧
        b = triplePattern (s.graphAt site).ledger x y z := by
  cases h with
  | condition _ => exact .inl (mem_blocks_addCondition.mp hb)
  | block k _ hp =>
      rcases (mem_blocks_embedding k).mp hb with hb | rfl
      · exact .inl hb
      · exact .inr (.inl ⟨_, hp⟩)
  | tripleBlock k hx hy hz =>
      rcases (mem_blocks_embedding k).mp hb with hb | rfl
      · exact .inl hb
      · exact .inr (.inr ⟨_, _, _, hx, hy, hz, rfl⟩)
  | union _ _ hps =>
      rcases mem_blocks_addUnion.mp hb with hb | hb
      · exact .inl hb
      · obtain ⟨id, -, hp⟩ := exists_of_forall₂_right (Except.mapM_eq_ok_iff.mp hps) hb
        exact .inr (.inl ⟨id, hp⟩)
  | _ => exact .inl hb

theorem Building.mem_conditions (h : Building s site f g) {e : Expression}
    (he : e ∈ (g graph).constraints.filterMap Constraint.condition?) :
    e ∈ graph.constraints.filterMap Constraint.condition? ∨ e.IsOf conditionKinds := by
  have hblock (p : Pattern) (k : Embedding) :
      (k.add p graph).constraints.filterMap Constraint.condition? =
        graph.constraints.filterMap Constraint.condition? := by
    cases k <;> simp [Embedding.add, Graph.addConstraint, Graph.addOptional, Constraint.condition?]
  cases h with
  | condition hcondition =>
      have happend := List.filterMap_append ▸ he
      rcases List.mem_append.mp happend with he | he
      · exact .inl he
      · obtain rfl := List.mem_singleton.mp he
        exact .inr hcondition
  | block k _ _ => exact .inl (hblock _ k ▸ he)
  | tripleBlock k _ _ _ => exact .inl (hblock _ k ▸ he)
  | _ => exact .inl he

theorem Building.ne_nil_of_mem_unions (h : Building s site f g) {ps : List Pattern}
    (hps : ps ∈ (g graph).unions) : ps ∈ graph.unions ∨ ps ≠ [] := by
  cases h with
  | block k _ _ => cases k <;> exact .inl hps
  | tripleBlock k _ _ _ => cases k <;> exact .inl hps
  | union hne _ hmembers =>
      rcases List.mem_append.mp hps with hps | hps
      · exact .inl hps
      · obtain rfl := List.mem_singleton.mp hps
        refine .inr ?_
        rintro rfl
        exact hne (List.forall₂_nil_right_iff.mp (Except.mapM_eq_ok_iff.mp hmembers))
  | _ => exact .inl hps

end Building

namespace Graph

variable {g : Graph} {l : LedgerId} {n : Text}

theorem uses_addTriple {x y z : Text} (h : (g.addTriple x y z).Uses l n) :
    g.Uses l n ∨ g.ledger = l ∧ ∃ t ∈ [x, y, z], n ∈ prefixesOf t := by
  rw [uses_iff] at h ⊢
  rcases h with ⟨hl, t, ht, hn⟩ | hblock
  · rcases List.mem_append.mp ht with ht | ht
    · rcases Triples.mem_terms_add ht with ht | ht
      · exact .inl (.inl ⟨hl, t, List.mem_append_left _ ht, hn⟩)
      · exact .inr ⟨hl, t, by simpa using ht, hn⟩
    · exact .inl (.inl ⟨hl, t, List.mem_append_right _ ht, hn⟩)
  · exact .inl (.inr hblock)

theorem uses_addCondition {e : Expression} (h : (g.addConstraint (.condition e)).Uses l n) :
    g.Uses l n ∨ g.ledger = l ∧ n ∈ prefixesOf e.text := by
  rw [uses_iff] at h ⊢
  simp only [addConstraint, pattern, Pattern.terms, Pattern.blocks, List.filterMap_append,
    List.filterMap_cons, List.filterMap_nil, Constraint.condition?, Constraint.block?,
    List.map_append, List.map_cons, List.map_nil, List.append_nil, ← List.append_assoc] at h ⊢
  rcases h with ⟨hl, t, ht, hn⟩ | hblock
  · rcases List.mem_append.mp ht with ht | ht
    · exact .inl (.inl ⟨hl, t, ht, hn⟩)
    · exact .inr ⟨hl, by rwa [← List.mem_singleton.mp ht]⟩
  · exact .inl (.inr hblock)

theorem uses_of_blocks {g' : Graph} {ps : List Pattern} (hledger : g'.ledger = g.ledger)
    (hterms : (g'.pattern []).terms = (g.pattern []).terms)
    (hblocks : ∀ b ∈ (g'.pattern []).blocks, b ∈ (g.pattern []).blocks ∨ b ∈ ps)
    (h : g'.Uses l n) : g.Uses l n ∨ ∃ p ∈ ps, p.Uses l n := by
  rw [uses_iff] at h ⊢
  rcases h with ⟨hl, hterm⟩ | ⟨b, hb, huse⟩
  · rw [hterms] at hterm
    exact .inl (.inl ⟨hledger ▸ hl, hterm⟩)
  · rcases hblocks b hb with hb | hb
    · exact .inl (.inr ⟨b, hb, huse⟩)
    · exact .inr ⟨b, hb, huse⟩

theorem uses_embedding {p : Pattern} (k : Embedding) (h : (k.add p g).Uses l n) :
    g.Uses l n ∨ p.Uses l n := by
  have hsplit : g.Uses l n ∨ ∃ p' ∈ [p], p'.Uses l n := by
    refine uses_of_blocks ?_ ?_ (fun b hb ↦ ?_) h
    · cases k <;> rfl
    · cases k <;> simp [Embedding.add, addConstraint, addOptional, pattern, Pattern.terms,
        Constraint.condition?]
    · exact ((mem_blocks_embedding k).mp hb).imp_right List.mem_singleton.mpr
  simpa using hsplit

theorem uses_addUnion {ps : List Pattern} (h : (g.addUnion ps).Uses l n) :
    g.Uses l n ∨ ∃ p ∈ ps, p.Uses l n := by
  refine uses_of_blocks ?_ ?_ (fun b hb ↦ ?_) h
  · rfl
  · rfl
  · exact mem_blocks_addUnion.mp hb

end Graph

end SparqlComposer
