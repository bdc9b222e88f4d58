import SparqlComposer.Proofs.Reading.Parse
import SparqlComposer.Proofs.Reading.Readable
import SparqlComposer.Proofs.Session.Render

/-!
# Nothing is lost in writing

The text of a plain pattern is read back as the pattern without its ledgers. Two graphs that are
written alike hold the same triples in the same groups and order, and the same blocks.
-/

namespace SparqlComposer

namespace Reading

/-! ## What the parts of a pattern add up to -/

section Additions

variable (g : Graph)

theorem foldl_addTriples (es : List (Text × OrderedMap Text (List Text))) :
    es.foldl (fun g e ↦ g.addTriples (Triples.ofSubject e.1 e.2)) g =
      g.addTriples (es.flatMap fun e ↦ Triples.ofSubject e.1 e.2) := by
  induction es generalizing g with
  | nil => rfl
  | cons e es ih => rw [List.foldl_cons, ih, addTriples_addTriples, List.flatMap_cons]

theorem foldl_addOptional (ps : List Pattern) :
    ps.foldl (fun g p ↦ g.addOptional p.erased) g =
      { g with optionals := g.optionals ++ ps.map Pattern.erased } := by
  induction ps generalizing g with
  | nil => simp
  | cons p ps ih =>
      rw [List.foldl_cons, ih]
      simp [Graph.addOptional]

theorem foldl_addConstraint (cs : List Constraint) :
    cs.foldl (fun g c ↦ g.addConstraint c.erased) g =
      { g with constraints := g.constraints ++ cs.map Constraint.erased } := by
  induction cs generalizing g with
  | nil => simp
  | cons c cs ih =>
      rw [List.foldl_cons, ih]
      simp [Graph.addConstraint]

theorem foldl_addUnion (pss : List (List Pattern)) :
    pss.foldl (fun g ps ↦ g.addUnion (ps.map Pattern.erased)) g =
      { g with unions := g.unions ++ pss.map (List.map Pattern.erased) } := by
  induction pss generalizing g with
  | nil => simp
  | cons ps pss ih =>
      rw [List.foldl_cons, ih]
      simp [Graph.addUnion]

end Additions

variable {triples : Triples} {optionals : List Pattern} {constraints : List Constraint}
  {unions : List (List Pattern)}

/-- What the parts of a pattern add to a graph, in the order in which they are written. -/
def additions (triples : Triples) (optionals : List Pattern) (constraints : List Constraint)
    (unions : List (List Pattern)) : List (Graph → Graph) :=
  (triples.entries.map fun e g ↦ g.addTriples (Triples.ofSubject e.1 e.2)) ++
    (optionals.map fun p g ↦ g.addOptional p.erased) ++
    (constraints.map fun c g ↦ g.addConstraint c.erased) ++
    unions.map fun ps g ↦ g.addUnion (ps.map Pattern.erased)

theorem pattern_additions (ledger : LedgerId) (h : triples.Readable) :
    ((additions triples optionals constraints unions).foldl (fun g f ↦ f g)
      ({ ledger := 0 } : Graph)).pattern [] =
        (Pattern.mk ledger [] triples optionals constraints unions).erased := by
  simp only [additions, List.foldl_append, List.foldl_map, foldl_addTriples, foldl_addOptional,
    foldl_addConstraint, foldl_addUnion]
  have htriples : (∅ : Triples).addAll (triples.entries.flatMap fun e ↦
      Triples.ofSubject e.1 e.2) = triples := Triples.addAll_toList h
  simp only [Graph.addTriples, Graph.pattern, Pattern.erased, erasedAll_eq_map,
    erasedConstraints_eq_map, erasedUnions_eq_map, htriples, List.nil_append]

theorem readsPart_constraint {c : Constraint} (hplain : c.isPlain)
    (h : ∀ p, c.block? = some p → ReadsPattern p.text p.erased) :
    ReadsPart c.text (·.addConstraint c.erased) := by
  cases c with
  | condition e => exact nomatch hplain
  | present p => exact readsPart_present (h p rfl)
  | absent p => exact readsPart_absent (h p rfl)

theorem forall₂_map_of_forall {α β γ : Type} {R : β → γ → Prop} {f : α → β} {g : α → γ}
    {as : List α} (h : ∀ a ∈ as, R (f a) (g a)) : List.Forall₂ R (as.map f) (as.map g) := by
  rw [List.forall₂_map_left_iff, List.forall₂_map_right_iff, List.forall₂_same]
  exact h

/-- Every plain pattern that can be read is read from its text. -/
theorem readsPattern_text {p : Pattern} (h : p.Readable) (hplain : p.isPlain) :
    ReadsPattern p.text p.erased := by
  induction h with
  | @mk p htriples hunions hblocks ih =>
      obtain ⟨ledger, subqueries, triples, optionals, constraints, unions⟩ := p
      obtain ⟨rfl, hoptionals, hconstraints, hmembers⟩ := Pattern.isPlain_mk.mp hplain
      simp only [Pattern.blocks, List.mem_append] at ih
      have hread : List.Forall₂ ReadsPart (triples.texts ++ optionalTexts optionals ++
          constraintTexts constraints ++ unionTexts unions)
          (additions triples optionals constraints unions) := by
        rw [optionalTexts_eq_map, constraintTexts_eq_map, unionTexts_eq_map]
        refine List.rel_append (List.rel_append (List.rel_append ?_ ?_) ?_) ?_
        · refine forall₂_map_of_forall fun e he g outer ↦ ?_
          obtain ⟨hs, hps⟩ := htriples e he
          exact reads_subject hs hps
        · refine forall₂_map_of_forall fun p hp ↦ readsPart_optional ?_
          exact ih p (.inl (.inl hp)) (hoptionals p hp)
        · refine forall₂_map_of_forall fun c hc ↦ readsPart_constraint (hconstraints c hc) ?_
          intro p hp
          have hmem : p ∈ constraints.filterMap Constraint.block? :=
            List.mem_filterMap.mpr ⟨c, hc, hp⟩
          exact ih p (.inl (.inr hmem)) (Constraint.isPlain_of_block? (hconstraints c hc) hp)
        · refine forall₂_map_of_forall fun ps hps ↦ readsPart_union (hunions ps hps) fun p hp ↦ ?_
          exact ih p (.inr (List.mem_flatten.mpr ⟨ps, hps, hp⟩)) (hmembers ps hps p hp)
      have hspaced := readsPart_spaced hread { ledger := 0 }
      rw [Pattern.text]
      exact ⟨_, pattern_additions ledger htriples, hspaced⟩

end Reading

theorem Pattern.ofText?_text {p : Pattern} (h : p.Readable) (hplain : p.isPlain) :
    Pattern.ofText? p.text = some p.erased := by
  obtain ⟨g, hg, hreads⟩ := Reading.readsPattern_text h hplain
  rw [Reading.ofText?_of_reads (hreads []), hg]

namespace Session

variable {s s' : Session} {g g' : GraphId}

theorem call_render_of_isPlain (hg : s.holds (.graph g)) (hplain : (s.graph g).isPlain) :
    (s.call (.graph g .render [])).1 = .ok (.text ((s.graph g).pattern []).text) := by
  rw [Graph.isPlain, Bool.and_eq_true, List.isEmpty_iff] at hplain
  rw [call_graph_render hg, graphText, pattern, hplain.1]
  rfl

/-- The text of a plain graph is read back as what the graph holds. -/
theorem Reachable.ofText?_text (hs : s.Reachable) (hplain : (s.graph g).isPlain) :
    Pattern.ofText? ((s.graph g).pattern []).text = some (s.graph g).content := by
  rw [Graph.isPlain, Bool.and_eq_true] at hplain
  exact Pattern.ofText?_text (hs.readable (.graph g)) hplain.2

/-- A graph that was built without conditions and queries, of such blocks, can be read back from its
text, so that two of them with the same text hold the same. -/
theorem render_injective (hs : s.Reachable) (hs' : s'.Reachable) (hg : s.holds (.graph g))
    (hg' : s'.holds (.graph g')) (hplain : (s.graph g).isPlain) (hplain' : (s'.graph g').isPlain) :
    ∃ t t', (s.call (.graph g .render [])).1 = .ok (.text t) ∧
      (s'.call (.graph g' .render [])).1 = .ok (.text t') ∧
      Pattern.ofText? t = some (s.graph g).content ∧
      Pattern.ofText? t' = some (s'.graph g').content ∧
      (t = t' → (s.graph g).content = (s'.graph g').content) := by
  have hread := hs.ofText?_text hplain
  have hread' := hs'.ofText?_text hplain'
  refine ⟨_, _, call_render_of_isPlain hg hplain, call_render_of_isPlain hg' hplain', hread,
    hread', fun htext ↦ ?_⟩
  rw [htext, hread'] at hread
  exact (Option.some.inj hread).symm

/-- A graph may continue its triples or repeat them, and take a block as a graph or as a triple. -/
theorem continued_as_repeated : ∃ (s : Session) (t : Text), s.Reachable ∧
    (s.call (.graph 1 .render [])).1 = .ok (.text t) ∧
    (s.call (.graph 2 .render [])).1 = .ok (.text t) ∧
    (s.graph 1).content = (s.graph 2).content := by
  let x := Value.text "?x".toList
  let p := Value.text "ex:p".toList
  let o := Value.text "\"a , b \x7d .\"@en".toList
  let calls : List Call := [.newLedger, .newGraph 0, .pattern (.graph 0) .addTriple [x, p, o],
    .newGraph 0, .pattern (.graph 1) .addTriple [x, p, x], .pattern (.graph 1) .continueTriple [o],
    .pattern (.graph 1) .union [.object (.graph 0)], .pattern (.graph 1) .optional [x, p, o],
    .newGraph 0, .pattern (.graph 2) .optional [.object (.graph 0)],
    .pattern (.graph 2) .union [.object (.graph 0)], .pattern (.graph 2) .addTriple [x, p, x],
    .pattern (.graph 2) .addTriple [x, p, o]]
  let s := empty.run calls
  have hfacts : s.holds (.graph 1) ∧ s.holds (.graph 2) ∧ (s.graph 1).isPlain ∧
      (s.graph 2).isPlain ∧ ((s.graph 1).pattern []).text = ((s.graph 2).pattern []).text := by
    decide +kernel
  obtain ⟨hg, hg', hplain, hplain', htexts⟩ := hfacts
  have hs : s.Reachable := ⟨calls, rfl⟩
  obtain ⟨t, t', ht, ht', -, -, hsame⟩ := render_injective hs hs hg hg' hplain hplain'
  have heq : t = t' := by
    have htext := ht.symm.trans (call_render_of_isPlain hg hplain)
    have htext' := ht'.symm.trans (call_render_of_isPlain hg' hplain')
    rw [Answer.text.inj (Except.ok.inj htext), Answer.text.inj (Except.ok.inj htext'), htexts]
  exact ⟨s, t, hs, ht, heq ▸ ht', hsame heq⟩

end Session

end SparqlComposer
