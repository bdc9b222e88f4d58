import SparqlComposer.Proofs.Expression.Classify
import SparqlComposer.Proofs.OrderedSet
import SparqlComposer.Proofs.Path.Names

/-!
# Classifying paths

A text that is accepted as a path has a tree. What it is reported to mention is told by any tree of
it: the prefixes of its prefixed names, each where it comes first, and no variables.
-/

namespace SparqlComposer

/-- A path mentions the prefixes of the prefixed names in its tree and nothing else. -/
theorem classify_path (objectText : Ref → Except Error Text) {t : Text}
    (h : Kind.path.admits t = .ok true) :
    ∃ e, classify objectText [.path] (.text t) = .ok e ∧ e.kind = .path ∧ e.text = t ∧
      e.references = ∅ ∧ e.assignments = ∅ ∧ (∃ p : PropertyPath, p.text = t) ∧
      ∀ p : PropertyPath, p.text = t →
        e.prefixes.toList = (p.prefixNames.map Run.text).eraseDups := by
  have hpath : isPath t := Except.ok.inj (Kind.hasForm_of_admits rfl h)
  obtain ⟨p, rfl⟩ := isPath_iff_exists.mp hpath
  have htext : (Value.text p.text).expressionText? = .ok (some p.text) := rfl
  have hreads := Value.reads_singleton_iff.mpr ⟨p.text, htext, h, rfl⟩
  obtain ⟨hreferences, hassignments, -⟩ := p.names_text
  refine ⟨_, classify_eq_ok_iff.mpr hreads, Expression.kind_ofKind _ _, Expression.text_ofKind _ _,
    hreferences, hassignments, ⟨p, rfl⟩, ?_⟩
  intro q hq
  obtain ⟨-, -, hprefixes⟩ := q.names_text
  rw [hq] at hprefixes
  calc (Expression.ofKind .path p.text).prefixes.toList
      = (prefixesOf p.text).toList := rfl
    _ = (OrderedSet.ofList (q.prefixNames.map Run.text) : Names).toList := by rw [hprefixes]
    _ = (q.prefixNames.map Run.text).eraseDups := Names.toList_ofList _

/-- A prefix that comes up twice, a question mark behind a prefixed name, and an IRI that holds a
colon and a question mark in front of a word. -/
theorem classify_path_twice : ∃ (t : Text) (e : Expression),
    t = "^(ex:p|<a:b?c>)*/!ex:q?|fo:r".toList ∧ Kind.path.admits t = .ok true ∧
      classify (fun _ ↦ .ok []) [.path] (.text t) = .ok e ∧ e.references = ∅ ∧
      e.assignments = ∅ ∧ e.prefixes.toList = ["ex".toList, "fo".toList] := by
  let t : Text := "^(ex:p|<a:b?c>)*/!ex:q?|fo:r".toList
  let word (w : Text) (h : w ≠ [] ∧ w.all isWord) : Run isWord :=
    ⟨w, h.1, List.all_eq_true.mp h.2⟩
  let iri : Run isIriChar := ⟨"a:b?c".toList, by decide, List.all_eq_true.mp (by decide)⟩
  let ex : Run isWord := word "ex".toList (by decide)
  let fo : Run isWord := word "fo".toList (by decide)
  let inner : PropertyPath :=
    .joined (.mk false false (.prefixed ex (word ['p'] (by decide))) none) .alternative
      (.element (.mk false false (.bracketed iri) none))
  let rest : PropertyPath :=
    .joined (.mk true false (.prefixed ex (word ['q'] (by decide))) (some .atMostOnce))
      .alternative (.element (.mk false false (.prefixed fo (word ['r'] (by decide))) none))
  let p : PropertyPath :=
    .joined (.mk false true (.group inner) (some .anyTimes)) .sequence rest
  have hp : p.text = t := by decide +kernel
  have hnames : p.prefixNames.map Run.text = ["ex".toList, "ex".toList, "fo".toList] := by
    decide +kernel
  have hblank : ∀ c ∈ t, ¬ isBlank c := List.all_iff_forall_prop.mp (by decide)
  have hform : Kind.path.hasForm t = .ok true :=
    congrArg Except.ok (isPath_iff_exists.mpr ⟨p, hp⟩)
  have hadmits := Kind.admits_of_hasForm rfl hblank hform
  obtain ⟨e, he, -, -, hreferences, hassignments, -, hprefixes⟩ :=
    classify_path (fun _ ↦ .ok []) hadmits
  refine ⟨t, e, rfl, hadmits, he, hreferences, hassignments, ?_⟩
  rw [hprefixes p hp, hnames]
  decide

end SparqlComposer
