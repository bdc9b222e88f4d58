import SparqlComposer.Proofs.Literal.Term
import SparqlComposer.Proofs.Path.Names

/-!
# Terms that are paths

A path term is written from inside out: a part with several parts of its own is put in parentheses,
and a sequence inside a sequence, or an alternative inside an alternative, is written as its parts.
The grammar of paths allows each mark in one place only, so a mark may stand at an IRI or at
parentheses. Where it does, the text of the term is a path of the grammar, and as the grammar is
read to the end, a query takes the term. Its IRIs are all in brackets, so it mentions no names.
-/

namespace SparqlComposer

namespace Term

/-! ## Path terms -/

/-- An IRI, or a term that is put in parentheses. -/
inductive TakesMark : Term → Prop where
  | iri (i : Text) : TakesMark (iri i)
  | sequence {ts : List Term} (h : 1 < sequenceWidth ts) : TakesMark (sequence ts)
  | alternative {ts : List Term} (h : 1 < alternativeWidth ts) : TakesMark (alternative ts)

/-- An IRI, an inverse IRI, or an alternative of these. -/
inductive IsNegatable : Term → Prop where
  | iri (i : Text) : IsNegatable (iri i)
  | inverse (i : Text) : IsNegatable (inverse (iri i))
  | alternative {ts : List Term} (h : ∀ t ∈ ts, IsNegatable t) : IsNegatable (alternative ts)

/-- A path over IRIs whose sequences and alternatives have parts, and whose marks stand where one
may. -/
inductive IsPath : Term → Prop where
  | iri {i : Text} (h : Kind.iri.admits i = .ok true) : IsPath (iri i)
  | sequence {ts : List Term} (hne : ts ≠ []) (h : ∀ t ∈ ts, IsPath t) : IsPath (sequence ts)
  | alternative {ts : List Term} (hne : ts ≠ []) (h : ∀ t ∈ ts, IsPath t) :
      IsPath (alternative ts)
  | inverse {t : Term} (h : IsPath t) (hmark : TakesMark t) : IsPath (inverse t)
  | negated {t : Term} (h : IsPath t) (hmark : IsNegatable t) : IsPath (negated t)
  | repeated {t : Term} (h : IsPath t) (hmark : TakesMark t) (repetition : Repetition) :
      IsPath (repeated t repetition)

/-! ## Parts of a term -/

/-- The texts that a term adds to a sequence. -/
def sequenceParts : Term → List Text
  | sequence ts => sequenceN3 ts
  | t => [t.enclose t.n3]

/-- The texts that a term adds to an alternative. -/
def alternativeParts : Term → List Text
  | alternative ts => alternativeN3 ts
  | t => [t.enclose t.n3]

theorem sequenceN3_eq_flatMap (ts : List Term) : sequenceN3 ts = ts.flatMap sequenceParts := by
  induction ts with
  | nil => rfl
  | cons t ts ih =>
      rw [List.flatMap_cons, ← ih]
      cases t <;> rfl

theorem alternativeN3_eq_flatMap (ts : List Term) :
    alternativeN3 ts = ts.flatMap alternativeParts := by
  induction ts with
  | nil => rfl
  | cons t ts ih =>
      rw [List.flatMap_cons, ← ih]
      cases t <;> rfl

theorem length_sequenceN3 : (ts : List Term) → (sequenceN3 ts).length = sequenceWidth ts
  | [] => by simp [sequenceN3, sequenceWidth]
  | t :: ts => by
      have ih := length_sequenceN3 ts
      cases t with
      | sequence us =>
          have hus := length_sequenceN3 us
          rw [sequenceN3, sequenceWidth, List.length_append, hus, ih]
      | _ => simp [sequenceN3, sequenceWidth, ih, Nat.add_comm]

theorem length_alternativeN3 : (ts : List Term) →
    (alternativeN3 ts).length = alternativeWidth ts
  | [] => by simp [alternativeN3, alternativeWidth]
  | t :: ts => by
      have ih := length_alternativeN3 ts
      cases t with
      | alternative us =>
          have hus := length_alternativeN3 us
          rw [alternativeN3, alternativeWidth, List.length_append, hus, ih]
      | _ => simp [alternativeN3, alternativeWidth, ih, Nat.add_comm]

/-! ## Texts of paths without prefixes -/

def IsPathText (t : Text) : Prop := ∃ p : PropertyPath, p.text = t ∧ p.prefixNames = []

def IsElementText (t : Text) : Prop := ∃ e : PathElement, e.text = t ∧ e.prefixNames = []

def IsPrimaryText (t : Text) : Prop := ∃ p : PathPrimary, p.text = t ∧ p.prefixNames = []

variable {x : Text}

theorem IsPrimaryText.element (h : IsPrimaryText x) (negated inverted : Bool)
    (repetition : Option PathRepetition) :
    IsElementText (optionalMark '!' negated ++ (optionalMark '^' inverted ++
      (x ++ (repetition.map PathRepetition.mark).toList))) := by
  obtain ⟨p, rfl, hp⟩ := h
  exact ⟨.mk negated inverted p repetition, by rw [PathElement.text],
    by rw [PathElement.prefixNames, hp]⟩

theorem IsElementText.path (h : IsElementText x) : IsPathText x := by
  obtain ⟨e, rfl, he⟩ := h
  exact ⟨.element e, by rw [PropertyPath.text], by rw [PropertyPath.prefixNames, he]⟩

theorem IsPathText.group (h : IsPathText x) : IsPrimaryText ('(' :: x ++ [')']) := by
  obtain ⟨p, rfl, hp⟩ := h
  exact ⟨.group p, by rw [PathPrimary.text]; rfl, by rw [PathPrimary.prefixNames, hp]⟩

theorem isPrimaryText_iri {i : Text} (h : Kind.iri.admits i = .ok true) :
    IsPrimaryText ('<' :: i ++ ['>']) := by
  obtain ⟨r, rfl⟩ := exists_run_of_iri h
  exact ⟨.bracketed r, by rw [PathPrimary.text]; rfl, by rw [PathPrimary.prefixNames]⟩

theorem IsPrimaryText.plain (h : IsPrimaryText x) : IsElementText x := by
  simpa [optionalMark] using h.element false false none

/-- The texts are elements, and there is one at least. -/
def AreElements (xs : List Text) : Prop := xs ≠ [] ∧ ∀ x ∈ xs, IsElementText x

theorem areElements_singleton (h : IsElementText x) : AreElements [x] :=
  ⟨List.cons_ne_nil x [], fun _ hx ↦ List.mem_singleton.mp hx ▸ h⟩

theorem areElements_flatMap {ts : List Term} {parts : Term → List Text} (hne : ts ≠ [])
    (h : ∀ t ∈ ts, AreElements (parts t)) : AreElements (ts.flatMap parts) := by
  constructor
  · obtain ⟨t, us, rfl⟩ := List.exists_cons_of_ne_nil hne
    rw [List.flatMap_cons]
    exact List.append_ne_nil_of_left_ne_nil (h t List.mem_cons_self).1 _
  · intro x hx
    obtain ⟨t, ht, hx⟩ := List.mem_flatMap.mp hx
    exact (h t ht).2 x hx

/-- Elements joined by one mark are a path. -/
theorem AreElements.joined {xs : List Text} (h : AreElements xs) (joint : PathJoint) :
    IsPathText (joinWith [joint.mark] xs) := by
  obtain ⟨hne, h⟩ := h
  induction xs with
  | nil => exact absurd rfl hne
  | cons x xs ih =>
      have hx := h x List.mem_cons_self
      cases xs with
      | nil => exact hx.path
      | cons y xs =>
          obtain ⟨p, hp, hnames⟩ := ih (List.cons_ne_nil y xs) fun z hz ↦
            h z (List.mem_cons_of_mem x hz)
          obtain ⟨e, rfl, he⟩ := hx
          refine ⟨.joined e joint p, ?_, ?_⟩
          · rw [PropertyPath.text, hp, joinWith_cons_cons, List.append_assoc]
            rfl
          · rw [PropertyPath.prefixNames, he, hnames, List.append_nil]

/-! ## Texts of path terms -/

theorem enclose_of_width_le {t : Term} (h : t.width ≤ 1) (x : Text) : t.enclose x = x :=
  if_neg (Nat.not_lt.mpr h)

theorem isPrimaryText_enclose {t : Term} (h : 1 < t.width) (hx : IsPathText x) :
    IsPrimaryText (t.enclose x) := by
  rw [enclose, if_pos h]
  exact hx.group

/-- A term is written as a path, and as elements where it is a part of another term. -/
structure WritesPath (t : Term) : Prop where
  path : IsPathText t.n3
  element : IsElementText (t.enclose t.n3)
  sequenceParts : AreElements t.sequenceParts
  alternativeParts : AreElements t.alternativeParts

/-- A term that is joined from several parts is put in parentheses, and from one part it is that
part. -/
theorem AreElements.enclosed {t : Term} {xs : List Text} (h : AreElements xs) (joint : PathJoint)
    (htext : t.n3 = joinWith [joint.mark] xs) (hwidth : t.width = xs.length) :
    IsElementText (t.enclose t.n3) := by
  by_cases hseveral : 1 < t.width
  · rw [htext]
    exact (isPrimaryText_enclose hseveral (h.joined joint)).plain
  · obtain ⟨x, rfl⟩ : ∃ x, xs = [x] := by
      rw [← List.length_eq_one_iff]
      have hpos := List.length_pos_iff.mpr h.1
      omega
    rw [enclose_of_width_le (Nat.le_of_not_lt hseveral), htext]
    exact h.2 x List.mem_cons_self

namespace WritesPath

variable {t : Term} {ts : List Term}

/-- A term that is not joined from parts is one part wherever it stands. -/
theorem of_element (hwidth : t.width ≤ 1) (hsequence : t.sequenceParts = [t.enclose t.n3])
    (halternative : t.alternativeParts = [t.enclose t.n3]) (h : IsElementText t.n3) :
    WritesPath t := by
  have helement : IsElementText (t.enclose t.n3) := by rwa [enclose_of_width_le hwidth]
  refine ⟨h.path, helement, ?_, ?_⟩
  · rw [hsequence]
    exact areElements_singleton helement
  · rw [halternative]
    exact areElements_singleton helement

theorem sequence (hne : ts ≠ []) (h : ∀ t ∈ ts, WritesPath t) : WritesPath (sequence ts) := by
  have hparts : AreElements (sequenceN3 ts) := by
    rw [sequenceN3_eq_flatMap]
    exact areElements_flatMap hne fun t ht ↦ (h t ht).sequenceParts
  have htext : (Term.sequence ts).n3 = joinWith [PathJoint.sequence.mark] (sequenceN3 ts) := by
    rw [n3]
    rfl
  have hwidth : (Term.sequence ts).width = (sequenceN3 ts).length := by
    rw [width, length_sequenceN3]
  have helement := hparts.enclosed .sequence htext hwidth
  exact ⟨htext ▸ hparts.joined .sequence, helement, hparts, areElements_singleton helement⟩

theorem alternative (hne : ts ≠ []) (h : ∀ t ∈ ts, WritesPath t) :
    WritesPath (alternative ts) := by
  have hparts : AreElements (alternativeN3 ts) := by
    rw [alternativeN3_eq_flatMap]
    exact areElements_flatMap hne fun t ht ↦ (h t ht).alternativeParts
  have htext : (Term.alternative ts).n3 =
      joinWith [PathJoint.alternative.mark] (alternativeN3 ts) := by
    rw [n3]
    rfl
  have hwidth : (Term.alternative ts).width = (alternativeN3 ts).length := by
    rw [width, length_alternativeN3]
  have helement := hparts.enclosed .alternative htext hwidth
  exact ⟨htext ▸ hparts.joined .alternative, helement, areElements_singleton helement, hparts⟩

/-- A mark stands at the text of a primary. -/
theorem isPrimaryText (h : WritesPath t) (hpath : IsPath t) (hmark : TakesMark t) :
    IsPrimaryText (t.enclose t.n3) := by
  cases hmark with
  | iri i =>
      cases hpath with
      | iri hi =>
          rw [enclose_of_width_le (by simp [width]), n3]
          exact isPrimaryText_iri hi
  | sequence hseveral => exact isPrimaryText_enclose (by rwa [width]) h.path
  | alternative hseveral => exact isPrimaryText_enclose (by rwa [width]) h.path

/-- A negated term is put in parentheses, with several parts or with one. -/
theorem exists_of_isNegatable (h : WritesPath t) (hmark : IsNegatable t) :
    ∃ x, IsPathText x ∧ (negated t).n3 = '!' :: '(' :: x ++ [')'] := by
  cases hmark with
  | iri i => exact ⟨_, h.element.path, rfl⟩
  | inverse i => exact ⟨_, h.element.path, rfl⟩
  | alternative _ => exact ⟨_, h.path, rfl⟩

end WritesPath

theorem exists_mark_eq (repetition : Repetition) :
    ∃ r : PathRepetition, r.mark = repetition.mark := by
  cases repetition with
  | zeroOrMore => exact ⟨.anyTimes, rfl⟩
  | oneOrMore => exact ⟨.atLeastOnce, rfl⟩
  | zeroOrOne => exact ⟨.atMostOnce, rfl⟩

theorem IsPath.writesPath {t : Term} (h : IsPath t) : WritesPath t := by
  induction h with
  | iri hi =>
      refine .of_element (by simp [width]) rfl rfl ?_
      rw [n3]
      exact (isPrimaryText_iri hi).plain
  | sequence hne _ ih => exact .sequence hne ih
  | alternative hne _ ih => exact .alternative hne ih
  | inverse h hmark ih =>
      refine .of_element (by simp [width]) rfl rfl ?_
      rw [n3]
      simpa [optionalMark] using (ih.isPrimaryText h hmark).element false true none
  | negated h hmark ih =>
      obtain ⟨x, hx, htext⟩ := ih.exists_of_isNegatable hmark
      refine .of_element (by simp [width]) rfl rfl ?_
      rw [htext]
      simpa [optionalMark] using hx.group.element true false none
  | repeated h hmark repetition ih =>
      obtain ⟨r, hr⟩ := exists_mark_eq repetition
      refine .of_element (by simp [width]) rfl rfl ?_
      rw [n3, ← hr]
      simpa [optionalMark] using (ih.isPrimaryText h hmark).element false false (some r)

/-! ## Classifying path terms -/

theorem mem_allIris {i : Text} {ts : List Term} : i ∈ allIris ts ↔ ∃ t ∈ ts, i ∈ t.iris := by
  induction ts with
  | nil => simp [allIris]
  | cons t ts ih => simp [allIris, ih]

theorem isWritable_of_admits {i : Text} (h : Kind.iri.admits i = .ok true) : isWritable i := by
  obtain ⟨r, rfl⟩ := exists_run_of_iri h
  rw [isWritable, List.all_eq_true]
  intro c hc
  have hchar := r.inClass_of_mem c hc
  rw [isIriChar, Bool.and_eq_true] at hchar
  rw [decide_eq_true_iff, unwritableChars, List.mem_cons, not_or]
  refine ⟨?_, by simpa using hchar.2⟩
  rintro rfl
  exact absurd hchar.1 (by decide)

theorem IsPath.isWritable_of_mem {t : Term} (h : IsPath t) : ∀ i ∈ t.iris, isWritable i := by
  induction h with
  | iri hi =>
      intro i hmem
      rw [iris, List.mem_singleton] at hmem
      exact hmem ▸ isWritable_of_admits hi
  | sequence _ _ ih | alternative _ _ ih =>
      intro i hmem
      rw [iris, mem_allIris] at hmem
      obtain ⟨t, ht, hi⟩ := hmem
      exact ih t ht i hi
  | inverse _ _ ih | negated _ _ ih | repeated _ _ _ ih => rwa [iris]

theorem IsPath.text?_eq {t : Term} (h : IsPath t) : t.text? = .ok (some t.n3) := by
  have hfind : t.iris.find? (!isWritable ·) = none := by
    rw [List.find?_eq_none]
    intro i hi
    simpa using h.isWritable_of_mem i hi
  cases h <;> simp [text?, hfind]

end Term

/-- A path term over IRIs is taken for a path, and it mentions no names. -/
theorem classify_pathTerm (objectText : Ref → Except Error Text) {t : Term} (h : t.IsPath) :
    ∃ e, classify objectText [.path] (.term t) = .ok e ∧ e.kind = .path ∧ e.text = t.n3 ∧
      e.references = ∅ ∧ e.prefixes = ∅ ∧ e.assignments = ∅ := by
  obtain ⟨p, hp, hnames⟩ := h.writesPath.path
  have hblank : ∀ c ∈ t.n3, ¬ isBlank c := by
    intro c hc
    simpa using List.all_eq_true.mp p.all_not_isBlank c (hp ▸ hc)
  have hform : Kind.path.hasForm t.n3 = .ok true :=
    congrArg Except.ok (isPath_iff_exists.mpr ⟨p, hp⟩)
  have hadmits := Kind.admits_of_hasForm rfl hblank hform
  have htext : (Value.term t).expressionText? = .ok (some t.n3) := h.text?_eq
  have hreads := Value.reads_singleton_iff.mpr ⟨t.n3, htext, hadmits, rfl⟩
  obtain ⟨hreferences, hassignments, hprefixes⟩ := p.names_text
  rw [hp] at hreferences hassignments hprefixes
  rw [hnames] at hprefixes
  exact ⟨_, classify_eq_ok_iff.mpr hreads, Expression.kind_ofKind _ _, Expression.text_ofKind _ _,
    hreferences, hprefixes, hassignments⟩

/-- An alternative in an inverse, and in it a sequence with a repetition and a negation. The IRI at
the end, which is a sequence in a sequence, holds a question mark in front of a word, and a
colon. -/
theorem classify_nestedPath : ∃ t : Term, ∃ e, t.IsPath ∧
    classify (fun _ ↦ .ok []) [.path] (.term t) = .ok e ∧
      e.text = "^(<p>|(<q>*/!(<p>|^<q>)))/<a:b?c>".toList ∧ e.kind = .path ∧
      e.references = ∅ ∧ e.prefixes = ∅ ∧ e.assignments = ∅ := by
  let p : Term := .iri ['p']
  let q : Term := .iri ['q']
  let inner : Term := .sequence [.repeated q .zeroOrMore, .negated (.alternative [p, .inverse q])]
  let last : Term := .iri ['a', ':', 'b', '?', 'c']
  let t : Term := .sequence [.inverse (.alternative [p, inner]), .sequence [last]]
  have hp : p.IsPath := .iri rfl
  have hq : q.IsPath := .iri rfl
  have hlast : last.IsPath := .iri rfl
  have hnegated : (Term.negated (.alternative [p, .inverse q])).IsPath := by
    refine .negated (.alternative (by simp) ?_) (.alternative ?_)
    · simp [hp, Term.IsPath.inverse hq (.iri _)]
    · simp [p, q, Term.IsNegatable.iri, Term.IsNegatable.inverse]
  have hinner : inner.IsPath := by
    refine .sequence (by simp) ?_
    simp [hnegated, Term.IsPath.repeated hq (.iri _)]
  have hseveral : 1 < Term.alternativeWidth [p, inner] := by
    simp [p, inner, Term.alternativeWidth]
  have hinverse : (Term.inverse (.alternative [p, inner])).IsPath :=
    .inverse (.alternative (by simp) (by simp [hp, hinner])) (.alternative hseveral)
  have ht : t.IsPath := by
    refine .sequence (by simp) ?_
    simp [hinverse, Term.IsPath.sequence (List.cons_ne_nil last []) (by simpa using hlast)]
  have htext : t.n3 = "^(<p>|(<q>*/!(<p>|^<q>)))/<a:b?c>".toList := by
    simp [t, p, q, inner, last, Term.n3, Term.sequenceN3, Term.alternativeN3, Term.enclose,
      Term.width, Term.sequenceWidth, Term.alternativeWidth, Repetition.mark, joinWith]
  obtain ⟨e, he, hkind, hn3, hreferences, hprefixes, hassignments⟩ :=
    classify_pathTerm (fun _ ↦ .ok []) ht
  exact ⟨t, e, ht, he, hn3.trans htext, hkind, hreferences, hprefixes, hassignments⟩

end SparqlComposer
