import SparqlComposer.Proofs.Result
import SparqlComposer.Value.Classify

/-!
# What classification gives

An expression that a value is classified as is of one of the kinds that were asked for: the kind
admits its text, and the names it mentions are those captured from the text.
-/

namespace SparqlComposer

namespace Kind

section First

variable {t : Text} {before kinds : List Kind} {k : Kind}

/-- The kinds that refuse a text are passed over. -/
theorem firstAdmitting?_append (h : ∀ k' ∈ before, k'.admits t = .ok false) (kinds : List Kind) :
    firstAdmitting? t (before ++ kinds) = firstAdmitting? t kinds := by
  induction before with
  | nil => rfl
  | cons k' before ih =>
      rw [List.forall_mem_cons] at h
      rw [List.cons_append, firstAdmitting?, h.1]
      exact ih h.2

/-- All kinds refuse a text, or the first that does not admits it or fails. -/
theorem firstAdmitting?_cases (t : Text) (kinds : List Kind) :
    (∀ k ∈ kinds, k.admits t = .ok false) ∧ firstAdmitting? t kinds = .ok none ∨
      ∃ before k after, kinds = before ++ k :: after ∧ (∀ k' ∈ before, k'.admits t = .ok false) ∧
        (k.admits t = .ok true ∧ firstAdmitting? t kinds = .ok (some k) ∨
          ∃ e, k.admits t = .error e ∧ firstAdmitting? t kinds = .error e) := by
  induction kinds with
  | nil => exact .inl ⟨List.forall_mem_nil _, rfl⟩
  | cons k kinds ih =>
      rw [firstAdmitting?]
      cases hk : k.admits t with
      | error e => exact .inr ⟨[], k, kinds, rfl, List.forall_mem_nil _, .inr ⟨e, hk, rfl⟩⟩
      | ok b =>
          cases b with
          | true => exact .inr ⟨[], k, kinds, rfl, List.forall_mem_nil _, .inl ⟨hk, rfl⟩⟩
          | false =>
              rcases ih with ⟨hall, hnone⟩ | ⟨before, k', after, rfl, hbefore, hfirst⟩
              · exact .inl ⟨List.forall_mem_cons.mpr ⟨hk, hall⟩, hnone⟩
              · exact .inr ⟨k :: before, k', after, rfl, List.forall_mem_cons.mpr ⟨hk, hbefore⟩,
                  hfirst⟩

theorem firstAdmitting?_eq_none_iff :
    firstAdmitting? t kinds = .ok none ↔ ∀ k ∈ kinds, k.admits t = .ok false := by
  constructor
  · intro h
    rcases firstAdmitting?_cases t kinds with
      ⟨hall, -⟩ | ⟨_, _, _, -, -, ⟨-, hsome⟩ | ⟨_, -, herror⟩⟩
    · exact hall
    · cases h.symm.trans hsome
    · cases h.symm.trans herror
  · intro h
    have hread := firstAdmitting?_append h []
    rwa [List.append_nil] at hread

theorem firstAdmitting?_eq_some_iff : firstAdmitting? t kinds = .ok (some k) ↔
    ∃ before after, kinds = before ++ k :: after ∧ (∀ k' ∈ before, k'.admits t = .ok false) ∧
      k.admits t = .ok true := by
  constructor
  · intro h
    rcases firstAdmitting?_cases t kinds with
      ⟨-, hnone⟩ | ⟨before, k', after, hkinds, hbefore, ⟨hk', hsome⟩ | ⟨_, -, herror⟩⟩
    · cases h.symm.trans hnone
    · obtain rfl : k = k' := Option.some.inj (Except.ok.inj (h.symm.trans hsome))
      exact ⟨before, after, hkinds, hbefore, hk'⟩
    · cases h.symm.trans herror
  · rintro ⟨before, after, rfl, hbefore, hk⟩
    rw [firstAdmitting?_append hbefore, firstAdmitting?, hk]
    rfl

theorem firstAdmitting?_eq_error_iff {e : Error} : firstAdmitting? t kinds = .error e ↔
    ∃ before k after, kinds = before ++ k :: after ∧
      (∀ k' ∈ before, k'.admits t = .ok false) ∧ k.admits t = .error e := by
  constructor
  · intro h
    rcases firstAdmitting?_cases t kinds with
      ⟨-, hnone⟩ | ⟨before, k, after, hkinds, hbefore, ⟨-, hsome⟩ | ⟨e', hk, herror⟩⟩
    · cases h.symm.trans hnone
    · cases h.symm.trans hsome
    · obtain rfl : e = e' := Except.error.inj (h.symm.trans herror)
      exact ⟨before, k, after, hkinds, hbefore, hk⟩
  · rintro ⟨before, k, after, rfl, hbefore, hk⟩
    rw [firstAdmitting?_append hbefore, firstAdmitting?, hk]
    rfl

theorem firstAdmitting?_eq_some (h : firstAdmitting? t kinds = .ok (some k)) :
    k ∈ kinds ∧ k.admits t = .ok true := by
  obtain ⟨before, after, rfl, -, hk⟩ := firstAdmitting?_eq_some_iff.mp h
  exact ⟨List.mem_append_cons_self, hk⟩

end First

/-- What is admitted has the form of the kind, and no blanks if the kind is a token. -/
theorem of_admits {k : Kind} {t : Text} (h : k.admits t = .ok true) :
    k.hasForm (expandTabs t) = .ok true ∧ (k.isToken → ∀ c ∈ t, ¬ isBlank c) := by
  rw [admits] at h
  split at h
  · exact nomatch h
  · split at h
    · exact nomatch h
    · rename_i hblank
      obtain ⟨b, hb, h⟩ := Except.bind_eq_ok_iff.mp h
      have hboth := Except.pure_eq_ok_iff.mp h
      rw [Bool.and_eq_true] at hboth
      obtain ⟨rfl, -⟩ := hboth
      refine ⟨hb, fun htoken c hc hcblank ↦ hblank ?_⟩
      rw [htoken, Bool.true_and]
      exact List.any_eq_true.mpr ⟨c, hc, hcblank⟩

theorem hasForm_of_admits {k : Kind} {t : Text} (hk : k.isToken) (h : k.admits t = .ok true) :
    k.hasForm t = .ok true := by
  obtain ⟨hform, hblank⟩ := of_admits h
  rwa [expandTabs_eq_self fun hmem ↦ hblank hk '\t' hmem (by decide)] at hform

theorem not_isPadded {t : Text} (hhead : ∀ c ∈ t.head?, ¬ isBlank c)
    (hlast : ∀ c ∈ t.getLast?, ¬ isBlank c) : ¬ isPadded t := by
  rw [isPadded, Bool.or_eq_true, Option.any_eq_true, Option.any_eq_true]
  rintro (⟨c, hc, hblank⟩ | ⟨c, hc, hblank⟩)
  · exact hhead c hc hblank
  · exact hlast c hc hblank

theorem admits_of_hasForm {k : Kind} {t : Text} (hk : k.isToken) (hblank : ∀ c ∈ t, ¬ isBlank c)
    (h : k.hasForm t = .ok true) : k.admits t = .ok true := by
  have hpadded : ¬ isPadded t := not_isPadded
    (fun c hc ↦ hblank c (List.mem_of_mem_head? hc)) fun c hc ↦ hblank c (List.mem_of_getLast? hc)
  have hany : ¬ (k.isToken && t.any isBlank) := by
    rw [Bool.and_eq_true, List.any_eq_true]
    rintro ⟨-, c, hc, hcblank⟩
    exact hblank c hc hcblank
  have hcall : k.isCall = false := by cases k <;> first | rfl | cases hk
  rw [admits, if_neg hpadded, if_neg hany,
    expandTabs_eq_self fun hmem ↦ hblank '\t' hmem (by decide), h, hcall]
  rfl

/-- A call or an assignment is admitted without blanks at its ends, with balanced brackets. -/
theorem admits_isCall_iff {k : Kind} {t : Text} (hk : k.isCall) : k.admits t = .ok true ↔
    isPadded t = false ∧ k.hasForm (expandTabs t) = .ok true ∧ isBalanced t := by
  have htoken : k.isToken = false := by cases k <;> first | rfl | cases hk
  rw [admits]
  split
  · rename_i hpadded
    simp [hpadded]
  · rename_i hpadded
    simp only [Bool.eq_false_iff.mpr hpadded, true_and, htoken, Bool.false_and, Bool.false_eq_true,
      if_false, hk]
    constructor
    · intro h
      obtain ⟨b, hb, h⟩ := Except.bind_eq_ok_iff.mp h
      obtain ⟨rfl, hbalanced⟩ := Bool.and_eq_true_iff.mp (Except.pure_eq_ok_iff.mp h)
      exact ⟨hb, hbalanced⟩
    · rintro ⟨hform, hbalanced⟩
      rw [hform, hbalanced]
      rfl

end Kind

namespace Expression

/-- The expression is a text of one of the kinds, with the names captured from it. -/
def IsOf (kinds : List Kind) (e : Expression) : Prop :=
  ∃ k ∈ kinds, k.admits e.text = .ok true ∧ e = ofKind k e.text

/-- Only the name of a prefix mentions nothing. -/
theorem IsOf.names_eq {kinds : List Kind} {e : Expression} (h : e.IsOf kinds)
    (hkinds : Kind.prefixName ∉ kinds) : e.references = variablesOf e.text ∧
      e.prefixes = prefixesOf e.text ∧ e.assignments = assignmentsOf e.text := by
  obtain ⟨k, hk, -, he⟩ := h
  have hne : k ≠ .prefixName := fun heq ↦ hkinds (heq ▸ hk)
  rw [he]
  simp [ofKind, hne]

theorem IsOf.prefixes_eq {kinds : List Kind} {e : Expression} (h : e.IsOf kinds)
    (hkinds : Kind.prefixName ∉ kinds) : e.prefixes = prefixesOf e.text := (h.names_eq hkinds).2.1

theorem ofText?_eq_some_iff {kinds : List Kind} {t : Text} {e : Expression} :
    ofText? kinds t = .ok (some e) ↔
      ∃ k, Kind.firstAdmitting? t (Kind.inOrder kinds) = .ok (some k) ∧ e = ofKind k t := by
  constructor
  · intro h
    obtain ⟨found, hfound, h⟩ := Except.bind_eq_ok_iff.mp h
    obtain ⟨k, rfl, rfl⟩ := Option.map_eq_some_iff.mp (Except.pure_eq_ok_iff.mp h)
    exact ⟨k, hfound, rfl⟩
  · rintro ⟨k, hk, rfl⟩
    rw [ofText?, hk]
    rfl

theorem isOf_of_ofText? {kinds : List Kind} {t : Text} {e : Expression}
    (h : ofText? kinds t = .ok (some e)) : e.IsOf kinds := by
  obtain ⟨k, hfound, rfl⟩ := ofText?_eq_some_iff.mp h
  obtain ⟨hmem, hadmits⟩ := Kind.firstAdmitting?_eq_some hfound
  rw [IsOf, text_ofKind]
  exact ⟨k, Kind.mem_inOrder.mp hmem, hadmits, rfl⟩

end Expression

/-- A value is read as an expression of the kinds when its text is, as the first of them that admits
it. -/
def Value.Reads (v : Value) (kinds : List Kind) (e : Expression) : Prop :=
  ∃ t, v.expressionText? = .ok (some t) ∧ Expression.ofText? kinds t = .ok (some e)

variable {kinds : List Kind} {v : Value} {e : Expression}

/-- Only the message of a refusal depends on how objects show. -/
theorem classify_eq_ok_iff {objectText : Ref → Except Error Text} :
    classify objectText kinds v = .ok e ↔ v.Reads kinds e := by
  constructor
  · intro h
    obtain ⟨found, hfound, h⟩ := Except.bind_eq_ok_iff.mp h
    cases found with
    | none =>
        obtain ⟨_, -, h⟩ := Except.bind_eq_ok_iff.mp h
        exact absurd h Except.throw_ne_ok
    | some t =>
        obtain ⟨found', hfound', h⟩ := Except.bind_eq_ok_iff.mp h
        cases found' with
        | none =>
            obtain ⟨_, -, h⟩ := Except.bind_eq_ok_iff.mp h
            exact absurd h Except.throw_ne_ok
        | some e' =>
            obtain rfl : e' = e := Except.pure_eq_ok_iff.mp h
            exact ⟨t, hfound, hfound'⟩
  · rintro ⟨t, ht, he⟩
    exact Except.bind_eq_ok_iff.mpr ⟨some t, ht, Except.bind_eq_ok_iff.mpr ⟨some e, he, rfl⟩⟩

theorem Value.Reads.isOf (h : v.Reads kinds e) : e.IsOf kinds := by
  obtain ⟨t, -, he⟩ := h
  exact Expression.isOf_of_ofText? he

theorem Kind.inOrder_singleton (k : Kind) : Kind.inOrder [k] = [k] := by cases k <;> decide

theorem Expression.ofText?_singleton_iff {k : Kind} {t : Text} :
    Expression.ofText? [k] t = .ok (some e) ↔
      k.admits t = .ok true ∧ e = Expression.ofKind k t := by
  constructor
  · intro h
    obtain ⟨k', hfound, rfl⟩ := ofText?_eq_some_iff.mp h
    obtain ⟨hmem, hadmits⟩ := Kind.firstAdmitting?_eq_some hfound
    obtain rfl := List.mem_singleton.mp (Kind.mem_inOrder.mp hmem)
    exact ⟨hadmits, rfl⟩
  · rintro ⟨hadmits, rfl⟩
    rw [ofText?, Kind.inOrder_singleton, Kind.firstAdmitting?, hadmits]
    rfl

/-- Of a single kind, a value is read exactly when the kind admits its text. -/
theorem Value.reads_singleton_iff {k : Kind} : v.Reads [k] e ↔
    ∃ t, v.expressionText? = .ok (some t) ∧ k.admits t = .ok true ∧
      e = Expression.ofKind k t := by
  simp only [Value.Reads, Expression.ofText?_singleton_iff]

/-- A refusal shows the value by its label, which may fail to be written. -/
theorem classify_of_not_admits {objectText : Ref → Except Error Text} {k : Kind} {t : Text}
    (ht : v.expressionText? = .ok (some t)) (h : k.admits t = .ok false) :
    classify objectText [k] v =
      (v.label objectText).bind fun label ↦ .error (.invalidExpression label [k]) := by
  have hnone : Expression.ofText? [k] t = .ok none := by
    rw [Expression.ofText?, Kind.inOrder_singleton, Kind.firstAdmitting?, h]
    rfl
  rw [classify, ht, Kind.inOrder_singleton]
  change ((Expression.ofText? [k] t).bind _) = _
  rw [hnone]
  rfl

end SparqlComposer
