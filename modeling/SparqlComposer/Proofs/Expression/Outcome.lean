import SparqlComposer.Proofs.Expression.Grammar

/-!
# What classification gives for a text

The kinds are tried in their order, and those that reject the text are passed over. The first other
one decides: the text is an expression of that kind, unless a name of a function is misspelled in it,
which is an error of its own. So a text may be of a kind, and still be no expression.
-/

namespace SparqlComposer

namespace Kind

/-- The kind is tried, since all kinds that are asked for and come in front of it reject the text. -/
def IsTried (k : Kind) (kinds : List Kind) (t : Text) : Prop :=
  ∃ before after, inOrder kinds = before ++ k :: after ∧ ∀ k' ∈ before, k'.Rejects t

section First

variable {k : Kind} {kinds : List Kind} {t : Text}

theorem firstAdmitting?_inOrder_eq_some_iff :
    firstAdmitting? t (inOrder kinds) = .ok (some k) ↔
      k.IsTried kinds t ∧ k.Derives t ∧ ∀ w, ¬ k.Misspells t w := by
  simp only [firstAdmitting?_eq_some_iff, admits_eq_ok_false_iff, admits_eq_ok_true_iff]
  constructor
  · rintro ⟨before, after, hkinds, hbefore, hk⟩
    exact ⟨⟨before, after, hkinds, hbefore⟩, hk⟩
  · rintro ⟨⟨before, after, hkinds, hbefore⟩, hk⟩
    exact ⟨before, after, hkinds, hbefore, hk⟩

theorem firstAdmitting?_inOrder_eq_none_iff :
    firstAdmitting? t (inOrder kinds) = .ok none ↔ ∀ k ∈ kinds, k.Rejects t := by
  simp only [firstAdmitting?_eq_none_iff, mem_inOrder, admits_eq_ok_false_iff]

theorem firstAdmitting?_inOrder_eq_error_iff {e : Error} :
    firstAdmitting? t (inOrder kinds) = .error e ↔
      ∃ k : Kind, k.IsTried kinds t ∧ ∃ w, k.Misspells t w ∧ e = .unknownFunction w := by
  simp only [firstAdmitting?_eq_error_iff, admits_eq_ok_false_iff, admits_eq_error_iff]
  constructor
  · rintro ⟨before, k, after, hkinds, hbefore, hk⟩
    exact ⟨k, ⟨before, after, hkinds, hbefore⟩, hk⟩
  · rintro ⟨k, ⟨before, after, hkinds, hbefore⟩, hk⟩
    exact ⟨before, k, after, hkinds, hbefore, hk⟩

end First

end Kind

section Classification

variable {objectText : Ref → Except Error Text} {kinds : List Kind} {t : Text}

theorem classify_text_eq : classify objectText kinds (.text t) =
    Kind.firstAdmitting? t (Kind.inOrder kinds) >>= fun found ↦
      found.elim (.error (.invalidExpression t (Kind.inOrder kinds))) fun k ↦ .ok (.ofKind k t) := by
  change (Expression.ofText? kinds t >>= _) = _
  rw [Expression.ofText?]
  cases Kind.firstAdmitting? t (Kind.inOrder kinds) with
  | error e => rfl
  | ok found => cases found <;> rfl

theorem classify_text_eq_ok_iff {e : Expression} : classify objectText kinds (.text t) = .ok e ↔
    ∃ k, Kind.firstAdmitting? t (Kind.inOrder kinds) = .ok (some k) ∧ e = .ofKind k t := by
  rw [classify_text_eq, Except.bind_eq_ok_iff]
  constructor
  · rintro ⟨_ | k, hk, h⟩
    · cases h
    · exact ⟨k, hk, (Except.ok.inj h).symm⟩
  · rintro ⟨k, hk, rfl⟩
    exact ⟨some k, hk, rfl⟩

theorem classify_text_eq_error_iff {e : Error} : classify objectText kinds (.text t) = .error e ↔
    Kind.firstAdmitting? t (Kind.inOrder kinds) = .ok none ∧
        e = .invalidExpression t (Kind.inOrder kinds) ∨
      Kind.firstAdmitting? t (Kind.inOrder kinds) = .error e := by
  rw [classify_text_eq, Except.bind_eq_error_iff, or_comm]
  refine or_congr_left ?_
  constructor
  · rintro ⟨_ | k, hk, h⟩
    · exact ⟨hk, (Except.error.inj h).symm⟩
    · cases h
  · rintro ⟨hk, rfl⟩
    exact ⟨none, hk, rfl⟩

end Classification

/-- All that classification gives for a text, whatever its letters are. The kind that decides is the
first that does not reject the text. If the text is of that kind, with no name of a function
misspelled in it, it is an expression of the kind; if one is misspelled, that is the error. If there
is no such kind, the text is refused. -/
theorem classify_text (objectText : Ref → Except Error Text) (kinds : List Kind) (t : Text) :
    (∀ e, classify objectText kinds (.text t) = .ok e ↔
      ∃ k : Kind, k.IsTried kinds t ∧ (k.Derives t ∧ ∀ w, ¬ k.Misspells t w) ∧ e = .ofKind k t) ∧
    ∀ e, classify objectText kinds (.text t) = .error e ↔
      (∀ k ∈ kinds, k.Rejects t) ∧ e = .invalidExpression t (Kind.inOrder kinds) ∨
        ∃ k : Kind, k.IsTried kinds t ∧ ∃ w, k.Misspells t w ∧ e = .unknownFunction w := by
  constructor
  · intro e
    simp only [classify_text_eq_ok_iff, Kind.firstAdmitting?_inOrder_eq_some_iff, and_assoc]
  · intro e
    rw [classify_text_eq_error_iff, Kind.firstAdmitting?_inOrder_eq_none_iff,
      Kind.firstAdmitting?_inOrder_eq_error_iff]

/-- A call whose head is the name of a prefix with a colon, but starts like the name of a function,
with a long s for its first letter. It is a call, and classifying it as one fails. -/
theorem classify_text_longS : ∃ t : Text, t = "\u017fTR:foo".toList ∧ Kind.function.Derives t ∧
    classify (fun _ ↦ .ok []) [.function] (.text t) =
      .error (.unknownFunction "\u017fTR".toList) := by
  let t : Text := "\u017fTR:foo".toList
  let w : Text := "\u017fTR".toList
  let r : Run isWord := ⟨w, by decide, List.all_eq_true.mp (by decide +kernel)⟩
  have htrimmed : trimmed t = t := by decide
  have hread : functionName? (expandTabs t) = some (w, ":foo".toList) := by decide +kernel
  have hmisspells : Kind.function.Misspells t w :=
    ⟨htrimmed, misspells_iff.mpr ⟨_, hread, by decide⟩⟩
  have hcall : IsCall (expandTabs t) := ⟨by decide, _, "foo".toList, rfl, .named r⟩
  have hderives : Kind.function.Derives t :=
    ⟨htrimmed, hcall, isBalanced_iff.mp (by decide +kernel)⟩
  have htried : Kind.function.IsTried [.function] t := ⟨[], [], by decide, List.forall_mem_nil _⟩
  exact ⟨t, rfl, hderives, ((classify_text _ _ t).2 _).mpr (.inr ⟨_, htried, w, hmisspells, rfl⟩)⟩

end SparqlComposer
