import SparqlComposer.Session.Clause
import SparqlComposer.Session.Building

/-!
# What goes into a ledger

Nothing is ever taken out of a ledger. Entering an expression adds the prefixes that it mentions to
those that are used, and leaves those that are defined.
-/

namespace SparqlComposer

open SparqlComposer.Action

namespace Ledger

variable {l : Ledger} {e : Expression} {k : Key}

theorem mem_keys_entries {ns : Names} :
    k ∈ ns.entries.map Entry.key ↔ ∃ n ∈ ns, k = .text n := by
  rw [Names.entries, List.map_map, List.mem_map]
  constructor
  · rintro ⟨n, hn, rfl⟩
    exact ⟨n, Names.mem_toList.mp hn, rfl⟩
  · rintro ⟨n, hn, rfl⟩
    exact ⟨n, Names.mem_toList.mpr hn, rfl⟩

/-! ## Used prefixes -/

@[simp] theorem usedPrefixes_defineVariables (es : List Entry) :
    (l.defineVariables es).usedPrefixes = l.usedPrefixes := rfl

@[simp] theorem usedPrefixes_definePrefixes (es : List Entry) :
    (l.definePrefixes es).usedPrefixes = l.usedPrefixes := rfl

@[simp] theorem mem_usedPrefixes_use :
    k ∈ (l.use e).usedPrefixes ↔ k ∈ l.usedPrefixes ∨ ∃ n ∈ e.prefixes, k = .text n := by
  rw [← mem_keys_entries]
  exact OrderedSet.mem_insertAll

@[simp] theorem mem_usedPrefixes_useTerm :
    k ∈ (l.useTerm e).usedPrefixes ↔ k ∈ l.usedPrefixes ∨ ∃ n ∈ e.prefixes, k = .text n := by
  rw [useTerm]
  split
  · exact mem_usedPrefixes_use
  · exact mem_usedPrefixes_use

@[simp] theorem mem_usedPrefixes_useAssigning :
    k ∈ (l.useAssigning e).usedPrefixes ↔ k ∈ l.usedPrefixes ∨ ∃ n ∈ e.prefixes, k = .text n :=
  mem_usedPrefixes_use

theorem mem_usedPrefixes_noteTriple {x y z : Expression} :
    k ∈ (noteTriple x y z l).usedPrefixes ↔
      k ∈ l.usedPrefixes ∨ ∃ e ∈ [x, y, z], ∃ n ∈ e.prefixes, k = .text n := by
  simp [noteTriple, or_assoc]

theorem mem_usedPrefixes_noteAll {es : List Expression} :
    k ∈ (noteAll es l).usedPrefixes ↔
      k ∈ l.usedPrefixes ∨ ∃ e ∈ es, ∃ n ∈ e.prefixes, k = .text n := by
  induction es generalizing l with
  | nil => simp [noteAll]
  | cons e es ih =>
      have hstep : noteAll (e :: es) l = noteAll es (l.useAssigning e) := rfl
      rw [hstep, ih, mem_usedPrefixes_useAssigning]
      simp [or_assoc]

/-! ## Defined prefixes -/

@[simp] theorem definedPrefixes_defineVariables (es : List Entry) :
    (l.defineVariables es).definedPrefixes = l.definedPrefixes := rfl

@[simp] theorem definedPrefixes_use : (l.use e).definedPrefixes = l.definedPrefixes := rfl

@[simp] theorem definedPrefixes_useTerm : (l.useTerm e).definedPrefixes = l.definedPrefixes := by
  rw [useTerm]
  split <;> rfl

@[simp] theorem definedPrefixes_noteTriple {x y z : Expression} :
    (noteTriple x y z l).definedPrefixes = l.definedPrefixes := by
  simp [noteTriple]

@[simp] theorem definedPrefixes_noteAll {es : List Expression} :
    (noteAll es l).definedPrefixes = l.definedPrefixes := by
  induction es generalizing l with
  | nil => rfl
  | cons e es ih =>
      have hstep : noteAll (e :: es) l = noteAll es (l.useAssigning e) := rfl
      rw [hstep, ih]
      rfl

/-! ## Validation -/

theorem validate_eq_ok_iff :
    l.validate = .ok () ↔ l.missingPrefixes = [] ∧ l.missingVariables = [] := by
  unfold validate
  split <;> simp_all

theorem missingFrom_eq_nil_iff {used defined : Entries} :
    used.missingFrom defined = [] ↔ ∀ k ∈ used, k ∈ defined := by
  rw [List.eq_nil_iff_forall_not_mem]
  constructor
  · intro h k hk
    obtain ⟨e, he, rfl⟩ := OrderedSet.mem_iff.mp hk
    apply Decidable.byContradiction
    exact fun hnot ↦ h e (OrderedSet.mem_missingFrom.mpr ⟨he, hnot⟩)
  · intro h e he
    obtain ⟨hmem, hnot⟩ := OrderedSet.mem_missingFrom.mp he
    exact hnot (h _ (OrderedSet.mem_iff.mpr ⟨e, hmem, rfl⟩))

/-- A ledger is accepted just when all that is used is defined. -/
theorem validate_eq_ok_iff_forall : l.validate = .ok () ↔
    (∀ k ∈ l.usedPrefixes, k ∈ l.definedPrefixes) ∧
      ∀ k ∈ l.usedVariables, k ∈ l.definedVariables := by
  rw [validate_eq_ok_iff, missingPrefixes, missingVariables, missingFrom_eq_nil_iff,
    missingFrom_eq_nil_iff]

/-- In a validated ledger every prefix that is used is defined. -/
theorem mem_definedPrefixes_of_validate (h : l.validate = .ok ()) (hk : k ∈ l.usedPrefixes) :
    k ∈ l.definedPrefixes := (validate_eq_ok_iff_forall.mp h).1 k hk

theorem mem_definedVariables_of_validate (h : l.validate = .ok ()) (hk : k ∈ l.usedVariables) :
    k ∈ l.definedVariables := (validate_eq_ok_iff_forall.mp h).2 k hk

/-- An expression that assigns nothing leaves a ledger accepted just when all that it mentions is
defined. -/
theorem validate_useAssigning (h : e.assignments = ∅) : (l.useAssigning e).validate = .ok () ↔
    l.validate = .ok () ∧ (∀ n ∈ e.references, .text n ∈ l.definedVariables) ∧
      ∀ n ∈ e.prefixes, .text n ∈ l.definedPrefixes := by
  have hvariables {k : Key} : k ∈ (l.useAssigning e).usedVariables ↔
      k ∈ l.usedVariables ∨ ∃ n ∈ e.references, k = .text n := by
    rw [← mem_keys_entries]
    exact OrderedSet.mem_insertAll
  have hdefined : (l.useAssigning e).definedVariables = l.definedVariables := by
    rw [useAssigning, h]
    rfl
  have hprefixes : (l.useAssigning e).definedPrefixes = l.definedPrefixes := rfl
  simp only [validate_eq_ok_iff_forall, mem_usedPrefixes_useAssigning, hvariables, hdefined,
    hprefixes]
  constructor
  · rintro ⟨hp, hv⟩
    exact ⟨⟨fun k hk ↦ hp k (.inl hk), fun k hk ↦ hv k (.inl hk)⟩,
      fun n hn ↦ hv _ (.inr ⟨n, hn, rfl⟩), fun n hn ↦ hp _ (.inr ⟨n, hn, rfl⟩)⟩
  · rintro ⟨⟨hp, hv⟩, hreferences, hnames⟩
    refine ⟨?_, ?_⟩
    · rintro k (hk | ⟨n, hn, rfl⟩)
      · exact hp k hk
      · exact hnames n hn
    · rintro k (hk | ⟨n, hn, rfl⟩)
      · exact hv k hk
      · exact hreferences n hn

end Ledger

end SparqlComposer
