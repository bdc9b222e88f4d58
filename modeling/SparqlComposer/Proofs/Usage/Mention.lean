import SparqlComposer.Proofs.Expression.Classify
import SparqlComposer.Proofs.Ledger
import SparqlComposer.Proofs.OrderedSet

/-!
# What a ledger is told

A ledger is told of one expression after the other, together with the place where each stands, and
of the names that queries project or bind. It keeps every name where it first came up. What is
missing in the end depends on the names alone: neither on how they are spread over the mentions, nor
on whether a definition comes before a use.
-/

namespace SparqlComposer

open SparqlComposer.Action

/-- What a ledger is told of: an expression in its place, the variables that an attached query
projects, or a prefix that is bound. -/
inductive Mention where
  | term (t : Text)
  | condition (t : Text)
  | clause (t : Text)
  | projection (names : List Text)
  | declaration (name : Text)

namespace Mention

def usedPrefixes : Mention → List Text
  | term t | condition t | clause t => (prefixesOf t).toList
  | projection _ | declaration _ => []

def declaredPrefixes : Mention → List Text
  | declaration name => [name]
  | term _ | condition _ | clause _ | projection _ => []

def usedVariables : Mention → List Text
  | term t | condition t | clause t => (variablesOf t).toList
  | projection _ | declaration _ => []

/-- A term defines the variable that it is, and a clause the targets of its assignments. -/
def definedVariables : Mention → List Text
  | term t => if Kind.var.admits t = .ok true then (variablesOf t).toList else []
  | clause t => (assignmentsOf t).toList
  | projection names => names
  | condition _ | declaration _ => []

theorem mem_definedVariables_term {t n : Text} :
    n ∈ (term t).definedVariables ↔ Kind.var.admits t = .ok true ∧ n ∈ variablesOf t := by
  rw [definedVariables]
  split
  · rename_i hvar
    rw [Names.mem_toList, and_iff_right hvar]
  · rename_i hvar
    simp [hvar]

/-- The names that are used and not defined, each once, in the order of their first use. -/
def missing (used defined : List Text) : List Text := used.eraseDups.filter (· ∉ defined)

def missingPrefixes (ms : List Mention) : List Text :=
  missing (ms.flatMap usedPrefixes) (ms.flatMap declaredPrefixes)

def missingVariables (ms : List Mention) : List Text :=
  missing (ms.flatMap usedVariables) (ms.flatMap definedVariables)

end Mention

/-! ## Names in ordered sets -/

namespace OrderedSet

/-- A set of names has each of them once, where it came up first. -/
theorem toList_ofList_ofName (ns : List Text) :
    (ofList (ns.map Entry.ofName) : Entries).toList = ns.eraseDups.map Entry.ofName := by
  have hkey : Function.Injective (Entry.key ∘ Entry.ofName) := by
    intro n n' h
    cases h
    rfl
  exact toList_ofList_map hkey ns

theorem missingFrom_ofList (used defined : List Text) :
    (ofList (used.map Entry.ofName) : Entries).missingFrom (ofList (defined.map Entry.ofName)) =
      (Mention.missing used defined).map Entry.ofName := by
  have hmem (n : Text) :
      (Entry.ofName n).key ∉ (ofList (defined.map Entry.ofName) : Entries) ↔ n ∉ defined := by
    simp
  rw [missingFrom, toList_ofList_ofName, Mention.missing, List.filter_map]
  congr 1
  apply List.filter_congr
  intro n _
  exact decide_eq_decide.mpr (hmem n)

end OrderedSet

/-! ## Telling -/

namespace Ledger

def tell (l : Ledger) (m : Mention) : Ledger where
  definedVariables := l.definedVariables.insertAll (m.definedVariables.map Entry.ofName)
  usedVariables := l.usedVariables.insertAll (m.usedVariables.map Entry.ofName)
  definedPrefixes := l.definedPrefixes.insertAll (m.declaredPrefixes.map Entry.ofName)
  usedPrefixes := l.usedPrefixes.insertAll (m.usedPrefixes.map Entry.ofName)

def tellAll (l : Ledger) (ms : List Mention) : Ledger := ms.foldl tell l

theorem tellAll_append (l : Ledger) (ms ms' : List Mention) :
    l.tellAll (ms ++ ms') = (l.tellAll ms).tellAll ms' := List.foldl_append

/-- Being told is entering all the names of all that is told. -/
theorem tellAll_eq (l : Ledger) (ms : List Mention) : l.tellAll ms =
    { definedVariables :=
        l.definedVariables.insertAll ((ms.flatMap Mention.definedVariables).map Entry.ofName)
      usedVariables :=
        l.usedVariables.insertAll ((ms.flatMap Mention.usedVariables).map Entry.ofName)
      definedPrefixes :=
        l.definedPrefixes.insertAll ((ms.flatMap Mention.declaredPrefixes).map Entry.ofName)
      usedPrefixes :=
        l.usedPrefixes.insertAll ((ms.flatMap Mention.usedPrefixes).map Entry.ofName) } := by
  induction ms generalizing l with
  | nil => rfl
  | cons m ms ih =>
      have hstep : l.tellAll (m :: ms) = (l.tell m).tellAll ms := rfl
      rw [hstep, ih]
      simp only [List.flatMap_cons, List.map_append, OrderedSet.insertAll_append, tell]

theorem mapM_name?_ofName (ns : List Text) :
    (ns.map Entry.ofName).mapM Entry.name? = some ns := by
  induction ns with
  | nil => rfl
  | cons n ns ih => simp [ih]

theorem missingPrefixes_tellAll (ms : List Mention) :
    (tellAll {} ms).missingPrefixes = (Mention.missingPrefixes ms).map Entry.ofName := by
  rw [tellAll_eq]
  exact OrderedSet.missingFrom_ofList _ _

theorem missingVariables_tellAll (ms : List Mention) :
    (tellAll {} ms).missingVariables = (Mention.missingVariables ms).map Entry.ofName := by
  rw [tellAll_eq]
  exact OrderedSet.missingFrom_ofList _ _

/-- What validation comes to when these prefixes and these variables are missing. -/
def verdict : (ps vs : List Text) → Except Error Unit
  | [], [] => .ok ()
  | [], v :: vs => .error (.undefinedVariables (v :: vs))
  | p :: ps, _ => .error (.undefinedPrefixes (p :: ps))

/-- Variables count only where no prefixes are missing. -/
theorem verdict_eq_iff {ps vs ps' vs' : List Text} :
    verdict ps vs = verdict ps' vs' ↔ ps = ps' ∧ (ps' = [] → vs = vs') := by
  cases ps <;> cases ps' <;> cases vs <;> cases vs' <;> simp [verdict]

theorem validate_of_names {l : Ledger} {ps vs : List Text}
    (hprefixes : l.missingPrefixes = ps.map Entry.ofName)
    (hvariables : l.missingVariables = vs.map Entry.ofName) : l.validate = verdict ps vs := by
  rw [validate, hprefixes, hvariables]
  cases ps with
  | nil =>
      cases vs with
      | nil => rfl
      | cons v vs =>
          simp only [List.map_nil, List.map_cons, missingError]
          rw [← List.map_cons, mapM_name?_ofName]
          rfl
  | cons p ps =>
      simp only [List.map_cons, missingError]
      rw [← List.map_cons, mapM_name?_ofName]
      rfl

/-- What the validation of a ledger comes to that has been told so much. -/
theorem validate_tellAll (ms : List Mention) :
    (tellAll {} ms).validate = match Mention.missingPrefixes ms, Mention.missingVariables ms with
      | [], [] => .ok ()
      | [], names => .error (.undefinedVariables names)
      | names, _ => .error (.undefinedPrefixes names) := by
  rw [validate_of_names (missingPrefixes_tellAll ms) (missingVariables_tellAll ms)]
  cases Mention.missingPrefixes ms <;> cases Mention.missingVariables ms <;> rfl

/-- All variables that a ledger defines when it has been told mentions are names. -/
theorem toList_definedVariables_tellAll (ms : List Mention) :
    (tellAll {} ms).definedVariables.toList =
      (ms.flatMap Mention.definedVariables).eraseDups.map Entry.ofName := by
  rw [tellAll_eq]
  exact OrderedSet.toList_ofList_ofName _

end Ledger

/-! ## Expressions as mentions -/

/-- The text by which a value is read as an expression. -/
def Value.reading (v : Value) : Text :=
  match v.expressionText? with
  | .ok (some t) => t
  | _ => []

namespace Value.Reads

variable {v : Value} {kinds : List Kind} {e : Expression}

theorem eq_ofKind (h : v.Reads kinds e) :
    ∃ k, Kind.firstAdmitting? v.reading (Kind.inOrder kinds) = .ok (some k) ∧
      e = .ofKind k v.reading := by
  obtain ⟨t, ht, he⟩ := h
  have hreading : v.reading = t := by rw [reading, ht]
  rw [hreading]
  obtain ⟨found, hfound, he⟩ := Except.bind_eq_ok_iff.mp he
  obtain ⟨k, rfl, rfl⟩ := Option.map_eq_some_iff.mp (Except.pure_eq_ok_iff.mp he)
  exact ⟨k, hfound, rfl⟩

theorem text_eq (h : v.Reads kinds e) : e.text = v.reading := by
  obtain ⟨k, -, rfl⟩ := h.eq_ofKind
  exact Expression.text_ofKind k _

/-- Where no name of a prefix is asked for, an expression mentions what is captured from its text. -/
theorem names_eq (h : v.Reads kinds e) (hkinds : Kind.prefixName ∉ kinds) :
    e.references = variablesOf v.reading ∧ e.prefixes = prefixesOf v.reading ∧
      e.assignments = assignmentsOf v.reading := by
  rw [← h.text_eq]
  exact h.isOf.names_eq hkinds

/-- Variables are tried first, so what may be one is read as one. -/
theorem kind_eq_var_iff (h : v.Reads kinds e) (hvar : Kind.var ∈ kinds) :
    e.kind = .var ↔ Kind.var.admits v.reading = .ok true := by
  obtain ⟨k, hk, rfl⟩ := h.eq_ofKind
  rw [Expression.kind_ofKind]
  constructor
  · rintro rfl
    exact (Kind.firstAdmitting?_eq_some hk).2
  · intro hadmits
    obtain ⟨rest, hrest⟩ : ∃ rest, Kind.inOrder kinds = .var :: rest := by
      rw [Kind.inOrder, Kind.all, List.filter_cons_of_pos (by simpa using hvar)]
      exact ⟨_, rfl⟩
    have hfirst : Kind.firstAdmitting? v.reading (.var :: rest) = .ok (some .var) := by
      rw [Kind.firstAdmitting?, hadmits]
      rfl
    rw [hrest, hfirst] at hk
    exact (Option.some.inj (Except.ok.inj hk)).symm

end Value.Reads

namespace Ledger

variable {v : Value} {kinds : List Kind} {e : Expression} {l : Ledger}

theorem use_eq_tell (h : v.Reads kinds e) (hkinds : Kind.prefixName ∉ kinds) :
    l.use e = l.tell (.condition v.reading) := by
  obtain ⟨hreferences, hprefixes, -⟩ := h.names_eq hkinds
  rw [use, hreferences, hprefixes]
  rfl

theorem useAssigning_eq_tell (h : v.Reads kinds e) (hkinds : Kind.prefixName ∉ kinds) :
    l.useAssigning e = l.tell (.clause v.reading) := by
  obtain ⟨-, -, hassignments⟩ := h.names_eq hkinds
  rw [useAssigning, use_eq_tell h hkinds, hassignments]
  rfl

theorem useTerm_eq_tell (h : v.Reads kinds e) (hkinds : Kind.prefixName ∉ kinds)
    (hvar : Kind.var ∈ kinds) : l.useTerm e = l.tell (.term v.reading) := by
  rw [useTerm, use_eq_tell h hkinds, (h.names_eq hkinds).1]
  by_cases hkind : e.kind = .var
  · have hdefines : (Mention.term v.reading).definedVariables = (variablesOf v.reading).toList :=
      if_pos ((h.kind_eq_var_iff hvar).mp hkind)
    rw [if_pos hkind, tell, tell, hdefines]
    rfl
  · have hdefines : (Mention.term v.reading).definedVariables = [] :=
      if_neg fun hadmits ↦ hkind ((h.kind_eq_var_iff hvar).mpr hadmits)
    rw [if_neg hkind, tell, tell, hdefines]
    rfl

theorem noteTriple_eq_tellAll {a b c : Value} {x y z : Expression} (hx : a.Reads subjectKinds x)
    (hy : b.Reads predicateKinds y) (hz : c.Reads objectKinds z) :
    noteTriple x y z l = l.tellAll [.term a.reading, .term b.reading, .term c.reading] := by
  rw [noteTriple, useTerm_eq_tell hx (by decide) (by decide),
    useTerm_eq_tell hy (by decide) (by decide), useTerm_eq_tell hz (by decide) (by decide)]
  rfl

theorem noteAll_eq_tellAll {vs : List Value} {es : List Expression}
    (h : List.Forall₂ (fun v e ↦ v.Reads kinds e) vs es) (hkinds : Kind.prefixName ∉ kinds) :
    noteAll es l = l.tellAll (vs.map fun v ↦ .clause v.reading) := by
  induction h generalizing l with
  | nil => rfl
  | cons he _ ih =>
      rw [noteAll, List.foldl_cons, useAssigning_eq_tell he hkinds, ← noteAll, ih]
      rfl

end Ledger

end SparqlComposer
