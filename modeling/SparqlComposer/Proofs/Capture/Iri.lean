import SparqlComposer.Proofs.Capture.Occurrence
import SparqlComposer.Proofs.Literal.Term

/-!
# Names in bare IRIs

An IRI without brackets is not hidden from the captures. They find nothing in its scheme, and
nothing is assigned in it, since it has no blanks. But a colon behind a word is read as the end of a
prefix if a word follows, such as a port, and the mark of a query part is read as that of a variable.
-/

namespace SparqlComposer

/-- A name with a colon and a local name stands behind the text that `before` reads backwards. -/
def PrefixAt (u before name : Text) : Prop :=
  ∃ (r localName : Run isWord) (rest : Text),
    u = before.reverse ++ (r.text ++ ':' :: (localName.text ++ rest)) ∧ r.text = name ∧
      atWordStart before ∧ ∀ c ∈ rest.head?, ¬ isWord c

/-! ## Where prefixes are found -/

section Prefix

variable {before name u v : Text}

theorem exists_of_foundAt_prefixUse {n : Nat} (h : foundAt prefixUse before v = some (name, n)) :
    ∃ (r localName : Run isWord) (rest : Text), v = r.text ++ ':' :: (localName.text ++ rest) ∧
      r.text = name ∧ atWordStart before ∧ ∀ c ∈ rest.head?, ¬ isWord c := by
  obtain ⟨cs, rfl, hcolon, -, hstart, hname, hlocal⟩ := exists_of_prefixUse (pattern_of_foundAt h)
  obtain ⟨r, v', rfl, hr, hv'⟩ := exists_run_of_takeWhile hname
  obtain rfl : v' = ':' :: cs := (dropWhile_run r hv').symm.trans hcolon
  obtain ⟨localName, rest, rfl, -, hrest⟩ := exists_run_of_takeWhile hlocal
  exact ⟨r, localName, rest, rfl, hr, hstart, hrest⟩

theorem foundAt_prefixUse_run (r localName : Run isWord) {rest : Text} (hstart : atWordStart before)
    (h : ∀ c ∈ rest.head?, ¬ isWord c) :
    foundAt prefixUse before (r.text ++ ':' :: (localName.text ++ rest)) =
      some (r.text, r.text.length + 1 + localName.text.length) := by
  obtain ⟨c, cs, hcs⟩ := List.exists_cons_of_ne_nil r.ne_nil
  refine (foundAt_of_ne_nil (fun d hd ↦ ?_) (by simp [hcs])).trans
    (prefixUse_run r localName hstart h)
  rw [hcs, List.cons_append] at hd
  obtain rfl : c = d := Option.some.inj hd
  exact not_isGap_of_isWord (r.inClass_of_mem c (hcs ▸ List.mem_cons_self))

theorem exists_of_mem_scan_prefixUse (h : name ∈ scan prefixUse 0 [] u) :
    ∃ before, PrefixAt u before name := by
  obtain ⟨w, v, n, rfl, -, hfound⟩ := mem_scan_iff.mp h
  rw [List.append_nil] at hfound
  obtain ⟨r, localName, rest, rfl, hr, hstart, hrest⟩ := exists_of_foundAt_prefixUse hfound
  exact ⟨w.reverse, r, localName, rest, by rw [List.reverse_reverse], hr, hstart, hrest⟩

/-- Where a prefixed name stands some prefix is found, though not always its own: an earlier one may
cover it. -/
theorem scan_prefixUse_eq_nil_iff :
    scan prefixUse 0 [] u = [] ↔ ∀ before name, ¬ PrefixAt u before name := by
  constructor
  · rintro h before _ ⟨r, localName, rest, rfl, rfl, hstart, hrest⟩
    have hnone := scan_eq_nil_iff.mp h before.reverse _ rfl
    rw [List.append_nil, List.reverse_reverse,
      foundAt_prefixUse_run r localName hstart hrest] at hnone
    cases hnone
  · intro h
    rw [List.eq_nil_iff_forall_not_mem]
    intro name hmem
    obtain ⟨before, hat⟩ := exists_of_mem_scan_prefixUse hmem
    exact h before name hat

end Prefix

/-! ## Behind the scheme -/

section Scheme

variable {pattern : CapturePattern} {before scheme : Text}

theorem not_followsAs_of_head {b : Text} (h : ' ' ∉ b.head?) : ¬ followsAs b := by
  intro has
  obtain ⟨s, a, before, rfl, -⟩ := followsAs_iff.mp has
  exact h rfl

theorem foundAt_variableUse_congr {b b' v : Text} (hstart : atWordStart b = atWordStart b')
    (has : followsAs b = followsAs b') : foundAt variableUse b v = foundAt variableUse b' v := by
  cases v <;> simp [foundAt, variableUse, hstart, has]

theorem foundAt_prefixUse_congr {b b' v : Text} (hstart : atWordStart b = atWordStart b') :
    foundAt prefixUse b v = foundAt prefixUse b' v := by
  cases v <;> simp [foundAt, prefixUse, hstart]

theorem foundAt_scheme_variableUse (hscheme : ∀ c ∈ scheme, ¬ isSigil c) {w : Text} (hne : w ≠ [])
    (hw : w <:+ scheme ++ "://".toList) (rest : Text) :
    foundAt variableUse before (w ++ rest) = none := by
  obtain ⟨c, w, rfl⟩ := List.exists_cons_of_ne_nil hne
  refine foundAt_variableUse_eq_none ?_
  rcases List.mem_append.mp (hw.subset List.mem_cons_self) with hc | hc
  · exact hscheme c hc
  · have hmarks : ∀ c ∈ "://".toList, ¬ isSigil c := List.all_iff_forall_prop.mp (by decide)
    exact hmarks c hc

/-- The colon behind the scheme is followed by a slash, and no other colon follows a word. -/
theorem foundAt_scheme_prefixUse (hscheme : ':' ∉ scheme) {w : Text} (hne : w ≠ [])
    (hw : w <:+ scheme ++ "://".toList) (rest : Text) :
    foundAt prefixUse before (w ++ rest) = none := by
  rw [Option.eq_none_iff_forall_ne_some]
  rintro ⟨name, n⟩ hfound
  obtain ⟨cs, rfl, hcolon, -, -, hname, hlocal⟩ := exists_of_prefixUse (pattern_of_foundAt hfound)
  obtain ⟨w₁, hw⟩ := hw
  rcases List.append_eq_append_iff.mp hw with ⟨x, hx, rfl⟩ | ⟨x, -, hx⟩
  · rw [List.append_assoc] at hcolon
    change (x ++ ':' :: ('/' :: '/' :: rest)).dropWhile isWord = ':' :: cs at hcolon
    rw [dropWhile_append_cons (by decide)] at hcolon
    cases hdrop : x.dropWhile isWord with
    | nil =>
        rw [hdrop, List.nil_append] at hcolon
        obtain ⟨-, rfl⟩ := List.cons.inj hcolon
        exact hlocal rfl
    | cons d x' =>
        rw [hdrop, List.cons_append] at hcolon
        obtain ⟨rfl, -⟩ := List.cons.inj hcolon
        have hmem : ':' ∈ x := (List.dropWhile_sublist isWord).subset (hdrop ▸ List.mem_cons_self)
        exact hscheme (hx ▸ List.mem_append_right _ hmem)
  · obtain ⟨c, w, rfl⟩ := List.exists_cons_of_ne_nil hne
    have hmarks : ∀ c ∈ "://".toList, ¬ isWord c := List.all_iff_forall_prop.mp (by decide)
    have hc : ¬ isWord c := hmarks c (hx ▸ List.mem_append_right _ List.mem_cons_self)
    exact hname (List.takeWhile_cons_of_neg hc)

/-- What a pattern that finds nothing in the scheme finds in an IRI, it finds behind the scheme. -/
theorem scan_behind_scheme {rest : Text} (hrest : ' ' ∉ rest)
    (hscheme : ∀ before w, w ≠ [] → w <:+ scheme ++ "://".toList →
      foundAt pattern before (w ++ rest) = none)
    (hcongr : ∀ b b' v, atWordStart b = atWordStart b' → followsAs b = followsAs b' →
      foundAt pattern b v = foundAt pattern b' v) :
    scan pattern 0 [] (scheme ++ "://".toList ++ rest) = scan pattern 0 [] rest := by
  rw [scan_append_of_none rest fun w₁ w₂ hw hne ↦ hscheme _ w₂ hne ⟨w₁, hw.symm⟩, List.append_nil]
  refine scan_congr fun w v hwv ↦ ?_
  rw [List.append_nil]
  rcases List.eq_nil_or_concat w with rfl | ⟨w, c, rfl⟩
  · exact hcongr _ _ v (by simp [atWordStart, show ¬ isWord '/' by decide]) (by simp [followsAs])
  · have hc : c ≠ ' ' := by
      rintro rfl
      exact hrest (by simp [hwv])
    have has {b : Text} : followsAs (c :: b) = false := by
      simpa using not_followsAs_of_head (b := c :: b) (by simpa using hc)
    refine hcongr _ _ v ?_ ?_
    · simp [atWordStart]
    · simp [has]

end Scheme

/-! ## Bare IRIs -/

/-- The text has no character that an IRI cannot have. -/
def Bare (t : Text) : Prop := ∀ c ∈ t, isIriChar c

theorem Kind.bare_of_admits {t : Text} (h : Kind.iri.admits t = .ok true) : Bare t := by
  obtain ⟨r, rfl⟩ := exists_run_of_iri h
  exact r.inClass_of_mem

namespace Bare

variable {t u name scheme rest : Text}

theorem right (h : Bare (u ++ t)) : Bare t := fun c hc ↦ h c (List.mem_append_right u hc)

theorem not_mem (h : Bare t) {c : Char} (hc : isIriChar c = false) : c ∉ t :=
  fun hmem ↦ Bool.false_ne_true (hc.symm.trans (h c hmem))

/-- Nothing is hidden, and there are no tabs. -/
theorem visible_eq (h : Bare t) : expandTabs (escaped t) = t := by
  have hplain : escaped t = t := escaped_eq_self fun c hc ↦
    ⟨fun heq ↦ h.not_mem (c := '"') (by decide) (heq ▸ hc),
      fun heq ↦ h.not_mem (c := '<') (by decide) (heq ▸ hc)⟩
  rw [hplain, expandTabs_eq_self (h.not_mem (by decide))]

theorem captures_eq (h : Bare t) (pattern : CapturePattern) :
    captures pattern t = .ofList (scan pattern 0 [] t) := by
  rw [captures, h.visible_eq]

theorem assignmentsOf_eq (h : Bare t) : assignmentsOf t = ∅ := by
  rw [assignmentsOf, h.captures_eq, scan_assignmentTarget_eq_nil (h.not_mem (by decide))]
  rfl

/-- Without blanks there are no keywords, so every variable is used. -/
theorem mem_variablesOf_iff (h : Bare t) :
    name ∈ variablesOf t ↔ ∃ before, VariableAt t before name := by
  rw [SparqlComposer.mem_variablesOf_iff, h.visible_eq]
  refine exists_congr fun before ↦ and_iff_left_of_imp ?_
  rintro ⟨c, r, v, rfl, -⟩
  refine not_followsAs_of_head fun hhead ↦ h.not_mem (c := ' ') (by decide) ?_
  exact List.mem_append_left _ (List.mem_reverse.mpr (List.mem_of_mem_head? hhead))

theorem exists_prefixAt (h : Bare t) (hname : name ∈ prefixesOf t) :
    ∃ before, PrefixAt t before name := by
  rw [prefixesOf, h.captures_eq, OrderedSet.mem_ofList, List.map_id] at hname
  exact exists_of_mem_scan_prefixUse hname

theorem exists_mem_prefixesOf (h : Bare t) {before : Text} (hat : PrefixAt t before name) :
    ∃ name', name' ∈ prefixesOf t := by
  simp only [prefixesOf, h.captures_eq, OrderedSet.mem_ofList, List.map_id]
  refine List.exists_mem_of_ne_nil _ fun hnil ↦ ?_
  exact scan_prefixUse_eq_nil_iff.mp hnil before name hat

/-- What an IRI mentions is what stands behind its scheme. -/
theorem names_behind_scheme (h : Bare (scheme ++ "://".toList ++ rest))
    (hscheme : ∀ c ∈ scheme, ¬ isSigil c ∧ c ≠ ':') :
    variablesOf (scheme ++ "://".toList ++ rest) = variablesOf rest ∧
      prefixesOf (scheme ++ "://".toList ++ rest) = prefixesOf rest := by
  have hblank : ' ' ∉ rest := h.right.not_mem (by decide)
  rw [variablesOf, variablesOf, prefixesOf, prefixesOf, h.captures_eq, h.captures_eq,
    h.right.captures_eq, h.right.captures_eq]
  constructor
  · exact congrArg _ (scan_behind_scheme hblank
      (fun _ _ hne hw ↦ foundAt_scheme_variableUse (fun c hc ↦ (hscheme c hc).1) hne hw rest)
      fun _ _ _ ↦ foundAt_variableUse_congr)
  · exact congrArg _ (scan_behind_scheme hblank
      (fun _ _ hne hw ↦ foundAt_scheme_prefixUse (fun hc ↦ (hscheme ':' hc).2 rfl) hne hw rest)
      fun _ _ _ hstart _ ↦ foundAt_prefixUse_congr hstart)

end Bare

end SparqlComposer
