import SparqlComposer.Proofs.Literal.Term
import SparqlComposer.Proofs.Path.Names

/-!
# Names in literals

The string of a literal is hidden up to its first quotation mark, and that is all of it unless the
mark is escaped. So a literal without escaped quotation marks mentions nothing but the prefix of its
datatype. In any other, the string ends too early for the captures: they read what follows the first
escaped mark as if it stood behind a string of its own, and find names in it.
-/

namespace SparqlComposer

/-! ## Tags -/

/-- The prefix of a datatype that is written as a prefixed name. -/
def tagPrefix? : Text → Option Text
  | '^' :: '^' :: name => (afterPrefixedName? name).map fun _ ↦ name.takeWhile isWord
  | _ => none

/-- The prefix of the datatype behind the string at the start of a text. -/
def datatypePrefix? (t : Text) : Option Text := (afterString? t).bind tagPrefix?

theorem tagPrefix?_prefixed (name localName : Run isWord) :
    tagPrefix? ('^' :: '^' :: (name.text ++ ':' :: localName.text)) = some name.text := by
  have hcolon := not_isWord_of_head (c := ':') (by decide) localName.text
  have hname : afterWord? (name.text ++ ':' :: localName.text) = some (':' :: localName.text) :=
    afterRun?_append name hcolon
  have hlocal : afterWord? localName.text = some [] := by
    have hend : ∀ c ∈ ([] : Text).head?, ¬ isWord c := by
      intro c hc
      cases hc
    have hrun := afterRun?_append localName hend
    rwa [List.append_nil] at hrun
  have hboth : afterPrefixedName? (name.text ++ ':' :: localName.text) = some [] := by
    simp [afterPrefixedName?, afterPrefix?, hname, afterChar?, hlocal]
  rw [tagPrefix?, hboth, Option.map_some, takeWhile_run name hcolon]

/-- A language mentions nothing. -/
theorem scan_languageTag {tag : Text} (h : isLanguageTag tag) (before : Text) :
    scan variableUse 0 before (escaped tag) = [] ∧ scan prefixUse 0 before (escaped tag) = [] ∧
      tagPrefix? tag = none := by
  have hnot {c : Char} (hc : c.isAlphanum = false) (hmark : c ∉ ['@', '-']) : c ∉ tag :=
    Reading.not_mem_of_isLanguageTag h hc hmark
  have hplain : escaped tag = tag := escaped_eq_self fun c hc ↦ ⟨
    fun heq ↦ hnot (c := '"') (by decide) (by decide) (heq ▸ hc),
    fun heq ↦ hnot (c := '<') (by decide) (by decide) (heq ▸ hc)⟩
  have hsigil : ∀ c ∈ tag, ¬ isSigil c := by
    intro c hc hsigil
    rcases cases_of_isSigil hsigil with rfl | rfl
    · exact hnot (by decide) (by decide) hc
    · exact hnot (by decide) (by decide) hc
  have hvariables := scan_variableUse_append hsigil before []
  rw [List.append_nil] at hvariables
  refine ⟨?_, ?_, ?_⟩
  · rw [hplain, hvariables]
    rfl
  · rw [hplain, scan_prefixUse_eq_nil (hnot (c := ':') (by decide) (by decide))]
  · unfold tagPrefix?
    split
    · exact absurd List.mem_cons_self (hnot (c := '^') (by decide) (by decide))
    · rfl

/-- A datatype mentions its prefix, if it has one. -/
theorem scan_datatypeTag {tag : Text} (h : isDatatypeTag tag) (before : Text) :
    scan variableUse 0 before (escaped tag) = [] ∧
      scan prefixUse 0 before (escaped tag) = (tagPrefix? tag).toList := by
  simp only [isDatatypeTag, beq_iff_eq, Option.bind_eq_some_iff, afterChar?_eq_some_iff] at h
  obtain ⟨u, ⟨v, rfl, rfl⟩, hiri⟩ := h
  have hscan {pattern : CapturePattern} {names : Run isWord → List Text}
      (hp : SeesNames pattern names) (p : PathPrimary) :
      scan pattern 0 before (escaped ('^' :: '^' :: p.text)) = p.prefixNames.flatMap names := by
    have hend := GoesOnWith.nil primaryEnds
    have hstart : atWordStart ('^' :: '^' :: before) := rfl
    obtain ⟨b, hscan⟩ := p.scan_text hp hstart hend
    rw [hp.scan_mark (by decide) _ _ (fun heq ↦ absurd heq (by decide)),
      hp.scan_mark (by decide) _ _ (fun heq ↦ absurd heq (by decide))]
    simpa [escaped_nil, scan] using hscan
  rcases cases_of_afterPrefixedIri? hiri with ⟨name, localName, rfl⟩ | ⟨iri, rfl⟩
  · have htext : name.text ++ ':' :: (localName.text ++ []) =
        (PathPrimary.prefixed name localName).text := by
      simp [PathPrimary.text]
    rw [htext, hscan seesNames_variableUse, hscan seesNames_prefixUse, PathPrimary.text,
      tagPrefix?_prefixed]
    exact ⟨rfl, rfl⟩
  · have htext : '<' :: (iri.text ++ ['>']) = (PathPrimary.bracketed iri).text := by
      simp [PathPrimary.text]
    have hnamed : tagPrefix? ('^' :: '^' :: '<' :: (iri.text ++ ['>'])) = none := rfl
    rw [hnamed, htext, hscan seesNames_variableUse, hscan seesNames_prefixUse]
    exact ⟨rfl, rfl⟩

/-- What the captures find in the tag of a literal. -/
theorem scan_tag {tag : Text} (h : tag.isEmpty || isLanguageTag tag || isDatatypeTag tag)
    (before : Text) :
    scan variableUse 0 before (escaped tag) = [] ∧
      scan prefixUse 0 before (escaped tag) = (tagPrefix? tag).toList := by
  simp only [Bool.or_eq_true] at h
  rcases h with (hnone | hlanguage) | hdatatype
  · rw [List.isEmpty_iff.mp hnone, escaped_nil]
    exact ⟨rfl, rfl⟩
  · obtain ⟨hvariables, hprefixes, hnamed⟩ := scan_languageTag hlanguage before
    exact ⟨hvariables, by rw [hprefixes, hnamed, Option.toList_none]⟩
  · exact scan_datatypeTag hdatatype before

/-! ## Strings -/

/-- A span at the start of a text plays no part in what is captured behind it. -/
theorem captures_span {pattern : CapturePattern} (h : Blind pattern) {s : Span} (hs : s.Closed)
    {u : Text} (htab : '\t' ∉ u) :
    captures pattern (s.text ++ u) = .ofList (scan pattern 0 s.key.reverse (escaped u)) := by
  have hescaped : '\t' ∉ escaped (s.text ++ u) := by
    rw [escaped_span hs, List.mem_append, not_or]
    refine ⟨fun hmem ↦ ?_, not_mem_escaped (by decide) (by decide) (by decide) htab⟩
    exact absurd (Span.of_mem_key hmem) (by decide)
  have hscan := h.scan_span hs [] u
  rw [List.append_nil] at hscan
  rw [captures, expandTabs_eq_self hescaped, hscan]

/-- A quotation mark inside a string is escaped, so the first one has a backslash in front of it. -/
theorem exists_of_afterStringBody?_quote {b r rest : Text} (hb : '"' ∉ b)
    (h : afterStringBody? (b ++ '"' :: r) = some rest) (hrest : rest ≠ r) :
    ∃ b', b = b' ++ ['\\'] := by
  fun_induction afterStringBody? b with
  | case1 =>
      obtain rfl : r = rest := Option.some.inj h
      exact absurd rfl hrest
  | case2 rest' => exact absurd List.mem_cons_self hb
  | case3 => exact ⟨[], rfl⟩
  | case4 cs =>
      rw [List.cons_append, List.cons_append, afterStringBody?, if_pos rfl] at h
      cases h
  | case5 c cs hc ih =>
      rw [List.cons_append, List.cons_append, afterStringBody?, if_neg hc] at h
      obtain ⟨b', rfl⟩ := ih (fun hmem ↦ hb (by simp [hmem])) h
      exact ⟨'\\' :: c :: b', rfl⟩
  | case6 c cs hquote hlast hescape ih =>
      rw [List.cons_append,
        afterStringBody?_cons hquote (ne_backslash hlast hescape)] at h
      obtain ⟨b', rfl⟩ := ih (fun hmem ↦ hb (List.mem_cons_of_mem c hmem)) h
      exact ⟨c :: b', rfl⟩

theorem exists_escapedQuote {w : Text} (h : afterString? w = some []) (hquote : HasInnerQuote w) :
    ∃ b r, w = '"' :: (b ++ '\\' :: '"' :: r) ∧ '"' ∉ b := by
  obtain ⟨body, rfl, hbody⟩ := afterString?_eq_some_iff.mp h
  obtain ⟨w, rfl, -⟩ := exists_of_afterStringBody? hbody
  have hmem : '"' ∈ w := by simpa [HasInnerQuote] using hquote
  obtain ⟨b, r, rfl, hb⟩ := List.eq_append_cons_of_mem hmem
  rw [List.append_assoc, List.cons_append] at hbody ⊢
  obtain ⟨b', rfl⟩ := exists_of_afterStringBody?_quote hb hbody (by simp)
  refine ⟨b', r ++ ['"'], by simp, fun hmem ↦ hb ?_⟩
  exact List.mem_append_left _ hmem

/-- What is captured from a text that opens with a quoted span is what is captured behind an empty
one. -/
theorem Blind.captures_behind {pattern : CapturePattern} (h : Blind pattern) {body : Text}
    (hbody : '"' ∉ body) (rest : Text) :
    captures pattern ('"' :: (body ++ '"' :: rest)) = captures pattern ('"' :: '"' :: rest) := by
  have hsegments {body : Text} (hbody : '"' ∉ body) :
      segments ('"' :: (body ++ '"' :: rest)) = .span (.quoted body) :: segments rest := by
    have hclosed : (Span.quoted body).Closed := hbody
    have hspan := segments_span hclosed rest
    simpa [Span.text] using hspan
  apply h.captures_eq
  have hempty : segments ('"' :: '"' :: rest) = .span (.quoted []) :: segments rest :=
    hsegments List.not_mem_nil
  rw [hsegments hbody, hempty]
  rfl

/-! ## Literals -/

/-- A word mentions nothing. -/
theorem names_of_word {t : Text} (h : ∀ c ∈ t, isWord c) :
    variablesOf t = ∅ ∧ assignmentsOf t = ∅ ∧ prefixesOf t = ∅ := by
  have hnot {c : Char} (hc : ¬ isWord c) : c ∉ t := fun hmem ↦ hc (h c hmem)
  have hplain : escaped t = t := escaped_eq_self fun c hc ↦ ne_of_isWord (h c hc)
  have hcaptures (pattern : CapturePattern) :
      captures pattern t = .ofList (scan pattern 0 [] t) := by
    rw [captures, hplain, expandTabs_eq_self (hnot (by decide))]
  have hvariables := scan_variableUse_append (fun c hc ↦ not_isSigil_of_isWord (h c hc)) [] []
  rw [List.append_nil] at hvariables
  rw [variablesOf, assignmentsOf, prefixesOf, hcaptures, hcaptures, hcaptures, hvariables,
    scan_assignmentTarget_eq_nil (hnot (by decide)), scan_prefixUse_eq_nil (hnot (by decide))]
  exact ⟨rfl, rfl, rfl⟩

theorem closed_of_not_hasInnerQuote {w : Text} (hw : afterString? w = some [])
    (hquote : ¬ HasInnerQuote w) : ∃ s : Span, s.Closed ∧ s.text = w :=
  ⟨.quoted w.tail.dropLast, hquote, (Part.string w hw).text_segment⟩

/-- A string is hidden whole when it holds no escaped quotation mark, and then only the tag behind
it is read. -/
theorem names_of_string {w tag : Text} (hw : afterString? w = some []) (hquote : ¬ HasInnerQuote w)
    (htag : tag.isEmpty || isLanguageTag tag || isDatatypeTag tag) :
    variablesOf (w ++ tag) = ∅ ∧ assignmentsOf (w ++ tag) = ∅ ∧
      (prefixesOf (w ++ tag)).toList = (tagPrefix? tag).toList := by
  obtain ⟨s, hs, rfl⟩ := closed_of_not_hasInnerQuote hw hquote
  have htab : '\t' ∉ tag := Reading.not_mem_of_isTag htag (by decide)
  have hspace : ' ' ∉ escaped tag := not_mem_escaped (by decide) (by decide) (by decide)
    (Reading.not_mem_of_isTag htag (by decide))
  obtain ⟨hvariables, hprefixes⟩ := scan_tag htag s.key.reverse
  rw [variablesOf, assignmentsOf, prefixesOf, captures_span blind_variableUse hs htab,
    captures_span blind_assignmentTarget hs htab, captures_span blind_prefixUse hs htab,
    hvariables, hprefixes, scan_assignmentTarget_eq_nil hspace]
  refine ⟨rfl, rfl, ?_⟩
  cases tagPrefix? tag <;> rfl

theorem names_of_integer {t : Text} (h : isInteger t) :
    variablesOf t = ∅ ∧ assignmentsOf t = ∅ ∧ prefixesOf t = ∅ ∧ datatypePrefix? t = none := by
  obtain ⟨r, hr⟩ := exists_run (beq_iff_eq.mp h)
  rw [List.append_nil] at hr
  subst hr
  obtain ⟨hvariables, hassignments, hprefixes⟩ :=
    names_of_word fun c hc ↦ isWord_of_isDigit (r.inClass_of_mem c hc)
  have hstring : afterString? r.text = none := by
    obtain ⟨c, cs, hcs⟩ := List.exists_cons_of_ne_nil r.ne_nil
    rw [hcs]
    refine afterString?_eq_none ?_ cs
    rintro rfl
    exact absurd (r.inClass_of_mem '"' (hcs ▸ List.mem_cons_self)) (by decide)
  refine ⟨hvariables, hassignments, hprefixes, ?_⟩
  rw [datatypePrefix?, hstring, Option.bind_none]

/-- A string with an escaped quotation mark is hidden up to the first one only. -/
theorem exists_captures_behind {w : Text} (hw : afterString? w = some [])
    (hquote : HasInnerQuote w) (tag : Text) : ∃ b rest, '"' ∉ b ∧
      w ++ tag = '"' :: (b ++ '\\' :: '"' :: rest) ∧ ∀ pattern, Blind pattern →
        captures pattern (w ++ tag) = captures pattern ('"' :: '"' :: rest) := by
  obtain ⟨b, r, rfl, hb⟩ := exists_escapedQuote hw hquote
  have hbody : '"' ∉ b ++ ['\\'] := by simpa using hb
  have htext : '"' :: (b ++ '\\' :: '"' :: r) ++ tag =
      '"' :: (b ++ ['\\'] ++ '"' :: (r ++ tag)) := by
    simp
  refine ⟨b, r ++ tag, hb, by simp, fun pattern hpattern ↦ ?_⟩
  rw [htext]
  exact hpattern.captures_behind hbody (r ++ tag)

/-- A literal without escaped quotation marks mentions the prefix of its datatype and nothing else.
With one, it mentions what stands behind the first of them. -/
theorem classify_native_names (objectText : Ref → Except Error Text) {t : Text}
    (h : Kind.native.admits t = .ok true) :
    ∃ e, classify objectText [.native] (.text t) = .ok e ∧ e.kind = .native ∧
      ((∀ w ∈ stringPart? t, ¬ HasInnerQuote w) →
        e.references = ∅ ∧ e.assignments = ∅ ∧
          e.prefixes.toList = (datatypePrefix? t).toList) ∧
      (∀ w ∈ stringPart? t, HasInnerQuote w → ∃ b rest, '"' ∉ b ∧
        t = '"' :: (b ++ '\\' :: '"' :: rest) ∧
        e.references = variablesOf ('"' :: '"' :: rest) ∧
        e.assignments = assignmentsOf ('"' :: '"' :: rest) ∧
        e.prefixes = prefixesOf ('"' :: '"' :: rest)) := by
  have hreads : (Value.text t).Reads [.native] (.ofKind .native t) :=
    Value.reads_singleton_iff.mpr ⟨t, rfl, h, rfl⟩
  refine ⟨_, classify_eq_ok_iff.mpr hreads, Expression.kind_ofKind _ _, ?_, ?_⟩
  · intro hquote
    rcases Reading.cases_of_isNative (Except.ok.inj (Kind.of_admits h).1) with
      hinteger | ⟨tag, hread, htag⟩
    · obtain ⟨hvariables, hassignments, hprefixes, hnone⟩ := names_of_integer hinteger
      refine ⟨hvariables, hassignments, ?_⟩
      rw [hnone]
      exact congrArg OrderedSet.toList hprefixes
    · obtain ⟨w, rfl, hw, hpart⟩ := stringPart?_eq_some hread
      obtain ⟨hvariables, hassignments, hprefixes⟩ := names_of_string hw (hquote w hpart) htag
      refine ⟨hvariables, hassignments, ?_⟩
      rw [datatypePrefix?, hread, Option.bind_some]
      exact hprefixes
  · intro w hpart hquote
    obtain ⟨tag, hread, -⟩ := Option.map_eq_some_iff.mp hpart
    obtain ⟨w', rfl, hw, hpart'⟩ := stringPart?_eq_some hread
    obtain rfl := Option.some.inj (hpart.symm.trans hpart')
    obtain ⟨b, rest, hb, htext, hcaptures⟩ := exists_captures_behind hw hquote tag
    exact ⟨b, rest, hb, htext, hcaptures _ blind_variableUse, hcaptures _ blind_assignmentTarget,
      hcaptures _ blind_prefixUse⟩

/-- Names in a string are not mentioned, the prefix of its datatype is, and behind an escaped
quotation mark the names are mentioned. -/
theorem native_names_escapedQuote : ∃ t u : Text, ∃ e f : Expression,
    Kind.native.admits t = .ok true ∧ classify (fun _ ↦ .ok []) [.native] (.text t) = .ok e ∧
      t = "\"(?x AS ?y) \\\\ p:q\"^^xsd:string".toList ∧
      e.references = ∅ ∧ e.assignments = ∅ ∧ e.prefixes.toList = ["xsd".toList] ∧
    Kind.native.admits u = .ok true ∧ classify (fun _ ↦ .ok []) [.native] (.text u) = .ok f ∧
      u = "\"a\\\" ?x\"".toList ∧ f.references.toList = ["x".toList] := by
  let t : Text := "\"(?x AS ?y) \\\\ p:q\"^^xsd:string".toList
  let u : Text := "\"a\\\" ?x\"".toList
  have ht : Kind.native.admits t = .ok true := rfl
  have hu : Kind.native.admits u = .ok true := rfl
  obtain ⟨e, he, -, hplain, -⟩ := classify_native_names (fun _ ↦ .ok []) ht
  have hread : (Value.text u).Reads [.native] (.ofKind .native u) :=
    Value.reads_singleton_iff.mpr ⟨u, rfl, hu, rfl⟩
  have hpart : stringPart? t = some "\"(?x AS ?y) \\\\ p:q\"".toList := rfl
  have hquote : ∀ w ∈ stringPart? t, ¬ HasInnerQuote w := by
    intro w hw
    rw [← Option.some.inj (hpart.symm.trans hw)]
    simp [HasInnerQuote]
  obtain ⟨hreferences, hassignments, hprefixes⟩ := hplain hquote
  have hnamed : datatypePrefix? t = some "xsd".toList := rfl
  rw [hnamed] at hprefixes
  exact ⟨t, u, e, .ofKind .native u, ht, he, rfl, hreferences, hassignments, hprefixes, hu,
    classify_eq_ok_iff.mpr hread, rfl, by decide +kernel⟩

end SparqlComposer
