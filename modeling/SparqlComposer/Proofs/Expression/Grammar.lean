import SparqlComposer.Proofs.Expression.Call
import SparqlComposer.Proofs.Expression.Classify
import SparqlComposer.Proofs.Path.Names
import SparqlComposer.Proofs.Reading.Word

/-!
# The grammar of expressions

    variable    ::= ('?' | '$') name
    prefixedIri ::= name ':' name | '<' iri '>'
    native      ::= digit+ | '"' body '"' tag
    tag         ::= ('@' letter+ ('-' (letter | digit)+)* | '^^' prefixedIri)?

An IRI and the name of a prefix are runs of their own, paths have their trees, and calls and
assignments are told by their heads. A kind admits a text just when the text is in its language and
no name of a function is misspelled where a head stands. Where one is, the check fails, whether the
text is in the language or not; it fails nowhere else.
-/

namespace SparqlComposer

/-! ## Terms -/

/-- Two names that are joined by a colon, or an IRI in angle brackets. -/
inductive PrefixedIri : Text → Prop where
  | prefixed (name localName : Run isWord) : PrefixedIri (name.text ++ ':' :: localName.text)
  | bracketed (iri : Run isIriChar) : PrefixedIri ('<' :: (iri.text ++ ['>']))

/-- The subtags of a language, with a hyphen in front of each. -/
def subtagsText (subtags : List (Run Char.isAlphanum)) : Text :=
  subtags.flatMap fun subtag ↦ '-' :: subtag.text

/-- What stands behind a string: nothing, a language, or a datatype. -/
inductive TagForm : Text → Prop where
  | plain : TagForm []
  | language (primary : Run Char.isAlpha) (subtags : List (Run Char.isAlphanum)) :
      TagForm ('@' :: (primary.text ++ subtagsText subtags))
  | datatype {t : Text} (h : PrefixedIri t) : TagForm ('^' :: '^' :: t)

/-- An integer, or a string with what stands behind it. -/
inductive NativeForm : Text → Prop where
  | integer (digits : Run Char.isDigit) : NativeForm digits.text
  | string {body tag : Text} (hbody : StringBody body) (htag : TagForm tag) :
      NativeForm ('"' :: (body ++ '"' :: tag))

section Terms

variable {t : Text}

theorem afterVariable?_eq_nil_iff : afterVariable? t = some [] ↔
    ∃ sigil, ∃ r : Run isWord, (sigil = '?' ∨ sigil = '$') ∧ t = sigil :: r.text := by
  constructor
  · intro h
    obtain ⟨sigil, r, hsigil, rfl⟩ := exists_of_afterVariable? h
    exact ⟨sigil, r, hsigil, by rw [List.append_nil]⟩
  · rintro ⟨sigil, r, hsigil, rfl⟩
    have hmark : isSigil sigil := by simpa [isSigil] using hsigil
    rw [afterVariable?, if_pos hmark]
    exact afterRun?_eq_nil_iff.mpr ⟨r, rfl⟩

theorem afterPrefixedIri?_eq_nil_iff : afterPrefixedIri? t = some [] ↔ PrefixedIri t := by
  constructor
  · intro h
    rcases cases_of_afterPrefixedIri? h with ⟨name, localName, rfl⟩ | ⟨iri, rfl⟩
    · rw [List.append_nil]
      exact .prefixed name localName
    · exact .bracketed iri
  · rintro (⟨name, localName⟩ | ⟨iri⟩)
    · have hread := afterPrefixedIri?_prefixed name localName (GoesOnWith.nil primaryEnds)
      rwa [List.append_nil] at hread
    · exact afterPrefixedIri?_bracketed iri []

theorem PrefixedIri.exists_primary (h : PrefixedIri t) : ∃ p : PathPrimary, p.text = t := by
  cases h with
  | prefixed name localName => exact ⟨.prefixed name localName, rfl⟩
  | bracketed iri => exact ⟨.bracketed iri, rfl⟩

theorem inSubtag_append {w : Text} (hw : ∀ c ∈ w, c.isAlphanum) (v : Text) :
    areSubtags.inSubtag (w ++ v) = areSubtags.inSubtag v := by
  induction w with
  | nil => rfl
  | cons c w ih =>
      rw [List.forall_mem_cons] at hw
      rw [List.cons_append, areSubtags.inSubtag, if_pos hw.1, ih hw.2]

theorem fromSubtag_append (r : Run Char.isAlphanum) (v : Text) :
    areSubtags.fromSubtag (r.text ++ v) = areSubtags.inSubtag v := by
  obtain ⟨w, hne, hw⟩ := r
  obtain ⟨c, w, rfl⟩ := List.exists_cons_of_ne_nil hne
  rw [List.forall_mem_cons] at hw
  rw [List.cons_append, areSubtags.fromSubtag, hw.1, Bool.true_and, inSubtag_append hw.2]

theorem inSubtag_subtagsText (subtags : List (Run Char.isAlphanum)) :
    areSubtags.inSubtag (subtagsText subtags) := by
  induction subtags with
  | nil => rfl
  | cons subtag subtags ih =>
      have hhyphen : ¬ '-'.isAlphanum := by decide
      rw [subtagsText, List.flatMap_cons, List.cons_append, areSubtags.inSubtag, if_neg hhyphen,
        fromSubtag_append]
      exact ih

/-- Where the rest of a subtag may stand, its characters are followed by subtags, and where a subtag
must stand, there is at least one character. -/
theorem exists_of_subtag (t : Text) :
    (areSubtags.inSubtag t → ∃ w subtags, t = w ++ subtagsText subtags ∧ ∀ c ∈ w, c.isAlphanum) ∧
      (areSubtags.fromSubtag t → ∃ (r : Run Char.isAlphanum) (subtags : _),
        t = r.text ++ subtagsText subtags) := by
  induction t with
  | nil => exact ⟨fun _ ↦ ⟨[], [], rfl, List.forall_mem_nil _⟩, fun h ↦ nomatch h⟩
  | cons c cs ih =>
      constructor
      · intro h
        rw [areSubtags.inSubtag] at h
        split at h
        · rename_i hc
          obtain ⟨w, subtags, rfl, hw⟩ := ih.1 h
          exact ⟨c :: w, subtags, rfl, List.forall_mem_cons.mpr ⟨hc, hw⟩⟩
        · rw [Bool.and_eq_true, beq_iff_eq] at h
          obtain ⟨rfl, h⟩ := h
          obtain ⟨r, subtags, rfl⟩ := ih.2 h
          exact ⟨[], r :: subtags, rfl, List.forall_mem_nil _⟩
      · intro h
        rw [areSubtags.fromSubtag, Bool.and_eq_true] at h
        obtain ⟨hc, h⟩ := h
        obtain ⟨w, subtags, rfl, hw⟩ := ih.1 h
        exact ⟨⟨c :: w, List.cons_ne_nil c w, List.forall_mem_cons.mpr ⟨hc, hw⟩⟩, subtags, rfl⟩

theorem areSubtags_iff : areSubtags t ↔ ∃ subtags, t = subtagsText subtags := by
  constructor
  · intro h
    cases t with
    | nil => exact ⟨[], rfl⟩
    | cons c cs =>
        rw [areSubtags, Bool.and_eq_true, beq_iff_eq] at h
        obtain ⟨rfl, h⟩ := h
        obtain ⟨r, subtags, rfl⟩ := (exists_of_subtag cs).2 h
        exact ⟨r :: subtags, rfl⟩
  · rintro ⟨_ | ⟨r, subtags⟩, rfl⟩
    · rfl
    · change ('-' == '-' && areSubtags.fromSubtag (r.text ++ subtagsText subtags)) = true
      rw [fromSubtag_append, inSubtag_subtagsText]
      rfl

theorem isLanguageTag_iff : isLanguageTag t ↔ ∃ (primary : Run Char.isAlpha) (subtags : _),
    t = '@' :: (primary.text ++ subtagsText subtags) := by
  simp only [isLanguageTag, Option.any_eq_true, Option.bind_eq_some_iff, afterChar?_eq_some_iff]
  constructor
  · rintro ⟨v, ⟨u, rfl, hrun⟩, hsubtags⟩
    obtain ⟨primary, rfl⟩ := exists_run hrun
    obtain ⟨subtags, rfl⟩ := areSubtags_iff.mp hsubtags
    exact ⟨primary, subtags, rfl⟩
  · rintro ⟨primary, subtags, rfl⟩
    refine ⟨_, ⟨_, rfl, afterRun?_append primary ?_⟩, areSubtags_iff.mpr ⟨subtags, rfl⟩⟩
    cases subtags with
    | nil =>
        intro c hc
        cases hc
    | cons subtag subtags =>
        intro c hc
        obtain rfl : '-' = c := Option.some.inj hc
        decide

theorem isDatatypeTag_iff : isDatatypeTag t ↔ ∃ u, t = '^' :: '^' :: u ∧ PrefixedIri u := by
  simp only [isDatatypeTag, beq_iff_eq, Option.bind_eq_some_iff, afterChar?_eq_some_iff,
    afterPrefixedIri?_eq_nil_iff]
  constructor
  · rintro ⟨u, ⟨_, rfl, rfl⟩, hu⟩
    exact ⟨u, rfl, hu⟩
  · rintro ⟨u, rfl, hu⟩
    exact ⟨u, ⟨_, rfl, rfl⟩, hu⟩

theorem tagForm_iff : TagForm t ↔ (t.isEmpty || isLanguageTag t || isDatatypeTag t) := by
  rw [Bool.or_eq_true, Bool.or_eq_true, List.isEmpty_iff, isLanguageTag_iff, isDatatypeTag_iff]
  constructor
  · rintro (_ | ⟨primary, subtags⟩ | h)
    · exact .inl (.inl rfl)
    · exact .inl (.inr ⟨primary, subtags, rfl⟩)
    · exact .inr ⟨_, rfl, h⟩
  · rintro ((rfl | ⟨primary, subtags, rfl⟩) | ⟨u, rfl, hu⟩)
    · exact .plain
    · exact .language primary subtags
    · exact .datatype hu

theorem TagForm.not_isBlank (h : TagForm t) : ∀ c ∈ t, ¬ isBlank c :=
  fun _ hc hblank ↦ Reading.not_mem_of_isTag (tagForm_iff.mp h) hblank hc

theorem not_isBlank_digits (digits : Run Char.isDigit) : ∀ c ∈ digits.text, ¬ isBlank c := by
  intro c hc
  have halphanum : (c.isUpper || c.isLower) || c.isDigit := by
    rw [digits.inClass_of_mem c hc, Bool.or_true]
  exact not_isBlank_of_isWord (isWord_of_isAlphanum halphanum)

/-- Whether its tabs are expanded makes no difference to a literal. -/
theorem isNative_expandTabs_iff : isNative (expandTabs t) ↔ NativeForm t := by
  constructor
  · intro h
    rcases Reading.cases_of_isNative h with hinteger | ⟨tag, hread, htag⟩
    · obtain ⟨digits, rfl⟩ := afterRun?_eq_nil_iff.mp (beq_iff_eq.mp hinteger)
      exact .integer digits
    · obtain ⟨body, hbody, rfl⟩ := afterString?_eq_some_iff_body.mp hread
      exact .string hbody (tagForm_iff.mpr htag)
  · rw [isNative, Bool.or_eq_true, Option.any_eq_true]
    rintro (⟨digits⟩ | ⟨hbody, htag⟩)
    · have htab : '\t' ∉ digits.text := fun hmem ↦ not_isBlank_digits digits _ hmem (by decide)
      rw [expandTabs_eq_self htab]
      exact .inl (beq_iff_eq.mpr (afterRun?_eq_nil_iff.mpr ⟨digits, rfl⟩))
    · rename_i body tag
      have htab : '\t' ∉ tag := fun hmem ↦ htag.not_isBlank '\t' hmem (by decide)
      have hread : afterString? ('"' :: (body ++ '"' :: tag)) = some tag :=
        afterString?_eq_some_iff_body.mpr ⟨body, hbody, rfl⟩
      exact .inr ⟨tag, afterString?_expandTabs hread htab, tagForm_iff.mp htag⟩

theorem NativeForm.not_isPadded (h : NativeForm t) : ¬ isPadded t := by
  cases h with
  | integer digits =>
      exact Kind.not_isPadded (fun c hc ↦ not_isBlank_digits digits c (List.mem_of_mem_head? hc))
        fun c hc ↦ not_isBlank_digits digits c (List.mem_of_getLast? hc)
  | @string body tag _ htag =>
      have hquote : ¬ isBlank '"' := by decide
      refine Kind.not_isPadded ?_ fun c hc ↦ ?_
      · rintro c hc
        obtain rfl : '"' = c := Option.some.inj hc
        exact hquote
      · rw [← List.cons_append, List.getLast?_append_of_ne_nil _ (List.cons_ne_nil _ _)] at hc
        rcases List.mem_cons.mp (List.mem_of_getLast? hc) with rfl | hmem
        · exact hquote
        · exact htag.not_isBlank c hmem

end Terms

/-! ## The kinds -/

namespace Kind

/-- The texts of a kind, whether or not they can be read. -/
def Derives : Kind → Text → Prop
  | var, t => ∃ sigil, ∃ r : Run isWord, (sigil = '?' ∨ sigil = '$') ∧ t = sigil :: r.text
  | iri, t => ∃ r : Run isIriChar, t = r.text
  | prefixName, t => ∃ r : Run isWord, t = r.text
  | prefixedIri, t => PrefixedIri t
  | native, t => NativeForm t
  | path, t => ∃ p : PropertyPath, p.text = t
  | function, t => trimmed t = t ∧ IsCall (expandTabs t) ∧ Balanced t
  | assignment, t => trimmed t = t ∧ IsAssignment (expandTabs t) ∧ Balanced t

/-- The texts in which a name of a function is misspelled where a head of the kind stands. -/
def Misspells : Kind → Text → Text → Prop
  | function, t, w => trimmed t = t ∧ SparqlComposer.Misspells (expandTabs t) w
  | assignment, t, w => trimmed t = t ∧ MisspellsInside (expandTabs t) w
  | _, _, _ => False

/-- The texts that are not of the kind, with no name of a function misspelled in them. -/
def Rejects (k : Kind) (t : Text) : Prop := ¬ k.Derives t ∧ ∀ w, ¬ k.Misspells t w

section Admits

variable {k : Kind} {t : Text}

theorem Derives.not_isBlank (hk : k.isToken) (h : k.Derives t) : ∀ c ∈ t, ¬ isBlank c := by
  have hword : ∀ c, isWord c → ¬ isBlank c := fun _ ↦ not_isBlank_of_isWord
  cases k with
  | var =>
      obtain ⟨sigil, r, hsigil, rfl⟩ := h
      refine List.forall_mem_cons.mpr ⟨?_, fun c hc ↦ hword c (r.inClass_of_mem c hc)⟩
      rcases hsigil with rfl | rfl <;> decide
  | iri =>
      obtain ⟨r, rfl⟩ := h
      exact fun c hc ↦ not_isBlank_of_isIriChar (r.inClass_of_mem c hc)
  | prefixName =>
      obtain ⟨r, rfl⟩ := h
      exact fun c hc ↦ hword c (r.inClass_of_mem c hc)
  | prefixedIri =>
      obtain ⟨p, rfl⟩ := h.exists_primary
      simpa using p.all_not_isBlank
  | path =>
      obtain ⟨p, rfl⟩ := h
      simpa using p.all_not_isBlank
  | native => cases hk
  | function => cases hk
  | assignment => cases hk

theorem hasForm_token_iff (hk : k.isToken) : k.hasForm t = .ok true ↔ k.Derives t := by
  cases k with
  | var => simp [hasForm, Derives, afterVariable?_eq_nil_iff]
  | iri => simp [hasForm, Derives, afterIri?, afterRun?_eq_nil_iff]
  | prefixName => simp [hasForm, Derives, afterWord?, afterRun?_eq_nil_iff]
  | prefixedIri => simp [hasForm, Derives, afterPrefixedIri?_eq_nil_iff]
  | path => simp [hasForm, Derives, isPath_iff_exists]
  | native => cases hk
  | function => cases hk
  | assignment => cases hk

theorem admits_token_iff (hk : k.isToken) : k.admits t = .ok true ↔ k.Derives t := by
  constructor
  · exact fun h ↦ (hasForm_token_iff hk).mp (hasForm_of_admits hk h)
  · exact fun h ↦ admits_of_hasForm hk (h.not_isBlank hk) ((hasForm_token_iff hk).mpr h)

theorem admits_native_iff : native.admits t = .ok true ↔ native.Derives t := by
  constructor
  · exact fun h ↦ isNative_expandTabs_iff.mp (Except.ok.inj (of_admits h).1)
  · intro h
    rw [admits, if_neg h.not_isPadded]
    change Except.ok (isNative (expandTabs t) && true) = .ok true
    rw [isNative_expandTabs_iff.mpr h]
    rfl

/-- The check of a text fails where the reading of its form does, unless it is refused before. -/
theorem admits_eq_error_iff_hasForm {e : Error} : k.admits t = .error e ↔
    k.hasForm (expandTabs t) = .error e ∧ trimmed t = t ∧ ¬ (k.isToken && t.any isBlank) := by
  rw [admits, trimmed_eq_self_iff, ← Bool.not_eq_true]
  split
  · rename_i hpadded
    refine iff_of_false ?_ fun h ↦ h.2.1 hpadded
    intro h
    cases h
  · rename_i hpadded
    split
    · rename_i hblank
      refine iff_of_false ?_ fun h ↦ h.2.2 hblank
      intro h
      cases h
    · rename_i hblank
      rw [Except.bind_eq_error_iff]
      constructor
      · rintro (h | ⟨b, -, h⟩)
        · exact ⟨h, hpadded, hblank⟩
        · exact absurd h Except.pure_ne_error
      · exact fun h ↦ .inl h.1

/-- A kind admits a text just when the text is in its language and no name is misspelled in it. -/
theorem admits_eq_ok_true_iff :
    k.admits t = .ok true ↔ k.Derives t ∧ ∀ w, ¬ k.Misspells t w := by
  -- Blanks at the ends are refused before anything is read, and brackets are compared behind that.
  have hcall {called : Prop} {misspells : Text → Prop} :
      isPadded t = false ∧ (called ∧ ∀ w, ¬ misspells w) ∧ isBalanced t ↔
        (trimmed t = t ∧ called ∧ Balanced t) ∧ ∀ w, ¬ (trimmed t = t ∧ misspells w) := by
    rw [← trimmed_eq_self_iff, isBalanced_iff]
    constructor
    · rintro ⟨htrimmed, ⟨hcalled, hspelled⟩, hbalanced⟩
      exact ⟨⟨htrimmed, hcalled, hbalanced⟩, fun w hw ↦ hspelled w hw.2⟩
    · rintro ⟨⟨htrimmed, hcalled, hbalanced⟩, hspelled⟩
      exact ⟨htrimmed, ⟨hcalled, fun w hw ↦ hspelled w ⟨htrimmed, hw⟩⟩, hbalanced⟩
  cases k with
  | native => exact admits_native_iff.trans (and_iff_left fun _ h ↦ h).symm
  | function =>
      rw [admits_isCall_iff rfl, hasForm, isFunctionCall_eq_ok_true_iff]
      exact hcall
  | assignment =>
      have htab : '\t' ∉ expandTabs t := not_mem_expandTabsFrom t 0
      rw [admits_isCall_iff rfl, hasForm, isFunctionAssignment_eq_ok_true_iff htab]
      exact hcall
  | _ => exact (admits_token_iff rfl).trans (and_iff_left fun _ h ↦ h).symm

/-- The check of a text fails just when a name is misspelled in it. -/
theorem admits_eq_error_iff {e : Error} :
    k.admits t = .error e ↔ ∃ w, k.Misspells t w ∧ e = .unknownFunction w := by
  have hcall {misspells : Text → Prop} :
      (∃ w, misspells w ∧ e = .unknownFunction w) ∧ trimmed t = t ∧ ¬ (false && t.any isBlank) ↔
        ∃ w, (trimmed t = t ∧ misspells w) ∧ e = .unknownFunction w := by
    constructor
    · rintro ⟨⟨w, hw, he⟩, htrimmed, -⟩
      exact ⟨w, ⟨htrimmed, hw⟩, he⟩
    · rintro ⟨w, ⟨htrimmed, hw⟩, he⟩
      exact ⟨⟨w, hw, he⟩, htrimmed, Bool.false_ne_true⟩
  rw [admits_eq_error_iff_hasForm]
  cases k with
  | function =>
      rw [hasForm, isFunctionCall_eq_error_iff]
      exact hcall
  | assignment =>
      have htab : '\t' ∉ expandTabs t := not_mem_expandTabsFrom t 0
      rw [hasForm, isFunctionAssignment_eq_error_iff htab]
      exact hcall
  | _ => simp [hasForm, Misspells]

theorem admits_eq_ok_false_iff : k.admits t = .ok false ↔ k.Rejects t := by
  constructor
  · intro h
    have hspelled : ∀ w, ¬ k.Misspells t w := fun w hw ↦
      nomatch h.symm.trans (admits_eq_error_iff.mpr ⟨w, hw, rfl⟩)
    refine ⟨fun hderives ↦ ?_, hspelled⟩
    cases h.symm.trans (admits_eq_ok_true_iff.mpr ⟨hderives, hspelled⟩)
  · rintro ⟨hderives, hspelled⟩
    cases h : k.admits t with
    | error e =>
        obtain ⟨w, hw, -⟩ := admits_eq_error_iff.mp h
        exact absurd hw (hspelled w)
    | ok b =>
        cases b with
        | true => exact absurd (admits_eq_ok_true_iff.mp h).1 hderives
        | false => rfl

end Admits

end Kind

end SparqlComposer
