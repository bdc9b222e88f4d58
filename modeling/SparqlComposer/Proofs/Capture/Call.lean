import SparqlComposer.Proofs.Capture.Place
import SparqlComposer.Proofs.Expression.Classify

/-!
# Names in calls

In a call, a name stands outside the strings and the bracketed IRIs when no string or IRI covers it
that is read from the left. The captures hide spans instead, which need be neither: the signs of two
comparisons make a span, and so do a quotation mark that is escaped and the next one. In front of
the first such span, and everywhere if there is none, the names of a call are captured.
-/

namespace SparqlComposer

/-! ## Strings and bracketed IRIs -/

/-- What follows the string or the bracketed IRI at the start of a text. -/
def afterProtected? (t : Text) : Option Text := (afterString? t).or (afterBracketedIri? t)

theorem afterProtected?_eq_some_iff {t rest : Text} : afterProtected? t = some rest ↔
    afterString? t = some rest ∨ afterBracketedIri? t = some rest := by
  rw [afterProtected?, Option.or_eq_some_iff]
  constructor
  · rintro (h | ⟨-, h⟩)
    · exact .inl h
    · exact .inr h
  · rintro (h | h)
    · exact .inl h
    · obtain ⟨r, rfl⟩ := afterBracketedIri?_eq_some_iff.mp h
      exact .inr ⟨afterString?_eq_none (by decide) _, h⟩

theorem afterProtected?_append {t rest : Text} (h : afterProtected? t = some rest) (u : Text) :
    afterProtected? (t ++ u) = some (rest ++ u) := by
  rw [afterProtected?_eq_some_iff] at h ⊢
  rcases h with h | h
  · exact .inl (afterString?_append h u)
  · obtain ⟨r, rfl⟩ := afterBracketedIri?_eq_some_iff.mp h
    exact .inr (afterBracketedIri?_eq_some_iff.mpr ⟨r, by simp⟩)

/-- A string or a bracketed IRI opens a span. -/
theorem openedBy?_of_afterProtected? {c : Char} {t rest : Text}
    (h : afterProtected? (c :: t) = some rest) : Span.openedBy? c t ≠ none := by
  intro hopen
  obtain ⟨hquote, hbracket⟩ := openedBy?_eq_none_iff.mp hopen
  rcases afterProtected?_eq_some_iff.mp h with h | h
  · obtain ⟨body, heq, hbody⟩ := afterString?_eq_some_iff.mp h
    obtain ⟨rfl, rfl⟩ := List.cons.inj heq
    obtain ⟨w, rfl, -⟩ := exists_of_afterStringBody? hbody
    exact hquote rfl (by simp)
  · obtain ⟨r, heq⟩ := afterBracketedIri?_eq_some_iff.mp h
    obtain ⟨rfl, rfl⟩ := List.cons.inj heq
    exact hbracket rfl (by simp)

/-- A span that is a string or a bracketed IRI. -/
def Span.IsProtected (s : Span) : Prop := afterProtected? s.text = some []

/-! ## Places outside of them -/

/-- Places of a text outside its strings and bracketed IRIs, which are read from the left: what
stands behind the place, read backwards, and what stands ahead. -/
inductive Outside (t : Text) : Text → Text → Prop where
  | start : Outside t [] t
  | token {behind w rest : Text} (h : Outside t behind (w ++ rest))
      (hw : afterProtected? w = some []) : Outside t (w.reverse ++ behind) rest
  | char {behind rest : Text} {c : Char} (h : Outside t behind (c :: rest))
      (hc : afterProtected? (c :: rest) = none) : Outside t (c :: behind) rest

/-- A span that is neither a string nor a bracketed IRI opens among the first characters. -/
def OpensTornSpan (t : Text) (length : Nat) : Prop :=
  ∃ ss s ss', segments t = ss ++ .span s :: ss' ∧ (ss.flatMap Segment.text).length < length ∧
    ¬ s.IsProtected

/-- The place is in a span, so that the captures do not come by it, and a torn span opens in front
of it. -/
def IsHidden (t behind ahead : Text) : Prop :=
  ¬ IsBoundary t behind ahead ∧ OpensTornSpan t behind.length

theorem OpensTornSpan.mono {t : Text} {m n : Nat} (h : OpensTornSpan t m) (hle : m ≤ n) :
    OpensTornSpan t n := by
  obtain ⟨ss, s, ss', hss, hlt, hs⟩ := h
  exact ⟨ss, s, ss', hss, Nat.lt_of_lt_of_le hlt hle, hs⟩

theorem not_opensTornSpan {t : Text} (h : ∀ s ∈ spans (segments t), s.IsProtected) (n : Nat) :
    ¬ OpensTornSpan t n := by
  rintro ⟨ss, s, ss', hss, -, hs⟩
  exact hs (h s (List.mem_filterMap.mpr ⟨.span s, by simp [hss], rfl⟩))

/-- Up to the first torn span, the segments of a text are its strings, its bracketed IRIs and the
characters outside of them. -/
theorem Outside.isBoundary {t behind ahead : Text} (h : Outside t behind ahead)
    (htorn : ¬ OpensTornSpan t behind.length) : IsBoundary t behind ahead := by
  induction h with
  | start => exact .start t
  | @token behind w rest h hw ih =>
      have hhere : ¬ OpensTornSpan t behind.length := fun h ↦ htorn (h.mono (by simp))
      have hread := afterProtected?_append hw rest
      cases w with
      | nil => cases hw
      | cons c w =>
          have hlt : behind.length < ((c :: w).reverse ++ behind).length := by
            rw [List.length_append, List.length_reverse, List.length_cons]
            omega
          rcases (ih hhere).cases_of_cons with ⟨hopen, -⟩ | ⟨ss, s, ss', hss, rfl, hahead⟩
          · exact absurd hopen (openedBy?_of_afterProtected? hread)
          · have hs : s.IsProtected := not_not.mp fun hs ↦
              htorn ⟨ss, s, ss', hss, by simpa using hlt, hs⟩
            -- The span and what is read here are both whole, so they are the same.
            have hwhole : c :: w ++ rest = s.text ++ ss'.flatMap Segment.text := hahead
            have hsame := afterProtected?_append hs (ss'.flatMap Segment.text)
            rw [← hwhole, hread] at hsame
            obtain rfl : rest = ss'.flatMap Segment.text := by simpa using hsame
            have htext : c :: w = s.text := List.append_cancel_right hwhole
            refine ⟨ss ++ [.span s], ss', by simpa using hss, ?_, rfl⟩
            simp [htext, Segment.text]
  | @char behind rest c h hc ih =>
      have hhere : ¬ OpensTornSpan t behind.length := fun h ↦ htorn (h.mono (Nat.le_succ _))
      rcases (ih hhere).cases_of_cons with ⟨-, hnext⟩ | ⟨ss, s, ss', hss, rfl, hahead⟩
      · exact hnext
      · have hs : ¬ s.IsProtected := by
          intro hs
          have hsame := afterProtected?_append hs (ss'.flatMap Segment.text)
          rw [← hahead, hc] at hsame
          cases hsame
        exact absurd ⟨ss, s, ss', hss, by simp, hs⟩ htorn

theorem Outside.isBoundary_or_isHidden {t behind ahead : Text} (h : Outside t behind ahead) :
    IsBoundary t behind ahead ∨ IsHidden t behind ahead := by
  by_cases htorn : OpensTornSpan t behind.length
  · by_cases hplace : IsBoundary t behind ahead
    · exact .inl hplace
    · exact .inr ⟨hplace, htorn⟩
  · exact .inl (h.isBoundary htorn)

/-! ## Calls -/

theorem Kind.admits_function_iff {t : Text} : Kind.function.admits t = .ok true ↔
    isPadded t = false ∧ isFunctionCall (expandTabs t) = .ok true ∧ isBalanced t :=
  admits_isCall_iff rfl

/-- A call uses or assigns every variable outside its strings and bracketed IRIs, unless the
variable is hidden behind a torn span or follows an assigned one that is named like the keyword. It
uses the prefix of every prefixed name outside of them, unless the name is hidden behind a torn
span, and that of a prefixed name at its head. -/
theorem classify_function_names (objectText : Ref → Except Error Text) {t : Text}
    (h : Kind.function.admits t = .ok true) :
    ∃ e, classify objectText [.function] (.text t) = .ok e ∧ e.kind = .function ∧
      (∀ (behind : Text) (c : Char) (r : Run isWord) (rest : Text),
        Outside t behind (c :: (r.text ++ rest)) → isSigil c → atWordStart behind →
          (∀ d ∈ rest.head?, ¬ isWord d) →
          r.text ∈ e.references ∨ r.text ∈ e.assignments ∨
            IsHidden t behind (c :: (r.text ++ rest)) ∨ followsTargetAs (behind.map spaceForTab)) ∧
      (∀ (behind : Text) (name localName : Run isWord) (rest : Text),
        Outside t behind (name.text ++ ':' :: (localName.text ++ rest)) → atWordStart behind →
          behind.head? ≠ some ':' → (∀ d ∈ rest.head?, ¬ isWord d) →
          name.text ∈ e.prefixes ∨
            IsHidden t behind (name.text ++ ':' :: (localName.text ++ rest))) ∧
      (∀ (name localName : Run isWord) (rest : Text),
        t = name.text ++ ':' :: (localName.text ++ rest) → (∀ d ∈ rest.head?, ¬ isWord d) →
          name.text ∈ e.prefixes) := by
  have hreads : (Value.text t).Reads [.function] (.ofKind .function t) :=
    Value.reads_singleton_iff.mpr ⟨t, rfl, h, rfl⟩
  refine ⟨_, classify_eq_ok_iff.mpr hreads, Expression.kind_ofKind _ _, ?_, ?_, ?_⟩
  · intro behind c r rest houtside hc hstart hrest
    rcases houtside.isBoundary_or_isHidden with hplace | hhidden
    · rcases hplace.mem_variables hc hstart hrest with hused | hassigned | htarget
      · exact .inl hused
      · exact .inr (.inl hassigned)
      · exact .inr (.inr (.inr htarget))
    · exact .inr (.inr (.inl hhidden))
  · intro behind name localName rest houtside hstart hcolon hrest
    rcases houtside.isBoundary_or_isHidden with hplace | hhidden
    · exact .inl (hplace.mem_prefixes hstart hcolon hrest)
    · exact .inr hhidden
  · intro name localName rest hhead hrest
    have hplace : IsBoundary t [] (name.text ++ ':' :: (localName.text ++ rest)) :=
      hhead ▸ .start t
    exact hplace.mem_prefixes rfl (by simp) hrest

/-- A string that holds the sign of a comparison hides no name behind it. The signs of two
comparisons hide the names between them, a variable named like the keyword hides the next one, and
the prefix of a head is missed where no local name follows. -/
theorem function_names_comparison : ∃ t : Text, ∃ e,
    Kind.function.admits t = .ok true ∧ t = "ex:f(\"<\",?x)>?y".toList ∧
      classify (fun _ ↦ .ok []) [.function] (.text t) = .ok e ∧
      ("x".toList ∈ e.references ∨ "x".toList ∈ e.assignments) ∧ "ex".toList ∈ e.prefixes ∧
    Kind.function.admits "?a < ?b && ?c > ?d".toList = .ok true ∧
      (variablesOf "?a < ?b && ?c > ?d".toList).toList = ["a".toList, "d".toList] ∧
      (assignmentsOf "?a < ?b && ?c > ?d".toList).toList = [] ∧
    Kind.function.admits "?y AS ?AS ?x".toList = .ok true ∧
      (variablesOf "?y AS ?AS ?x".toList).toList = ["y".toList] ∧
      (assignmentsOf "?y AS ?AS ?x".toList).toList = ["AS".toList] ∧
    Kind.function.admits "ex:(?x)".toList = .ok true ∧
      (prefixesOf "ex:(?x)".toList).toList = [] := by
  let t : Text := "ex:f(\"<\",?x)>?y".toList
  let x : Run isWord := ⟨"x".toList, by decide, List.all_iff_forall_prop.mp (by decide)⟩
  let ex : Run isWord := ⟨"ex".toList, by decide, List.all_iff_forall_prop.mp (by decide)⟩
  let f : Run isWord := ⟨"f".toList, by decide, List.all_iff_forall_prop.mp (by decide)⟩
  have hadmits {u : Text} (hpadded : isPadded u = false)
      (hcall : isFunctionCall (expandTabs u) = .ok true) (hbalanced : isBalanced u) :
      Kind.function.admits u = .ok true := Kind.admits_function_iff.mpr ⟨hpadded, hcall, hbalanced⟩
  have ht : Kind.function.admits t = .ok true := hadmits rfl rfl (by decide +kernel)
  have hhead : Outside t "(f:xe".toList "\"<\",?x)>?y".toList :=
    .char (.char (.char (.char (.char .start rfl) rfl) rfl) rfl) rfl
  have hplace : Outside t ",\"<\"(f:xe".toList ('?' :: (x.text ++ ")>?y".toList)) :=
    .char (.token (w := "\"<\"".toList) hhead rfl) rfl
  have hspans : spans (segments t) = [.quoted ['<']] := by decide +kernel
  have hprotected : ∀ s ∈ spans (segments t), s.IsProtected := by
    intro s hs
    rw [hspans] at hs
    obtain rfl := List.mem_singleton.mp hs
    rfl
  obtain ⟨e, he, -, hvariables, -, hprefixes⟩ := classify_function_names (fun _ ↦ .ok []) ht
  have hx : "x".toList ∈ e.references ∨ "x".toList ∈ e.assignments := by
    have hend := not_isWord_of_head (c := ')') (by decide) ">?y".toList
    rcases hvariables _ '?' x _ hplace rfl (by decide) hend with hx | hx | hhidden | htarget
    · exact .inl hx
    · exact .inr hx
    · exact absurd hhidden.2 (not_opensTornSpan hprotected _)
    · exact absurd htarget (by decide)
  have hex : "ex".toList ∈ e.prefixes :=
    hprefixes ex f _ rfl (not_isWord_of_head (c := '(') (by decide) _)
  exact ⟨t, e, ht, rfl, he, hx, hex, hadmits rfl rfl (by decide +kernel), by decide +kernel,
    by decide +kernel, hadmits rfl rfl (by decide +kernel), by decide +kernel, by decide +kernel,
    hadmits rfl rfl (by decide +kernel), by decide +kernel⟩

end SparqlComposer
