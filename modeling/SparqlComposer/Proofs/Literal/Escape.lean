import SparqlComposer.Proofs.Literal.Term

/-!
# Literals in N3

The characters that would end or break a quoted text are escaped when a literal is written, so the
content of a literal on one line can be read back from its string. The string of a literal over
several lines stands between triple quotation marks, which expressions do not have.
-/

namespace SparqlComposer

namespace Literal

/-- The character for which a letter behind a backslash stands. -/
def unescapedChar : Char → Char
  | 't' => '\t'
  | 'b' => '\x08'
  | 'n' => '\n'
  | 'r' => '\r'
  | 'f' => '\x0c'
  | c => c

/-- The text for which an escaped one stands. -/
def unescaped : Text → Text
  | [] => []
  | ['\\'] => ['\\']
  | '\\' :: c :: t => unescapedChar c :: unescaped t
  | c :: t => c :: unescaped t

/-- The content that the string of a literal stands for. -/
def contentOf? (t : Text) : Option Text :=
  (stringPart? t).map fun w ↦ unescaped w.tail.dropLast

theorem unescaped_escapeChar (c : Char) (t : Text) :
    unescaped (escapeChar c ++ t) = c :: unescaped t := by
  unfold escapeChar
  split
  · rename_i hbackslash
    rw [hbackslash]
    rfl
  · rename_i hbackslash
    split
    · rename_i hquote
      rw [hquote]
      rfl
    · split
      · rename_i hreturn
        rw [hreturn]
        rfl
      · rw [List.singleton_append, unescaped]
        · exact fun heq _ ↦ hbackslash heq
        · exact fun _ _ heq _ ↦ hbackslash heq

theorem unescaped_escape (content : Text) : unescaped (content.flatMap escapeChar) = content := by
  induction content with
  | nil => rfl
  | cons c content ih => rw [List.flatMap_cons, unescaped_escapeChar, ih]

/-- No character that is escaped ends a string. -/
theorem afterStringBody?_escapeChar (c : Char) (t : Text) :
    afterStringBody? (escapeChar c ++ t) = afterStringBody? t := by
  unfold escapeChar
  split
  · rfl
  · rename_i hbackslash
    split
    · rfl
    · rename_i hquote
      split
      · rfl
      · exact afterStringBody?_cons hquote hbackslash

theorem afterStringBody?_escape (content rest : Text) :
    afterStringBody? (content.flatMap escapeChar ++ '"' :: rest) = some rest := by
  induction content with
  | nil => rfl
  | cons c content ih =>
      rw [List.flatMap_cons, List.append_assoc, afterStringBody?_escapeChar, ih]

end Literal

/-! ## Tags -/

/-- A language is a tag of letters, digits and hyphens, and a datatype is an IRI. -/
def LiteralTag.IsWellFormed : LiteralTag → Prop
  | plain => True
  | language tag => isLanguageTag ('@' :: tag)
  | datatype iri => Kind.iri.admits iri = .ok true

theorem LiteralTag.IsWellFormed.isTag {tag : LiteralTag} (h : tag.IsWellFormed) :
    let t := Literal.tagText tag
    t.isEmpty || isLanguageTag t || isDatatypeTag t := by
  cases tag with
  | plain => rfl
  | language tag =>
      cases tag with
      | nil => rfl
      | cons c tag =>
          have hlanguage : isLanguageTag ('@' :: c :: tag) := h
          simp [Literal.tagText, hlanguage]
  | datatype iri =>
      obtain ⟨r, rfl⟩ := exists_run_of_iri h
      obtain ⟨c, cs, hcs⟩ := List.exists_cons_of_ne_nil r.ne_nil
      have hread : afterPrefixedIri? ('<' :: (r.text ++ ['>'])) = some [] :=
        afterPrefixedIri?_bracketed r []
      have hdatatype : isDatatypeTag ("^^<".toList ++ r.text ++ ['>']) := by
        rw [isDatatypeTag]
        exact beq_iff_eq.mpr hread
      have htext : Literal.tagText (.datatype r.text) = "^^<".toList ++ r.text ++ ['>'] := by
        rw [hcs]
        rfl
      simp only [htext, hdatatype, Bool.or_true]

/-! ## Literals as expressions -/

section Native

variable {content : Text} {tag : LiteralTag}

theorem Literal.n3_eq (h : '\n' ∉ spelling content tag) :
    n3 content tag = '"' :: (spelling content tag).flatMap escapeChar ++ '"' :: tagText tag := by
  simp [n3, quoteContent, h]

theorem Literal.afterString?_n3 (h : '\n' ∉ spelling content tag) :
    afterString? (n3 content tag) = some (tagText tag) := by
  rw [n3_eq h]
  exact afterString?_eq_some_iff.mpr ⟨_, rfl, afterStringBody?_escape _ _⟩

theorem Literal.contentOf?_n3 (h : '\n' ∉ spelling content tag) :
    contentOf? (n3 content tag) = some (spelling content tag) := by
  have hpart : stringPart? (n3 content tag) =
      some ('"' :: ((spelling content tag).flatMap escapeChar ++ ['"'])) := by
    rw [stringPart?, afterString?_n3 h, Option.map_some, n3_eq h]
    have hsplit : '"' :: (spelling content tag).flatMap escapeChar ++ '"' :: tagText tag =
        '"' :: ((spelling content tag).flatMap escapeChar ++ ['"']) ++ tagText tag := by
      simp
    rw [hsplit, take_of_append]
  rw [contentOf?, hpart, Option.map_some, List.tail_cons, List.dropLast_concat, unescaped_escape]

theorem Literal.admits_n3 (htag : tag.IsWellFormed) (h : '\n' ∉ spelling content tag) :
    Kind.native.admits (n3 content tag) = .ok true := by
  have hform := htag.isTag
  have hblank (c : Char) (hc : isBlank c) : c ∉ tagText tag := Reading.not_mem_of_isTag hform hc
  have hread := afterString?_expandTabs (afterString?_n3 h) (hblank '\t' (by decide))
  have hnative : isNative (expandTabs (n3 content tag)) := by
    rw [isNative, hread, Option.any_some, hform, Bool.or_true]
  have hpadded : ¬ isPadded (n3 content tag) := by
    rw [n3_eq h]
    refine Kind.not_isPadded (fun c hc ↦ ?_) fun c hc ↦ ?_
    · obtain rfl := Option.some.inj hc
      decide
    · have hmem : c ∈ '"' :: tagText tag := by
        rw [List.getLast?_append_of_ne_nil _ (List.cons_ne_nil _ _)] at hc
        exact List.mem_of_getLast? hc
      rcases List.mem_cons.mp hmem with rfl | hmem
      · decide
      · exact fun hc ↦ hblank c hc hmem
  rw [Kind.admits, if_neg hpadded]
  exact congrArg Except.ok (by rw [hnative]; rfl)

/-- Behind the first two of three quotation marks, which are a string by themselves, stands no
tag. -/
theorem Literal.not_admits_n3 (h : '\n' ∈ spelling content tag) :
    Kind.native.admits (n3 content tag) = .ok false := by
  obtain ⟨u, hu⟩ : ∃ u, n3 content tag = '"' :: '"' :: '"' :: u := by
    rw [n3, quoteContent, if_pos h]
    exact ⟨_, rfl⟩
  obtain ⟨v, hv⟩ : ∃ v, expandTabs ('"' :: '"' :: '"' :: u) = '"' :: '"' :: '"' :: v := ⟨_, rfl⟩
  have hnative : isNative ('"' :: '"' :: '"' :: v) = false := rfl
  rw [hu, Kind.admits]
  split
  · rfl
  · rw [hv]
    exact congrArg Except.ok (by rw [hnative]; rfl)

theorem Literal.spelling_eq_self (h : ∀ iri, tag = .datatype iri → iri ∈ fractionDatatypes →
    specialName? content = none) : spelling content tag = content := by
  cases tag with
  | plain => rfl
  | language tag => rfl
  | datatype iri =>
      rw [spelling]
      split
      · rename_i hmem
        rw [h iri rfl (List.contains_iff_mem.mp hmem), Option.getD_none]
      · rfl

end Native

/-- A literal is taken for one when it is written on one line, and its content can be read back.
What is read back is the content as N3 spells it, which is the content itself unless it is the name
of a number that is infinite or undefined. A literal over several lines is refused. -/
theorem classify_literal (objectText : Ref → Except Error Text) (content : Text)
    {tag : LiteralTag} (htag : tag.IsWellFormed) :
    ('\n' ∉ Literal.spelling content tag → ∃ e,
      classify objectText [.native] (.term (.literal content tag)) = .ok e ∧ e.kind = .native ∧
        e.text = Literal.n3 content tag ∧
        Literal.contentOf? e.text = some (Literal.spelling content tag) ∧
        ((∀ iri, tag = .datatype iri → iri ∈ Literal.fractionDatatypes →
          Literal.specialName? content = none) → Literal.contentOf? e.text = some content)) ∧
    ('\n' ∈ Literal.spelling content tag →
      classify objectText [.native] (.term (.literal content tag)) =
        .error (.invalidExpression content [.native])) := by
  have htext : (Value.term (.literal content tag)).expressionText? =
      .ok (some (Literal.n3 content tag)) := rfl
  constructor
  · intro h
    have hreads := Value.reads_singleton_iff.mpr ⟨_, htext, Literal.admits_n3 htag h, rfl⟩
    have hcontent := Literal.contentOf?_n3 h
    refine ⟨_, classify_eq_ok_iff.mpr hreads, Expression.kind_ofKind _ _,
      Expression.text_ofKind _ _, ?_⟩
    rw [Expression.text_ofKind]
    exact ⟨hcontent, fun hspell ↦ by rw [hcontent, Literal.spelling_eq_self hspell]⟩
  · intro h
    rw [classify_of_not_admits htext (Literal.not_admits_n3 h)]
    rfl

/-- Quotation marks, backslashes, carriage returns and tabs come back, and a line feed is
refused. -/
theorem literal_lineFeed : ∃ content : Text, ∃ tag : LiteralTag, ∃ e,
    tag.IsWellFormed ∧ content = "\\n\"\\\r\t\"".toList ∧ tag = .language "en-GB".toList ∧
      classify (fun _ ↦ .ok []) [.native] (.term (.literal content tag)) = .ok e ∧
      e.text = "\"\\\\n\\\"\\\\\\r\t\\\"\"@en-GB".toList ∧
      Literal.contentOf? e.text = some content ∧
    classify (fun _ ↦ .ok []) [.native] (.term (.literal "a\nb".toList .plain)) =
      .error (.invalidExpression "a\nb".toList [.native]) := by
  let content : Text := "\\n\"\\\r\t\"".toList
  let tag : LiteralTag := .language "en-GB".toList
  have htag : tag.IsWellFormed := rfl
  have hline : '\n' ∉ Literal.spelling content tag := by decide
  have hplain : LiteralTag.plain.IsWellFormed := trivial
  have hspell : ∀ iri, tag = .datatype iri → iri ∈ Literal.fractionDatatypes →
      Literal.specialName? content = none := by
    intro iri hiri
    simp [tag] at hiri
  obtain ⟨e, he, -, htext, -, hcontent⟩ :=
    (classify_literal (fun _ ↦ .ok []) content htag).1 hline
  have hrefused :=
    (classify_literal (fun _ ↦ .ok []) "a\nb".toList hplain).2 (by decide)
  exact ⟨content, tag, e, htag, rfl, rfl, he, htext.trans (by decide),
    hcontent hspell, hrefused⟩

end SparqlComposer
