import Mathlib.Data.List.TakeWhile
import SparqlComposer.Proofs.Path.Reading
import SparqlComposer.Proofs.Text.String
import SparqlComposer.Proofs.Text.Word

/-!
# Lexemes

A reader of SPARQL takes a text for a sequence of lexemes. Strings and bracketed IRIs are lexemes;
outside these a lexeme is, by longest match, an operator of two characters, a number, a run of word
characters, or any other character that is no blank.
-/

namespace SparqlComposer

inductive Lexeme where
  | string (t : Text)
  | iri (t : Text)
  | plain (t : Text)
  deriving DecidableEq

namespace Lexeme

def text : Lexeme → Text
  | string t | iri t | plain t => t

/-- Whether an equals sign or a point stands in the lexeme behind another character. So it is in
`!=`, `<=` and `>=`, and in the numbers with a point. -/
def isTorn : Lexeme → Bool
  | string _ | iri _ => false
  | plain t => t.tail.contains '=' || t.tail.contains '.'

def string? : Lexeme → Option Text
  | string t => some t
  | iri _ | plain _ => none

end Lexeme

/-- The operators of two characters. -/
def operators : List Text := ["!=", "<=", ">=", "&&", "||", "^^"].map String.toList

/-! ## The longest match -/

def operatorLength (t : Text) : Nat := if operators.contains (t.take 2) then 2 else 0

def runLength (inClass : Char → Bool) (t : Text) : Nat := (t.takeWhile inClass).length

/-- Digits, and a point with further digits if both are there. -/
def numberLength (t : Text) : Nat :=
  let whole := runLength Char.isDigit t
  match t.dropWhile Char.isDigit with
  | '.' :: rest =>
      let fraction := runLength Char.isDigit rest
      if whole = 0 ∨ fraction = 0 then whole else whole + (1 + fraction)
  | _ => whole

def markLength : Text → Nat
  | [] => 0
  | c :: _ => if isBlank c then 0 else 1

/-- The length of the lexeme at the start of a text that starts neither with a string nor with a
bracketed IRI. -/
def plainLength (t : Text) : Nat :=
  max (max (operatorLength t) (numberLength t)) (max (runLength isWord t) (markLength t))

/-- The lexeme at the start of a text, and what follows it. There is none where a blank stands. -/
def nextLexeme? (t : Text) : Option (Lexeme × Text) :=
  match afterString? t, afterBracketedIri? t with
  | some rest, _ => some (.string (t.take (t.length - rest.length)), rest)
  | none, some rest => some (.iri (t.take (t.length - rest.length)), rest)
  | none, none =>
      if plainLength t = 0 then none
      else some (.plain (t.take (plainLength t)), t.drop (plainLength t))

/-! ## What is read makes up the text -/

theorem afterBracketedIri?_eq_none {c : Char} (h : c ≠ '<') (t : Text) :
    afterBracketedIri? (c :: t) = none := by
  rw [Option.eq_none_iff_forall_ne_some]
  intro rest hrest
  obtain ⟨r, heq⟩ := afterBracketedIri?_eq_some_iff.mp hrest
  exact h (List.cons.inj heq).1

/-- The lexeme and what follows it make up the text, and the lexeme is not empty. -/
theorem append_of_nextLexeme? {t rest : Text} {l : Lexeme} (h : nextLexeme? t = some (l, rest)) :
    t = l.text ++ rest ∧ l.text ≠ [] := by
  have hsplit {rest : Text} (hsuffix : rest <:+ t) (hlength : rest.length < t.length) :
      t = t.take (t.length - rest.length) ++ rest ∧ t.take (t.length - rest.length) ≠ [] := by
    refine ⟨(List.suffix_iff_eq_append.mp hsuffix).symm, fun hnil ↦ ?_⟩
    have := congrArg List.length hnil
    simp only [List.length_take, List.length_nil] at this
    omega
  unfold nextLexeme? at h
  split at h
  · rename_i rest' hstring
    obtain ⟨rfl, rfl⟩ := Prod.mk.inj (Option.some.inj h)
    obtain ⟨body, rfl, hbody⟩ := afterString?_eq_some_iff.mp hstring
    obtain ⟨w, rfl, -⟩ := exists_of_afterStringBody? hbody
    exact hsplit ⟨'"' :: (w ++ ['"']), by simp⟩ (length_of_afterString? hstring)
  · rename_i rest' _ hiri
    obtain ⟨rfl, rfl⟩ := Prod.mk.inj (Option.some.inj h)
    obtain ⟨r, rfl⟩ := afterBracketedIri?_eq_some_iff.mp hiri
    refine hsplit ⟨'<' :: (r.text ++ ['>']), by simp⟩ ?_
    simp only [List.length_cons, List.length_append]
    omega
  · split at h
    · cases h
    · rename_i hlength
      obtain ⟨rfl, rfl⟩ := Prod.mk.inj (Option.some.inj h)
      refine ⟨(List.take_append_drop _ _).symm, fun hnil ↦ hlength ?_⟩
      rcases List.take_eq_nil_iff.mp hnil with hzero | rfl
      · exact hzero
      · rfl

/-- The lexemes of a text, with the blanks between them left out. -/
def lexemes : Text → List Lexeme
  | [] => []
  | c :: cs =>
      match _h : nextLexeme? (c :: cs) with
      | some (l, rest) => l :: lexemes rest
      | none => lexemes cs
termination_by t => t.length
decreasing_by
  · obtain ⟨heq, hne⟩ := append_of_nextLexeme? _h
    have hlength := congrArg List.length heq
    have := List.length_pos_iff.mpr hne
    rw [List.length_append] at hlength
    omega
  · simp

/-! ## Reading one lexeme -/

theorem lexemes_of_next {t rest : Text} {l : Lexeme} (h : nextLexeme? t = some (l, rest)) :
    lexemes t = l :: lexemes rest := by
  cases t with
  | nil => cases h
  | cons c cs =>
      rw [lexemes]
      split
      · rename_i hsome
        obtain ⟨rfl, rfl⟩ := Prod.mk.inj (Option.some.inj (h.symm.trans hsome))
        rfl
      · rename_i hnone
        cases h.symm.trans hnone

theorem lexemes_of_none {c : Char} {cs : Text} (h : nextLexeme? (c :: cs) = none) :
    lexemes (c :: cs) = lexemes cs := by
  rw [lexemes]
  split
  · rename_i hsome
    cases h.symm.trans hsome
  · rfl

theorem take_of_append (w rest : Text) :
    (w ++ rest).take ((w ++ rest).length - rest.length) = w := by
  rw [List.length_append, Nat.add_sub_cancel, List.take_left]

theorem lexemes_string {w rest : Text} (h : afterString? (w ++ rest) = some rest) :
    lexemes (w ++ rest) = .string w :: lexemes rest := by
  apply lexemes_of_next
  rw [nextLexeme?, h]
  exact congrArg (fun t ↦ some (Lexeme.string t, rest)) (take_of_append w rest)

theorem nextLexeme?_plain {t : Text} (hstring : afterString? t = none)
    (hiri : afterBracketedIri? t = none) (hlength : plainLength t ≠ 0) :
    nextLexeme? t = some (.plain (t.take (plainLength t)), t.drop (plainLength t)) := by
  rw [nextLexeme?, hstring, hiri]
  exact if_neg hlength

theorem lexemes_plain {w rest : Text} (hne : w ≠ []) (hstring : afterString? (w ++ rest) = none)
    (hiri : afterBracketedIri? (w ++ rest) = none) (hlength : plainLength (w ++ rest) = w.length) :
    lexemes (w ++ rest) = .plain w :: lexemes rest := by
  have hpos : plainLength (w ++ rest) ≠ 0 := by
    rw [hlength]
    exact Nat.ne_of_gt (List.length_pos_iff.mpr hne)
  have hnext := nextLexeme?_plain hstring hiri hpos
  rw [hlength, List.take_left, List.drop_left] at hnext
  exact lexemes_of_next hnext

/-! ## Lengths -/

theorem runLength_append {inClass : Char → Bool} {w : Text} (hw : ∀ c ∈ w, inClass c) (t : Text) :
    runLength inClass (w ++ t) = w.length + runLength inClass t := by
  rw [runLength, List.takeWhile_append_of_pos hw, List.length_append, runLength]

theorem runLength_eq_zero {inClass : Char → Bool} {t : Text} (h : ∀ c ∈ t.head?, ¬ inClass c) :
    runLength inClass t = 0 := by
  cases t with
  | nil => rfl
  | cons c t => rw [runLength, List.takeWhile_cons_of_neg (h c rfl), List.length_nil]

theorem isWord_of_isDigit {c : Char} (h : c.isDigit) : isWord c :=
  isWord_of_isAlphanum (by rw [Char.isAlphanum, h, Bool.or_true])

theorem operatorLength_of_mem {t : Text} (h : t.take 2 ∈ operators) : operatorLength t = 2 :=
  if_pos (List.contains_iff_mem.mpr h)

theorem operatorLength_of_not_mem {t : Text} (h : t.take 2 ∉ operators) : operatorLength t = 0 :=
  if_neg fun hmem ↦ h (List.contains_iff_mem.mp hmem)

theorem of_mem_flatten_operators :
    ∀ c ∈ operators.flatten, ¬ isWord c ∧ ¬ isBlank c ∧ c ≠ '"' :=
  List.all_iff_forall_prop.mp (by decide)

theorem operatorLength_eq_zero {c : Char} (h : isWord c ∨ isBlank c) (t : Text) :
    operatorLength (c :: t) = 0 := by
  refine operatorLength_of_not_mem fun hmem ↦ ?_
  obtain ⟨hword, hblank, -⟩ :=
    of_mem_flatten_operators c (List.mem_flatten.mpr ⟨_, hmem, List.mem_cons_self⟩)
  exact h.elim hword hblank

theorem numberLength_eq_zero {c : Char} (h : ¬ isWord c) (t : Text) :
    numberLength (c :: t) = 0 := by
  have hzero : runLength Char.isDigit (c :: t) = 0 := by
    apply runLength_eq_zero
    rintro d hd hdigit
    obtain rfl : c = d := Option.some.inj hd
    exact h (isWord_of_isDigit hdigit)
  rw [numberLength, hzero]
  split
  · exact if_pos (.inl rfl)
  · rfl

theorem runLength_append_of_exists {inClass : Char → Bool} {w : Text} (h : ∃ c ∈ w, ¬ inClass c)
    (u : Text) : runLength inClass (w ++ u) = runLength inClass w ∧
      (w ++ u).dropWhile inClass = w.dropWhile inClass ++ u := by
  obtain ⟨c, hc, hstop⟩ := h
  induction w with
  | nil => cases hc
  | cons d w ih =>
      by_cases hd : inClass d
      · have hne : c ≠ d := fun heq ↦ hstop (heq ▸ hd)
        obtain ⟨hlength, hrest⟩ := ih ((List.mem_cons.mp hc).resolve_left hne)
        rw [runLength, runLength] at hlength
        rw [List.cons_append, runLength, runLength, List.takeWhile_cons_of_pos hd,
          List.takeWhile_cons_of_pos hd, List.dropWhile_cons_of_pos hd,
          List.dropWhile_cons_of_pos hd, List.length_cons, List.length_cons, hlength]
        exact ⟨rfl, hrest⟩
      · rw [List.cons_append, runLength, runLength, List.takeWhile_cons_of_neg hd,
          List.takeWhile_cons_of_neg hd, List.dropWhile_cons_of_neg hd,
          List.dropWhile_cons_of_neg hd]
        exact ⟨rfl, rfl⟩

/-- A number goes on behind a word only with a point. -/
theorem numberLength_le {w u : Text} (hw : ∀ c ∈ w, isWord c) (hu : ∀ c ∈ u.head?, ¬ isWord c)
    (hpoint : u.head? ≠ some '.') : numberLength (w ++ u) ≤ w.length := by
  by_cases hdigits : ∀ c ∈ w, c.isDigit
  · have hstop : ∀ c ∈ u.head?, ¬ c.isDigit := fun c hc hdigit ↦ hu c hc (isWord_of_isDigit hdigit)
    have hrest : u.dropWhile Char.isDigit = u := by
      cases u with
      | nil => rfl
      | cons c u => exact List.dropWhile_cons_of_neg (hstop c rfl)
    rw [numberLength, runLength_append hdigits, runLength_eq_zero hstop,
      List.dropWhile_append_of_pos hdigits, hrest]
    split
    · exact absurd rfl hpoint
    · exact Nat.le_refl _
  · simp only [not_forall] at hdigits
    obtain ⟨c, hc, hdigit⟩ := hdigits
    obtain ⟨hlength, hrest⟩ := runLength_append_of_exists ⟨c, hc, hdigit⟩ u
    have hword : '.' ∉ w := fun hmem ↦ absurd (hw '.' hmem) (by decide)
    rw [numberLength, hlength, hrest]
    split
    · rename_i rest hdrop
      exfalso
      cases hsuffix : w.dropWhile Char.isDigit with
      | nil => exact hdigit (List.dropWhile_eq_nil_iff.mp hsuffix c hc)
      | cons d v =>
          rw [hsuffix] at hdrop
          have hd : d ∈ w := (List.dropWhile_sublist _).mem (hsuffix ▸ List.mem_cons_self)
          exact hword ((List.cons.inj hdrop).1 ▸ hd)
    · exact (List.takeWhile_sublist _).length_le

theorem markLength_le (t : Text) : markLength t ≤ 1 := by
  cases t with
  | nil => exact Nat.zero_le 1
  | cons c t => rw [markLength]; split <;> decide

/-! ## Blanks, marks and words -/

@[simp] theorem lexemes_nil : lexemes [] = [] := by
  rw [lexemes]

theorem lexemes_blank {c : Char} (h : isBlank c) (t : Text) : lexemes (c :: t) = lexemes t := by
  have hword : ¬ isWord c := fun hword ↦ not_isBlank_of_isWord hword h
  have hquote : c ≠ '"' := by
    rintro rfl
    exact absurd h (by decide)
  have hbracket : c ≠ '<' := by
    rintro rfl
    exact absurd h (by decide)
  have hrun : runLength isWord (c :: t) = 0 := runLength_eq_zero (by simpa using hword)
  have hlength : plainLength (c :: t) = 0 := by
    rw [plainLength, operatorLength_eq_zero (.inr h), numberLength_eq_zero hword, hrun, markLength,
      if_pos h]
    rfl
  apply lexemes_of_none
  rw [nextLexeme?, afterString?_eq_none hquote, afterBracketedIri?_eq_none hbracket]
  exact if_pos hlength

theorem plainLength_mark {c : Char} (hword : ¬ isWord c) (hblank : ¬ isBlank c) (u : Text) :
    plainLength (c :: u) = max (operatorLength (c :: u)) 1 := by
  have hrun : runLength isWord (c :: u) = 0 := runLength_eq_zero (by simpa using hword)
  rw [plainLength, numberLength_eq_zero hword, hrun, markLength, if_neg hblank]
  omega

theorem length_of_mem_operators : ∀ o ∈ operators, o.length = 2 := by decide

theorem lexemes_mark {c : Char} {u : Text} (hword : ¬ isWord c) (hblank : ¬ isBlank c)
    (hstring : afterString? (c :: u) = none) (hiri : afterBracketedIri? (c :: u) = none)
    (hoperator : ∀ d ∈ u.head?, [c, d] ∉ operators) :
    lexemes (c :: u) = .plain [c] :: lexemes u := by
  have hnone : operatorLength (c :: u) = 0 := by
    refine operatorLength_of_not_mem fun hmem ↦ ?_
    cases u with
    | nil => exact absurd (length_of_mem_operators _ hmem) (by simp)
    | cons d u => exact hoperator d rfl hmem
  have hlength : plainLength ([c] ++ u) = [c].length := by
    rw [List.singleton_append, plainLength_mark hword hblank, hnone]
    rfl
  exact lexemes_plain (List.cons_ne_nil c []) hstring hiri hlength

theorem of_mem_operators {c d : Char} (h : [c, d] ∈ operators) :
    (¬ isWord c ∧ ¬ isBlank c ∧ c ≠ '"') ∧ ¬ isWord d ∧ ¬ isBlank d ∧ d ≠ '"' ∧ d ≠ '<' := by
  have hall (e : Char) (he : e ∈ [c, d]) :=
    of_mem_flatten_operators e (List.mem_flatten.mpr ⟨_, h, he⟩)
  have hsecond : ∀ o ∈ operators, '<' ∉ o.tail := by decide
  obtain ⟨hword, hblank, hquote⟩ := hall d (by simp)
  refine ⟨hall c (by simp), hword, hblank, hquote, ?_⟩
  rintro rfl
  exact hsecond _ h List.mem_cons_self

theorem lexemes_operator {c d : Char} {u : Text} (h : [c, d] ∈ operators)
    (hiri : afterBracketedIri? (c :: d :: u) = none) :
    lexemes (c :: d :: u) = .plain [c, d] :: lexemes u := by
  obtain ⟨⟨hword, hblank, hquote⟩, -⟩ := of_mem_operators h
  have hlength : plainLength ([c, d] ++ u) = [c, d].length := by
    have htwo : operatorLength (c :: d :: u) = 2 := operatorLength_of_mem h
    rw [List.cons_append, plainLength_mark hword hblank]
    change max (operatorLength (c :: d :: u)) 1 = 2
    rw [htwo]
    rfl
  exact lexemes_plain (List.cons_ne_nil c [d]) (afterString?_eq_none hquote _) hiri hlength

/-- A run of word characters is a lexeme, unless a number with a point starts there. -/
theorem lexemes_word {w u : Text} (hne : w ≠ []) (hw : ∀ c ∈ w, isWord c)
    (hu : ∀ c ∈ u.head?, ¬ isWord c) : lexemes (w ++ u) = .plain w :: lexemes u ∨
      u.head? = some '.' ∧ ∃ l ∈ lexemes (w ++ u), l.isTorn := by
  obtain ⟨c, w', hcons⟩ := List.exists_cons_of_ne_nil hne
  have hc : isWord c := hw c (hcons ▸ List.mem_cons_self)
  have hstring : afterString? (w ++ u) = none := by
    rw [hcons]
    apply afterString?_eq_none
    rintro rfl
    exact absurd hc (by decide)
  have hiri : afterBracketedIri? (w ++ u) = none := by
    rw [hcons]
    apply afterBracketedIri?_eq_none
    rintro rfl
    exact absurd hc (by decide)
  have hoperator : operatorLength (w ++ u) = 0 := by
    rw [hcons]
    exact operatorLength_eq_zero (.inl hc) _
  have hword : runLength isWord (w ++ u) = w.length := by
    rw [runLength_append hw, runLength_eq_zero hu]
    rfl
  have hmark := markLength_le (w ++ u)
  have hpos := List.length_pos_iff.mpr hne
  by_cases hnumber : numberLength (w ++ u) ≤ w.length
  · refine .inl (lexemes_plain hne hstring hiri ?_)
    rw [plainLength, hoperator, hword]
    omega
  · have hpoint : u.head? = some '.' := by
      by_contra hpoint
      exact hnumber (numberLength_le hw hu hpoint)
    have hlength : plainLength (w ++ u) = numberLength (w ++ u) := by
      rw [plainLength, hoperator, hword]
      omega
    have hnext := nextLexeme?_plain hstring hiri (by omega)
    refine .inr ⟨hpoint, _, by rw [lexemes_of_next hnext]; exact List.mem_cons_self, ?_⟩
    obtain ⟨u', rfl⟩ := List.head?_eq_some_iff.mp hpoint
    obtain ⟨k, hk⟩ := Nat.exists_eq_add_of_lt (Nat.lt_of_not_le hnumber)
    have htake : (w ++ '.' :: u').take (plainLength (w ++ '.' :: u')) = w ++ '.' :: u'.take k := by
      rw [hlength, hk, Nat.add_assoc, List.take_length_add_append, List.take_succ_cons]
    rw [htake, hcons, Lexeme.isTorn]
    simp

end SparqlComposer
