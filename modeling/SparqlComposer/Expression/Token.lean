import SparqlComposer.Text.Word
import SparqlComposer.Text.Blank

/-!
# Tokens of expressions

Each function reads one token off the start of a text and gives what follows it. Tokens are read
as far as they reach, and no blank may stand inside one.
-/

namespace SparqlComposer

/-- What follows a nonempty run of characters of a class. -/
def afterRun? (inClass : Char → Bool) : Text → Option Text
  | [] => none
  | c :: cs => if inClass c then some (cs.dropWhile inClass) else none

def afterChar? (c : Char) : Text → Option Text
  | [] => none
  | d :: ds => if d = c then some ds else none

def afterWord? (t : Text) : Option Text := afterRun? isWord t

/-- The characters that an IRI cannot hold, blanks apart. -/
def iriDelimiters : List Char := ['<', '>', '"', '{', '}', '|', '\\', '^', '\x60']

def isIriChar (c : Char) : Bool := !isBlank c && c ∉ iriDelimiters

def afterIri? (t : Text) : Option Text := afterRun? isIriChar t

def afterBracketedIri? (t : Text) : Option Text := do
  afterChar? '>' (← afterIri? (← afterChar? '<' t))

def afterPrefix? (t : Text) : Option Text := do afterChar? ':' (← afterWord? t)

/-- What follows two names joined by a colon. -/
def afterPrefixedName? (t : Text) : Option Text := do afterWord? (← afterPrefix? t)

def afterPrefixedIri? (t : Text) : Option Text :=
  (afterPrefixedName? t).or (afterBracketedIri? t)

/-- The marks that start a variable. -/
def isSigil (c : Char) : Bool := c == '?' || c == '$'

def afterVariable? : Text → Option Text
  | [] => none
  | c :: cs => if isSigil c then afterWord? cs else none

/-! ## Literals -/

/-- What follows the closing quote of a string whose opening quote has been read. A backslash
takes the character behind it into the string, unless that is a line feed. -/
def afterStringBody? : Text → Option Text
  | [] => none
  | '"' :: rest => some rest
  | ['\\'] => none
  | '\\' :: c :: rest => if c = '\n' then none else afterStringBody? rest
  | _ :: rest => afterStringBody? rest

def afterString? : Text → Option Text
  | '"' :: rest => afterStringBody? rest
  | _ => none

/-- Whether the text is a hyphen and a nonempty run of ASCII letters and digits, any number of
times. -/
def areSubtags : Text → Bool
  | [] => true
  | c :: cs => c == '-' && fromSubtag cs
where
  /-- Whether a subtag stands here, and further subtags behind it. -/
  fromSubtag : Text → Bool
    | [] => false
    | c :: cs => c.isAlphanum && (inSubtag cs)
  /-- Whether the rest of a subtag stands here, and further subtags behind it. -/
  inSubtag : Text → Bool
    | [] => true
    | c :: cs => if c.isAlphanum then inSubtag cs else c == '-' && fromSubtag cs

/-- Whether the text is a language tag: `@`, letters, and subtags. -/
def isLanguageTag (t : Text) : Bool :=
  ((afterChar? '@' t).bind (afterRun? Char.isAlpha)).any areSubtags

/-- Whether the text is `^^` and the name of a datatype. -/
def isDatatypeTag (t : Text) : Bool :=
  ((afterChar? '^' t).bind (afterChar? '^')).bind afterPrefixedIri? == some []

def isInteger (t : Text) : Bool := afterRun? Char.isDigit t == some []

/-- Whether the text is an integer, or a string with an optional language or datatype. -/
def isNative (t : Text) : Bool :=
  isInteger t ||
    (afterString? t).any fun tag ↦ tag.isEmpty || isLanguageTag tag || isDatatypeTag tag

/-! ## Tokens are not empty -/

theorem length_dropWhile_le (inClass : Char → Bool) (t : Text) :
    (t.dropWhile inClass).length ≤ t.length :=
  (List.dropWhile_sublist inClass).length_le

theorem length_of_afterRun? {inClass : Char → Bool} {t rest : Text}
    (h : afterRun? inClass t = some rest) : rest.length < t.length := by
  cases t with
  | nil => simp [afterRun?] at h
  | cons c cs =>
      by_cases hc : inClass c
      · simp only [afterRun?, hc, if_true, Option.some.injEq] at h
        subst h
        exact Nat.lt_succ_of_le (length_dropWhile_le inClass cs)
      · simp [afterRun?, hc] at h

theorem length_of_afterChar? {c : Char} {t rest : Text} (h : afterChar? c t = some rest) :
    rest.length < t.length := by
  cases t with
  | nil => simp [afterChar?] at h
  | cons d ds =>
      by_cases hd : d = c <;> simp_all [afterChar?]

theorem length_of_afterStringBody? {t rest : Text} (h : afterStringBody? t = some rest) :
    rest.length < t.length := by
  fun_induction afterStringBody? t with
  | case1 => simp at h
  | case2 rest' =>
      obtain rfl := Option.some.inj h
      simp
  | case3 => simp at h
  | case4 => simp at h
  | case5 c cs _ ih =>
      have := ih h
      simp
      omega
  | case6 c cs _ _ _ ih =>
      have := ih h
      simp
      omega

theorem length_of_afterString? {t rest : Text} (h : afterString? t = some rest) :
    rest.length < t.length := by
  unfold afterString? at h
  split at h
  · have := length_of_afterStringBody? h
    simp
    omega
  · simp at h

theorem length_of_afterPrefixedIri? {t rest : Text} (h : afterPrefixedIri? t = some rest) :
    rest.length < t.length := by
  rcases Option.or_eq_some_iff.1 h with h | ⟨-, h⟩
  · simp only [afterPrefixedName?, afterPrefix?, afterWord?, bind, Option.bind_eq_some_iff] at h
    obtain ⟨u, ⟨v, hv, hu⟩, h⟩ := h
    have := length_of_afterRun? hv
    have := length_of_afterChar? hu
    have := length_of_afterRun? h
    omega
  · simp only [afterBracketedIri?, afterIri?, bind, Option.bind_eq_some_iff] at h
    obtain ⟨u, hu, v, hv, h⟩ := h
    have := length_of_afterChar? hu
    have := length_of_afterRun? hv
    have := length_of_afterChar? h
    omega

end SparqlComposer
