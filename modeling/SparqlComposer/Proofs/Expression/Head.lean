import SparqlComposer.Proofs.Expression.FunctionName
import SparqlComposer.Proofs.Path.Reading

/-!
# Heads of calls

The head of a call is read by ordered choice, and among the names of functions the longest wins. So
what is read may be longer than a head that stands there, but a head is read wherever one stands.
None holds a line feed, and none reaches into what ends an assignment: a space in a head is followed
by something else than the letter `A`.
-/

namespace SparqlComposer

/-! ## Heads -/

/-- The head of a call: the name of a function in any case, an IRI in angle brackets, a name with a
colon, a variable, or `!`. -/
inductive CallHead : Text → Prop where
  | function {name w : Text} (hname : name ∈ functionNames) (hw : Writes name w) : CallHead w
  | iri (r : Run isIriChar) : CallHead ('<' :: (r.text ++ ['>']))
  | named (r : Run isWord) : CallHead (r.text ++ [':'])
  | var {sigil : Char} (hsigil : sigil = '?' ∨ sigil = '$') (r : Run isWord) :
      CallHead (sigil :: r.text)
  | negation : CallHead ['!']

section Heads

variable {t w rest : Text}

theorem afterPrefix?_eq_some_iff : afterPrefix? t = some rest ↔
    ∃ r : Run isWord, t = r.text ++ ':' :: rest := by
  simp only [afterPrefix?, afterWord?, bind, Option.bind_eq_some_iff, afterChar?_eq_some_iff]
  constructor
  · rintro ⟨u, hrun, rfl⟩
    exact exists_run hrun
  · rintro ⟨r, rfl⟩
    refine ⟨_, afterRun?_append r ?_, rfl⟩
    rintro c hc
    obtain rfl : ':' = c := Option.some.inj hc
    decide

/-- What is read of a variable is a sigil and a name. -/
theorem exists_of_afterVariable? (h : afterVariable? t = some rest) :
    ∃ sigil, ∃ r : Run isWord, (sigil = '?' ∨ sigil = '$') ∧ t = sigil :: (r.text ++ rest) := by
  cases t with
  | nil => cases h
  | cons c cs =>
      rw [afterVariable?] at h
      split at h
      · rename_i hc
        obtain ⟨r, rfl⟩ := exists_run h
        exact ⟨c, r, by simpa [isSigil] using hc, rfl⟩
      · cases h

theorem isSome_afterRun? {inClass : Char → Bool} (r : Run inClass) (rest : Text) :
    (afterRun? inClass (r.text ++ rest)).isSome := by
  obtain ⟨w, hne, hw⟩ := r
  obtain ⟨c, w, rfl⟩ := List.exists_cons_of_ne_nil hne
  rw [List.cons_append, afterRun?, if_pos (hw c List.mem_cons_self)]
  rfl

/-- The head that stands at the start of a text and is no name of a function. -/
def afterOtherHead? (t : Text) : Option Text :=
  (afterBracketedIri? t).or ((afterPrefix? t).or ((afterVariable? t).or (afterChar? '!' t)))

theorem exists_of_afterOtherHead? (h : afterOtherHead? t = some rest) :
    ∃ w, CallHead w ∧ t = w ++ rest := by
  rcases Option.or_eq_some_iff.mp h with hiri | ⟨-, h⟩
  · obtain ⟨r, rfl⟩ := afterBracketedIri?_eq_some_iff.mp hiri
    exact ⟨_, .iri r, by simp⟩
  rcases Option.or_eq_some_iff.mp h with hprefix | ⟨-, h⟩
  · obtain ⟨r, rfl⟩ := afterPrefix?_eq_some_iff.mp hprefix
    exact ⟨_, .named r, by simp⟩
  rcases Option.or_eq_some_iff.mp h with hvariable | ⟨-, h⟩
  · obtain ⟨sigil, r, hsigil, rfl⟩ := exists_of_afterVariable? hvariable
    exact ⟨_, .var hsigil r, rfl⟩
  · exact ⟨_, .negation, afterChar?_eq_some_iff.mp h⟩

theorem isSome_afterOtherHead? (hw : CallHead w) (hname : ∀ name ∈ functionNames, ¬ Writes name w)
    (rest : Text) : (afterOtherHead? (w ++ rest)).isSome := by
  simp only [afterOtherHead?, Option.isSome_or, Bool.or_eq_true]
  cases hw with
  | function hmem hwrites => exact absurd hwrites (hname _ hmem)
  | iri r =>
      have hread : afterBracketedIri? ('<' :: (r.text ++ ['>']) ++ rest) = some rest :=
        afterBracketedIri?_eq_some_iff.mpr ⟨r, by simp⟩
      exact .inl (by rw [hread]; rfl)
  | named r =>
      have hread : afterPrefix? (r.text ++ [':'] ++ rest) = some rest :=
        afterPrefix?_eq_some_iff.mpr ⟨r, by simp⟩
      exact .inr (.inl (by rw [hread]; rfl))
  | @var sigil hsigil r =>
      have hmark : isSigil sigil := by simpa [isSigil] using hsigil
      refine .inr (.inr (.inl ?_))
      rw [List.cons_append, afterVariable?, if_pos hmark]
      exact isSome_afterRun? r rest
  | negation => exact .inr (.inr (.inr rfl))

/-- Reading a head fails just when it starts with a misspelled name. -/
theorem afterHead?_eq_error_iff {e : Error} :
    afterHead? t = .error e ↔ ∃ w, Misspells t w ∧ e = .unknownFunction w := by
  constructor
  · intro h
    unfold afterHead? at h
    split at h
    · rename_i w rest hfunction
      split at h
      · rename_i hmisleading
        exact ⟨w, misspells_iff.mpr ⟨rest, hfunction, hmisleading⟩, (Except.error.inj h).symm⟩
      · cases h
    · cases h
  · rintro ⟨w, hw, rfl⟩
    obtain ⟨rest, hfunction, hmisleading⟩ := misspells_iff.mp hw
    unfold afterHead?
    rw [hfunction]
    dsimp only
    rw [if_pos hmisleading]

/-- Unless it starts with a misspelled name, a head is read, or there is none. -/
theorem afterHead?_cases (ht : ∀ w, ¬ Misspells t w) :
    (∃ w rest, afterHead? t = .ok (some rest) ∧ CallHead w ∧ t = w ++ rest) ∨
      afterHead? t = .ok none ∧ ∀ w rest, CallHead w → t ≠ w ++ rest := by
  unfold afterHead?
  split
  · rename_i w rest hfunction
    have hclear : w.any isMisleadingLetter = false := by
      rw [Bool.eq_false_iff]
      exact fun hmisleading ↦ ht w (misspells_iff.mpr ⟨rest, hfunction, hmisleading⟩)
    obtain ⟨⟨-, ⟨name, hname, hfolds⟩, -⟩, rfl⟩ := functionName?_eq_some_iff.mp hfunction
    rw [hclear]
    exact .inl ⟨w, rest, rfl, .function hname (hfolds.writes (List.any_eq_false.mp hclear)), rfl⟩
  · rename_i hnone
    change (∃ w rest, Except.ok (afterOtherHead? t) = .ok (some rest) ∧ CallHead w ∧ t = w ++ rest) ∨
      Except.ok (afterOtherHead? t) = .ok none ∧ ∀ w rest, CallHead w → t ≠ w ++ rest
    cases hother : afterOtherHead? t with
    | some rest =>
        obtain ⟨w, hw, happend⟩ := exists_of_afterOtherHead? hother
        exact .inl ⟨w, rest, rfl, hw, happend⟩
    | none =>
        refine .inr ⟨rfl, fun w rest hw happend ↦ ?_⟩
        have hsome := isSome_afterOtherHead? hw (fun name hname hwrites ↦
          not_folds_of_functionName?_eq_none hnone hname ⟨rest, happend.symm⟩ hwrites.folds) rest
        rw [← happend, hother] at hsome
        cases hsome

/-! ## What a head does not hold -/

/-- Whether a space ends the text or stands in front of the letter `A`. -/
def breaksBeforeA : Text → Bool
  | [] => false
  | c :: cs => (c == ' ' && cs.head?.all fun d ↦ d.toLower == 'a') || breaksBeforeA cs

theorem breaksBeforeA_append (v : Text) {v' : Text} (h : ∀ d ∈ v'.head?, d.toLower = 'a') :
    breaksBeforeA (v ++ ' ' :: v') := by
  induction v with
  | nil =>
      have hall : v'.head?.all fun d ↦ d.toLower == 'a' := by
        rw [Option.all_eq_true]
        exact fun d hd ↦ beq_iff_eq.mpr (h d hd)
      rw [List.nil_append, breaksBeforeA, hall]
      rfl
  | cons c v ih => rw [List.cons_append, breaksBeforeA, ih, Bool.or_true]

theorem breaksBeforeA_of_not_mem (h : ' ' ∉ w) : breaksBeforeA w = false := by
  induction w with
  | nil => rfl
  | cons c w ih =>
      obtain ⟨hc, hw⟩ := List.ne_and_not_mem_of_not_mem_cons h
      rw [breaksBeforeA, ih hw, Bool.or_false, beq_false_of_ne (Ne.symm hc), Bool.false_and]

theorem Writes.breaksBeforeA {name w : Text} (h : Writes name w) (hw : breaksBeforeA w) :
    breaksBeforeA name := by
  induction h with
  | nil => exact hw
  | @cons letter c letters cs hc hrest ih =>
      rw [SparqlComposer.breaksBeforeA, Bool.or_eq_true, Bool.and_eq_true, beq_iff_eq] at hw ⊢
      rcases hw with ⟨hspace, hnext⟩ | hw
      · refine .inl ⟨(hc.eq_iff (by decide)).mp hspace, ?_⟩
        cases hrest with
        | nil => rfl
        | cons hd _ => exact beq_iff_eq.mpr (hd.toLower_eq (beq_iff_eq.mp hnext))
      · exact .inr (ih hw)

theorem CallHead.breaksBeforeA_eq (h : CallHead w) : breaksBeforeA w = false := by
  have hnames : ∀ name ∈ functionNames, breaksBeforeA name = false := by decide
  have hrun {inClass : Char → Bool} (r : Run inClass) (hspace : inClass ' ' = false) :
      ' ' ∉ r.text := fun hmem ↦
    Bool.false_ne_true (hspace.symm.trans (r.inClass_of_mem ' ' hmem))
  cases h with
  | function hname hw =>
      rw [Bool.eq_false_iff]
      intro hbreak
      exact Bool.false_ne_true ((hnames _ hname).symm.trans (hw.breaksBeforeA hbreak))
  | iri r => exact breaksBeforeA_of_not_mem (by simp [hrun r (by decide)])
  | named r => exact breaksBeforeA_of_not_mem (by simp [hrun r (by decide)])
  | var hsigil r =>
      refine breaksBeforeA_of_not_mem (List.not_mem_cons_of_ne_of_not_mem ?_ (hrun r (by decide)))
      rcases hsigil with rfl | rfl <;> decide
  | negation => rfl

theorem CallHead.newline_not_mem (h : CallHead w) : '\n' ∉ w := by
  have hnames : ∀ name ∈ functionNames, '\n' ∉ name := by decide
  have hrun {inClass : Char → Bool} (r : Run inClass) (hnewline : inClass '\n' = false) :
      '\n' ∉ r.text := fun hmem ↦
    Bool.false_ne_true (hnewline.symm.trans (r.inClass_of_mem '\n' hmem))
  cases h with
  | function hname hw =>
      intro hmem
      obtain ⟨letter, hletter, hcase⟩ := exists_of_forall₂_right hw hmem
      exact hnames _ hname ((hcase.eq_iff (by decide)).mp rfl ▸ hletter)
  | iri r => simp [hrun r (by decide)]
  | named r => simp [hrun r (by decide)]
  | var hsigil r =>
      refine List.not_mem_cons_of_ne_of_not_mem ?_ (hrun r (by decide))
      rcases hsigil with rfl | rfl <;> decide
  | negation => decide

/-- A head starts with something else than a gap. -/
theorem CallHead.exists_cons (h : CallHead w) : ∃ c v, w = c :: v ∧ ¬ isGap c := by
  have hnames : ∀ name ∈ functionNames, name.head?.any fun letter ↦ !isGap letter := by decide
  cases h with
  | function hname hw =>
      have hfirst := hnames _ hname
      cases hw with
      | nil => cases hfirst
      | cons hc _ =>
          refine ⟨_, _, rfl, fun hgap ↦ ?_⟩
          rw [List.head?_cons, Option.any_some, hc.isGap_eq, hgap] at hfirst
          cases hfirst
  | iri r => exact ⟨'<', _, rfl, by decide⟩
  | named r =>
      obtain ⟨text, hne, hword⟩ := r
      obtain ⟨c, cs, rfl⟩ := List.exists_cons_of_ne_nil hne
      exact ⟨c, _, rfl, not_isGap_of_isWord (hword c List.mem_cons_self)⟩
  | var hsigil r =>
      refine ⟨_, _, rfl, ?_⟩
      rcases hsigil with rfl | rfl <;> decide
  | negation => exact ⟨'!', [], rfl, by decide⟩

theorem CallHead.not_isGap (h : CallHead w) (rest : Text) : ∀ c ∈ (w ++ rest).head?, ¬ isGap c := by
  obtain ⟨c, v, rfl, hc⟩ := h.exists_cons
  rintro d hd
  obtain rfl := Option.some.inj hd
  exact hc

end Heads

end SparqlComposer
