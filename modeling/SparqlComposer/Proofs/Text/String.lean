import SparqlComposer.Expression.Token
import SparqlComposer.Proofs.Text.Tab

/-!
# Reading strings

A string is read up to the first quotation mark that no backslash escapes. Literals are checked with
their tabs expanded, and their strings end at the same place with the tabs as they are written.
-/

namespace SparqlComposer

/-! ## What is read of a string -/

theorem afterStringBody?_cons {c : Char} {cs : Text} (hquote : c ≠ '"') (hescape : c ≠ '\\') :
    afterStringBody? (c :: cs) = afterStringBody? cs := by
  rw [afterStringBody?]
  · exact hquote
  · exact fun hc _ ↦ hescape hc
  · exact fun _ _ hc _ ↦ hescape hc

theorem ne_backslash {c : Char} {cs : Text} (hlast : c = '\\' → cs = [] → False)
    (hescape : ∀ d ds, c = '\\' → cs = d :: ds → False) : c ≠ '\\' := by
  intro hc
  cases cs with
  | nil => exact hlast hc rfl
  | cons d ds => exact hescape d ds hc rfl

/-- A string ends with a quotation mark, and what has been read of it is a string by itself. -/
theorem exists_of_afterStringBody? {t rest : Text} (h : afterStringBody? t = some rest) :
    ∃ w, t = w ++ '"' :: rest ∧ afterStringBody? (w ++ ['"']) = some [] := by
  fun_induction afterStringBody? t with
  | case1 => cases h
  | case2 rest' =>
      obtain rfl := Option.some.inj h
      exact ⟨[], rfl, rfl⟩
  | case3 => cases h
  | case4 => cases h
  | case5 c cs hc ih =>
      obtain ⟨w, rfl, hw⟩ := ih h
      refine ⟨'\\' :: c :: w, rfl, ?_⟩
      rwa [List.cons_append, List.cons_append, afterStringBody?, if_neg hc]
  | case6 c cs hquote hlast hescape ih =>
      obtain ⟨w, rfl, hw⟩ := ih h
      refine ⟨c :: w, rfl, ?_⟩
      rwa [List.cons_append, afterStringBody?_cons hquote (ne_backslash hlast hescape)]

theorem afterStringBody?_append {t rest : Text} (h : afterStringBody? t = some rest) (u : Text) :
    afterStringBody? (t ++ u) = some (rest ++ u) := by
  fun_induction afterStringBody? t with
  | case1 => cases h
  | case2 rest' =>
      obtain rfl := Option.some.inj h
      rfl
  | case3 => cases h
  | case4 => cases h
  | case5 c cs hc ih =>
      rw [List.cons_append, List.cons_append, afterStringBody?, if_neg hc]
      exact ih h
  | case6 c cs hquote hlast hescape ih =>
      rw [List.cons_append, afterStringBody?_cons hquote (ne_backslash hlast hescape)]
      exact ih h

theorem afterString?_eq_some_iff {t rest : Text} :
    afterString? t = some rest ↔ ∃ body, t = '"' :: body ∧ afterStringBody? body = some rest := by
  unfold afterString?
  split
  · rename_i body
    constructor
    · exact fun h ↦ ⟨body, rfl, h⟩
    · rintro ⟨body', heq, h⟩
      obtain rfl := (List.cons.inj heq).2
      exact h
  · rename_i hquote
    constructor
    · exact fun h ↦ nomatch h
    · rintro ⟨body, rfl, -⟩
      exact absurd rfl (hquote body)

theorem afterString?_eq_none {c : Char} (h : c ≠ '"') (t : Text) :
    afterString? (c :: t) = none := by
  rw [Option.eq_none_iff_forall_ne_some]
  intro rest hrest
  obtain ⟨body, heq, -⟩ := afterString?_eq_some_iff.mp hrest
  exact h (List.cons.inj heq).1

theorem exists_of_afterString? {t rest : Text} (h : afterString? t = some rest) :
    ∃ w, t = w ++ rest ∧ afterString? w = some [] := by
  obtain ⟨body, rfl, hread⟩ := afterString?_eq_some_iff.mp h
  obtain ⟨w, rfl, hw⟩ := exists_of_afterStringBody? hread
  exact ⟨'"' :: (w ++ ['"']), by simp, afterString?_eq_some_iff.mpr ⟨_, rfl, hw⟩⟩

theorem afterString?_append {t rest : Text} (h : afterString? t = some rest) (u : Text) :
    afterString? (t ++ u) = some (rest ++ u) := by
  obtain ⟨body, rfl, hbody⟩ := afterString?_eq_some_iff.mp h
  exact afterString?_eq_some_iff.mpr ⟨body ++ u, rfl, afterStringBody?_append hbody u⟩

/-! ## Strings with tabs -/

/-- A text in which tabs would leave no space has no tabs. -/
theorem expandTabsFrom_eq_of_not_mem {column : Nat} {t : Text}
    (h : ' ' ∉ expandTabsFrom column t) : expandTabsFrom column t = t := by
  induction t generalizing column with
  | nil => rfl
  | cons c t ih =>
      by_cases htab : c = '\t'
      · subst htab
        obtain ⟨n, column', hexpand⟩ := exists_expandTabsFrom_tab column t
        rw [hexpand] at h
        exact absurd List.mem_cons_self h
      · obtain ⟨column', hexpand⟩ := exists_expandTabsFrom_cons htab column t
        rw [hexpand] at h ⊢
        exact congrArg (c :: ·) (ih (List.ne_and_not_mem_of_not_mem_cons h).2)

theorem afterStringBody?_spaces (n : Nat) (t : Text) :
    afterStringBody? (List.replicate n ' ' ++ t) = afterStringBody? t := by
  induction n with
  | zero => rfl
  | succ n ih => simpa [List.replicate_succ, afterStringBody?] using ih

/-- A string is closed at the same quotation mark as with its tabs expanded, even where a backslash
takes the first of the spaces that a tab becomes. -/
theorem afterStringBody?_of_expandTabsFrom {t rest : Text} (hrest : ' ' ∉ rest) (column : Nat) :
    (afterStringBody? (expandTabsFrom column t) = some rest → afterStringBody? t = some rest) ∧
      (afterStringBody? ('\\' :: expandTabsFrom column t) = some rest →
        afterStringBody? ('\\' :: t) = some rest) := by
  induction t generalizing column with
  | nil => simp [expandTabsFrom, afterStringBody?]
  | cons c t ih =>
      by_cases htab : c = '\t'
      · subst htab
        obtain ⟨n, column', hexpand⟩ := exists_expandTabsFrom_tab column t
        rw [hexpand]
        -- Spaces in a string play no part, and an escaped one is a space in the string as well.
        constructor
        · intro h
          rw [← List.cons_append, ← List.replicate_succ, afterStringBody?_spaces] at h
          rw [afterStringBody?_cons (by decide) (by decide)]
          exact (ih column').1 h
        · intro h
          rw [afterStringBody?, if_neg (by decide), afterStringBody?_spaces] at h
          rw [afterStringBody?, if_neg (by decide)]
          exact (ih column').1 h
      · obtain ⟨column', hexpand⟩ := exists_expandTabsFrom_cons htab column t
        rw [hexpand]
        constructor
        · intro h
          by_cases hquote : c = '"'
          · subst hquote
            obtain rfl : expandTabsFrom column' t = rest := Option.some.inj h
            exact congrArg some (expandTabsFrom_eq_of_not_mem hrest).symm
          by_cases hescape : c = '\\'
          · subst hescape
            exact (ih column').2 h
          rw [afterStringBody?_cons hquote hescape] at h ⊢
          exact (ih column').1 h
        · intro h
          rw [afterStringBody?] at h ⊢
          split at h
          · cases h
          · rename_i hc
            rw [if_neg hc]
            exact (ih column').1 h

/-- A string ends at the same place as with its tabs expanded, if there are no spaces behind it. -/
theorem afterString?_of_expandTabs {t rest : Text} (h : afterString? (expandTabs t) = some rest)
    (hrest : ' ' ∉ rest) : afterString? t = some rest := by
  cases t with
  | nil => cases h
  | cons c t =>
      by_cases htab : c = '\t'
      · subst htab
        obtain ⟨n, column', hexpand⟩ := exists_expandTabsFrom_tab 0 t
        rw [expandTabs, hexpand] at h
        cases h
      · obtain ⟨column', hexpand⟩ := exists_expandTabsFrom_cons htab 0 t
        rw [expandTabs, hexpand] at h
        obtain ⟨body, heq, hbody⟩ := afterString?_eq_some_iff.mp h
        obtain ⟨rfl, rfl⟩ := List.cons.inj heq
        exact afterString?_eq_some_iff.mpr
          ⟨t, rfl, (afterStringBody?_of_expandTabsFrom hrest column').1 hbody⟩

/-- A string reads on with its tabs expanded, and ends at the same place. -/
theorem afterStringBody?_expandTabsFrom {t rest : Text} (h : afterStringBody? t = some rest)
    (column : Nat) : ∃ column',
      afterStringBody? (expandTabsFrom column t) = some (expandTabsFrom column' rest) := by
  fun_induction afterStringBody? t generalizing column with
  | case1 => cases h
  | case2 rest' =>
      obtain rfl := Option.some.inj h
      obtain ⟨column', hexpand⟩ := exists_expandTabsFrom_cons (c := '"') (by decide) column rest'
      exact ⟨column', by rw [hexpand, afterStringBody?]⟩
  | case3 => cases h
  | case4 => cases h
  | case5 c cs hc ih =>
      obtain ⟨column₁, hescape⟩ :=
        exists_expandTabsFrom_cons (c := '\\') (by decide) column (c :: cs)
      by_cases htab : c = '\t'
      · subst htab
        obtain ⟨n, column₂, hexpand⟩ := exists_expandTabsFrom_tab column₁ cs
        obtain ⟨column', hrest⟩ := ih h column₂
        refine ⟨column', ?_⟩
        rw [hescape, hexpand, afterStringBody?, if_neg (by decide), afterStringBody?_spaces, hrest]
      · obtain ⟨column₂, hexpand⟩ := exists_expandTabsFrom_cons htab column₁ cs
        obtain ⟨column', hrest⟩ := ih h column₂
        refine ⟨column', ?_⟩
        rw [hescape, hexpand, afterStringBody?, if_neg hc, hrest]
  | case6 c cs hquote hlast hescape ih =>
      by_cases htab : c = '\t'
      · subst htab
        obtain ⟨n, column₁, hexpand⟩ := exists_expandTabsFrom_tab column cs
        obtain ⟨column', hrest⟩ := ih h column₁
        refine ⟨column', ?_⟩
        rw [hexpand, ← List.cons_append, ← List.replicate_succ, afterStringBody?_spaces, hrest]
      · obtain ⟨column₁, hexpand⟩ := exists_expandTabsFrom_cons htab column cs
        obtain ⟨column', hrest⟩ := ih h column₁
        refine ⟨column', ?_⟩
        rw [hexpand, afterStringBody?_cons hquote (ne_backslash hlast hescape), hrest]

theorem afterString?_expandTabs {t rest : Text} (h : afterString? t = some rest)
    (hrest : '\t' ∉ rest) : afterString? (expandTabs t) = some rest := by
  obtain ⟨body, rfl, hbody⟩ := afterString?_eq_some_iff.mp h
  obtain ⟨column, hexpand⟩ := exists_expandTabsFrom_cons (c := '"') (by decide) 0 body
  obtain ⟨column', hread⟩ := afterStringBody?_expandTabsFrom hbody column
  rw [expandTabsFrom_eq_self hrest] at hread
  exact afterString?_eq_some_iff.mpr ⟨_, hexpand, hread⟩

end SparqlComposer
