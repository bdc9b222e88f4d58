import SparqlComposer.Text.Tab

/-!
# Columns

Each character of a text is written at some column, and only a tab is written differently there. So
a text with its tabs expanded is cut where the text is, and what is no space in it stands in the
text itself.
-/

namespace SparqlComposer

/-- The column behind a character. -/
def nextColumn (column : Nat) (c : Char) : Nat :=
  if c = '\t' then column + (tabWidth - column % tabWidth)
  else if c = '\n' ∨ c = '\r' then 0
  else column + 1

/-- The column behind a text that starts in the given column. -/
def columnFrom (column : Nat) (t : Text) : Nat := t.foldl nextColumn column

/-- What is written for a character. -/
def expandedChar (column : Nat) (c : Char) : Text :=
  if c = '\t' then List.replicate (tabWidth - column % tabWidth) ' ' else [c]

section Columns

variable {c : Char} {column : Nat} {t u x y : Text}

theorem expandTabsFrom_cons (column : Nat) (c : Char) (t : Text) :
    expandTabsFrom column (c :: t) =
      expandedChar column c ++ expandTabsFrom (nextColumn column c) t := by
  rw [expandTabsFrom, expandedChar, nextColumn]
  split
  · rfl
  · split <;> rfl

theorem expandedChar_of_ne (h : c ≠ '\t') (column : Nat) : expandedChar column c = [c] := if_neg h

theorem exists_expandedChar_tab (column : Nat) :
    ∃ n, expandedChar column '\t' = ' ' :: List.replicate n ' ' := by
  obtain ⟨n, hn⟩ : ∃ n, tabWidth - column % tabWidth = n + 1 :=
    Nat.exists_eq_add_one.mpr (Nat.sub_pos_of_lt (Nat.mod_lt _ (by decide)))
  exact ⟨n, by rw [expandedChar, if_pos rfl, hn, List.replicate_succ]⟩

theorem exists_expandedChar_blank (h : c = ' ' ∨ c = '\t') (column : Nat) :
    ∃ n, expandedChar column c = ' ' :: List.replicate n ' ' := by
  rcases h with rfl | rfl
  · exact ⟨0, rfl⟩
  · exact exists_expandedChar_tab column

theorem exists_expandTabsFrom_cons (hc : c ≠ '\t') (column : Nat) (t : Text) :
    ∃ column', expandTabsFrom column (c :: t) = c :: expandTabsFrom column' t :=
  ⟨_, by rw [expandTabsFrom_cons, expandedChar_of_ne hc, List.singleton_append]⟩

theorem exists_expandTabsFrom_tab (column : Nat) (t : Text) : ∃ n column',
    expandTabsFrom column ('\t' :: t) =
      ' ' :: (List.replicate n ' ' ++ expandTabsFrom column' t) := by
  obtain ⟨n, hn⟩ := exists_expandedChar_tab column
  exact ⟨n, _, by rw [expandTabsFrom_cons, hn, List.cons_append]⟩

/-- The tabs of a text become the same spaces whatever follows it. -/
theorem expandTabsFrom_append_text (column : Nat) (t u : Text) :
    expandTabsFrom column (t ++ u) =
      expandTabsFrom column t ++ expandTabsFrom (columnFrom column t) u := by
  induction t generalizing column with
  | nil => rfl
  | cons c t ih =>
      rw [List.cons_append, expandTabsFrom_cons, expandTabsFrom_cons, ih, List.append_assoc]
      rfl

theorem exists_expandTabsFrom_append (u v : Text) (column : Nat) : ∃ column',
    expandTabsFrom column (u ++ v) = expandTabsFrom column u ++ expandTabsFrom column' v :=
  ⟨_, expandTabsFrom_append_text column u v⟩

/-! ## The text of an expanded text -/

theorem eq_space_of_mem_expandedChar {column : Nat} (h : c ∈ expandedChar column '\t') : c = ' ' :=
  List.eq_of_mem_replicate (by simpa [expandedChar] using h)

/-- A character that is no space stands in the text itself. -/
theorem exists_of_expandTabsFrom (hc : c ≠ ' ') (h : expandTabsFrom column t = x ++ c :: y) :
    ∃ u v, t = u ++ c :: v ∧ expandTabsFrom column u = x ∧
      expandTabsFrom (columnFrom column (u ++ [c])) v = y := by
  induction t generalizing column x with
  | nil => simp [expandTabsFrom] at h
  | cons d t ih =>
      rw [expandTabsFrom_cons] at h
      by_cases hd : d = '\t'
      · subst hd
        -- The character stands behind the spaces of the tab.
        obtain ⟨x, rfl, hrest⟩ : ∃ x', x = expandedChar column '\t' ++ x' ∧
            expandTabsFrom (nextColumn column '\t') t = x' ++ c :: y := by
          rcases List.append_eq_append_iff.mp h with ⟨x', hx, ht⟩ | ⟨x', hx, hy⟩
          · exact ⟨x', hx, ht⟩
          · cases x' with
            | nil => exact ⟨[], by simpa using hx.symm, hy.symm⟩
            | cons c' x' =>
                obtain ⟨rfl, -⟩ := List.cons.inj hy
                have hspace : c ∈ expandedChar column '\t' := by simp [hx]
                exact absurd (eq_space_of_mem_expandedChar hspace) hc
        obtain ⟨u, v, rfl, rfl, hy⟩ := ih hrest
        exact ⟨'\t' :: u, v, rfl, expandTabsFrom_cons column '\t' u, hy⟩
      · rw [expandedChar_of_ne hd, List.singleton_append] at h
        cases x with
        | nil =>
            obtain ⟨rfl, rfl⟩ := List.cons.inj h
            exact ⟨[], t, rfl, rfl, rfl⟩
        | cons e x =>
            obtain ⟨rfl, hrest⟩ := List.cons.inj h
            obtain ⟨u, v, rfl, rfl, hy⟩ := ih hrest
            refine ⟨d :: u, v, rfl, ?_, hy⟩
            rw [expandTabsFrom_cons, expandedChar_of_ne hd, List.singleton_append]

theorem exists_of_expandTabsFrom_eq_cons (hc : c ≠ ' ') (h : expandTabsFrom column t = c :: y) :
    ∃ v, t = c :: v ∧ expandTabsFrom (nextColumn column c) v = y := by
  cases t with
  | nil => cases h
  | cons d t =>
      rw [expandTabsFrom_cons] at h
      by_cases hd : d = '\t'
      · obtain ⟨n, hn⟩ := exists_expandedChar_tab column
        rw [hd, hn] at h
        exact absurd (List.cons.inj h).1.symm hc
      · rw [expandedChar_of_ne hd] at h
        obtain ⟨rfl, hrest⟩ := List.cons.inj h
        exact ⟨t, rfl, hrest⟩

theorem expandedChar_eq_space_iff : expandedChar column c = [' '] ↔
    c = ' ' ∨ c = '\t' ∧ column % tabWidth + 1 = tabWidth := by
  by_cases hc : c = '\t'
  · have hlt : column % tabWidth < tabWidth := Nat.mod_lt _ (by decide)
    have hone (n : Nat) : List.replicate n ' ' = [' '] ↔ n = 1 :=
      ⟨fun h ↦ by simpa using congrArg List.length h, fun h ↦ by rw [h]; rfl⟩
    rw [expandedChar, if_pos hc, hone]
    simp only [hc, true_and]
    constructor
    · exact fun h ↦ .inr (by omega)
    · rintro (h | h)
      · exact absurd h (by decide)
      · omega
  · simp [expandedChar_of_ne hc, hc]

/-- A text that ends in a space when its tabs are expanded ends in a space or a tab. -/
theorem exists_of_expandTabsFrom_space (h : expandTabsFrom column t = x ++ [' ']) :
    ∃ u c, t = u ++ [c] ∧ (c = ' ' ∨ c = '\t') := by
  rcases List.eq_nil_or_concat t with rfl | ⟨u, c, rfl⟩
  · simp [expandTabsFrom] at h
  · refine ⟨u, c, by simp, ?_⟩
    by_cases hc : c = '\t'
    · exact .inr hc
    · rw [List.concat_eq_append, expandTabsFrom_append_text, expandTabsFrom_cons,
        expandedChar_of_ne hc] at h
      exact .inl (List.cons.inj (List.append_inj_right' h rfl)).1

theorem expandedChar_ne_nil (column : Nat) (c : Char) : expandedChar column c ≠ [] := by
  by_cases hc : c = '\t'
  · obtain ⟨n, hn⟩ := exists_expandedChar_tab column
    rw [hc, hn]
    exact List.cons_ne_nil _ _
  · rw [expandedChar_of_ne hc]
    exact List.cons_ne_nil _ _

/-- A text that is a single space when its tabs are expanded is a single character. -/
theorem exists_of_expandTabsFrom_eq_space (h : expandTabsFrom column t = [' ']) :
    ∃ c, t = [c] ∧ expandedChar column c = [' '] := by
  cases t with
  | nil => cases h
  | cons c t =>
      rw [expandTabsFrom_cons, List.append_eq_singleton_iff] at h
      rcases h with ⟨hnil, -⟩ | ⟨hc, hrest⟩
      · exact absurd hnil (expandedChar_ne_nil column c)
      · cases t with
        | nil => exact ⟨c, rfl, hc⟩
        | cons d t =>
            rw [expandTabsFrom_cons] at hrest
            exact absurd (List.append_eq_nil_iff.mp hrest).1 (expandedChar_ne_nil _ d)

end Columns

end SparqlComposer
