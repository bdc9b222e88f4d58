import SparqlComposer.Text.Basic

/-!
# Tab stops

Tabs reach to the next multiple of eight columns; a line feed or a carriage return starts the
columns again.
-/

namespace SparqlComposer

/-- Columns from one tab stop to the next. -/
def tabWidth : Nat := 8

/-- The text with every tab written as spaces up to the next tab stop, when it starts in the
given column. -/
def expandTabsFrom : Nat → Text → Text
  | _, [] => []
  | column, c :: cs =>
      if c = '\t' then
        let width := tabWidth - column % tabWidth
        List.replicate width ' ' ++ expandTabsFrom (column + width) cs
      else if c = '\n' ∨ c = '\r' then c :: expandTabsFrom 0 cs
      else c :: expandTabsFrom (column + 1) cs

def expandTabs (t : Text) : Text := expandTabsFrom 0 t

theorem expandTabsFrom_eq_self {t : Text} (h : '\t' ∉ t) (column : Nat) :
    expandTabsFrom column t = t := by
  induction t generalizing column with
  | nil => rfl
  | cons c cs ih =>
      obtain ⟨hc, hcs⟩ := List.ne_and_not_mem_of_not_mem_cons h
      simp [expandTabsFrom, Ne.symm hc, ih hcs]

theorem expandTabs_eq_self {t : Text} (h : '\t' ∉ t) : expandTabs t = t :=
  expandTabsFrom_eq_self h 0

theorem not_mem_expandTabsFrom (t : Text) (column : Nat) : '\t' ∉ expandTabsFrom column t := by
  induction t generalizing column with
  | nil => simp [expandTabsFrom]
  | cons c cs ih =>
      by_cases hc : c = '\t'
      · simp [expandTabsFrom, hc, List.mem_replicate, ih]
      · by_cases hn : c = '\n' ∨ c = '\r'
        · simp [expandTabsFrom, hc, hn, ih, Ne.symm hc]
        · simp [expandTabsFrom, hc, hn, ih, Ne.symm hc]

end SparqlComposer
