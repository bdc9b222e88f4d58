import Mathlib.Tactic.ByContra
import SparqlComposer.Expression.Capture

/-!
# Where a scan tries its pattern

A scan passes over blanks and over what its last capture covers, and tries its pattern everywhere
else. So it captures a name exactly where the pattern applies at a place that nothing covers, and
what is covered somewhere is covered by one capture in front of that place.
-/

namespace SparqlComposer

/-- What a scan finds at a place that no capture covers. -/
def foundAt (pattern : CapturePattern) (before : Text) : (ahead : Text) → Option (Text × Nat)
  | [] => none
  | c :: cs => if isGap c then none else pattern before (c :: cs)

/-- How many characters behind a place are covered when `skip` are covered from there on. -/
def coveredNext (pattern : CapturePattern) (skip : Nat) (before ahead : Text) : Nat :=
  match skip with
  | skip + 1 => skip
  | 0 => (foundAt pattern before ahead).elim 0 (·.2 - 1)

/-- How many characters of `v` are covered by what the scan captures in `w`. -/
def coveredBehind (pattern : CapturePattern) : (skip : Nat) → (before w v : Text) → Nat
  | skip, _, [], _ => skip
  | skip, before, c :: w, v =>
      coveredBehind pattern (coveredNext pattern skip before (c :: (w ++ v))) (c :: before) w v

section Reached

variable {pattern : CapturePattern} {before name : Text} {skip : Nat}

theorem foundAt_of_ne_nil {v : Text} (hgap : ∀ c ∈ v.head?, ¬ isGap c) (hne : v ≠ []) :
    foundAt pattern before v = pattern before v := by
  obtain ⟨c, v, rfl⟩ := List.exists_cons_of_ne_nil hne
  exact if_neg (hgap c rfl)

theorem pattern_of_foundAt {v : Text} {found : Text × Nat}
    (h : foundAt pattern before v = some found) : pattern before v = some found := by
  unfold foundAt at h
  split at h
  · cases h
  · split at h
    · cases h
    · exact h

theorem scan_covered_cons (c : Char) (u : Text) : scan pattern (skip + 1) before (c :: u) =
    scan pattern (coveredNext pattern (skip + 1) before (c :: u)) (c :: before) u := rfl

theorem scan_free_cons (c : Char) (u : Text) : scan pattern 0 before (c :: u) =
    ((foundAt pattern before (c :: u)).map (·.1)).toList ++
      scan pattern (coveredNext pattern 0 before (c :: u)) (c :: before) u := by
  rw [scan, coveredNext, foundAt]
  split
  · rfl
  · cases pattern before (c :: u) <;> rfl

/-- A name is captured exactly where the pattern applies at a place that nothing covers. -/
theorem mem_scan_iff {u : Text} : name ∈ scan pattern skip before u ↔
    ∃ w v n, u = w ++ v ∧ coveredBehind pattern skip before w v = 0 ∧
      foundAt pattern (w.reverse ++ before) v = some (name, n) := by
  induction u generalizing skip before with
  | nil =>
      constructor
      · intro h
        cases h
      · rintro ⟨w, v, n, hu, -, hfound⟩
        obtain ⟨rfl, rfl⟩ := List.append_eq_nil_iff.mp hu.symm
        cases hfound
  | cons c u ih =>
      -- The place is here, or the scan comes to it from the next character.
      have hsplit : (∃ w v n, c :: u = w ++ v ∧ coveredBehind pattern skip before w v = 0 ∧
            foundAt pattern (w.reverse ++ before) v = some (name, n)) ↔
          (skip = 0 ∧ ∃ n, foundAt pattern before (c :: u) = some (name, n)) ∨
            name ∈ scan pattern (coveredNext pattern skip before (c :: u)) (c :: before) u := by
        rw [ih]
        constructor
        · rintro ⟨w, v, n, hu, hfree, hfound⟩
          cases w with
          | nil =>
              obtain rfl : c :: u = v := hu
              exact .inl ⟨hfree, n, hfound⟩
          | cons d w =>
              obtain ⟨rfl, rfl⟩ := List.cons.inj hu
              exact .inr ⟨w, v, n, rfl, hfree, by simpa using hfound⟩
        · rintro (⟨rfl, n, hfound⟩ | ⟨w, v, n, rfl, hfree, hfound⟩)
          · exact ⟨[], c :: u, n, rfl, rfl, hfound⟩
          · exact ⟨c :: w, v, n, rfl, hfree, by simpa using hfound⟩
      rw [hsplit]
      cases skip with
      | succ skip => simp [scan_covered_cons]
      | zero => simp [scan_free_cons]

theorem coveredBehind_append (w₁ w₂ v : Text) : coveredBehind pattern skip before (w₁ ++ w₂) v =
    coveredBehind pattern (coveredBehind pattern skip before w₁ (w₂ ++ v)) (w₁.reverse ++ before)
      w₂ v := by
  induction w₁ generalizing skip before with
  | nil => rfl
  | cons c w₁ ih =>
      rw [List.cons_append, coveredBehind, coveredBehind, ih, List.append_assoc,
        List.reverse_cons, List.append_assoc, List.singleton_append]

theorem coveredBehind_of_le {w : Text} (h : w.length ≤ skip) (v : Text) :
    coveredBehind pattern skip before w v = skip - w.length := by
  induction w generalizing skip before with
  | nil => rfl
  | cons c w ih =>
      obtain ⟨k, rfl⟩ := Nat.exists_eq_add_of_le' (Nat.lt_of_lt_of_le (Nat.succ_pos _) h)
      rw [coveredBehind, coveredNext, ih (Nat.le_of_succ_le_succ h), List.length_cons,
        Nat.add_sub_add_right]

theorem coveredBehind_of_foundAt {w v : Text} {n : Nat} (hne : w ≠ [])
    (h : foundAt pattern before (w ++ v) = some (name, n)) (hle : w.length ≤ n) :
    coveredBehind pattern 0 before w v = n - w.length := by
  obtain ⟨c, w, rfl⟩ := List.exists_cons_of_ne_nil hne
  rw [List.cons_append] at h
  rw [List.length_cons] at hle
  rw [coveredBehind, coveredNext, h, Option.elim_some, coveredBehind_of_le (by omega),
    List.length_cons]
  omega

/-- What is covered is covered by one of the captures in front of it. -/
theorem exists_of_coveredBehind {w v : Text} (h : coveredBehind pattern skip before w v ≠ 0) :
    w.length < skip ∨ ∃ w₁ w₂ name n, w = w₁ ++ w₂ ∧ w₂ ≠ [] ∧
      coveredBehind pattern skip before w₁ (w₂ ++ v) = 0 ∧
      foundAt pattern (w₁.reverse ++ before) (w₂ ++ v) = some (name, n) ∧ w₂.length < n := by
  induction w generalizing skip before with
  | nil => exact .inl (Nat.pos_of_ne_zero h)
  | cons c w ih =>
      rcases ih h with hlength | ⟨w₁, w₂, name, n, rfl, hne, hfree, hfound, hn⟩
      · cases skip with
        | succ skip => exact .inl (Nat.succ_lt_succ hlength)
        | zero =>
            rw [coveredNext] at hlength
            cases hfound : foundAt pattern before (c :: (w ++ v)) with
            | none =>
                rw [hfound] at hlength
                cases hlength
            | some found =>
                rw [hfound, Option.elim_some] at hlength
                refine .inr ⟨[], c :: w, found.1, found.2, rfl, List.cons_ne_nil c w, rfl,
                  hfound, ?_⟩
                rw [List.length_cons]
                omega
      · rw [List.append_assoc] at hfree
        exact .inr ⟨c :: w₁, w₂, name, n, rfl, hne, hfree, by simpa using hfound, hn⟩

/-- A name is found where the pattern applies, if nothing that is found before reaches beyond that
place. -/
theorem mem_scan {w v : Text} {n : Nat} (hgap : ∀ c ∈ v.head?, ¬ isGap c) (hne : v ≠ [])
    (hfound : pattern (w.reverse ++ before) v = some (name, n)) (hskip : skip ≤ w.length)
    (hfree : ∀ w₁ w₂, w = w₁ ++ w₂ → w₂ ≠ [] → ∀ name' n',
      pattern (w₁.reverse ++ before) (w₂ ++ v) = some (name', n') → n' ≤ w₂.length) :
    name ∈ scan pattern skip before (w ++ v) := by
  refine mem_scan_iff.mpr ⟨w, v, n, rfl, ?_, (foundAt_of_ne_nil hgap hne).trans hfound⟩
  by_contra hcovered
  rcases exists_of_coveredBehind hcovered with hlength |
    ⟨w₁, w₂, name', n', hw, hne', -, hfound', hn⟩
  · exact absurd hlength (Nat.not_lt.mpr hskip)
  · exact absurd hn (Nat.not_lt.mpr (hfree w₁ w₂ hw hne' name' n' (pattern_of_foundAt hfound')))

/-- A scan finds nothing just when the pattern applies nowhere. -/
theorem scan_eq_nil_iff {u : Text} : scan pattern 0 before u = [] ↔
    ∀ w v, u = w ++ v → foundAt pattern (w.reverse ++ before) v = none := by
  rw [List.eq_nil_iff_forall_not_mem]
  constructor
  · rintro hnone w v rfl
    rw [Option.eq_none_iff_forall_ne_some]
    rintro ⟨name, n⟩ hfound
    by_cases hfree : coveredBehind pattern 0 before w v = 0
    · exact hnone name (mem_scan_iff.mpr ⟨w, v, n, rfl, hfree, hfound⟩)
    · -- What covers the place is found itself.
      rcases exists_of_coveredBehind hfree with hlength | ⟨w₁, w₂, name', n', rfl, -, hfree', h, -⟩
      · cases hlength
      · exact hnone name' (mem_scan_iff.mpr ⟨w₁, w₂ ++ v, n', by simp, hfree', h⟩)
  · intro hnone name hmem
    obtain ⟨w, v, n, hu, -, hfound⟩ := mem_scan_iff.mp hmem
    rw [hnone w v hu] at hfound
    cases hfound

/-- Where the pattern applies nowhere, the scan goes on behind. -/
theorem scan_append_of_none {w : Text} (u : Text) (h : ∀ w₁ w₂, w = w₁ ++ w₂ → w₂ ≠ [] →
    foundAt pattern (w₁.reverse ++ before) (w₂ ++ u) = none) :
    scan pattern 0 before (w ++ u) = scan pattern 0 (w.reverse ++ before) u := by
  induction w generalizing before with
  | nil => rfl
  | cons c w ih =>
      have hc : foundAt pattern before (c :: (w ++ u)) = none := h [] (c :: w) rfl (by simp)
      have hrest : scan pattern 0 (c :: before) (w ++ u) =
          scan pattern 0 (w.reverse ++ c :: before) u := by
        refine ih fun w₁ w₂ hw hne ↦ ?_
        simpa using h (c :: w₁) w₂ (by rw [hw, List.cons_append]) hne
      rw [List.cons_append, scan_free_cons, coveredNext, hc, List.reverse_cons, List.append_assoc]
      exact hrest

/-- What stands behind the start of a scan matters only for what the pattern makes of it. -/
theorem scan_congr {before' u : Text} (h : ∀ w v, u = w ++ v →
    foundAt pattern (w.reverse ++ before) v = foundAt pattern (w.reverse ++ before') v) :
    scan pattern skip before u = scan pattern skip before' u := by
  induction u generalizing skip before before' with
  | nil => rfl
  | cons c u ih =>
      have hhere : foundAt pattern before (c :: u) = foundAt pattern before' (c :: u) := h [] _ rfl
      have hrest (skip : Nat) :
          scan pattern skip (c :: before) u = scan pattern skip (c :: before') u := by
        refine ih fun w v hu ↦ ?_
        simpa using h (c :: w) v (by rw [hu, List.cons_append])
      cases skip with
      | succ skip => exact hrest skip
      | zero => rw [scan_free_cons, scan_free_cons, coveredNext, coveredNext, hhere, hrest]

end Reached

end SparqlComposer
