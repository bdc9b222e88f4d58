import SparqlComposer.OrderedMap

/-!
# The entries of a map

An entry of a map that was made from a list is in the list, and every key of the list has one.
-/

namespace SparqlComposer.OrderedMap

variable {κ α : Type} [DecidableEq κ]

theorem mem_alterEntries {es : List (κ × α)} {k : κ}
    {f : Option α → α} {e : κ × α} (h : e ∈ alterEntries k f es) :
    e ∈ es ∨ ∃ o, e = (k, f o) ∧ ∀ v, o = some v → (k, v) ∈ es := by
  induction es with
  | nil => exact .inr ⟨none, List.mem_singleton.mp h, fun v hv ↦ nomatch hv⟩
  | cons e' es ih =>
      obtain ⟨k', v'⟩ := e'
      by_cases hk : k' = k
      · subst hk
        simp only [alterEntries, if_true, List.mem_cons] at h
        rcases h with rfl | h
        · refine .inr ⟨some v', rfl, fun v hv ↦ ?_⟩
          obtain rfl := Option.some.inj hv
          exact List.mem_cons_self
        · exact .inl (List.mem_cons_of_mem _ h)
      · simp only [alterEntries, hk, if_false, List.mem_cons] at h
        rcases h with rfl | h
        · exact .inl List.mem_cons_self
        · rcases ih h with h | ⟨o, he, ho⟩
          · exact .inl (List.mem_cons_of_mem _ h)
          · exact .inr ⟨o, he, fun v hv ↦ List.mem_cons_of_mem _ (ho v hv)⟩

theorem mem_entries_insert {m : OrderedMap κ α} {k : κ} {v : α} {e : κ × α}
    (h : e ∈ (m.insert k v).entries) : e ∈ m.entries ∨ e = (k, v) := by
  rcases mem_alterEntries h with h | ⟨_, rfl, -⟩
  · exact .inl h
  · exact .inr rfl

theorem mem_entries_insertAll {m : OrderedMap κ α} {es : List (κ × α)} {e : κ × α}
    (h : e ∈ (m.insertAll es).entries) : e ∈ m.entries ∨ e ∈ es := by
  induction es generalizing m with
  | nil => exact .inl h
  | cons e' es ih =>
      rcases ih h with h | h
      · rcases mem_entries_insert h with h | rfl
        · exact .inl h
        · exact .inr List.mem_cons_self
      · exact .inr (List.mem_cons_of_mem _ h)

theorem mem_of_mem_ofList {es : List (κ × α)} {e : κ × α} (h : e ∈ (ofList es).entries) :
    e ∈ es := by
  rcases mem_entries_insertAll h with h | h
  · exact nomatch h
  · exact h

theorem mem_keys_insertAll {m : OrderedMap κ α} {es : List (κ × α)} {k : κ} :
    k ∈ (m.insertAll es).keys ↔ k ∈ m.keys ∨ k ∈ es.map Prod.fst := by
  induction es generalizing m with
  | nil => simp [insertAll]
  | cons e es ih =>
      have hstep : m.insertAll (e :: es) = (m.insert e.1 e.2).insertAll es := rfl
      have hinsert : k ∈ (m.insert e.1 e.2).keys ↔ k ∈ m.keys ∨ k = e.1 := by
        rw [keys_insert]
        split
        · rename_i hmem
          constructor
          · exact .inl
          · rintro (hk | rfl)
            · exact hk
            · exact hmem
        · rw [List.mem_append, List.mem_singleton]
      rw [hstep, ih, hinsert, List.map_cons, List.mem_cons, or_assoc]

@[simp] theorem mem_keys_ofList {es : List (κ × α)} {k : κ} :
    k ∈ (ofList es).keys ↔ k ∈ es.map Prod.fst := by
  rw [ofList, mem_keys_insertAll]
  exact ⟨fun h ↦ h.elim (fun h ↦ nomatch h) id, .inr⟩

/-! ## Altering -/

theorem alter_alter (m : OrderedMap κ α) (k : κ) (f g : Option α → α) :
    (m.alter k f).alter k g = m.alter k fun o ↦ g (some (f o)) := by
  ext1
  change alterEntries k g (alterEntries k f m.entries) = alterEntries k _ m.entries
  induction m.entries with
  | nil => simp [alterEntries]
  | cons e es ih =>
      obtain ⟨k', v⟩ := e
      by_cases hk : k' = k
      · simp [alterEntries, hk]
      · simp [alterEntries, hk, ih]

theorem entries_alter_of_not_mem {m : OrderedMap κ α} {k : κ} (h : k ∉ m.keys)
    (f : Option α → α) : (m.alter k f).entries = m.entries ++ [(k, f none)] := by
  obtain ⟨es, hnodup⟩ := m
  change k ∉ es.map Prod.fst at h
  change alterEntries k f es = es ++ [(k, f none)]
  clear hnodup
  induction es with
  | nil => rfl
  | cons e es ih =>
      obtain ⟨k', v⟩ := e
      obtain ⟨hk, hes⟩ := List.ne_and_not_mem_of_not_mem_cons h
      rw [alterEntries, if_neg (Ne.symm hk), ih hes, List.cons_append]

/-- What is given to new keys, one after the other, comes behind in this order. -/
theorem entries_foldl_alter (f : α → Option α → α) {m : OrderedMap κ α} {es : List (κ × α)}
    (hf : ∀ e ∈ es, f e.2 none = e.2) (hnodup : (m.keys ++ es.map Prod.fst).Nodup) :
    (es.foldl (fun m e ↦ m.alter e.1 (f e.2)) m).entries = m.entries ++ es := by
  induction es generalizing m with
  | nil => rw [List.foldl_nil, List.append_nil]
  | cons e es ih =>
      obtain ⟨k, v⟩ := e
      have hnew : k ∉ m.keys := fun hk ↦
        (List.nodup_append.mp hnodup).2.2 k hk k (by simp) rfl
      have hentries : (m.alter k (f v)).entries = m.entries ++ [(k, v)] := by
        rw [entries_alter_of_not_mem hnew, hf (k, v) List.mem_cons_self]
      have hkeys : (m.alter k (f v)).keys = m.keys ++ [k] := by
        rw [keys, hentries, List.map_append]
        rfl
      rw [List.foldl_cons, ih (fun e he ↦ hf e (List.mem_cons_of_mem _ he)), hentries,
        List.append_assoc, List.singleton_append]
      rw [hkeys, List.append_assoc, List.singleton_append]
      exact hnodup

/-- What holds of every entry still does when one of them is altered, or a new one is given. -/
theorem forall_entries_alter {m : OrderedMap κ α} {k : κ} {f : Option α → α} {P : κ → Prop}
    {Q : α → Prop} (h : ∀ e ∈ m.entries, P e.1 ∧ Q e.2) (hk : P k) (hnew : Q (f none))
    (hold : ∀ v, Q v → Q (f (some v))) : ∀ e ∈ (m.alter k f).entries, P e.1 ∧ Q e.2 := by
  intro e he
  rcases mem_alterEntries he with he | ⟨o, rfl, ho⟩
  · exact h e he
  · cases o with
    | none => exact ⟨hk, hnew⟩
    | some v => exact ⟨hk, hold v (h (k, v) (ho v rfl)).2⟩

theorem entries_alter_ne_nil (m : OrderedMap κ α) (k : κ) (f : Option α → α) :
    (m.alter k f).entries ≠ [] := by
  intro h
  have hmem : k ∈ (m.alter k f).keys := by
    rw [keys_alter]
    split
    · assumption
    · exact List.mem_append_right _ List.mem_cons_self
  rw [keys, h] at hmem
  exact nomatch hmem

/-- Every key has one entry. -/
theorem mem_entries_iff {m : OrderedMap κ α} {k : κ} {v : α} :
    (k, v) ∈ m.entries ↔ m.find? k = some v := by
  obtain ⟨es, hnodup⟩ := m
  change (k, v) ∈ es ↔ es.lookup k = some v
  induction es with
  | nil => simp
  | cons e es ih =>
      obtain ⟨j, w⟩ := e
      rw [List.map_cons, List.nodup_cons] at hnodup
      by_cases hk : k = j
      · subst hk
        have hnone : (k, v) ∉ es := fun hmem ↦ hnodup.1 (List.mem_map.mpr ⟨_, hmem, rfl⟩)
        simp [hnone, eq_comm]
      · rw [List.lookup_cons, beq_false_of_ne hk]
        simpa [hk] using ih hnodup.2

/-- Entries of which only that of one key gives anything give what this one does. -/
theorem flatMap_entries_eq {β : Type} (m : OrderedMap κ α) (k : κ) {g : κ × α → List β}
    (hg : ∀ j v, j ≠ k → g (j, v) = []) :
    m.entries.flatMap g = ((m.find? k).map fun v ↦ g (k, v)).getD [] := by
  obtain ⟨es, hnodup⟩ := m
  change es.flatMap g = ((es.lookup k).map fun v ↦ g (k, v)).getD []
  induction es with
  | nil => rfl
  | cons e es ih =>
      obtain ⟨j, v⟩ := e
      rw [List.map_cons, List.nodup_cons] at hnodup
      rw [List.flatMap_cons, ih hnodup.2, List.lookup_cons]
      by_cases hk : k = j
      · subst hk
        have hnone : es.lookup k = none :=
          List.lookup_eq_none_iff.mpr fun e he ↦ by
            have hne : k ≠ e.1 := fun heq ↦ hnodup.1 (List.mem_map.mpr ⟨e, he, heq.symm⟩)
            simpa using hne
        simp [hnone]
      · rw [hg j v (Ne.symm hk), List.nil_append, beq_false_of_ne hk]

end SparqlComposer.OrderedMap
