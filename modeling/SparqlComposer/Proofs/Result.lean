import Mathlib.Data.List.Forall2

/-!
# Steps that may fail

A composition succeeds when every step does, and fails with the first step that does. The same
holds for a step that is made for each item of a list.
-/

namespace SparqlComposer

namespace Except

variable {ε α β : Type}

theorem bind_eq_ok_iff {x : Except ε α} {f : α → Except ε β} {b : β} :
    x >>= f = .ok b ↔ ∃ a, x = .ok a ∧ f a = .ok b := by
  cases x <;> simp [bind, Except.bind]

theorem bind_eq_error_iff {x : Except ε α} {f : α → Except ε β} {e : ε} :
    x >>= f = .error e ↔ x = .error e ∨ ∃ a, x = .ok a ∧ f a = .error e := by
  cases x <;> simp [bind, Except.bind]

@[simp] theorem pure_eq_ok_iff {a b : α} : (pure a : Except ε α) = .ok b ↔ a = b := by
  simp [pure, Except.pure]

@[simp] theorem pure_ne_error {a : α} {e : ε} : (pure a : Except ε α) ≠ .error e := by
  simp [pure, Except.pure]

@[simp] theorem throw_ne_ok {e : ε} {a : α} : (throw e : Except ε α) ≠ .ok a := by
  simp [throw, throwThe, MonadExceptOf.throw]

/-- A step without a result is known from what it is followed by a constant. -/
theorem bind_const_injective (b : β) : Function.Injective fun v : Except ε Unit ↦ (do
    v
    return b : Except ε β) := by
  rintro (e | _) (e' | _) h
  · exact congrArg _ (Except.error.inj h)
  · exact nomatch h
  · exact nomatch h
  · rfl

theorem mapM_cons (f : α → Except ε β) (a : α) (as : List α) :
    (a :: as).mapM f = do return (← f a) :: (← as.mapM f) := List.mapM_cons

theorem mapM_eq_ok_iff {f : α → Except ε β} {as : List α} {bs : List β} :
    as.mapM f = .ok bs ↔ List.Forall₂ (fun a b ↦ f a = .ok b) as bs := by
  induction as generalizing bs with
  | nil => cases bs <;> simp [List.mapM_nil]
  | cons a as ih =>
      rw [mapM_cons, bind_eq_ok_iff]
      constructor
      · rintro ⟨b, hb, h⟩
        obtain ⟨bs', hbs', h⟩ := bind_eq_ok_iff.mp h
        obtain rfl := pure_eq_ok_iff.mp h
        exact .cons hb (ih.mp hbs')
      · rintro (_ | ⟨hb, hbs⟩)
        exact ⟨_, hb, bind_eq_ok_iff.mpr ⟨_, ih.mpr hbs, rfl⟩⟩

theorem exists_of_mapM_eq_error {f : α → Except ε β} {as : List α} {e : ε}
    (h : as.mapM f = .error e) : ∃ a ∈ as, f a = .error e := by
  induction as with
  | nil => simp [List.mapM_nil] at h
  | cons a as ih =>
      rw [mapM_cons, bind_eq_error_iff] at h
      rcases h with h | ⟨b, -, h⟩
      · exact ⟨a, List.mem_cons_self, h⟩
      · rcases bind_eq_error_iff.mp h with h | ⟨bs, -, h⟩
        · obtain ⟨a', ha', he⟩ := ih h
          exact ⟨a', List.mem_cons_of_mem a ha', he⟩
        · simp at h

theorem exists_mapM_eq_ok {f : α → Except ε β} {as : List α} (h : ∀ a ∈ as, ∃ b, f a = .ok b) :
    ∃ bs, as.mapM f = .ok bs := by
  cases hr : as.mapM f with
  | ok bs => exact ⟨bs, rfl⟩
  | error e =>
      obtain ⟨a, ha, he⟩ := exists_of_mapM_eq_error hr
      obtain ⟨b, hb⟩ := h a ha
      rw [hb] at he
      exact nomatch he

theorem mapM_congr {f g : α → Except ε β} {as : List α} (h : ∀ a ∈ as, f a = g a) :
    as.mapM f = as.mapM g := by
  induction as with
  | nil => simp only [List.mapM_nil]
  | cons a as ih =>
      rw [mapM_cons, mapM_cons, h a List.mem_cons_self,
        ih fun a' ha' ↦ h a' (List.mem_cons_of_mem a ha')]

theorem forM_cons (f : α → Except ε Unit) (a : α) (as : List α) :
    (a :: as).forM f = (do
      f a
      as.forM f) := rfl

theorem forM_append (f : α → Except ε Unit) (as bs : List α) :
    (as ++ bs).forM f = (do
      as.forM f
      bs.forM f) := by
  induction as with
  | nil => rfl
  | cons a as ih =>
      rw [List.cons_append, forM_cons, forM_cons, ih]
      cases f a <;> rfl

theorem forM_congr {f g : α → Except ε Unit} {as : List α} (h : ∀ a ∈ as, f a = g a) :
    as.forM f = as.forM g := by
  induction as with
  | nil => rfl
  | cons a as ih =>
      rw [forM_cons, forM_cons, h a List.mem_cons_self,
        ih fun a' ha' ↦ h a' (List.mem_cons_of_mem a ha')]

theorem forM_eq_ok_iff {f : α → Except ε Unit} {as : List α} :
    as.forM f = .ok () ↔ ∀ a ∈ as, f a = .ok () := by
  induction as with
  | nil => exact ⟨fun _ _ ha ↦ (nomatch ha), fun _ ↦ rfl⟩
  | cons a as ih =>
      rw [forM_cons, bind_eq_ok_iff, List.forall_mem_cons, ← ih]
      exact ⟨fun ⟨_, ha, has⟩ ↦ ⟨ha, has⟩, fun ⟨ha, has⟩ ↦ ⟨(), ha, has⟩⟩

/-- What is done for each item stops at the first one for which it fails. -/
theorem forM_eq_error_iff {f : α → Except ε Unit} {as : List α} {e : ε} :
    as.forM f = .error e ↔ ∃ before a after, as = before ++ a :: after ∧
      (∀ b ∈ before, f b = .ok ()) ∧ f a = .error e := by
  constructor
  · intro h
    induction as with
    | nil => exact nomatch h
    | cons a as ih =>
        rw [forM_cons, bind_eq_error_iff] at h
        rcases h with h | ⟨_, ha, h⟩
        · exact ⟨[], a, as, rfl, by simp, h⟩
        · obtain ⟨before, b, after, rfl, hbefore, hb⟩ := ih h
          exact ⟨a :: before, b, after, rfl, List.forall_mem_cons.mpr ⟨ha, hbefore⟩, hb⟩
  · rintro ⟨before, a, after, rfl, hbefore, ha⟩
    rw [forM_append, forM_eq_ok_iff.mpr hbefore, forM_cons, ha]
    rfl

/-- Where the steps themselves cannot fail, what is done before each of them may as well be done for
all of them first. -/
theorem mapM_after {f : α → List β} {v : β → Except ε Unit} {γ : Type} {g : α → Except ε γ}
    {as : List α} (hg : ∀ a ∈ as, ∃ c, g a = .ok c) :
    (as.mapM fun a ↦ do
      (f a).forM v
      g a) = (do
      (as.flatMap f).forM v
      as.mapM g) := by
  induction as with
  | nil => rfl
  | cons a as ih =>
      obtain ⟨c, hc⟩ := hg a List.mem_cons_self
      rw [mapM_cons, mapM_cons, List.flatMap_cons, forM_append, hc,
        ih fun a' ha' ↦ hg a' (List.mem_cons_of_mem a ha')]
      cases (f a).forM v with
      | error e => rfl
      | ok _ => cases (as.flatMap f).forM v <;> rfl

end Except

section Related

variable {α β : Type} {R : α → β → Prop} {as : List α} {bs : List β}

theorem exists_of_forall₂_left (h : List.Forall₂ R as bs) {a : α} (ha : a ∈ as) :
    ∃ b ∈ bs, R a b := by
  induction h with
  | nil => exact nomatch ha
  | cons hab _ ih =>
      rcases List.mem_cons.mp ha with rfl | ha
      · exact ⟨_, List.mem_cons_self, hab⟩
      · obtain ⟨b, hb, hr⟩ := ih ha
        exact ⟨b, List.mem_cons_of_mem _ hb, hr⟩

theorem exists_of_forall₂_right (h : List.Forall₂ R as bs) {b : β} (hb : b ∈ bs) :
    ∃ a ∈ as, R a b := exists_of_forall₂_left h.flip hb

end Related

end SparqlComposer
