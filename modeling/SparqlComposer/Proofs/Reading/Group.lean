import SparqlComposer.Pattern
import SparqlComposer.Proofs.Expression.Classify
import SparqlComposer.Proofs.OrderedMap
import SparqlComposer.Session.Argument

/-!
# Groups of triples

The triples of a pattern are grouped by subject and predicate, and no group is empty. Adding them
again one by one, group after group, gives back the same groups in the same order.
-/

namespace SparqlComposer

open SparqlComposer.Action

/-- The text is of one of the kinds. -/
def IsTermOf (kinds : List Kind) (t : Text) : Prop := ∃ k ∈ kinds, k.admits t = .ok true

theorem Expression.IsOf.isTermOf {kinds : List Kind} {e : Expression} (h : e.IsOf kinds) :
    IsTermOf kinds e.text := by
  obtain ⟨k, hk, hadmits, -⟩ := h
  exact ⟨k, hk, hadmits⟩

/-! ## Groups that can be read -/

def ReadableObjects (os : List Text) : Prop := os ≠ [] ∧ ∀ o ∈ os, IsTermOf objectKinds o

def ReadablePredicates (ps : OrderedMap Text (List Text)) : Prop :=
  ps.entries ≠ [] ∧ ∀ e ∈ ps.entries, IsTermOf predicateKinds e.1 ∧ ReadableObjects e.2

namespace Triples

/-- Every group has a triple, and all terms are of the kinds that are allowed in their places. -/
def Readable (ts : Triples) : Prop :=
  ∀ e ∈ ts.entries, IsTermOf subjectKinds e.1 ∧ ReadablePredicates e.2

theorem readable_empty : (∅ : Triples).Readable := by
  intro e he
  exact nomatch he

theorem Readable.add {ts : Triples} (h : ts.Readable) {s p o : Text}
    (hs : IsTermOf subjectKinds s) (hp : IsTermOf predicateKinds p)
    (ho : IsTermOf objectKinds o) : (ts.add s p o).Readable := by
  have hobjects (os : List Text) (hos : ∀ o' ∈ os, IsTermOf objectKinds o') :
      ReadableObjects (os ++ [o]) := by
    refine ⟨List.append_ne_nil_of_right_ne_nil os (List.cons_ne_nil o []), fun o' ho' ↦ ?_⟩
    rcases List.mem_append.mp ho' with ho' | ho'
    · exact hos o' ho'
    · rw [List.mem_singleton.mp ho']
      exact ho
  have hpredicates (ps : OrderedMap Text (List Text))
      (hps : ∀ e ∈ ps.entries, IsTermOf predicateKinds e.1 ∧ ReadableObjects e.2) :
      ReadablePredicates (ps.alter p fun os ↦ os.getD [] ++ [o]) := by
    refine ⟨OrderedMap.entries_alter_ne_nil _ _ _, OrderedMap.forall_entries_alter hps hp ?_ ?_⟩
    · exact hobjects [] fun _ h ↦ nomatch h
    · exact fun os hos ↦ hobjects os hos.2
  refine OrderedMap.forall_entries_alter h hs ?_ ?_
  · exact hpredicates ∅ fun _ h ↦ nomatch h
  · exact fun ps hps ↦ hpredicates ps hps.2

/-! ## Adding triples again -/

/-- The triples of one subject. -/
def ofSubject (s : Text) (ps : OrderedMap Text (List Text)) : List (Text × Text × Text) :=
  ps.entries.flatMap fun (p, os) ↦ os.map fun o ↦ (s, p, o)

def addAll (ts : Triples) (triples : List (Text × Text × Text)) : Triples :=
  triples.foldl (fun ts t ↦ ts.add t.1 t.2.1 t.2.2) ts

theorem addAll_append (ts : Triples) (triples triples' : List (Text × Text × Text)) :
    ts.addAll (triples ++ triples') = (ts.addAll triples).addAll triples' :=
  List.foldl_append

def moreObjects (os : List Text) (os' : Option (List Text)) : List Text := os'.getD [] ++ os

def morePredicates (es : List (Text × List Text)) (ps : Option (OrderedMap Text (List Text))) :
    OrderedMap Text (List Text) :=
  es.foldl (fun ps e ↦ ps.alter e.1 (moreObjects e.2)) (ps.getD ∅)

theorem alter_moreObjects (ps : OrderedMap Text (List Text)) (p : Text) (os os' : List Text) :
    (ps.alter p (moreObjects os)).alter p (moreObjects os') =
      ps.alter p (moreObjects (os ++ os')) := by
  rw [OrderedMap.alter_alter]
  congr 1
  funext o
  exact List.append_assoc (o.getD []) os os'

theorem addAll_objects (ts : Triples) (s p : Text) {os : List Text} (h : os ≠ []) :
    ts.addAll (os.map fun o ↦ (s, p, o)) = ts.alter s (morePredicates [(p, os)]) := by
  induction os generalizing ts with
  | nil => exact absurd rfl h
  | cons o os ih =>
      cases os with
      | nil => rfl
      | cons o' os =>
          have hrest := ih (ts.add s p o) (List.cons_ne_nil o' os)
          have hstep : ts.addAll ((o :: o' :: os).map fun o ↦ (s, p, o)) =
              (ts.add s p o).addAll ((o' :: os).map fun o ↦ (s, p, o)) := rfl
          rw [hstep, hrest, add, OrderedMap.alter_alter]
          congr 1
          funext ps
          exact alter_moreObjects (ps.getD ∅) p [o] (o' :: os)

theorem addAll_predicates (ts : Triples) (s : Text) {es : List (Text × List Text)}
    (hne : es ≠ []) (h : ∀ e ∈ es, e.2 ≠ []) :
    ts.addAll (es.flatMap fun (p, os) ↦ os.map fun o ↦ (s, p, o)) =
      ts.alter s (morePredicates es) := by
  induction es generalizing ts with
  | nil => exact absurd rfl hne
  | cons e es ih =>
      obtain ⟨p, os⟩ := e
      have hos : os ≠ [] := h (p, os) List.mem_cons_self
      cases es with
      | nil =>
          rw [List.flatMap_cons, List.flatMap_nil, List.append_nil, addAll_objects ts s p hos]
      | cons e' es =>
          have hrest := ih (ts.addAll (os.map fun o ↦ (s, p, o))) (List.cons_ne_nil e' es)
            fun e he ↦ h e (List.mem_cons_of_mem _ he)
          rw [List.flatMap_cons, addAll_append, hrest, addAll_objects ts s p hos,
            OrderedMap.alter_alter]
          rfl

theorem addAll_subjects (ts : Triples) {es : List (Text × OrderedMap Text (List Text))}
    (h : ∀ e ∈ es, ReadablePredicates e.2) :
    ts.addAll (es.flatMap fun e ↦ ofSubject e.1 e.2) =
      es.foldl (fun ts e ↦ ts.alter e.1 (morePredicates e.2.entries)) ts := by
  induction es generalizing ts with
  | nil => rfl
  | cons e es ih =>
      obtain ⟨hne, hpredicates⟩ := h e List.mem_cons_self
      have hstep := addAll_predicates ts e.1 hne fun e' he' ↦ (hpredicates e' he').2.1
      rw [List.flatMap_cons, addAll_append, ih _ fun e he ↦ h e (List.mem_cons_of_mem _ he),
        ofSubject, hstep, List.foldl_cons]

theorem morePredicates_none (ps : OrderedMap Text (List Text)) :
    morePredicates ps.entries none = ps := by
  ext1
  have hnodup : ((∅ : OrderedMap Text (List Text)).keys ++ ps.entries.map Prod.fst).Nodup :=
    ps.nodup
  rw [morePredicates, Option.getD_none,
    OrderedMap.entries_foldl_alter moreObjects (fun _ _ ↦ rfl) hnodup, OrderedMap.entries_empty,
    List.nil_append]

/-- Groups are told by their triples. -/
theorem addAll_toList {ts : Triples} (h : ts.Readable) : (∅ : Triples).addAll ts.toList = ts := by
  have htoList : ts.toList = ts.entries.flatMap fun e ↦ ofSubject e.1 e.2 := rfl
  have hnodup : ((∅ : Triples).keys ++ ts.entries.map Prod.fst).Nodup := ts.nodup
  rw [htoList, addAll_subjects ∅ fun e he ↦ (h e he).2]
  ext1
  rw [OrderedMap.entries_foldl_alter (fun ps ↦ morePredicates ps.entries)
    (fun e _ ↦ morePredicates_none e.2) hnodup, OrderedMap.entries_empty, List.nil_append]

end Triples

end SparqlComposer
