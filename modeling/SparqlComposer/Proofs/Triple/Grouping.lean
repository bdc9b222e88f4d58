import Mathlib.Data.List.Basic
import Mathlib.Data.List.Sort
import Mathlib.Data.Prod.Lex
import SparqlComposer.Pattern
import SparqlComposer.Proofs.OrderedMap

/-!
# Groups in the order of their first triples

Triples that are added one after the other come out sorted by the place where their subject first
stands, and then by the place where their predicate first stands with it. The sort is stable: the
triples with one subject and predicate stay in the order in which they were added, and all of them
stay.
-/

namespace SparqlComposer

/-! ## Stable sorting -/

section Sorting

variable {α κ β : Type} [DecidableEq κ] [LinearOrder β] {rank : α → β} {key : α → κ}

theorem mem_of_filter_key_eq {as bs : List α} {a : α}
    (h : as.filter (key · = key a) = bs.filter (key · = key a)) (ha : a ∈ as) : a ∈ bs := by
  have hmem : a ∈ as.filter (key · = key a) := List.mem_filter.mpr ⟨ha, by simp⟩
  rw [h] at hmem
  exact (List.mem_filter.mp hmem).1

/-- A list that is sorted by rank is told by the order of its elements of each key, if elements of
the same rank have the same key. -/
theorem eq_of_filter_key {as bs : List α} (has : as.Pairwise fun a b ↦ rank a ≤ rank b)
    (hbs : bs.Pairwise fun a b ↦ rank a ≤ rank b)
    (hkey : ∀ a ∈ as, ∀ b ∈ bs, rank a = rank b → key a = key b)
    (h : ∀ k, as.filter (key · = k) = bs.filter (key · = k)) : as = bs := by
  induction as generalizing bs with
  | nil =>
      rw [eq_comm, List.eq_nil_iff_forall_not_mem]
      exact fun b hb ↦ List.not_mem_nil (mem_of_filter_key_eq (h (key b)).symm hb)
  | cons a as ih =>
      have hmem : a ∈ bs := mem_of_filter_key_eq (h (key a)) List.mem_cons_self
      cases bs with
      | nil => exact absurd hmem List.not_mem_nil
      | cons b bs =>
          rw [List.pairwise_cons] at has hbs
          -- Each of the two lists starts with an element of least rank of the other one.
          have hle {x y : α} {l : List α} (hl : ∀ z ∈ l, rank x ≤ rank z) (hy : y ∈ x :: l) :
              rank x ≤ rank y := by
            rcases List.mem_cons.mp hy with rfl | hy
            · exact le_rfl
            · exact hl y hy
          have hmem' : b ∈ a :: as := mem_of_filter_key_eq (h (key b)).symm List.mem_cons_self
          have hrank : rank a = rank b := le_antisymm (hle has.1 hmem') (hle hbs.1 hmem)
          have hab : key a = key b := hkey a List.mem_cons_self b List.mem_cons_self hrank
          have hhead := h (key a)
          simp only [List.filter_cons, ← hab, decide_true, if_true, List.cons.injEq] at hhead
          obtain ⟨rfl, -⟩ := hhead
          rw [List.cons.injEq]
          refine ⟨rfl, ih has.2 hbs.2 ?_ fun k ↦ ?_⟩
          · exact fun x hx y hy ↦
              hkey x (List.mem_cons_of_mem _ hx) y (List.mem_cons_of_mem _ hy)
          · have hk := h k
            simp only [List.filter_cons] at hk
            split at hk
            · exact (List.cons.inj hk).2
            · exact hk

/-- The comparison by rank. -/
def precedes (rank : α → β) (a b : α) : Bool := decide (rank a ≤ rank b)

theorem precedes_trans (rank : α → β) (a b c : α) (hab : precedes rank a b)
    (hbc : precedes rank b c) : precedes rank a c :=
  decide_eq_true (le_trans (of_decide_eq_true hab) (of_decide_eq_true hbc))

theorem precedes_total (rank : α → β) (a b : α) : precedes rank a b || precedes rank b a := by
  simpa [precedes] using le_total (rank a) (rank b)

theorem pairwise_mergeSort_rank (rank : α → β) (l : List α) :
    (l.mergeSort (precedes rank)).Pairwise fun a b ↦ rank a ≤ rank b :=
  (List.pairwise_mergeSort (precedes_trans rank) (precedes_total rank) l).imp of_decide_eq_true

/-- Sorting leaves the elements of each key in their order. -/
theorem filter_mergeSort_rank {l : List α}
    (hrank : ∀ a ∈ l, ∀ b ∈ l, key a = key b → rank a = rank b) (k : κ) :
    (l.mergeSort (precedes rank)).filter (key · = k) = l.filter (key · = k) := by
  have hsorted : (l.filter (key · = k)).Pairwise fun a b ↦ precedes rank a b := by
    rw [List.pairwise_iff_forall_sublist]
    intro a b hab
    have ha := List.mem_filter.mp (hab.subset List.mem_cons_self)
    have hb := List.mem_filter.mp (hab.subset (List.mem_cons_of_mem a List.mem_cons_self))
    rw [decide_eq_true_eq] at ha hb
    exact decide_eq_true (hrank a ha.1 b hb.1 (ha.2.trans hb.2.symm)).le
  have hsub := (List.sublist_mergeSort (precedes_trans rank) (precedes_total rank) hsorted
    List.filter_sublist).filter (key · = k)
  rw [List.filter_filter] at hsub
  simp only [Bool.and_self] at hsub
  exact (hsub.eq_of_length ((List.mergeSort_perm l _).filter _).length_eq.symm).symm

end Sorting

/-! ## Keys in the order in which they first stand -/

section FirstOrder

variable {κ β : Type} [DecidableEq β] {f : κ → β} {ks : List κ} {bs : List β}

/-- The place where an element first stands in a list. -/
def firstPlace (bs : List β) (b : β) : ℕ := bs.idxOf b

theorem firstPlace_append_of_mem {b : β} (h : b ∈ bs) (bs' : List β) :
    firstPlace (bs ++ bs') b = firstPlace bs b := List.idxOf_append_of_mem h

theorem firstPlace_lt_append {b c : β} (hb : b ∈ bs) (hc : c ∉ bs) (bs' : List β) :
    firstPlace (bs ++ bs') b < firstPlace (bs ++ bs') c := by
  rw [firstPlace_append_of_mem hb, firstPlace, firstPlace, List.idxOf_append_of_notMem hc]
  exact Nat.lt_of_lt_of_le (List.idxOf_lt_length_iff.mpr hb) (Nat.le_add_right _ _)

theorem firstPlace_inj {b c : β} (hb : b ∈ bs) : firstPlace bs b = firstPlace bs c ↔ b = c :=
  List.idxOf_inj hb

/-- The keys stand in the order in which their images first stand in a list, and no key that has
its image there is missing. -/
structure InFirstOrder (f : κ → β) (ks : List κ) (bs : List β) : Prop where
  sorted : ks.Pairwise fun j k ↦ firstPlace bs (f j) < firstPlace bs (f k)
  mem_iff : ∀ k, k ∈ ks ↔ f k ∈ bs

namespace InFirstOrder

theorem nil (f : κ → β) : InFirstOrder f [] [] := ⟨.nil, fun _ ↦ by simp⟩

/-- What is appended leaves the order of the keys that are there. -/
theorem sorted_append (h : InFirstOrder f ks bs) (bs' : List β) :
    ks.Pairwise fun j k ↦ firstPlace (bs ++ bs') (f j) < firstPlace (bs ++ bs') (f k) := by
  refine h.sorted.imp_of_mem fun {j k} hj hk hlt ↦ ?_
  rwa [firstPlace_append_of_mem ((h.mem_iff j).mp hj),
    firstPlace_append_of_mem ((h.mem_iff k).mp hk)]

/-- An image of no key changes nothing. -/
theorem snoc_of_ne (h : InFirstOrder f ks bs) {b : β} (hb : ∀ k, f k ≠ b) :
    InFirstOrder f ks (bs ++ [b]) := by
  refine ⟨h.sorted_append [b], fun k ↦ ?_⟩
  rw [h.mem_iff, List.mem_append, List.mem_singleton, or_iff_left (hb k)]

/-- A key whose image comes at the end is put there, unless it is there already. -/
theorem snoc [DecidableEq κ] (h : InFirstOrder f ks bs) (hf : Function.Injective f) (k : κ) :
    InFirstOrder f (if k ∈ ks then ks else ks ++ [k]) (bs ++ [f k]) := by
  split
  · rename_i hk
    refine ⟨h.sorted_append [f k], fun j ↦ ?_⟩
    rw [h.mem_iff, List.mem_append, List.mem_singleton, hf.eq_iff]
    exact ⟨.inl, fun hj ↦ hj.elim id fun heq ↦ heq ▸ (h.mem_iff k).mp hk⟩
  · rename_i hk
    have hnew : f k ∉ bs := mt (h.mem_iff k).mpr hk
    refine ⟨List.pairwise_append.mpr ⟨h.sorted_append [f k], List.pairwise_singleton _ _, ?_⟩, ?_⟩
    · intro j hj k' hk'
      rw [List.mem_singleton.mp hk']
      exact firstPlace_lt_append ((h.mem_iff j).mp hj) hnew [f k]
    · intro j
      rw [List.mem_append, List.mem_append, h.mem_iff, List.mem_singleton, List.mem_singleton,
        hf.eq_iff]

end InFirstOrder

end FirstOrder

namespace Triples

/-! ## The triples of a list by their groups -/

/-- The triples in the order in which they were added. -/
abbrev History := List (Text × Text × Text)

/-- The subject and predicate of a triple. -/
def pair (t : Text × Text × Text) : Text × Text := (t.1, t.2.1)

/-- The place where the subject of a triple first stands, and the place where its predicate first
stands with this subject. -/
def rank (h : History) (t : Text × Text × Text) : ℕ ×ₗ ℕ :=
  toLex (firstPlace (h.map fun u ↦ u.1) t.1, firstPlace (h.map fun u ↦ pair u) (pair t))

/-- The triples in the stable order by their ranks. -/
def grouped (h : History) : History := h.mergeSort (precedes (rank h))

theorem rank_eq_iff {h : History} {t u : Text × Text × Text} (ht : t ∈ h) :
    rank h t = rank h u ↔ pair t = pair u := by
  constructor
  · intro hrank
    have hpairs : firstPlace (h.map fun u ↦ pair u) (pair t) =
        firstPlace (h.map fun u ↦ pair u) (pair u) := congrArg (fun r ↦ (ofLex r).2) hrank
    exact (firstPlace_inj (List.mem_map_of_mem ht)).mp hpairs
  · intro hpair
    have hsubject : t.1 = u.1 := congrArg (fun k : Text × Text ↦ k.1) hpair
    rw [rank, rank, hsubject, hpair]

def predicatesOf (ts : Triples) (s : Text) : OrderedMap Text (List Text) := (ts.find? s).getD ∅

def objectsOf (ts : Triples) (s p : Text) : List Text := ((ts.predicatesOf s).find? p).getD []

/-- Groups hold the triples of a history: the subjects, and the predicates of each, in the order in
which they first stand there, and the objects of both as they do. -/
structure Holds (ts : Triples) (h : History) : Prop where
  subjects : InFirstOrder id ts.keys (h.map fun t ↦ t.1)
  predicates : ∀ s, InFirstOrder (s, ·) (ts.predicatesOf s).keys (h.map fun t ↦ pair t)
  objects : ∀ s p, ts.objectsOf s p = (h.filter (pair · = (s, p))).map fun t ↦ t.2.2

theorem holds_empty : Holds ∅ [] where
  subjects := .nil id
  predicates s := .nil (s, ·)
  objects _ _ := rfl

theorem predicatesOf_add (ts : Triples) (s p o s' : Text) : (ts.add s p o).predicatesOf s' =
    if s' = s then (ts.predicatesOf s).alter p fun os ↦ os.getD [] ++ [o]
    else ts.predicatesOf s' := by
  rw [predicatesOf, add, OrderedMap.find?_alter]
  split <;> rfl

theorem objectsOf_add (ts : Triples) (s p o s' p' : Text) : (ts.add s p o).objectsOf s' p' =
    if (s', p') = (s, p) then ts.objectsOf s p ++ [o] else ts.objectsOf s' p' := by
  rw [objectsOf, predicatesOf_add]
  by_cases hs : s' = s
  · subst hs
    rw [if_pos rfl, OrderedMap.find?_alter]
    by_cases hp : p' = p
    · subst hp
      simp [objectsOf]
    · simp [hp, objectsOf]
  · rw [if_neg hs, if_neg fun heq ↦ hs (congrArg Prod.fst heq)]
    rfl

theorem Holds.add {ts : Triples} {h : History} (hts : ts.Holds h) (s p o : Text) :
    (ts.add s p o).Holds (h ++ [(s, p, o)]) where
  subjects := by
    rw [Triples.add, OrderedMap.keys_alter, List.map_append]
    exact hts.subjects.snoc Function.injective_id s
  predicates s' := by
    rw [predicatesOf_add, List.map_append]
    split
    · rename_i heq
      subst heq
      rw [OrderedMap.keys_alter]
      exact (hts.predicates s').snoc (Prod.mk_right_injective s') p
    · rename_i hne
      exact (hts.predicates s').snoc_of_ne fun p' heq ↦ hne (congrArg Prod.fst heq)
  objects s' p' := by
    rw [objectsOf_add, List.filter_append, List.map_append, ← hts.objects]
    by_cases heq : (s', p') = (s, p)
    · obtain ⟨rfl, rfl⟩ := Prod.mk.inj heq
      simp [pair]
    · rw [if_neg heq]
      have hne : ¬ pair (s, p, o) = (s', p') := Ne.symm heq
      simp [hne]

/-! ## The triples of the groups -/

/-- The triples with one subject and predicate are those of one group. -/
theorem filter_toList (ts : Triples) (s p : Text) :
    ts.toList.filter (pair · = (s, p)) = (ts.objectsOf s p).map fun o ↦ (s, p, o) := by
  have hobjects (s' p' : Text) (os : List Text) :
      (os.map fun o ↦ (s', p', o)).filter (pair · = (s, p)) =
        if (s', p') = (s, p) then os.map fun o ↦ (s, p, o) else [] := by
    split
    · rename_i heq
      obtain ⟨rfl, rfl⟩ := Prod.mk.inj heq
      rw [List.filter_eq_self]
      simp [pair]
    · rename_i hne
      rw [List.filter_eq_nil_iff]
      intro t ht
      obtain ⟨o, -, rfl⟩ := List.mem_map.mp ht
      simpa [pair] using hne
  have hpredicates (s' : Text) (ps : OrderedMap Text (List Text)) :
      (ps.entries.flatMap fun e ↦ e.2.map fun o ↦ (s', e.1, o)).filter (pair · = (s, p)) =
        if s' = s then ((ps.find? p).getD []).map fun o ↦ (s, p, o) else [] := by
    rw [List.filter_flatMap]
    split
    · rename_i heq
      subst heq
      rw [ps.flatMap_entries_eq p fun p' os hne ↦ by
        rw [hobjects, if_neg fun heq ↦ hne (congrArg Prod.snd heq)]]
      cases ps.find? p with
      | none => rfl
      | some os =>
          rw [Option.map_some, Option.getD_some, hobjects, if_pos rfl]
          rfl
    · rename_i hne
      refine List.flatMap_eq_nil_iff.mpr fun e _ ↦ ?_
      rw [hobjects, if_neg fun heq ↦ hne (congrArg Prod.fst heq)]
  have htoList : ts.toList = ts.entries.flatMap fun e ↦
      e.2.entries.flatMap fun e' ↦ e'.2.map fun o ↦ (e.1, e'.1, o) := rfl
  rw [htoList, List.filter_flatMap, ts.flatMap_entries_eq s fun s' ps hne ↦ by
    rw [hpredicates, if_neg hne], objectsOf, predicatesOf]
  cases ts.find? s with
  | none => rfl
  | some ps =>
      rw [Option.map_some, Option.getD_some, hpredicates, if_pos rfl]
      rfl

theorem pairwise_rank_toList {ts : Triples} {h : History} (hts : ts.Holds h) :
    ts.toList.Pairwise fun t u ↦ rank h t ≤ rank h u := by
  rw [toList, List.pairwise_flatMap]
  constructor
  · rintro ⟨s, ps⟩ hps
    have hpredicates := (hts.predicates s).sorted
    rw [predicatesOf, OrderedMap.mem_entries_iff.mp hps, Option.getD_some, OrderedMap.keys,
      List.pairwise_map] at hpredicates
    refine List.pairwise_flatMap.mpr ⟨fun e _ ↦ ?_, hpredicates.imp fun {e e'} hlt t ht u hu ↦ ?_⟩
    · exact List.pairwise_map.mpr (List.pairwise_of_forall fun _ _ ↦ le_rfl)
    · obtain ⟨o, -, rfl⟩ := List.mem_map.mp ht
      obtain ⟨o', -, rfl⟩ := List.mem_map.mp hu
      exact Prod.Lex.toLex_le_toLex.mpr (.inr ⟨rfl, hlt.le⟩)
  · have hsubjects := hts.subjects.sorted
    rw [OrderedMap.keys, List.pairwise_map] at hsubjects
    refine hsubjects.imp fun {e e'} hlt t ht u hu ↦ Prod.Lex.toLex_le_toLex.mpr (.inl ?_)
    obtain ⟨p, -, hp⟩ := List.mem_flatMap.mp ht
    obtain ⟨o, -, rfl⟩ := List.mem_map.mp hp
    obtain ⟨p', -, hp'⟩ := List.mem_flatMap.mp hu
    obtain ⟨o', -, rfl⟩ := List.mem_map.mp hp'
    exact hlt

theorem toList_eq_grouped {ts : Triples} {h : History} (hts : ts.Holds h) :
    ts.toList = grouped h := by
  have hfilter (k : Text × Text) :
      ts.toList.filter (pair · = k) = h.filter (pair · = k) := by
    obtain ⟨s, p⟩ := k
    rw [filter_toList, hts.objects, List.map_map]
    refine (List.map_congr_left fun t ht ↦ ?_).trans (List.map_id _)
    rw [List.mem_filter, decide_eq_true_eq] at ht
    obtain ⟨rfl, rfl⟩ := Prod.mk.inj ht.2
    rfl
  have hkey (t : Text × Text × Text) (_ : t ∈ ts.toList) (u : Text × Text × Text)
      (hu : u ∈ grouped h) (hrank : rank h t = rank h u) : pair t = pair u := by
    rw [grouped, List.mem_mergeSort] at hu
    exact ((rank_eq_iff hu).mp hrank.symm).symm
  refine eq_of_filter_key (pairwise_rank_toList hts) (pairwise_mergeSort_rank (rank h) h) hkey ?_
  intro k
  rw [hfilter, grouped, filter_mergeSort_rank fun t ht u _ hpair ↦ (rank_eq_iff ht).mpr hpair]

end Triples

end SparqlComposer
