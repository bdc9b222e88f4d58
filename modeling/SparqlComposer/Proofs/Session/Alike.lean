import SparqlComposer.Proofs.Session.Agreement
import SparqlComposer.Proofs.Session.Failure

/-!
# The same call in two sessions

Two sessions differ in one query. A call that builds another query, or a part of this query in which
the sessions agree or that need not be read for it, comes to the same in both, as long as nothing it
is given contains the query: it succeeds in both or fails in both in the same way, and leaves them in
agreement.
-/

namespace SparqlComposer

open SparqlComposer.Action

/-- An action changes neither session and comes to the same in both. -/
def ReadsAlike (s s' : Session) {α : Type} (a : Action α) : Prop :=
  ∃ r, a.perform s = (r, s) ∧ a.perform s' = (r, s')

/-- Two outcomes are the same, and the sessions afterwards agree. -/
structure Alike (q : QueryId) (same : QueryPart → Prop) {α : Type}
    (r r' : Except Error α × Session) : Prop where
  result_eq : r.1 = r'.1
  agree : Agree q same r.2 r'.2

namespace ReadsAlike

variable {α β : Type} {s s' : Session}

theorem ofResult (r : Except Error α) : ReadsAlike s s' (Action.ofResult r) := ⟨r, rfl, rfl⟩

theorem pure (x : α) : ReadsAlike s s' (Pure.pure x : Action α) := ⟨.ok x, rfl, rfl⟩

theorem bind {a : Action α} {f : α → Action β} (ha : ReadsAlike s s' a)
    (hf : ∀ x, ReadsAlike s s' (f x)) : ReadsAlike s s' (a >>= f) := by
  obtain ⟨r, hr, hr'⟩ := ha
  cases r with
  | error e => exact ⟨.error e, perform_bind_error hr, perform_bind_error hr'⟩
  | ok x =>
      obtain ⟨r, hx, hx'⟩ := hf x
      exact ⟨r, (perform_bind_ok hr).trans hx, (perform_bind_ok hr').trans hx'⟩

theorem get_bind {f : Session → Action α} (heq : f s' = f s) (ha : ReadsAlike s s' (f s)) :
    ReadsAlike s s' (get >>= f) := by
  obtain ⟨r, hr, hr'⟩ := ha
  exact ⟨r, (perform_bind_ok (perform_get s)).trans hr,
    (perform_bind_ok (perform_get s')).trans (heq ▸ hr')⟩

end ReadsAlike

namespace Alike

variable {α β : Type} {q : QueryId} {same : QueryPart → Prop} {s s' : Session}

theorem fail (h : Agree q same s s') (e : Error) :
    Alike q same ((Action.fail e : Action α).perform s) ((Action.fail e).perform s') := ⟨rfl, h⟩

theorem bind {a a' : Action α} {f : α → Action β} (ha : Alike q same (a.perform s) (a'.perform s'))
    (hf : ∀ x t t', Agree q same t t' → Alike q same ((f x).perform t) ((f x).perform t')) :
    Alike q same ((a >>= f).perform s) ((a' >>= f).perform s') := by
  rw [perform_bind, perform_bind]
  cases hr : a.perform s with
  | mk r t =>
      cases hr' : a'.perform s' with
      | mk r' t' =>
          rw [hr, hr'] at ha
          obtain rfl : r = r' := ha.result_eq
          cases r with
          | error e => exact ⟨rfl, ha.agree⟩
          | ok x => exact hf x t t' ha.agree

theorem bind_of_reads {a : Action α} {f : α → Action β} (h : Agree q same s s')
    (ha : ReadsAlike s s' a)
    (hf : ∀ x, a.perform s = (.ok x, s) → Alike q same ((f x).perform s) ((f x).perform s')) :
    Alike q same ((a >>= f).perform s) ((a >>= f).perform s') := by
  obtain ⟨r, hr, hr'⟩ := ha
  rw [perform_bind, perform_bind, hr, hr']
  cases r with
  | error e => exact ⟨rfl, h⟩
  | ok x => exact hf x hr

theorem answered {a : Action Unit} (ha : Alike q same (a.perform s) (a.perform s')) :
    Alike q same ((done a).perform s) ((done a).perform s') :=
  ha.bind fun _ _ _ h ↦ ⟨rfl, h⟩

theorem note (h : Agree q same s s') (x : QueryId) (f : Ledger → Ledger) :
    Alike q same ((Action.note (.query x) f).perform s)
      ((Action.note (.query x) f).perform s') := by
  refine ⟨rfl, ?_⟩
  change Agree q same (s.modifyLedger (s.graphAt (.query x)).ledger f)
    (s'.modifyLedger (s'.graphAt (.query x)).ledger f)
  rw [← h.ledgerId_eq]
  exact h.modifyLedger _ f

theorem alter (h : Agree q same s s') (x : QueryId) (p : QueryPart) (k : p.Content → p.Content) :
    Alike q same
      ((modify (·.modifyQuery x (Query.alter p k)) : Action Unit).perform s)
      ((modify (·.modifyQuery x (Query.alter p k)) : Action Unit).perform s') :=
  ⟨rfl, h.alter x p k⟩

end Alike

theorem ReadsAlike.alike {α : Type} {q : QueryId} {same : QueryPart → Prop} {s s' : Session}
    {a : Action α} (ha : ReadsAlike s s' a) (h : Agree q same s s') :
    Alike q same (a.perform s) (a.perform s') := by
  obtain ⟨r, hr, hr'⟩ := ha
  rw [hr, hr']
  exact ⟨rfl, h⟩

/-- Two outcomes are the same, and what is put into a part of a query is the same in both. -/
structure Replaces (q : QueryId) (same : QueryPart → Prop) (x : QueryId) (p : QueryPart) {α : Type}
    (r r' : Except Error α × Session) : Prop extends Alike q same r r' where
  get_eq : r.1.isOk → (r.2.query x).get p = (r'.2.query x).get p

namespace Replaces

variable {α β : Type} {q x : QueryId} {same : QueryPart → Prop} {p : QueryPart} {s s' : Session}

theorem fail (h : Agree q same s s') (e : Error) :
    Replaces q same x p ((Action.fail e : Action α).perform s) ((Action.fail e).perform s') where
  toAlike := .fail h e
  get_eq hok := by cases hok

theorem bind_of_reads {a : Action α} {f : α → Action β} (h : Agree q same s s')
    (ha : ReadsAlike s s' a)
    (hf : ∀ x', Replaces q same x p ((f x').perform s) ((f x').perform s')) :
    Replaces q same x p ((a >>= f).perform s) ((a >>= f).perform s') := by
  obtain ⟨r, hr, hr'⟩ := ha
  cases r with
  | error e =>
      rw [perform_bind_error hr, perform_bind_error hr']
      exact .fail h e
  | ok x' =>
      rw [perform_bind_ok hr, perform_bind_ok hr']
      exact hf x'

theorem put (h : Agree q same s s') (c : p.Content) :
    Replaces q same x p
      ((modify (·.modifyQuery x (Query.alter p fun _ ↦ c)) : Action Unit).perform s)
      ((modify (·.modifyQuery x (Query.alter p fun _ ↦ c)) : Action Unit).perform s') where
  toAlike := .alter h x p _
  get_eq _ := by
    change ((s.modifyQuery x _).query x).get p = ((s'.modifyQuery x _).query x).get p
    rw [Session.query_alter, Session.query_alter, ← h.queries_length]
    by_cases hx : x < s.queries.length
    · rw [if_pos ⟨rfl, hx⟩, if_pos ⟨rfl, hx⟩, Query.get_alter_self, Query.get_alter_self]
    · have hle := Nat.le_of_not_lt hx
      rw [if_neg fun hboth ↦ hx hboth.2, if_neg fun hboth ↦ hx hboth.2,
        Session.query_eq_of_length_le hle,
        Session.query_eq_of_length_le (h.queries_length ▸ hle)]

/-- The names that come up in what is put into a part are entered first. -/
theorem note_put (h : Agree q same s s') (f : Ledger → Ledger) (c : p.Content) :
    Replaces q same x p
      ((do
        note (.query x) f
        modify (·.modifyQuery x (Query.alter p fun _ ↦ c)) : Action Unit).perform s)
      ((do
        note (.query x) f
        modify (·.modifyQuery x (Query.alter p fun _ ↦ c)) : Action Unit).perform s') :=
  .put (Alike.note h x f).agree c

theorem answered {a : Action Unit} (ha : Replaces q same x p (a.perform s) (a.perform s')) :
    Replaces q same x p ((done a).perform s) ((done a).perform s') where
  toAlike := ha.toAlike.answered
  get_eq hok := by
    have hset : (a.perform s).1.isOk := by
      rw [done, perform_bind] at hok
      cases hr : a.perform s with
      | mk r t =>
          rw [hr] at hok
          cases r with
          | error _ => cases hok
          | ok _ => rfl
    rw [done, session_bind_pure, session_bind_pure]
    exact ha.get_eq hset

end Replaces

/-! ## Arguments -/

/-- The objects are there, and the query is none of them and in none of them. -/
def Session.Apart (s : Session) (q : QueryId) (rs : List Ref) : Prop :=
  ∀ r ∈ rs, s.holds r ∧ s.Lacks q r

theorem Session.Apart.mono {s : Session} {q : QueryId} {rs rs' : List Ref} (h : s.Apart q rs)
    (hsub : rs' ⊆ rs) : s.Apart q rs' := fun r hr ↦ h r (hsub hr)

theorem Value.mem_allObjects {vs : List Value} {r : Ref} :
    r ∈ allObjects vs ↔ ∃ v ∈ vs, r ∈ v.objects := by
  induction vs with
  | nil => simp [allObjects]
  | cons v vs ih => simp [allObjects, ih]

theorem Value.objects_subset {vs : List Value} {v : Value} (hv : v ∈ vs) :
    v.objects ⊆ allObjects vs := fun _ hr ↦ mem_allObjects.mpr ⟨v, hv, hr⟩

theorem Value.allObjects_unpacked (args : List Value) :
    allObjects (unpacked args) = allObjects args := by
  unfold unpacked
  split
  · rename_i v
    cases v with
    | list _ | tuple _ => exact (List.append_nil _).symm
    | _ => rfl
  · rfl

theorem Value.objects_asIri_subset (v : Value) : v.asIri.objects ⊆ v.objects := by
  rw [asIri]
  cases v.asText? with
  | some _ => exact List.nil_subset _
  | none => exact List.Subset.refl _

theorem Value.declarationObjects_subset {v : Value} {items : List Value}
    (hitems : declarations v = .ok items) : allObjects items ⊆ v.objects := by
  have hall := all_declarationObjects (p := fun r ↦ decide (r ∈ v.objects)) hitems (by simp)
  exact fun r hr ↦ of_decide_eq_true (List.all_eq_true.mp hall r hr)

theorem Value.pairObjects_subset {v name iri : Value} (hpair : declaration v = .ok (name, iri)) :
    name.objects ⊆ v.objects ∧ iri.objects ⊆ v.objects := by
  have hall := all_pairObjects (p := fun r ↦ decide (r ∈ v.objects)) hpair (by simp)
  exact ⟨fun r hr ↦ of_decide_eq_true (List.all_eq_true.mp hall.1 r hr),
    fun r hr ↦ of_decide_eq_true (List.all_eq_true.mp hall.2 r hr)⟩

theorem Value.label_congr {f g : Ref → Except Error Text} {v : Value}
    (h : ∀ r ∈ v.objects, f r = g r) : v.label f = v.label g := by
  cases v with
  | object r => exact h r (List.mem_singleton_self r)
  | _ => rfl

theorem classify_congr {f g : Ref → Except Error Text} {kinds : List Kind} {v : Value}
    (h : ∀ r ∈ v.objects, f r = g r) : classify f kinds v = classify g kinds v := by
  rw [classify, classify, Value.label_congr h]

namespace Agree

section Arguments

variable {q : QueryId} {same : QueryPart → Prop} {s s' : Session} (h : Agree q same s s')
  (hplaced : s.Placed) (hq : s.holds (.query q))

include h hplaced hq

theorem objectText_eq_of_apart {rs : List Ref} (hrs : s.Apart q rs) :
    ∀ r ∈ rs, s.objectText r = s'.objectText r := fun r hr ↦
  h.objectText_eq hplaced hq (hrs r hr).1 (hrs r hr).2

theorem reads_expression {v : Value} (hv : s.Apart q v.objects) (kinds : List Kind) :
    ReadsAlike s s' (expression kinds v) := by
  refine ⟨classify s.objectText kinds v, perform_expression kinds v, ?_⟩
  rw [perform_expression, classify_congr (h.objectText_eq_of_apart hplaced hq hv)]

theorem reads_expressions {vs : List Value} (hvs : s.Apart q (Value.allObjects vs))
    (kinds : List Kind) : ReadsAlike s s' (expressions kinds vs) := by
  induction vs with
  | nil => exact .pure []
  | cons v vs ih =>
      rw [Value.allObjects] at hvs
      refine (h.reads_expression hplaced hq (hvs.mono (by simp)) kinds).bind fun e ↦ ?_
      exact (ih (hvs.mono (by simp))).bind fun es ↦ .pure (e :: es)

theorem reads_triple {a b c : Value} (hargs : s.Apart q (Value.allObjects [a, b, c])) :
    ReadsAlike s s' (triple a b c) := by
  have hread (v : Value) (hv : v ∈ [a, b, c]) (kinds : List Kind) :
      ReadsAlike s s' (expression kinds v) :=
    h.reads_expression hplaced hq (hargs.mono (Value.objects_subset hv)) kinds
  refine (hread a (by simp) _).bind fun x ↦ ?_
  refine (hread b (by simp) _).bind fun y ↦ ?_
  exact (hread c (by simp) _).bind fun z ↦ .pure (x, y, z)

theorem reads_direction {v : Value} (hv : s.Apart q v.objects) :
    ReadsAlike s s' (direction v) := by
  have hlabel := Value.label_congr (h.objectText_eq_of_apart hplaced hq hv)
  refine .get_bind (by rw [hlabel]) ((ReadsAlike.ofResult _).bind fun t ↦ ?_)
  dsimp only
  cases Direction.ofKeyword? (upper t) with
  | some d => exact .pure d
  | none => exact .ofResult _

end Arguments

/-! ## Building patterns -/

section Building

variable {q x : QueryId} {same : QueryPart → Prop} {s s' : Session} (h : Agree q same s s')
  (hplaced : s.Placed) (hq : s.holds (.query q))

include h

/-- What a query has in a part that is built in both sessions is the same in both. -/
theorem get_query_eq {p : QueryPart} (hx : x = q → same p) :
    (s.query x).get p = (s'.query x).get p := by
  by_cases heq : x = q
  · rw [heq]
    exact h.get_eq p (hx heq)
  · rw [h.query_eq heq]

include hplaced hq

theorem alike_addTriple {a b c : Value} (hargs : s.Apart q (Value.allObjects [a, b, c])) :
    Alike q same ((addTriple (.query x) a b c).perform s)
      ((addTriple (.query x) a b c).perform s') := by
  refine .bind_of_reads h (h.reads_triple hplaced hq hargs) fun e _ ↦ ?_
  obtain ⟨e₁, e₂, e₃⟩ := e
  exact (Alike.note h x _).bind fun _ _ _ h' ↦ .alter h' x .triples fun c ↦
    (c.1.add e₁.text e₂.text e₃.text, some (e₁.text, e₂.text))

theorem alike_continueTriple {args : List Value} (hargs : s.Apart q (Value.allObjects args))
    (hx : x = q → same .triples) :
    Alike q same ((continueTriple (.query x) args).perform s)
      ((continueTriple (.query x) args).perform s') := by
  have hcurrent : (s.graphAt (.query x)).current = (s'.graphAt (.query x)).current :=
    congrArg Prod.snd (h.get_query_eq hx)
  rw [continueTriple, perform_bind_ok (perform_get s), perform_bind_ok (perform_get s'),
    ← hcurrent]
  split
  · exact h.alike_addTriple hplaced hq hargs
  · refine h.alike_addTriple hplaced hq ?_
    simpa [Value.allObjects, Value.objects] using hargs
  · refine h.alike_addTriple hplaced hq ?_
    simpa [Value.allObjects, Value.objects] using hargs
  · exact .fail h _
  · exact .fail h _
  · exact .fail h _

theorem alike_filter {v : Value} (hv : s.Apart q v.objects) :
    Alike q same ((filter (.query x) v).perform s) ((filter (.query x) v).perform s') := by
  refine .bind_of_reads h (h.reads_expression hplaced hq hv _) fun e _ ↦ ?_
  exact (Alike.note h x _).bind fun _ _ _ h' ↦ .alter h' x .constraints
    fun cs : List Constraint ↦ cs ++ [Constraint.condition e]

theorem alike_block {args : List Value} (hargs : s.Apart q (Value.allObjects args)) :
    Alike q same ((block (.query x) args).perform s) ((block (.query x) args).perform s') := by
  rw [block.eq_def]
  split
  · rename_i g
    have hpattern := h.pattern_eq hplaced hq
      (hargs (.graph g) (by simp [Value.allObjects, Value.objects])).2
    exact (ReadsAlike.get_bind (by rw [hpattern]) (.ofResult _)).alike h
  · rename_i a b c
    refine .bind_of_reads h (h.reads_triple hplaced hq hargs) fun e _ ↦ ?_
    refine (Alike.note h x _).bind fun _ t t' h' ↦ ⟨?_, h'⟩
    rw [perform_bind_ok (perform_get t), perform_bind_ok (perform_get t'), h'.ledgerId_eq]
    rfl
  · exact .fail h _

/-- A block is completed and put into a query. -/
theorem alike_embed {args : List Value} (hargs : s.Apart q (Value.allObjects args))
    (k : Embedding) :
    Alike q same
      ((do
        let p ← block (.query x) args
        build (.query x) (k.add p) : Action Unit).perform s)
      ((do
        let p ← block (.query x) args
        build (.query x) (k.add p) : Action Unit).perform s') := by
  refine (h.alike_block hplaced hq hargs).bind fun pattern t t' h' ↦ ?_
  cases k with
  | present => exact .alter h' x .constraints fun cs : List Constraint ↦ cs ++ [.present pattern]
  | absent => exact .alter h' x .constraints fun cs : List Constraint ↦ cs ++ [.absent pattern]
  | optional => exact .alter h' x .optionals fun ps : List Pattern ↦ ps ++ [pattern]

theorem alike_union {args : List Value} (hargs : s.Apart q (Value.allObjects args)) :
    Alike q same ((union (.query x) args).perform s) ((union (.query x) args).perform s') := by
  rw [union]
  split
  · exact .fail h _
  · refine .bind_of_reads h (.ofResult _) fun ids hread ↦ ?_
    have hids : members args = .ok ids := congrArg Prod.fst hread
    have hpatterns : (ids.mapM fun id ↦ s.pattern (s.graph id)) =
        ids.mapM fun id ↦ s'.pattern (s'.graph id) :=
      Except.mapM_congr fun id hid ↦
        h.pattern_eq hplaced hq (hargs _ (mem_allObjects_of_members hids id hid)).2
    rw [perform_bind_ok (perform_get s), perform_bind_ok (perform_get s'), ← hpatterns]
    exact .bind_of_reads h (.ofResult _) fun patterns _ ↦
      .alter h x .unions fun us : List (List Pattern) ↦ us ++ [patterns]

theorem alike_buildPattern (m : PatternMethod) {args : List Value}
    (hargs : s.Apart q (Value.allObjects args)) (hx : x = q → m.part.isRead → same m.part) :
    Alike q same ((buildPattern (.query x) m args).perform s)
      ((buildPattern (.query x) m args).perform s') := by
  rw [buildPattern.eq_def]
  split
  · exact (h.alike_addTriple hplaced hq hargs).answered
  · exact (h.alike_continueTriple hplaced hq hargs fun heq ↦ hx heq rfl).answered
  · exact (h.alike_filter hplaced hq (hargs.mono (Value.objects_subset (by simp)))).answered
  · exact (h.alike_embed hplaced hq hargs .present).answered
  · exact (h.alike_embed hplaced hq hargs .absent).answered
  · exact (h.alike_embed hplaced hq hargs .optional).answered
  · exact (h.alike_union hplaced hq hargs).answered
  · exact .fail h _

end Building

/-! ## Setting clauses -/

section Setting

variable {q x : QueryId} {same : QueryPart → Prop} {s s' : Session} (h : Agree q same s s')
  (hplaced : s.Placed) (hq : s.holds (.query q))

include h hplaced hq

theorem alike_setHead {args : List Value} (hargs : s.Apart q (Value.allObjects args))
    (hx : x = q → same .head) (form : Form) (uniqueness : Option Uniqueness)
    (kinds : List Kind) :
    Alike q same ((setHead x form uniqueness kinds args).perform s)
      ((setHead x form uniqueness kinds args).perform s') := by
  have hhead : (s.query x).head = (s'.query x).head := h.get_query_eq hx
  rw [← Value.allObjects_unpacked] at hargs
  rw [setHead, perform_bind_ok (perform_get s), perform_bind_ok (perform_get s'), ← hhead]
  cases (s.query x).head with
  | some head => exact .fail h _
  | none =>
      refine .bind_of_reads h (h.reads_expressions hplaced hq hargs kinds) fun es _ ↦ ?_
      exact (Alike.note h x _).bind fun _ _ _ h' ↦ .alter h' x .head fun _ ↦
        some ⟨form, uniqueness, es⟩

theorem replaces_groupBy {args : List Value} (hargs : s.Apart q (Value.allObjects args)) :
    Replaces q same x .groupBy ((groupBy x args).perform s) ((groupBy x args).perform s') := by
  rw [← Value.allObjects_unpacked] at hargs
  rw [groupBy]
  split
  · exact .fail h _
  · exact .bind_of_reads h (h.reads_expressions hplaced hq hargs _) fun es ↦
      .note_put h (p := .groupBy) _ (some es)

theorem replaces_having {v : Value} (hv : s.Apart q v.objects) :
    Replaces q same x .having ((having x v).perform s) ((having x v).perform s') :=
  .bind_of_reads h (h.reads_expression hplaced hq hv _) fun e ↦
    .note_put h (p := .having) _ (some e)

theorem replaces_orderBy {v towards : Value} (hv : s.Apart q v.objects)
    (htowards : s.Apart q towards.objects) :
    Replaces q same x .orderBy ((orderBy x v towards).perform s)
      ((orderBy x v towards).perform s') := by
  refine .bind_of_reads h (h.reads_direction hplaced hq htowards) fun d ↦ ?_
  exact .bind_of_reads h (h.reads_expression hplaced hq hv _) fun e ↦
    .note_put h (p := .orderBy) _ (some (d, e))

omit hplaced hq in
theorem replaces_setSlice (which : Slice) (v : Value) :
    Replaces q same x (.slice which) ((setSlice x which v).perform s)
      ((setSlice x which v).perform s') := by
  refine .bind_of_reads h (.ofResult _) fun n ↦ ?_
  cases which with
  | limit => exact .put h (p := .slice .limit) (some n)
  | offset => exact .put h (p := .slice .offset) (some n)

theorem alike_bindPrefix {name iri : Value} (hname : s.Apart q name.objects)
    (hiri : s.Apart q iri.objects) (hx : x = q → same .prefixes) :
    Alike q same ((bindPrefix x name iri).perform s) ((bindPrefix x name iri).perform s') := by
  have hprefixes : (s.query x).prefixes = (s'.query x).prefixes := h.get_query_eq hx
  refine .bind_of_reads h (h.reads_expression hplaced hq hname _) fun n _ ↦ ?_
  refine .bind_of_reads h
    (h.reads_expression hplaced hq (hiri.mono iri.objects_asIri_subset) _) fun i _ ↦ ?_
  rw [perform_bind_ok (perform_get s), perform_bind_ok (perform_get s'), ← hprefixes]
  have hbind : Alike q same
      ((do
        modify (·.modifyQuery x fun q ↦ { q with prefixes := q.prefixes.insert n.text i.text })
        note (.query x) (·.definePrefixes [.ofName n.text]) : Action Unit).perform s)
      ((do
        modify (·.modifyQuery x fun q ↦ { q with prefixes := q.prefixes.insert n.text i.text })
        note (.query x) (·.definePrefixes [.ofName n.text]) : Action Unit).perform s') :=
    (Alike.alter h x .prefixes fun ps : OrderedMap Text Text ↦ ps.insert n.text i.text).bind
      fun _ _ _ h' ↦ .note h' x _
  cases (s.query x).prefixes.find? n.text with
  | none => exact hbind
  | some bound =>
      dsimp only
      by_cases hbound : bound = i.text
      · rw [if_neg (not_not.mpr hbound)]
        exact hbind
      · rw [if_pos hbound]
        exact .fail h _

end Setting

end Agree

/-- What is set in a query takes no object apart from another query. -/
theorem Session.Apart.settled {s : Session} {q x : QueryId} {rs : List Ref} (hrs : s.Apart q rs)
    (hx : s.holds (.query x)) {f : Ledger → Ledger} {g : Query → Query} (hfg : Setting s x f g) :
    (s.settled x f g).Apart q rs := by
  intro r hr
  obtain ⟨hheld, hlacks⟩ := hrs r hr
  refine ⟨by rwa [holds_settled hfg.graph_eq], ?_⟩
  cases r with
  | ledger _ => trivial
  | graph g =>
      intro t ht
      rw [attached_settled hx hfg]
      exact hlacks t ht
  | query t =>
      rw [Lacks, attached_settled hx hfg]
      exact hlacks

namespace Agree

variable {q x : QueryId} {same : QueryPart → Prop} {s s' : Session}

/-- One declaration is refused in both sessions, or made in both. -/
theorem bindPrefix_cases (h : Agree q same s s') (hplaced : s.Placed) (hq : s.holds (.query q))
    (hheld : s.holds (.query x)) {name iri : Value} (hname : s.Apart q name.objects)
    (hiri : s.Apart q iri.objects) (hx : x = q → same .prefixes) :
    (∃ e t', (bindPrefix x name iri).perform s = (.error e, s) ∧
      (bindPrefix x name iri).perform s' = (.error e, t') ∧ Agree q same s t') ∨
    ∃ t t', (bindPrefix x name iri).perform s = (.ok (), t) ∧
      (bindPrefix x name iri).perform s' = (.ok (), t') ∧ Agree q same t t' ∧ t.Placed ∧
      t.holds = s.holds ∧ ∀ rs, s.Apart q rs → t.Apart q rs := by
  have hstep := h.alike_bindPrefix hplaced hq hname hiri hx
  have hatomic := atomic_bindPrefix hheld name iri
  cases hr : (bindPrefix x name iri).perform s with
  | mk r t =>
      cases hr' : (bindPrefix x name iri).perform s' with
      | mk r' t' =>
          rw [hr, hr'] at hstep
          rw [hr] at hatomic
          obtain rfl : r = r' := hstep.result_eq
          cases hatomic with
          | refused e => exact .inl ⟨e, t', rfl, rfl, hstep.agree⟩
          | done _ hsets =>
              obtain ⟨f, g, hsets, rfl⟩ := hsets
              have hsetting := hsets.setting
              exact .inr ⟨_, t', rfl, rfl, hstep.agree, hplaced.change (.setting hheld hsetting),
                Session.holds_settled hsetting.graph_eq, fun _ hrs ↦ hrs.settled hheld hsetting⟩

theorem alike_bindEach (h : Agree q same s s') (hplaced : s.Placed) (hq : s.holds (.query q))
    (hheld : s.holds (.query x)) {vs : List Value} (hvs : s.Apart q (Value.allObjects vs))
    (hx : x = q → same .prefixes) :
    Alike q same ((bindEach x vs).perform s) ((bindEach x vs).perform s') := by
  induction vs generalizing s s' with
  | nil => exact ⟨rfl, h⟩
  | cons v vs ih =>
      rw [Value.allObjects] at hvs
      rw [bindEach]
      refine .bind_of_reads h (.ofResult _) fun pair hread ↦ ?_
      obtain ⟨name, iri⟩ := pair
      obtain ⟨hname, hiri⟩ := Value.pairObjects_subset (congrArg Prod.fst hread)
      have hcases := h.bindPrefix_cases hplaced hq hheld
        (hvs.mono (List.Subset.trans hname (List.subset_append_left _ _)))
        (hvs.mono (List.Subset.trans hiri (List.subset_append_left _ _))) hx
      dsimp only
      rcases hcases with ⟨e, t', hr, hr', hagree⟩ | ⟨t, t', hr, hr', hagree, ht, hholds, hapart⟩
      · rw [perform_bind_error hr, perform_bind_error hr']
        exact ⟨rfl, hagree⟩
      · rw [perform_bind_ok hr, perform_bind_ok hr']
        exact ih hagree ht (by rwa [hholds]) (by rwa [hholds])
          (hapart _ (hvs.mono (List.subset_append_right _ _)))

section Asking

variable (h : Agree q same s s') (hplaced : s.Placed) (hq : s.holds (.query q))

include h hplaced hq

theorem alike_bindPrefixes (hheld : s.holds (.query x)) {v : Value} (hv : s.Apart q v.objects)
    (hx : x = q → same .prefixes) :
    Alike q same ((bindPrefixes x v).perform s) ((bindPrefixes x v).perform s') :=
  .bind_of_reads h (.ofResult _) fun _ hread ↦ h.alike_bindEach hplaced hq hheld
    (hv.mono (Value.declarationObjects_subset (congrArg Prod.fst hread))) hx

theorem alike_querySubquery {v : Value} (hv : s.Apart q v.objects) :
    Alike q same ((querySubquery x v).perform s) ((querySubquery x v).perform s') := by
  rw [querySubquery.eq_def]
  split
  · rename_i t
    obtain ⟨hheld, hlacks⟩ := hv (.query t) (List.mem_singleton_self _)
    rw [perform_bind_ok (perform_get s), perform_bind_ok (perform_get s'),
      ← h.contains_eq hlacks]
    split
    · exact .fail h _
    · change Alike q same ((attach (.query x) t).perform s) ((attach (.query x) t).perform s')
      rw [attach, perform_bind_ok (perform_get s), perform_bind_ok (perform_get s'),
        ← h.projectedVariables_eq hplaced hq hheld hlacks.ne]
      exact (Alike.note h x _).bind fun _ _ _ h' ↦ .alter h' x .subqueries
        fun ts : List QueryId ↦ ts ++ [t]
  · exact .fail h _

theorem alike_askQuery (hheld : s.holds (.query x)) {m : QueryMethod} {p : QueryPart}
    (hm : m.part? = some p) {args : List Value} (hargs : s.Apart q (Value.allObjects args))
    (hx : x = q → p.isRead → same p) :
    Alike q same ((askQuery x m args).perform s) ((askQuery x m args).perform s') := by
  have harg {v : Value} (hv : v ∈ args) : s.Apart q v.objects :=
    hargs.mono (Value.objects_subset hv)
  rw [askQuery.eq_def]
  split
  case h_1 =>
      obtain rfl := Option.some.inj hm
      exact (h.alike_bindPrefix hplaced hq (harg (by simp)) (harg (by simp))
        fun heq ↦ hx heq rfl).answered
  case h_2 =>
      obtain rfl := Option.some.inj hm
      exact (h.alike_bindPrefixes hplaced hq hheld (harg (by simp)) fun heq ↦ hx heq rfl).answered
  case h_4 =>
      obtain rfl := Option.some.inj hm
      exact (h.alike_setHead hplaced hq hargs (fun heq ↦ hx heq rfl) _ _ _).answered
  case h_5 =>
      obtain rfl := Option.some.inj hm
      exact (h.alike_setHead hplaced hq hargs (fun heq ↦ hx heq rfl) _ _ _).answered
  case h_7 => exact (h.alike_querySubquery hplaced hq (harg (by simp))).answered
  case h_12 => exact (h.replaces_groupBy hplaced hq hargs).toAlike.answered
  case h_13 => exact (h.replaces_having hplaced hq (harg (by simp))).toAlike.answered
  case h_14 =>
      refine (h.replaces_orderBy hplaced hq (harg (by simp)) ?_).toAlike.answered
      intro r hr
      cases hr
  case h_15 => exact (h.replaces_orderBy hplaced hq (harg (by simp)) (harg (by simp))).toAlike.answered
  case h_16 => exact (h.replaces_setSlice _ _).toAlike.answered
  case h_21 => exact .fail h _
  all_goals cases hm

end Asking

/-- A call that builds a query comes to the same in sessions that agree in the part that it builds,
if it reads that part, and leaves them in agreement. -/
theorem alike_call (h : Agree q same s s') (hplaced : s.Placed) (hq : s.holds (.query q)) {c : Call}
    {p : QueryPart} (hc : c.part? = some (x, p)) (hx : x = q → p.isRead → same p)
    (hargs : ∀ r ∈ Value.allObjects c.args, s.Lacks q r) :
    Alike q same (s.call c) (s'.call c) := by
  rw [Session.call, Session.call, ← h.holds_eq]
  split
  · rename_i hheld
    cases c with
    | pattern site m args =>
        cases site with
        | graph g => cases hc
        | query t =>
            obtain ⟨rfl, rfl⟩ := Prod.mk.inj (Option.some.inj hc)
            rw [Call.objects, List.all_cons, Bool.and_eq_true, List.all_eq_true] at hheld
            exact h.alike_buildPattern hplaced hq m (fun r hr ↦ ⟨hheld.2 r hr, hargs r hr⟩) hx
    | query t m args =>
        obtain ⟨p', hm, heq⟩ := Option.map_eq_some_iff.mp hc
        obtain ⟨rfl, rfl⟩ := Prod.mk.inj heq
        rw [Call.objects, List.all_cons, Bool.and_eq_true, List.all_eq_true] at hheld
        exact h.alike_askQuery hplaced hq hheld.1 hm
          (fun r hr ↦ ⟨hheld.2 r hr, hargs r hr⟩) hx
    | _ => cases hc
  · exact ⟨rfl, h⟩

end Agree

end SparqlComposer
