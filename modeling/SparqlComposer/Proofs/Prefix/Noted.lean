import SparqlComposer.Proofs.Ledger
import SparqlComposer.Proofs.Prefix.Building
import SparqlComposer.Proofs.Session.Outcome

/-!
# Ledgers know the prefixes that are used

What is built on a ledger enters its prefixes there, and nothing is taken out of a ledger again, so
in every reachable session each prefix that is used is in the ledger that it was used on.
-/

namespace SparqlComposer

open SparqlComposer.Action

def Query.clauseTerms (q : Query) : List Text :=
  (q.head.getD .everything).terms ++ q.modifiers.terms

/-! ## What calls enter -/

/-- What is entered into a ledger leaves the prefixes that are used there. -/
def Ledger.Grows (f : Ledger → Ledger) : Prop :=
  ∀ (l : Ledger) (k : Key), k ∈ l.usedPrefixes → k ∈ (f l).usedPrefixes

/-- What is entered into a ledger contains the prefixes of an expression. -/
def Ledger.Enters (f : Ledger → Ledger) (e : Expression) : Prop :=
  ∀ (l : Ledger), ∀ n ∈ prefixesOf e.text, .text n ∈ (f l).usedPrefixes

theorem grows_enter {enter : Ledger → List Entry → Ledger} (h : enter ∈ enterings)
    (es : List Entry) : Ledger.Grows (enter · es) := by
  intro l k hk
  simp only [enterings, List.mem_cons, List.not_mem_nil, or_false] at h
  rcases h with rfl | rfl | rfl | rfl
  · exact hk
  · exact hk
  · exact hk
  · exact OrderedSet.mem_insertAll.mpr (.inl hk)

theorem grows_noteTriple (x y z : Expression) : Ledger.Grows (noteTriple x y z) :=
  fun _ _ hk ↦ Ledger.mem_usedPrefixes_noteTriple.mpr (.inl hk)

theorem grows_noteAll (es : List Expression) : Ledger.Grows (noteAll es) :=
  fun _ _ hk ↦ Ledger.mem_usedPrefixes_noteAll.mpr (.inl hk)

theorem enters_use {e : Expression} (he : e.IsOf conditionKinds) : Ledger.Enters (·.use e) e := by
  intro l n hn
  rw [← he.prefixes_eq (by decide)] at hn
  exact Ledger.mem_usedPrefixes_use.mpr (.inr ⟨n, hn, rfl⟩)

theorem enters_noteTriple {x y z : Expression} (hx : x.IsOf subjectKinds)
    (hy : y.IsOf predicateKinds) (hz : z.IsOf objectKinds) {e : Expression}
    (he : e ∈ [x, y, z]) : Ledger.Enters (noteTriple x y z) e := by
  intro l n hn
  have hprefixes : e.prefixes = prefixesOf e.text := by
    simp only [List.mem_cons, List.not_mem_nil, or_false] at he
    rcases he with rfl | rfl | rfl
    · exact hx.prefixes_eq (by decide)
    · exact hy.prefixes_eq (by decide)
    · exact hz.prefixes_eq (by decide)
  exact Ledger.mem_usedPrefixes_noteTriple.mpr (.inr ⟨e, he, n, hprefixes ▸ hn, rfl⟩)

theorem enters_noteAll {es : List Expression} {kinds : List Kind} (hkinds : Kind.prefixName ∉ kinds)
    {e : Expression} (he : e ∈ es) (hof : e.IsOf kinds) : Ledger.Enters (noteAll es) e := by
  intro l n hn
  rw [← hof.prefixes_eq hkinds] at hn
  exact Ledger.mem_usedPrefixes_noteAll.mpr (.inr ⟨e, he, n, hn, rfl⟩)

section Changes

variable {s : Session} {site : Site} {id : QueryId} {f : Ledger → Ledger}

theorem Building.grows {g : Graph → Graph} (h : Building s site f g) : Ledger.Grows f := by
  cases h with
  | triple _ _ _ => exact grows_noteTriple _ _ _
  | condition _ => exact fun _ _ hk ↦ Ledger.mem_usedPrefixes_use.mpr (.inl hk)
  | tripleBlock _ _ _ _ => exact grows_noteTriple _ _ _
  | _ => exact fun _ _ hk ↦ hk

theorem Setting.grows {g : Query → Query} (h : Setting s id f g) : Ledger.Grows f := by
  cases h with
  | binding _ _ _ => exact fun _ _ hk ↦ hk
  | head _ _ _ _ _ => exact grows_noteAll _
  | modifier _ => exact grows_noteAll _

theorem ModifierSetting.enters {es : List Expression} {m : Modifiers → Modifiers}
    (h : ModifierSetting es m) {e : Expression} (he : e ∈ es) : Ledger.Enters (noteAll es) e := by
  cases h with
  | groupBy _ hes => exact enters_noteAll (by decide) he (hes e he)
  | having hof =>
      obtain rfl := List.mem_singleton.mp he
      exact enters_noteAll (by decide) he hof
  | orderBy _ hof =>
      obtain rfl := List.mem_singleton.mp he
      exact enters_noteAll (by decide) he hof
  | slice _ _ => exact nomatch he

theorem ModifierSetting.mem_terms {es : List Expression} {f : Modifiers → Modifiers}
    (h : ModifierSetting es f) {m : Modifiers} {t : Text} (ht : t ∈ (f m).terms) :
    t ∈ m.terms ∨ ∃ e ∈ es, e.text = t := by
  simp only [Modifiers.terms, List.mem_append] at ht ⊢
  cases h with
  | groupBy _ _ =>
      rcases ht with (ht | ht) | ht
      · exact .inr (List.mem_map.mp ht)
      · exact .inl (.inl (.inr ht))
      · exact .inl (.inr ht)
  | having _ =>
      rcases ht with (ht | ht) | ht
      · exact .inl (.inl (.inl ht))
      · exact .inr ⟨_, List.mem_singleton_self _, (List.mem_singleton.mp ht).symm⟩
      · exact .inl (.inr ht)
  | orderBy _ _ =>
      rcases ht with ht | ht
      · exact .inl (.inl ht)
      · exact .inr ⟨_, List.mem_singleton_self _, (List.mem_singleton.mp ht).symm⟩
  | slice _ slice => cases slice <;> exact .inl ht

/-- The texts in the clauses of a query are those that were there, and those that come with what
is entered. -/
theorem Setting.mem_clauseTerms {g : Query → Query} (h : Setting s id f g) {q : Query} {t : Text}
    (ht : t ∈ (g q).clauseTerms) :
    t ∈ q.clauseTerms ∨ ∃ e : Expression, e.text = t ∧ Ledger.Enters f e := by
  cases h with
  | binding _ _ _ => exact .inl ht
  | @head form uniqueness kinds es hkinds hes _ =>
      have hname : Kind.prefixName ∉ kinds := by rcases hkinds with rfl | rfl <;> decide
      rcases List.mem_append.mp ht with ht | ht
      · obtain ⟨e, he, rfl⟩ := List.mem_map.mp ht
        exact .inr ⟨e, rfl, enters_noteAll hname he (hes e he)⟩
      · exact .inl (List.mem_append_right _ ht)
  | modifier hmodifier =>
      rcases List.mem_append.mp ht with ht | ht
      · exact .inl (List.mem_append_left _ ht)
      · rcases hmodifier.mem_terms ht with ht | ⟨e, he, rfl⟩
        · exact .inl (List.mem_append_right _ ht)
        · exact .inr ⟨e, rfl, hmodifier.enters he⟩

end Changes

namespace Session

variable {s s' : Session}

/-! ## Ledgers after a change -/

theorem usedPrefixes_modifyLedger {id : LedgerId} {f : Ledger → Ledger} (hf : Ledger.Grows f)
    {l : LedgerId} {k : Key} (hk : k ∈ (s.ledger l).usedPrefixes) :
    k ∈ ((s.modifyLedger id f).ledger l).usedPrefixes := by
  by_cases heq : id = l
  · subst heq
    by_cases hlt : id < s.ledgers.length
    · rw [ledger_modifyLedger_self s f hlt]
      exact hf _ k hk
    · have hnone : (s.modifyLedger id f).ledger id = s.ledger id := by
        simp [ledger, modifyLedger, List.getElem?_eq_none (Nat.le_of_not_lt hlt)]
      rwa [hnone]
  · rwa [ledger_modifyLedger_of_ne s f heq]

theorem usedPrefixes_built {site : Site} {f : Ledger → Ledger} {g : Graph → Graph}
    (hf : Ledger.Grows f) {l : LedgerId} {k : Key} (hk : k ∈ (s.ledger l).usedPrefixes) :
    k ∈ ((s.built site f g).ledger l).usedPrefixes := by
  have hledger : (s.built site f g).ledger l =
      (s.modifyLedger (s.graphAt site).ledger f).ledger l := by cases site <;> rfl
  rw [hledger]
  exact usedPrefixes_modifyLedger hf hk

/-! ## Uses -/

/-- Every prefix that is used is in the ledger that it was used on. -/
structure Noted (s : Session) : Prop where
  graph : ∀ site l n, (s.graphAt site).Uses l n → .text n ∈ (s.ledger l).usedPrefixes
  clause : ∀ q, ∀ t ∈ (s.query q).clauseTerms, ∀ n ∈ prefixesOf t,
    .text n ∈ (s.queryLedger q).usedPrefixes

theorem Noted.pattern (h : s.Noted) {id : GraphId} {p : Pattern}
    (hp : s.pattern (s.graph id) = .ok p) {l : LedgerId} {n : Text} (huse : p.Uses l n) :
    .text n ∈ (s.ledger l).usedPrefixes := by
  obtain ⟨inner, -, hp⟩ := Except.bind_eq_ok_iff.mp hp
  obtain rfl := Except.pure_eq_ok_iff.mp hp
  exact h.graph (.graph id) l n ((Graph.uses_pattern inner).mp huse)

/-- What is used in the graph after building was used before, or has just been entered. -/
theorem Noted.building (h : s.Noted) {site : Site}
    (hlt : (s.graphAt site).ledger < s.ledgers.length) {f : Ledger → Ledger} {g : Graph → Graph}
    (hfg : Building s site f g) {l : LedgerId} {n : Text} (huse : (g (s.graphAt site)).Uses l n) :
    .text n ∈ ((s.built site f g).ledger l).usedPrefixes := by
  have hold (k : Key) (hk : k ∈ (s.ledger l).usedPrefixes) :
      k ∈ ((s.built site f g).ledger l).usedPrefixes := usedPrefixes_built hfg.grows hk
  have hnew (e : Expression) (he : Ledger.Enters f e) (hl : (s.graphAt site).ledger = l)
      (hn : n ∈ prefixesOf e.text) : .text n ∈ ((s.built site f g).ledger l).usedPrefixes := by
    rw [← hl, ledger_built_self hlt]
    exact he _ n hn
  have htriple {x y z : Expression} {t : Text} (ht : t ∈ [x.text, y.text, z.text]) :
      ∃ e ∈ [x, y, z], e.text = t := List.mem_map.mp ht
  cases hfg with
  | triple hx hy hz =>
      rcases Graph.uses_addTriple huse with huse | ⟨hl, t, ht, hn⟩
      · exact hold _ (h.graph site l n huse)
      · obtain ⟨e, he, rfl⟩ := htriple ht
        exact hnew e (enters_noteTriple hx hy hz he) hl hn
  | condition he =>
      rcases Graph.uses_addCondition huse with huse | ⟨hl, hn⟩
      · exact hold _ (h.graph site l n huse)
      · exact hnew _ (enters_use he) hl hn
  | block k hid hp =>
      rcases Graph.uses_embedding k huse with huse | huse
      · exact hold _ (h.graph site l n huse)
      · exact hold _ (h.pattern hp huse)
  | tripleBlock k hx hy hz =>
      rcases Graph.uses_embedding k huse with huse | huse
      · exact hold _ (h.graph site l n huse)
      · rcases Graph.uses_addTriple huse with huse | ⟨hl, t, ht, hn⟩
        · exact absurd huse Graph.not_uses_new
        · obtain ⟨e, he, rfl⟩ := htriple ht
          exact hnew e (enters_noteTriple hx hy hz he) hl hn
  | union _ hids hps =>
      rcases Graph.uses_addUnion huse with huse | ⟨p, hmem, huse⟩
      · exact hold _ (h.graph site l n huse)
      · obtain ⟨i, hi, hget⟩ := List.mem_iff_getElem.mp hmem
        have hforall := Except.mapM_eq_ok_iff.mp hps
        have hp := (List.forall₂_iff_get.mp hforall).2 i (hforall.length_eq ▸ hi) hi
        simp only [List.get_eq_getElem, hget] at hp
        exact hold _ (h.pattern hp huse)
  | subquery _ _ => exact hold _ (h.graph site l n huse)

theorem Noted.built (h : s.Noted) (hplaced : s.Placed) {site : Site} (hsite : s.holds site.object)
    {f : Ledger → Ledger} {g : Graph → Graph} (hfg : Building s site f g) :
    (s.built site f g).Noted where
  graph other l n huse := by
    by_cases heq : other = site
    · subst heq
      rw [graphAt_built_self hsite] at huse
      exact h.building (hplaced.ledger_lt other hsite) hfg huse
    · rw [graphAt_built_of_ne heq] at huse
      exact usedPrefixes_built hfg.grows (h.graph other l n huse)
  clause q t ht n hn := by
    have hledger : ((s.built site f g).query q).graph.ledger = (s.query q).graph.ledger :=
      ledger_graphAt_built hsite hfg (.query q)
    rw [query_built] at ht
    rw [queryLedger, hledger]
    exact usedPrefixes_built hfg.grows (h.clause q t ht n hn)

theorem Noted.settled (h : s.Noted) (hplaced : s.Placed) {id : QueryId}
    (hid : s.holds (.query id)) {f : Ledger → Ledger} {g : Query → Query}
    (hfg : Setting s id f g) : (s.settled id f g).Noted where
  graph site l n huse := by
    rw [graphAt_settled hid hfg] at huse
    exact usedPrefixes_modifyLedger hfg.grows (h.graph site l n huse)
  clause q t ht n hn := by
    rw [queryLedger, ← graphAt_query, graphAt_settled hid hfg, graphAt_query]
    by_cases heq : id = q
    · subst heq
      rw [query_settled_self hid] at ht
      rcases hfg.mem_clauseTerms ht with ht | ⟨e, rfl, he⟩
      · exact usedPrefixes_modifyLedger hfg.grows (h.clause id t ht n hn)
      · rw [ledger_settled_self (hplaced.queryLedger_lt (holds_query_iff.mp hid))]
        exact he _ n hn
    · rw [query_settled_of_ne heq] at ht
      exact usedPrefixes_modifyLedger hfg.grows (h.clause q t ht n hn)

theorem Noted.change (h : s.Noted) (hplaced : s.Placed) (hchange : s.Change s') : s'.Noted := by
  cases hchange with
  | newLedger =>
      refine ⟨fun site l n huse ↦ ?_, fun q t ht n hn ↦ ?_⟩
      · rw [ledger_withLedger]
        exact h.graph site l n huse
      · rw [queryLedger, ledger_withLedger]
        exact h.clause q t ht n hn
  | newGraph _ =>
      refine ⟨fun site l n huse ↦ ?_, h.clause⟩
      rw [graphAt_withGraph] at huse
      split at huse
      · exact absurd huse Graph.not_uses_new
      · exact h.graph site l n huse
  | newQuery =>
      refine ⟨fun site l n huse ↦ ?_, fun q t ht n hn ↦ ?_⟩
      · rw [ledger_withQuery]
        rw [graphAt_withQuery] at huse
        split at huse
        · exact absurd huse Graph.not_uses_new
        · exact h.graph site l n huse
      · rw [query_withQuery] at ht
        rw [queryLedger, ledger_withQuery, query_withQuery]
        split at ht
        · exact nomatch ht
        · rename_i hne
          rw [if_neg hne]
          exact h.clause q t ht n hn
  | entries _ henter es =>
      have hgrows := grows_enter henter es
      refine ⟨fun site l n huse ↦ ?_, fun q t ht n hn ↦ ?_⟩
      · have hgraph : (s.graphAt site).Uses l n := by cases site <;> exact huse
        exact usedPrefixes_modifyLedger hgrows (h.graph site l n hgraph)
      · exact usedPrefixes_modifyLedger hgrows (h.clause q t ht n hn)
  | building hsite hfg => exact h.built hplaced hsite hfg
  | setting hid hfg => exact h.settled hplaced hid hfg
  | validation _ => exact ⟨h.graph, h.clause⟩

theorem noted_empty : empty.Noted where
  graph site l n huse := by
    rw [graphAt_empty] at huse
    exact absurd huse Graph.not_uses_new
  clause q t ht n hn := by
    rw [query_empty] at ht
    exact nomatch ht

theorem Reachable.noted (h : s.Reachable) : s.Noted :=
  h.invariant noted_empty fun _ _ hplaced hnoted hchange ↦ hnoted.change hplaced hchange

end Session

end SparqlComposer
