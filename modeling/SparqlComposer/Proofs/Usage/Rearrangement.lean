import SparqlComposer.Proofs.Session.Frame
import SparqlComposer.Proofs.Usage.Nested

/-!
# The order of calls

Calls that build different parts of a query do not depend on each other, so of a run that builds a
query each part may be told by the calls alone that build this part. What the query is in the end
and the set of all names that its ledger has been told are then the same for every order of the
calls that keeps the order within each part.
-/

namespace SparqlComposer

open SparqlComposer.Action

/-! ## Missing names in any order -/

namespace Mention

theorem missing_eq_nil_iff {used defined : List Text} :
    missing used defined = [] ↔ ∀ n ∈ used, n ∈ defined := by
  simp [missing, List.filter_eq_nil_iff]

end Mention

/-- Whether a ledger is valid depends on what it has been told, in whatever order. -/
theorem Ledger.validate_tellAll_congr {ms ms' : List Mention} (h : ∀ m, m ∈ ms ↔ m ∈ ms') :
    (tellAll {} ms).validate = .ok () ↔ (tellAll {} ms').validate = .ok () := by
  have hmem (f : Mention → List Text) (n : Text) : n ∈ ms.flatMap f ↔ n ∈ ms'.flatMap f := by
    simp only [List.mem_flatMap, h]
  simp only [validate_eq_ok_iff, missingPrefixes_tellAll, missingVariables_tellAll,
    List.map_eq_nil_iff, Mention.missingPrefixes, Mention.missingVariables,
    Mention.missing_eq_nil_iff, hmem]

/-! ## What a call tells in two sessions -/

theorem Session.holds_of_isOk {s : Session} {c : Call} (h : (s.call c).1.isOk) :
    c.objects.all s.holds := by
  by_contra hnot
  rw [call, if_neg hnot] at h
  cases h

theorem Value.givenObjects_subset (v : Value) : allObjects v.given ⊆ v.objects := by
  rw [given]
  cases hitems : declarations v with
  | error e => exact List.nil_subset _
  | ok items => exact declarationObjects_subset hitems

namespace Agree

variable {q : QueryId} {same : QueryPart → Prop} {s s' : Session} (h : Agree q same s s')
  (hplaced : s.Placed) (hq : s.holds (.query q))

include h hplaced hq

theorem boundNames_eq {vs : List Value} (hvs : s.Apart q (Value.allObjects vs))
    (hsame : same .prefixes) : s.boundNames q vs = s'.boundNames q vs := by
  induction vs generalizing s s' with
  | nil => rfl
  | cons v vs ih =>
      rw [Value.allObjects] at hvs
      rw [Session.boundNames, Session.boundNames]
      cases hv : declaration v with
      | error e => rfl
      | ok pair =>
          obtain ⟨name, iri⟩ := pair
          obtain ⟨hname, hiri⟩ := Value.pairObjects_subset hv
          have hcases := h.bindPrefix_cases hplaced hq hq
            (hvs.mono (List.Subset.trans hname (List.subset_append_left _ _)))
            (hvs.mono (List.Subset.trans hiri (List.subset_append_left _ _))) fun _ ↦ hsame
          dsimp only
          rcases hcases with ⟨e, t', hr, hr', -⟩ | ⟨t, t', hr, hr', hagree, ht, hholds, hapart⟩
          · rw [hr, hr']
          · rw [hr, hr']
            dsimp only
            rw [ih hagree ht (by rwa [hholds]) (hapart _ (hvs.mono (List.subset_append_right _ _)))]

theorem projection_eq {t : QueryId} (ht : s.holds (.query t)) (hne : t ≠ q) :
    s.projection t = s'.projection t := by
  rw [Session.projection, Session.projection, h.projectedVariables_eq hplaced hq ht hne]

omit hplaced hq in
theorem patternMentions_eq (m : PatternMethod) (hsame : m.part.isRead → same m.part)
    (args : List Value) :
    s.patternMentions (.query q) m args = s'.patternMentions (.query q) m args := by
  unfold Session.patternMentions
  split
  case h_5 =>
      have hcurrent : (s.graphAt (.query q)).current = (s'.graphAt (.query q)).current :=
        congrArg Prod.snd (h.get_eq .triples (hsame rfl))
      rw [hcurrent]
  all_goals rfl

theorem queryMentions_eq (m : QueryMethod) {args : List Value}
    (hargs : s.Apart q (Value.allObjects args)) :
    s.queryMentions m args = s'.queryMentions m args := by
  unfold Session.queryMentions
  split
  case h_7 t =>
      obtain ⟨hheld, hlacks⟩ := hargs (.query t) (by simp [Value.allObjects, Value.objects])
      rw [h.projection_eq hplaced hq hheld hlacks.ne]
  all_goals rfl

theorem mentions_eq {c : Call} {p : QueryPart} (hc : c.part? = some (q, p))
    (hsame : p.isRead → same p) (hargs : ∀ r ∈ Value.allObjects c.args, s.Lacks q r) :
    s.mentions c = s'.mentions c := by
  have hcall := h.alike_call hplaced hq hc (fun _ ↦ hsame) hargs
  have hheld : c.objects.all s.holds = c.objects.all s'.holds := by rw [h.holds_eq]
  unfold Session.mentions
  split
  case h_1 t v =>
      obtain ⟨rfl, rfl⟩ := Prod.mk.inj (Option.some.inj hc)
      rw [← hheld]
      split
      · rename_i hall
        have hgiven : s.Apart t (Value.allObjects v.given) := fun r hr ↦ by
          have hr' := Value.objects_subset (List.mem_singleton_self v) (v.givenObjects_subset hr)
          exact ⟨List.all_eq_true.mp hall r (List.mem_cons_of_mem _ hr'), hargs r hr'⟩
        rw [h.boundNames_eq hplaced hq hgiven (hsame rfl)]
      · rfl
  case h_2 site m args =>
      cases site with
      | graph _ => cases hc
      | query t =>
          obtain ⟨rfl, rfl⟩ := Prod.mk.inj (Option.some.inj hc)
          rw [hcall.result_eq, h.patternMentions_eq m hsame]
  case h_4 t m args _ =>
      obtain ⟨p', -, heq⟩ := Option.map_eq_some_iff.mp hc
      obtain ⟨rfl, rfl⟩ := Prod.mk.inj heq
      rw [← hcall.result_eq]
      split
      · rename_i hok
        have hall := List.all_eq_true.mp (Session.holds_of_isOk hok)
        exact h.queryMentions_eq hplaced hq m fun r hr ↦
          ⟨hall r (List.mem_cons_of_mem _ hr), hargs r hr⟩
      · rfl
  case h_3 => cases hc
  case h_5 => rfl

/-- A call that builds a part of a query tells the ledger of the query the same in sessions that
agree in this part, if it reads it. -/
theorem told_eq {c : Call} {p : QueryPart} (hc : c.part? = some (q, p))
    (hsame : p.isRead → same p) (hargs : ∀ r ∈ Value.allObjects c.args, s.Lacks q r) :
    s.told q c = s'.told q c := by
  have hlt := Session.holds_query_iff.mp hq
  have hon (site : Site) : s.isOn q site = s'.isOn q site := by
    rw [Session.isOn, Session.isOn, h.queries_length, h.ledgerId_eq, h.ledger_eq]
  rw [Session.told, Session.told, if_neg (Nat.ne_of_lt hlt),
    if_neg (Nat.ne_of_lt (h.queries_length ▸ hlt)), funext hon,
    h.mentions_eq hplaced hq hc hsame hargs]

end Agree

/-! ## A run, part by part -/

def Call.isOn (q : QueryId) (p : QueryPart) (c : Call) : Bool := c.part? = some (q, p)

theorem Call.isOn_iff {q : QueryId} {p : QueryPart} {c : Call} :
    c.isOn q p ↔ c.part? = some (q, p) := decide_eq_true_iff

namespace Session

/-- What the calls that build a part of a query tell its ledger in the course of a run. -/
def historyOf (s : Session) (q : QueryId) (p : QueryPart) : List Call → List Mention
  | [] => []
  | c :: cs => (if c.isOn q p then s.told q c else []) ++ (s.call c).2.historyOf q p cs

variable {s s' : Session} {q : QueryId} {cs cs' : List Call}

theorem mem_history_iff (h : ∀ c ∈ cs, ∃ p, c.part? = some (q, p)) {m : Mention} :
    m ∈ s.history q cs ↔ ∃ p, m ∈ s.historyOf q p cs := by
  induction cs generalizing s with
  | nil => simp [history, historyOf]
  | cons c cs ih =>
      obtain ⟨p, hp⟩ := h c List.mem_cons_self
      simp only [history, historyOf, List.mem_append, exists_or,
        ih fun c' hc' ↦ h c' (List.mem_cons_of_mem c hc')]
      apply or_congr_left
      constructor
      · exact fun hm ↦ ⟨p, by rwa [if_pos (Call.isOn_iff.mpr hp)]⟩
      · rintro ⟨p', hm⟩
        split at hm
        · exact hm
        · cases hm

/-- Of a run that builds a query, each part comes out as if only the calls for this part had been
made, and these tell the ledger the same as they do by themselves. -/
theorem run_filter {p : QueryPart} (hagree : Agree q (· = p) s s') (hplaced : s.Placed)
    (hq : s.holds (.query q)) (hcs : s.BuildsWithout q q cs) :
    Agree q (· = p) (s.run cs) (s'.run (cs.filter (Call.isOn q p))) ∧
      s.historyOf q p cs = s'.history q (cs.filter (Call.isOn q p)) := by
  induction cs generalizing s s' with
  | nil => exact ⟨hagree, rfl⟩
  | cons c cs ih =>
      obtain ⟨⟨p', hp'⟩, hargs⟩ := hcs c List.mem_cons_self
      have hcall : Agree q (fun _ ↦ False) s (s.call c).2 := .of_call hp' id
      have hq' : (s.call c).2.holds (.query q) := by rwa [← hcall.holds_eq]
      by_cases hp : p' = p
      · subst hp
        have hon : c.isOn q p' := Call.isOn_iff.mpr hp'
        have hstep := (hagree.alike_call hplaced hq hp' (fun _ _ ↦ rfl) hargs).agree
        have htold := hagree.told_eq hplaced hq hp' (fun _ ↦ rfl) hargs
        obtain ⟨hrun, hhistory⟩ := ih hstep (hplaced.call c) hq' hcs.tail
        rw [List.filter_cons_of_pos hon, historyOf, if_pos hon, history, hhistory, htold]
        exact ⟨hrun, rfl⟩
      · have hon : ¬ c.isOn q p := by
          rw [Call.isOn_iff, hp']
          simpa using hp
        have hstep : Agree q (· = p) (s.call c).2 s' := (Agree.of_call hp' hp).symm.trans hagree
        obtain ⟨hrun, hhistory⟩ := ih hstep (hplaced.call c) hq' hcs.tail
        rw [List.filter_cons_of_neg hon, historyOf, if_neg hon, List.nil_append]
        exact ⟨hrun, hhistory⟩

/-! ## Runs in different orders -/

/-- Of the calls that build a query, each part has the same ones in the same order. -/
def Rearranged (q : QueryId) (cs cs' : List Call) : Prop :=
  ∀ p, cs.filter (Call.isOn q p) = cs'.filter (Call.isOn q p)

theorem agree_rearranged (hplaced : s.Placed) (hq : s.holds (.query q))
    (hcs : s.BuildsWithout q q cs) (hcs' : s.BuildsWithout q q cs') (hsame : Rearranged q cs cs') :
    Agree q (fun _ ↦ True) (s.run cs) (s.run cs') := by
  have hpart (p : QueryPart) : Agree q (· = p) (s.run cs) (s.run cs') := by
    have hrun := (run_filter (p := p) (.refl s) hplaced hq hcs).1
    have hrun' := (run_filter (p := p) (.refl s) hplaced hq hcs').1
    rw [← hsame p] at hrun'
    exact hrun.trans hrun'.symm
  exact { hpart .head with get_eq := fun p _ ↦ (hpart p).get_eq p rfl }

theorem mem_history_rearranged (hplaced : s.Placed) (hq : s.holds (.query q))
    (hcs : s.BuildsWithout q q cs) (hcs' : s.BuildsWithout q q cs') (hsame : Rearranged q cs cs')
    (m : Mention) : m ∈ s.history q cs ↔ m ∈ s.history q cs' := by
  rw [mem_history_iff fun c hc ↦ (hcs c hc).1, mem_history_iff fun c hc ↦ (hcs' c hc).1]
  apply exists_congr
  intro p
  rw [(run_filter (.refl s) hplaced hq hcs).2, (run_filter (.refl s) hplaced hq hcs').2, hsame p]

theorem validate_rearranged (h : s.Reachable) (hq : s.holds (.query q))
    (hcs : s.BuildsWithout q q cs) (hcs' : s.BuildsWithout q q cs') (hsame : Rearranged q cs cs') :
    ((s.run cs).queryLedger q).validate = .ok () ↔
      ((s.run cs').queryLedger q).validate = .ok () := by
  obtain ⟨calls, rfl⟩ := h
  have hplaced : (empty.run calls).Placed := Reachable.placed ⟨calls, rfl⟩
  have htold {cs : List Call} (hcs : (empty.run calls).BuildsWithout q q cs) :
      ((empty.run calls).run cs).queryLedger q =
        Ledger.tellAll {} (empty.history q calls ++ (empty.run calls).history q cs) := by
    have hq' : ((empty.run calls).run cs).holds (.query q) := by
      rwa [← (Agree.of_run fun c hc ↦ (hcs c hc).1).holds_eq]
    rw [← ledgerOf_of_holds hq', ← run_append, ledgerOf_run, history_append]
  rw [htold hcs, htold hcs']
  apply Ledger.validate_tellAll_congr
  intro m
  rw [List.mem_append, List.mem_append, mem_history_rearranged hplaced hq hcs hcs' hsame]

/-- However the calls that build a query are ordered, as long as each part is built in the same
order and the objects they are given do not contain the query, the query is written as the same
text, and validation accepts it after all orders or after none. -/
theorem Reachable.render_rearranged (h : s.Reachable) (hq : s.holds (.query q))
    (hcs : s.BuildsWithout q q cs) (hcs' : s.BuildsWithout q q cs') (hsame : Rearranged q cs cs') :
    (∃ t, (s.run cs).rendering false q = .ok (.text t) ∧
        (s.run cs').rendering false q = .ok (.text t)) ∧
      ((∃ t, (s.run cs).rendering true q = .ok (.text t)) ↔
        ∃ t, (s.run cs').rendering true q = .ok (.text t)) := by
  have hagree := agree_rearranged h.placed hq hcs hcs' hsame
  have hq' : (s.run cs).holds (.query q) := by
    rwa [← (Agree.of_run fun c hc ↦ (hcs c hc).1).holds_eq]
  obtain ⟨t, htrusted, htrusted', hvalidated, hvalidated'⟩ :=
    hagree.render (h.run cs) (h.run cs') hq'
  have hvalid := validate_rearranged h hq hcs hcs' hsame
  have hok (v : Except Error Unit) : (∃ t', (do
      v
      (s.run cs).validateInner q
      return Answer.text t : Except Error Answer) = .ok (.text t')) ↔
        v = .ok () ∧ (s.run cs).validateInner q = .ok () := by
    constructor
    · rintro ⟨t', hall⟩
      obtain ⟨_, hv, hall⟩ := Except.bind_eq_ok_iff.mp hall
      obtain ⟨_, hinner, -⟩ := Except.bind_eq_ok_iff.mp hall
      exact ⟨hv, hinner⟩
    · rintro ⟨rfl, hinner⟩
      exact ⟨t, by rw [hinner]; rfl⟩
  refine ⟨⟨t, htrusted, htrusted'⟩, ?_⟩
  rw [hvalidated, hvalidated', hok, hok, hvalid]

/-- A prefix is declared, a variable selected and a triple continued before an optional part and a
query are put in, or the other way around. -/
theorem rearranged_pair : ∃ s cs cs', Session.Reachable s ∧ Rearranged 0 cs cs' ∧
    (s.run cs).rendering true 0 = .ok (.text
      ("PREFIX ex: <http://e/> SELECT ?a WHERE \x7b \x7b SELECT * WHERE \x7b  \x7d \x7d " ++
        "?a ex:p ?b , ?d . OPTIONAL \x7b ?a ?q ?c . \x7d \x7d").toList) ∧
    ∃ t, (s.run cs').rendering true 0 = .ok (.text t) := by
  let s := empty.run [.newQuery .null, .newQuery .null, .query 0 .newSubgraph [],
    .pattern (.graph 0) .addTriple [.text "?a".toList, .text "?q".toList, .text "?c".toList]]
  let declared : Call := .query 0 .bindPrefix [.text "ex".toList, .text "http://e/".toList]
  let selected : Call := .query 0 (.select none) [.text "?a".toList]
  let triple : Call :=
    .pattern (.query 0) .addTriple [.text "?a".toList, .text "ex:p".toList, .text "?b".toList]
  let continued : Call := .pattern (.query 0) .continueTriple [.text "?d".toList]
  let optional : Call := .pattern (.query 0) .optional [.object (.graph 0)]
  let attached : Call := .query 0 .subquery [.object (.query 1)]
  let cs := [declared, selected, triple, continued, optional, attached]
  let cs' := [attached, triple, optional, continued, selected, declared]
  have hs : s.Reachable := ⟨_, rfl⟩
  have hheld : s.holds (.query 0) := by decide +kernel
  have hgraph : (s.graph 0).subqueries = [] := by decide +kernel
  have hquery : (s.query 1).graph.subqueries = [] := by decide +kernel
  have hlacks : ∀ r ∈ [Ref.graph 0, Ref.query 1], s.Lacks 0 r := by
    simp only [List.forall_mem_cons, List.not_mem_nil, false_imp_iff, implies_true, and_true]
    exact ⟨by simp [Lacks, hgraph], lacks_of_no_subqueries (by decide) hquery⟩
  have hbuilds {cs : List Call} (hpart : ∀ c ∈ cs, c.part?.map Prod.fst = some 0)
      (hobjects : ∀ c ∈ cs, Value.allObjects c.args ⊆ [.graph 0, .query 1]) :
      s.BuildsWithout 0 0 cs := by
    intro c hc
    obtain ⟨⟨x, p⟩, hp, rfl⟩ := Option.map_eq_some_iff.mp (hpart c hc)
    exact ⟨⟨p, hp⟩, fun r hr ↦ hlacks r (hobjects c hc hr)⟩
  have hcs : s.BuildsWithout 0 0 cs := hbuilds (by decide +kernel) (by decide +kernel)
  have hcs' : s.BuildsWithout 0 0 cs' := hbuilds (by decide +kernel) (by decide +kernel)
  have hsame : Rearranged 0 cs cs' := by
    intro p
    cases p with
    | slice which => cases which <;> rfl
    | _ => rfl
  have hheld' : ((s.run cs).withValidation true).holds (.query 0) := by decide +kernel
  have htext := call_render_of_toOption hheld'
    (t := ("PREFIX ex: <http://e/> SELECT ?a WHERE \x7b \x7b SELECT * WHERE \x7b  \x7d \x7d " ++
      "?a ex:p ?b , ?d . OPTIONAL \x7b ?a ?q ?c . \x7d \x7d").toList)
    (by decide +kernel)
  have hrendered := Reachable.render_rearranged hs hheld hcs hcs' hsame
  exact ⟨s, cs, cs', hs, hsame, htext, hrendered.2.mp ⟨_, htext⟩⟩

end Session

end SparqlComposer
