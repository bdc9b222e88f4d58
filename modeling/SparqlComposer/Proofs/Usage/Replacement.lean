import SparqlComposer.Proofs.Session.Replacement
import SparqlComposer.Proofs.Usage.Rearrangement

/-!
# Setting a modifier again

A modifier that is set again is replaced in the text of its query, whatever has been asked of the
query in between, as long as it is given neither itself nor an object that contains it: where a block
is made of such an object, the text with the first modifier is kept. The ledger goes on knowing the
names of the one before. So the query is validated as if the modifier had been set only once exactly
when these names make no difference to what is missing.
-/

namespace SparqlComposer

open SparqlComposer.Action

/-! ## Names that come up in between -/

namespace Mention

theorem eraseDups_filter (p : Text → Bool) (ns : List Text) :
    (ns.filter p).eraseDups = ns.eraseDups.filter p := by
  induction ns using List.reverseRecOn with
  | nil => rfl
  | append_singleton ns n ih =>
      rw [List.filter_append, List.eraseDups_append, List.eraseDups_append, List.filter_append, ih]
      by_cases hp : p n <;> by_cases hn : n ∈ ns <;>
        simp [List.removeAll, hp, hn, List.eraseDups_cons]

theorem nodup_eraseDups (ns : List Text) : ns.eraseDups.Nodup := by
  induction ns using List.reverseRecOn with
  | nil => exact .nil
  | append_singleton ns n ih =>
      rw [List.eraseDups_append]
      by_cases hn : n ∈ ns
      · simpa [List.removeAll, hn] using ih
      · have hnew : ∀ n' ∈ ns.eraseDups, n' ≠ n := by
          rintro n' hn' rfl
          exact hn (List.mem_eraseDups.mp hn')
        simpa [List.removeAll, hn, List.eraseDups_cons, List.nodup_append, ih] using hnew

section Missing

variable {us vs ds es : List Text}

theorem mem_missing {n : Text} : n ∈ missing us ds ↔ n ∈ us ∧ n ∉ ds := by
  simp [missing]

theorem nodup_missing : (missing us ds).Nodup := (nodup_eraseDups us).filter _

theorem missing_congr (h : ∀ n, n ∈ ds ↔ n ∈ es) : missing us ds = missing us es := by
  simp only [missing, h]

theorem missing_append_defined : missing us (es ++ ds) = (missing us ds).filter (· ∉ es) := by
  rw [missing, missing, List.filter_filter]
  apply List.filter_congr
  intro n _
  simp

/-- Of the names that are used later, those are missing besides that are not used earlier. -/
theorem missing_append_used : missing (us ++ vs) ds = missing us ds ++ missing vs (us ++ ds) := by
  rw [missing, missing, missing, List.eraseDups_append, List.filter_append, List.removeAll,
    eraseDups_filter, List.filter_filter]
  congr 1
  apply List.filter_congr
  intro n _
  simp [Bool.and_comm]

theorem missing_append_used_eq_iff :
    missing (us ++ vs) ds = missing vs ds ↔ missing us ds <+: missing vs ds := by
  rw [missing_append_used, missing_append_defined]
  constructor
  · exact fun h ↦ ⟨_, h⟩
  · rintro ⟨ns, hns⟩
    have hnodup : (missing us ds ++ ns).Nodup := hns ▸ nodup_missing
    have hunused : ∀ n ∈ ns, n ∉ us := by
      intro n hn hused
      have hmem : n ∈ missing vs ds := hns ▸ List.mem_append_right _ hn
      have hmissing := mem_missing.mpr ⟨hused, (mem_missing.mp hmem).2⟩
      exact (List.nodup_append.mp hnodup).2.2 n hmissing n hn rfl
    have hused : (missing us ds).filter (· ∉ us) = [] := by
      simpa [List.filter_eq_nil_iff] using fun n hn ↦ (mem_missing.mp hn).1
    have hkept : ns.filter (· ∉ us) = ns := by simpa [List.filter_eq_self] using hunused
    rw [← hns, List.filter_append, hused, hkept, List.nil_append]

/-- Uses and definitions in between make no difference exactly when nothing is defined that is missing
without it, and what is used and missing is what is missing first of the names used after. -/
theorem missing_between_eq_iff (as : List Text) :
    missing (us ++ (as ++ vs)) (es ++ ds) = missing (us ++ vs) ds ↔
      (∀ n ∈ missing (us ++ vs) ds, n ∉ es) ∧
        missing as (us ++ (es ++ ds)) <+: missing vs (us ++ (es ++ ds)) := by
  rw [← missing_append_used_eq_iff]
  have hused : missing (us ++ (as ++ vs)) (es ++ ds) = missing (us ++ vs) (es ++ ds) ↔
      missing (as ++ vs) (us ++ (es ++ ds)) = missing vs (us ++ (es ++ ds)) := by
    have hlater (ws : List Text) : missing (us ++ ws) (es ++ ds) =
        missing us (es ++ ds) ++ missing ws (us ++ (es ++ ds)) := missing_append_used
    rw [hlater, hlater, List.append_cancel_left_eq]
  have hdefined : missing (us ++ vs) (es ++ ds) = missing (us ++ vs) ds ↔
      ∀ n ∈ missing (us ++ vs) ds, n ∉ es := by
    simp [missing_append_defined, List.filter_eq_self]
  rw [← hused, ← hdefined]
  constructor
  · intro h
    have hkept : missing (us ++ vs) (es ++ ds) = missing (us ++ vs) ds := by
      rw [hdefined, ← h]
      exact fun n hn hes ↦ (mem_missing.mp hn).2 (List.mem_append_left _ hes)
    exact ⟨hkept, h.trans hkept.symm⟩
  · exact fun h ↦ h.2.trans h.1

end Missing

/-- The names of one sort that come up in between make no difference to those that are missing. What is
defined in between is not missing without it, and of what is used in between, the names that are
neither used before nor defined anywhere are the first ones of this sort that are used after. -/
def Unnoticed (used defined : Mention → List Text) (before between after : List Mention) : Prop :=
  let known := before.flatMap used ++
    (between.flatMap defined ++ (before ++ after).flatMap defined)
  (∀ n ∈ missing ((before ++ after).flatMap used) ((before ++ after).flatMap defined),
      n ∉ between.flatMap defined) ∧
    missing (between.flatMap used) known <+: missing (after.flatMap used) known

theorem unnoticed_iff {used defined : Mention → List Text} {before between after : List Mention} :
    missing ((before ++ (between ++ after)).flatMap used)
        ((before ++ (between ++ after)).flatMap defined) =
      missing ((before ++ after).flatMap used) ((before ++ after).flatMap defined) ↔
    Unnoticed used defined before between after := by
  have hdefined (n : Text) : n ∈ (before ++ (between ++ after)).flatMap defined ↔
      n ∈ between.flatMap defined ++ (before ++ after).flatMap defined := by
    simp only [List.flatMap_append, List.mem_append]
    exact or_left_comm
  rw [missing_congr hdefined, Unnoticed]
  simp only [List.flatMap_append]
  exact missing_between_eq_iff _

theorem unnoticed_nil {used defined : Mention → List Text} {before after : List Mention} :
    Unnoticed used defined before [] after :=
  unnoticed_iff.mp rfl

/-- What a ledger is told in between makes no difference to what it is refused for. -/
structure Negligible (before between after : List Mention) : Prop where
  inPrefixes : Unnoticed usedPrefixes declaredPrefixes before between after
  inVariables : missingPrefixes (before ++ after) = [] →
    Unnoticed usedVariables definedVariables before between after

end Mention

namespace Ledger

theorem validate_tellAll_eq_iff {before between after : List Mention} :
    (tellAll {} (before ++ (between ++ after))).validate =
        (tellAll {} (before ++ after)).validate ↔
      Mention.Negligible before between after := by
  have hverdict (ms : List Mention) : (tellAll {} ms).validate =
      verdict (Mention.missingPrefixes ms) (Mention.missingVariables ms) :=
    validate_of_names (missingPrefixes_tellAll ms) (missingVariables_tellAll ms)
  have hprefixes : Mention.missingPrefixes (before ++ (between ++ after)) =
      Mention.missingPrefixes (before ++ after) ↔
        Mention.Unnoticed Mention.usedPrefixes Mention.declaredPrefixes before between after :=
    Mention.unnoticed_iff
  have hvariables : Mention.missingVariables (before ++ (between ++ after)) =
      Mention.missingVariables (before ++ after) ↔
        Mention.Unnoticed Mention.usedVariables Mention.definedVariables before between after :=
    Mention.unnoticed_iff
  rw [hverdict, hverdict, verdict_eq_iff, hprefixes, hvariables]
  exact ⟨fun h ↦ ⟨h.1, h.2⟩, fun h ↦ ⟨h.inPrefixes, h.inVariables⟩⟩

end Ledger

/-! ## Calls about a query -/

/-- All calls are made on a query, and none is given what is the query or contains it by then. -/
def Session.About (s : Session) (q : QueryId) : List Call → Prop
  | [] => True
  | c :: cs => c.site? = some (.query q) ∧ (∀ r ∈ Value.allObjects c.args, s.Lacks q r) ∧
      (s.call c).2.About q cs

theorem Session.about_append {s : Session} {q : QueryId} {cs cs' : List Call} :
    s.About q (cs ++ cs') ↔ s.About q cs ∧ (s.run cs).About q cs' := by
  induction cs generalizing s with
  | nil => exact (true_and _).symm ▸ Iff.rfl
  | cons c cs ih =>
      rw [List.cons_append, About, About, ih, and_assoc, and_assoc]
      rfl

/-- A call that mentions nothing tells nothing. -/
theorem Session.told_eq_nil {s : Session} {q x : QueryId} (hq : s.holds (.query q))
    {m : QueryMethod} {args : List Value} (hm : m ≠ .bindPrefixes)
    (hnone : s.queryMentions m args = []) : s.told q (.query x m args) = [] := by
  have hmentions : s.mentions (.query x m args) = [] := by
    by_cases hok : (s.call (.query x m args)).1.isOk
    · rw [mentions_query hm hok, hnone]
    · cases m with
      | bindPrefixes => exact absurd rfl hm
      | _ => exact if_neg hok
  rw [told, if_neg (Nat.ne_of_lt (holds_query_iff.mp hq)), hmentions, ite_self]

namespace Agree

variable {q : QueryId} {same : QueryPart → Prop} {s s' : Session} (h : Agree q same s s')
  (hread : ∀ p : QueryPart, p.isRead → same p)

include h hread

/-- A call on the query keeps the sessions in agreement, and tells the ledger the same in both. -/
theorem call (hplaced : s.Placed) (hq : s.holds (.query q)) {c : Call}
    (hc : c.site? = some (.query q)) (hargs : ∀ r ∈ Value.allObjects c.args, s.Lacks q r) :
    Agree q same (s.call c).2 (s'.call c).2 ∧ s.told q c = s'.told q c := by
  cases c with
  | pattern site m args =>
      obtain rfl := Option.some.inj hc
      exact ⟨(h.alike_call hplaced hq rfl (fun _ ↦ hread m.part) hargs).agree,
        h.told_eq hplaced hq rfl (hread m.part) hargs⟩
  | query x m args =>
      obtain rfl := Site.query.inj (Option.some.inj hc)
      refine ⟨h.call_query hplaced hq hread m hargs, ?_⟩
      cases hp : m.part? with
      | some p => exact h.told_eq hplaced hq (Call.part?_query x hp args) (hread p) hargs
      | none =>
          have hm : m ≠ .bindPrefixes := by
            rintro rfl
            cases hp
          have hnone (s : Session) : s.queryMentions m args = [] := by
            cases m <;> first | rfl | cases hp
          have hq' : s'.holds (.query x) := by rwa [← h.holds_eq]
          rw [Session.told_eq_nil hq hm (hnone s), Session.told_eq_nil hq' hm (hnone s')]
  | graph _ _ _ => cases hc
  | newLedger | newGraph _ | newQuery _ | ledger _ _ _ | setValidation _ => cases hc

theorem run_about (hplaced : s.Placed) (hq : s.holds (.query q)) {cs : List Call}
    (hcs : s.About q cs) :
    Agree q same (s.run cs) (s'.run cs) ∧ s.history q cs = s'.history q cs := by
  induction cs generalizing s s' with
  | nil => exact ⟨h, rfl⟩
  | cons c cs ih =>
      obtain ⟨hc, hargs, hcs⟩ := hcs
      obtain ⟨hcall, htold⟩ := h.call hread hplaced hq hc hargs
      obtain ⟨hrun, hhistory⟩ := ih hcall (hplaced.call c)
        ((Session.changes_call hplaced c).holds_query hq) hcs
      rw [Session.history, Session.history, htold, hhistory]
      exact ⟨hrun, rfl⟩

end Agree

/-! ## Setting a modifier again -/

namespace Session

open Relation

variable {q : QueryId} {m : QueryMethod} {b : List Value} {cs : List Call}

/-- Once a modifier has been set again, the query is as if it had not been set before, and meanwhile
its ledger has been told the same. -/
theorem agree_replaced {s : Session} (hplaced : s.Placed) (hq : s.holds (.query q))
    (hm : m.isModifier) (a : List Value) (hcs : s.About q (cs ++ [.query q m b]))
    (hb : ((s.run cs).call (.query q m b)).1.isOk) :
    Agree q (fun _ ↦ True) (s.run (cs ++ [.query q m b]))
        (s.run (.query q m a :: (cs ++ [.query q m b]))) ∧
      s.history q (cs ++ [.query q m b]) =
        (s.call (.query q m a)).2.history q (cs ++ [.query q m b]) := by
  obtain ⟨p, hp, hunread⟩ := QueryMethod.exists_part_of_isModifier hm
  have hset : Agree q (· ≠ p) s (s.call (.query q m a)).2 :=
    .of_call (Call.part?_query q hp a) fun hne ↦ hne rfl
  have hread : ∀ p' : QueryPart, p'.isRead → p' ≠ p := by
    rintro p' hp' rfl
    exact hunread hp'
  obtain ⟨hbetween, -, hargs, -⟩ := about_append.mp hcs
  refine ⟨?_, (hset.run_about hread hplaced hq hcs).2⟩
  have hrun := (hset.run_about hread hplaced hq hbetween).1
  have hchanges := changes_run hplaced cs
  have hreplaced := hrun.of_replaced (hplaced.changes hchanges) (hchanges.holds_query hq) hm hp
    (fun _ ↦ id) hargs hb
  rw [run_append]
  change Agree q _ _ ((s.call (.query q m a)).2.run (cs ++ [.query q m b]))
  rw [run_append]
  exact hreplaced

/-- A modifier that is set again is replaced in the text, whatever has been asked of the query in
between, as long as no call was given the query itself or an object that contains it. With validation,
the ledger of the query is accepted or refused as if the modifier had been set only once exactly when
what was mentioned at first makes no difference to what is missing. Then the query is written or
refused alike, and otherwise it is not, unless a query in it is refused. A limit or an offset never
makes a difference. -/
theorem render_replaced (calls : List Call) (hq : (empty.run calls).holds (.query q))
    (hm : m.isModifier) (a : List Value)
    (hcs : (empty.run calls).About q (cs ++ [.query q m b]))
    (hb : (((empty.run calls).run cs).call (.query q m b)).1.isOk) :
    let s := empty.run calls
    let calls' := cs ++ [.query q m b]
    let twice := s.run (.query q m a :: calls')
    let once := s.run calls'
    let alike := Mention.Negligible (empty.history q calls) (s.told q (.query q m a))
      (s.history q calls')
    (∃ t, twice.rendering false q = .ok (.text t) ∧ once.rendering false q = .ok (.text t)) ∧
      ((twice.queryLedger q).validate = (once.queryLedger q).validate ↔ alike) ∧
      (alike → twice.rendering true q = once.rendering true q) ∧
      ((∀ t, TransGen once.Attached t q → (once.queryLedger t).validate = .ok ()) →
        twice.rendering true q = once.rendering true q → alike) ∧
      ∀ which, m = .slice which → alike := by
  intro s calls' twice once alike
  have hs : s.Reachable := ⟨calls, rfl⟩
  obtain ⟨hagree, hhistory⟩ := agree_replaced hs.placed hq hm a hcs hb
  have hheld (cs : List Call) : (s.run cs).holds (.query q) :=
    (changes_run hs.placed cs).holds_query hq
  have hledger (cs : List Call) : (s.run cs).queryLedger q =
      Ledger.tellAll {} (empty.history q calls ++ s.history q cs) := by
    rw [← ledgerOf_of_holds (hheld cs), ← run_append, ledgerOf_run, history_append]
  have hvalidate : (twice.queryLedger q).validate = (once.queryLedger q).validate ↔ alike := by
    rw [hledger, hledger, history, ← hhistory]
    exact Ledger.validate_tellAll_eq_iff
  obtain ⟨t, hwritten, hwritten', hvalidated, hvalidated'⟩ :=
    hagree.render (hs.run _) (hs.run _) (hheld _)
  refine ⟨⟨t, hwritten', hwritten⟩, hvalidate, fun halike ↦ ?_, fun hinner heq ↦ ?_, ?_⟩
  · rw [hvalidated, hvalidated', hvalidate.mpr halike]
  · rw [hvalidated, hvalidated', (hs.run _).validateInner_eq_ok_iff.mpr hinner] at heq
    exact hvalidate.mp (Except.bind_const_injective (Answer.text t) heq)
  · rintro which rfl
    have hnone : s.told q (.query q (.slice which) a) = [] :=
      told_eq_nil hq (fun heq ↦ by cases heq) rfl
    change Mention.Negligible _ (s.told q (.query q (.slice which) a)) _
    rw [hnone]
    exact ⟨Mention.unnoticed_nil, fun _ ↦ Mention.unnoticed_nil⟩

/-- A query is grouped by a variable that never comes up, then limited, and then grouped by another
one. It has the text of a query that has been grouped only once, and is refused all the same. -/
theorem grouped_twice : ∃ s cs b, Session.Reachable s ∧
    (s.run (cs ++ [.query 0 .groupBy b])).rendering true 0 =
      .ok (.text "SELECT * WHERE \x7b ?a ?p ?b . \x7d GROUP BY ?a LIMIT 5".toList) ∧
    (s.run (.query 0 .groupBy [.text "?x".toList] :: (cs ++ [.query 0 .groupBy b]))).rendering
        false 0 =
      .ok (.text "SELECT * WHERE \x7b ?a ?p ?b . \x7d GROUP BY ?a LIMIT 5".toList) ∧
    (s.run (.query 0 .groupBy [.text "?x".toList] :: (cs ++ [.query 0 .groupBy b]))).rendering
        true 0 ≠ (s.run (cs ++ [.query 0 .groupBy b])).rendering true 0 := by
  let calls : List Call := [.newQuery .null,
    .pattern (.query 0) .addTriple [.text "?a".toList, .text "?p".toList, .text "?b".toList]]
  let cs : List Call := [.query 0 (.slice .limit) [.int 5]]
  let a := [Value.text "?x".toList]
  let b := [Value.text "?a".toList]
  let s := empty.run calls
  have hs : s.Reachable := ⟨calls, rfl⟩
  have hq : s.holds (.query 0) := by decide +kernel
  have hcs : s.About 0 (cs ++ [.query 0 .groupBy b]) := by
    refine ⟨rfl, fun r hr ↦ ?_, rfl, fun r hr ↦ ?_, trivial⟩ <;> cases hr
  have hb : ((s.run cs).call (.query 0 .groupBy b)).1.isOk := by decide +kernel
  have hheld : ((s.run (cs ++ [.query 0 .groupBy b])).withValidation true).holds (.query 0) := by
    decide +kernel
  have htext := call_render_of_toOption hheld
    (t := "SELECT * WHERE \x7b ?a ?p ?b . \x7d GROUP BY ?a LIMIT 5".toList) (by decide +kernel)
  have hheld' : ((s.run (cs ++ [.query 0 .groupBy b])).withValidation false).holds (.query 0) :=
    hheld
  have htext' := call_render_of_toOption hheld'
    (t := "SELECT * WHERE \x7b ?a ?p ?b . \x7d GROUP BY ?a LIMIT 5".toList) (by decide +kernel)
  have hinner : (s.run (cs ++ [.query 0 .groupBy b])).validateInner 0 = .ok () := by
    have hwalk : ((s.run (cs ++ [.query 0 .groupBy b])).query 0).graph.subqueries = [] := by
      decide +kernel
    rw [validateInner, hwalk]
    rfl
  obtain ⟨⟨t, htwice, honce⟩, -, -, hdiffers, -⟩ := render_replaced calls hq rfl a hcs hb
  refine ⟨s, cs, b, hs, htext, ?_, fun heq ↦ ?_⟩
  · rw [htwice, ← honce, rendering, htext']
  · have halike := hdiffers ((hs.run _).validateInner_eq_ok_iff.mp hinner) heq
    have hunnoticed := (halike.inVariables (by decide +kernel)).2
    revert hunnoticed
    decide +kernel

end Session

end SparqlComposer
