import SparqlComposer.Proofs.Literal.Query
import SparqlComposer.Proofs.Reading.Readable
import SparqlComposer.Proofs.Session.Render

/-!
# Literals of formatted queries

All that a session holds is of a kind that may stand where it stands, so a query is written with the
strings of its objects, and formatting keeps these. Only where a quotation mark is escaped in a
string the span ends at it, and what stands behind it in the string is laid out anew.
-/

namespace SparqlComposer

open SparqlComposer.Action

/-! ## Admitted queries -/

def Query.clauses (q : Query) : List Expression :=
  (q.head.getD .everything).projection ++ q.modifiers.expressions

/-- The clauses of a query hold expressions of kinds that may stand there, and names are bound to
IRIs. -/
structure Query.Admitted (q : Query) : Prop where
  clauses : ∀ e ∈ q.clauses, e.IsOf clauseKinds
  bindings : ∀ e ∈ q.prefixes.entries, IsTermOf [.prefixName] e.1 ∧ IsTermOf [.iri] e.2

structure Subquery.Admitted (r : Subquery) : Prop where
  clauses : ∀ e ∈ r.clauses, e.IsOf clauseKinds
  body : r.body.Admitted

theorem Query.admitted_new (graph : Graph) : ({ graph } : Query).Admitted :=
  ⟨(fun _ h ↦ nomatch h), (fun _ h ↦ nomatch h)⟩

theorem Query.Admitted.subquery {q : Query} (h : q.Admitted) {body : Pattern}
    (hbody : body.Admitted) : (q.subquery body).Admitted :=
  ⟨h.clauses, hbody⟩

theorem ModifierSetting.admitted {es : List Expression} {f : Modifiers → Modifiers}
    (h : ModifierSetting es f) {m : Modifiers} (hm : ∀ e ∈ m.expressions, e.IsOf clauseKinds) :
    ∀ e ∈ (f m).expressions, e.IsOf clauseKinds := by
  simp only [Modifiers.expressions, List.forall_mem_append] at hm ⊢
  obtain ⟨⟨hgroup, hhaving⟩, horder⟩ := hm
  cases h with
  | groupBy _ hes => exact ⟨⟨fun e he ↦ (hes e he).mono (by decide), hhaving⟩, horder⟩
  | having he =>
      refine ⟨⟨hgroup, fun e' he' ↦ ?_⟩, horder⟩
      obtain rfl := List.mem_singleton.mp he'
      exact he.mono (by decide)
  | orderBy _ he =>
      refine ⟨⟨hgroup, hhaving⟩, fun e' he' ↦ ?_⟩
      obtain rfl := List.mem_singleton.mp he'
      exact he.mono (by decide)
  | slice _ slice => cases slice <;> exact ⟨⟨hgroup, hhaving⟩, horder⟩

theorem Setting.admitted {s : Session} {id : QueryId} {f : Ledger → Ledger} {g : Query → Query}
    (h : Setting s id f g) {q : Query} (hq : q.Admitted) : (g q).Admitted := by
  obtain ⟨hclauses, hbindings⟩ := hq
  cases h with
  | binding hn hi _ =>
      refine ⟨hclauses, fun e he ↦ ?_⟩
      rcases OrderedMap.mem_entries_insert he with he | rfl
      · exact hbindings e he
      · exact ⟨hn.isTermOf, hi.isTermOf⟩
  | head _ _ hkinds hes _ =>
      refine ⟨fun e he ↦ ?_, hbindings⟩
      rcases List.mem_append.mp he with he | he
      · rcases hkinds with rfl | rfl
        · exact (hes e he).mono (by decide)
        · exact (hes e he).mono (by decide)
      · exact hclauses e (List.mem_append_right _ he)
  | modifier hmodifier =>
      refine ⟨fun e he ↦ ?_, hbindings⟩
      rcases List.mem_append.mp he with he | he
      · exact hclauses e (List.mem_append_left _ he)
      · exact hmodifier.admitted (fun e he ↦ hclauses e (List.mem_append_right _ he)) e he

/-! ## Admitted graphs -/

namespace Graph

variable {g : Graph}

theorem admitted_new (ledger : LedgerId) : (({ ledger } : Graph).pattern []).Admitted :=
  .mk Triples.readable_empty (fun _ h ↦ nomatch h) (fun _ h ↦ nomatch h) (fun _ h ↦ nomatch h)
    fun _ h ↦ nomatch h

theorem admitted_pattern (h : (g.pattern []).Admitted) {inner : List Subquery}
    (hinner : ∀ r ∈ inner, r.Admitted) : (g.pattern inner).Admitted := by
  cases h with
  | mk htriples hconditions hblocks _ _ =>
      exact .mk htriples hconditions hblocks (fun r hr ↦ (hinner r hr).clauses) fun r hr ↦
        (hinner r hr).body

theorem admitted_triplePattern (ledger : LedgerId) {x y z : Expression} (hx : x.IsOf subjectKinds)
    (hy : y.IsOf predicateKinds) (hz : z.IsOf objectKinds) :
    (triplePattern ledger x y z).Admitted :=
  .mk (Triples.readable_empty.add hx.isTermOf hy.isTermOf hz.isTermOf) (fun _ h ↦ nomatch h)
    (fun _ h ↦ nomatch h) (fun _ h ↦ nomatch h) fun _ h ↦ nomatch h

end Graph

/-! ## Admitted sessions -/

namespace Session

variable {s s' : Session}

/-- All that the session holds is of a kind that may stand where it stands. -/
structure Admitted (s : Session) : Prop where
  graph : ∀ site, ((s.graphAt site).pattern []).Admitted
  query : ∀ id, (s.query id).Admitted

namespace Admitted

theorem subqueryWithin (h : s.Admitted) {depth : Nat} {q : QueryId} {r : Subquery}
    (hr : s.subqueryWithin depth q = .ok r) : r.Admitted := by
  induction depth generalizing q r with
  | zero => cases hr
  | succ depth ih =>
      obtain ⟨inner, -, hinner, rfl⟩ := subqueryWithin_succ_eq_ok hr
      refine (h.query q).subquery (Graph.admitted_pattern (h.graph (.query q)) fun a ha ↦ ?_)
      obtain ⟨q', -, hq'⟩ := exists_of_forall₂_right hinner ha
      exact ih hq'

theorem pattern (h : s.Admitted) {id : GraphId} {p : Pattern}
    (hp : s.pattern (s.graph id) = .ok p) : p.Admitted := by
  obtain ⟨inner, hinner, hpure⟩ := Except.bind_eq_ok_iff.mp hp
  obtain rfl := Except.pure_eq_ok_iff.mp hpure
  refine Graph.admitted_pattern (h.graph (.graph id)) fun a ha ↦ ?_
  obtain ⟨q, -, hq⟩ := exists_of_forall₂_right (Except.mapM_eq_ok_iff.mp hinner) ha
  exact h.subqueryWithin hq

theorem building (h : s.Admitted) {site : Site} {f : Ledger → Ledger} {g : Graph → Graph}
    (hfg : Building s site f g) : ((g (s.graphAt site)).pattern []).Admitted := by
  cases h.graph site with
  | mk htriples hconditions hblocks _ _ =>
      refine .mk (hfg.readable_triples htriples) (fun e he ↦ ?_) (fun b hb ↦ ?_)
        (fun _ hr ↦ nomatch hr) fun _ hr ↦ nomatch hr
      · rcases hfg.mem_conditions he with he | hof
        · exact hconditions e he
        · exact hof
      · rcases hfg.mem_blocks hb with hb | ⟨id, hp⟩ | ⟨x, y, z, hx, hy, hz, rfl⟩
        · exact hblocks b hb
        · exact h.pattern hp
        · exact Graph.admitted_triplePattern _ hx hy hz

theorem change (h : s.Admitted) (hchange : s.Change s') : s'.Admitted where
  graph := hchange.forall_graphAt (P := fun g ↦ (g.pattern []).Admitted) Graph.admitted_new
    (fun _ _ _ hfg ↦ h.building hfg) h.graph
  query := hchange.forall_query (P := Query.Admitted) Query.admitted_new
    (fun _ _ hq ↦ ⟨hq.clauses, hq.bindings⟩) (fun id _ _ hfg ↦ hfg.admitted (h.query id)) h.query

end Admitted

theorem admitted_empty : empty.Admitted where
  graph site := by
    rw [graphAt_empty]
    exact Graph.admitted_new 0
  query id := by
    rw [query_empty]
    exact Query.admitted_new _

theorem Reachable.admitted (h : s.Reachable) : s.Admitted :=
  h.invariant admitted_empty fun _ _ _ hadmitted hchange ↦ hadmitted.change hchange

end Session

/-! ## Written queries -/

theorem written_declaration {name iri : Text} (hname : IsTermOf [.prefixName] name)
    (hiri : IsTermOf [.iri] iri) : Written (Query.declaration name iri) [] := by
  obtain ⟨k, hk, hadmits⟩ := hiri
  obtain rfl := List.mem_singleton.mp hk
  obtain ⟨r, rfl⟩ := exists_run_of_iri hadmits
  have hkeyword : Written "PREFIX ".toList [] := .plain (by decide) (by decide)
  have hcolon : Written [':', ' '] [] := .plain (by decide) (by decide)
  have hall := ((hkeyword.append (written_term (by decide) hname)).append hcolon).append (.iri r)
  have htext : Query.declaration name r.text =
      "PREFIX ".toList ++ name ++ ": <".toList ++ r.text ++ ['>'] := rfl
  have hopen : ": <".toList = [':', ' ', '<'] := by decide
  rw [htext, hopen]
  simpa only [List.append_assoc, List.cons_append, List.nil_append, List.append_nil] using hall

/-- A query that is written is written with the strings of its objects. -/
theorem Query.Admitted.written {q : Query} (hq : q.Admitted) {r : Subquery} (hr : r.Admitted)
    (hfree : r.CallFree) :
    Written (spaced (q.declarations ++ r.texts)) (stringParts r.objects) := by
  have hdeclarations : AllWritten q.declarations [] := .of_forall fun t ht ↦ by
    obtain ⟨e, he, rfl⟩ := List.mem_map.mp ht
    exact written_declaration (hq.bindings e he).1 (hq.bindings e he).2
  have hparts := Subquery.allWritten
    (fun e he ↦ written_expression (hr.clauses e he) ((hfree r .refl).1 e he))
    (hr.body.written hfree.body)
  exact (hdeclarations.append hparts).spaced

/-- A query that is written can be formatted. Without calls it has the string parts of its objects
as its strings, in the order of writing, and so has the formatted text if no string holds an escaped
quotation mark. -/
theorem Session.Reachable.format_strings {s : Session} (h : s.Reachable) {q : QueryId} {t : Text}
    (hrender : (s.call (.query q .render [])).1 = .ok (.text t)) (hkeys : Restorable t) :
    ∃ r f, s.subquery q = .ok r ∧ (s.call (.query q .format [])).1 = .ok (.text f) ∧
      (r.CallFree → strings t = stringParts r.objects ∧
        ((∀ w ∈ stringParts r.objects, ¬ HasInnerQuote w) →
          strings f = stringParts r.objects)) := by
  obtain ⟨-, r, hr, rfl⟩ := exists_of_call_render hrender
  refine ⟨r, _, hr, call_format hrender, fun hfree ↦ ?_⟩
  have hadmitted := h.admitted
  have hwritten := (hadmitted.query q).written (hadmitted.subqueryWithin hr) hfree
  exact ⟨hwritten.strings_eq, fun hquotes ↦ hwritten.strings_formatted_eq hquotes hkeys⟩

/-- Two blanks in a string stay, but one of them is lost behind an escaped quotation mark. -/
theorem Session.format_blanks :
    (∃ (s : Session) (t f : Text), s.Reachable ∧
      (s.call (.query 0 .render [])).1 = .ok (.text t) ∧
      (s.call (.query 0 .format [])).1 = .ok (.text f) ∧
      strings t = ["\"a  b\"".toList] ∧ strings f = ["\"a  b\"".toList]) ∧
    ∃ (s : Session) (t f : Text), s.Reachable ∧
      (s.call (.query 0 .render [])).1 = .ok (.text t) ∧
      (s.call (.query 0 .format [])).1 = .ok (.text f) ∧
      strings t = ["\"a\\\"  b\"".toList] ∧ strings f = ["\"a\\\" b\"".toList] := by
  let calls (object : Text) : List Call := [.newQuery .null,
    .pattern (.query 0) .addTriple [.text "?a".toList, .text "?p".toList, .text object]]
  refine ⟨?_, ?_⟩
  · let s := empty.run (calls "\"a  b\"@en".toList)
    let t : Text := "SELECT * WHERE \x7b ?a ?p \"a  b\"@en . \x7d".toList
    have hreachable : s.Reachable := ⟨_, rfl⟩
    have hrender : (s.call (.query 0 .render [])).1 = .ok (.text t) :=
      call_render_of_toOption (by decide +kernel) (by decide +kernel)
    have hspans : spans (segments t) = [.quoted "a  b".toList] := by decide +kernel
    have hapart : KeysApart [.quoted "a  b".toList] := by
      unfold KeysApart
      decide +kernel
    have hkeys : Restorable t := KeysApart.restorable (hspans ▸ hapart)
    obtain ⟨r, f, hr, hf, hfree⟩ := hreachable.format_strings hrender hkeys
    obtain ⟨_, inner, -, hinner, rfl⟩ := subqueryWithin_eq_ok hr
    have hnone : (s.query 0).graph.subqueries = [] := by decide +kernel
    rw [hnone] at hinner
    cases hinner
    have hcalls : ∀ e ∈ (s.query 0).clauses, ¬ e.kind.isCall := by decide +kernel
    have hplain : ((s.query 0).graph.pattern []).isPlain := by decide +kernel
    have hobjects : stringParts ((s.query 0).graph.pattern []).objects = ["\"a  b\"".toList] := by
      decide +kernel
    obtain ⟨ht, hformat⟩ := hfree (Subquery.callFree_of_isPlain hcalls hplain)
    have hquotes : ∀ w ∈ stringParts ((s.query 0).graph.pattern []).objects,
        ¬ HasInnerQuote w := by
      rw [hobjects]
      unfold HasInnerQuote
      decide
    exact ⟨s, t, f, hreachable, hrender, hf, ht.trans hobjects, (hformat hquotes).trans hobjects⟩
  · let s := empty.run (calls "\"a\\\"  b\"".toList)
    let t : Text := "SELECT * WHERE \x7b ?a ?p \"a\\\"  b\" . \x7d".toList
    have hrender : (s.call (.query 0 .render [])).1 = .ok (.text t) :=
      call_render_of_toOption (by decide +kernel) (by decide +kernel)
    exact ⟨s, t, formatted t, ⟨_, rfl⟩, hrender, call_format hrender, by decide +kernel,
      by decide +kernel⟩

end SparqlComposer
