import SparqlComposer.Proofs.Capture.Iri
import SparqlComposer.Proofs.Usage.Nested

/-!
# Describing IRIs

A query may describe a bare IRI. What the captures find in it is entered into the ledger, so the
query can be rendered as before just when all of that is defined.
-/

namespace SparqlComposer

open SparqlComposer.Action

variable {t : Text} {e : Expression}

/-! ## What is described -/

theorem Kind.exists_admits_var (t : Text) : ∃ b, Kind.var.admits t = .ok b := by
  rw [admits]
  split
  · exact ⟨_, rfl⟩
  · split
    · exact ⟨_, rfl⟩
    · exact ⟨_, rfl⟩

/-- An IRI may be described, even where it looks like a variable. -/
theorem exists_reads_described (h : Kind.iri.admits t = .ok true) :
    ∃ e, (Value.text t).Reads describedKinds e := by
  obtain ⟨b, hvar⟩ := Kind.exists_admits_var t
  have horder : Kind.inOrder describedKinds = [.var, .iri, .prefixedIri, .assignment] := by decide
  cases b with
  | true =>
      refine ⟨_, t, rfl, Except.bind_eq_ok_iff.mpr ⟨some .var, ?_, rfl⟩⟩
      rw [horder, Kind.firstAdmitting?, hvar]
      rfl
  | false =>
      refine ⟨_, t, rfl, Except.bind_eq_ok_iff.mpr ⟨some .iri, ?_, rfl⟩⟩
      rw [horder, Kind.firstAdmitting?, hvar, Kind.firstAdmitting?, h]
      rfl

namespace Session

variable {s : Session} {q : QueryId}

/-- The session in which a query describes an expression. -/
def described (s : Session) (q : QueryId) (e : Expression) : Session :=
  s.settled q (noteAll [e]) fun query ↦ { query with head := some ⟨.describe, none, [e]⟩ }

theorem setting_described (hnone : (s.query q).head = none)
    (he : (Value.text t).Reads describedKinds e) :
    Setting s q (noteAll [e]) fun query ↦ { query with head := some ⟨.describe, none, [e]⟩ } :=
  .head .describe none (.inr rfl) (fun _ he' ↦ List.mem_singleton.mp he' ▸ he.isOf) hnone

section Described

variable (hq : s.holds (.query q)) (hnone : (s.query q).head = none)
  (he : (Value.text t).Reads describedKinds e)

include hq hnone he

theorem call_describe : s.call (.query q .describe [.text t]) = (.ok .itself, s.described q e) := by
  have hread : (expressions describedKinds (unpacked [.text t])).perform s = (.ok [e], s) :=
    perform_bind_ok (perform_expression_of_reads he)
  have hset : (setHead q .describe none describedKinds [.text t]).perform s =
      (.ok (), s.described q e) := by
    rw [setHead, perform_bind_ok (perform_get s), hnone]
    exact perform_bind_ok hread
  rw [call_query_text hq]
  exact perform_bind_ok hset

theorem Reachable.described (h : s.Reachable) : (s.described q e).Reachable := by
  have hrun := h.run [.query q .describe [.text t]]
  rwa [Session.run, List.foldl_cons, call_describe hq hnone he] at hrun

/-- A query that describes what assigns nothing is written just when it was written before and all
that is mentioned is defined. -/
theorem Reachable.rendering_described (h : s.Reachable) (hassigns : e.assignments = ∅) :
    (∃ text, (s.described q e).rendering true q = .ok (.text text)) ↔
      (∃ text, s.rendering true q = .ok (.text text)) ∧
        (∀ n ∈ e.references, .text n ∈ (s.ledgerOf q).definedVariables) ∧
        ∀ n ∈ e.prefixes, .text n ∈ (s.ledgerOf q).definedPrefixes := by
  have hsetting := setting_described hnone he
  have hheld {u : QueryId} (hu : s.holds (.query u)) : (s.described q e).holds (.query u) :=
    Change.holds_query (.setting hq hsetting) hu
  have hledger {u : QueryId} (hu : s.holds (.query u)) : (s.described q e).queryLedger u =
      if u = q then (s.queryLedger u).useAssigning e else s.queryLedger u := by
    rw [← ledgerOf_of_holds (hheld hu), ← ledgerOf_of_holds hu, Session.described,
      ledgerOf_settled h.placed hq hsetting]
    simp only [isOn_query_iff h.placed hq]
    rfl
  have hinside {u : QueryId} (hu : u = q ∨ Relation.TransGen s.Attached u q) :
      s.holds (.query u) := by
    rcases hu with rfl | hu
    · exact hq
    · exact h.placed.holds_of_transGen hu
  have hattached : (s.described q e).Attached = s.Attached := attached_settled hq hsetting
  obtain ⟨-, -, hbefore, -⟩ := h.render_nested hq
  obtain ⟨-, -, hafter, -⟩ := (h.described hq hnone he).render_nested (hheld hq)
  simp only [← Ledger.validate_eq_ok_iff] at hbefore hafter
  rw [hbefore, hafter, hattached, ledgerOf_of_holds hq]
  constructor
  · intro hvalid
    have hself := hvalid q (.inl rfl)
    rw [hledger hq, if_pos rfl, Ledger.validate_useAssigning hassigns] at hself
    refine ⟨fun u hu ↦ ?_, hself.2⟩
    have hinner := hvalid u hu
    rw [hledger (hinside hu)] at hinner
    split at hinner
    · rename_i heq
      exact heq ▸ hself.1
    · exact hinner
  · rintro ⟨hvalid, hnames⟩ u hu
    rw [hledger (hinside hu)]
    split
    · rename_i heq
      subst heq
      exact (Ledger.validate_useAssigning hassigns).mpr ⟨hvalid u hu, hnames⟩
    · exact hvalid u hu

end Described

end Session

/-- A bare IRI assigns nothing, and it mentions what is captured behind its scheme: every variable
there, and prefixes if a prefixed name is there. A query that describes it is written just when it
was written before and defines all of these. -/
theorem classify_bareIri (objectText : Ref → Except Error Text) {scheme rest : Text}
    (ht : t = scheme ++ "://".toList ++ rest) (hscheme : ∀ c ∈ scheme, ¬ isSigil c ∧ c ≠ ':')
    (h : Kind.iri.admits t = .ok true) :
    ∃ e, classify objectText [.iri] (.text t) = .ok e ∧ e.assignments = ∅ ∧
      e.references = variablesOf rest ∧ e.prefixes = prefixesOf rest ∧
      (∀ name, name ∈ e.references ↔ ∃ before, VariableAt rest before name) ∧
      (∀ name ∈ e.prefixes, ∃ before, PrefixAt rest before name) ∧
      (∀ before name, PrefixAt rest before name → ∃ name', name' ∈ e.prefixes) ∧
      ∀ s : Session, s.Reachable → ∀ q, s.holds (.query q) → (s.query q).head = none →
        ∃ s', s.call (.query q .describe [.text t]) = (.ok .itself, s') ∧
          ((∃ text, s'.rendering true q = .ok (.text text)) ↔
            (∃ text, s.rendering true q = .ok (.text text)) ∧
              (∀ n ∈ e.references, .text n ∈ (s.ledgerOf q).definedVariables) ∧
              ∀ n ∈ e.prefixes, .text n ∈ (s.ledgerOf q).definedPrefixes) := by
  have hbare : Bare (scheme ++ "://".toList ++ rest) := ht ▸ Kind.bare_of_admits h
  -- Whatever kind the IRI is read as, it mentions the same.
  have hmentions {kinds : List Kind} {e : Expression} (he : (Value.text t).Reads kinds e)
      (hkinds : Kind.prefixName ∉ kinds) : e.assignments = ∅ ∧
        e.references = variablesOf rest ∧ e.prefixes = prefixesOf rest := by
    obtain ⟨hreferences, hprefixes, hassignments⟩ := he.names_eq hkinds
    obtain ⟨hvariables, hnames⟩ := hbare.names_behind_scheme hscheme
    have hread : (Value.text t).reading = scheme ++ "://".toList ++ rest := ht
    rw [hread] at hreferences hprefixes hassignments
    exact ⟨hassignments.trans hbare.assignmentsOf_eq, hreferences.trans hvariables,
      hprefixes.trans hnames⟩
  have hreads : (Value.text t).Reads [.iri] (.ofKind .iri t) :=
    Value.reads_singleton_iff.mpr ⟨t, rfl, h, rfl⟩
  obtain ⟨hassignments, hreferences, hprefixes⟩ := hmentions hreads (by decide)
  refine ⟨_, classify_eq_ok_iff.mpr hreads, hassignments, hreferences, hprefixes, fun name ↦ ?_,
    fun name hname ↦ ?_, fun before name hat ↦ ?_, fun s hs q hq hhead ↦ ?_⟩
  · rw [hreferences, hbare.right.mem_variablesOf_iff]
  · exact hbare.right.exists_prefixAt (hprefixes ▸ hname)
  · rw [hprefixes]
    exact hbare.right.exists_mem_prefixesOf hat
  · obtain ⟨e, he⟩ := exists_reads_described h
    obtain ⟨hnone, hsame, hsame'⟩ := hmentions he (by decide)
    refine ⟨s.described q e, Session.call_describe hq hhead he, ?_⟩
    rw [hs.rendering_described hq hhead he hnone, hsame, hsame', hreferences, hprefixes]

/-- An IRI with a port and a query part is described by a query that is refused for it then, and one
without them by a query that is written. -/
theorem describe_port : ∃ t : Text, t = "http://example.com:8080/?x".toList ∧
    Kind.iri.admits t = .ok true ∧ (variablesOf t).toList = ["x".toList] ∧
    (prefixesOf t).toList = ["com".toList] ∧
    (∃ s', (Session.empty.run [.newQuery .null]).call (.query 0 .describe [.text t]) =
      (.ok .itself, s') ∧ ¬ ∃ text, s'.rendering true 0 = .ok (.text text)) ∧
    ∃ s', (Session.empty.run [.newQuery .null]).call
      (.query 0 .describe [.text "http://example.com/x".toList]) = (.ok .itself, s') ∧
        ∃ text, s'.rendering true 0 = .ok (.text text) := by
  let s := Session.empty.run [.newQuery .null]
  have hs : s.Reachable := ⟨_, rfl⟩
  have hheld : s.holds (.query 0) := by decide +kernel
  have hhead : (s.query 0).head = none := by
    have hhead : (s.query 0).head.isNone := by decide +kernel
    exact Option.isNone_iff_eq_none.mp hhead
  have hscheme : ∀ c ∈ "http".toList, ¬ isSigil c ∧ c ≠ ':' :=
    List.all_iff_forall_prop.mp (by decide)
  have hbefore : ∃ text, s.rendering true 0 = .ok (.text text) :=
    ⟨_, Session.call_render_of_toOption (s := s.withValidation true) hheld
      (t := "SELECT * WHERE \x7b  \x7d".toList) (by decide +kernel)⟩
  refine ⟨_, rfl, by decide +kernel, by decide +kernel, by decide +kernel, ?_, ?_⟩
  · have ht : "http://example.com:8080/?x".toList =
        "http".toList ++ "://".toList ++ "example.com:8080/?x".toList := rfl
    obtain ⟨e, -, -, hreferences, -, -, -, -, hdescribes⟩ :=
      classify_bareIri (fun _ ↦ .ok []) ht hscheme (by decide +kernel)
    obtain ⟨s', hcall, hwritten⟩ := hdescribes s hs 0 hheld hhead
    refine ⟨s', hcall, fun hrendered ↦ ?_⟩
    have hx : "x".toList ∈ e.references := by
      rw [hreferences]
      decide +kernel
    have hundefined : .text "x".toList ∉ (s.ledgerOf 0).definedVariables := by decide +kernel
    exact hundefined ((hwritten.mp hrendered).2.1 _ hx)
  · have ht : "http://example.com/x".toList =
        "http".toList ++ "://".toList ++ "example.com/x".toList := rfl
    obtain ⟨e, -, -, hreferences, hprefixes, -, -, -, hdescribes⟩ :=
      classify_bareIri (fun _ ↦ .ok []) ht hscheme (by decide +kernel)
    obtain ⟨s', hcall, hwritten⟩ := hdescribes s hs 0 hheld hhead
    have hnone : (variablesOf "example.com/x".toList).toList = [] ∧
        (prefixesOf "example.com/x".toList).toList = [] := by decide +kernel
    simp only [← Names.mem_toList, hreferences, hprefixes, hnone] at hwritten
    exact ⟨s', hcall, hwritten.mpr ⟨hbefore, by simp, by simp⟩⟩

end SparqlComposer
