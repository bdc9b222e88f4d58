import SparqlComposer.Proofs.Session.Outcome
import SparqlComposer.Proofs.Usage.Mention

/-!
# The history of a ledger

A call tells a ledger what its arguments mention when it succeeds, and nothing when it fails. Only
the declaration of several prefixes, which stops at the first that fails, tells those before it all
the same. At any time the ledger of a query is what it has been told since the query was made.
-/

namespace SparqlComposer

open SparqlComposer.Action

def tripleMentions (a b c : Value) : List Mention :=
  [.term a.reading, .term b.reading, .term c.reading]

namespace Session

/-- What a method of building mentions at a site. A block that is a triple counts as one there. -/
def patternMentions (s : Session) (site : Site) (m : PatternMethod) (args : List Value) :
    List Mention :=
  match m, args with
  | .addTriple, [a, b, c] | .filterExists, [a, b, c] | .filterNotExists, [a, b, c]
  | .optional, [a, b, c] => tripleMentions a b c
  | .continueTriple, args =>
      match continued? (s.graphAt site).current args with
      | some (a, b, c) => tripleMentions a b c
      | none => []
  | .filter, [v] => [.condition v.reading]
  | _, _ => []

/-- The variables that a query projects as it stands. -/
def projection (s : Session) (q : QueryId) : List Text :=
  ((s.query q).projectedVariables (s.queryLedger q)).filterMap Entry.name?

def queryMentions (s : Session) : QueryMethod → List Value → List Mention
  | .bindPrefix, name :: _ => [.declaration name.reading]
  | .select _, args | .describe, args | .groupBy, args =>
      (unpacked args).map fun v ↦ .clause v.reading
  | .having, v :: _ | .orderBy, v :: _ => [.clause v.reading]
  | .subquery, [.object (.query q)] => [.projection (s.projection q)]
  | _, _ => []

/-- The names that are bound when declarations are made one after the other. -/
def boundNames (s : Session) (id : QueryId) : List Value → List Text
  | [] => []
  | v :: vs =>
      match declaration v with
      | .error _ => []
      | .ok (name, iri) =>
          match (bindPrefix id name iri).perform s with
          | (.ok _, s') => name.reading :: s'.boundNames id vs
          | (.error _, _) => []

/-- What a call tells the ledger at its site. -/
def mentions (s : Session) (c : Call) : List Mention :=
  match c with
  | .query id .bindPrefixes [v] =>
      if c.objects.all s.holds then (s.boundNames id v.given).map .declaration else []
  | .pattern site m args => if (s.call c).1.isOk then s.patternMentions site m args else []
  | .graph _ .subquery [.object (.query q)] =>
      if (s.call c).1.isOk then [.projection (s.projection q)] else []
  | .query _ m args => if (s.call c).1.isOk then s.queryMentions m args else []
  | _ => []

/-- What a call tells the ledger of the query that it makes. -/
def firstMentions (s : Session) (c : Call) : List Mention :=
  match c with
  | .newQuery v =>
      if (s.call c).1.isOk then
        (s.withQuery.boundNames s.queries.length v.given).map .declaration
      else []
  | .query id .newSubquery _ =>
      if (s.call c).1.isOk then
        (s.withQuery.boundNames s.queries.length (s.query id).bindings.given).map .declaration
      else []
  | _ => []

/-- Whether names that come up at a site are entered into the ledger of a query. -/
def isOn (s : Session) (q : QueryId) (site : Site) : Bool :=
  decide (q < s.queries.length) && (s.graphAt site).ledger == (s.query q).graph.ledger

end Session

/-- The site at which a call builds or sets something. -/
def Call.site? : Call → Option Site
  | pattern site _ _ => some site
  | graph id _ _ => some (.graph id)
  | query id _ _ => some (.query id)
  | newLedger | newGraph _ | newQuery _ | ledger _ _ _ | setValidation _ => none

namespace Session

/-- What a call tells the ledger of a query. -/
def told (s : Session) (q : QueryId) (c : Call) : List Mention :=
  if q = s.queries.length then s.firstMentions c
  else if c.site?.any (s.isOn q) then s.mentions c
  else []

/-- What calls tell the ledger of a query, one after the other. -/
def history (s : Session) (q : QueryId) : List Call → List Mention
  | [] => []
  | c :: cs => s.told q c ++ (s.call c).2.history q cs

theorem history_append (s : Session) (q : QueryId) (cs cs' : List Call) :
    s.history q (cs ++ cs') = s.history q cs ++ (s.run cs).history q cs' := by
  induction cs generalizing s with
  | nil => rfl
  | cons c cs ih =>
      rw [List.cons_append, history, history, ih, List.append_assoc]
      rfl

/-- The ledger of a query, which is empty until the query is made. -/
def ledgerOf (s : Session) (q : QueryId) : Ledger :=
  if q < s.queries.length then s.queryLedger q else {}

/-- All variables that queries define are names. -/
def Named (s : Session) : Prop :=
  ∀ q, ∃ ns : List Text, (s.ledgerOf q).definedVariables.toList = ns.map Entry.ofName

variable {s s' : Session}

theorem ledgerOf_of_holds {q : QueryId} (hq : s.holds (.query q)) :
    s.ledgerOf q = s.queryLedger q := if_pos (holds_query_iff.mp hq)

theorem filterMap_name?_ofName (ns : List Text) :
    (ns.map Entry.ofName).filterMap Entry.name? = ns := by
  induction ns with
  | nil => rfl
  | cons n ns ih => simpa using ih

theorem Named.projectedVariables_eq (h : s.Named) {q : QueryId} (hq : s.holds (.query q)) :
    (s.query q).projectedVariables (s.queryLedger q) = (s.projection q).map Entry.ofName := by
  obtain ⟨ns, hns⟩ : ∃ ns : List Text,
      (s.query q).projectedVariables (s.queryLedger q) = ns.map Entry.ofName := by
    rw [Query.projectedVariables]
    split
    · rw [← ledgerOf_of_holds hq]
      exact h q
    · exact ⟨_, rfl⟩
  rw [projection, hns, filterMap_name?_ofName]

/-! ## What is entered is what is told -/

theorem patternMentions_of_triple? {site : Site} {m : PatternMethod} {args : List Value}
    {a b c : Value} (h : s.triple? site m args = some (a, b, c)) :
    s.patternMentions site m args = tripleMentions a b c := by
  unfold triple? at h
  split at h
  · obtain ⟨rfl, rfl, rfl⟩ := by simpa using h
    rfl
  · rw [patternMentions, h]
  · exact nomatch h

theorem Builds.ledger_eq {site : Site} {m : PatternMethod} {args : List Value}
    {f : Ledger → Ledger} {g : Graph → Graph} (h : s.Builds site m args f g) (l : Ledger) :
    f l = l.tellAll (s.patternMentions site m args) := by
  cases h with
  | triple hargs hx hy hz =>
      rw [Ledger.noteTriple_eq_tellAll hx hy hz, patternMentions_of_triple? hargs]
      rfl
  | condition he => exact Ledger.use_eq_tell he (by decide)
  | block k _ _ => cases k <;> rfl
  | tripleBlock k hx hy hz =>
      rw [Ledger.noteTriple_eq_tellAll hx hy hz]
      cases k <;> rfl
  | union _ _ _ _ => rfl

theorem Sets.ledger_eq {id : QueryId} {m : QueryMethod} {args : List Value}
    {f : Ledger → Ledger} {g : Query → Query} (h : s.Sets id m args f g) (l : Ledger) :
    f l = l.tellAll (s.queryMentions m args) := by
  cases h with
  | binding hn _ _ =>
      rw [hn.text_eq]
      rfl
  | @head _ _ _ kinds _ _ hm hes _ =>
      have hkinds : Kind.prefixName ∉ kinds := by
        rcases QueryMethod.kinds_of_head? hm with rfl | rfl <;> decide
      rw [Ledger.noteAll_eq_tellAll hes hkinds]
      cases m with
      | select => rfl
      | describe => rfl
      | _ => exact nomatch hm
  | groupBy _ hes => exact Ledger.noteAll_eq_tellAll hes (by decide)
  | having he => exact Ledger.useAssigning_eq_tell he (by decide)
  | orderBy _ he => exact Ledger.useAssigning_eq_tell he (by decide)
  | slice _ => rfl

/-! ## Ledgers of queries after a change -/

/-- A query has the same ledger as before when no other ledger than its own has changed. -/
theorem ledgerOf_congr {q : QueryId} (hlength : s'.queries.length = s.queries.length)
    (hgraph : (s'.query q).graph.ledger = (s.query q).graph.ledger)
    (hledger : q < s.queries.length →
      s'.ledger (s.query q).graph.ledger = s.ledger (s.query q).graph.ledger) :
    s'.ledgerOf q = s.ledgerOf q := by
  rw [ledgerOf, ledgerOf, hlength]
  split
  · rw [queryLedger, hgraph, hledger ‹_›]
    rfl
  · rfl

/-- What is entered at a site is entered into the ledger of the query that the site is on. -/
theorem ledgerOf_entered {site : Site} {f : Ledger → Ledger} {q : QueryId}
    (hlength : s'.queries.length = s.queries.length)
    (hgraph : (s'.query q).graph.ledger = (s.query q).graph.ledger)
    (hself : s'.ledger (s.graphAt site).ledger = f (s.ledger (s.graphAt site).ledger))
    (hother : ∀ l, (s.graphAt site).ledger ≠ l → s'.ledger l = s.ledger l) :
    s'.ledgerOf q = if s.isOn q site then f (s.ledgerOf q) else s.ledgerOf q := by
  by_cases hon : s.isOn q site
  · rw [if_pos hon]
    rw [isOn, Bool.and_eq_true, decide_eq_true_eq, beq_iff_eq] at hon
    obtain ⟨hq, heq⟩ := hon
    rw [ledgerOf, ledgerOf, hlength, if_pos hq, if_pos hq, queryLedger, hgraph, ← heq, hself, heq]
    rfl
  · rw [if_neg hon]
    refine ledgerOf_congr hlength hgraph fun hq ↦ hother _ fun heq ↦ hon ?_
    rw [isOn, Bool.and_eq_true, decide_eq_true_eq, beq_iff_eq]
    exact ⟨hq, heq⟩

theorem ledgerOf_built (h : s.Placed) {site : Site} (hsite : s.holds site.object)
    {f : Ledger → Ledger} {g : Graph → Graph} (hfg : Building s site f g) (q : QueryId) :
    (s.built site f g).ledgerOf q =
      if s.isOn q site then f (s.ledgerOf q) else s.ledgerOf q :=
  ledgerOf_entered (length_built s site f g).2.2 (ledger_graphAt_built hsite hfg (.query q))
    (ledger_built_self (h.ledger_lt site hsite)) fun _ ↦ ledger_built_of_ne

theorem ledgerOf_attached (h : s.Placed) (hnamed : s.Named) {site : Site}
    {inner : QueryId} (hinner : s.Attaches site inner) (hsite : s.holds site.object)
    (q : QueryId) : (s.attached site inner).ledgerOf q =
      if s.isOn q site then (s.ledgerOf q).tellAll [.projection (s.projection inner)]
      else s.ledgerOf q := by
  rw [attached, ledgerOf_built h hsite hinner.building, hnamed.projectedVariables_eq hinner.holds]
  rfl

theorem ledgerOf_settled (h : s.Placed) {id : QueryId} (hid : s.holds (.query id))
    {f : Ledger → Ledger} {g : Query → Query} (hfg : Setting s id f g) (q : QueryId) :
    (s.settled id f g).ledgerOf q =
      if s.isOn q (.query id) then f (s.ledgerOf q) else s.ledgerOf q :=
  ledgerOf_entered length_settled.2.2
    (congrArg Graph.ledger (graphAt_settled hid hfg (.query q)))
    (ledger_settled_self (h.queryLedger_lt (holds_query_iff.mp hid))) fun _ ↦ ledger_settled_of_ne

theorem ledgerOf_withQuery (q : QueryId) : s.withQuery.ledgerOf q = s.ledgerOf q := by
  have hlength : s.withQuery.queries.length = s.queries.length + 1 := by simp [withQuery]
  rw [ledgerOf, ledgerOf, hlength, queryLedger, ledger_withQuery, query_withQuery]
  by_cases hq : q = s.queries.length
  · subst hq
    rw [if_pos (Nat.lt_succ_self _), if_pos rfl, if_neg (Nat.lt_irrefl _), ledger, List.getD,
      List.getElem?_eq_none (Nat.le_refl _)]
    rfl
  · rw [if_neg hq]
    by_cases hlt : q < s.queries.length
    · rw [if_pos hlt, if_pos (Nat.lt_succ_of_lt hlt)]
      rfl
    · rw [if_neg hlt, if_neg fun h ↦ (Nat.lt_succ_iff_lt_or_eq.mp h).elim hlt hq]

/-! ## Calls that do one thing -/

variable {c : Call} {q : QueryId}

theorem firstMentions_of_isSingle (hc : c.isSingle) : s.firstMentions c = [] := by
  cases c with
  | newQuery v => exact nomatch hc
  | query id m args =>
      cases m with
      | newSubquery => exact nomatch hc
      | _ => rfl
  | _ => rfl

/-- A call that makes no query tells its names at its site. -/
theorem told_eq (hfirst : s.firstMentions c = []) :
    s.told q c = if c.site?.any (s.isOn q) then s.mentions c else [] := by
  rw [told]
  split
  · rename_i hq
    have hnone (site : Site) : s.isOn q site = false := by simp [isOn, hq]
    rw [hfirst, funext hnone, Option.any_false, if_neg Bool.false_ne_true]
  · rfl

theorem told_of_isSingle (hc : c.isSingle) :
    s.told q c = if c.site?.any (s.isOn q) then s.mentions c else [] :=
  told_eq (firstMentions_of_isSingle hc)

theorem mentions_of_error (hc : c.isSingle) (h : ¬ (s.call c).1.isOk) : s.mentions c = [] := by
  unfold mentions
  split
  · exact nomatch hc
  · exact if_neg h
  · exact if_neg h
  · exact if_neg h
  · rfl

theorem mentions_query {id : QueryId} {m : QueryMethod} {args : List Value}
    (hm : m ≠ .bindPrefixes) (hok : (s.call (.query id m args)).1.isOk) :
    s.mentions (.query id m args) = s.queryMentions m args := by
  cases m with
  | bindPrefixes => exact absurd rfl hm
  | _ => exact if_pos hok

theorem queryMentions_of_asks {m : QueryMethod} (hm : m.asks) (args : List Value) :
    s.queryMentions m args = [] := by
  cases m <;> first | rfl | exact nomatch hm

/-- When a single call succeeds, what it tells the ledger of a query is entered there. -/
theorem Does.ledgerOf_eq (h : s.Does c s') (hplaced : s.Placed) (hnamed : s.Named)
    (hc : c.isSingle) (hok : (s.call c).1.isOk) :
    s'.ledgerOf q = (s.ledgerOf q).tellAll (s.told q c) := by
  -- What is told is told at the site of the call, if the query has the ledger there.
  have hat {site : Site} (hsite : c.site? = some site) (hledger : s'.ledgerOf q =
        if s.isOn q site then (s.ledgerOf q).tellAll (s.mentions c) else s.ledgerOf q) :
      s'.ledgerOf q = (s.ledgerOf q).tellAll (s.told q c) := by
    rw [told_of_isSingle hc, hsite, Option.any_some, hledger]
    split <;> rfl
  cases h with
  | newLedger =>
      rw [told_of_isSingle hc]
      exact ledgerOf_congr rfl rfl fun _ ↦ ledger_withLedger _
  | newGraph _ =>
      rw [told_of_isSingle hc]
      rfl
  | newSubgraph _ =>
      apply hat rfl
      rw [mentions_query (by decide) hok]
      exact (ite_self _).symm
  | builds hsite h =>
      apply hat rfl
      rw [mentions, if_pos hok, ← h.ledger_eq]
      exact ledgerOf_built hplaced hsite h.building q
  | graphAttaches hid h =>
      apply hat rfl
      rw [mentions, if_pos hok]
      exact ledgerOf_attached hplaced hnamed h hid q
  | queryAttaches hid h =>
      apply hat rfl
      rw [mentions_query (by decide) hok]
      exact ledgerOf_attached hplaced hnamed h hid q
  | sets hid h =>
      apply hat rfl
      rw [mentions_query (by rintro rfl; exact nomatch hc) hok, ← h.ledger_eq]
      exact ledgerOf_settled hplaced hid h.setting q
  | renders id args =>
      apply hat rfl
      exact (ite_self _).symm
  | @asks id m hm args =>
      apply hat rfl
      rw [mentions_query (by rintro rfl; exact nomatch hc) hok, queryMentions_of_asks hm]
      exact (ite_self _).symm
  | validation _ =>
      rw [told_of_isSingle hc]
      rfl

end Session

end SparqlComposer
