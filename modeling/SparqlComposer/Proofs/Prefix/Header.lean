import SparqlComposer.Proofs.Prefix.Binding
import SparqlComposer.Proofs.Reading.Word
import SparqlComposer.Proofs.Session.Render

/-!
# Reading the header back

The declarations in front of a written query are read back one after the other: a name reaches up to
the next colon, which no name holds, and an IRI up to the next closing bracket, which no IRI holds.
So the header tells the bindings of a query, in their order.
-/

namespace SparqlComposer

/-! ## Reading declarations -/

/-- What stands behind a text that stands first. -/
def afterText? : Text → Text → Option Text
  | [], t => some t
  | c :: cs, t => (afterChar? c t).bind (afterText? cs)

theorem afterText?_append (u rest : Text) : afterText? u (u ++ rest) = some rest := by
  induction u with
  | nil => rfl
  | cons c u ih => simpa [afterText?, afterChar?] using ih

theorem length_of_afterText? {u t rest : Text} (h : afterText? u t = some rest) :
    rest.length ≤ t.length := by
  induction u generalizing t with
  | nil =>
      obtain rfl := Option.some.inj h
      exact Nat.le_refl _
  | cons c u ih =>
      obtain ⟨t', ht', h⟩ := Option.bind_eq_some_iff.mp h
      exact Nat.le_trans (ih h) (Nat.le_of_lt (length_of_afterChar? ht'))

/-- The binding that is declared where a text starts, and what stands behind its declaration. -/
def readDeclaration? (t : Text) : Option ((Text × Text) × Text) := do
  let (name, t) ← cutAt? ':' (← afterText? "PREFIX ".toList t)
  let (iri, t) ← cutAt? '>' (← afterText? [' ', '<'] t)
  return ((name, iri), t)

theorem length_of_readDeclaration? {t rest : Text} {e : Text × Text}
    (h : readDeclaration? t = some (e, rest)) : rest.length < t.length := by
  simp only [readDeclaration?, bind, Option.bind_eq_some_iff] at h
  obtain ⟨t₁, h₁, ⟨name, t₂⟩, h₂, t₃, h₃, ⟨iri, t₄⟩, h₄, h⟩ := h
  obtain ⟨-, rfl⟩ := Prod.mk.inj (Option.some.inj h)
  have hcut : t₂.length < t₁.length := cutAt?_length h₂
  have hcut' : t₄.length < t₃.length := cutAt?_length h₄
  have hkeyword := length_of_afterText? h₁
  have hopen : t₃.length ≤ t₂.length := length_of_afterText? h₃
  exact Nat.lt_of_lt_of_le hcut' (Nat.le_trans hopen (Nat.le_of_lt (Nat.lt_of_lt_of_le hcut hkeyword)))

/-- The bindings that are declared where a text starts, one after the other. -/
def readHeader (t : Text) : List (Text × Text) :=
  match _h : readDeclaration? t with
  | some (e, rest) => e :: readHeader (rest.drop 1)
  | none => []
termination_by t.length
decreasing_by
  have := length_of_readDeclaration? _h
  rw [List.length_drop]
  omega

theorem readHeader_of_none {t : Text} (h : readDeclaration? t = none) : readHeader t = [] := by
  rw [readHeader]
  split
  · rename_i hsome
    rw [h] at hsome
    cases hsome
  · rfl

theorem readHeader_of_some {t rest : Text} {e : Text × Text}
    (h : readDeclaration? t = some (e, rest)) : readHeader t = e :: readHeader (rest.drop 1) := by
  rw [readHeader]
  split
  · rename_i hsome
    rw [h] at hsome
    obtain ⟨rfl, rfl⟩ := Prod.mk.inj (Option.some.inj hsome)
    rfl
  · rename_i hnone
    rw [h] at hnone
    cases hnone

theorem readDeclaration?_append {name iri : Text} (hname : ':' ∉ name) (hiri : '>' ∉ iri)
    (rest : Text) :
    readDeclaration? (Query.declaration name iri ++ rest) = some ((name, iri), rest) := by
  have hdeclaration : Query.declaration name iri =
      "PREFIX ".toList ++ name ++ ": <".toList ++ iri ++ ['>'] := rfl
  have hopen : ": <".toList = [':', ' ', '<'] := by decide
  have htext : Query.declaration name iri ++ rest =
      "PREFIX ".toList ++ (name ++ ':' :: ([' ', '<'] ++ (iri ++ '>' :: rest))) := by
    rw [hdeclaration, hopen]
    simp only [List.append_assoc, List.cons_append, List.nil_append]
  rw [htext]
  simp only [readDeclaration?, bind, Option.bind_eq_some_iff]
  exact ⟨_, afterText?_append _ _, _, cutAt?_eq_some_iff.mpr ⟨rfl, hname⟩, _, afterText?_append _ _,
    _, cutAt?_eq_some_iff.mpr ⟨rfl, hiri⟩, rfl⟩

/-- Declarations are read back in their order, whatever stands behind them that is none. -/
theorem readHeader_spaced {es : List (Text × Text)} (hes : ∀ e ∈ es, ':' ∉ e.1 ∧ '>' ∉ e.2)
    {parts : List Text} (hparts : readDeclaration? (spaced parts) = none) :
    readHeader (spaced ((es.map fun e ↦ Query.declaration e.1 e.2) ++ parts)) = es := by
  induction es with
  | nil => exact readHeader_of_none hparts
  | cons e es ih =>
      obtain ⟨hname, hiri⟩ := hes e List.mem_cons_self
      have hrest := ih fun e' he' ↦ hes e' (List.mem_cons_of_mem e he')
      rw [List.map_cons, List.cons_append]
      generalize (es.map fun e ↦ Query.declaration e.1 e.2) ++ parts = texts at hrest ⊢
      cases texts with
      | nil =>
          have hread := readDeclaration?_append hname hiri []
          rw [List.append_nil] at hread
          rw [spaced, joinWith_singleton, readHeader_of_some hread]
          exact congrArg (e :: ·) hrest
      | cons t ts =>
          have hread := readDeclaration?_append hname hiri (' ' :: spaced (t :: ts))
          have htext : spaced (Query.declaration e.1 e.2 :: t :: ts) =
              Query.declaration e.1 e.2 ++ ' ' :: spaced (t :: ts) := by
            simp [spaced, joinWith_cons_cons]
          rw [htext, readHeader_of_some hread]
          exact congrArg (e :: ·) hrest

theorem afterText?_keyword {c : Char} (hc : c ≠ 'P') (t : Text) :
    afterText? "PREFIX ".toList (c :: t) = none := by
  have hfirst : "PREFIX ".toList = 'P' :: "REFIX ".toList := by decide
  rw [hfirst, afterText?, afterChar?, if_neg hc]
  rfl

/-! ## The header of a query -/

theorem not_mem_of_isTermOf_run {k : Kind} {t : Text} (h : IsTermOf [k] t) (hk : k.isToken)
    {inClass : Char → Bool} (hform : ∀ t, k.hasForm t = .ok (afterRun? inClass t == some []))
    {c : Char} (hc : inClass c = false) : c ∉ t := by
  obtain ⟨k', hmem, hadmits⟩ := h
  obtain rfl := List.mem_singleton.mp hmem
  have hread := Kind.hasForm_of_admits hk hadmits
  rw [hform] at hread
  exact Reading.not_mem_of_afterRun? (beq_iff_eq.mp (Except.ok.inj hread)) hc List.not_mem_nil

/-- What is bound holds none of the marks that end a name or an IRI in the header. -/
theorem Query.Admitted.unmarked {q : Query} (h : q.Admitted) :
    ∀ e ∈ q.prefixes.entries, ':' ∉ e.1 ∧ '>' ∉ e.2 := by
  intro e he
  obtain ⟨hname, hiri⟩ := h.bindings e he
  exact ⟨not_mem_of_isTermOf_run hname rfl (fun _ ↦ rfl) (by decide),
    not_mem_of_isTermOf_run hiri rfl (fun _ ↦ rfl) (by decide)⟩

theorem exists_spaced_eq (part : Text) (parts : List Text) :
    ∃ rest, spaced (part :: parts) = part ++ rest := by
  cases parts with
  | nil => exact ⟨[], (List.append_nil part).symm⟩
  | cons next parts => exact ⟨_, List.append_assoc _ _ _⟩

theorem Form.keyword_eq_cons (form : Form) : ∃ c keyword, form.keyword = c :: keyword ∧ c ≠ 'P' := by
  cases form with
  | select => exact ⟨'S', "ELECT".toList, by decide, by decide⟩
  | describe => exact ⟨'D', "ESCRIBE".toList, by decide, by decide⟩

/-- No declaration stands where the parts of a query begin. -/
theorem readDeclaration?_texts (r : Subquery) : readDeclaration? (spaced r.texts) = none := by
  obtain ⟨prefixes, head, body, modifiers⟩ := r
  obtain ⟨rest, hrest⟩ := exists_spaced_eq head.text
    (("WHERE ".toList ++ braced body.text) :: modifiers.texts)
  obtain ⟨rest', hrest'⟩ := exists_spaced_eq head.form.keyword
    ((head.uniqueness.map Uniqueness.keyword).toList ++
      if head.projection.isEmpty then [['*']] else head.projection.map Expression.text)
  have htext : spaced (Subquery.mk prefixes head body modifiers).texts =
      head.form.keyword ++ (rest' ++ rest) := by
    have hhead : head.text = head.form.keyword ++ rest' := hrest'
    rw [Subquery.texts, hrest, hhead, List.append_assoc]
  obtain ⟨c, keyword, hkeyword, hc⟩ := head.form.keyword_eq_cons
  rw [htext, hkeyword, List.cons_append, readDeclaration?, afterText?_keyword hc]
  rfl

namespace Session

variable {s : Session} {q : QueryId}

/-- The header tells the bindings of a query in their order, whether it stands by itself or in front
of the query that is written. -/
theorem Reachable.readHeader_declarations (h : s.Reachable) (q : QueryId) :
    readHeader (spaced (s.query q).declarations) = (s.query q).prefixes.entries ∧
      ∀ t, (s.call (.query q .render [])).1 = .ok (.text t) →
        readHeader t = (s.query q).prefixes.entries := by
  have hunmarked := (h.admitted.query q).unmarked
  constructor
  · have hnone : readDeclaration? (spaced []) = none := rfl
    have hread := readHeader_spaced hunmarked hnone
    rwa [List.append_nil] at hread
  · intro t hrender
    obtain ⟨-, r, -, rfl⟩ := exists_of_call_render hrender
    exact readHeader_spaced hunmarked (readDeclaration?_texts r)

theorem call_boundPrefixes (hq : s.holds (.query q)) :
    (s.call (.query q .boundPrefixes [])).1 = .ok (.bindings (s.query q).prefixes.entries) := by
  rw [call_query_nil hq]
  rfl

/-- The bindings of a query after any calls. A bound name stays bound to its IRI, whatever is called
from then on, and a declaration is refused exactly when it binds the name to another IRI. The bound
names are the declared ones in the order in which they came up, and the ledger defines just these.
A query made from this one starts with the same bindings, and both go on by themselves. The header
is read back as the bindings. -/
theorem bindings_run (calls : List Call) (q : QueryId) (hq : (empty.run calls).holds (.query q)) :
    let s := empty.run calls
    let bindings := (s.query q).prefixes
    let copied := (s.call (.query q .newSubquery [])).2
    (∀ cs n i, bindings.find? n = some i → ((s.run cs).query q).prefixes.find? n = some i) ∧
    (∀ (name iri : Value) (n i : Expression),
      name.Reads [.prefixName] n → iri.asIri.Reads [.iri] i →
      (∀ m bound,
        (s.call (.query q .bindPrefix [name, iri])).1 = .error (.duplicatePrefix m bound) ↔
          m = n.text ∧ bindings.find? n.text = some bound ∧ bound ≠ i.text) ∧
      ((∀ bound, bindings.find? n.text = some bound → bound = i.text) →
        (s.call (.query q .bindPrefix [name, iri])).1 = .ok .itself)) ∧
    ((s.call (.query q .boundPrefixes [])).1 = .ok (.bindings bindings.entries) ∧
      bindings.keys.Nodup ∧
      bindings.keys = ((empty.history q calls).flatMap Mention.declaredPrefixes).eraseDups ∧
      (s.queryLedger q).definedPrefixes.toList = bindings.keys.map Entry.ofName) ∧
    ((s.call (.query q .newSubquery [])).1 = .ok (.made (.query s.queries.length)) ∧
      (copied.query s.queries.length).prefixes = bindings ∧
      ∀ p ∈ [q, s.queries.length], ∀ cs, (∀ c ∈ cs, c.part? ≠ some (p, .prefixes)) →
        ((copied.run cs).query p).prefixes = bindings) ∧
    (readHeader (spaced (s.query q).declarations) = bindings.entries ∧
      ∀ t, (s.call (.query q .render [])).1 = .ok (.text t) →
        readHeader t = bindings.entries) := by
  intro s bindings copied
  have hreachable : s.Reachable := ⟨calls, rfl⟩
  have hplaced := hreachable.placed
  obtain ⟨hmade, hheld, hcopy⟩ := hreachable.call_newSubquery hq
  refine ⟨fun cs n i h ↦ find?_prefixes_run hplaced h cs, fun name iri n i hn hi ↦ ?_,
    ⟨call_boundPrefixes hq, bindings.nodup_keys, keys_prefixes_run calls hq,
      hreachable.inStep q (holds_query_iff.mp hq)⟩,
    ⟨hmade, hcopy, fun p hp cs hcs ↦ ?_⟩, hreachable.readHeader_declarations q⟩
  · obtain ⟨hrefused, haccepted⟩ := call_bindPrefix hq hn hi
    exact ⟨hrefused, fun hfree ↦ congrArg Prod.fst (haccepted hfree)⟩
  · have hchanges := changes_call hplaced (.query q .newSubquery [])
    have hold : (copied.query q).prefixes = bindings :=
      keeps_prefixes_call (P := (· = bindings)) hq rfl fun hpart ↦ by cases hpart
    have hboth : copied.holds (.query p) ∧ (copied.query p).prefixes = bindings := by
      rcases List.mem_cons.mp hp with rfl | hp
      · exact ⟨hchanges.holds_query hq, hold⟩
      · obtain rfl := List.mem_singleton.mp hp
        exact ⟨hheld, hcopy⟩
    rw [prefixes_run_eq (hplaced.changes hchanges) hboth.1 hcs, hboth.2]

/-- A name is declared twice for one IRI and once for another, which is refused, before a collection
brings another name. -/
theorem bindings_twice : ∃ calls, (empty.run calls).holds (.query 0) ∧
    ((empty.run calls).call
      (.query 0 .bindPrefix [.text "ex".toList, .text "http://f/".toList])).1 =
        .error (.duplicatePrefix "ex".toList "http://e/".toList) ∧
    readHeader "PREFIX ex: <http://e/> PREFIX f: <http://f/>".toList =
      [("ex".toList, "http://e/".toList), ("f".toList, "http://f/".toList)] := by
  let again : Call := .query 0 .bindPrefix [.text "ex".toList, .text "http://e/".toList]
  let refused : Call := .query 0 .bindPrefix [.text "ex".toList, .text "http://f/".toList]
  let others : Call := .query 0 .bindPrefixes
    [.mapping [(.text "f".toList, .text "http://f/".toList)]]
  let calls : List Call := [.newQuery .null, again, refused, again, others]
  have hq : (empty.run calls).holds (.query 0) := by decide +kernel
  have hbindings : ((empty.run calls).query 0).prefixes.entries =
      [("ex".toList, "http://e/".toList), ("f".toList, "http://f/".toList)] := by decide +kernel
  have hfind : ((empty.run calls).query 0).prefixes.find? "ex".toList =
      some "http://e/".toList := by decide +kernel
  have hname : IsTermOf [.prefixName] "ex".toList := ⟨.prefixName, List.mem_singleton_self _, rfl⟩
  have hiri : IsTermOf [.iri] "http://f/".toList := ⟨.iri, List.mem_singleton_self _, rfl⟩
  obtain ⟨-, hdeclared, -, -, hheader, -⟩ := bindings_run calls 0 hq
  obtain ⟨hrefused, -⟩ := hdeclared (.text "ex".toList) (.text "http://f/".toList) _ _
    hname.reads_text hiri.reads_text
  have htext : spaced ((empty.run calls).query 0).declarations =
      "PREFIX ex: <http://e/> PREFIX f: <http://f/>".toList := by decide +kernel
  rw [htext, hbindings] at hheader
  refine ⟨calls, hq, (hrefused _ _).mpr ⟨rfl, hfind, ?_⟩, hheader⟩
  decide +kernel

end Session

end SparqlComposer
