import SparqlComposer.Proofs.Reading.Structure
import SparqlComposer.Proofs.Reading.Word
import SparqlComposer.Proofs.Session.Change

/-!
# Reading patterns

A written pattern is read word by word. What is expected next is known at every word: at the start
of a part the word itself tells which part it is, and inside a triple the words follow each other in
fixed order. An opening brace puts the graph that is being built aside, and the closing one adds the
inner pattern to it. Each piece of a written pattern is read from any state in which it may start.
-/

namespace SparqlComposer

open SparqlComposer.Action

namespace Reading

/-- What becomes of a pattern when its brace is closed. -/
inductive Role where
  | block (k : Embedding)
  /-- The pattern starts a union. -/
  | union
  /-- The pattern goes on with the last union. -/
  | member

def Role.add (p : Pattern) : Role → Graph → Graph
  | block k, g => k.add p g
  | union, g => g.addUnion [p]
  | member, g => { g with unions := g.unions.dropLast ++ [g.unions.getLastD [] ++ [p]] }

/-- What is expected next. -/
inductive Place where
  | part
  | filter
  | negated
  | brace (r : Role)
  | predicate (subject : Text)
  | object (subject predicate : Text)
  | joint (subject predicate : Text)

/-- The graph that is being built, and those that wait for it. -/
structure State where
  graph : Graph
  outer : List (Graph × Role)
  place : Place

namespace State

def start : State := ⟨{ ledger := 0 }, [], .part⟩

def expecting (st : State) (place : Place) : State := { st with place }

def opened (st : State) (r : Role) : State :=
  ⟨{ ledger := 0 }, (st.graph, r) :: st.outer, .part⟩

def closed : State → Option State
  | ⟨_, [], _⟩ => none
  | ⟨g, (g', r) :: outer, _⟩ => some ⟨r.add (g.pattern []) g', outer, .part⟩

end State

end Reading

def Graph.addTriples (g : Graph) (triples : List (Text × Text × Text)) : Graph :=
  { g with triples := g.triples.addAll triples }

namespace Reading

/-- The words that start a part, or end the pattern. A pattern without parts is one empty word. -/
def partKeywords : List Text :=
  [[], "OPTIONAL".toList, "FILTER".toList, "UNION".toList, ['{'], ['}']]

/-- What the first word of a part says; a word of no other meaning is a subject. -/
def partStep (st : State) (w : Text) : Option State :=
  if w = [] then some st
  else if w = "OPTIONAL".toList then some (st.expecting (.brace (.block .optional)))
  else if w = "FILTER".toList then some (st.expecting .filter)
  else if w = "UNION".toList then some (st.expecting (.brace .member))
  else if w = ['{'] then some (st.opened .union)
  else if w = ['}'] then st.closed
  else some (st.expecting (.predicate w))

def step (st : State) (w : Text) : Option State :=
  match st.place with
  | .part => partStep st w
  | .filter =>
      if w = "EXISTS".toList then some (st.expecting (.brace (.block .present)))
      else if w = "NOT".toList then some (st.expecting .negated)
      else none
  | .negated =>
      if w = "EXISTS".toList then some (st.expecting (.brace (.block .absent))) else none
  | .brace r => if w = ['{'] then some (st.opened r) else none
  | .predicate s => some (st.expecting (.object s w))
  | .object s p => some ⟨st.graph.addTriples [(s, p, w)], st.outer, .joint s p⟩
  | .joint s p =>
      if w = [','] then some (st.expecting (.object s p))
      else if w = [';'] then some (st.expecting (.predicate s))
      else if w = ['.'] then some (st.expecting .part)
      else none

def run (st : State) (ws : List Text) : Option State := ws.foldlM step st

end Reading

/-- The pattern that a text is written for. -/
def Pattern.ofText? (t : Text) : Option Pattern :=
  match Reading.run .start (Reading.cut t) with
  | some ⟨g, [], .part⟩ => some (g.pattern [])
  | _ => none

namespace Reading

/-! ## Reading a piece -/

/-- A piece takes one state to another: it is made of whole words that do. -/
def Reads (t : Text) (st st' : State) : Prop :=
  ∃ ws, ws ≠ [] ∧ (∀ w ∈ ws, isWhole .start w) ∧ t = spaced ws ∧ run st ws = some st'

variable {t t' w : Text} {st st' st'' : State}

theorem Reads.word (hw : isWhole .start w) (h : step st w = some st') : Reads w st st' := by
  refine ⟨[w], List.cons_ne_nil w [], ?_, rfl, ?_⟩
  · intro v hv
    rw [List.mem_singleton.mp hv]
    exact hw
  · simp [run, h]

theorem spaced_append {ws ws' : List Text} (hne : ws ≠ []) (hne' : ws' ≠ []) :
    spaced (ws ++ ws') = spaced ws ++ ' ' :: spaced ws' := by
  induction ws with
  | nil => exact absurd rfl hne
  | cons w ws ih =>
      cases ws with
      | nil =>
          obtain ⟨w', ws', rfl⟩ := List.exists_cons_of_ne_nil hne'
          simp [spaced, joinWith_cons_cons]
      | cons v ws =>
          have hrest := ih (List.cons_ne_nil v ws)
          simp only [spaced, List.cons_append, joinWith_cons_cons] at hrest ⊢
          simp [hrest]

theorem Reads.append (h : Reads t st st') (h' : Reads t' st' st'') :
    Reads (t ++ ' ' :: t') st st'' := by
  obtain ⟨ws, hne, hws, rfl, hrun⟩ := h
  obtain ⟨ws', hne', hws', rfl, hrun'⟩ := h'
  refine ⟨ws ++ ws', List.append_ne_nil_of_left_ne_nil hne ws', ?_, ?_, ?_⟩
  · intro w hw
    exact (List.mem_append.mp hw).elim (hws w) (hws' w)
  · exact (spaced_append hne hne').symm
  · rw [run, List.foldlM_append]
    change (run st ws).bind (run · ws') = some st''
    rw [hrun]
    exact hrun'

/-- A word and what follows it. -/
theorem Reads.cons (hw : isWhole .start w) (h : step st w = some st') (h' : Reads t st' st'') :
    Reads (w ++ ' ' :: t) st st'' :=
  (Reads.word hw h).append h'

theorem ofText?_of_reads {g : Graph} (h : Reads t .start ⟨g, [], .part⟩) :
    Pattern.ofText? t = some (g.pattern []) := by
  obtain ⟨ws, hne, hws, rfl, hrun⟩ := h
  rw [Pattern.ofText?, cut_spaced hne hws, hrun]

/-! ## Triples -/

section Triples

variable {g : Graph} {outer : List (Graph × Role)} {s p : Text}

theorem isWhole_of_isTermOf {kinds : List Kind}
    (hkinds : kinds ⊆ [Kind.native, .var, .prefixedIri, .path]) (h : IsTermOf kinds t) :
    isWhole .start t := by
  obtain ⟨k, hk, hadmits⟩ := h
  exact isWhole_of_admits (hkinds hk) hadmits

theorem reads_objects {os : List Text} (h : ReadableObjects os) :
    Reads (joinWith " , ".toList os) ⟨g, outer, .object s p⟩
      ⟨g.addTriples (os.map fun o ↦ (s, p, o)), outer, .joint s p⟩ := by
  obtain ⟨hne, hos⟩ := h
  induction os generalizing g with
  | nil => exact absurd rfl hne
  | cons o os ih =>
      have ho : isWhole .start o := isWhole_of_isTermOf (by decide) (hos o List.mem_cons_self)
      cases os with
      | nil => exact .word ho rfl
      | cons o' os =>
          have hrest := ih (g := g.addTriples [(s, p, o)]) (List.cons_ne_nil o' os)
            fun o ho ↦ hos o (List.mem_cons_of_mem _ ho)
          have htext : joinWith " , ".toList (o :: o' :: os) =
              o ++ ' ' :: ([','] ++ ' ' :: joinWith " , ".toList (o' :: os)) := by
            simp [joinWith_cons_cons]
          rw [htext]
          exact .cons ho rfl (.cons (by decide) rfl hrest)

theorem addTriples_addTriples (triples triples' : List (Text × Text × Text)) :
    (g.addTriples triples).addTriples triples' = g.addTriples (triples ++ triples') := by
  rw [Graph.addTriples, Graph.addTriples, Graph.addTriples, Triples.addAll_append]

theorem reads_predicates {es : List (Text × List Text)} (hne : es ≠ [])
    (h : ∀ e ∈ es, IsTermOf predicateKinds e.1 ∧ ReadableObjects e.2) : ∃ p,
    Reads (joinWith " ; ".toList (es.map fun (p, os) ↦ Triples.predicateText p os))
      ⟨g, outer, .predicate s⟩
      ⟨g.addTriples (es.flatMap fun (p, os) ↦ os.map fun o ↦ (s, p, o)), outer, .joint s p⟩ := by
  induction es generalizing g with
  | nil => exact absurd rfl hne
  | cons e es ih =>
      obtain ⟨p, os⟩ := e
      obtain ⟨hp, hos⟩ := h (p, os) List.mem_cons_self
      have hone : Reads (Triples.predicateText p os) ⟨g, outer, .predicate s⟩
          ⟨g.addTriples (os.map fun o ↦ (s, p, o)), outer, .joint s p⟩ :=
        .cons (isWhole_of_isTermOf (by decide) hp) rfl (reads_objects hos)
      cases es with
      | nil =>
          refine ⟨p, ?_⟩
          rw [List.flatMap_cons, List.flatMap_nil, List.append_nil]
          exact hone
      | cons e' es =>
          obtain ⟨p', hrest⟩ := ih (g := g.addTriples (os.map fun o ↦ (s, p, o)))
            (List.cons_ne_nil e' es) fun e he ↦ h e (List.mem_cons_of_mem _ he)
          have htext : joinWith " ; ".toList
              (((p, os) :: e' :: es).map fun (p, os) ↦ Triples.predicateText p os) =
              Triples.predicateText p os ++ ' ' :: ([';'] ++ ' ' :: joinWith " ; ".toList
                ((e' :: es).map fun (p, os) ↦ Triples.predicateText p os)) := by
            simp [joinWith_cons_cons]
          refine ⟨p', ?_⟩
          rw [htext, List.flatMap_cons, ← addTriples_addTriples]
          exact hone.append (.cons (by decide) rfl hrest)

theorem not_mem_partKeywords (h : IsTermOf subjectKinds w) : w ∉ partKeywords := by
  intro hw
  obtain ⟨k, hk, hadmits⟩ := h
  have hnone : ∀ w ∈ partKeywords, ∀ k ∈ subjectKinds, (k.admits w).toOption = some false := by
    decide
  have hfalse := hnone w hw k hk
  rw [hadmits] at hfalse
  exact nomatch hfalse

/-- No subject is taken for the start of another part. -/
theorem partStep_subject (h : IsTermOf subjectKinds w) :
    partStep st w = some (st.expecting (.predicate w)) := by
  have hnot := not_mem_partKeywords h
  simp only [partKeywords, List.mem_cons, List.not_mem_nil, or_false, not_or] at hnot
  simp only [partStep, hnot, if_false]

theorem reads_subject {ps : OrderedMap Text (List Text)} (hs : IsTermOf subjectKinds s)
    (hps : ReadablePredicates ps) :
    Reads (Triples.subjectText s ps) ⟨g, outer, .part⟩
      ⟨g.addTriples (Triples.ofSubject s ps), outer, .part⟩ := by
  obtain ⟨p, hpredicates⟩ := @reads_predicates g outer s ps.entries hps.1 hps.2
  have htext : Triples.subjectText s ps = s ++ ' ' :: (joinWith " ; ".toList
      (ps.entries.map fun (p, os) ↦ Triples.predicateText p os) ++ ' ' :: ['.']) := by
    simp [Triples.subjectText]
  rw [htext]
  refine .cons (isWhole_of_isTermOf (by decide) hs) (partStep_subject hs) ?_
  exact hpredicates.append (.word (by decide) rfl)

end Triples

/-! ## Blocks -/

/-- A text is read as a pattern, whatever waits for it. -/
def ReadsPattern (t : Text) (p : Pattern) : Prop :=
  ∃ g, g.pattern [] = p ∧ ∀ outer, Reads t ⟨{ ledger := 0 }, outer, .part⟩ ⟨g, outer, .part⟩

/-- A text is read as a part, by which a graph becomes another one. -/
def ReadsPart (t : Text) (f : Graph → Graph) : Prop :=
  ∀ g outer, Reads t ⟨g, outer, .part⟩ ⟨f g, outer, .part⟩

variable {p : Pattern}

theorem reads_braced (h : ReadsPattern t p) {r : Role}
    (hopen : step st ['{'] = some (st.opened r)) :
    Reads (braced t) st ⟨r.add p st.graph, st.outer, .part⟩ := by
  obtain ⟨g, rfl, hg⟩ := h
  have htext : braced t = ['{'] ++ ' ' :: (t ++ ' ' :: ['}']) := by simp [braced]
  rw [htext]
  exact .cons (by decide) hopen ((hg _).append (.word (by decide) rfl))

theorem reads_block (h : ReadsPattern t p) (r : Role) (g : Graph) (outer : List (Graph × Role)) :
    Reads (braced t) ⟨g, outer, .brace r⟩ ⟨r.add p g, outer, .part⟩ :=
  reads_braced h rfl

theorem readsPart_optional (h : ReadsPattern t p) :
    ReadsPart ("OPTIONAL ".toList ++ braced t) (·.addOptional p) := by
  intro g outer
  have hblock := reads_block h (.block .optional) g outer
  change Reads ("OPTIONAL".toList ++ ' ' :: braced t) _ _
  exact .cons (by decide) rfl hblock

theorem readsPart_present (h : ReadsPattern t p) :
    ReadsPart ("FILTER EXISTS ".toList ++ braced t) (·.addConstraint (.present p)) := by
  intro g outer
  have hblock := reads_block h (.block .present) g outer
  change Reads ("FILTER".toList ++ ' ' :: ("EXISTS".toList ++ ' ' :: braced t)) _ _
  exact .cons (by decide) rfl (.cons (by decide) rfl hblock)

theorem readsPart_absent (h : ReadsPattern t p) :
    ReadsPart ("FILTER NOT EXISTS ".toList ++ braced t) (·.addConstraint (.absent p)) := by
  intro g outer
  have hblock := reads_block h (.block .absent) g outer
  change Reads ("FILTER".toList ++ ' ' :: ("NOT".toList ++ ' ' ::
    ("EXISTS".toList ++ ' ' :: braced t))) _ _
  exact .cons (by decide) rfl (.cons (by decide) rfl (.cons (by decide) rfl hblock))

theorem add_member (g : Graph) (members : List Pattern) :
    Role.member.add p (g.addUnion members) = g.addUnion (members ++ [p]) := by
  simp [Role.add, Graph.addUnion]

/-- Further members come behind those that have been read. -/
theorem reads_members {ps : List Pattern} (h : ∀ p ∈ ps, ReadsPattern p.text p.erased) {g : Graph}
    {outer : List (Graph × Role)} {members : List Pattern}
    (hfirst : Reads t st ⟨g.addUnion members, outer, .part⟩) :
    Reads (joinWith " UNION ".toList (t :: ps.map fun p ↦ braced p.text)) st
      ⟨g.addUnion (members ++ ps.map Pattern.erased), outer, .part⟩ := by
  induction ps generalizing t members with
  | nil =>
      rw [List.map_nil, List.map_nil, List.append_nil]
      exact hfirst
  | cons p ps ih =>
      have hmember := reads_block (h p List.mem_cons_self) .member (g.addUnion members) outer
      rw [add_member] at hmember
      have hjoined : Reads ("UNION".toList ++ ' ' :: braced p.text)
          ⟨g.addUnion members, outer, .part⟩ ⟨g.addUnion (members ++ [p.erased]), outer, .part⟩ :=
        .cons (by decide) rfl hmember
      have htext : joinWith " UNION ".toList (t :: (p :: ps).map fun p ↦ braced p.text) =
          joinWith " UNION ".toList ((t ++ ' ' :: ("UNION".toList ++ ' ' :: braced p.text)) ::
            ps.map fun p ↦ braced p.text) := by
        cases ps <;> simp [joinWith_cons_cons]
      have hmembers : members ++ (p :: ps).map Pattern.erased =
          (members ++ [p.erased]) ++ ps.map Pattern.erased := by simp
      rw [htext, hmembers]
      exact ih (fun p hp ↦ h p (List.mem_cons_of_mem _ hp)) (hfirst.append hjoined)

theorem readsPart_union {ps : List Pattern} (hne : ps ≠ [])
    (h : ∀ p ∈ ps, ReadsPattern p.text p.erased) :
    ReadsPart (joinWith " UNION ".toList (ps.map fun p ↦ braced p.text))
      (·.addUnion (ps.map Pattern.erased)) := by
  intro g outer
  obtain ⟨p, ps, rfl⟩ := List.exists_cons_of_ne_nil hne
  have hopen : step ⟨g, outer, .part⟩ ['{'] = some (State.opened ⟨g, outer, .part⟩ .union) := rfl
  have hfirst := reads_braced (h p List.mem_cons_self) hopen
  exact reads_members (fun p hp ↦ h p (List.mem_cons_of_mem _ hp)) hfirst

/-! ## Parts -/

theorem readsPart_spaced {ts : List Text} {fs : List (Graph → Graph)}
    (h : List.Forall₂ ReadsPart ts fs) :
    ReadsPart (spaced ts) fun g ↦ fs.foldl (fun g f ↦ f g) g := by
  intro g outer
  induction h generalizing g with
  | nil => exact .word (by decide) rfl
  | @cons t f ts fs hone hrest ih =>
      cases hrest with
      | nil => exact hone g outer
      | cons _ _ =>
          have htext : ∀ t' ts', spaced (t :: t' :: ts') = t ++ ' ' :: spaced (t' :: ts') := by
            intro t' ts'
            simp [spaced, joinWith_cons_cons]
          rw [htext]
          exact (hone g outer).append (ih (f g))

end Reading

end SparqlComposer
