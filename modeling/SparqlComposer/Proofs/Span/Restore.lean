import Mathlib.Data.List.Basic
import SparqlComposer.Proofs.OrderedMap
import SparqlComposer.Proofs.Span.Cut
import SparqlComposer.Proofs.Text.Replace
import SparqlComposer.Text.Word

/-!
# Restoring spans

Restoring writes the spans back one after the other, into a text in which some spans are restored
already and others still hidden. A key is found there at the places of its span and nowhere else:
it cannot begin at a plain bracket, which nothing closes, nor in another key, nor in a restored
span, which would have to contain it. So all spans come back if none contains the key of one that is
restored after it.
-/

namespace SparqlComposer

/-! ## Keys -/

theorem Md5.isWord_of_mem_ofText {t : Text} {c : Char} (h : c ∈ Md5.ofText t) : isWord c := by
  have hdigit : ∀ n < 16, isWord (Nat.digitChar n) := by decide
  obtain ⟨byte, -, hc⟩ := List.mem_flatMap.mp h
  have hlt : byte.toNat < 256 := byte.toNat_lt
  simp only [hexByte, List.mem_cons, List.not_mem_nil, or_false] at hc
  rcases hc with rfl | rfl
  · exact hdigit _ (by omega)
  · exact hdigit _ (by omega)

theorem Span.key_ne_nil (s : Span) : s.key ≠ [] := List.cons_ne_nil _ _

theorem Span.length_key (s : Span) : s.key.length = 34 := by
  simp [Span.key, Md5.ofText, Md5.length_hexDigest]

/-- No character of a key but the last one ends a span. -/
theorem Span.not_prefix_digits {s : Span} {w : Text} {d : Char} (hd : d = '"' ∨ d = '>') :
    ¬ w ++ [d] <+: '<' :: Md5.ofText s.text := by
  intro h
  have hmem : d ∈ '<' :: Md5.ofText s.text :=
    h.subset (List.mem_append_right _ (List.mem_singleton_self d))
  rcases List.mem_cons.mp hmem with rfl | hmem
  · revert hd
    decide
  · have hword := Md5.isWord_of_mem_ofText hmem
    revert hword
    rcases hd with rfl | rfl <;> decide

/-- A key that begins in a piece which ends like a span lies in the piece. -/
theorem Span.key_prefix {s : Span} {w rest : Text} {d : Char} (hd : d = '"' ∨ d = '>')
    (h : s.key <+: w ++ [d] ++ rest) : s.key <+: w ++ [d] := by
  rcases List.prefix_or_prefix_of_prefix h (List.prefix_append (w ++ [d]) rest) with h | h
  · exact h
  have hdigits : w ++ [d] <+: ('<' :: Md5.ofText s.text) ++ ['>'] := h
  rcases List.prefix_concat_iff.mp hdigits with heq | h
  · exact heq ▸ List.prefix_rfl
  · exact absurd h (Span.not_prefix_digits hd)

/-- The text and the key of a span end in a character that ends a span. -/
theorem Span.exists_text_eq (s : Span) : ∃ w d, (d = '"' ∨ d = '>') ∧ s.text = w ++ [d] := by
  cases s with
  | quoted body => exact ⟨'"' :: body, '"', .inl rfl, rfl⟩
  | bracketed body => exact ⟨'<' :: body, '>', .inr rfl, rfl⟩

/-- A key that begins in such a piece is contained in it. -/
theorem Span.key_infix {s : Span} {piece v rest : Text} {w : Text} {d : Char}
    (hd : d = '"' ∨ d = '>') (hpiece : piece = w ++ [d]) (hv : v <:+ piece) (hne : v ≠ [])
    (h : s.key <+: v ++ rest) : ∃ u, s.key <+: u ∧ u <:+ piece := by
  rw [hpiece] at hv
  rcases List.suffix_concat_iff.mp hv with hnil | ⟨w', rfl, -⟩
  · exact absurd hnil hne
  · exact ⟨w' ++ [d], Span.key_prefix hd h, hpiece ▸ hv⟩

/-- Different spans have different keys, and no span contains the key of a span. -/
def KeysApart (ss : List Span) : Prop :=
  ∀ s ∈ ss, ∀ s' ∈ ss, (s.key = s'.key → s = s') ∧ ¬ s.key <:+: s'.text

/-- Different spans have different keys. -/
def KeysDiffer (ss : List Span) : Prop := ∀ s ∈ ss, ∀ s' ∈ ss, s.key = s'.key → s = s'

/-- No value contains the key of an entry that stands behind it. -/
def InOrder (es : List (Text × Text)) : Prop := es.Pairwise fun e later ↦ ¬ later.1 <:+: e.2

theorem KeysApart.keysDiffer {ss : List Span} (h : KeysApart ss) : KeysDiffer ss :=
  fun s hs s' hs' ↦ (h s hs s' hs').1

/-! ## A text with some spans hidden -/

/-- The text of a segment when the spans with the given keys are restored. -/
def Segment.shown (keys : List Text) : Segment → Text
  | plain c => [c]
  | span s => if keys.contains s.key then s.text else s.key

theorem Segment.shown_of_mem {keys : List Text} {s : Span} (h : s.key ∈ keys) :
    shown keys (.span s) = s.text :=
  if_pos (List.contains_iff_mem.mpr h)

theorem Segment.shown_of_not_mem {keys : List Text} {s : Span} (h : s.key ∉ keys) :
    shown keys (.span s) = s.key :=
  if_neg fun hmem ↦ h (List.contains_iff_mem.mp hmem)

/-- No key begins at a bracket that nothing closes. -/
theorem not_prefix_shown {keys : List Text} {ss : List Segment} {digits : Text}
    (hclosed : '>' ∉ ss.flatMap Segment.text) (hdigits : ∀ c ∈ digits, isWord c) :
    ¬ digits ++ ['>'] <+: ss.flatMap (Segment.shown keys) := by
  induction ss generalizing digits with
  | nil =>
      intro h
      simpa using List.prefix_nil.mp h
  | cons seg ss ih =>
      intro h
      rw [List.flatMap_cons, List.mem_append, not_or] at hclosed
      cases seg with
      | plain c =>
          rw [List.flatMap_cons, Segment.shown, List.singleton_append] at h
          cases digits with
          | nil =>
              obtain ⟨rfl, -⟩ := List.cons_prefix_cons.mp h
              exact hclosed.1 (List.mem_singleton_self '>')
          | cons digit digits =>
              have hrest := (List.cons_prefix_cons.mp h).2
              exact ih hclosed.2 (fun c hc ↦ hdigits c (List.mem_cons_of_mem _ hc)) hrest
      | span s =>
          obtain ⟨first, piece, hfirst, hpiece⟩ : ∃ first piece,
              (first = '"' ∨ first = '<') ∧ Segment.shown keys (.span s) = first :: piece := by
            rw [Segment.shown]
            split
            · cases s with
              | quoted body => exact ⟨'"', _, .inl rfl, rfl⟩
              | bracketed body => exact ⟨'<', _, .inr rfl, rfl⟩
            · exact ⟨'<', _, .inr rfl, rfl⟩
          rw [List.flatMap_cons, hpiece, List.cons_append] at h
          cases digits with
          | nil =>
              obtain ⟨rfl, -⟩ := List.cons_prefix_cons.mp h
              revert hfirst
              decide
          | cons digit digits =>
              obtain ⟨rfl, -⟩ := List.cons_prefix_cons.mp h
              have hword := hdigits digit List.mem_cons_self
              revert hword
              rcases hfirst with rfl | rfl <;> decide

section Shown

variable {keys : List Text} {all : List Span} {s : Span}

theorem shown_cons_of_ne {s' : Span} (h : s'.key ≠ s.key) :
    Segment.shown (s.key :: keys) (.span s') = Segment.shown keys (.span s') := by
  simp [Segment.shown, h]

/-- The key of another span does not begin in what is shown of a span. -/
theorem not_prefix_of_shown {s' : Span} (hne : s'.key ≠ s.key)
    (htext : s'.key ∈ keys → ¬ s.key <:+: s'.text) {v rest : Text}
    (hv : v <:+ Segment.shown keys (.span s')) (hv' : v ≠ []) : ¬ s.key <+: v ++ rest := by
  intro hkey
  rw [Segment.shown] at hv
  split at hv
  · rename_i hshown
    obtain ⟨w, d, hd, hend⟩ := s'.exists_text_eq
    obtain ⟨u, hpre, hsuf⟩ := Span.key_infix hd hend hv hv' hkey
    exact htext (List.contains_iff_mem.mp hshown) (hpre.isInfix.trans hsuf.isInfix)
  · obtain ⟨u, hpre, hsuf⟩ := Span.key_infix (.inr rfl) rfl hv hv' hkey
    have hcontained : s.key <:+: s'.key := hpre.isInfix.trans hsuf.isInfix
    exact hne (hcontained.eq_of_length (by rw [Span.length_key, Span.length_key])).symm

/-- Writing a span for its key restores that span and nothing else, if no span that has been restored
contains the key. -/
theorem replaceFrom_shown (hkeys : KeysDiffer all) (hs : s ∈ all) (hnew : s.key ∉ keys)
    (hout : ∀ s' ∈ all, s'.key ∈ keys → ¬ s.key <:+: s'.text) {ss : List Segment} (hcut : Cut ss)
    (hall : ∀ s' ∈ spans ss, s' ∈ all) :
    replaceFrom s.key s.text 0 (ss.flatMap (Segment.shown keys)) =
      ss.flatMap (Segment.shown (s.key :: keys)) := by
  induction ss with
  | nil => rfl
  | cons seg ss ih =>
      cases seg with
      | plain c =>
          have hrest := ih hcut.2 hall
          have hnot : ¬ s.key <+: c :: ss.flatMap (Segment.shown keys) := by
            intro hkey
            obtain ⟨hc, hkey⟩ := List.cons_prefix_cons.mp hkey
            exact not_prefix_shown (hcut.1.2 hc.symm) (fun _ ↦ Md5.isWord_of_mem_ofText) hkey
          rw [List.flatMap_cons, List.flatMap_cons, Segment.shown, Segment.shown,
            List.singleton_append, List.singleton_append, replaceFrom_cons hnot, hrest]
      | span s' =>
          have hs' : s' ∈ all := hall s' List.mem_cons_self
          have hrest := ih hcut.2 fun t ht ↦ hall t (List.mem_cons_of_mem _ ht)
          rw [List.flatMap_cons, List.flatMap_cons]
          by_cases heq : s'.key = s.key
          · obtain rfl := hkeys s' hs' s hs heq
            rw [Segment.shown_of_not_mem hnew, Segment.shown_of_mem List.mem_cons_self,
              replaceFrom_key s'.key_ne_nil, hrest]
          · have hpass : replaceFrom s.key s.text 0
                (Segment.shown keys (.span s') ++ ss.flatMap (Segment.shown keys)) =
                Segment.shown keys (.span s') ++
                  replaceFrom s.key s.text 0 (ss.flatMap (Segment.shown keys)) :=
              replaceFrom_pass fun v hv hv' ↦ not_prefix_of_shown heq (hout s' hs') hv hv'
            rw [shown_cons_of_ne heq, hpass, hrest]

theorem foldl_shown (hkeys : KeysDiffer all) {ss : List Segment} (hcut : Cut ss)
    (hall : ∀ s ∈ spans ss, s ∈ all) {es : List (Text × Text)}
    (hes : ∀ e ∈ es, ∃ s ∈ all, e = (s.key, s.text)) (hnodup : (es.map Prod.fst).Nodup)
    (horder : InOrder es) (hnew : ∀ e ∈ es, e.1 ∉ keys)
    (hout : ∀ e ∈ es, ∀ s ∈ all, s.key ∈ keys → ¬ e.1 <:+: s.text) :
    ∃ keys', (∀ e ∈ es, e.1 ∈ keys') ∧ (∀ k ∈ keys, k ∈ keys') ∧
        es.foldl (fun t (key, value) ↦ replaceAll key value t) (ss.flatMap (Segment.shown keys)) =
          ss.flatMap (Segment.shown keys') := by
  induction es generalizing keys with
  | nil => exact ⟨keys, by simp, fun k hk ↦ hk, rfl⟩
  | cons e es ih =>
      obtain ⟨s, hs, rfl⟩ := hes e List.mem_cons_self
      rw [List.map_cons, List.nodup_cons] at hnodup
      obtain ⟨hlater, horder⟩ := List.pairwise_cons.mp horder
      have hstep := replaceFrom_shown hkeys hs (hnew _ List.mem_cons_self)
        (hout _ List.mem_cons_self) hcut hall
      have hrest : ∀ e ∈ es, e.1 ∉ s.key :: keys := by
        intro e he hmem
        rcases List.mem_cons.mp hmem with heq | hmem
        · have hkey : e.1 ∈ es.map Prod.fst := List.mem_map_of_mem he
          exact hnodup.1 (heq ▸ hkey)
        · exact hnew e (List.mem_cons_of_mem _ he) hmem
      have hout' : ∀ e ∈ es, ∀ s' ∈ all, s'.key ∈ s.key :: keys → ¬ e.1 <:+: s'.text := by
        intro e he s' hs' hmem
        rcases List.mem_cons.mp hmem with heq | hmem
        · obtain rfl := hkeys s' hs' s hs heq
          exact hlater e he
        · exact hout e (List.mem_cons_of_mem _ he) s' hs' hmem
      obtain ⟨keys', hdone, hmore, hfold⟩ :=
        ih (fun e he ↦ hes e (List.mem_cons_of_mem _ he)) hnodup.2 horder hrest hout'
      refine ⟨keys', ?_, fun k hk ↦ hmore k (List.mem_cons_of_mem _ hk), ?_⟩
      · intro e he
        rcases List.mem_cons.mp he with rfl | he
        · exact hmore s.key List.mem_cons_self
        · exact hdone e he
      · have hall : replaceAll s.key s.text (ss.flatMap (Segment.shown keys)) =
            ss.flatMap (Segment.shown (s.key :: keys)) := by
          rw [replaceAll, if_neg s.key_ne_nil, hstep]
        rw [List.foldl_cons, ← hfold]
        exact congrArg (List.foldl _ · es) hall

end Shown

theorem filterMap_replacement? (ss : List Segment) :
    ss.filterMap Segment.replacement? = (spans ss).map fun s ↦ (s.key, s.text) := by
  rw [spans, List.map_filterMap]
  apply List.filterMap_congr
  intro seg _
  cases seg <;> rfl

/-- The replacements of segments are those of their spans. -/
theorem exists_span_of_replacement {ss : List Segment} {e : Text × Text}
    (h : e ∈ (OrderedMap.ofList (ss.filterMap Segment.replacement?)).entries) :
    ∃ s ∈ spans ss, e = (s.key, s.text) := by
  rw [filterMap_replacement?] at h
  obtain ⟨s, hs, heq⟩ := List.mem_map.mp (OrderedMap.mem_of_mem_ofList h)
  exact ⟨s, hs, heq.symm⟩

/-- Where no span contains a key, the order of the spans does not matter. -/
theorem KeysApart.inOrder {ss : List Segment} (h : KeysApart (spans ss)) :
    InOrder (OrderedMap.ofList (ss.filterMap Segment.replacement?)).entries := by
  refine List.pairwise_of_forall_mem_list fun e he later hlater ↦ ?_
  obtain ⟨s, hs, rfl⟩ := exists_span_of_replacement he
  obtain ⟨s', hs', rfl⟩ := exists_span_of_replacement hlater
  exact (h s' hs' s hs).2

/-- Different spans of the text have different keys, and no span contains the key of one that occurs
first behind it. -/
structure Restorable (t : Text) : Prop where
  keys : KeysDiffer (spans (segments t))
  order : InOrder (replacements t).entries

theorem KeysApart.restorable {t : Text} (h : KeysApart (spans (segments t))) : Restorable t :=
  ⟨h.keysDiffer, h.inOrder⟩

/-- All spans come back, whatever blanks stand around them. -/
theorem restored_hidden {ss : List Segment} (hcut : Cut ss) (hkeys : KeysDiffer (spans ss))
    (horder : InOrder (OrderedMap.ofList (ss.filterMap Segment.replacement?)).entries) :
    restored (ss.flatMap Segment.hidden) (.ofList (ss.filterMap Segment.replacement?)) =
      ss.flatMap Segment.text := by
  have hhidden : ss.flatMap Segment.hidden = ss.flatMap (Segment.shown []) := by
    apply List.flatMap_congr
    intro seg _
    cases seg <;> rfl
  obtain ⟨keys, hdone, -, hfold⟩ := foldl_shown hkeys hcut (fun s hs ↦ hs)
    (fun e he ↦ exists_span_of_replacement he) (OrderedMap.nodup_keys _) horder
    (fun e _ ↦ List.not_mem_nil) fun e _ s _ hmem ↦ nomatch hmem
  rw [restored, hhidden, hfold]
  apply List.flatMap_congr
  intro seg hseg
  cases seg with
  | plain c => rfl
  | span s =>
      have hs : s ∈ spans ss := List.mem_filterMap.mpr ⟨_, hseg, rfl⟩
      have hkey : s.key ∈ (OrderedMap.ofList (ss.filterMap Segment.replacement?)).keys := by
        rw [filterMap_replacement?, OrderedMap.mem_keys_ofList, List.map_map]
        exact List.mem_map_of_mem hs
      obtain ⟨e, he, heq⟩ := List.mem_map.mp hkey
      exact Segment.shown_of_mem (heq ▸ hdone e he)

/-- Restoring undoes escaping, if different spans have different keys and no span contains the key of
one that occurs first behind it. -/
theorem restored_escaped {t : Text} (hkeys : KeysDiffer (spans (segments t)))
    (horder : InOrder (replacements t).entries) : restored (escaped t) (replacements t) = t := by
  have hrestored := restored_hidden (cut_segments t) hkeys horder
  rwa [text_segments] at hrestored

/-- A string and its own key: in this order both come back, and in the other one the key is taken
for the string that it hides. -/
theorem restored_escaped_key : ∃ s : Span, s = .quoted ['a'] ∧
    (KeysDiffer (spans (segments (s.text ++ s.key))) ∧
      InOrder (replacements (s.text ++ s.key)).entries ∧
      restored (escaped (s.text ++ s.key)) (replacements (s.text ++ s.key)) = s.text ++ s.key) ∧
    KeysDiffer (spans (segments (s.key ++ s.text))) ∧
      restored (escaped (s.key ++ s.text)) (replacements (s.key ++ s.text)) = s.text ++ s.text := by
  let s : Span := .quoted ['a']
  let k : Span := .bracketed (Md5.ofText s.text)
  have hspans : spans (segments (s.text ++ s.key)) = [s, k] := by decide +kernel
  have hspans' : spans (segments (s.key ++ s.text)) = [k, s] := by decide +kernel
  have hkeys : KeysDiffer [s, k] := by
    unfold KeysDiffer
    decide +kernel
  have hkeys' : KeysDiffer [k, s] := by
    unfold KeysDiffer
    decide +kernel
  have horder : InOrder (replacements (s.text ++ s.key)).entries := by
    unfold InOrder
    decide +kernel
  have hforged : restored (escaped (s.key ++ s.text)) (replacements (s.key ++ s.text)) =
      s.text ++ s.text := by decide +kernel
  have hrestored := restored_escaped (hspans ▸ hkeys) horder
  exact ⟨s, rfl, ⟨hspans ▸ hkeys, horder, hrestored⟩, hspans' ▸ hkeys', hforged⟩

end SparqlComposer
