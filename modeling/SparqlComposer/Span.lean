import SparqlComposer.OrderedMap
import SparqlComposer.Digest.Md5

/-!
# Protected spans

Quoted strings and bracketed IRIs are hidden before names are captured from a text and before a
text is laid out. A text is cut into segments, plain characters and whole spans; escaping writes
a key for every span, and restoring writes the spans back for their keys. A quote or bracket that
nothing closes is a plain character.
-/

namespace SparqlComposer

/-- A stretch of text from a quote to the next quote, or from `<` to the next `>`. -/
inductive Span where
  | quoted (body : Text)
  | bracketed (body : Text)
  deriving DecidableEq

namespace Span

def text : Span → Text
  | quoted body => '"' :: body ++ ['"']
  | bracketed body => '<' :: body ++ ['>']

/-- The key that hides a span: a bracketed digest of its text. -/
def key (s : Span) : Text := '<' :: Md5.ofText s.text ++ ['>']

/-- The span that the character `c` opens when `cs` follows it, and what follows the span. -/
def openedBy? (c : Char) (cs : Text) : Option (Span × Text) :=
  if c = '"' then (cutAt? '"' cs).map fun (body, rest) ↦ (quoted body, rest)
  else if c = '<' then (cutAt? '>' cs).map fun (body, rest) ↦ (bracketed body, rest)
  else none

theorem append_of_openedBy? {c : Char} {cs rest : Text} {s : Span}
    (h : openedBy? c cs = some (s, rest)) : c :: cs = s.text ++ rest := by
  unfold openedBy? at h
  split at h
  · simp only [Option.map_eq_some_iff, Prod.mk.injEq] at h
    obtain ⟨⟨body, rest'⟩, hcut, rfl, rfl⟩ := h
    simp_all [text, (cutAt?_eq_some_iff.1 hcut).1]
  · split at h
    · simp only [Option.map_eq_some_iff, Prod.mk.injEq] at h
      obtain ⟨⟨body, rest'⟩, hcut, rfl, rfl⟩ := h
      simp_all [text, (cutAt?_eq_some_iff.1 hcut).1]
    · simp at h

theorem length_text (s : Span) : 2 ≤ s.text.length := by
  cases s <;> simp [text]

theorem length_of_openedBy? {c : Char} {cs rest : Text} {s : Span}
    (h : openedBy? c cs = some (s, rest)) : rest.length < cs.length := by
  have hlen := congrArg List.length (append_of_openedBy? h)
  have := length_text s
  simp at hlen
  omega

end Span

/-- A piece of a text: a character outside the spans, or a whole span. -/
inductive Segment where
  | plain (c : Char)
  | span (s : Span)
  deriving DecidableEq

namespace Segment

def text : Segment → Text
  | plain c => [c]
  | span s => s.text

/-- The text of the segment with its span hidden. -/
def hidden : Segment → Text
  | plain c => [c]
  | span s => s.key

/-- The key and the text of the span, if the segment is one. -/
def replacement? : Segment → Option (Text × Text)
  | plain _ => none
  | span s => some (s.key, s.text)

end Segment

/-- Cuts a text into segments from the left. -/
def segments : Text → List Segment
  | [] => []
  | c :: cs =>
      match _h : Span.openedBy? c cs with
      | some (s, rest) => .span s :: segments rest
      | none => .plain c :: segments cs
termination_by t => t.length
decreasing_by
  · have := Span.length_of_openedBy? _h
    simp
    omega
  · simp

/-- Nothing is lost: the segments make up the text. -/
theorem text_segments (t : Text) : (segments t).flatMap Segment.text = t := by
  fun_induction segments t with
  | case1 => rfl
  | case2 c cs s rest h ih => simp [Segment.text, ih, Span.append_of_openedBy? h]
  | case3 c cs h ih => simp [Segment.text, ih]

/-! ## Escaping and restoring -/

/-- The text with a key in the place of every span. -/
def escaped (t : Text) : Text := (segments t).flatMap Segment.hidden

/-- The spans of the text under their keys, in the order in which the keys first occur. -/
def replacements (t : Text) : OrderedMap Text Text :=
  .ofList ((segments t).filterMap Segment.replacement?)

/-- Writes the values for their keys, one key after the other. -/
def restored (t : Text) (replacements : OrderedMap Text Text) : Text :=
  replacements.entries.foldl (fun t (key, value) ↦ replaceAll key value t) t

end SparqlComposer
