import SparqlComposer.Expression.Token

/-!
# Property paths

A path is a sequence of elements joined by `/` or `|`. An element is a prefixed IRI, the letter
`a`, or a path in parentheses; `!` and `^` may stand before it, in this order, and one of `?`,
`*` and `+` behind it. Paths are read from the left without going back: the first character of
what is left decides what is read next.
-/

namespace SparqlComposer

/-- What is left of a text of which something has been read. -/
abbrev Rest (t : Text) := { rest : Text // rest.length < t.length }

def dropOne (inClass : Char → Bool) : Text → Text
  | [] => []
  | c :: cs => if inClass c then cs else c :: cs

theorem length_dropOne_le (inClass : Char → Bool) (t : Text) :
    (dropOne inClass t).length ≤ t.length := by
  cases t with
  | nil => simp [dropOne]
  | cons c cs => by_cases hc : inClass c <;> simp [dropOne, hc]

/-- Leaves out the marks of negation and inversion before an element. -/
def dropPathMarks (t : Text) : Text := dropOne (· == '^') (dropOne (· == '!') t)

theorem length_dropPathMarks_le (t : Text) : (dropPathMarks t).length ≤ t.length :=
  Nat.le_trans (length_dropOne_le _ _) (length_dropOne_le _ _)

/-- The marks for how often an element of a path is followed. -/
def isRepetition (c : Char) : Bool := c == '?' || c == '*' || c == '+'

/-- The marks that join the elements of a path. -/
def isPathJoint (c : Char) : Bool := c == '/' || c == '|'

mutual

/-- What follows the longest path at the start of a text. -/
def afterPath? (t : Text) : Option (Rest t) :=
  match afterPathElement? t with
  | none => none
  | some ⟨[], h⟩ => some ⟨[], h⟩
  | some ⟨c :: cs, h⟩ =>
      if isPathJoint c then
        match afterPath? cs with
        | some ⟨rest, h'⟩ => some ⟨rest, Nat.lt_trans h' (Nat.lt_of_succ_lt h)⟩
        | none => some ⟨c :: cs, h⟩
      else some ⟨c :: cs, h⟩
termination_by 3 * t.length + 2
decreasing_by
  · omega
  · have := Nat.lt_of_succ_lt h
    omega

def afterPathElement? (t : Text) : Option (Rest t) :=
  match afterPathPrimary? (dropPathMarks t) with
  | none => none
  | some ⟨rest, h⟩ =>
      some ⟨dropOne isRepetition rest, by
        have := length_dropOne_le isRepetition rest
        have := length_dropPathMarks_le t
        omega⟩
termination_by 3 * t.length + 1
decreasing_by
  have := length_dropPathMarks_le t
  omega

/-- What follows a prefixed IRI, the letter `a` in either case, or a path in parentheses. -/
def afterPathPrimary? (t : Text) : Option (Rest t) :=
  match h : afterPrefixedIri? t with
  | some rest => some ⟨rest, length_of_afterPrefixedIri? h⟩
  | none =>
      match t with
      | [] => none
      | c :: cs =>
          if c == 'a' || c == 'A' then some ⟨cs, Nat.lt_succ_self _⟩
          else if c == '(' then
            match afterPath? cs with
            | none => none
            | some ⟨inner, h⟩ =>
                match hclose : afterChar? ')' inner with
                | none => none
                | some rest => some ⟨rest,
                    Nat.lt_succ_of_lt (Nat.lt_trans (length_of_afterChar? hclose) h)⟩
          else none
termination_by 3 * t.length
decreasing_by
  have : (c :: cs).length = cs.length + 1 := rfl
  omega

end

def isPath (t : Text) : Bool := (afterPath? t).any (·.val.isEmpty)

end SparqlComposer
