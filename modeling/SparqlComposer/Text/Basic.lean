/-!
# Texts

All work on queries is done on texts as lists of characters, so that what is printed and what is
read can be related by induction. This module holds the operations that the library needs beyond
those of lists: joining, cutting at a character, and replacing.
-/

namespace SparqlComposer

abbrev Text := List Char

/-- The parts one after the other, with `separator` between neighbours. -/
def joinWith (separator : Text) : List Text → Text
  | [] => []
  | [part] => part
  | part :: parts => part ++ separator ++ joinWith separator parts

/-- The parts with one space between neighbours. -/
def spaced (parts : List Text) : Text := joinWith [' '] parts

@[simp] theorem joinWith_nil (separator : Text) : joinWith separator [] = [] := rfl

@[simp] theorem joinWith_singleton (separator part : Text) :
    joinWith separator [part] = part := rfl

theorem joinWith_cons_cons (separator part next : Text) (parts : List Text) :
    joinWith separator (part :: next :: parts) =
      part ++ separator ++ joinWith separator (next :: parts) := rfl

/-! ## Cutting at a character -/

/-- The text before the first `stop` and the text after it. -/
def cutAt? (stop : Char) : Text → Option (Text × Text)
  | [] => none
  | c :: cs =>
      if c = stop then some ([], cs)
      else (cutAt? stop cs).map fun (before, after) ↦ (c :: before, after)

theorem cutAt?_eq_some_iff {stop : Char} {t before after : Text} :
    cutAt? stop t = some (before, after) ↔ t = before ++ stop :: after ∧ stop ∉ before := by
  induction t generalizing before with
  | nil => simp [cutAt?]
  | cons c cs ih =>
      by_cases hc : c = stop
      · cases before <;> grind [cutAt?]
      · have hstep : cutAt? stop (c :: cs) =
            (cutAt? stop cs).map fun (before, after) ↦ (c :: before, after) := by
          simp [cutAt?, hc]
        rw [hstep, Option.map_eq_some_iff]
        cases before with
        | nil => grind
        | cons b bs => grind

theorem cutAt?_length {stop : Char} {t before after : Text}
    (h : cutAt? stop t = some (before, after)) : after.length < t.length := by
  obtain ⟨rfl, -⟩ := cutAt?_eq_some_iff.1 h
  simp
  omega

/-! ## Replacing -/

/-- Writes `value` for every occurrence of a nonempty key from the left; `skip` characters are
what is left of an occurrence that has been replaced already. -/
def replaceFrom (key value : Text) : Nat → Text → Text
  | _, [] => []
  | skip + 1, _ :: cs => replaceFrom key value skip cs
  | 0, c :: cs =>
      if key.isPrefixOf (c :: cs) then value ++ replaceFrom key value (key.length - 1) cs
      else c :: replaceFrom key value 0 cs

/-- Writes `value` for every occurrence of `key`, from the left and without overlaps. The empty
key occurs at both ends and between any two characters. -/
def replaceAll (key value text : Text) : Text :=
  if key = [] then value ++ text.flatMap (· :: value)
  else replaceFrom key value 0 text

end SparqlComposer
