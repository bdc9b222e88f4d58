import SparqlComposer.Span
import SparqlComposer.Text.Blank
import SparqlComposer.Text.Word

/-!
# Layout

A query is laid out with one tab for every open brace. The text is cut into words and single
other characters, with its spans hidden, and what stands between two of them is chosen anew: from
the two, from the depth, and from whether there were blanks. Layout knows the text only by a
handful of words and marks, so every text can be laid out.
-/

namespace SparqlComposer

/-- A run of word characters, or any other character by itself. -/
inductive Token where
  | word (t : Text)
  | mark (c : Char)
  deriving DecidableEq

namespace Token

def text : Token → Text
  | word t => t
  | mark c => [c]

def isGap : Token → Bool
  | word _ => false
  | mark c => isBlank c

end Token

def tokens : Text → List Token
  | [] => []
  | c :: cs =>
      if isWord c then
        match tokens cs with
        | .word t :: rest => .word (c :: t) :: rest
        | rest => .word [c] :: rest
      else .mark c :: tokens cs

namespace Layout

/-- What may stand between two tokens. -/
inductive Gap where
  | space
  | line
  | emptyLine
  | continuation
  deriving DecidableEq

/-- The characters of a gap. After a semicolon the next line is one tab further in. -/
def Gap.text : Gap → Text
  | space => [' ']
  | line => ['\n']
  | emptyLine => ['\n', '\n']
  | continuation => ['\n', '\t']

/-- The words that start a line. -/
def lineWords : List Text :=
  ["PREFIX", "FILTER", "OPTIONAL", "LIMIT", "GROUP", "ORDER", "HAVING"].map String.toList

def startsLine : Token → Bool
  | .word t => lineWords.contains t
  | .mark c => c == '}'

/-- The marks with one space in front, unless a line starts with them. -/
def spacedMarks : List Char := ['.', '=', '(', '<', '{', '?', '$']

def isSpaced : Token → Bool
  | .word _ => false
  | .mark c => spacedMarks.contains c

/-- Where the layout stands: behind the last token, with the gap that is due and the number of
braces that are open. More braces may have been closed than opened. -/
structure Place where
  last : Option Token
  gap : Option Gap
  depth : Int

def Place.start : Place := ⟨none, none, 0⟩

namespace Place

/-- One space, but nothing behind an opening parenthesis. -/
def spaceAfter (last : Option Token) : Option Gap :=
  if last = some (.mark '(') then none else some .space

/-- The gap in front of a token: nothing at the very start, a line break where one is wanted, an
empty line before an outermost `SELECT`, one space before `UNION` and the spaced marks, and else
what is due. -/
def gapBefore (p : Place) (t : Token) : Option Gap :=
  if p.last.isNone && p.gap.isNone then none
  else
    let due :=
      if startsLine t then some .line
      else if t = .word "SELECT".toList && p.depth == 0 then some .emptyLine
      else p.gap
    if t = .word "UNION".toList || (due != some .line && isSpaced t) then spaceAfter p.last
    else due

/-- The depth at which a token stands; a closing brace stands outside. -/
def depthAt (p : Place) (t : Token) : Int := if t = .mark '}' then p.depth - 1 else p.depth

def indentation (depth : Int) : Option Gap → Text
  | some .line | some .emptyLine | some .continuation => List.replicate depth.toNat '\t'
  | some .space | none => []

/-- A token with the gap and the indentation in front of it. -/
def written (p : Place) (t : Token) : Text :=
  let gap := p.gapBefore t
  (gap.map Gap.text).getD [] ++ indentation (p.depthAt t) gap ++ t.text

/-- The gap that is due behind a token. -/
def gapAfter (t : Token) : Option Gap :=
  if t = .mark '{' ∨ t = .mark '}' ∨ t = .mark '.' then some .line
  else if t = .mark ';' then some .continuation
  else none

def after (p : Place) (t : Token) : Place where
  last := some t
  gap := gapAfter t
  depth := if t = .mark '{' then p.depthAt t + 1 else p.depthAt t

/-- The place behind blanks. They count as one space, unless another gap is due already. -/
def afterBlank (p : Place) : Place := { p with gap := p.gap.or (spaceAfter p.last) }

end Place

/-- The tokens laid out from a place on, up to one line break at the end. -/
def lines (p : Place) : List Token → Text
  | [] => ['\n']
  | t :: ts =>
      if t.isGap then lines p.afterBlank ts
      else p.written t ++ lines (p.after t) ts

/-- A text laid out, with its spans still hidden. -/
def hiddenLines (t : Text) : Text := lines Place.start (tokens (escaped t))

end Layout

/-- A text laid out; its quoted strings and bracketed IRIs are left as they are. -/
def formatted (t : Text) : Text := restored (Layout.hiddenLines t) (replacements t)

end SparqlComposer
