import SparqlComposer.Layout

/-!
# Layout part by part

A layout can also be written as a list of parts, one step for each part of the text. Line breaks, tabs
and spaces are parts of their own, and where another line break or space is wanted, all blank parts at
the end are taken away first.
-/

namespace SparqlComposer.Layout

/-- The parts that start on a new line. -/
def newLineBefore : List Text :=
  ["PREFIX", "FILTER", "OPTIONAL", "LIMIT", "GROUP", "ORDER", "HAVING", "\x7d"].map String.toList

/-- The parts with a single space in front, unless a line starts with them. -/
def spaceBefore : List Text := [".", "=", "(", "<", "\x7b", "?", "$"].map String.toList

/-- The parts that are followed by a new line. -/
def newLineAfter : List Text := ["\x7b", "\x7d", "."].map String.toList

/-- Whether a part consists of blanks. The empty part does not. -/
def isSpace (part : Text) : Bool := !part.isEmpty && part.all isBlank

/-- A layout that is being written: its parts, the last one first, and the number of open braces. -/
structure Draft where
  parts : List Text := []
  depth : Int := 0

namespace Draft

/-- The last part, and the empty one if there are none. -/
def last (d : Draft) : Text := d.parts.headD []

def push (d : Draft) (part : Text) : Draft := { d with parts := part :: d.parts }

/-- Takes all blank parts away from the end. -/
def trimEnd (d : Draft) : Draft := { d with parts := d.parts.dropWhile isSpace }

/-- A blank part becomes one space, and nothing behind another one or an opening parenthesis. -/
def append (d : Draft) (part : Text) : Draft :=
  if !isSpace part then d.push part
  else if !isSpace d.last && d.last != ['('] then d.push [' ']
  else d

/-- Writes a line break in front of the parts that start on a new line. -/
def breakLine (d : Draft) (part : Text) : Draft :=
  if newLineBefore.contains part then d.trimEnd.push ['\n'] else d

/-- Writes an empty line in front of an outermost `SELECT`. -/
def leaveLine (d : Draft) (part : Text) : Draft :=
  if part == "SELECT".toList && d.depth == 0 then d.trimEnd.push ['\n', '\n'] else d

/-- Writes one space in front of `UNION`, and of the parts that want one. -/
def leaveSpace (d : Draft) (part : Text) : Draft :=
  if part == "UNION".toList || (d.last != ['\n'] && spaceBefore.contains part) then
    d.trimEnd.append [' ']
  else d

/-- Writes the line breaks and spaces that a part wants in front. -/
def before (d : Draft) (part : Text) : Draft :=
  ((d.breakLine part).leaveLine part).leaveSpace part

def countClosing (d : Draft) (part : Text) : Draft :=
  if part == ['}'] then { d with depth := d.depth - 1 } else d

/-- Writes one tab for each open brace at the start of a line. -/
def startLine (d : Draft) (part : Text) : Draft :=
  if !isSpace part && d.last.head? == some '\n' then d.push (List.replicate d.depth.toNat '\t')
  else d

def countOpening (d : Draft) (part : Text) : Draft :=
  if part == ['{'] then { d with depth := d.depth + 1 } else d

/-- A closing brace stands outside the braces, and an opening one as well. -/
def indent (d : Draft) (part : Text) : Draft :=
  ((d.countClosing part).startLine part).countOpening part

/-- Writes the line break that a part wants behind it. -/
def after (d : Draft) (part : Text) : Draft :=
  if newLineAfter.contains part then d.push ['\n']
  else if part == [';'] then d.push ['\n', '\t']
  else d

/-- One step. The first part has nothing in front of it. -/
def write (d : Draft) (part : Text) : Draft :=
  let d := if d.parts.isEmpty then d else d.before part
  ((d.indent part).append part).after part

/-- The parts joined, with one line break at the end. -/
def text (d : Draft) : Text := (d.trimEnd.push ['\n']).parts.reverse.flatten

end Draft

/-- A text laid out part by part, with its spans still hidden. -/
def draftLines (t : Text) : Text :=
  (((tokens (escaped t)).map Token.text).foldl Draft.write {}).text

end SparqlComposer.Layout
