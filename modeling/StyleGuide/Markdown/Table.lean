import StyleGuide.Text.Cut
import StyleGuide.Markdown.Line

/-!
# Tables

A table has a line of titles, and under it a line that says how its columns are aligned. Both have
to have the same number of columns.
-/

namespace StyleGuide.Markdown

/-- Whether a cell of the second line says how a column is aligned: a colon may stand at each end,
and hyphens between. -/
def isAlignment (cell : List Char) : Bool :=
  let marks := cell.filter (· != ' ')
  marks.all (fun c => c == ':' || c == '-') &&
    marks.count ':' ≤ (if marks.head? = some ':' then 2 else 1)

/-- The columns of a line that aligns them. It has at most three spaces in front, a pipe and a
hyphen somewhere, and a hyphen in every column that has a pipe behind. -/
def alignedColumns? (cs : List Char) : Option Nat :=
  let line := lineText cs
  let inner := line.dropWhile (· == ' ')
  let cells := cut (· == '|') (if inner.head? = some '|' then inner.tail else inner)
  let last := cells.getLastD []
  if 3 < line.length - inner.length then none
  else if !cells.all isAlignment then none
  else if !cells.dropLast.all (·.contains '-') then none
  else if !inner.contains '|' ∨ !inner.contains '-' then none
  else some (cells.dropLast.length + if last.all (· == ' ') then 0 else 1)

/-- What stands behind each pipe of a line that no backslash hides. -/
def behindPipes (pairs : Bool) (hidden : Bool) : List Char → List (List Char)
  | [] => []
  | c :: rest =>
    if c = '\\' then behindPipes pairs (if pairs then !hidden else true) rest
    else if c = '|' ∧ hidden = false then rest :: behindPipes pairs false rest
    else behindPipes pairs false rest

/-- The columns of a line of titles. Pipes at the ends of the line separate nothing. With `pairs`
two backslashes hide nothing. -/
def titleColumns (pairs : Bool) (line : List Char) : Nat :=
  let pipes := behindPipes pairs false line
  let inner := line.dropWhile isInlineBlank
  let count := pipes.length - if inner.head? = some '|' then 1 else 0
  match pipes.getLast? with
  | none => 0
  | some rest => if rest.all isInlineBlank then count else count + 1

/-- Whether a line ends in a backslash that no other one makes literal. -/
def endsInBackslash (line : List Char) : Bool :=
  (line.reverse.takeWhile (· == '\\')).length % 2 == 1

end StyleGuide.Markdown
