import StyleGuide.Markdown.Definition
import StyleGuide.Markdown.Info

/-!
# Blocks of lines

The blocks that hold lines and no other blocks: code in fences, indented code, HTML, tables and
paragraphs. Each function reads on from a place inside a block, given the open containers with the
outermost first, and gives the place of the line behind the block; blocks of code give their text
as well.
-/

namespace StyleGuide.Markdown

/-- Lines of code, read from some place on. -/
structure Code where
  text : List Char
  /-- The place where the block ends. -/
  stop : List Char
  /-- The place of the line behind the block. -/
  rest : List Char

/-- What a line adds to a block of code: columns of a tab that are left over, then the line with
its line feed. Of a carriage return and a line feed only the latter is kept. -/
def codeLine (c : Cursor) : List Char :=
  let line := c.rest.takeWhile (· != '\n')
  let ended := line.length < c.rest.length
  let text :=
    if ended then
      (if line.getLast? = some '\r' then line.dropLast else line) ++ ['\n']
    else
      match line.reverse with
      | last :: '\r' :: before =>
        if last.toNat < 128 then (last :: before).reverse else line
      | _ => line
  List.replicate c.pending ' ' ++ text

/-- The lines of code behind an opening fence. Each line loses the columns in front of the fence,
as far as it has them. -/
def fencedCode (ks : List Container) (f : Fence) (cs : List Char) : Code :=
  let (all, c) := goOnAll ks cs
  let line := (c.takeSpaces f.indent).2
  let next := behindLineFeed line.rest
  if cs.isEmpty ∨ all = false then ⟨[], cs, cs⟩
  else
    match f.closedAt? line with
    | some stop => ⟨[], stop, (blankLine? stop).getD stop⟩
    | none =>
      if next.length < cs.length then
        let more := fencedCode ks f next
        { more with text := codeLine line ++ more.text }
      else ⟨[], cs, cs⟩
termination_by cs.length

/-- A line of indented code. -/
structure IndentedLine where
  text : List Char
  isBlank : Bool
  /-- The place behind the line. -/
  behind : List Char

/-- The lines of indented code from a line on, up to the last one that has four columns in front
or is blank. -/
def indentedLines (ks : List Container) (isBlank : Bool) (c : Cursor) : List IndentedLine :=
  let next := behindLineFeed c.rest
  let line : IndentedLine := ⟨codeLine c, isBlank, next⟩
  let (all, d) := goOnAll ks next
  let (missing, d) := d.takeSpaces 4
  if all = false ∨ (missing ≠ 0 ∧ atLineEnd d.rest = false) ∨ d.rest.isEmpty then [line]
  else if d.rest.length < c.rest.length then
    line :: indentedLines ks (blankLine? d.rest).isSome d
  else [line]
termination_by c.rest.length

/-- Indented code from its first line on, and whether blank lines stand behind it. Those do not
belong to it. -/
def indentedCode (ks : List Container) (c : Cursor) : Code × Bool :=
  let lines := indentedLines ks false c
  let kept := (lines.reverse.dropWhile (·.isBlank)).reverse
  let behind := fun (ls : List IndentedLine) => (ls.getLast?.map (·.behind)).getD []
  (⟨kept.flatMap (·.text), behind kept, behind lines⟩, kept.length != lines.length)

/-! ## HTML -/

/-- The place behind HTML that goes on to a line that holds a text. -/
def htmlToText (ks : List Container) (text : List Char) (cs : List Char) : List Char :=
  let next := behindLineFeed cs
  let (all, c) := goOnAll ks next
  if all = false ∨ holds text (cs.takeWhile (· != '\n')) = true ∨ c.rest.isEmpty then next
  else if c.rest.length < cs.length then htmlToText ks text c.rest
  else next
termination_by cs.length

/-- The place behind HTML that goes on to a blank line. -/
def htmlToBlank (ks : List Container) (cs : List Char) : List Char :=
  let next := behindLineFeed cs
  let (all, c) := goOnAll ks next
  if all = false ∨ (blankLine? c.rest).isSome then next
  else if c.rest.length < cs.length then htmlToBlank ks c.rest
  else next
termination_by cs.length

/-! ## Tables and paragraphs -/

/-- The place behind the rows of a table. -/
def tableRows (ks : List Container) (cs : List Char) : List Char :=
  let (all, c) := goOnAll ks cs
  let row := c.rest.dropWhile isSpace
  let next := behindLine row
  if all = false ∨ startsBlock true row = true then cs
  else if next.length < cs.length then tableRows ks next
  else cs
termination_by cs.length

/-- The place of the rows of a table whose titles stand in the line here. -/
def table? (ks : List Container) (cs : List Char) : Option (List Char) :=
  let line := lineText cs
  let (all, c) := goOnAll ks (behindLine cs)
  if line.contains '|' ∧ endsInBackslash line = false ∧ all = true ∧
      alignedColumns? c.rest = some (titleColumns true line) then
    some (behindLine c.rest)
  else none

/-- The place behind a paragraph, if it does not go on in a line: the line itself, or the one behind
it where the line makes the paragraph a heading. -/
def paragraphEnd? (ks : List Container) (cs : List Char) : Option (List Char) :=
  let (all, c) := goOnAll ks cs
  let (missing, d) := c.takeSpaces 4
  if atLineEnd (d.rest.dropWhile isSpace) then some cs
  else if missing = 0 then none
  else
    match if all then underline? d.rest else none with
    | some behind => some behind
    | none => if interrupts ks all d.rest then some cs else none

/-- The place behind a paragraph that may go on in a line. -/
def paragraphLines (ks : List Container) (cs : List Char) : List Char :=
  match paragraphEnd? ks cs with
  | some behind => behind
  | none =>
    let next := behindLine ((goOnAll ks cs).2.rest.dropWhile isSpace)
    if next.length < cs.length then paragraphLines ks next else cs
termination_by cs.length

/-- The place behind a table or paragraph that starts here. -/
def paragraph (ks : List Container) (cs : List Char) : List Char :=
  match table? ks cs with
  | some rows => tableRows ks rows
  | none => paragraphLines ks (behindLine cs)

/-- The place behind definitions of links that start here and the paragraph that follows on them.
A line behind a definition goes on as a line of a paragraph does. -/
def definitions (ks : List Container) (cs : List Char) : List Char :=
  match definition? ks cs with
  | none => paragraph ks cs
  | some rest =>
    match blankLine? rest with
    | none => paragraph ks cs
    | some next =>
      match nextLine? ks next with
      | none => next
      | some line =>
        let inner := line.dropWhile isSpace
        if (blankLine? inner).isSome then next
        else if inner.length < cs.length then definitions ks inner
        else next
termination_by cs.length

end StyleGuide.Markdown
