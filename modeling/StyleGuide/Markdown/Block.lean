import StyleGuide.Markdown.Leaf

/-!
# Blocks of code in a document

The lines of a document are read one block at a time. At the start of a line the open containers
are gone through, then new ones are opened, and what is left of the line starts a block of lines.

## Main definitions

* `CodeBlock`: a block of code, with the places where it starts and stops.
* `Outline.step`: read one block, or one blank line.
* `codeBlocks`: the blocks of code of a document, in order, wherever they are nested.
-/

namespace StyleGuide.Markdown

/-- A block of code. -/
structure CodeBlock where
  /-- The info string of its fence; empty for indented code. -/
  info : List Char
  text : List Char
  /-- The document from the start of the block on. -/
  start : List Char
  /-- The document from the end of the block on. -/
  stop : List Char
deriving DecidableEq

namespace Outline

/-- Open the containers that start at a cursor. The result also says whether an item was opened in
which nothing stands, and the line is at its end. -/
def openAll (o : Outline) (c : Cursor) : Outline × Cursor × Bool :=
  let (outer, d) := c.indentUpTo 4
  if 4 ≤ outer then (o, c, false)
  else
    match footnoteMark? d.rest with
    | some rest =>
      if rest.length < c.rest.length then
        (o.closeList.push .footnote).openAll (.ofLine rest)
      else (o, c, false)
    | none =>
      match d.marker? with
      | some (m, width, e) =>
        let o := (o.toList m.sign).push (.item (outer + width))
        if (blankLine? e.rest).isSome then ({ o with emptyItem := true }, e, true)
        else
          match e.taskBox? with
          | some e' =>
            if (blankLine? e'.rest).isSome then ({ o with emptyItem := true }, e', true)
            else if e'.rest.length < c.rest.length then o.openAll e'
            else (o, e', false)
          | none => if e.rest.length < c.rest.length then o.openAll e else (o, e, false)
      | none =>
        match d.quoteMark? with
        | some e =>
          if e.rest.length < c.rest.length then (o.closeList.push .quote).openAll e
          else (o, c, false)
        | none => (o, c, false)
termination_by c.rest.length

/-- Read a block of lines at a cursor: the block, if it is code, what is open behind it, and the
place of the next line. -/
def leaf (o : Outline) (c : Cursor) : Option CodeBlock × Outline × List Char :=
  let ks := o.containers
  let (indent, d) := c.indentUpTo 4
  let cs := d.rest
  if indent = 4 then
    let (code, blankBehind) := indentedCode ks d
    (some ⟨[], code.text, cs, code.stop⟩, { o with lastBlank := blankBehind }, code.rest)
  else
    match (if cs.head? = some '<' then endText? cs.tail else none) with
    | some text => (none, o, htmlToText ks text cs)
    | none =>
      if startsHtml cs then (none, o, htmlToBlank ks cs)
      else if isRule cs ∨ isHeading cs then (none, o, behindLine cs)
      else
        match fence? indent cs with
        | some (f, rest) =>
          let code := fencedCode ks f (behindLineFeed rest)
          let info := infoString (rest.takeWhile (· != '\n'))
          (some ⟨info, code.text, cs, code.stop⟩, o, code.rest)
        | none => (none, o, definitions ks cs)

/-- Read a block from the start of a line. -/
def step (o : Outline) (cs : List Char) : Option CodeBlock × Outline × List Char :=
  let (kept, c) := goOn o.containers (.ofLine cs)
  let (o, c, isEmpty) := (o.keep kept.length).openAll c
  match blankLine? c.rest with
  | some rest => (none, if isEmpty then o else o.afterBlank, rest)
  | none => o.closeList.leaf c

end Outline

/-- The blocks of code from the start of a line on. -/
def codeBlocksFrom (o : Outline) (cs : List Char) : List CodeBlock :=
  if cs.isEmpty then []
  else
    let (block?, o, rest) := o.step cs
    let blocks := if rest.length < cs.length then codeBlocksFrom o rest else []
    block?.toList ++ blocks
termination_by cs.length

/-- The blocks of code of a document, in order. -/
def codeBlocks (cs : List Char) : List CodeBlock := codeBlocksFrom .start cs

end StyleGuide.Markdown
