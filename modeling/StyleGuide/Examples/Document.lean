import StyleGuide.Examples.Fence
import StyleGuide.Json.Basic
import StyleGuide.Markdown.Block
import StyleGuide.Text.Replace

/-!
# Documents of examples

A document of examples is a text in Markdown. Its blocks of code for the playground are the
examples, and what stands between them is shown as it is.

## Main definitions

* `Params.substitute`: fill in the names that stand for the component and the path of images.
* `Chunk`: a part of a document.
* `chunks`: the parts of a document, in order.
-/

namespace StyleGuide.Examples

open Markdown (CodeBlock codeBlocks)

/-- Stands for the name of the component. -/
def componentPlaceholder : String := "__COMPONENT__"

/-- Stands for the path that images are found at. -/
def imagePathPlaceholder : String := "__IMAGE_PATH__"

/-- What is filled in for the placeholders of a document. -/
structure Params where
  imagePath : Option String
  componentName : Option String
deriving DecidableEq

namespace Params

/-- Fill in one placeholder, if there is something to fill in. -/
def fill (placeholder : String) (text? : Option String) (source : List Char) : List Char :=
  match text? with
  | none => source
  | some text => replaceAll placeholder.toList text.toList source

/-- Fill in the placeholders of a document. A name of a component may itself hold the placeholder
of the path, which is then filled in as well. -/
def substitute (p : Params) (source : List Char) : List Char :=
  fill imagePathPlaceholder p.imagePath (fill componentPlaceholder p.componentName source)

end Params

/-- A part of a document of examples. -/
inductive Chunk where
  /-- Code that is run in the playground. -/
  | code (content : List Char)
  /-- Text that is shown as it is, blocks of other code among it. -/
  | markdown (content : List Char)
deriving DecidableEq

namespace Chunk

/-- The text between two examples without the blank characters around it, unless nothing is left. -/
def ofMarkdown (text : List Char) : List Chunk :=
  match trim text with
  | [] => []
  | content => [markdown content]

/-- A part of a document as JSON. -/
def toJson : Chunk → Json
  | code content =>
    .object
      [("type", .string "code"), ("content", .string (.ofList content)),
       ("evalInContext", .bool true)]
  | markdown content =>
    .object [("type", .string "markdown"), ("content", .string (.ofList content))]

end Chunk

/-- The part of a text before a place in it. -/
def upTo (place text : List Char) : List Char := text.take (text.length - place.length)

/-- The parts of a text that the given blocks are cut out of. -/
def cutBlocks : List CodeBlock → List Char → List Chunk
  | [], text => Chunk.ofMarkdown text
  | b :: blocks, text =>
    Chunk.ofMarkdown (upTo b.start text) ++ .code (trimRight b.text) :: cutBlocks blocks b.stop

/-- The parts of a document in which nothing is left to fill in. -/
def chunksOf (text : List Char) : List Chunk :=
  cutBlocks ((codeBlocks text).filter fun b => isPlaygroundInfo b.info) text

/-- The parts of a document. Placeholders are filled in first, so that what is filled in may start
and end blocks like any other text. -/
def chunks (source : String) (p : Params) : List Chunk := chunksOf (p.substitute source.toList)

end StyleGuide.Examples
