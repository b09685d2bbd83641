import StyleGuide.Component.Name
import StyleGuide.Component.Set
import StyleGuide.Reference

/-!
# Component entries

The record that a style guide holds for one component file.

## Main definitions

* `ComponentEntry` and `ComponentEntry.build`.
* `sliceExists`: whether there is a reference image of the component's design.
* `examplesReference`: the document that shows how a component is used.
* `buildComponents`: the entries of a component specification.
-/

namespace StyleGuide

/-- Where the properties of a component come from. -/
inductive PropsSource where
  /-- They are read from the source when the guide is put together. -/
  | extracted (source : Reference)
  /-- There are none. -/
  | none
deriving DecidableEq

/-- One component of a style guide. -/
structure ComponentEntry where
  /-- The file; an absolute path when the entry is compiled. -/
  filepath : Path
  displayName : String
  /-- The file, seen from the base directory. -/
  relativePath : Path
  pathLine : String
  imagePath : String
  hasSlice : Bool
  examples : Option Reference
  design : Option Reference
  module : Option Reference
  props : PropsSource
deriving DecidableEq

/-- The reference to an examples document, or to the shared default with the component's name
where there is none. -/
def examplesReference (fs : FileSystem) (document : Path) (name : String)
    (defaultExample : Option Path) (imagePath : String) : Option Reference :=
  if fs.pathExists document then
    some ((Reference.bare .examples document).withParam "imagePath" imagePath)
  else
    defaultExample.map fun shared =>
      ((Reference.bare .examples shared).withParam "imagePath" imagePath).withParam
        "componentName" name

/-- Where the reference image of a design is, beside the component. -/
def sliceAsset : String := "assets/slice.png"

/-- Whether there is a reference image. A component that is not named after its directory has
one only if its file has the name of the directory. -/
def sliceExists (fs : FileSystem) (c : Config) (file : Path) : Bool :=
  (file.isDirectoryRooted || file.parentName? == some file.stemText) &&
    fs.pathExists (c.locator file (some sliceAsset))

namespace ComponentEntry

/-- Whether the entry is for design notes and not for a component. -/
def isDesignDocument (e : ComponentEntry) : Bool := e.filepath.isDesignDocument

/-- The entry of a component file. Design notes have no examples, module or properties. -/
def build (fs : FileSystem) (c : Config) (file : Path) : ComponentEntry :=
  let name := file.displayName
  let relative := file.relativeTo (c.baseDirectory fs)
  let shown := fun document =>
    examplesReference fs document name c.defaultExample c.imagePath
  let notes := file.isDesignDocument
  { filepath := file
    displayName := name
    relativePath := relative
    pathLine := c.pathLine relative
    imagePath := c.imagePath
    hasSlice := sliceExists fs c file
    examples := if notes then none else shown (c.locator file none)
    design := shown (c.locator file (some Path.designFile))
    module := if notes then none else some (.bare .module file)
    props := if notes then .none else .extracted (.bare .props file) }

end ComponentEntry

/-- The entries of a component specification; `none` where there is no specification. -/
def buildComponents (fs : FileSystem) (c : Config) (spec : Option ComponentSpec) :
    Except CompileError (Option (List ComponentEntry)) :=
  match spec with
  | none => .ok none
  | some _ => (resolveComponents fs c spec).map fun files => some (files.map (.build fs c))

end StyleGuide
