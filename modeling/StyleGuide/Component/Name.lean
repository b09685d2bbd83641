import StyleGuide.Path.Basic

/-!
# Names of components

What a component file is called when it does not say so itself. An `index` file and the design
notes speak for their directory; any other file speaks for itself.
-/

namespace StyleGuide.Path

/-- The file name of design notes. -/
def designFile : String := "DESIGN_README.md"

/-- The stem of a file name as text; empty when there is none or it is malformed. -/
def stemText (p : Path) : String := (p.stem?.bind Utf8.decode?).getD ""

/-- The name of the directory that holds the file. -/
def parentName? (p : Path) : Option String :=
  p.parent?.bind fun q => q.fileName?.bind Utf8.decode?

/-- Whether the component is named after its directory. -/
def isDirectoryRooted (p : Path) : Bool :=
  p.stemText == "index" || p.stemText == "DESIGN_README"

/-- Whether the file holds design notes and no component. -/
def isDesignDocument (p : Path) : Bool :=
  p.fileName?.bind Utf8.decode? == some designFile

/-- The name shown for a component: its directory's, or its stem, or its whole file name, or
`Component` where the path has no name at all. -/
def displayName (p : Path) : String :=
  let stem := p.stemText
  let name :=
    if p.isDirectoryRooted then (p.parentName?.filter (· ≠ "")).getD stem else stem
  if name ≠ "" then name
  else ((p.fileName?.bind Utf8.decode?).filter (· ≠ "")).getD "Component"

end StyleGuide.Path
