import StyleGuide.FileSystem.Basic
import StyleGuide.Locator
import StyleGuide.Path.Normal

/-!
# Configurations

What a style guide is compiled from: where its components are, how they are grouped into sections,
and how it is to be shown.

## Main definitions

* `ComponentSpec`: where the components of a section come from.
* `SectionDef`: a section as it is configured.
* `Config`: the whole configuration, with `Config.standard` as the one that says nothing.
* `Config.baseDirectory`: the directory that relative paths and patterns start from.
-/

namespace StyleGuide

/-- Where components come from. -/
inductive ComponentSpec where
  /-- A pattern, relative to the base directory. -/
  | pattern (text : String)
  /-- The given files, absolute or relative to the base directory. -/
  | listed (paths : List Path)
deriving DecidableEq

/-- A section as it is configured. -/
structure SectionDef where
  name : String
  /-- A document shown above the components. -/
  content : Option Path
  components : Option ComponentSpec
  sections : Option (List SectionDef)

/-- The configuration of a style guide. -/
structure Config where
  /-- Where relative paths start, as it was written. -/
  baseDir : Path
  /-- Where the assets of a component are. -/
  locator : Locator
  /-- The line shown for a component, from its path relative to the base directory. -/
  pathLine : Path → String
  components : Option ComponentSpec
  sections : Option (List SectionDef)
  /-- Whether components without an examples document are left out. -/
  skipWithoutExample : Bool
  /-- The document for components that have no examples of their own. -/
  defaultExample : Option Path
  /-- Where the images of designs are. -/
  imagePath : String
  title : String
  /-- Whether the source of examples is shown at once. -/
  showCode : Bool
  highlightTheme : String

namespace Config

/-- The configuration that says nothing. -/
def standard : Config where
  baseDir := .ofString "."
  locator := .sibling Locator.defaultExamplesFile
  pathLine := Path.text
  components := none
  sections := none
  skipWithoutExample := false
  defaultExample := none
  imagePath := ""
  title := "Style guide"
  showCode := false
  highlightTheme := "base16-light"

/-- The base directory as an absolute normal path. An empty one stays empty. -/
def baseDirectory (fs : FileSystem) (c : Config) : Path :=
  if c.baseDir.bytes = [] then c.baseDir else fs.currentPath.absolutize c.baseDir

/-- A configured path, seen from the base directory. -/
def resolvePath (fs : FileSystem) (c : Config) (p : Path) : Path :=
  (c.baseDirectory fs).absolutize p

end Config

end StyleGuide
