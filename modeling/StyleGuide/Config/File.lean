import StyleGuide.Config.Basic
import StyleGuide.Toml.Document

/-!
# Configuration files

A configuration is written in TOML. Keys that are not known are ignored; a known key with a value of
the wrong kind, or a section without a name, makes the file malformed. Paths are seen from the
directory of the file.

## Main definitions

* `Config.ofToml`: the configuration that a text stands for.
* `Config.load`: the configuration that a file holds.
-/

namespace StyleGuide

/-- Why there is no configuration. -/
inductive ConfigError where
  | read (path : Path) (cause : FileError)
  | parse
deriving DecidableEq

/-- What is said when there is no configuration. -/
def ConfigError.message : ConfigError → String
  | read path _ => "Failed to read " ++ path.text
  | parse => "Failed to parse config"

namespace Config

/-- The text of a key that may be left out; `none` where its value is of another kind. -/
def textField (name : String) (fields : List (String × Toml)) : Option (Option String) :=
  match Toml.field? name fields with
  | none => some none
  | some (.string s) => some (some s)
  | some _ => none

/-- The truth value of a key, false where it is left out. -/
def flagField (name : String) (fields : List (String × Toml)) : Option Bool :=
  match Toml.field? name fields with
  | none => some false
  | some (.bool b) => some b
  | some _ => none

mutual

/-- A section: a table, or an array of its four fields in order. -/
def readSection : Toml → Option SectionDef
  | .table fields => do
    let name ← (← textField "name" fields)
    let content ← textField "content" fields
    let components ← textField "components" fields
    let sections ← readSubsections fields
    pure ⟨name, content.map .ofString, components.map .pattern, sections⟩
  | .array (.string name :: .string content :: .string components :: .array sections :: _) => do
    let sections ← readSections sections
    pure ⟨name, some (.ofString content), some (.pattern components), some sections⟩
  | _ => none

/-- The sections below a section, where its fields name any. -/
def readSubsections : List (String × Toml) → Option (Option (List SectionDef))
  | [] => some none
  | (k, v) :: rest =>
    if k = "sections" then
      match v with
      | .array items => (readSections items).map some
      | _ => none
    else readSubsections rest

/-- Sections in order. -/
def readSections : List Toml → Option (List SectionDef)
  | [] => some []
  | v :: rest => do
    let s ← readSection v
    let others ← readSections rest
    pure (s :: others)

end

/-- The configuration that the fields of a document stand for. -/
def ofFields (directory : Path) (fields : List (String × Toml)) : Option Config := do
  let title ← textField "title" fields
  let baseDir ← textField "base_dir" fields
  let components ← textField "components" fields
  let sections ← readSubsections fields
  let skip ← flagField "skip_components_without_example" fields
  let defaultExample ← textField "default_example" fields
  let imagePath ← textField "image_path" fields
  let showCode ← flagField "show_code" fields
  let highlightTheme ← textField "highlight_theme" fields
  let examplesFile ← textField "examples_file" fields
  let base := match baseDir with
    | some d => directory.absolutize (.ofString d)
    | none => directory
  pure
    { baseDir := base
      locator := .sibling (examplesFile.getD Locator.defaultExamplesFile)
      pathLine := standard.pathLine
      components := components.map .pattern
      sections := sections
      skipWithoutExample := skip
      defaultExample := defaultExample.map fun p => base.absolutize (.ofString p)
      imagePath := imagePath.getD standard.imagePath
      title := title.getD standard.title
      showCode := showCode
      highlightTheme := highlightTheme.getD standard.highlightTheme }

/-- The configuration that a text stands for, with paths seen from a directory. -/
def ofToml (text : String) (directory : Path) : Except ConfigError Config :=
  match (Toml.parse? text).bind (ofFields directory) with
  | some c => .ok c
  | none => .error .parse

/-- The directory that the paths in a configuration file are seen from. -/
def directoryOf (file : Path) : Path :=
  match file.parent? with
  | some d => if d.bytes = [] then .ofString "." else d
  | none => .ofString "."

/-- The configuration that a file holds. -/
def load (fs : FileSystem) (file : Path) : Except ConfigError Config :=
  match fs.readText file with
  | .error e => .error (.read file e)
  | .ok text => ofToml text (directoryOf file)

end Config

end StyleGuide
