import StyleGuide.Component.Pattern
import StyleGuide.Config.Basic
import StyleGuide.FileSystem.Walk
import StyleGuide.Text.Blank

/-!
# Sets of components

The files that a component specification stands for.

## Main definitions

* `CompileError`: why a configuration cannot be compiled.
* `checkBaseDirectory`: the base directory has to be there.
* `expandPattern`: the files that match a pattern.
* `resolveComponents`: the files of a specification, as absolute paths.
-/

namespace StyleGuide

/-- Why a configuration cannot be compiled. -/
inductive CompileError where
  | invalidPattern (pattern : String) (cause : Glob.Error)
  | baseDirectory (path : Path) (cause : FileError)
  | notADirectory (path : Path)
  | walk (root : Path) (cause : FileSystem.WalkError)
deriving DecidableEq

/-- What is said about a configuration that cannot be compiled. -/
def CompileError.message : CompileError → String
  | invalidPattern pattern _ => "Invalid component pattern '" ++ pattern ++ "'"
  | baseDirectory path _ => "Base directory " ++ path.text ++ " is not accessible"
  | notADirectory path => "Base directory " ++ path.text ++ " is not a directory"
  | walk root _ => "Failed to read components under " ++ root.text

/-- The base directory has to be a directory. -/
def checkBaseDirectory (fs : FileSystem) (base : Path) : Except CompileError Unit :=
  match fs.look base with
  | .error e => .error (.baseDirectory base e)
  | .ok .directory => .ok ()
  | .ok _ => .error (.notADirectory base)

/-- Read a glob that is part of a pattern. -/
def readGlob (pattern : String) (glob : List Char) : Except CompileError Glob :=
  (Glob.parse glob).mapError (.invalidPattern pattern)

/-- The files below `root` that a glob matches. -/
def filesBelow (fs : FileSystem) (root : Path) (glob : Glob) (dotted : List Glob) :
    Except CompileError (List Path) :=
  match fs.walk (Pattern.allows dotted) root with
  | .error e => .error (.walk root e)
  | .ok found =>
    .ok ((found.filter fun names => glob.isMatch (joinWith Path.slash names)).map fun names =>
      names.foldl (fun p n => p.join ⟨n⟩) root)

/-- The files that match a pattern. A blank pattern matches nothing; a pattern without wildcards
names one file. -/
def expandPattern (fs : FileSystem) (pattern : String) (base : Path) :
    Except CompileError (List Path) := do
  if allBlank pattern.toList then
    return []
  checkBaseDirectory fs base
  let (directory, glob?) := Pattern.split pattern.toList
  let root := base.absolutize ⟨Utf8.encodeChars directory⟩
  match glob? with
  | none => return if fs.isFile root then [root] else []
  | some text =>
    let glob ← readGlob pattern text
    let dotted ← (Pattern.dotSegments text).mapM (readGlob pattern)
    if fs.isDirectory root then filesBelow fs root glob dotted else return []

/-- The files of a specification, as absolute paths in the order in which they are found. Files
without examples are left out where the configuration says so. -/
def resolveComponents (fs : FileSystem) (c : Config) (spec : Option ComponentSpec) :
    Except CompileError (List Path) := do
  let some spec := spec | return []
  let base := c.baseDirectory fs
  let files ← match spec with
    | .listed paths => pure paths
    | .pattern text => expandPattern fs text base
  let files := files.map base.absolutize
  return if c.skipWithoutExample then files.filter fun f => fs.pathExists (c.locator f none)
    else files

end StyleGuide
