import StyleGuide.CommandLine.Request
import StyleGuide.Config.File
import StyleGuide.FileSystem.Change
import StyleGuide.Json.Printer
import StyleGuide.Resolution
import StyleGuide.Tree

/-!
# Running the program

A run takes a file system and the arguments, and gives what is printed, how the program exits, and
the file system behind it. Nothing is changed before the whole text is there.

## Main definitions

* `artifact`: the value that a configuration file is compiled to.
* `run`: the whole program.
-/

namespace StyleGuide.CommandLine

/-- Why a compilation fails. -/
inductive Failure where
  | load (config : Path) (cause : ConfigError)
  | compile (cause : CompileError)
  | resolve (cause : ResolveError)
  | makeDirectory (path : Path) (cause : FileError)
  | write (path : Path) (cause : FileError)

/-- What is said about a compilation that fails. -/
def Failure.message : Failure → String
  | load config _ => "Failed to load " ++ config.text
  | compile _ => "Failed to compile documentation tree"
  | resolve _ => "Failed to resolve documentation tree"
  | makeDirectory path _ => "Failed to create " ++ path.text
  | write path _ => "Failed to write " ++ path.text

/-- The loaders that the program uses. -/
def registry : Registry := .standard .interface

/-- The value that a configuration file is compiled to. -/
def artifact (fs : FileSystem) (config : Path) (resolve : Bool) : Except Failure Json := do
  let c ← (Config.load fs config).mapError (.load config)
  let tree ← (StyleGuide.compile fs c).mapError .compile
  if resolve then (registry.resolve fs tree.toJson).mapError .resolve else pure tree.toJson

/-- Make the directory that a file is to stand in. -/
def makeParent (fs : FileSystem) (file : Path) : FileSystem × Except Failure Unit :=
  match file.parent? with
  | none => (fs, .ok ())
  | some directory =>
    if directory.bytes.isEmpty then (fs, .ok ())
    else
      let (fs, made) := fs.makeDirectories directory
      (fs, made.mapError (.makeDirectory directory))

/-- Write a text to a file, in a directory that is made where it is missing. -/
def writeOutput (fs : FileSystem) (file : Path) (text : String) :
    FileSystem × Except Failure Unit :=
  match makeParent fs file with
  | (fs, .error e) => (fs, .error e)
  | (fs, .ok ()) =>
    match fs.write file (Utf8.encode text) with
    | .ok fs => (fs, .ok ())
    | .error e => (fs, .error (.write file e))

/-- What a run of the program leaves. -/
structure Outcome where
  exitCode : Nat
  /-- What is printed. -/
  output : String
  /-- What is said when the program fails. -/
  message : Option String
  files : FileSystem

/-- Compile as requested. -/
def compile (fs : FileSystem) (r : CompileRequest) : Outcome :=
  match artifact fs r.config r.resolve with
  | .error e => ⟨1, "", some e.message, fs⟩
  | .ok value =>
    let text := value.pretty ++ "\n"
    match r.output with
    | none => ⟨0, text, none, fs⟩
    | some file =>
      match writeOutput fs file text with
      | (fs, .ok ()) => ⟨0, "", none, fs⟩
      | (fs, .error e) => ⟨1, "", some e.message, fs⟩

/-- The name and version of the program. -/
def versionText : String := "stylebook 0.1.0\n"

/-- Run the program. Help has no text of its own, and neither have arguments that cannot be
read. -/
def run (fs : FileSystem) (args : List String) : Outcome :=
  match Request.ofArguments args with
  | .error _ => ⟨2, "", none, fs⟩
  | .ok (.ask .help) => ⟨0, "", none, fs⟩
  | .ok (.ask .version) => ⟨0, versionText, none, fs⟩
  | .ok (.compile r) => compile fs r

end StyleGuide.CommandLine
